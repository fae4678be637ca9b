import Krafters.Executor.Commands

/-!
# test_generator: Node, NodeGroup and Test

The builder of test files.  `Test` is the object, a list of lines that every method
appends to (`repeat_all` rewrites it).  `Built` is the run of calls that built a
`Test`, with the arguments a caller may pass; `Built.test` performs them and
`Built.meaning` lists the commands they stand for.
-/

namespace TestGenerator

open Py Executor

/-! ## Nodes -/

/-- A node with a numeric id, the text of `str(id)`. -/
structure Node where
  id : Text
  nonempty : id ≠ []
  numeric : ∀ c ∈ id, isAsciiDigit c = true

/-- An element of a group: a node, or `Node.random()`. -/
inductive Member
  | node (node : Node)
  | random

def Member.str : Member → Text
  | .node n => n.id
  | .random => "rand".toList

structure NodeGroup where
  nodes : List Member
  nonempty : nodes ≠ []

/-- `__str__` -/
def NodeGroup.str (g : NodeGroup) : Text :=
  let result := g.nodes.foldl (fun result node => result ++ (node.str ++ " ".toList)) []
  if 0 < result.length then result.dropLast else result

/-- What a method takes for sources or targets: `NodeGroup.all()`, a single node, a group. -/
inductive Endpoints
  | all
  | single (node : Member)
  | group (group : NodeGroup)

namespace Endpoints

def str : Endpoints → Text
  | .all => "all".toList
  | .single n => n.str
  | .group g => g.str

/-- The ids that are meant. -/
def ids : Endpoints → List Text
  | .all => ["all".toList]
  | .single n => [n.str]
  | .group g => g.nodes.map Member.str

end Endpoints

/-! ## Test -/

structure Test where
  testLines : List Text := []

def fromToCommand (sources targets : Endpoints) (bidirectional : Bool) (netemCommand : Text) : Text :=
  if bidirectional then
    "from ".toList ++ sources.str ++ " to ".toList ++ targets.str ++ " bidirectional set ".toList ++
      netemCommand
  else
    "from ".toList ++ sources.str ++ " to ".toList ++ targets.str ++ " set ".toList ++ netemCommand

/-- `"delay {}ms".format(str(delay))` -/
def delayRule (delay : Text) : Text := "delay ".toList ++ delay ++ "ms".toList

/-- `"loss {}%".format(str(loss))` -/
def lossRule (loss : Text) : Text := "loss ".toList ++ loss ++ "%".toList

namespace Test

variable (t : Test)

def append (line : Text) : Test := { testLines := t.testLines ++ [line] }

def run (nOp : Nat) : Test := t.append ("run ".toList ++ natText nOp)

def reset : Test := t.append "reset".toList

def setRule (rule : Text) (sources targets : Endpoints := .all) (bidirectional : Bool := false) :
    Test :=
  t.append (fromToCommand sources targets bidirectional rule)

def setDelay (delay : Text) (sources targets : Endpoints := .all) (bidirectional : Bool := false) :
    Test :=
  t.append (fromToCommand sources targets bidirectional (delayRule delay))

def setLoss (loss : Text) (sources targets : Endpoints := .all) (bidirectional : Bool := false) :
    Test :=
  t.append (fromToCommand sources targets bidirectional (lossRule loss))

def partition (group1 group2 : Endpoints) : Test := t.setLoss (natText 100) group1 group2 true

def getLines : List Text := t.testLines

/-- "do", the lines behind a tab, and the "times" line: what both repetitions write. -/
def doTimes (lines : List Text) (times : Nat) : List Text :=
  "do".toList :: (lines.map fun line => '\t' :: line) ++ [natText times ++ " times".toList]

/-- `repeat(test, times)` -/
def repeatTest (test : Test) (times : Nat) : Test :=
  { testLines := t.testLines ++ doTimes test.getLines times }

def repeatAll (times : Nat) : Test := { testLines := doTimes t.testLines times }

/-- What `print_to_file` writes. -/
def printToFile : Text := t.testLines.flatMap fun line => line ++ "\n".toList

end Test

/-! ## Runs of calls -/

/-- A rule that starts with a lowercase word. -/
structure Rule where
  text : Text
  lowercase : ∃ c rest, text = c :: rest ∧ isLower c = true

/-- A `Test()` and the calls made on it, the last one outermost.  The test given to `repeat` has
its own calls, up to then. -/
inductive Built
  | init
  | run (t : Built) (nOp : Nat)
  | reset (t : Built)
  | setDelay (t : Built) (delay : Text) (sources targets : Endpoints) (bidirectional : Bool)
  | setLoss (t : Built) (loss : Text) (sources targets : Endpoints) (bidirectional : Bool)
  | setRule (t : Built) (rule : Rule) (sources targets : Endpoints) (bidirectional : Bool)
  | partition (t : Built) (group1 group2 : Endpoints)
  | repeatTest (t test : Built) (times : Nat) (pos : 1 ≤ times)
  | repeatAll (t : Built) (times : Nat) (pos : 1 ≤ times)

namespace Built

/-- The object after the calls. -/
def test : Built → Test
  | init => {}
  | run t nOp => t.test.run nOp
  | reset t => t.test.reset
  | setDelay t delay sources targets bidirectional =>
    t.test.setDelay delay sources targets bidirectional
  | setLoss t loss sources targets bidirectional => t.test.setLoss loss sources targets bidirectional
  | setRule t rule sources targets bidirectional =>
    t.test.setRule rule.text sources targets bidirectional
  | partition t group1 group2 => t.test.partition group1 group2
  | repeatTest t test times _ => t.test.repeatTest test.test times
  | repeatAll t times _ => t.test.repeatAll times

/-- The command of a link call. -/
def link (sources targets : Endpoints) (bidirectional : Bool) (rule : Text) : Call :=
  .modifyLinkFromTo sources.ids targets.ids rule bidirectional

/-- The commands of the calls in order, a repeated test unrolled. -/
def meaning : Built → List Call
  | init => []
  | run t nOp => t.meaning ++ [.runCommand nOp "no_name".toList]
  | reset t => t.meaning ++ [.reset]
  | setDelay t delay sources targets bidirectional =>
    t.meaning ++ [link sources targets bidirectional (delayRule delay)]
  | setLoss t loss sources targets bidirectional =>
    t.meaning ++ [link sources targets bidirectional (lossRule loss)]
  | setRule t rule sources targets bidirectional =>
    t.meaning ++ [link sources targets bidirectional rule.text]
  | partition t group1 group2 =>
    t.meaning ++ [link group1 group2 true "loss 100%".toList]
  | repeatTest t test times _ => t.meaning ++ (List.replicate times test.meaning).flatten
  | repeatAll t times _ => (List.replicate times t.meaning).flatten

end Built

end TestGenerator
