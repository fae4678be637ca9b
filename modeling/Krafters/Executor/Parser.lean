import Krafters.Lib.Regex
import Krafters.Executor.Commands

/-!
# test_executor.Parser: from the lines of a test file to the command list

`lineKind` is the `if`/`elif` chain of `parse` on one right-stripped line, with the
parameters `get_params` and `get_times` extract; `parseStep` is one turn of the
`while` loop, `parse` the loop from its first state.  The loop jumps backwards, so
`parse` runs on fuel: `none` is "still running", and more fuel never changes an
answer (`parseLoop_mono`).

`pointers[do_open]` is Python's indexing: a negative index counts from the end.
-/

namespace Executor

open Py Regex

namespace Parser

/-! ## Patterns -/

/-- ` *` and ` +` -/
def blanks : Regex := star (cls (· == ' '))

def blanks1 : Regex := plus (cls (· == ' '))

def digits : Regex := plus (cls isAsciiDigit)

/-- `(all +|(([0-9]+|rand) +)+)` -/
def idsPattern : Regex :=
  alt (parts [lit "all".toList, blanks1])
    (plus (parts [alt digits (lit "rand".toList), blanks1]))

/-- `(bidirectional +)?set +[a-z]+`; the `.*` behind it always matches. -/
def rulePattern : Regex :=
  parts [opt (parts [lit "bidirectional".toList, blanks1]), lit "set".toList, blanks1,
    plus (cls isLower)]

def modifyLinkPattern : Regex :=
  parts [blanks, lit "from".toList, blanks1, idsPattern, lit "to".toList, blanks1, idsPattern,
    rulePattern]

def modifyRandomLinkPattern : Regex :=
  parts [blanks, lit "on".toList, blanks1, digits, blanks1, lit "connection".toList,
    opt (lit "s".toList), blanks1, rulePattern]

def resetPattern : Regex := parts [blanks, lit "reset".toList, blanks]

/-- `[A-Za-z_]` -/
def isLabelLetter (c : Char) : Bool :=
  isLower c || (65 ≤ c.toNat && c.toNat ≤ 90) || c == '_'

def runPattern : Regex :=
  parts [blanks, lit "run".toList, blanks1, digits,
    opt (parts [blanks1, plus (cls isLabelLetter)]), blanks]

def doPattern : Regex := parts [blanks, lit "do".toList, blanks]

def timesPattern : Regex :=
  parts [blanks, digits, blanks1, lit "time".toList, opt (lit "s".toList), blanks]

/-! ## Parameters of a line -/

/-- `l[i]` for a list: a negative index counts from the end, `none` is `IndexError`. -/
def pyIndex (len : Nat) (i : Int) : Option Nat :=
  if 0 ≤ i then (if i < len then some i.toNat else none)
  else if 0 ≤ len + i then some (len + i).toNat else none

def getTimes (testLine : Text) : Except OtherError Nat :=
  match splitWs testLine with
  | [] => .error .indexError
  | token :: _ => (pyInt token).elim (.error .valueError) .ok

/-- `get_params(test_line, "run")`: `nop` and `label`. -/
def getParamsRun (testLine : Text) : Except OtherError (Text × Text) :=
  match splitWs testLine with
  | _ :: nop :: label :: _ => .ok (nop, label)
  | [_, nop] => .ok (nop, "no_name".toList)
  | _ => .error .indexError

structure LinkParams where
  sources : List Text
  targets : List Text
  netemCommand : Text
  bidirectional : Bool
deriving DecidableEq, Repr

/-- What `get_params` does for "link" and "rlink" alike: the text between the first two "set",
the text before the first one with " bidirectional" taken out, and whether it was there. -/
def getParamsRule (testLine : Text) : Except OtherError (Text × Text × Bool) :=
  match splitOn "set".toList testLine with
  | firstPart :: netemCommand :: _ =>
    if hasSub " bidirectional ".toList firstPart then
      .ok (netemCommand, replace " bidirectional".toList [] firstPart, true)
    else .ok (netemCommand, firstPart, false)
  | _ => .error .indexError

/-- `get_params(test_line, "link")` -/
def getParamsLink (testLine : Text) : Except OtherError LinkParams := do
  let (netemCommand, firstPart, bidirectional) ← getParamsRule testLine
  match splitOn "to".toList firstPart with
  | source :: destination :: _ =>
    .ok { sources := splitWs (replace "from".toList [] source)
          targets := splitWs destination
          netemCommand, bidirectional }
  | _ => .error .indexError

/-- `get_params(test_line, "rlink")`: `connection_number`, `netem_command`, `bidirectional`. -/
def getParamsRlink (testLine : Text) : Except OtherError (Nat × Text × Bool) := do
  let (netemCommand, firstPart, bidirectional) ← getParamsRule testLine
  match splitWs (replace "on".toList [] firstPart) with
  | token :: _ =>
    match pyInt token with
    | some connectionNumber => .ok (connectionNumber, netemCommand, bidirectional)
    | none => .error .valueError
  | [] => .error .indexError

/-! ## One line -/

/-- What `parse` takes a right-stripped line for.  `malformed` is an exception raised while its
parameters are extracted, `unknown` the last `else`. -/
inductive LineKind
  | blank
  | command (call : Call)
  | doLine
  | timesLine (times : Nat)
  | malformed
  | unknown
deriving DecidableEq, Repr

/-- The branch an extracted value leads to. -/
def LineKind.ofParams {α : Type} (f : α → LineKind) : Except OtherError α → LineKind
  | .ok a => f a
  | .error _ => .malformed

def lineKind (testLine : Text) : LineKind :=
  if testLine.isEmpty then .blank
  else if matchAt modifyLinkPattern testLine then
    .ofParams (fun p => .command (.modifyLinkFromTo p.sources p.targets p.netemCommand p.bidirectional))
      (getParamsLink testLine)
  else if matchAt modifyRandomLinkPattern testLine then
    .ofParams (fun (k, netemCommand, bidirectional) =>
        .command (.modifyRandomLink k netemCommand bidirectional)) (getParamsRlink testLine)
  else if matchAt resetPattern testLine then .command .reset
  else if matchAt runPattern testLine then
    .ofParams (fun (nop, label) => (pyInt nop).elim .malformed fun n => .command (.runCommand n label))
      (getParamsRun testLine)
  else if matchAt doPattern testLine then .doLine
  else if matchAt timesPattern testLine then .ofParams .timesLine (getTimes testLine)
  else .unknown

/-! ## The loop -/

/-- One cell of `pointers`. -/
structure Pointer where
  start : Nat
  repetition : Nat
deriving DecidableEq, Repr

/-- The local variables of `parse`. -/
structure State where
  doOpen : Int
  pointers : List Pointer
  index : Nat
  commandsList : List Command
deriving DecidableEq, Repr

def State.init : State := { doOpen := -1, pointers := [], index := 0, commandsList := [] }

def syntaxError (testLine : Text) (index : Nat) : TestException where
  type := .syntaxError
  message := "Syntax error in command '".toList ++ testLine ++ "'".toList
  line := index + 1

def unknownCommand (testLine : Text) (index : Nat) : TestException where
  type := .syntaxError
  message := "Command '".toList ++ testLine ++ "' is unknown".toList
  line := index + 1

/-- The `do` branch: a new cell, or the cell `pointers[do_open]` set back; `none` is `IndexError`. -/
def openBlock (s : State) : Option State :=
  let doOpen := s.doOpen + 1
  let cell : Pointer := { start := s.index, repetition := 1 }
  if (s.pointers.length : Int) < doOpen + 1 then
    some { s with doOpen, pointers := s.pointers ++ [cell] }
  else
    (pyIndex s.pointers.length doOpen).map fun k => { s with doOpen, pointers := s.pointers.set k cell }

/-- The `times` branch. -/
def closeBlock (s : State) (times : Nat) : Option State :=
  (pyIndex s.pointers.length s.doOpen).bind fun k =>
    s.pointers[k]?.map fun cell =>
      if cell.repetition < times then
        { s with index := cell.start
                 pointers := s.pointers.set k { cell with repetition := cell.repetition + 1 } }
      else { s with doOpen := s.doOpen - 1 }

/-- The branch taken for a line, before `index += 1`. -/
def branch (testLine : Text) (s : State) : Except TestException State :=
  match lineKind testLine with
  | .blank => .ok s
  | .command call =>
    .ok { s with commandsList := s.commandsList ++ [{ call, line := s.index + 1 }] }
  | .doLine => (openBlock s).elim (.error (syntaxError testLine s.index)) .ok
  | .timesLine times => (closeBlock s times).elim (.error (syntaxError testLine s.index)) .ok
  | .malformed => .error (syntaxError testLine s.index)
  | .unknown => .error (unknownCommand testLine s.index)

/-- One turn of the loop on the line at `index`. -/
def parseStep (line : Text) (s : State) : Except TestException State :=
  (branch (rstrip line) s).map fun s' => { s' with index := s'.index + 1 }

/-- `while index < len(test_file)` -/
def parseLoop (testFile : List Text) : Nat → State → Option (Except TestException (List Command))
  | 0, _ => none
  | fuel + 1, s =>
    match testFile[s.index]? with
    | none => some (.ok s.commandsList)
    | some line =>
      match parseStep line s with
      | .ok s' => parseLoop testFile fuel s'
      | .error e => some (.error e)

/-- `parse(test_file)`, which first appends a "reset" line. -/
def parse (fuel : Nat) (testFile : List Text) : Option (Except TestException (List Command)) :=
  parseLoop (testFile ++ ["reset".toList]) fuel State.init

end Parser

end Executor
