import Krafters.Executor.Commands

/-!
# test_executor.CommandUnwrapper: validation of a command, up to the closure it returns

Each method returns the closure that `main` calls in the next stage.  The loops
that draw random ids consume a list of draws, each what `randrange(nodes_number)`
gave; `none` means that the draws ran out while the loop was still running.

Sets of ids are lists without repetition in the order of insertion.
-/

namespace Executor

open Py

/-! ## Closures -/

/-- A bound method of `Executor` with its arguments. -/
inductive ExecutorCall
  | runCommand (nOp : Nat) (label : Text)
  | modifyLinkFromTo (sources targets : List Nat) (netemCommand : Text) (bidirectional : Bool)
deriving DecidableEq, Repr

/-- The callables handed to `attach_line`: `partial(function, *arguments)` of a command,
`partial(self.executor…)`, and `partial(f)` around another one. -/
inductive Closure
  | command (call : Call)
  | executor (call : ExecutorCall)
  | wrap (f : Closure)
deriving DecidableEq, Repr

/-- An element of an id list: the parser gives texts, `modify_random_link` integers. -/
inductive IdToken
  | str (s : Text)
  | int (n : Nat)
deriving DecidableEq, Repr

structure CommandUnwrapper where
  nodesNumber : Nat
  localExecution : Bool
deriving DecidableEq, Repr

namespace CommandUnwrapper

variable (u : CommandUnwrapper)

/-! ## Ids -/

/-- `s.add(x)` -/
def setAdd {α : Type} [DecidableEq α] (s : List α) (x : α) : List α := if x ∈ s then s else s ++ [x]

def rand : Text := "rand".toList

def all : Text := "all".toList

def idError (message : Text) : PyExc := .test { type := .idError, message }

/-- The first loop of `resolve_ids`: the numerals referred to and the number of "rand". -/
def referred : List IdToken → List Nat → Nat → Except PyExc (List Nat × Nat)
  | [], referredIds, count => .ok (referredIds, count)
  | .int _ :: _, _, _ => .error (.other .attributeError)
  | .str value :: rest, referredIds, count =>
    if isDigit value then
      match pyInt value with
      | some integer => referred rest (setAdd referredIds integer) count
      | none => .error (.other .valueError)
    else referred rest referredIds (if value = rand then count + 1 else count)

/-- The random loop of `resolve_ids` with `count` draws owed. -/
def drawRandom {n : Nat} : Nat → List Nat → List Nat → List (Fin n) → Option (List Nat)
  | 0, _, randomValues, _ => some randomValues
  | _ + 1, _, _, [] => none
  | count + 1, referredIds, randomValues, d :: draws =>
    let ran := d.val + 1
    if ran ∈ referredIds then drawRandom (count + 1) referredIds randomValues draws
    else drawRandom count (setAdd referredIds ran) (randomValues ++ [ran]) draws

/-- `resolve(ids, random_values)` with the set built so far; the second list of the result is
what is left of `random_values`. -/
def resolve : List IdToken → List Nat → List Nat → Except PyExc (List Nat × List Nat)
  | [], randomValues, result => .ok (result, randomValues)
  | .int _ :: _, _, _ => .error (.other .attributeError)
  | .str value :: rest, randomValues, result =>
    if isDigit value then
      match pyInt value with
      | none => .error (.other .valueError)
      | some integer =>
        if u.nodesNumber < integer then
          .error (idError ("Id ".toList ++ value ++ " out of range ".toList))
        else resolve rest randomValues (setAdd result integer)
    else if value = rand then
      match randomValues with
      | [] => .error (.other .indexError)
      | ran :: randomValues => resolve rest randomValues (setAdd result ran)
    else if value = all then
      resolve rest randomValues
        ((List.range u.nodesNumber).foldl (fun result i => setAdd result (i + 1)) result)
    else .error (idError ("Id ".toList ++ value ++ " is not valid".toList))

/-- `resolve_ids(sources, targets)` -/
def resolveIds (sources targets : List IdToken) (draws : List (Fin u.nodesNumber)) :
    Option (Except PyExc (List Nat × List Nat)) :=
  match referred (sources ++ targets) [] 0 with
  | .error e => some (.error e)
  | .ok (referredIds, count) =>
    if u.nodesNumber < referredIds.length + count then
      some (.error (idError "'Rand' keyword has been used too many times!".toList))
    else
      (drawRandom count referredIds [] draws).map fun randomValues => do
        let (rSources, randomValues) ← u.resolve sources randomValues []
        let (rTargets, _) ← u.resolve targets randomValues []
        return (rSources, rTargets)

/-! ## The methods of the four commands -/

def localExecutionError : PyExc :=
  .test {
    type := .localExecutionError
    message := "impossible to specify single sources in local commands".toList }

/-- The guard of local mode: too few sources raise, and otherwise a bidirectional command compares
the set of targets with an integer, a `TypeError`. -/
def localGuard (sources : List Nat) (bidirectional : Bool) : Except PyExc Unit :=
  if u.localExecution then
    if sources.length + 1 < u.nodesNumber then .error localExecutionError
    else if bidirectional then .error (.other .typeError)
    else .ok ()
  else .ok ()

def modifyLinkFromTo (sources targets : List IdToken) (netemCommand : Text) (bidirectional : Bool)
    (draws : List (Fin u.nodesNumber)) : Option (Except PyExc Closure) :=
  (u.resolveIds sources targets draws).map fun resolved => do
    let (sources, targets) ← resolved
    u.localGuard sources bidirectional
    return .executor (.modifyLinkFromTo sources targets netemCommand bidirectional)

/-- The variables of the selection loop of `modify_random_link`. -/
structure Selection where
  selected : List Text := []
  nSelected : Nat := 0
  sources : List Nat := []
  targets : List Nat := []
deriving DecidableEq, Repr

/-- `str(source) + "-" + str(target)` -/
def linkText (source target : Nat) : Text := natText source ++ '-' :: natText target

/-- The body of the selection loop once `source` and `target` differ. -/
def Selection.add (s : Selection) (bidirectional : Bool) (source target : Nat) : Selection :=
  if linkText source target ∈ s.selected then s
  else
    { selected := setAdd
        (if bidirectional then setAdd s.selected (linkText target source) else s.selected)
        (linkText source target)
      nSelected := s.nSelected + 1
      sources := setAdd s.sources source
      targets := setAdd s.targets target }

/-- The two nested loops: `source` is `some` while a different target is drawn.  The list left is
the draws not used. -/
def selectLinks {n : Nat} (connectionNumber : Nat) (bidirectional : Bool) :
    List (Fin n) → Option Nat → Selection → Option (Selection × List (Fin n))
  | [], none, s => if s.nSelected < connectionNumber then none else some (s, [])
  | d :: draws, none, s =>
    if s.nSelected < connectionNumber then
      selectLinks connectionNumber bidirectional draws (some (d.val + 1)) s
    else some (s, d :: draws)
  | [], some _, _ => none
  | d :: draws, some source, s =>
    if d.val + 1 = source then selectLinks connectionNumber bidirectional draws (some source) s
    else selectLinks connectionNumber bidirectional draws none (s.add bidirectional source (d.val + 1))

def modifyRandomLink (connectionNumber : Nat) (netemCommand : Text) (bidirectional : Bool)
    (draws : List (Fin u.nodesNumber)) : Option (Except PyExc Closure) :=
  (selectLinks connectionNumber bidirectional draws none {}).bind fun (s, draws) =>
    u.modifyLinkFromTo (s.sources.map .int) (s.targets.map .int) netemCommand bidirectional draws

def delay0 : Text := "delay 0ms".toList

def reset (draws : List (Fin u.nodesNumber)) : Option (Except PyExc Closure) :=
  (u.modifyLinkFromTo [.str all] [.str all] delay0 false draws).map fun closure => closure.map .wrap

def runCommand (nOp : Nat) (label : Text) : Option (Except PyExc Closure) :=
  some (.ok (.executor (.runCommand nOp label)))

/-- Calling the bound method of a command. -/
def invoke (call : Call) (draws : List (Fin u.nodesNumber)) : Option (Except PyExc Closure) :=
  match call with
  | .modifyLinkFromTo sources targets netemCommand bidirectional =>
    u.modifyLinkFromTo (sources.map .str) (targets.map .str) netemCommand bidirectional draws
  | .modifyRandomLink connectionNumber netemCommand bidirectional =>
    u.modifyRandomLink connectionNumber netemCommand bidirectional draws
  | .reset => u.reset draws
  | .runCommand nOp label => runCommand nOp label

/-! ## Every command kind has two stages -/

/-- The closures of the execution stage: a method of `Executor`, possibly wrapped. -/
def Executes : Closure → Prop
  | .command _ => False
  | .executor _ => True
  | .wrap f => Executes f

/-- What it takes for `modify_link_from_to` to return a command. -/
theorem modifyLinkFromTo_ok {sources targets : List IdToken} {netemCommand : Text}
    {bidirectional : Bool} {draws : List (Fin u.nodesNumber)} {f : Closure} :
    u.modifyLinkFromTo sources targets netemCommand bidirectional draws = some (.ok f) ↔
      ∃ s t, u.resolveIds sources targets draws = some (.ok (s, t)) ∧
        u.localGuard s bidirectional = .ok () ∧
        f = .executor (.modifyLinkFromTo s t netemCommand bidirectional) := by
  unfold modifyLinkFromTo
  constructor
  · intro h
    obtain ⟨resolved, hresolved, h⟩ := Option.map_eq_some_iff.mp h
    cases resolved with
    | error e => cases h
    | ok r =>
      cases hg : u.localGuard r.1 bidirectional with
      | error e => simp [bind, Except.bind, hg] at h
      | ok _ =>
        simp only [bind, Except.bind, hg, pure, Except.pure, Except.ok.injEq] at h
        exact ⟨r.1, r.2, hresolved, hg, h.symm⟩
  · rintro ⟨s, t, hresolved, hg, rfl⟩
    simp only [hresolved, Option.map_some, bind, Except.bind, hg, pure, Except.pure]

theorem modifyLinkFromTo_executes {sources targets : List IdToken} {netemCommand : Text}
    {bidirectional : Bool} {draws : List (Fin u.nodesNumber)} {f : Closure}
    (h : u.modifyLinkFromTo sources targets netemCommand bidirectional draws = some (.ok f)) :
    ∃ s t, f = .executor (.modifyLinkFromTo s t netemCommand bidirectional) := by
  obtain ⟨s, t, -, -, hf⟩ := u.modifyLinkFromTo_ok.mp h
  exact ⟨s, t, hf⟩

/-- Whatever a validated command returns, calling it runs an `Executor` method: `reset` wraps a
closure in a closure, random links delegate. -/
theorem invoke_executes {call : Call} {draws : List (Fin u.nodesNumber)} {f : Closure}
    (h : u.invoke call draws = some (.ok f)) : Executes f := by
  cases call with
  | modifyLinkFromTo sources targets netemCommand bidirectional =>
    obtain ⟨s, t, rfl⟩ := u.modifyLinkFromTo_executes h
    trivial
  | modifyRandomLink connectionNumber netemCommand bidirectional =>
    obtain ⟨r, -, hr⟩ := Option.bind_eq_some_iff.mp h
    obtain ⟨s, t, rfl⟩ := u.modifyLinkFromTo_executes hr
    trivial
  | reset =>
    obtain ⟨r, hr, h⟩ := Option.map_eq_some_iff.mp h
    cases r with
    | error e => cases h
    | ok g =>
      obtain ⟨s, t, rfl⟩ := u.modifyLinkFromTo_executes hr
      cases h
      trivial
  | runCommand nOp label =>
    cases h
    trivial

/-! ## A TestException of a validation has no line -/

theorem referred_no_test (ids : List IdToken) :
    ∀ (referredIds : List Nat) (count : Nat) (e : TestException),
      referred ids referredIds count ≠ .error (.test e) := by
  induction ids with
  | nil => intro _ _ _ h; cases h
  | cons id rest ih =>
    intro referredIds count e h
    cases id with
    | int n => simp [referred] at h
    | str value =>
      simp only [referred] at h
      split at h
      · split at h
        · exact ih _ _ e h
        · simp at h
      · exact ih _ _ e h

theorem resolve_line (ids : List IdToken) :
    ∀ (randomValues result : List Nat) (e : TestException),
      u.resolve ids randomValues result = .error (.test e) → e.line = -1 := by
  induction ids with
  | nil => intro _ _ _ h; cases h
  | cons id rest ih =>
    intro randomValues result e h
    cases id with
    | int n => simp [resolve] at h
    | str value =>
      simp only [resolve] at h
      split at h
      · split at h
        · simp at h
        · split at h
          · simp only [Except.error.injEq, idError, PyExc.test.injEq] at h
            rw [← h]
          · exact ih _ _ e h
      · split at h
        · split at h
          · simp at h
          · exact ih _ _ e h
        · split at h
          · exact ih _ _ e h
          · simp only [Except.error.injEq, idError, PyExc.test.injEq] at h
            rw [← h]

theorem resolveIds_line {sources targets : List IdToken} {draws : List (Fin u.nodesNumber)}
    {e : TestException} (h : u.resolveIds sources targets draws = some (.error (.test e))) :
    e.line = -1 := by
  unfold resolveIds at h
  cases hr : referred (sources ++ targets) [] 0 with
  | error x =>
    rw [hr] at h
    simp only [Option.some.injEq, Except.error.injEq] at h
    exact absurd (h ▸ hr) (referred_no_test _ _ _ e)
  | ok r =>
    simp only [hr] at h
    split at h
    · simp only [Option.some.injEq, Except.error.injEq, idError, PyExc.test.injEq] at h
      rw [← h]
    · obtain ⟨randomValues, -, h⟩ := Option.map_eq_some_iff.mp h
      cases hs : u.resolve sources randomValues [] with
      | error x =>
        simp only [hs, bind, Except.bind, Except.error.injEq] at h
        exact u.resolve_line _ _ _ e (h ▸ hs)
      | ok s =>
        cases ht : u.resolve targets s.2 [] with
        | error x =>
          simp only [hs, ht, bind, Except.bind, Except.error.injEq] at h
          exact u.resolve_line _ _ _ e (h ▸ ht)
        | ok t => simp [hs, ht, bind, Except.bind, pure, Except.pure] at h

theorem modifyLinkFromTo_line {sources targets : List IdToken} {netemCommand : Text}
    {bidirectional : Bool} {draws : List (Fin u.nodesNumber)} {e : TestException}
    (h : u.modifyLinkFromTo sources targets netemCommand bidirectional draws =
      some (.error (.test e))) : e.line = -1 := by
  unfold modifyLinkFromTo at h
  obtain ⟨resolved, hr, h⟩ := Option.map_eq_some_iff.mp h
  cases resolved with
  | error x =>
    simp only [bind, Except.bind, Except.error.injEq] at h
    exact u.resolveIds_line (h ▸ hr)
  | ok r =>
    cases hg : u.localGuard r.1 bidirectional with
    | error x =>
      simp only [bind, Except.bind, hg, Except.error.injEq] at h
      subst h
      unfold localGuard at hg
      split at hg
      · split at hg
        · simp only [Except.error.injEq, localExecutionError, PyExc.test.injEq] at hg
          rw [← hg]
        · split at hg <;> simp at hg
      · simp at hg
    | ok _ => simp [bind, Except.bind, hg, pure, Except.pure] at h

theorem invoke_line {call : Call} {draws : List (Fin u.nodesNumber)} {e : TestException}
    (h : u.invoke call draws = some (.error (.test e))) : e.line = -1 := by
  cases call with
  | modifyLinkFromTo sources targets netemCommand bidirectional => exact u.modifyLinkFromTo_line h
  | modifyRandomLink connectionNumber netemCommand bidirectional =>
    obtain ⟨r, -, hr⟩ := Option.bind_eq_some_iff.mp h
    exact u.modifyLinkFromTo_line hr
  | reset =>
    obtain ⟨r, hr, h⟩ := Option.map_eq_some_iff.mp h
    cases r with
    | error x =>
      simp only [Except.map, Except.error.injEq] at h
      exact u.modifyLinkFromTo_line (h ▸ hr)
    | ok g => cases h
  | runCommand nOp label => cases h

end CommandUnwrapper

end Executor
