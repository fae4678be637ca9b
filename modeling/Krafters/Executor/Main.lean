import Krafters.Executor.ParserUnroll
import Krafters.Executor.Unwrapper

/-!
# test_executor.main: the queue of closures

`attachLine` and `mainLoop` are the source's; what a call into `CommandUnwrapper` or
`Executor` does is the `Behaviour`: for each command an outcome of its validation
and one of its execution, any exception or a normal return of what the code returns.

The queue is first in, first out and every stage re-appends its continuation, so a
run is made of passes over the queue (`mainLoop_pass`), and `main` is the two loops
it nowhere writes down:

    main … = some (twoPhase B commands)                              (main_eq_twoPhase)
-/

open Py Executor.Parser

namespace Executor

/-! ## Outcomes -/

inductive Stage
  | check
  | execute
deriving DecidableEq, Repr

/-- What the calls made for the command at each position of `commands` do: an exception, or a
normal return.  A `TestException` comes without a line number from `CommandUnwrapper` and
`NetemMaster`; a validation that returns gives a closure the code gives for some draws. -/
structure Behaviour (u : CommandUnwrapper) (commands : List Command) where
  check : Nat → Except PyExc Closure
  execute : Nat → Except PyExc Unit
  check_line : ∀ j e, check j = .error (.test e) → e.isLineDefined = false
  execute_line : ∀ j e, execute j = .error (.test e) → e.isLineDefined = false
  check_returns : ∀ j c f, commands[j]? = some c → check j = .ok f →
    ∃ draws, u.invoke c.call draws = some (.ok f)

/-- The calls made, in order: the stage and the position of the command. -/
abbrev Trace := List (Stage × Nat)

/-! ## Algorithm -/

/-- A queued `partial(attach_line, fun, line)`; `position` only names the command. -/
structure Attached where
  fn : Option Closure
  line : Nat
  position : Nat
deriving DecidableEq, Repr

variable {u : CommandUnwrapper} {commands : List Command}

/-- `fun()`: the closure of the next stage or `None`. -/
def callClosure (B : Behaviour u commands) (j : Nat) : Closure → Except PyExc (Option Closure)
  | .command _ => (B.check j).map some
  | .executor _ => (B.execute j).map fun _ => none
  | .wrap f => callClosure B j f

def Closure.stage : Closure → Stage
  | .command _ => .check
  | .executor _ => .execute
  | .wrap f => f.stage

/-- `attach_line(fun, line)`.  The bare `except` drops every other exception, and so does the
missing `else` a `TestException` that has its line. -/
def attachLine (B : Behaviour u commands) (a : Attached) : Except TestException (Option Attached) :=
  match a.fn with
  | none => .ok none
  | some f =>
    match callClosure B a.position f with
    | .ok g => .ok (some { a with fn := g })
    | .error (.test e) => if e.isLineDefined then .ok none else .error (e.setLine a.line)
    | .error (.other _) => .ok none

/-- The call `attach_line` makes. -/
def Attached.called (a : Attached) : Trace := (a.fn.map fun f => (f.stage, a.position)).toList

/-- `while command_list` -/
def mainLoop (B : Behaviour u commands) :
    Nat → List Attached → Trace → Option (Except TestException Unit × Trace)
  | 0, _, _ => none
  | _ + 1, [], trace => some (.ok (), trace)
  | fuel + 1, a :: commandList, trace =>
    match attachLine B a with
    | .error e => some (.error e, trace ++ a.called)
    | .ok command => mainLoop B fuel (commandList ++ command.toList) (trace ++ a.called)

/-- The list `parse` returns. -/
def queued (commands : List Command) : List Attached :=
  commands.mapIdx fun j c => { fn := some (.command c.call), line := c.line, position := j }

/-- `main` from the lines of the test file on: `.ok ()` is the end "Run completed successfully",
`.error e` prints `e` and exits with status 1. -/
def main (u : CommandUnwrapper) (testFile : List Text)
    (B : (commands : List Command) → Behaviour u commands) (fuel : Nat) :
    Option (Except TestException Unit × Trace) :=
  match parse fuel testFile with
  | none => none
  | some (.error e) => some (.error e, [])
  | some (.ok commands) => mainLoop (B commands) fuel (queued commands) []

/-! ## The two loops -/

/-- The `TestException` a stage raises. -/
def raised {α : Type} : Except PyExc α → Option TestException
  | .error (.test e) => some e
  | _ => none

/-- Calls a stage for the positions in order, up to the first that raises a `TestException`. -/
def attempt {α : Type} (outcome : Nat → Except PyExc α) :
    List Nat → Option (Nat × TestException) × List Nat
  | [] => (none, [])
  | j :: rest =>
    match raised (outcome j) with
    | some e => (some (j, e), [j])
    | none => ((attempt outcome rest).1, j :: (attempt outcome rest).2)

/-- The positions whose validation returns. -/
def validated (B : Behaviour u commands) : List Nat :=
  (List.range commands.length).filter fun j => (B.check j).isOk

/-- Those whose execution returns as well. -/
def executed (B : Behaviour u commands) : List Nat :=
  (validated B).filter fun j => (B.execute j).isOk

def lineOf (commands : List Command) (j : Nat) : Nat := (commands[j]?.map (·.line)).getD 0

/-- Validate every command, then execute in order those that passed. -/
def twoPhase (B : Behaviour u commands) : Except TestException Unit × Trace :=
  let checks := attempt B.check (List.range commands.length)
  match checks.1 with
  | some (j, e) => (.error (e.setLine (lineOf commands j)), checks.2.map (Stage.check, ·))
  | none =>
    let executions := attempt B.execute (validated B)
    let trace := checks.2.map (Stage.check, ·) ++ executions.2.map (Stage.execute, ·)
    match executions.1 with
    | some (j, e) => (.error (e.setLine (lineOf commands j)), trace)
    | none => (.ok (), trace)

/-! ## Passes over the queue -/

/-- One pass: every closure of the queue is called once; the continuations are the next queue. -/
def pass (B : Behaviour u commands) :
    List Attached → Trace → Except TestException (List Attached) × Trace
  | [], trace => (.ok [], trace)
  | a :: q, trace =>
    match attachLine B a with
    | .error e => (.error e, trace ++ a.called)
    | .ok command =>
      let r := pass B q (trace ++ a.called)
      (r.1.map (command.toList ++ ·), r.2)

/-- A queue is worked off by one pass before any continuation is called. -/
theorem mainLoop_pass (B : Behaviour u commands) (q : List Attached) :
    ∀ (rest : List Attached) (fuel : Nat) (trace : Trace),
      mainLoop B (q.length + fuel) (q ++ rest) trace =
        match pass B q trace with
        | (.error e, trace') => some (.error e, trace')
        | (.ok q', trace') => mainLoop B fuel (rest ++ q') trace' := by
  induction q with
  | nil => intro rest fuel trace; simp [pass]
  | cons a q ih =>
    intro rest fuel trace
    rw [List.length_cons, Nat.succ_add, List.cons_append]
    simp only [mainLoop, pass]
    cases hc : attachLine B a with
    | error e => rfl
    | ok command =>
      simp only [List.append_assoc]
      rw [ih]
      cases hp : pass B q (trace ++ a.called) with
      | mk r trace' =>
        cases r with
        | error e => rfl
        | ok q' => simp [Except.map, List.append_assoc]

/-- The entry of the command at position `j` while its closure is `fn`. -/
def entry (commands : List Command) (fn : Option Closure) (j : Nat) : Attached where
  fn := fn
  line := lineOf commands j
  position := j

/-- A pass over entries of one stage calls them as `attempt` does. -/
theorem pass_attempt {α : Type} (B : Behaviour u commands) (stage : Stage)
    (closure : Nat → Closure) (outcome : Nat → Except PyExc α) (next : α → Option Closure)
    (hline : ∀ j e, outcome j = .error (.test e) → e.isLineDefined = false) (js : List Nat) :
    ∀ trace : Trace, (∀ j ∈ js, (closure j).stage = stage) →
      (∀ j ∈ js, callClosure B j (closure j) = (outcome j).map next) →
      pass B (js.map fun j => entry commands (some (closure j)) j) trace =
        (match (attempt outcome js).1 with
          | some (j, e) => .error (e.setLine (lineOf commands j))
          | none => .ok (js.filterMap fun j =>
              (outcome j).toOption.map fun a => entry commands (next a) j),
        trace ++ (attempt outcome js).2.map (stage, ·)) := by
  induction js with
  | nil => intro trace _ _; simp [pass, attempt]
  | cons j js ih =>
    intro trace hs hcall
    have hcalled : (entry commands (some (closure j)) j).called = [(stage, j)] := by
      simp [Attached.called, entry, hs j List.mem_cons_self]
    have hj := hcall j List.mem_cons_self
    have ih := ih (trace ++ [(stage, j)]) (fun i hi => hs i (List.mem_cons_of_mem _ hi))
      (fun i hi => hcall i (List.mem_cons_of_mem _ hi))
    simp only [List.map_cons, pass, hcalled, ih]
    cases ho : outcome j with
    | ok a =>
      have ha : attachLine B (entry commands (some (closure j)) j) =
          .ok (some (entry commands (next a) j)) := by
        simp [attachLine, entry, hj, ho, Except.map]
      simp only [ha, attempt, ho, raised]
      cases (attempt outcome js).1 <;> simp [Except.map, Except.toOption, ho]
    | error x =>
      cases x with
      | test e =>
        have ha : attachLine B (entry commands (some (closure j)) j) =
            .error (e.setLine (lineOf commands j)) := by
          simp [attachLine, entry, hj, ho, Except.map, hline j e ho]
        simp [ha, attempt, ho, raised]
      | other x =>
        have ha : attachLine B (entry commands (some (closure j)) j) = .ok none := by
          simp [attachLine, entry, hj, ho, Except.map]
        simp only [ha, attempt, ho, raised]
        cases (attempt outcome js).1 <;> simp [Except.map, Except.toOption, ho]

/-- The last pass: `attach_line(None, line)` does nothing. -/
theorem pass_none (B : Behaviour u commands) (js : List Nat) (trace : Trace) :
    pass B (js.map fun j => entry commands none j) trace = (.ok [], trace) := by
  induction js with
  | nil => rfl
  | cons j js ih => simp [pass, attachLine, entry, Attached.called, Except.map] at ih ⊢; simp [ih]

/-! ## `main` is the two loops -/

def callAt (commands : List Command) (j : Nat) : Call := (commands[j]?.map (·.call)).getD .reset

theorem queued_eq (commands : List Command) :
    queued commands = (List.range commands.length).map fun j =>
      entry commands (some (.command (callAt commands j))) j := by
  apply List.ext_getElem
  · simp [queued]
  · intro j h1 h2
    have hj : j < commands.length := by simpa [queued] using h1
    simp [queued, entry, lineOf, callAt, hj]

/-- The closure a validation returned. -/
def checked (B : Behaviour u commands) (j : Nat) : Closure :=
  ((B.check j).toOption).getD (.command .reset)

theorem callClosure_of_executes (B : Behaviour u commands) (j : Nat) (f : Closure)
    (h : CommandUnwrapper.Executes f) :
    f.stage = .execute ∧ callClosure B j f = (B.execute j).map fun _ => none := by
  induction f with
  | command call => cases h
  | executor call => exact ⟨rfl, rfl⟩
  | wrap f ih => exact ih h

theorem checked_executes (B : Behaviour u commands) {j : Nat} (hj : j ∈ validated B) :
    CommandUnwrapper.Executes (checked B j) := by
  obtain ⟨hj, hok⟩ := List.mem_filter.mp hj
  rw [List.mem_range] at hj
  cases hc : B.check j with
  | error e => rw [hc] at hok; cases hok
  | ok f =>
    obtain ⟨draws, hd⟩ := B.check_returns j commands[j] f (List.getElem?_eq_getElem hj) hc
    simpa [checked, hc, Except.toOption] using CommandUnwrapper.invoke_executes u hd

theorem filterMap_checked (B : Behaviour u commands) :
    ((List.range commands.length).filterMap fun j =>
        (B.check j).toOption.map fun f => entry commands (some f) j) =
      (validated B).map fun j => entry commands (some (checked B j)) j := by
  unfold validated
  rw [← List.filterMap_eq_map, List.filterMap_filter]
  apply List.filterMap_congr
  intro j _
  cases hc : B.check j <;> simp [checked, hc, Except.toOption, Except.isOk, Except.toBool]

theorem filterMap_executed (B : Behaviour u commands) :
    ((validated B).filterMap fun j =>
        (B.execute j).toOption.map fun _ => entry commands none j) =
      (executed B).map fun j => entry commands none j := by
  unfold executed
  rw [← List.filterMap_eq_map, List.filterMap_filter]
  apply List.filterMap_congr
  intro j _
  cases hc : B.execute j <;> simp [Except.toOption, Except.isOk, Except.toBool]

theorem mainLoop_eq_twoPhase (B : Behaviour u commands) (fuel : Nat) :
    mainLoop B (commands.length + ((validated B).length + ((executed B).length + (fuel + 1))))
      (queued commands) [] = some (twoPhase B) := by
  have hcheck := pass_attempt B .check (fun j => .command (callAt commands j)) B.check some
    B.check_line (List.range commands.length) [] (fun _ _ => rfl) (fun _ _ => rfl)
  have hexecute := fun trace => pass_attempt B .execute (checked B) B.execute (fun _ => none)
    B.execute_line (validated B) trace
    (fun j hj => (callClosure_of_executes B j _ (checked_executes B hj)).1)
    (fun j hj => (callClosure_of_executes B j _ (checked_executes B hj)).2)
  have h1 := mainLoop_pass B (queued commands) []
    ((validated B).length + ((executed B).length + (fuel + 1))) []
  rw [show (queued commands).length = commands.length by simp [queued], List.append_nil] at h1
  rw [h1, queued_eq, hcheck, filterMap_checked]
  unfold twoPhase
  rcases attempt B.check (List.range commands.length) with ⟨_ | ⟨j, e⟩, tried⟩
  · have h2 := mainLoop_pass B ((validated B).map fun j => entry commands (some (checked B j)) j) []
      ((executed B).length + (fuel + 1)) (tried.map (Stage.check, ·))
    rw [List.length_map, List.append_nil] at h2
    simp only [List.nil_append]
    rw [h2, hexecute, filterMap_executed]
    rcases attempt B.execute (validated B) with ⟨_ | ⟨j, e⟩, tried'⟩
    · have h3 := mainLoop_pass B ((executed B).map fun j => entry commands none j) [] (fuel + 1)
        (tried.map (Stage.check, ·) ++ tried'.map (Stage.execute, ·))
      rw [List.length_map, List.append_nil] at h3
      simp only [List.nil_append]
      rw [h3, pass_none]
      rfl
    · rfl
  · rfl

/-- **The queue is two loops.**  On a file that parses, `main` ends, and does what `twoPhase` does. -/
theorem main_eq_twoPhase {testFile : List Text} (h : Ends testFile (.ok commands))
    (B : (commands : List Command) → Behaviour u commands) :
    ∃ N, ∀ fuel, N ≤ fuel → main u testFile B fuel = some (twoPhase (B commands)) := by
  obtain ⟨n, hn⟩ := h
  refine ⟨n + (commands.length + ((validated (B commands)).length +
    ((executed (B commands)).length + 1))), fun fuel hfuel => ?_⟩
  have hparse : parse fuel testFile = some (.ok commands) := by
    have := parseLoop_mono _ _ n (fuel - n) _ hn
    rwa [Nat.add_sub_cancel' (by omega)] at this
  have hloop := mainLoop_eq_twoPhase (B commands) (fuel - (commands.length +
    ((validated (B commands)).length + ((executed (B commands)).length + 1))))
  rw [show commands.length + ((validated (B commands)).length + ((executed (B commands)).length +
    (fuel - (commands.length + ((validated (B commands)).length +
      ((executed (B commands)).length + 1))) + 1))) = fuel by omega] at hloop
  simp only [main, hparse, hloop]

end Executor
