import Krafters.Executor.Main

/-!
# test_executor.main: what a run guarantees about its commands

From `main_eq_twoPhase`, for every file that parses and every `Behaviour`:

* `main_orderly`: `main` ends as `twoPhase` does; it validates every command before it
  executes one, executes all that passed in program order, and stops at the first
  `TestException`, reported with the line of its command.
* `main_keeps_commands_iff`: no command is lost exactly when no call fails with an
  exception of another class, which `attach_line` drops, or some call raises a
  `TestException`.
-/

open Py Executor.Parser

namespace Executor

variable {u : CommandUnwrapper} {commands : List Command}

/-! ## Attempts -/

/-- `attempt` calls all positions, or those up to the first that raises. -/
theorem attempt_spec {α : Type} (outcome : Nat → Except PyExc α) (js : List Nat) :
    (attempt outcome js = (none, js) ∧ ∀ j ∈ js, raised (outcome j) = none) ∨
    ∃ pre j e post, js = pre ++ j :: post ∧ attempt outcome js = (some (j, e), pre ++ [j]) ∧
      (∀ i ∈ pre, raised (outcome i) = none) ∧ raised (outcome j) = some e := by
  induction js with
  | nil => left; simp [attempt]
  | cons j js ih =>
    cases hj : raised (outcome j) with
    | some e =>
      right
      exact ⟨[], j, e, js, rfl, by simp [attempt, hj], by simp, hj⟩
    | none =>
      rcases ih with ⟨ha, hall⟩ | ⟨pre, i, e, post, rfl, ha, hpre, hi⟩
      · left
        exact ⟨by simp [attempt, hj, ha], by simpa [hj] using hall⟩
      · right
        exact ⟨j :: pre, i, e, post, rfl, by simp [attempt, hj, ha], by simpa [hj] using hpre, hi⟩

theorem mem_validated (B : Behaviour u commands) (j : Nat) :
    j ∈ validated B ↔ j < commands.length ∧ (B.check j).isOk = true := by
  simp [validated]

theorem validated_pairwise (B : Behaviour u commands) : (validated B).Pairwise (· < ·) :=
  List.Pairwise.filter _ List.pairwise_lt_range

/-- The three ways a run ends, with the calls made. -/
theorem twoPhase_cases (B : Behaviour u commands) :
    (∃ pre j e post, List.range commands.length = pre ++ j :: post ∧
      (∀ i ∈ pre, raised (B.check i) = none) ∧ raised (B.check j) = some e ∧
      twoPhase B = (.error (e.setLine (lineOf commands j)),
        (pre ++ [j]).map (Stage.check, ·))) ∨
    ((∀ i < commands.length, raised (B.check i) = none) ∧
      ∃ pre j e post, validated B = pre ++ j :: post ∧
        (∀ i ∈ pre, raised (B.execute i) = none) ∧ raised (B.execute j) = some e ∧
        twoPhase B = (.error (e.setLine (lineOf commands j)),
          (List.range commands.length).map (Stage.check, ·) ++
            (pre ++ [j]).map (Stage.execute, ·))) ∨
    ((∀ i < commands.length, raised (B.check i) = none) ∧
      (∀ i ∈ validated B, raised (B.execute i) = none) ∧
      twoPhase B = (.ok (), (List.range commands.length).map (Stage.check, ·) ++
        (validated B).map (Stage.execute, ·))) := by
  rcases attempt_spec B.check (List.range commands.length) with
    ⟨hc, hall⟩ | ⟨pre, j, e, post, hjs, hc, hpre, hj⟩
  · have hall' : ∀ i < commands.length, raised (B.check i) = none :=
      fun i hi => hall i (List.mem_range.mpr hi)
    rcases attempt_spec B.execute (validated B) with
      ⟨he, hexec⟩ | ⟨pre, j, e, post, hjs, he, hpre, hj⟩
    · right; right
      exact ⟨hall', hexec, by simp only [twoPhase, hc, he]⟩
    · right; left
      exact ⟨hall', pre, j, e, post, hjs, hpre, hj, by simp only [twoPhase, hc, he]⟩
  · left
    exact ⟨pre, j, e, post, hjs, hpre, hj, by simp only [twoPhase, hc]⟩

/-! ## Validate everything, then execute in order -/

/-- The `TestException` a call raises. -/
def raisedAt (B : Behaviour u commands) : Stage × Nat → Option TestException
  | (.check, j) => raised (B.check j)
  | (.execute, j) => raised (B.execute j)

/-- The command at position `j` raises a `TestException` in a stage. -/
def Raises (B : Behaviour u commands) (j : Nat) : Prop :=
  (raised (B.check j)).isSome = true ∨
    ((B.check j).isOk = true ∧ (raised (B.execute j)).isSome = true)

/-- The positions of the `Executor` calls of a trace, in order. -/
def executions (trace : Trace) : List Nat :=
  trace.filterMap fun | (.execute, j) => some j | (.check, _) => none

structure Orderly (B : Behaviour u commands) (r : Except TestException Unit × Trace) : Prop where
  /-- every validation is attempted, up to the first that raises a `TestException` -/
  checks_all : ∀ i < commands.length,
    (.check, i) ∈ r.2 ∨ ∃ j < i, (raised (B.check j)).isSome
  /-- no `Executor` call before every validation has been attempted -/
  checks_first : ∀ pre j post, r.2 = pre ++ (.execute, j) :: post →
    ∀ i < commands.length, (.check, i) ∈ pre
  /-- a validation that raises a `TestException` leaves nothing executed -/
  raised_check : (∃ i < commands.length, (raised (B.check i)).isSome) → executions r.2 = []
  /-- without one every validated command is executed, up to the first that raises -/
  executes_all : (∀ i < commands.length, raised (B.check i) = none) → ∀ i ∈ validated B,
    i ∈ executions r.2 ∨ ∃ j ∈ validated B, j < i ∧ (raised (B.execute j)).isSome
  /-- the `Executor` calls are in program order, none twice -/
  program_order : (executions r.2).Pairwise (· < ·) ∧ ∀ j ∈ executions r.2, j ∈ validated B
  /-- the first `TestException` ends the run and is reported with its line -/
  first_raise : ∀ pre x post e, r.2 = pre ++ x :: post → raisedAt B x = some e →
    post = [] ∧ r.1 = .error (e.setLine (lineOf commands x.2))
  /-- the run succeeds when no command raises one, and fails when some command does -/
  success : r.1 = .ok () ↔ ∀ j < commands.length, ¬ Raises B j

theorem executions_append (s t : Trace) : executions (s ++ t) = executions s ++ executions t :=
  List.filterMap_append ..

theorem executions_check (js : List Nat) : executions (js.map (Stage.check, ·)) = [] := by
  induction js with
  | nil => rfl
  | cons j js ih => simp [executions]

theorem executions_execute (js : List Nat) : executions (js.map (Stage.execute, ·)) = js := by
  induction js with
  | nil => rfl
  | cons j js ih => simp [executions]

/-- A call that raises is the last of a list of calls in which only the last one raises. -/
theorem last_of_raises {α : Type} (p : α → Prop) {s pre post : List α} {x y : α}
    (hs : ∀ a ∈ s, ¬ p a) (h : s ++ [y] = pre ++ x :: post) (hx : p x) : post = [] ∧ x = y := by
  rcases List.append_eq_append_iff.mp h with ⟨t, rfl, ht⟩ | ⟨t, rfl, ht⟩
  · cases t with
    | nil =>
      simp only [List.nil_append, List.cons.injEq] at ht
      exact ⟨ht.2.symm, ht.1.symm⟩
    | cons a t =>
      simp at ht
  · cases t with
    | nil =>
      simp only [List.nil_append, List.cons.injEq] at ht
      exact ⟨ht.2, ht.1⟩
    | cons a t =>
      simp only [List.cons_append, List.cons.injEq] at ht
      exact absurd hx (ht.1 ▸ hs a (by simp))

/-- What comes before the first call of the second stage contains the first stage. -/
theorem checks_before {n : Nat} {js : List Nat} {pre post : Trace} {j : Nat}
    (h : (List.range n).map (Stage.check, ·) ++ js.map (Stage.execute, ·) =
      pre ++ (Stage.execute, j) :: post) : ∀ i < n, (Stage.check, i) ∈ pre := by
  intro i hi
  have hmem : (Stage.check, i) ∈ (List.range n).map (Stage.check, ·) :=
    List.mem_map.mpr ⟨i, List.mem_range.mpr hi, rfl⟩
  rcases List.append_eq_append_iff.mp h with ⟨t, rfl, -⟩ | ⟨t, ht, htail⟩
  · exact List.mem_append_left t hmem
  · cases t with
    | nil =>
      rw [ht, List.append_nil] at hmem
      exact hmem
    | cons x t =>
      simp only [List.cons_append, List.cons.injEq] at htail
      have hx : (Stage.execute, j) ∈ (List.range n).map (Stage.check, ·) := by
        rw [ht, htail.1]; simp
      simp at hx

/-- In a list in order, what is not in the front up to `j` comes behind it. -/
theorem mem_front_or_lt {l pre post : List Nat} {i j : Nat} (hl : l.Pairwise (· < ·))
    (h : l = pre ++ j :: post) (hi : i ∈ l) : i ∈ pre ++ [j] ∨ j < i := by
  subst h
  rw [List.append_cons] at hi hl
  rcases List.mem_append.mp hi with hi | hi
  · exact .inl hi
  · exact .inr ((List.pairwise_append.mp hl).2.2 j (by simp) i hi)

theorem twoPhase_error_iff (B : Behaviour u commands) :
    (twoPhase B).1 ≠ .ok () ↔ ∃ j < commands.length, Raises B j := by
  rcases twoPhase_cases B with ⟨pre, j, e, post, hjs, hpre, hj, hr⟩ |
    ⟨hall, pre, j, e, post, hjs, hpre, hj, hr⟩ | ⟨hall, hexec, hr⟩
  · have hmem : j ∈ List.range commands.length := by rw [hjs]; simp
    refine iff_of_true (by simp [hr]) ⟨j, List.mem_range.mp hmem, Or.inl (by simp [hj])⟩
  · have hmem : j ∈ validated B := by rw [hjs]; simp
    obtain ⟨hlt, hok⟩ := (mem_validated B j).mp hmem
    exact iff_of_true (by simp [hr]) ⟨j, hlt, Or.inr ⟨hok, by simp [hj]⟩⟩
  · apply iff_of_false (by simp [hr])
    rintro ⟨j, hlt, h | ⟨hok, h⟩⟩
    · simp [hall j hlt] at h
    · simp [hexec j ((mem_validated B j).mpr ⟨hlt, hok⟩)] at h

theorem twoPhase_success_iff (B : Behaviour u commands) :
    (twoPhase B).1 = .ok () ↔ ∀ j < commands.length, ¬ Raises B j := by
  rw [← not_iff_not, ← ne_eq, twoPhase_error_iff]
  simp only [not_forall, not_not, exists_prop]

theorem twoPhase_checks_all (B : Behaviour u commands) {i : Nat} (hi : i < commands.length) :
    (.check, i) ∈ (twoPhase B).2 ∨ ∃ j < i, (raised (B.check j)).isSome = true := by
  have hall (js : List Nat) : (Stage.check, i) ∈
      (List.range commands.length).map (Stage.check, ·) ++ js.map (Stage.execute, ·) :=
    List.mem_append_left _ (List.mem_map.mpr ⟨i, List.mem_range.mpr hi, rfl⟩)
  rcases twoPhase_cases B with ⟨pre, j, e, post, hjs, hpre, hj, hr⟩ |
    ⟨-, pre, j, e, post, hjs, hpre, hj, hr⟩ | ⟨-, hexec, hr⟩
  · rw [hr]
    rcases mem_front_or_lt List.pairwise_lt_range hjs (List.mem_range.mpr hi) with hi | hlt
    · exact .inl (List.mem_map.mpr ⟨i, hi, rfl⟩)
    · exact .inr ⟨j, hlt, by simp [hj]⟩
  · rw [hr]
    exact .inl (hall _)
  · rw [hr]
    exact .inl (hall _)

theorem twoPhase_checks_first (B : Behaviour u commands) {pre post : Trace} {j : Nat}
    (h : (twoPhase B).2 = pre ++ (.execute, j) :: post) :
    ∀ i < commands.length, (.check, i) ∈ pre := by
  rcases twoPhase_cases B with ⟨pre', j', e, post', -, -, -, hr⟩ |
    ⟨-, pre', j', e, post', -, -, -, hr⟩ | ⟨-, -, hr⟩
  · rw [hr] at h
    have hmem : (Stage.execute, j) ∈ (pre' ++ [j']).map (Stage.check, ·) := by
      rw [show (pre' ++ [j']).map (Stage.check, ·) = _ from h]; simp
    simp at hmem
  · rw [hr] at h
    exact checks_before h
  · rw [hr] at h
    exact checks_before h

/-- Which `Executor` calls there are: none when a validation raises, and otherwise those of the
validated commands, up to the first that raises. -/
theorem twoPhase_executions (B : Behaviour u commands) :
    ((∃ j < commands.length, (raised (B.check j)).isSome = true) ∧
      executions (twoPhase B).2 = []) ∨
    ((∀ j < commands.length, raised (B.check j) = none) ∧
      (executions (twoPhase B).2 = validated B ∨
        ∃ pre j post, validated B = pre ++ j :: post ∧
          executions (twoPhase B).2 = pre ++ [j] ∧ (raised (B.execute j)).isSome = true)) := by
  rcases twoPhase_cases B with ⟨pre, j, e, post, hjs, -, hj, hr⟩ |
    ⟨hall, pre, j, e, post, hjs, -, hj, hr⟩ | ⟨hall, -, hr⟩
  · refine .inl ⟨⟨j, List.mem_range.mp (by rw [hjs]; simp), by simp [hj]⟩, ?_⟩
    rw [hr, executions_check]
  · refine .inr ⟨hall, .inr ⟨pre, j, post, hjs, ?_, by simp [hj]⟩⟩
    rw [hr, executions_append, executions_check, executions_execute, List.nil_append]
  · refine .inr ⟨hall, .inl ?_⟩
    rw [hr, executions_append, executions_check, executions_execute, List.nil_append]

theorem twoPhase_first_raise (B : Behaviour u commands) {pre post : Trace} {x : Stage × Nat}
    {e : TestException} (h : (twoPhase B).2 = pre ++ x :: post) (hx : raisedAt B x = some e) :
    post = [] ∧ (twoPhase B).1 = .error (e.setLine (lineOf commands x.2)) := by
  rcases twoPhase_cases B with ⟨pre', j, e', post', -, hpre, hj, hr⟩ |
    ⟨hall, pre', j, e', post', -, hpre, hj, hr⟩ | ⟨hall, hexec, hr⟩
  · have hnone : ∀ x ∈ pre'.map (Stage.check, ·), ¬ (raisedAt B x).isSome := by
      intro x hx
      obtain ⟨i, hi, rfl⟩ := List.mem_map.mp hx
      simp [raisedAt, hpre i hi]
    simp only [hr, List.map_append, List.map_singleton] at h ⊢
    obtain ⟨ht, rfl⟩ := last_of_raises (fun x => (raisedAt B x).isSome) hnone h (by simp [hx])
    simp only [raisedAt, hj, Option.some.injEq] at hx
    exact ⟨ht, by rw [hx]⟩
  · have hnone : ∀ x ∈ (List.range commands.length).map (Stage.check, ·) ++
        pre'.map (Stage.execute, ·), ¬ (raisedAt B x).isSome := by
      intro x hx
      rcases List.mem_append.mp hx with hx | hx
      · obtain ⟨i, hi, rfl⟩ := List.mem_map.mp hx
        simp [raisedAt, hall i (List.mem_range.mp hi)]
      · obtain ⟨i, hi, rfl⟩ := List.mem_map.mp hx
        simp [raisedAt, hpre i hi]
    simp only [hr, List.map_append, List.map_singleton, ← List.append_assoc] at h ⊢
    obtain ⟨ht, rfl⟩ := last_of_raises (fun x => (raisedAt B x).isSome) hnone h (by simp [hx])
    simp only [raisedAt, hj, Option.some.injEq] at hx
    exact ⟨ht, by rw [hx]⟩
  · have hmem : x ∈ (twoPhase B).2 := by rw [h]; simp
    rw [hr] at hmem
    rcases List.mem_append.mp hmem with hmem | hmem
    · obtain ⟨i, hi, rfl⟩ := List.mem_map.mp hmem
      cases (hall i (List.mem_range.mp hi)).symm.trans hx
    · obtain ⟨i, hi, rfl⟩ := List.mem_map.mp hmem
      cases (hexec i hi).symm.trans hx

theorem twoPhase_orderly (B : Behaviour u commands) : Orderly B (twoPhase B) where
  checks_all _ hi := twoPhase_checks_all B hi
  checks_first _ _ _ h := twoPhase_checks_first B h
  raised_check := by
    rintro ⟨i, hi, hraised⟩
    rcases twoPhase_executions B with ⟨-, hnone⟩ | ⟨hall, -⟩
    · exact hnone
    · simp [hall i hi] at hraised
  executes_all hall i hi := by
    rcases twoPhase_executions B with ⟨⟨j, hlt, hj⟩, -⟩ | ⟨-, h | ⟨pre, j, post, hjs, h, hj⟩⟩
    · simp [hall j hlt] at hj
    · exact .inl (h ▸ hi)
    · rw [h]
      refine (mem_front_or_lt (validated_pairwise B) hjs hi).imp_right fun hlt => ?_
      exact ⟨j, by rw [hjs]; simp, hlt, hj⟩
  program_order := by
    have hsub : (executions (twoPhase B).2).Sublist (validated B) := by
      rcases twoPhase_executions B with ⟨-, h⟩ | ⟨-, h | ⟨pre, j, post, hjs, h, -⟩⟩
      · rw [h]
        exact List.nil_sublist _
      · rw [h]
      · rw [h, hjs]
        exact List.Sublist.append_left (List.Sublist.cons_cons j (List.nil_sublist post)) pre
    exact ⟨(validated_pairwise B).sublist hsub, fun i hi => hsub.subset hi⟩
  first_raise _ _ _ _ h hx := twoPhase_first_raise B h hx
  success := twoPhase_success_iff B

/-- **Two stages.**  On every file that parses, whatever the calls do, `main` ends as `twoPhase`
does, and that is an orderly run. -/
theorem main_orderly {testFile : List Text} (h : Ends testFile (.ok commands))
    (B : (commands : List Command) → Behaviour u commands) :
    (∃ N, ∀ fuel, N ≤ fuel → main u testFile B fuel = some (twoPhase (B commands))) ∧
      Orderly (B commands) (twoPhase (B commands)) :=
  ⟨main_eq_twoPhase h B, twoPhase_orderly (B commands)⟩

/-! ## The code's own behaviour -/

/-- The `Behaviour` of the code itself for given draws and given outcomes of the `Executor` calls;
draws that end before a loop does count as a failed draw. -/
def codeBehaviour (u : CommandUnwrapper) (draws : Nat → List (Fin u.nodesNumber))
    (execute : Nat → Except PyExc Unit)
    (hline : ∀ j e, execute j = .error (.test e) → e.isLineDefined = false)
    (commands : List Command) : Behaviour u commands where
  check j := (commands[j]?.bind fun c => u.invoke c.call (draws j)).getD (.error (.other .valueError))
  execute := execute
  check_line := by
    intro j e h
    cases hc : commands[j]?.bind fun c => u.invoke c.call (draws j) with
    | none => simp [hc] at h
    | some r =>
      obtain ⟨c, -, hr⟩ := Option.bind_eq_some_iff.mp hc
      simp only [hc, Option.getD_some] at h
      have := u.invoke_line (h ▸ hr)
      simp [TestException.isLineDefined, this]
  execute_line := hline
  check_returns := by
    intro j c f hc h
    refine ⟨draws j, ?_⟩
    simp only [hc, Option.bind_some] at h
    cases hr : u.invoke c.call (draws j) with
    | none => simp [hr] at h
    | some r => simpa [hr] using h

/-- The third call fails, as that of a reset does which `tc` refuses. -/
def failingThird : Nat → Except PyExc Unit
  | 2 => .error (.test {
      type := .netemError
      message := "'delay 0ms' is not a valid netem command".toList })
  | _ => .ok ()

/-- Both repetitions and the reset are validated before the first repetition runs. -/
theorem main_orderly_region :
    let B := codeBehaviour ⟨5, false⟩ (fun _ => []) failingThird (by
      intro j e h
      unfold failingThird at h
      split at h <;> cases h
      rfl)
    let commands := [⟨.runCommand 5000 "clean".toList, 2⟩, ⟨.runCommand 5000 "clean".toList, 2⟩,
      ⟨.reset, 4⟩]
    (∃ N, ∀ fuel, N ≤ fuel →
        main ⟨5, false⟩ ["do".toList, "run 5000 clean".toList, "2 times".toList] B fuel =
          some (twoPhase (B commands))) ∧
      Orderly (B commands) (twoPhase (B commands)) :=
  main_orderly ⟨20, by decide +kernel⟩ _

/-! ## No command is lost -/

/-- What a call does, as a success or a failure. -/
def succeeds (B : Behaviour u commands) : Stage × Nat → Bool
  | (.check, j) => (B.check j).isOk
  | (.execute, j) => (B.execute j).isOk

/-- The success end means that every command was executed to normal completion exactly once, and
is not reached when a call failed. -/
def NoCommandLost (B : Behaviour u commands) (r : Except TestException Unit × Trace) : Prop :=
  (r.1 = .ok () → ∀ j < commands.length,
    r.2.count (.execute, j) = 1 ∧ (B.execute j).isOk = true) ∧
  ((∃ x ∈ r.2, succeeds B x = false) → r.1 ≠ .ok ())

/-- An exception that `attach_line` drops. -/
def dropped {α : Type} : Except PyExc α → Bool
  | .error (.other _) => true
  | _ => false

/-- The command at position `j` fails with an exception that is dropped. -/
def Drops (B : Behaviour u commands) (j : Nat) : Prop :=
  dropped (B.check j) = true ∨ ((B.check j).isOk = true ∧ dropped (B.execute j) = true)

theorem outcome_cases {α : Type} (x : Except PyExc α) :
    (x.isOk = true ∧ dropped x = false ∧ raised x = none) ∨
    (x.isOk = false ∧ dropped x = true ∧ raised x = none) ∨
    (x.isOk = false ∧ dropped x = false ∧ (raised x).isSome = true) := by
  rcases x with (e | e) | a
  · exact Or.inr (Or.inr ⟨rfl, rfl, rfl⟩)
  · exact Or.inr (Or.inl ⟨rfl, rfl, rfl⟩)
  · exact Or.inl ⟨rfl, rfl, rfl⟩

theorem count_execute (n : Nat) (js : List Nat) (j : Nat) :
    ((List.range n).map (Stage.check, ·) ++ js.map (Stage.execute, ·)).count (Stage.execute, j) =
      js.count j := by
  have hcheck : ((List.range n).map (Stage.check, ·)).count (Stage.execute, j) = 0 :=
    List.count_eq_zero.mpr (by simp)
  have hexec := List.count_map_of_injective js (fun i => (Stage.execute, i))
    (fun a b h => (Prod.ext_iff.mp h).2) j
  rw [List.count_append, hcheck, Nat.zero_add]
  exact hexec

theorem twoPhase_keeps_commands_iff (B : Behaviour u commands) :
    NoCommandLost B (twoPhase B) ↔
      (∀ j < commands.length, ¬ Drops B j) ∨ ∃ j < commands.length, Raises B j := by
  by_cases hraise : ∃ j < commands.length, Raises B j
  · have herr := (twoPhase_error_iff B).mpr hraise
    exact iff_of_true ⟨fun h => absurd h herr, fun _ => herr⟩ (Or.inr hraise)
  · have hok : (twoPhase B).1 = .ok () := by
      by_contra h
      exact hraise ((twoPhase_error_iff B).mp h)
    rcases twoPhase_cases B with ⟨pre, j, e, post, hjs, hpre, hj, hr⟩ |
      ⟨hall, pre, j, e, post, hjs, hpre, hj, hr⟩ | ⟨hall, hexec, hr⟩
    · simp [hr] at hok
    · simp [hr] at hok
    · rw [hr]
      simp only [NoCommandLost, hraise, or_false, true_implies, ne_eq, not_true_eq_false, imp_false,
        count_execute]
      constructor
      · rintro ⟨hdone, -⟩ j hlt (hd | ⟨-, hd⟩)
        · -- a dropped validation is never executed
          have h1 := (hdone j hlt).1
          have hmem : j ∈ validated B := List.count_pos_iff.mp (by omega)
          have hchk := ((mem_validated B j).mp hmem).2
          rcases outcome_cases (B.check j) with h | h | h <;> simp_all
        · have h2 := (hdone j hlt).2
          rcases outcome_cases (B.execute j) with h | h | h <;> simp_all
      · intro hkeep
        have hcheck : ∀ j < commands.length, (B.check j).isOk = true := by
          intro j hlt
          have hd : ¬ dropped (B.check j) = true := fun h => hkeep j hlt (Or.inl h)
          have hn := hall j hlt
          rcases outcome_cases (B.check j) with h | h | h <;> simp_all
        have hexecute : ∀ j < commands.length, (B.execute j).isOk = true := by
          intro j hlt
          have hd : ¬ dropped (B.execute j) = true :=
            fun h => hkeep j hlt (Or.inr ⟨hcheck j hlt, h⟩)
          have hn := hexec j ((mem_validated B j).mpr ⟨hlt, hcheck j hlt⟩)
          rcases outcome_cases (B.execute j) with h | h | h <;> simp_all
        have hval : validated B = List.range commands.length :=
          List.filter_eq_self.mpr fun j hj => hcheck j (List.mem_range.mp hj)
        rw [hval]
        refine ⟨fun j hlt => ⟨?_, hexecute j hlt⟩, ?_⟩
        · exact List.count_eq_one_of_mem List.nodup_range (List.mem_range.mpr hlt)
        · rintro ⟨x, hx, hf⟩
          rcases List.mem_append.mp hx with hx | hx
          · obtain ⟨i, hi, rfl⟩ := List.mem_map.mp hx
            simp [succeeds, hcheck i (List.mem_range.mp hi)] at hf
          · obtain ⟨i, hi, rfl⟩ := List.mem_map.mp hx
            simp [succeeds, hexecute i (List.mem_range.mp hi)] at hf

/-- **When no command is lost.**  `main` keeps every command, and reports every failure, exactly
when no call fails with an exception of another class or some call raises a `TestException`. -/
theorem main_keeps_commands_iff {testFile : List Text} (h : Ends testFile (.ok commands))
    (B : (commands : List Command) → Behaviour u commands) :
    ∃ r, (∃ N, ∀ fuel, N ≤ fuel → main u testFile B fuel = some r) ∧
      (NoCommandLost (B commands) r ↔
        (∀ j < commands.length, ¬ Drops (B commands) j) ∨
          ∃ j < commands.length, Raises (B commands) j) :=
  ⟨_, main_eq_twoPhase h B, twoPhase_keeps_commands_iff (B commands)⟩

theorem main_keeps_commands_run :
    ∃ r, (∃ N, ∀ fuel, N ≤ fuel →
        main ⟨3, true⟩ ["run 10".toList]
          (codeBehaviour ⟨3, true⟩ (fun _ => []) (fun _ => .ok ()) (by simp)) fuel = some r) ∧
      (NoCommandLost (codeBehaviour ⟨3, true⟩ (fun _ => []) (fun _ => .ok ()) (by simp)
          [⟨.runCommand 10 "no_name".toList, 1⟩, ⟨.reset, 2⟩]) r ↔
        (∀ j < 2, ¬ Drops (codeBehaviour ⟨3, true⟩ (fun _ => []) (fun _ => .ok ()) (by simp)
            [⟨.runCommand 10 "no_name".toList, 1⟩, ⟨.reset, 2⟩]) j) ∨
          ∃ j < 2, Raises (codeBehaviour ⟨3, true⟩ (fun _ => []) (fun _ => .ok ()) (by simp)
            [⟨.runCommand 10 "no_name".toList, 1⟩, ⟨.reset, 2⟩]) j) :=
  main_keeps_commands_iff ⟨20, by decide +kernel⟩ _

/-- In local mode the guard of a bidirectional command raises `TypeError`; `attach_line` drops it,
the link is never set and the run ends with success. -/
theorem main_loses_bidirectional_command :
    Ends ["from 1 to 2 bidirectional set delay 10ms".toList]
        (.ok [⟨.modifyLinkFromTo ["1".toList] ["2".toList] " delay 10ms".toList true, 1⟩,
          ⟨.reset, 2⟩]) ∧
      main ⟨2, true⟩ ["from 1 to 2 bidirectional set delay 10ms".toList]
          (codeBehaviour ⟨2, true⟩ (fun _ => []) (fun _ => .ok ()) (by simp)) 20 =
        some (.ok (), [(.check, 0), (.check, 1), (.execute, 1)]) ∧
      ¬ NoCommandLost (codeBehaviour ⟨2, true⟩ (fun _ => []) (fun _ => .ok ()) (by simp)
          [⟨.modifyLinkFromTo ["1".toList] ["2".toList] " delay 10ms".toList true, 1⟩, ⟨.reset, 2⟩])
        (.ok (), [(.check, 0), (.check, 1), (.execute, 1)]) := by
  refine ⟨⟨20, by decide +kernel⟩, by decide +kernel, fun h => ?_⟩
  have := (h.1 rfl 0 (by decide)).1
  revert this
  decide

end Executor
