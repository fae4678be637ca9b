import Krafters.Executor.ParserLost

/-!
# Which block structures `parse` accepts

`parse` follows the single pass `scan` as long as that goes on (`steps_scan`); where `scan`
stops, `parse` raises or is lost (`lost_never_ok`), and it always ends (`parse_ends`):

    (∃ commandsList, Ends lines (.ok commandsList)) ↔ (scan (shapes lines) {}).isSome
                                                                        (accepts_iff_scan)

so that `parse` also accepts files that are not balanced, as `blocks_checked_iff` states.
-/

namespace Executor.Parser

open Py

/-! ## Every file -/

/-- The shapes of the lines. -/
def shapes (lines : List Text) : List Shape := lines.filterMap lineShape

/-- The lines are all well-formed commands. -/
def WellFormed (lines : List Text) : Prop := ∀ line ∈ lines, lineShape line ≠ none

theorem at_shapes {lines : List Text} (h : WellFormed lines) (rest : List Text) :
    At (lines ++ rest) 0 (shapes lines) := by
  intro j shape hj
  rw [Nat.zero_add]
  induction lines generalizing j with
  | nil => cases hj
  | cons line lines ih =>
    have hrest : WellFormed lines := fun line' hline' => h line' (List.mem_cons_of_mem _ hline')
    cases hshape : lineShape line with
    | none => exact absurd hshape (h line List.mem_cons_self)
    | some shape' =>
      have hcons : shapes (line :: lines) = shape' :: shapes lines := by
        unfold shapes
        rw [List.filterMap_cons_some hshape]
      rw [hcons] at hj
      cases j with
      | zero =>
        obtain rfl := Option.some.inj hj
        exact ⟨line, rfl, hshape⟩
      | succ j => exact ih hrest j hj

theorem length_shapes {lines : List Text} (h : WellFormed lines) :
    (shapes lines).length = lines.length := by
  induction lines with
  | nil => rfl
  | cons line lines ih =>
    cases hshape : lineShape line with
    | none => exact absurd hshape (h line List.mem_cons_self)
    | some shape =>
      unfold shapes at ih ⊢
      rw [List.filterMap_cons_some hshape, List.length_cons, List.length_cons,
        ih fun line' hline' => h line' (List.mem_cons_of_mem _ hline')]

theorem parseLoop_error {testFile : List Text} {fuel : ℕ} {s : State} {e : TestException}
    (h : parseLoop testFile fuel s = some (.error e)) : e.type = .syntaxError := by
  induction fuel generalizing s with
  | zero => cases h
  | succ fuel ih =>
    unfold parseLoop at h
    cases hline : testFile[s.index]? with
    | none => rw [hline] at h; cases h
    | some line =>
      rw [hline] at h
      dsimp only at h
      cases hstep : parseStep line s with
      | ok s' =>
        rw [hstep] at h
        exact ih h
      | error e' =>
        rw [hstep] at h
        cases h
        unfold parseStep branch at hstep
        cases hkind : lineKind (rstrip line) <;> rw [hkind] at hstep
        case doLine => cases hopen : openBlock s <;> rw [hopen] at hstep <;> cases hstep; rfl
        case timesLine times =>
          dsimp only at hstep
          cases hclose : closeBlock s times <;> rw [hclose] at hstep <;> cases hstep
          rfl
        all_goals cases hstep
        all_goals rfl

/-- Where the scan stops, `parse` does not return. -/
theorem never_ok_of_stop {testFile : List Text} {l₁ l₂ : List Shape} {shape : Shape} {s : Scan}
    (hat : At testFile 0 (l₁ ++ shape :: l₂)) (hscan : scan l₁ {} = some s)
    (hstop : s.next shape = none) (fuel : ℕ) (commandsList : List Command)
    {result : List Command} :
    parseLoop testFile fuel (s.state commandsList) ≠ some (.ok result) := by
  have hindex : s.index = l₁.length := by
    have := scan_index hscan
    rw [this]
    exact Nat.zero_add _
  have hleveled := leveled_scan leveled_init hscan
  have hl : (l₁ ++ shape :: l₂)[s.index]? = some shape := by
    rw [hindex, List.getElem?_append_right (Nat.le_refl _), Nat.sub_self]
    rfl
  have htraced : Traced (l₁ ++ shape :: l₂) s := by
    refine traced_scan leveled_init (traced_init _) (fun j shape' hj => ?_) hscan
    show (l₁ ++ shape :: l₂)[0 + j]? = some shape'
    rw [Nat.zero_add, List.getElem?_append_left (List.getElem?_eq_some_iff.mp hj).1]
    exact hj
  obtain ⟨line, hline, hshape⟩ := hat s.index shape hl
  rw [Nat.zero_add] at hline
  intro hok
  cases fuel with
  | zero => cases hok
  | succ fuel =>
    have hline' : testFile[(s.state commandsList).index]? = some line := hline
    unfold parseLoop at hok
    rw [hline'] at hok
    dsimp only at hok
    cases hstep : parseStep line (s.state commandsList) with
    | error e => rw [hstep] at hok; cases hok
    | ok s' =>
      rw [hstep] at hok
      cases shape with
      | simple => cases hstop
      | opening =>
        obtain ⟨s₁, hopen, rfl⟩ := parseStep_opening hshape hstep
        rw [openBlock_state, show s.enter = none from hstop] at hopen
        cases hopen
      | closing times =>
        obtain ⟨s₁, hclose, rfl⟩ := parseStep_closing hshape hstep
        rw [closeBlock_state] at hclose
        obtain ⟨k, hplace, hclose⟩ := Option.bind_eq_some_iff.mp hclose
        obtain ⟨cell, hcell, rfl⟩ := Option.map_eq_some_iff.mp hclose
        obtain ⟨hlevel, hlt⟩ := stop_leave hstop hplace hcell
        rw [if_pos hlt] at hok
        obtain ⟨hdepth, hlost⟩ := lost_of_jump hleveled htraced hplace hcell hlevel commandsList
        exact lost_never_ok hat hl (by rw [← htraced.depth]; exact hdepth) htraced.bound hlost fuel hok

/-- **`parse` accepts exactly what the scan goes through.** -/
theorem accepts_iff_scan {lines : List Text} (h : WellFormed lines) :
    (∃ commandsList, Ends lines (.ok commandsList)) ↔ (scan (shapes lines) {}).isSome = true := by
  have hat := at_shapes h ["reset".toList]
  constructor
  · rintro ⟨result, fuel, hok⟩
    by_contra hnone
    have hnone' : scan (shapes lines) {} = none := by simpa using hnone
    obtain ⟨l₁, shape, l₂, s₁, hl, hscan, hstop⟩ := scan_none hnone'
    rw [hl] at hat
    obtain ⟨commandsList, hturns⟩ := steps_scan hat.append_left hscan []
    obtain ⟨fuel', hok'⟩ := parseLoop_after_turns hturns hok
    exact never_ok_of_stop hat hscan hstop fuel' commandsList hok'
  · intro hsome
    obtain ⟨s, hscan⟩ := Option.isSome_iff_exists.mp hsome
    obtain ⟨commandsList, hturns⟩ := steps_scan hat hscan []
    have hindex : s.index = lines.length := by
      rw [scan_index hscan, length_shapes h]
      exact Nat.zero_add _
    have hline : (lines ++ ["reset".toList])[s.index]? = some "reset".toList := by
      rw [hindex]
      simp
    have hturn : Turn (lines ++ ["reset".toList])
        ⟨s.depth - 1, s.cells.map Cell.toPointer, s.index, commandsList⟩ _ :=
      turn_command hline lineKind_reset
    refine ⟨commandsList ++ [{ call := .reset, line := s.index + 1 }],
      parseLoop_of_turns (hturns.tail hturn) 1 ?_⟩
    simp [parseLoop, hindex]

/-! ## Specification -/

/-- Every "times" line closes a "do" line before it and has a positive count, and no "do" line is
left open; `depth` of them are open. -/
def balanced : List Shape → ℕ → Bool
  | [], depth => depth = 0
  | .simple :: l, depth => balanced l depth
  | .opening :: l, depth => balanced l (depth + 1)
  | .closing _ :: _, 0 => false
  | .closing times :: l, depth + 1 => 0 < times && balanced l depth

/-- Balanced lines are accepted and unrolled, all others raise a syntax error. -/
structure BlocksChecked (lines : List Text) : Prop where
  accepts : (∃ commandsList, Ends lines (.ok commandsList)) ↔ balanced (shapes lines) 0 = true
  unrolled : ∀ commandsList, Ends lines (.ok commandsList) → ∃ p : Program, p.lines = lines ∧
    commandsList = p.meaning 0 ++ [{ call := .reset, line := lines.length + 1 }]
  rejects : balanced (shapes lines) 0 = false →
    ∃ e, Ends lines (.error e) ∧ e.type = .syntaxError

theorem shapes_cons {line : Text} {lines : List Text} {shape : Shape}
    (h : lineShape line = some shape) : shapes (line :: lines) = shape :: shapes lines := by
  unfold shapes
  rw [List.filterMap_cons_some h]

/-- Lines that close `depth` open blocks are programs with the closing lines between them. -/
theorem exists_programs {lines : List Text} {depth : ℕ} (hwell : WellFormed lines)
    (h : balanced (shapes lines) depth = true) : ∃ (p : Program) (l : List (TimesLine × Program)),
      l.length = depth ∧ lines = p.lines ++ l.flatMap fun q => q.1.text :: q.2.lines := by
  induction lines generalizing depth with
  | nil =>
    refine ⟨.nil, [], ?_, rfl⟩
    have hzero : depth = 0 := by simpa [shapes, balanced] using h
    exact hzero.symm
  | cons line lines ih =>
    have hwell' : WellFormed lines := fun line' hline' => hwell line' (List.mem_cons_of_mem _ hline')
    cases hshape : lineShape line with
    | none => exact absurd hshape (hwell line List.mem_cons_self)
    | some shape =>
      rw [shapes_cons hshape] at h
      cases shape with
      | simple =>
        obtain ⟨p, l, hl, rfl⟩ := ih hwell' h
        unfold lineShape at hshape
        cases hkind : lineKind (rstrip line) with
        | blank => exact ⟨.blank ⟨line, hkind⟩ p, l, hl, rfl⟩
        | command call => exact ⟨.simple ⟨line, call, hkind⟩ p, l, hl, rfl⟩
        | _ => rw [hkind] at hshape; cases hshape
      | opening =>
        obtain ⟨p, l, hl, rfl⟩ := ih hwell' h
        cases l with
        | nil => cases hl
        | cons q l =>
          refine ⟨.block ⟨line, lineKind_of_opening hshape⟩ p q.1 q.2, l, ?_, ?_⟩
          · simpa using hl
          · simp [Program.lines]
      | closing times =>
        cases depth with
        | zero => cases h
        | succ depth =>
          obtain ⟨hpos, hbalanced⟩ := Bool.and_eq_true_iff.mp h
          obtain ⟨p, l, hl, rfl⟩ := ih hwell' hbalanced
          refine ⟨.nil, (⟨line, times, lineKind_of_closing hshape,
            Nat.succ_le_of_lt (by simpa using hpos)⟩, p) :: l, by simp [hl], ?_⟩
          simp [Program.lines]

theorem exists_program {lines : List Text} (hwell : WellFormed lines)
    (h : balanced (shapes lines) 0 = true) : ∃ p : Program, p.lines = lines := by
  obtain ⟨p, l, hl, hlines⟩ := exists_programs hwell h
  rw [List.length_eq_zero_iff] at hl
  subst hl
  exact ⟨p, by simpa using hlines.symm⟩

/-! ## Top theorem -/

/-- **The block structure of a file is checked if and only if** it is balanced, or the single pass
over its lines stops at a "times" line. -/
theorem blocks_checked_iff {lines : List Text} (hwell : WellFormed lines) :
    BlocksChecked lines ↔ balanced (shapes lines) 0 = true ∨ scan (shapes lines) {} = none := by
  constructor
  · intro h
    cases hbalanced : balanced (shapes lines) 0 with
    | true => exact .inl rfl
    | false =>
      right
      obtain ⟨e, he, -⟩ := h.rejects hbalanced
      cases hscan : scan (shapes lines) {} with
      | none => rfl
      | some s =>
        obtain ⟨commandsList, hok⟩ := (accepts_iff_scan hwell).mpr (by rw [hscan]; rfl)
        cases he.unique hok
  · intro h
    cases hbalanced : balanced (shapes lines) 0 with
    | true =>
      obtain ⟨p, rfl⟩ := exists_program hwell hbalanced
      have hends := parse_program p
      refine ⟨⟨fun _ => hbalanced, fun _ => ⟨_, hends⟩⟩, fun commandsList hok => ?_, ?_⟩
      · exact ⟨p, rfl, Except.ok.inj (hok.unique hends)⟩
      · intro hfalse
        rw [hbalanced] at hfalse
        cases hfalse
    | false =>
      rw [hbalanced] at h
      have hscan := h.resolve_left fun h => nomatch h
      have hnever : ¬ ∃ commandsList, Ends lines (.ok commandsList) := by
        rw [accepts_iff_scan hwell, hscan]
        exact fun h => nomatch h
      refine ⟨⟨fun h => absurd h hnever, fun h => ?_⟩, fun commandsList hok => ?_, fun _ => ?_⟩
      · rw [hbalanced] at h
        cases h
      · exact absurd ⟨commandsList, hok⟩ hnever
      · obtain ⟨r, hr⟩ := parse_ends lines
        cases r with
        | ok commandsList => exact absurd ⟨commandsList, hr⟩ hnever
        | error e =>
          obtain ⟨fuel, hfuel⟩ := hr
          exact ⟨e, ⟨fuel, hfuel⟩, parseLoop_error hfuel⟩

/-- A "times" line without a block in front of it. -/
theorem blocks_checked_iff_stray : BlocksChecked ["run 5".toList, "2 times".toList] :=
  (blocks_checked_iff (by unfold WellFormed; decide)).mpr (.inr (by decide))

/-- "0 times", a "do" line that stays open, and a second "1 times" line behind a finished block are
all accepted. -/
theorem accepts_unbalanced :
    ¬ BlocksChecked ["do".toList, "run 5".toList, "0 times".toList] ∧
    ¬ BlocksChecked ["do".toList, "run 5".toList] ∧
    ¬ BlocksChecked ["do".toList, "run 5".toList, "1 times".toList, "1 times".toList] := by
  have haccepted : ∀ lines fuel commandsList, parse fuel lines = some (.ok commandsList) →
      balanced (shapes lines) 0 = false → ¬ BlocksChecked lines := by
    intro lines fuel commandsList hok hbalanced h
    have := h.accepts.mp ⟨commandsList, fuel, hok⟩
    rw [hbalanced] at this
    cases this
  refine ⟨haccepted _ 10 [⟨.runCommand 5 "no_name".toList, 2⟩, ⟨.reset, 4⟩] (by decide) (by decide),
    haccepted _ 10 [⟨.runCommand 5 "no_name".toList, 2⟩, ⟨.reset, 3⟩] (by decide) (by decide),
    haccepted _ 10 [⟨.runCommand 5 "no_name".toList, 2⟩, ⟨.reset, 5⟩] (by decide) (by decide)⟩

end Executor.Parser
