import Krafters.Executor.ParserUnroll
import Mathlib.Data.DFinsupp.WellFounded
import Mathlib.Data.Prod.Lex

/-!
# The parser returns or raises on every test file

A jump goes back behind the line where its cell was written and uses up one of the
repetitions the cell still has; only executing that line again gives them back, and for
that the loop has to be in front of it.  `rank` orders the states lexicographically by
the lines of the file, from the first to the last:

    Turn testFile s s' → Ranked (rank s') (rank s)                      (turn_decreases)
    ∃ r, Ends testFile r                                                (parse_ends)

The same two kinds of turn show that the loop never gets behind a line that raises
(`never_ok_of_raises`).
-/

namespace Executor.Parser

open Py

/-! ## One turn -/

/-- A line that was passed, or opened a block. -/
inductive Advance (s : State) : State → Prop
  | pass {s' : State} (hindex : s'.index = s.index + 1) (hpointers : s'.pointers = s.pointers) :
    Advance s s'
  | append {s' : State} (hindex : s'.index = s.index + 1)
    (hpointers : s'.pointers = s.pointers ++ [⟨s.index, 1⟩]) : Advance s s'
  | set {s' : State} (k : ℕ) (hindex : s'.index = s.index + 1)
    (hpointers : s'.pointers = s.pointers.set k ⟨s.index, 1⟩) : Advance s s'

/-- A "times" line that goes back to the block of its cell. -/
structure Jump (testFile : List Text) (s s' : State) (k : ℕ) (cell : Pointer) : Prop where
  read : s.pointers[k]? = some cell
  times : ∃ line ∈ testFile, ∃ times, lineKind (rstrip line) = .timesLine times ∧
    cell.repetition < times
  pointers : s'.pointers = s.pointers.set k ⟨cell.start, cell.repetition + 1⟩
  index : s'.index = cell.start + 1

theorem openBlock_cases {s s' : State} (h : openBlock s = some s') :
    s'.index = s.index ∧ (s'.pointers = s.pointers ++ [⟨s.index, 1⟩] ∨
      ∃ k, s'.pointers = s.pointers.set k ⟨s.index, 1⟩) := by
  unfold openBlock at h
  dsimp only at h
  split at h
  · cases h
    exact ⟨rfl, .inl rfl⟩
  · obtain ⟨k, -, rfl⟩ := Option.map_eq_some_iff.mp h
    exact ⟨rfl, .inr ⟨k, rfl⟩⟩

theorem closeBlock_cases {s s' : State} {times : ℕ} (h : closeBlock s times = some s') :
    (s'.index = s.index ∧ s'.pointers = s.pointers) ∨
    ∃ k cell, s.pointers[k]? = some cell ∧ cell.repetition < times ∧
      s'.pointers = s.pointers.set k ⟨cell.start, cell.repetition + 1⟩ ∧
      s'.index = cell.start := by
  unfold closeBlock at h
  obtain ⟨k, -, h⟩ := Option.bind_eq_some_iff.mp h
  obtain ⟨cell, hcell, h⟩ := Option.map_eq_some_iff.mp h
  subst h
  split
  · next hlt => exact .inr ⟨k, cell, hcell, hlt, rfl, rfl⟩
  · exact .inl ⟨rfl, rfl⟩

theorem branch_do {testLine : Text} (h : lineKind testLine = .doLine) (s : State) :
    branch testLine s = (openBlock s).elim (.error (syntaxError testLine s.index)) .ok := by
  unfold branch
  rw [h]

theorem branch_times {testLine : Text} {times : ℕ} (h : lineKind testLine = .timesLine times)
    (s : State) :
    branch testLine s = (closeBlock s times).elim (.error (syntaxError testLine s.index)) .ok := by
  unfold branch
  rw [h]

theorem turn_cases {testFile : List Text} {s s' : State} (h : Turn testFile s s') :
    Advance s s' ∨ ∃ k cell, Jump testFile s s' k cell := by
  obtain ⟨line, hline, hstep⟩ := h
  unfold parseStep at hstep
  cases hkind : lineKind (rstrip line) with
  | blank =>
    unfold branch at hstep
    rw [hkind] at hstep
    cases hstep
    exact .inl (.pass rfl rfl)
  | command call =>
    unfold branch at hstep
    rw [hkind] at hstep
    cases hstep
    exact .inl (.pass rfl rfl)
  | doLine =>
    rw [branch_do hkind] at hstep
    cases hopen : openBlock s with
    | none => rw [hopen] at hstep; cases hstep
    | some s₁ =>
      rw [hopen] at hstep
      cases hstep
      obtain ⟨hindex, hpointers | ⟨k, hpointers⟩⟩ := openBlock_cases hopen
      · exact .inl (.append (congrArg (· + 1) hindex) hpointers)
      · exact .inl (.set k (congrArg (· + 1) hindex) hpointers)
  | timesLine times =>
    rw [branch_times hkind] at hstep
    cases hclose : closeBlock s times with
    | none => rw [hclose] at hstep; cases hstep
    | some s₁ =>
      rw [hclose] at hstep
      cases hstep
      obtain ⟨hindex, hpointers⟩ | ⟨k, cell, hcell, hlt, hpointers, hindex⟩ :=
        closeBlock_cases hclose
      · exact .inl (.pass (congrArg (· + 1) hindex) hpointers)
      · exact .inr ⟨k, cell, hcell, ⟨line, List.mem_of_getElem? hline, times, hkind, hlt⟩,
          hpointers, congrArg (· + 1) hindex⟩
  | malformed =>
    unfold branch at hstep
    rw [hkind] at hstep
    cases hstep
  | unknown =>
    unfold branch at hstep
    rw [hkind] at hstep
    cases hstep

/-! ## The measure -/

/-- The repetitions that cells written at line `p` can still make, when no count exceeds `most`. -/
def owed (most p : ℕ) (pointers : List Pointer) : ℕ :=
  (pointers.map fun cell => if cell.start = p then most + 1 - cell.repetition else 0).sum

/-- For each line of a file of `n` lines: whether it is still ahead, and what is owed to it. -/
def rank (n most : ℕ) (s : State) : Fin n → ℕ ×ₗ ℕ :=
  fun p => toLex (if s.index ≤ p then 1 else 0, owed most p s.pointers)

def Ranked (n : ℕ) : (Fin n → ℕ ×ₗ ℕ) → (Fin n → ℕ ×ₗ ℕ) → Prop :=
  Pi.Lex (· < ·) fun {_} a b => a < b

theorem wellFounded_ranked (n : ℕ) : WellFounded (Ranked n) :=
  Pi.Lex.wellFounded (· < ·) fun _ => wellFounded_lt

/-- It is enough that the lines before `p` do not gain. -/
theorem ranked_of_le {n : ℕ} {v w : Fin n → ℕ ×ₗ ℕ} (p : Fin n) (hle : ∀ q < p, v q ≤ w q)
    (hlt : v p < w p) : Ranked n v w := by
  classical
  obtain ⟨i, ⟨hip, hi⟩, hmin⟩ : ∃ i, (i ≤ p ∧ v i ≠ w i) ∧ ∀ j < i, ¬ (j ≤ p ∧ v j ≠ w j) :=
    WellFounded.has_min (wellFounded_lt : WellFounded fun a b : Fin n => a < b)
      {i | i ≤ p ∧ v i ≠ w i} ⟨p, le_refl p, ne_of_lt hlt⟩ |>.imp fun i h =>
        ⟨h.1, fun j hj hmem => h.2 j hmem hj⟩
  refine ⟨i, fun j hj => ?_, ?_⟩
  · by_contra hne
    exact hmin j hj ⟨(hj.trans_le hip).le, hne⟩
  · rcases hip.eq_or_lt with rfl | hlt'
    · exact hlt
    · exact lt_of_le_of_ne (hle i hlt') hi

/-- Writing a cell changes what is owed to its line and to the line of the old cell. -/
theorem owed_set {most p k : ℕ} {pointers : List Pointer} {old new : Pointer}
    (h : pointers[k]? = some old) :
    owed most p (pointers.set k new) + (if old.start = p then most + 1 - old.repetition else 0) =
      owed most p pointers + (if new.start = p then most + 1 - new.repetition else 0) := by
  induction pointers generalizing k with
  | nil => cases h
  | cons cell pointers ih =>
    cases k with
    | zero =>
      obtain rfl := Option.some.inj h
      simp only [owed, List.set_cons_zero, List.map_cons, List.sum_cons]
      omega
    | succ k =>
      have := ih h
      simp only [owed, List.set_cons_succ, List.map_cons, List.sum_cons] at this ⊢
      omega

theorem owed_set_le {most p k : ℕ} {pointers : List Pointer} {new : Pointer} (hp : new.start ≠ p) :
    owed most p (pointers.set k new) ≤ owed most p pointers := by
  cases h : pointers[k]? with
  | none =>
    rw [List.set_eq_of_length_le (List.getElem?_eq_none_iff.mp h)]
  | some old =>
    have := @owed_set most p k pointers old new h
    rw [if_neg hp] at this
    omega

theorem owed_append {most p : ℕ} {pointers : List Pointer} {new : Pointer} (hp : new.start ≠ p) :
    owed most p (pointers ++ [new]) = owed most p pointers := by
  simp [owed, hp]

/-! ## Every turn decreases it -/

/-- Cells hold lines of the file. -/
def InFile (n : ℕ) (s : State) : Prop := ∀ cell ∈ s.pointers, cell.start < n

/-- No "times" line of the file has a larger count. -/
def AtMost (testFile : List Text) (most : ℕ) : Prop :=
  ∀ line ∈ testFile, ∀ times, lineKind (rstrip line) = .timesLine times → times ≤ most

theorem exists_atMost (testFile : List Text) : ∃ most, AtMost testFile most := by
  induction testFile with
  | nil => exact ⟨0, fun line hline => nomatch hline⟩
  | cons line testFile ih =>
    obtain ⟨most, hmost⟩ := ih
    have hrest : ∀ more, ∀ line' ∈ testFile, ∀ times, lineKind (rstrip line') = .timesLine times →
        times ≤ most + more := fun more line' hline' times hkind =>
      Nat.le_add_right_of_le (hmost line' hline' times hkind)
    cases hkind : lineKind (rstrip line) with
    | timesLine times =>
      refine ⟨most + times, fun line' hline' times' hkind' => ?_⟩
      rcases List.mem_cons.mp hline' with rfl | hline'
      · rw [hkind] at hkind'
        obtain rfl := LineKind.timesLine.inj hkind'
        omega
      · exact hrest times line' hline' times' hkind'
    | _ =>
      refine ⟨most + 0, fun line' hline' times' hkind' => ?_⟩
      rcases List.mem_cons.mp hline' with rfl | hline'
      · rw [hkind] at hkind'
        cases hkind'
      · exact hrest 0 line' hline' times' hkind'

theorem turn_inFile {testFile : List Text} {n : ℕ} {s s' : State} (h : Turn testFile s s')
    (hindex : s.index < n) (hs : InFile n s) : InFile n s' := by
  intro cell hcell
  rcases turn_cases h with hadvance | ⟨k, old, hjump⟩
  · cases hadvance with
    | pass _ hpointers =>
      rw [hpointers] at hcell
      exact hs cell hcell
    | append _ hpointers =>
      rw [hpointers] at hcell
      rcases List.mem_append.mp hcell with hcell | hcell
      · exact hs cell hcell
      · obtain rfl := List.mem_singleton.mp hcell
        exact hindex
    | set k _ hpointers =>
      rw [hpointers] at hcell
      rcases List.mem_or_eq_of_mem_set hcell with hcell | rfl
      · exact hs cell hcell
      · exact hindex
  · rw [hjump.pointers] at hcell
    rcases List.mem_or_eq_of_mem_set hcell with hcell | rfl
    · exact hs cell hcell
    · exact hs old (List.mem_of_getElem? hjump.read)

/-- A component does not gain when its line is not ahead again and nothing new is owed to it. -/
theorem rank_le {n most : ℕ} {s s' : State} {q : Fin n} (hahead : s'.index ≤ q → s.index ≤ q)
    (howed : owed most q s'.pointers ≤ owed most q s.pointers) : rank n most s' q ≤ rank n most s q := by
  apply Prod.Lex.toLex_le_toLex.mpr
  dsimp only
  split_ifs with h' h
  · exact .inr ⟨rfl, howed⟩
  · exact absurd (hahead h') h
  · exact .inl Nat.zero_lt_one
  · exact .inr ⟨rfl, howed⟩

theorem rank_lt_of_passed {n most : ℕ} {s s' : State} {p : Fin n} (hahead : s.index ≤ p)
    (hpassed : ¬ s'.index ≤ p) : rank n most s' p < rank n most s p := by
  refine Prod.Lex.toLex_lt_toLex.mpr (.inl ?_)
  dsimp only
  rw [if_neg hpassed, if_pos hahead]
  exact Nat.zero_lt_one

theorem rank_lt_of_owed {n most : ℕ} {s s' : State} {p : Fin n} (hpassed : ¬ s'.index ≤ p)
    (howed : owed most p s'.pointers < owed most p s.pointers) :
    rank n most s' p < rank n most s p := by
  apply Prod.Lex.toLex_lt_toLex.mpr
  dsimp only
  rw [if_neg hpassed]
  split_ifs
  · exact .inl Nat.zero_lt_one
  · exact .inr ⟨rfl, howed⟩

/-- Passing a line, whatever is written for it. -/
theorem advance_decreases {n most : ℕ} {s s' : State} (hindex : s.index < n) (h : Advance s s') :
    Ranked n (rank n most s') (rank n most s) := by
  have hnext : s'.index = s.index + 1 := by
    cases h with
    | pass h | append h | set _ h => exact h
  refine ranked_of_le ⟨s.index, hindex⟩ (fun q hq => ?_) ?_
  · have hq' : s.index ≠ (q : ℕ) := fun heq => absurd hq (by rw [← Fin.val_fin_lt]; simp [heq])
    refine rank_le (fun hahead => by omega) ?_
    cases h with
    | pass _ hpointers => rw [hpointers]
    | append _ hpointers =>
      rw [hpointers]
      exact (owed_append hq').le
    | set k _ hpointers =>
      rw [hpointers]
      exact owed_set_le hq'
  · apply rank_lt_of_passed (Nat.le_refl _)
    show ¬ s'.index ≤ s.index
    omega

/-- Going back uses up a repetition of the cell. -/
theorem jump_decreases {testFile : List Text} {n most : ℕ} {s s' : State} {k : ℕ} {cell : Pointer}
    (hmost : AtMost testFile most) (hcell : cell.start < n) (h : Jump testFile s s' k cell) :
    Ranked n (rank n most s') (rank n most s) := by
  obtain ⟨line, hline, times, hkind, hlt⟩ := h.times
  have hle := hmost line hline times hkind
  have hindex := h.index
  refine ranked_of_le ⟨cell.start, hcell⟩ (fun q hq => ?_) ?_
  · have hq' : (q : ℕ) < cell.start := hq
    refine rank_le (fun hahead => by omega) ?_
    rw [h.pointers]
    exact owed_set_le (by show cell.start ≠ q; omega)
  · apply rank_lt_of_owed
    · show ¬ s'.index ≤ cell.start
      omega
    · have := @owed_set most cell.start _ _ _ ⟨cell.start, cell.repetition + 1⟩ h.read
      rw [h.pointers]
      simp only [if_true] at this
      show owed most cell.start _ < owed most cell.start _
      omega

theorem turn_decreases {testFile : List Text} {most : ℕ} {s s' : State}
    (hmost : AtMost testFile most) (hs : InFile testFile.length s) (h : Turn testFile s s') :
    Ranked testFile.length (rank testFile.length most s') (rank testFile.length most s) := by
  rcases turn_cases h with hadvance | ⟨k, cell, hjump⟩
  · obtain ⟨line, hline, -⟩ := h
    exact advance_decreases (List.getElem?_eq_some_iff.mp hline).1 hadvance
  · exact jump_decreases hmost (hs cell (List.mem_of_getElem? hjump.read)) hjump

/-! ## Top theorem -/

theorem parseLoop_ends {testFile : List Text} {s : State} (hs : InFile testFile.length s) :
    ∃ fuel r, parseLoop testFile fuel s = some r := by
  obtain ⟨most, hmost⟩ := exists_atMost testFile
  induction h : rank testFile.length most s using (wellFounded_ranked testFile.length).induction
    generalizing s with
  | _ v ih =>
    subst h
    cases hline : testFile[s.index]? with
    | none => exact ⟨1, .ok s.commandsList, by simp [parseLoop, hline]⟩
    | some line =>
      cases hstep : parseStep line s with
      | error e => exact ⟨1, .error e, by simp [parseLoop, hline, hstep]⟩
      | ok s' =>
        have hturn : Turn testFile s s' := ⟨line, hline, hstep⟩
        have hindex := (List.getElem?_eq_some_iff.mp hline).1
        obtain ⟨fuel, r, hr⟩ :=
          ih _ (turn_decreases hmost hs hturn) (turn_inFile hturn hindex hs) rfl
        exact ⟨fuel + 1, r, by simp [parseLoop, hline, hstep, hr]⟩

/-- **`parse` ends on every test file**, however its "do" and "times" lines are placed. -/
theorem parse_ends (testFile : List Text) : ∃ r, Ends testFile r := by
  have hinit : InFile (testFile ++ ["reset".toList]).length State.init :=
    fun cell hcell => nomatch hcell
  obtain ⟨fuel, r, hr⟩ := parseLoop_ends hinit
  exact ⟨r, fuel, hr⟩

/-! ## Lines that raise -/

/-- The loop cannot go past a line that raises. -/
theorem never_ok_of_raises {testFile : List Text} {b : ℕ} {line : Text}
    (hline : testFile[b]? = some line) (hraises : ∀ s s', parseStep line s ≠ .ok s') (fuel : ℕ)
    (commandsList : List Command) {s : State} (hindex : s.index ≤ b) (hs : InFile b s) :
    parseLoop testFile fuel s ≠ some (.ok commandsList) := by
  induction fuel generalizing s with
  | zero => exact fun h => nomatch h
  | succ fuel ih =>
    intro hok
    have hlt : s.index < testFile.length :=
      Nat.lt_of_le_of_lt hindex (List.getElem?_eq_some_iff.mp hline).1
    obtain ⟨line', hline'⟩ : ∃ line', testFile[s.index]? = some line' :=
      ⟨_, List.getElem?_eq_getElem hlt⟩
    unfold parseLoop at hok
    rw [hline'] at hok
    dsimp only at hok
    cases hstep : parseStep line' s with
    | error e => rw [hstep] at hok; cases hok
    | ok s' =>
      rw [hstep] at hok
      have hturn : Turn testFile s s' := ⟨line', hline', hstep⟩
      have hne : s.index ≠ b := by
        intro heq
        rw [heq, hline] at hline'
        obtain rfl := Option.some.inj hline'
        exact hraises s s' hstep
      have hlt' : s.index < b := by omega
      refine ih ?_ (turn_inFile hturn hlt' hs) hok
      rcases turn_cases hturn with hadvance | ⟨k, cell, hjump⟩
      · cases hadvance with
        | pass h | append h | set _ h => omega
      · have := hs cell (List.mem_of_getElem? hjump.read)
        have := hjump.index
        omega

/-- A file with a line that raises is not accepted. -/
theorem not_ends_ok_of_raises {lines : List Text} {line : Text} (hline : line ∈ lines)
    (hraises : ∀ s s', parseStep line s ≠ .ok s') (commandsList : List Command) :
    ¬ Ends lines (.ok commandsList) := by
  rintro ⟨fuel, hok⟩
  obtain ⟨b, hb, hget⟩ := List.mem_iff_getElem.mp hline
  have hline' : (lines ++ ["reset".toList])[b]? = some line := by
    rw [List.getElem?_append_left hb, List.getElem?_eq_getElem hb, hget]
  exact never_ok_of_raises hline' hraises fuel commandsList (s := State.init) (Nat.zero_le b)
    (fun cell hcell => nomatch hcell) hok

/-! ## No run goes on for ever -/

/-- **Parsing ends**: the loop has no infinite run, and with enough fuel `parse` gives its answer,
which more fuel does not change. -/
theorem parse_terminates (testFile : List Text) :
    (¬ ∃ run : ℕ → State, run 0 = State.init ∧
      ∀ i, Turn (testFile ++ ["reset".toList]) (run i) (run (i + 1))) ∧
    ∃ fuel r, ∀ more, parse (fuel + more) testFile = some r := by
  have hinit : InFile (testFile ++ ["reset".toList]).length State.init :=
    fun cell hcell => nomatch hcell
  obtain ⟨fuel, r, hr⟩ := parseLoop_ends hinit
  refine ⟨?_, fuel, r, fun more => parseLoop_mono _ r fuel more _ hr⟩
  rintro ⟨run, hinit, hturn⟩
  rw [← hinit] at hr
  generalize 0 = i at hr
  induction fuel generalizing i with
  | zero => cases hr
  | succ fuel ih =>
    obtain ⟨line, hline, hstep⟩ := hturn i
    simp only [parseLoop, hline, hstep] at hr
    exact ih (i + 1) hr

end Executor.Parser
