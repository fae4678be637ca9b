import Krafters.Executor.ParserFollow
import Krafters.Executor.ParserTotal

/-!
# A jump into a block of another depth: `parse` is lost and cannot return

Such a jump leaves `do_open` too small by the number of cells.  Negative indices then find
the cells of the open blocks all the same, so that nothing is noticed above depth 0; but the
"times" line that jumped is at depth 0 or below, where no cell is left, and the loop has to
pass it again.

    Lost l q m s → parseLoop testFile fuel s ≠ some (.ok commandsList)  (lost_never_ok)
-/

namespace Executor.Parser

open Py

/-! ## Where the scan stops -/

def Shape.delta : Shape → ℤ
  | .simple => 0
  | .opening => 1
  | .closing _ => -1

/-- The depth in front of line `i`. -/
def depthAt (l : List Shape) (i : ℕ) : ℤ := ((l.take i).map Shape.delta).sum

theorem depthAt_succ {l : List Shape} {i : ℕ} {shape : Shape} (h : l[i]? = some shape) :
    depthAt l (i + 1) = depthAt l i + shape.delta := by
  unfold depthAt
  rw [List.take_add_one, h]
  simp

/-- Where the cells of a scan come from. -/
structure Traced (l : List Shape) (s : Scan) : Prop where
  depth : s.depth = depthAt l s.index
  bound : ∀ i ≤ s.index, depthAt l i ≤ s.cells.length
  starts : ∀ (j : ℕ) (cell : Cell), s.cells[j]? = some cell → cell.start < s.index ∧
    depthAt l cell.start = cell.level ∧ l[cell.start]? = some .opening

theorem traced_init (l : List Shape) : Traced l {} := by
  refine ⟨rfl, fun i hi => ?_, fun j cell hj => nomatch hj⟩
  obtain rfl : i = 0 := Nat.le_zero.mp hi
  exact Int.le_refl 0

theorem traced_next {l : List Shape} {s s' : Scan} {shape : Shape} (hroom : s.depth ≤ s.cells.length)
    (h : Traced l s) (hl : l[s.index]? = some shape) (hnext : s.next shape = some s') :
    Traced l s' := by
  have hdelta := depthAt_succ hl
  have hindex := next_index hnext
  have hdepth := h.depth
  cases shape with
  | simple =>
    cases hnext
    refine ⟨?_, fun i hi => ?_, fun j cell hj => ?_⟩
    · rw [hdelta, ← hdepth]
      exact (Int.add_zero _).symm
    · rcases Nat.le_succ_iff.mp hi with hi | rfl
      · exact h.bound i hi
      · rw [hdelta]
        have := h.bound s.index (Nat.le_refl _)
        simp only [Shape.delta]
        omega
    · obtain ⟨hlt, hstart⟩ := h.starts j cell hj
      exact ⟨Nat.lt_succ_of_lt hlt, hstart⟩
  | opening =>
    obtain ⟨k, hentered⟩ := entered hroom hnext
    have hroom' := hentered.room
    have hdepth' := hentered.depth
    have hlength := hentered.length
    simp only [Shape.delta] at hdelta
    refine ⟨?_, fun i hi => ?_, fun j cell hj => ?_⟩
    · rw [hindex, hdelta]
      omega
    · rw [hindex] at hi
      rcases Nat.le_succ_iff.mp hi with hi | rfl
      · have := h.bound i hi
        omega
      · rw [hdelta]
        omega
    · rw [hindex]
      by_cases hjk : j = k
      · subst hjk
        rw [hentered.own] at hj
        obtain rfl := Option.some.inj hj
        exact ⟨Nat.lt_succ_self _, hdepth.symm, hl⟩
      · rw [hentered.others j hjk] at hj
        obtain ⟨hlt, hstart⟩ := h.starts j cell hj
        exact ⟨Nat.lt_succ_of_lt hlt, hstart⟩
  | closing times =>
    obtain ⟨k, old, hleft⟩ := left hnext
    have hdepth' := hleft.depth
    have hlength := hleft.length
    simp only [Shape.delta] at hdelta
    refine ⟨?_, fun i hi => ?_, fun j cell hj => ?_⟩
    · rw [hindex, hdelta]
      omega
    · rw [hindex] at hi
      rcases Nat.le_succ_iff.mp hi with hi | rfl
      · have := h.bound i hi
        omega
      · rw [hdelta]
        omega
    · rw [hindex]
      have hcell : ∃ cell', s.cells[j]? = some cell' ∧ cell'.start = cell.start ∧
          cell'.level = cell.level := by
        rcases hleft.cells with ⟨-, hcells⟩ | ⟨-, -, hcells⟩
        · rw [hcells] at hj
          by_cases hjk : j = k
          · subst hjk
            rw [List.getElem?_set_self (List.getElem?_eq_some_iff.mp hleft.read).1] at hj
            obtain rfl := Option.some.inj hj
            exact ⟨old, hleft.read, rfl, rfl⟩
          · rw [List.getElem?_set_ne (Ne.symm hjk)] at hj
            exact ⟨cell, hj, rfl, rfl⟩
        · rw [hcells] at hj
          exact ⟨cell, hj, rfl, rfl⟩
      obtain ⟨cell', hcell', hstart, hlevel⟩ := hcell
      rw [← hstart, ← hlevel]
      obtain ⟨hlt, hstart'⟩ := h.starts j cell' hcell'
      exact ⟨Nat.lt_succ_of_lt hlt, hstart'⟩

theorem traced_scan {l l₁ : List Shape} {s s' : Scan} (hleveled : Leveled s) (h : Traced l s)
    (hl : ∀ j shape, l₁[j]? = some shape → l[s.index + j]? = some shape)
    (hscan : scan l₁ s = some s') : Traced l s' := by
  induction l₁ generalizing s with
  | nil =>
    cases hscan
    exact h
  | cons shape l₁ ih =>
    obtain ⟨s₁, hnext, hrest⟩ := Option.bind_eq_some_iff.mp hscan
    have hleveled₁ : Leveled s₁ := leveled_scan (l := [shape]) hleveled (by
      show (s.next shape).bind (scan []) = some s₁
      rw [hnext]
      rfl)
    refine ih hleveled₁ (traced_next hleveled.room h (hl 0 shape rfl) hnext) (fun j shape' hj => ?_)
      hrest
    rw [next_index hnext, Nat.add_assoc, Nat.add_comm 1 j]
    exact hl (j + 1) shape' hj

/-- The first line at which a scan stops. -/
theorem scan_none {l : List Shape} {s : Scan} (h : scan l s = none) : ∃ l₁ shape l₂ s₁,
    l = l₁ ++ shape :: l₂ ∧ scan l₁ s = some s₁ ∧ s₁.next shape = none := by
  induction l generalizing s with
  | nil => cases h
  | cons shape l ih =>
    cases hnext : s.next shape with
    | none => exact ⟨[], shape, l, s, rfl, rfl, hnext⟩
    | some s₁ =>
      have h' : (s.next shape).bind (scan l) = none := h
      rw [hnext] at h'
      obtain ⟨l₁, shape', l₂, s₂, rfl, hscan, hnone⟩ := ih h'
      refine ⟨shape :: l₁, shape', l₂, s₂, rfl, ?_, hnone⟩
      show (s.next shape).bind (scan l₁) = some s₂
      rw [hnext]
      exact hscan

/-! ## The loop off by the number of cells -/

/-- The loop before line `q`, with `do_open` too small by the number `m` of cells: negative indices
find the cells of the open blocks, but below depth 0 there is none. -/
structure Lost (l : List Shape) (q m : ℕ) (s : State) : Prop where
  doOpen : s.doOpen = depthAt l s.index - m - 1
  nonneg : 0 ≤ depthAt l s.index
  index : s.index ≤ q
  length : s.pointers.length = m
  starts : ∀ (j : ℕ) (p : Pointer), s.pointers[j]? = some p → (j : ℤ) < depthAt l s.index →
    p.start < q ∧ depthAt l p.start = j ∧ l[p.start]? = some .opening

theorem parseStep_simple {line : Text} {s s' : State} (hshape : lineShape line = some .simple)
    (h : parseStep line s = .ok s') :
    s'.index = s.index + 1 ∧ s'.doOpen = s.doOpen ∧ s'.pointers = s.pointers := by
  unfold lineShape at hshape
  unfold parseStep branch at h
  cases hkind : lineKind (rstrip line) with
  | blank | command _ =>
    rw [hkind] at h
    cases h
    exact ⟨rfl, rfl, rfl⟩
  | _ => rw [hkind] at hshape; cases hshape

theorem parseStep_opening {line : Text} {s s' : State} (hshape : lineShape line = some .opening)
    (h : parseStep line s = .ok s') :
    ∃ s₁, openBlock s = some s₁ ∧ s' = { s₁ with index := s₁.index + 1 } := by
  unfold parseStep at h
  rw [branch_do (lineKind_of_opening hshape)] at h
  cases hopen : openBlock s with
  | none => rw [hopen] at h; cases h
  | some s₁ =>
    rw [hopen] at h
    cases h
    exact ⟨s₁, rfl, rfl⟩

theorem parseStep_closing {line : Text} {times : ℕ} {s s' : State}
    (hshape : lineShape line = some (.closing times)) (h : parseStep line s = .ok s') :
    ∃ s₁, closeBlock s times = some s₁ ∧ s' = { s₁ with index := s₁.index + 1 } := by
  unfold parseStep at h
  rw [branch_times (lineKind_of_closing hshape)] at h
  cases hclose : closeBlock s times with
  | none => rw [hclose] at h; cases h
  | some s₁ =>
    rw [hclose] at h
    cases h
    exact ⟨s₁, rfl, rfl⟩

section
variable {l : List Shape} {q m : ℕ} {s s₁ : State}

theorem lost_simple (h : Lost l q m s) (hl : l[s.index]? = some .simple) (hlt : s.index < q)
    {s' : State} (hindex : s'.index = s.index + 1) (hdoOpen : s'.doOpen = s.doOpen)
    (hpointers : s'.pointers = s.pointers) : Lost l q m s' := by
  have hdepth : depthAt l s'.index = depthAt l s.index := by
    rw [hindex, depthAt_succ hl]
    exact Int.add_zero _
  refine ⟨?_, ?_, by omega, by rw [hpointers]; exact h.length, ?_⟩
  · rw [hdoOpen, hdepth]
    exact h.doOpen
  · rw [hdepth]
    exact h.nonneg
  · rw [hpointers, hdepth]
    exact h.starts

/-- A "do" line writes the cell of its depth: the negative index wraps around. -/
theorem lost_opening (h : Lost l q m s) (hl : l[s.index]? = some .opening) (hlt : s.index < q)
    (hbound : depthAt l (s.index + 1) ≤ m) (hopen : openBlock s = some s₁) :
    Lost l q m { s₁ with index := s₁.index + 1 } := by
  have hdepth := depthAt_succ hl
  simp only [Shape.delta] at hdepth
  have hdoOpen := h.doOpen
  have hnonneg := h.nonneg
  have hlength := h.length
  unfold openBlock at hopen
  dsimp only at hopen
  rw [if_neg (by omega)] at hopen
  obtain ⟨k, hk, rfl⟩ := Option.map_eq_some_iff.mp hopen
  obtain ⟨hklt, hplace⟩ := pyIndex_eq_some.mp hk
  rw [if_neg (by omega)] at hplace
  refine ⟨?_, ?_, hlt, by simpa using hlength, fun j p hj hj' => ?_⟩
  · show s.doOpen + 1 = depthAt l (s.index + 1) - m - 1
    omega
  · show 0 ≤ depthAt l (s.index + 1)
    omega
  · have hj'' : (j : ℤ) < depthAt l (s.index + 1) := hj'
    by_cases hjk : j = k
    · subst hjk
      have hp : (s.pointers.set j ⟨s.index, 1⟩)[j]? = some p := hj
      rw [List.getElem?_set_self hklt] at hp
      obtain rfl := Option.some.inj hp
      refine ⟨hlt, ?_, hl⟩
      show depthAt l s.index = j
      omega
    · have hp : (s.pointers.set k ⟨s.index, 1⟩)[j]? = some p := hj
      rw [List.getElem?_set_ne (Ne.symm hjk)] at hp
      exact h.starts j p hp (by omega)

/-- A "times" line reads the cell of its depth, or none at depth 0. -/
theorem lost_closing {times : ℕ} (h : Lost l q m s) (hl : l[s.index]? = some (.closing times))
    (hq : depthAt l q ≤ 0) (hbound : depthAt l s.index ≤ m)
    (hclose : closeBlock s times = some s₁) :
    Lost l q m { s₁ with index := s₁.index + 1 } := by
  have hdepth := depthAt_succ hl
  simp only [Shape.delta] at hdepth
  have hdoOpen := h.doOpen
  have hnonneg := h.nonneg
  have hlength := h.length
  unfold closeBlock at hclose
  obtain ⟨k, hk, hclose⟩ := Option.bind_eq_some_iff.mp hclose
  obtain ⟨cell, hcell, rfl⟩ := Option.map_eq_some_iff.mp hclose
  obtain ⟨hklt, hplace⟩ := pyIndex_eq_some.mp hk
  rw [if_neg (by omega)] at hplace
  have hlt : s.index < q := by
    apply lt_of_le_of_ne h.index
    intro heq
    rw [heq] at hdoOpen
    omega
  obtain ⟨hstart, hstartDepth, hstartShape⟩ := h.starts k cell hcell (by omega)
  have hstartSucc := depthAt_succ hstartShape
  simp only [Shape.delta] at hstartSucc
  split
  · refine ⟨?_, ?_, hstart, by simpa using hlength, fun j p hj hj' => ?_⟩
    · show s.doOpen = depthAt l (cell.start + 1) - m - 1
      omega
    · show 0 ≤ depthAt l (cell.start + 1)
      omega
    · have hj'' : (j : ℤ) < depthAt l (cell.start + 1) := hj'
      by_cases hjk : j = k
      · subst hjk
        have hp : (s.pointers.set j { cell with repetition := cell.repetition + 1 })[j]? = some p :=
          hj
        rw [List.getElem?_set_self hklt] at hp
        obtain rfl := Option.some.inj hp
        exact ⟨hstart, hstartDepth, hstartShape⟩
      · have hp : (s.pointers.set k { cell with repetition := cell.repetition + 1 })[j]? = some p :=
          hj
        rw [List.getElem?_set_ne (Ne.symm hjk)] at hp
        exact h.starts j p hp (by omega)
  · refine ⟨?_, ?_, hlt, hlength, fun j p hj hj' => ?_⟩
    · show s.doOpen - 1 = depthAt l (s.index + 1) - m - 1
      omega
    · show 0 ≤ depthAt l (s.index + 1)
      omega
    · have hj'' : (j : ℤ) < depthAt l (s.index + 1) := hj'
      exact h.starts j p hj (by omega)

end

theorem lost_turn {testFile : List Text} {l : List Shape} {q m k : ℕ} {s s' : State}
    (hat : At testFile 0 l) (hq : l[q]? = some (.closing k)) (hdepth : depthAt l q ≤ 0)
    (hbound : ∀ i ≤ q, depthAt l i ≤ m) (h : Lost l q m s) (hturn : Turn testFile s s') :
    Lost l q m s' := by
  obtain ⟨line, hline, hstep⟩ := hturn
  have hlt := (List.getElem?_eq_some_iff.mp hq).1
  have hindex := h.index
  obtain ⟨shape, hl⟩ : ∃ shape, l[s.index]? = some shape :=
    ⟨_, List.getElem?_eq_getElem (by omega)⟩
  obtain ⟨line', hline', hshape⟩ := hat s.index shape hl
  rw [Nat.zero_add, hline] at hline'
  obtain rfl := Option.some.inj hline'
  have hbefore : (∀ times, shape ≠ .closing times) → s.index < q := by
    intro hne
    refine lt_of_le_of_ne hindex fun heq => hne k ?_
    rw [heq, hq] at hl
    exact (Option.some.inj hl).symm
  cases shape with
  | simple =>
    obtain ⟨hindex', hdoOpen', hpointers'⟩ := parseStep_simple hshape hstep
    exact lost_simple h hl (hbefore fun times heq => nomatch heq) hindex' hdoOpen' hpointers'
  | opening =>
    have hltq := hbefore fun times heq => nomatch heq
    obtain ⟨s₁, hopen, rfl⟩ := parseStep_opening hshape hstep
    exact lost_opening h hl hltq (hbound _ hltq) hopen
  | closing times =>
    obtain ⟨s₁, hclose, rfl⟩ := parseStep_closing hshape hstep
    exact lost_closing h hl hdepth (hbound _ hindex) hclose

/-- **A lost loop does not return.** -/
theorem lost_never_ok {testFile : List Text} {l : List Shape} {q m k : ℕ} (hat : At testFile 0 l)
    (hq : l[q]? = some (.closing k)) (hdepth : depthAt l q ≤ 0)
    (hbound : ∀ i ≤ q, depthAt l i ≤ m) {s : State} (h : Lost l q m s) (fuel : ℕ)
    {commandsList : List Command} : parseLoop testFile fuel s ≠ some (.ok commandsList) := by
  induction fuel generalizing s with
  | zero => exact fun heq => nomatch heq
  | succ fuel ih =>
    intro heq
    have hlt := (List.getElem?_eq_some_iff.mp hq).1
    have hindex := h.index
    obtain ⟨line, hline, -⟩ := hat s.index _ (List.getElem?_eq_getElem (by omega))
    rw [Nat.zero_add] at hline
    simp only [parseLoop, hline] at heq
    cases hstep : parseStep line s with
    | error e =>
      rw [hstep] at heq
      cases heq
    | ok s' =>
      rw [hstep] at heq
      exact ih (lost_turn hat hq hdepth hbound h ⟨line, hline, hstep⟩) heq

theorem stop_leave {s : Scan} {times k : ℕ} {cell : Cell} (hstop : s.leave times = none)
    (hplace : pyIndex s.cells.length (s.depth - 1) = some k) (hcell : s.cells[k]? = some cell) :
    cell.level ≠ s.depth - 1 ∧ cell.repetition < times := by
  unfold Scan.leave at hstop
  rw [hplace] at hstop
  simp only [Option.bind_some, hcell] at hstop
  split at hstop
  · cases hstop
  · next hlevel =>
    split at hstop
    · next hlt => exact ⟨hlevel, hlt⟩
    · cases hstop

/-- A jump into a block of another depth loses the loop. -/
theorem lost_of_jump {l : List Shape} {s : Scan} {k : ℕ} {cell : Cell} (hleveled : Leveled s)
    (htraced : Traced l s) (hplace : pyIndex s.cells.length (s.depth - 1) = some k)
    (hcell : s.cells[k]? = some cell) (hlevel : cell.level ≠ s.depth - 1)
    (commandsList : List Command) :
    s.depth ≤ 0 ∧ Lost l s.index s.cells.length ((⟨cell.start + 1, s.depth,
      s.cells.set k { cell with repetition := cell.repetition + 1 }⟩ : Scan).state commandsList) := by
  obtain ⟨hklt, hk⟩ := pyIndex_eq_some.mp hplace
  have hlevelAt := levelAt_of_cell hcell
  have hdepth : s.depth ≤ 0 := by
    by_contra hpos
    have := hleveled.opened k _ hlevelAt (by split_ifs at hk <;> omega)
    split_ifs at hk <;> omega
  rw [if_neg (by omega)] at hk
  have hown : cell.level = k := by
    rcases hleveled.level k _ hlevelAt with h | h
    · exact h
    · omega
  obtain ⟨hstart, hstartDepth, hstartShape⟩ := htraced.starts k cell hcell
  have hstartSucc := depthAt_succ hstartShape
  simp only [Shape.delta] at hstartSucc
  have hbelow := hleveled.below k (by rw [hlevelAt, hown]) (by omega)
  refine ⟨hdepth, ⟨?_, ?_, hstart, by simp [Scan.state], fun j p hj hj' => ?_⟩⟩
  · show s.depth - 1 = depthAt l (cell.start + 1) - s.cells.length - 1
    omega
  · show 0 ≤ depthAt l (cell.start + 1)
    omega
  · have hj'' : (j : ℤ) < depthAt l (cell.start + 1) := hj'
    have hcell' : ∃ cell', s.cells[j]? = some cell' ∧ cell'.start = p.start := by
      have hp : ((s.cells.set k { cell with repetition := cell.repetition + 1 }).map
          Cell.toPointer)[j]? = some p := hj
      rw [List.getElem?_map] at hp
      obtain ⟨cell', hcell', rfl⟩ := Option.map_eq_some_iff.mp hp
      by_cases hjk : j = k
      · subst hjk
        rw [List.getElem?_set_self hklt] at hcell'
        obtain rfl := Option.some.inj hcell'
        exact ⟨cell, hcell, rfl⟩
      · rw [List.getElem?_set_ne (Ne.symm hjk)] at hcell'
        exact ⟨cell', hcell', rfl⟩
    obtain ⟨cell', hcell', hstart'⟩ := hcell'
    obtain ⟨hlt, hdepth', hshape'⟩ := htraced.starts j cell' hcell'
    have hlevel' := hbelow j cell'.level (by omega) (levelAt_of_cell hcell')
    rw [← hstart']
    exact ⟨hlt, hdepth'.trans hlevel', hshape'⟩

end Executor.Parser
