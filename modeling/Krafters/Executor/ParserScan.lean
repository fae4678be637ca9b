import Krafters.Executor.Parser

/-!
# One pass over the "do" and "times" lines, without the jumps of `parse`

`scan` keeps the counter `do_open + 1` and the cells of `parse`, and repeats nothing.
A cell remembers the depth of the "do" line that wrote it (`level`), so that a "times" line
knows whether `pointers[do_open]` is the cell of its own "do" line or of another one,
which it can only pass if that one repeated its block often enough.

    scan b.shapes s = some s' → s'.depth = s.depth                      (scan_blocks)
    Leveled s → scan l s = some s' → Leveled s'                         (leveled_scan)

`scan_agree`: scanning the body of a block again, from the cells it left, changes nothing.
-/

namespace Executor.Parser

open Py

/-! ## Algorithm -/

/-- What a line is for the block structure. -/
inductive Shape
  | simple
  | opening
  | closing (times : ℕ)
deriving DecidableEq, Repr

def LineKind.shape : LineKind → Option Shape
  | .blank | .command _ => some .simple
  | .doLine => some .opening
  | .timesLine times => some (.closing times)
  | .malformed | .unknown => none

def lineShape (line : Text) : Option Shape := (lineKind (rstrip line)).shape

/-- A cell of `pointers` with the depth its line has. -/
structure Cell extends Pointer where
  level : ℤ
deriving DecidableEq, Repr

/-- `depth` is the number of open blocks, negative after surplus "times" lines. -/
structure Scan where
  index : ℕ := 0
  depth : ℤ := 0
  cells : List Cell := []
deriving DecidableEq, Repr

namespace Scan

variable (s : Scan)

def enter : Option Scan :=
  let cell : Cell := { start := s.index, repetition := 1, level := s.depth }
  if (s.cells.length : ℤ) < s.depth + 1 then
    some ⟨s.index + 1, s.depth + 1, s.cells ++ [cell]⟩
  else
    (pyIndex s.cells.length s.depth).map fun k => ⟨s.index + 1, s.depth + 1, s.cells.set k cell⟩

/-- Behind a "times" line: its own cell ends with the count, another one must have reached it. -/
def leave (times : ℕ) : Option Scan :=
  (pyIndex s.cells.length (s.depth - 1)).bind fun k => s.cells[k]?.bind fun cell =>
    if cell.level = s.depth - 1 then
      some ⟨s.index + 1, s.depth - 1,
        s.cells.set k { cell with repetition := max cell.repetition times }⟩
    else if cell.repetition < times then none
    else some ⟨s.index + 1, s.depth - 1, s.cells⟩

def next : Shape → Option Scan
  | .simple => some { s with index := s.index + 1 }
  | .opening => s.enter
  | .closing times => s.leave times

end Scan

def scan : List Shape → Scan → Option Scan
  | [], s => some s
  | shape :: l, s => (s.next shape).bind (scan l)

/-- Balanced lines. -/
inductive Blocks
  | nil
  | simple (rest : Blocks)
  | block (body : Blocks) (times : ℕ) (rest : Blocks)

def Blocks.shapes : Blocks → List Shape
  | nil => []
  | simple rest => .simple :: rest.shapes
  | block body times rest => .opening :: (body.shapes ++ .closing times :: rest.shapes)

/-! ## Lemmas: one line -/

theorem pyIndex_eq_some {len k : ℕ} {i : ℤ} :
    pyIndex len i = some k ↔ k < len ∧ (k : ℤ) = if 0 ≤ i then i else len + i := by
  unfold pyIndex
  split_ifs <;> simp only [Option.some.injEq, false_iff, not_and] <;> omega

theorem scan_append {l l' : List Shape} {s : Scan} :
    scan (l ++ l') s = (scan l s).bind (scan l') := by
  induction l generalizing s with
  | nil => rfl
  | cons shape l ih =>
    show (s.next shape).bind (scan (l ++ l')) = ((s.next shape).bind (scan l)).bind (scan l')
    cases s.next shape with
    | none => rfl
    | some s₁ => exact ih

theorem scan_block {body rest : Blocks} {times : ℕ} {s s' : Scan} :
    scan (Blocks.block body times rest).shapes s = some s' ↔ ∃ s₁ s₂ s₃, s.enter = some s₁ ∧
      scan body.shapes s₁ = some s₂ ∧ s₂.leave times = some s₃ ∧ scan rest.shapes s₃ = some s' := by
  show s.enter.bind (scan (body.shapes ++ .closing times :: rest.shapes)) = some s' ↔ _
  simp only [Option.bind_eq_some_iff, scan_append]
  constructor
  · rintro ⟨s₁, h1, s₂, h2, h3⟩
    obtain ⟨s₃, h3, h4⟩ := Option.bind_eq_some_iff.mp h3
    exact ⟨s₁, s₂, s₃, h1, h2, h3, h4⟩
  · rintro ⟨s₁, s₂, s₃, h1, h2, h3, h4⟩
    exact ⟨s₁, h1, s₂, h2, Option.bind_eq_some_iff.mpr ⟨s₃, h3, h4⟩⟩

/-- Where a "do" line writes: behind the cells at the first visit of a depth, else over a cell. -/
structure Entered (s s₁ : Scan) (k : ℕ) : Prop where
  index : s₁.index = s.index + 1
  depth : s₁.depth = s.depth + 1
  own : s₁.cells[k]? = some { start := s.index, repetition := 1, level := s.depth }
  others : ∀ j, j ≠ k → s₁.cells[j]? = s.cells[j]?
  place : (k : ℤ) = if 0 ≤ s.depth then s.depth else s.cells.length + s.depth
  length : s₁.cells.length = s.cells.length ∨
    s₁.cells.length = s.cells.length + 1 ∧ k = s.cells.length

theorem entered {s s₁ : Scan} (hroom : s.depth ≤ s.cells.length) (h : s.enter = some s₁) :
    ∃ k, Entered s s₁ k := by
  unfold Scan.enter at h
  dsimp only at h
  split at h
  · next hlt =>
    cases h
    refine ⟨s.cells.length, rfl, rfl, by simp, fun j hj => ?_, ?_, .inr ⟨by simp, rfl⟩⟩
    · by_cases hj' : j < s.cells.length
      · rw [List.getElem?_append_left hj']
      · rw [List.getElem?_eq_none (by simp; omega), List.getElem?_eq_none (by omega)]
    · split_ifs <;> omega
  · next hge =>
    obtain ⟨k, hk, rfl⟩ := Option.map_eq_some_iff.mp h
    obtain ⟨hlt, hplace⟩ := pyIndex_eq_some.mp hk
    refine ⟨k, rfl, rfl, by simp [hlt], fun j hj => ?_, hplace, .inl (by simp)⟩
    exact List.getElem?_set_ne (Ne.symm hj)

theorem Entered.room {s s₁ : Scan} {k : ℕ} (h : Entered s s₁ k) : s₁.depth ≤ s₁.cells.length := by
  have hown := (List.getElem?_eq_some_iff.mp h.own).1
  have hplace := h.place
  have hdepth := h.depth
  split_ifs at hplace <;> omega

/-- What a "times" line reads, and what it does to the cell. -/
structure Left (s s₃ : Scan) (times k : ℕ) (cell : Cell) : Prop where
  index : s₃.index = s.index + 1
  depth : s₃.depth = s.depth - 1
  read : s.cells[k]? = some cell
  place : (k : ℤ) = if 0 ≤ s.depth - 1 then s.depth - 1 else s.cells.length + (s.depth - 1)
  cells : cell.level = s.depth - 1 ∧
      s₃.cells = s.cells.set k { cell with repetition := max cell.repetition times } ∨
    cell.level ≠ s.depth - 1 ∧ ¬ cell.repetition < times ∧ s₃.cells = s.cells

theorem left {s s₃ : Scan} {times : ℕ} (h : s.leave times = some s₃) :
    ∃ k cell, Left s s₃ times k cell := by
  unfold Scan.leave at h
  obtain ⟨k, hk, h⟩ := Option.bind_eq_some_iff.mp h
  obtain ⟨cell, hcell, h⟩ := Option.bind_eq_some_iff.mp h
  obtain ⟨-, hplace⟩ := pyIndex_eq_some.mp hk
  split at h
  · next hlevel =>
    cases h
    exact ⟨k, cell, rfl, rfl, hcell, hplace, .inl ⟨hlevel, rfl⟩⟩
  · next hlevel =>
    split at h
    · cases h
    · next hge =>
      cases h
      exact ⟨k, cell, rfl, rfl, hcell, hplace, .inr ⟨hlevel, hge, rfl⟩⟩

theorem Left.length {s s₃ : Scan} {times k : ℕ} {cell : Cell} (h : Left s s₃ times k cell) :
    s₃.cells.length = s.cells.length := by
  rcases h.cells with ⟨-, hcells⟩ | ⟨-, -, hcells⟩
  · rw [hcells, List.length_set]
  · rw [hcells]

/-- The depth that the line of cell `j` has. -/
def Scan.levelAt (s : Scan) (j : ℕ) : Option ℤ := (s.cells[j]?).map Cell.level

theorem levelAt_of_cell {s : Scan} {j : ℕ} {cell : Cell} (h : s.cells[j]? = some cell) :
    s.levelAt j = some cell.level := by
  unfold Scan.levelAt
  rw [h]
  rfl

theorem lt_of_levelAt {s : Scan} {j : ℕ} {l : ℤ} (h : s.levelAt j = some l) :
    j < s.cells.length := by
  obtain ⟨cell, hcell, -⟩ := Option.map_eq_some_iff.mp h
  exact (List.getElem?_eq_some_iff.mp hcell).1

theorem Entered.levelAt_own {s s₁ : Scan} {k : ℕ} (h : Entered s s₁ k) :
    s₁.levelAt k = some s.depth := levelAt_of_cell h.own

theorem Entered.levelAt_others {s s₁ : Scan} {k j : ℕ} (h : Entered s s₁ k) (hj : j ≠ k) :
    s₁.levelAt j = s.levelAt j := by
  unfold Scan.levelAt
  rw [h.others j hj]

theorem Left.levelAt {s s₃ : Scan} {times k : ℕ} {cell : Cell} (h : Left s s₃ times k cell)
    (j : ℕ) : s₃.levelAt j = s.levelAt j := by
  unfold Scan.levelAt
  rcases h.cells with ⟨-, hcells⟩ | ⟨-, -, hcells⟩
  · rw [hcells, List.getElem?_set]
    split_ifs with hjk hlt
    · subst hjk
      rw [h.read]
      rfl
    · subst hjk
      rw [List.getElem?_eq_none (by omega)]
    · rfl
  · rw [hcells]

theorem next_index {shape : Shape} {s s' : Scan} (h : s.next shape = some s') :
    s'.index = s.index + 1 := by
  cases shape with
  | simple =>
    cases h
    rfl
  | opening =>
    unfold Scan.next Scan.enter at h
    dsimp only at h
    split at h
    · cases h
      rfl
    · obtain ⟨k, -, rfl⟩ := Option.map_eq_some_iff.mp h
      rfl
  | closing times =>
    obtain ⟨k, cell, hleft⟩ := left h
    exact hleft.index

theorem scan_index {l : List Shape} {s s' : Scan} (h : scan l s = some s') :
    s'.index = s.index + l.length := by
  induction l generalizing s with
  | nil =>
    cases h
    rfl
  | cons shape l ih =>
    obtain ⟨s₁, hnext, hrest⟩ := Option.bind_eq_some_iff.mp h
    have hindex := next_index hnext
    have := ih hrest
    rw [List.length_cons]
    omega

/-! ## Lemmas: whole blocks -/

/-- **Balanced lines come back to their depth.** -/
theorem scan_blocks {b : Blocks} {s s' : Scan} (hroom : s.depth ≤ s.cells.length)
    (h : scan b.shapes s = some s') :
    s'.depth = s.depth ∧ s'.index = s.index + b.shapes.length ∧
      s.cells.length ≤ s'.cells.length := by
  induction b generalizing s s' with
  | nil =>
    cases h
    exact ⟨rfl, rfl, Nat.le_refl _⟩
  | simple rest ih =>
    obtain ⟨hdepth, hindex, hlength⟩ := ih (s := { s with index := s.index + 1 }) hroom h
    refine ⟨hdepth, ?_, hlength⟩
    simp only [Blocks.shapes, List.length_cons] at hindex ⊢
    omega
  | block body times rest ihBody ihRest =>
    obtain ⟨s₁, s₂, s₃, h1, h2, h3, h4⟩ := scan_block.mp h
    obtain ⟨k, hentered⟩ := entered hroom h1
    obtain ⟨c, cell, hleft⟩ := left h3
    have hlength₁ := hentered.length
    obtain ⟨hdepth₂, hindex₂, hlength₂⟩ := ihBody hentered.room h2
    have hdepth₃ := hleft.depth
    have hdepth₁ := hentered.depth
    obtain ⟨hdepth₄, hindex₄, hlength₄⟩ := ihRest (by rw [hleft.length]; omega) h4
    refine ⟨by omega, ?_, by have := hleft.length; omega⟩
    have hindex₁ := hentered.index
    have hindex₃ := hleft.index
    simp only [Blocks.shapes, List.length_cons, List.length_append]
    omega

/-- Cells are at their depth, counted from the first cell or, below depth 0, from the last; under
the cell that `pointers[do_open]` reads, a cell of a depth from 0 on has such cells only. -/
structure Leveled (s : Scan) : Prop where
  room : s.depth ≤ s.cells.length
  level : ∀ j l, s.levelAt j = some l → l = j ∨ l = j - s.cells.length
  opened : ∀ j l, s.levelAt j = some l → (j : ℤ) < s.depth → l = j
  below : ∀ c, s.levelAt c = some (c : ℤ) → (c : ℤ) < s.cells.length + s.depth →
    ∀ j l, j ≤ c → s.levelAt j = some l → l = j

theorem leveled_init : Leveled {} := by
  constructor <;> simp [Scan.levelAt]

theorem leveled_enter {s s₁ : Scan} (h : Leveled s) (henter : s.enter = some s₁) : Leveled s₁ := by
  obtain ⟨k, he⟩ := entered h.room henter
  have hown := lt_of_levelAt he.levelAt_own
  have hplace := he.place
  have hdepth := he.depth
  have hlength := he.length
  refine ⟨?_, ?_, ?_, ?_⟩
  · split_ifs at hplace <;> omega
  · intro j l hj
    by_cases hjk : j = k
    · subst hjk
      obtain rfl := Option.some.inj (he.levelAt_own.symm.trans hj)
      split_ifs at hplace <;> omega
    · rw [he.levelAt_others hjk] at hj
      have hlt := lt_of_levelAt hj
      rcases hlength with hlength | ⟨hlength, hk⟩
      · rw [hlength]
        exact h.level j l hj
      · -- a new cell at the end: all the others belong to open blocks
        refine .inl (h.opened j l hj ?_)
        split_ifs at hplace <;> omega
  · intro j l hj hlt
    by_cases hjk : j = k
    · subst hjk
      obtain rfl := Option.some.inj (he.levelAt_own.symm.trans hj)
      split_ifs at hplace <;> omega
    · rw [he.levelAt_others hjk] at hj
      apply h.opened j l hj
      split_ifs at hplace <;> omega
  · intro c hc hlt j l hjc hj
    by_cases hck : c = k
    · subst hck
      have hlevel := Option.some.inj (he.levelAt_own.symm.trans hc)
      by_cases hj' : j = c
      · subst hj'
        exact Option.some.inj (hj.symm.trans hc)
      · rw [he.levelAt_others hj'] at hj
        exact h.opened j l hj (by omega)
    · have hc' := hc
      rw [he.levelAt_others hck] at hc'
      have hcm := lt_of_levelAt hc'
      have hbelow := h.below c hc' (by split_ifs at hplace <;> omega)
      by_cases hj' : j = k
      · subst hj'
        obtain rfl := Option.some.inj (he.levelAt_own.symm.trans hj)
        split_ifs at hplace <;> omega
      · rw [he.levelAt_others hj'] at hj
        exact hbelow j l hjc hj

/-- The cells keep their levels, and the depth does not grow. -/
theorem Leveled.of_levels {s s' : Scan} (h : Leveled s) (hdepth : s'.depth ≤ s.depth)
    (hlength : s'.cells.length = s.cells.length) (hlevel : ∀ j, s'.levelAt j = s.levelAt j) :
    Leveled s' := by
  refine ⟨by rw [hlength]; exact hdepth.trans h.room, ?_, ?_, ?_⟩
  · intro j l hj
    rw [hlevel] at hj
    rw [hlength]
    exact h.level j l hj
  · intro j l hj hlt
    rw [hlevel] at hj
    exact h.opened j l hj (by omega)
  · intro c hc hlt j l hjc hj
    rw [hlevel] at hc hj
    exact h.below c hc (by omega) j l hjc hj

theorem leveled_leave {s s₃ : Scan} {times : ℕ} (h : Leveled s) (hleave : s.leave times = some s₃) :
    Leveled s₃ := by
  obtain ⟨k, cell, hleft⟩ := left hleave
  exact h.of_levels (by rw [hleft.depth]; omega) hleft.length hleft.levelAt

theorem leveled_scan {l : List Shape} {s s' : Scan} (h : Leveled s) (hscan : scan l s = some s') :
    Leveled s' := by
  induction l generalizing s with
  | nil =>
    cases hscan
    exact h
  | cons shape l ih =>
    obtain ⟨s₁, hnext, hrest⟩ := Option.bind_eq_some_iff.mp hscan
    refine ih ?_ hrest
    cases shape with
    | simple =>
      cases hnext
      exact h.of_levels (Int.le_refl _) rfl fun _ => rfl
    | opening => exact leveled_enter h hnext
    | closing times => exact leveled_leave h hnext

/-- Balanced lines write cells of their own depths only. -/
theorem scan_floor {b : Blocks} {s s' : Scan} {floor : ℤ} (hroom : s.depth ≤ s.cells.length)
    (hdepth : floor ≤ s.depth) (hfloor : ∀ j l, s.levelAt j = some l → floor ≤ l)
    (h : scan b.shapes s = some s') : ∀ j l, s'.levelAt j = some l → floor ≤ l := by
  induction b generalizing s s' with
  | nil =>
    cases h
    exact hfloor
  | simple rest ih => exact ih (s := { s with index := s.index + 1 }) hroom hdepth hfloor h
  | block body times rest ihBody ihRest =>
    obtain ⟨s₁, s₂, s₃, h1, h2, h3, h4⟩ := scan_block.mp h
    obtain ⟨k, hentered⟩ := entered hroom h1
    obtain ⟨c, cell, hleft⟩ := left h3
    obtain ⟨hdepth₂, -, hlength₂⟩ := scan_blocks hentered.room h2
    have hdepth₁ := hentered.depth
    have hdepth₃ := hleft.depth
    have hlength₃ := hleft.length
    have hroom₁ := hentered.room
    have hfloor₁ : ∀ j l, s₁.levelAt j = some l → floor ≤ l := by
      intro j l hj
      by_cases hjk : j = k
      · subst hjk
        obtain rfl := Option.some.inj (hentered.levelAt_own.symm.trans hj)
        exact hdepth
      · rw [hentered.levelAt_others hjk] at hj
        exact hfloor j l hj
    have hfloor₂ := ihBody hroom₁ (by omega) hfloor₁ h2
    refine ihRest (by omega) (by omega) (fun j l hj => ?_) h4
    rw [hleft.levelAt] at hj
    exact hfloor₂ j l hj

/-- A cell of a smaller depth is not one that balanced lines wrote. -/
theorem scan_kept {b : Blocks} {s s' : Scan} (hroom : s.depth ≤ s.cells.length)
    (h : scan b.shapes s = some s') {j : ℕ} {cell : Cell} (hcell : s'.cells[j]? = some cell)
    (hlevel : cell.level < s.depth) : s.cells[j]? = some cell := by
  induction b generalizing s s' with
  | nil =>
    cases h
    exact hcell
  | simple rest ih => exact ih (s := { s with index := s.index + 1 }) hroom h hcell hlevel
  | block body times rest ihBody ihRest =>
    obtain ⟨s₁, s₂, s₃, h1, h2, h3, h4⟩ := scan_block.mp h
    obtain ⟨k, hentered⟩ := entered hroom h1
    obtain ⟨c, old, hleft⟩ := left h3
    obtain ⟨hdepth₂, -, hlength₂⟩ := scan_blocks hentered.room h2
    have hdepth₁ := hentered.depth
    have hdepth₃ := hleft.depth
    have hlength₃ := hleft.length
    have hroom₁ := hentered.room
    have hcell₃ := ihRest (by omega) h4 hcell (by omega)
    have hcell₂ : s₂.cells[j]? = some cell := by
      rcases hleft.cells with ⟨hown, hcells⟩ | ⟨-, -, hcells⟩
      · rw [hcells] at hcell₃
        by_cases hj : j = c
        · subst hj
          have hlt := (List.getElem?_eq_some_iff.mp hleft.read).1
          rw [List.getElem?_set_self hlt] at hcell₃
          obtain rfl := Option.some.inj hcell₃
          simp only at hlevel
          omega
        · rwa [List.getElem?_set_ne (Ne.symm hj)] at hcell₃
      · rwa [hcells] at hcell₃
    have hcell₁ := ihBody hroom₁ h2 hcell₂ (by omega)
    by_cases hj : j = k
    · subst hj
      rw [hentered.own] at hcell₁
      obtain rfl := Option.some.inj hcell₁
      simp only at hlevel
      omega
    · rwa [hentered.others j hj] at hcell₁

/-! ## Scanning again -/

/-- Two scans from `a` to `a'` and from `b` to `b'` wrote the same cells, of lines from `depth` on,
and left the others. -/
def Agree (depth : ℤ) (a a' b b' : List Cell) : Prop :=
  ∀ j : ℕ, (b'[j]? = a'[j]? ∧ ∃ cell, a'[j]? = some cell ∧ depth ≤ cell.level) ∨
    (b'[j]? = b[j]? ∧ a'[j]? = a[j]?)

theorem Agree.refl (depth : ℤ) (a b : List Cell) : Agree depth a a b b := fun _ => .inr ⟨rfl, rfl⟩

theorem Agree.trans {depth : ℤ} {a a' a'' b b' b'' : List Cell} (h : Agree depth a a' b b')
    (h' : Agree depth a' a'' b' b'') : Agree depth a a'' b b'' := by
  intro j
  rcases h' j with hwritten | ⟨hb', ha'⟩
  · exact .inl hwritten
  · rw [hb', ha']
    exact h j

theorem Agree.mono {depth depth' : ℤ} {a a' b b' : List Cell} (hle : depth ≤ depth')
    (h : Agree depth' a a' b b') : Agree depth a a' b b' := by
  intro j
  rcases h j with ⟨heq, cell, hcell, hlevel⟩ | hkept
  · exact .inl ⟨heq, cell, hcell, hle.trans hlevel⟩
  · exact .inr hkept

/-- The second scan has its cells at the places of the first: from depth 0 on if it has enough of
them, below if both have equally many and add none. -/
def Alike (depth : ℤ) (a a' b : List Cell) : Prop :=
  0 ≤ depth ∧ a'.length ≤ b.length ∨ a'.length = a.length ∧ b.length = a.length

theorem enter_agree {s s₁ t : Scan} {k : ℕ} (hentered : Entered s s₁ k)
    (hdepth : t.depth = s.depth) (halike : Alike s.depth s.cells s₁.cells t.cells) :
    ∃ t₁, t.enter = some t₁ ∧ Entered t t₁ k ∧ t₁.cells.length = t.cells.length := by
  have hown := (List.getElem?_eq_some_iff.mp hentered.own).1
  have hplace := hentered.place
  have hlength := hentered.length
  have hlt : k < t.cells.length := by
    rcases halike with ⟨-, hle⟩ | ⟨heq, heq'⟩ <;> omega
  have hindexed : pyIndex t.cells.length t.depth = some k := by
    refine pyIndex_eq_some.mpr ⟨hlt, ?_⟩
    rw [hdepth]
    rcases halike with ⟨hnonneg, -⟩ | ⟨heq, heq'⟩
    · rw [if_pos hnonneg] at hplace ⊢
      exact hplace
    · rw [heq']
      exact hplace
  have henter : t.enter = some ⟨t.index + 1, t.depth + 1,
      t.cells.set k { start := t.index, repetition := 1, level := t.depth }⟩ := by
    unfold Scan.enter
    dsimp only
    rw [if_neg, hindexed]
    · rfl
    · obtain ⟨-, hplace'⟩ := pyIndex_eq_some.mp hindexed
      split_ifs at hplace' <;> omega
  refine ⟨_, henter, ⟨rfl, rfl, by simp [hlt], fun j hj => ?_, ?_, .inl (by simp)⟩, by simp⟩
  · exact List.getElem?_set_ne (Ne.symm hj)
  · exact (pyIndex_eq_some.mp hindexed).2

theorem leave_agree {s s₃ t : Scan} {times c : ℕ} {cell : Cell} (hleft : Left s s₃ times c cell)
    (hdepth : t.depth = s.depth) (hread : t.cells[c]? = some cell)
    (hplace : (c : ℤ) = if 0 ≤ t.depth - 1 then t.depth - 1 else t.cells.length + (t.depth - 1)) :
    ∃ t₃, t.leave times = some t₃ ∧ Left t t₃ times c cell := by
  have hlt := (List.getElem?_eq_some_iff.mp hread).1
  have hindexed : pyIndex t.cells.length (t.depth - 1) = some c := pyIndex_eq_some.mpr ⟨hlt, hplace⟩
  unfold Scan.leave
  rw [hindexed]
  simp only [Option.bind_some, hread]
  rcases hleft.cells with ⟨hlevel, -⟩ | ⟨hlevel, hge, -⟩
  · rw [← hdepth] at hlevel
    rw [if_pos hlevel]
    exact ⟨_, rfl, rfl, rfl, hread, hplace, .inl ⟨hlevel, rfl⟩⟩
  · rw [← hdepth] at hlevel
    rw [if_neg hlevel, if_neg hge]
    exact ⟨_, rfl, rfl, rfl, hread, hplace, .inr ⟨hlevel, hge, rfl⟩⟩

theorem Entered.agree {s s₁ t t₁ : Scan} {k : ℕ} (h : Entered s s₁ k) (ht : Entered t t₁ k)
    (hdepth : t.depth = s.depth) (hindex : t.index = s.index) :
    Agree s.depth s.cells s₁.cells t.cells t₁.cells := by
  intro j
  by_cases hj : j = k
  · subst hj
    refine .inl ⟨?_, _, h.own, Int.le_refl _⟩
    rw [ht.own, hdepth, hindex, h.own]
  · exact .inr ⟨ht.others j hj, h.others j hj⟩

theorem Left.agree {s s₃ t t₃ : Scan} {times c : ℕ} {cell : Cell} {floor : ℤ}
    (h : Left s s₃ times c cell) (ht : Left t t₃ times c cell) (hdepth : t.depth = s.depth)
    (hfloor : floor ≤ cell.level) : Agree floor s.cells s₃.cells t.cells t₃.cells := by
  rcases h.cells with ⟨hlevel, hcells⟩ | ⟨hlevel, -, hcells⟩
  · rcases ht.cells with ⟨-, htcells⟩ | ⟨htlevel, -, -⟩
    · rw [hcells, htcells]
      intro j
      by_cases hj : j = c
      · subst hj
        have hlt := (List.getElem?_eq_some_iff.mp h.read).1
        have hlt' := (List.getElem?_eq_some_iff.mp ht.read).1
        exact .inl ⟨by simp [hlt, hlt'],
          { cell with repetition := max cell.repetition times }, by simp [hlt], hfloor⟩
      · exact .inr ⟨List.getElem?_set_ne (Ne.symm hj), List.getElem?_set_ne (Ne.symm hj)⟩
    · omega
  · rcases ht.cells with ⟨htlevel, -⟩ | ⟨-, -, htcells⟩
    · omega
    · rw [hcells, htcells]
      exact Agree.refl _ _ _

/-- **What balanced lines write does not depend on the cells before.** -/
theorem scan_agree {b : Blocks} {s s' t : Scan} (hroom : s.depth ≤ s.cells.length)
    (h : scan b.shapes s = some s') (hdepth : t.depth = s.depth) (hindex : t.index = s.index)
    (halike : Alike s.depth s.cells s'.cells t.cells) :
    ∃ t', scan b.shapes t = some t' ∧ t'.depth = s'.depth ∧ t'.index = s'.index ∧
      t'.cells.length = t.cells.length ∧ Agree s.depth s.cells s'.cells t.cells t'.cells := by
  induction b generalizing s s' t with
  | nil =>
    cases h
    exact ⟨t, rfl, hdepth, hindex, rfl, Agree.refl _ _ _⟩
  | simple rest ih =>
    exact ih (s := { s with index := s.index + 1 }) (t := { t with index := t.index + 1 }) hroom h
      hdepth (congrArg (· + 1) hindex) halike
  | block body times rest ihBody ihRest =>
    obtain ⟨s₁, s₂, s₃, h1, h2, h3, h4⟩ := scan_block.mp h
    obtain ⟨k, hentered⟩ := entered hroom h1
    obtain ⟨c, cell, hleft⟩ := left h3
    have hroom₁ := hentered.room
    have hdepth₁ := hentered.depth
    obtain ⟨hdepth₂, -, hlength₂⟩ := scan_blocks hroom₁ h2
    have hdepth₃ := hleft.depth
    have hlength₃ := hleft.length
    have hlength₁ := hentered.length
    have hroom₃ : s₃.depth ≤ s₃.cells.length := by omega
    obtain ⟨hdepth₄, -, hlength₄⟩ := scan_blocks hroom₃ h4
    have halike₁ : Alike s.depth s.cells s₁.cells t.cells := by
      rcases halike with ⟨hnonneg, hle⟩ | ⟨heq, heq'⟩
      · exact .inl ⟨hnonneg, by omega⟩
      · exact .inr ⟨by omega, heq'⟩
    obtain ⟨t₁, ht1, htentered, htlength₁⟩ := enter_agree hentered hdepth halike₁
    have htdepth₁ := htentered.depth
    have htindex₁ := htentered.index
    have hindex₁ := hentered.index
    have halike₂ : Alike s₁.depth s₁.cells s₂.cells t₁.cells := by
      rcases halike with ⟨hnonneg, hle⟩ | ⟨heq, heq'⟩
      · exact .inl ⟨by omega, by omega⟩
      · exact .inr ⟨by omega, by omega⟩
    obtain ⟨t₂, ht2, htdepth₂, htindex₂, htlength₂, hagree₂⟩ :=
      ihBody hroom₁ h2 (by omega) (by omega) halike₂
    -- the "times" line reads the cell of its own "do" line, or what the body wrote over it
    have hck : c = k := by
      have hplace := hleft.place
      have hplace' := hentered.place
      rcases halike with ⟨hnonneg, hle⟩ | ⟨heq, heq'⟩
      · rw [if_pos (by omega)] at hplace hplace'
        omega
      · split_ifs at hplace hplace' <;> omega
    subst hck
    have hread : t₂.cells[c]? = some cell := by
      rcases hagree₂ c with ⟨heq, -⟩ | ⟨heq, heq'⟩
      · rw [heq, hleft.read]
      · rw [heq, htentered.own, hdepth, hindex, ← hentered.own, ← heq', hleft.read]
    have hfloor : s.depth ≤ cell.level := by
      rcases hagree₂ c with ⟨-, cell', hcell', hlevel⟩ | ⟨-, heq'⟩
      · rw [hleft.read] at hcell'
        obtain rfl := Option.some.inj hcell'
        omega
      · rw [hleft.read, hentered.own] at heq'
        obtain rfl := Option.some.inj heq'
        exact Int.le_refl _
    have htplace : (c : ℤ) =
        if 0 ≤ t₂.depth - 1 then t₂.depth - 1 else t₂.cells.length + (t₂.depth - 1) := by
      have hplace := htentered.place
      split_ifs at hplace ⊢ <;> omega
    obtain ⟨t₃, ht3, htleft⟩ := leave_agree hleft htdepth₂ hread htplace
    have htdepth₃ := htleft.depth
    have htindex₃ := htleft.index
    have hindex₃ := hleft.index
    have htlength₃ := htleft.length
    have halike₄ : Alike s₃.depth s₃.cells s'.cells t₃.cells := by
      rcases halike with ⟨hnonneg, hle⟩ | ⟨heq, heq'⟩
      · exact .inl ⟨by omega, by omega⟩
      · exact .inr ⟨by omega, by omega⟩
    obtain ⟨t', ht', htdepth', htindex', htlength', hagree₄⟩ :=
      ihRest hroom₃ h4 (by omega) (by omega) halike₄
    refine ⟨t', scan_block.mpr ⟨t₁, t₂, t₃, ht1, ht2, ht3, ht'⟩, htdepth', htindex', by omega, ?_⟩
    have hagree₁ := hentered.agree htentered hdepth hindex
    have hagree₃ := hleft.agree htleft htdepth₂ hfloor
    have hagree₂' := hagree₂.mono (show s.depth ≤ s₁.depth by omega)
    have hagree₄' := hagree₄.mono (show s.depth ≤ s₃.depth by omega)
    exact ((hagree₁.trans hagree₂').trans hagree₃).trans hagree₄'

/-- **Scanning a body again changes nothing**, whatever count the cell of its block has by then. -/
theorem scan_again {b : Blocks} {s s' : Scan} {c : ℕ} {cell : Cell} (hroom : s.depth ≤ s.cells.length)
    (h : scan b.shapes s = some s') (hkept : 0 ≤ s.depth ∨ s'.cells.length = s.cells.length)
    (hread : ∃ old, s'.cells[c]? = some old ∧ old.level < s.depth) :
    scan b.shapes { s with cells := s'.cells.set c cell } =
      some { s' with cells := s'.cells.set c cell } := by
  have halike : Alike s.depth s.cells s'.cells (s'.cells.set c cell) := by
    rw [Alike, List.length_set]
    rcases hkept with hnonneg | hlength
    · exact .inl ⟨hnonneg, Nat.le_refl _⟩
    · exact .inr ⟨hlength, hlength⟩
  obtain ⟨t', ht', hdepth', hindex', hlength', hagree⟩ :=
    scan_agree (t := { s with cells := s'.cells.set c cell }) hroom h rfl rfl halike
  obtain ⟨old, hold, hlevel⟩ := hread
  have hcells : t'.cells = s'.cells.set c cell := by
    apply List.ext_getElem?
    intro j
    rcases hagree j with ⟨heq, cell', hcell', hle⟩ | ⟨heq, -⟩
    · by_cases hj : j = c
      · subst hj
        rw [hold] at hcell'
        obtain rfl := Option.some.inj hcell'
        omega
      · rw [heq, List.getElem?_set_ne (Ne.symm hj)]
    · exact heq
  rw [ht']
  obtain ⟨index', depth', cells'⟩ := t'
  simp only at hdepth' hindex' hcells
  rw [hdepth', hindex', hcells]

end Executor.Parser
