import Krafters.Executor.ParserScan
import Krafters.Executor.ParserUnroll

/-!
# `parse` follows the single pass as long as that goes on

    scan l {} = some s → Steps testFile {} s                            (steps_scan)

The proof is by the structure of the lines: balanced lines (`steps_blocks`, where a block is
run again from the cells its body left), then surplus "times" lines, which have no cell of
their own, then "do" lines that stay open.
-/

namespace Executor.Parser

open Py

/-! ## The loop beside the scan -/

/-- The state of `parse` that a scan stands for. -/
def Scan.state (s : Scan) (commandsList : List Command) : State :=
  ⟨s.depth - 1, s.cells.map Cell.toPointer, s.index, commandsList⟩

/-- `parse` gets from the one to the other, emitting whatever it emits. -/
def Steps (testFile : List Text) (s t : Scan) : Prop :=
  ∀ commandsList, ∃ commandsList', Turns testFile (s.state commandsList) (t.state commandsList')

theorem Steps.refl (testFile : List Text) (s : Scan) : Steps testFile s s :=
  fun commandsList => ⟨commandsList, .refl⟩

theorem Steps.trans {testFile : List Text} {s t u : Scan} (h : Steps testFile s t)
    (h' : Steps testFile t u) : Steps testFile s u := by
  intro commandsList
  obtain ⟨commandsList₁, h₁⟩ := h commandsList
  obtain ⟨commandsList₂, h₂⟩ := h' commandsList₁
  exact ⟨commandsList₂, h₁.trans h₂⟩

/-- From line `i` on the file has these shapes. -/
def At (testFile : List Text) (i : ℕ) (l : List Shape) : Prop :=
  ∀ j shape, l[j]? = some shape → ∃ line, testFile[i + j]? = some line ∧
    lineShape line = some shape

theorem At.head {testFile : List Text} {i : ℕ} {shape : Shape} {l : List Shape}
    (h : At testFile i (shape :: l)) :
    ∃ line, testFile[i]? = some line ∧ lineShape line = some shape := h 0 shape rfl

theorem At.append_left {testFile : List Text} {i : ℕ} {l l' : List Shape}
    (h : At testFile i (l ++ l')) : At testFile i l := by
  intro j shape hj
  have hlt := (List.getElem?_eq_some_iff.mp hj).1
  exact h j shape (by rw [List.getElem?_append_left hlt]; exact hj)

theorem At.append_right {testFile : List Text} {i : ℕ} {l l' : List Shape}
    (h : At testFile i (l ++ l')) : At testFile (i + l.length) l' := by
  intro j shape hj
  rw [Nat.add_assoc]
  exact h (l.length + j) shape (by
    rw [List.getElem?_append_right (Nat.le_add_right _ _), Nat.add_sub_cancel_left]
    exact hj)

theorem At.tail {testFile : List Text} {i : ℕ} {shape : Shape} {l : List Shape}
    (h : At testFile i (shape :: l)) : At testFile (i + 1) l :=
  At.append_right (l := [shape]) h

theorem openBlock_state (s : Scan) (commandsList : List Command) :
    openBlock (s.state commandsList) =
      s.enter.map fun s₁ => { s₁.state commandsList with index := s.index } := by
  unfold openBlock Scan.enter Scan.state
  simp only [Int.sub_add_cancel, List.length_map]
  split
  · simp
  · simp only [Option.map_map]
    congr 1
    funext k
    simp [List.map_set]

theorem closeBlock_state (s : Scan) (commandsList : List Command) (times : ℕ) :
    closeBlock (s.state commandsList) times =
      (pyIndex s.cells.length (s.depth - 1)).bind fun k => s.cells[k]?.map fun cell =>
        if cell.repetition < times then
          { (⟨s.index, s.depth, s.cells.set k { cell with repetition := cell.repetition + 1 }⟩ :
            Scan).state commandsList with index := cell.start }
        else
          { (⟨s.index, s.depth - 1, s.cells⟩ : Scan).state commandsList with index := s.index } := by
  unfold closeBlock Scan.state
  simp only [List.length_map, List.getElem?_map, Option.map_map]
  congr 1
  funext k
  congr 1
  funext cell
  split <;> simp_all [List.map_set]

section
variable {testFile : List Text} {s s₁ : Scan} {line : Text} {times k : ℕ} {cell : Cell}

theorem steps_simple (hline : testFile[s.index]? = some line) (hshape : lineShape line = some .simple) :
    Steps testFile s { s with index := s.index + 1 } := by
  intro commandsList
  unfold lineShape at hshape
  cases hkind : lineKind (rstrip line) with
  | blank => exact ⟨_, .single (turn_blank hline hkind)⟩
  | command call => exact ⟨_, .single (turn_command hline hkind)⟩
  | _ => rw [hkind] at hshape; cases hshape

theorem lineKind_of_opening (hshape : lineShape line = some .opening) :
    lineKind (rstrip line) = .doLine := by
  unfold lineShape at hshape
  cases hkind : lineKind (rstrip line) <;> rw [hkind] at hshape <;> cases hshape

theorem lineKind_of_closing (hshape : lineShape line = some (.closing times)) :
    lineKind (rstrip line) = .timesLine times := by
  unfold lineShape at hshape
  cases hkind : lineKind (rstrip line) <;> rw [hkind] at hshape <;> cases hshape
  rfl

theorem steps_enter (hline : testFile[s.index]? = some line)
    (hshape : lineShape line = some .opening) (henter : s.enter = some s₁)
    (hindex : s₁.index = s.index + 1) : Steps testFile s s₁ := by
  intro commandsList
  have hopen := openBlock_state s commandsList
  rw [henter] at hopen
  have hturn := turn_do (s := s.state commandsList) hline (lineKind_of_opening hshape) hopen
  refine ⟨commandsList, .single ?_⟩
  have hstate : s₁.state commandsList = { s₁.state commandsList with index := s.index + 1 } := by
    rw [← hindex]
    rfl
  rw [hstate]
  exact hturn

/-- A "times" line lets the loop pass. -/
theorem steps_pass (hline : testFile[s.index]? = some line)
    (hshape : lineShape line = some (.closing times))
    (hindex : pyIndex s.cells.length (s.depth - 1) = some k) (hcell : s.cells[k]? = some cell)
    (hge : ¬ cell.repetition < times) :
    Steps testFile s ⟨s.index + 1, s.depth - 1, s.cells⟩ := by
  intro commandsList
  have hclose := closeBlock_state s commandsList times
  rw [hindex] at hclose
  simp only [Option.bind_some, hcell, Option.map_some, if_neg hge] at hclose
  exact ⟨commandsList, .single (turn_times (s.state commandsList) hline
    (lineKind_of_closing hshape) hclose)⟩

/-- A "times" line goes back to the line of its cell. -/
theorem steps_back (hline : testFile[s.index]? = some line)
    (hshape : lineShape line = some (.closing times))
    (hindex : pyIndex s.cells.length (s.depth - 1) = some k) (hcell : s.cells[k]? = some cell)
    (hlt : cell.repetition < times) :
    Steps testFile s ⟨cell.start + 1, s.depth,
      s.cells.set k { cell with repetition := cell.repetition + 1 }⟩ := by
  intro commandsList
  have hclose := closeBlock_state s commandsList times
  rw [hindex] at hclose
  simp only [Option.bind_some, hcell, Option.map_some, if_pos hlt] at hclose
  exact ⟨commandsList, .single (turn_times (s.state commandsList) hline
    (lineKind_of_closing hshape) hclose)⟩

end

/-! ## Balanced lines -/

/-- The repetitions still owed, `m` of them, when the cell of the block counts `r`. -/
theorem steps_repetitions {testFile : List Text} {s₁ s₂ : Scan} {line : Text}
    {times i c : ℕ} {x : ℤ} (hline : testFile[s₂.index]? = some line)
    (hshape : lineShape line = some (.closing times)) (hi : s₁.index = i + 1)
    (hx : s₁.depth = x + 1) (hdepth : s₂.depth = s₁.depth)
    (hplace : pyIndex s₂.cells.length (s₂.depth - 1) = some c)
    (hbody : ∀ r, Steps testFile { s₁ with cells := s₂.cells.set c ⟨⟨i, r⟩, x⟩ }
      { s₂ with cells := s₂.cells.set c ⟨⟨i, r⟩, x⟩ }) :
    ∀ m r, 1 ≤ r → r + m = max 1 times →
      Steps testFile { s₂ with cells := s₂.cells.set c ⟨⟨i, r⟩, x⟩ }
        ⟨s₂.index + 1, x, s₂.cells.set c ⟨⟨i, max 1 times⟩, x⟩⟩ := by
  have hlt := (pyIndex_eq_some.mp hplace).1
  have hcell : ∀ r, (s₂.cells.set c ⟨⟨i, r⟩, x⟩)[c]? = some ⟨⟨i, r⟩, x⟩ := fun r => by simp [hlt]
  have hplace' : ∀ r, pyIndex (s₂.cells.set c ⟨⟨i, r⟩, x⟩).length (s₂.depth - 1) = some c := by
    intro r
    rw [List.length_set]
    exact hplace
  have hx' : s₂.depth - 1 = x := by omega
  intro m
  induction m with
  | zero =>
    intro r hr hm
    have hpass := steps_pass (s := { s₂ with cells := s₂.cells.set c ⟨⟨i, r⟩, x⟩ }) hline hshape
      (hplace' r) (hcell r) (by show ¬ r < times; omega)
    rw [show r = max 1 times by omega] at hpass ⊢
    simp only [hx'] at hpass
    exact hpass
  | succ m ih =>
    intro r hr hm
    have hback := steps_back (s := { s₂ with cells := s₂.cells.set c ⟨⟨i, r⟩, x⟩ }) hline hshape
      (hplace' r) (hcell r) (by show r < times; omega)
    simp only [List.set_set] at hback
    have hstate : (⟨i + 1, s₂.depth, s₂.cells.set c ⟨⟨i, r + 1⟩, x⟩⟩ : Scan) =
        { s₁ with cells := s₂.cells.set c ⟨⟨i, r + 1⟩, x⟩ } := by rw [hdepth, ← hi]
    rw [hstate] at hback
    exact (hback.trans (hbody (r + 1))).trans (ih (r + 1) (by omega) (by omega))

/-- The cell of a "times" line that has the depth of its block is the one its "do" line wrote. -/
theorem own_cell {s s₁ s₂ s₃ : Scan} {body : Blocks} {times k c : ℕ} {cell : Cell}
    (h : Leveled s) (hentered : Entered s s₁ k) (hbody : scan body.shapes s₁ = some s₂)
    (hleft : Left s₂ s₃ times c cell) (hlevel : cell.level = s₂.depth - 1) :
    c = k ∧ cell = ⟨⟨s.index, 1⟩, s.depth⟩ := by
  obtain ⟨hdepth₂, -, hlength₂⟩ := scan_blocks hentered.room hbody
  have hdepth₁ := hentered.depth
  have hcell₁ := scan_kept hentered.room hbody hleft.read (by omega)
  by_cases hck : c = k
  · subst hck
    rw [hentered.own] at hcell₁
    exact ⟨rfl, (Option.some.inj hcell₁).symm⟩
  · rw [hentered.others c hck] at hcell₁
    have hlt := (List.getElem?_eq_some_iff.mp hcell₁).1
    have hplace := hentered.place
    rcases h.level c cell.level (levelAt_of_cell hcell₁) with hl | hl
    · split_ifs at hplace <;> omega
    · split_ifs at hplace <;> omega

/-- **`parse` follows the scan of balanced lines.** -/
theorem steps_blocks {testFile : List Text} (b : Blocks) {s s' : Scan} (h : Leveled s)
    (hat : At testFile s.index b.shapes) (hscan : scan b.shapes s = some s') :
    Steps testFile s s' := by
  induction b generalizing s s' with
  | nil =>
    cases hscan
    exact Steps.refl testFile s
  | simple rest ih =>
    obtain ⟨line, hline, hshape⟩ := hat.head
    have hrest := ih (s := { s with index := s.index + 1 })
      (h.of_levels (Int.le_refl _) rfl fun _ => rfl) hat.tail hscan
    exact (steps_simple hline hshape).trans hrest
  | block body times rest ihBody ihRest =>
    obtain ⟨s₁, s₂, s₃, h1, h2, h3, h4⟩ := scan_block.mp hscan
    obtain ⟨k, hentered⟩ := entered h.room h1
    obtain ⟨c, cell, hleft⟩ := left h3
    obtain ⟨hdepth₂, hindex₂, hlength₂⟩ := scan_blocks hentered.room h2
    have hindex₁ := hentered.index
    have hdepth₁ := hentered.depth
    have hindex₃ := hleft.index
    have hleveled₁ := leveled_enter h h1
    have hleveled₂ := leveled_scan hleveled₁ h2
    have hleveled₃ := leveled_leave hleveled₂ h3
    obtain ⟨opening, hopening, hopenShape⟩ := hat.head
    have hatBody : At testFile s₁.index body.shapes := by
      rw [hindex₁]
      exact hat.tail.append_left
    have hatRest := hat.tail.append_right
    rw [← hindex₁, ← hindex₂] at hatRest
    obtain ⟨closing, hclosing, hcloseShape⟩ := hatRest.head
    have hplace : pyIndex s₂.cells.length (s₂.depth - 1) = some c :=
      pyIndex_eq_some.mpr ⟨(List.getElem?_eq_some_iff.mp hleft.read).1, hleft.place⟩
    have hfirst : Steps testFile s s₂ :=
      (steps_enter hopening hopenShape h1 hindex₁).trans (ihBody hleveled₁ hatBody h2)
    have hrest : Steps testFile s₃ s' :=
      ihRest hleveled₃ (by rw [hindex₃]; exact hatRest.tail) h4
    refine (hfirst.trans ?_).trans hrest
    have hs₃ : s₃ = ⟨s₂.index + 1, s₂.depth - 1, s₃.cells⟩ := by
      rw [← hindex₃, ← hleft.depth]
    rcases hleft.cells with ⟨hlevel, hcells⟩ | ⟨-, hge, hcells⟩
    · -- its own cell: the body runs until the count is reached
      obtain ⟨rfl, rfl⟩ := own_cell h hentered h2 hleft hlevel
      have hlengths : 0 ≤ s₁.depth ∨ s₂.cells.length = s₁.cells.length := by
        have hplace₁ := hentered.place
        have hplace₂ := hleft.place
        have hlength₁ := hentered.length
        split_ifs at hplace₁ hplace₂ <;> omega
      have hagain : ∀ r, Steps testFile { s₁ with cells := s₂.cells.set c ⟨⟨s.index, r⟩, s.depth⟩ }
          { s₂ with cells := s₂.cells.set c ⟨⟨s.index, r⟩, s.depth⟩ } := by
        intro r
        refine ihBody ?_ hatBody (scan_again hentered.room h2 hlengths
          ⟨_, hleft.read, by show s.depth < s₁.depth; omega⟩)
        apply hleveled₂.of_levels (by rw [hdepth₂]) (by simp)
        intro j
        unfold Scan.levelAt
        rw [List.getElem?_set]
        split_ifs with hj hlt
        · subst hj
          rw [hleft.read]
          rfl
        · subst hj
          rw [List.getElem?_eq_none (by omega)]
        · rfl
      have hsame : s₂ = { s₂ with cells := s₂.cells.set c ⟨⟨s.index, 1⟩, s.depth⟩ } := by
        obtain ⟨hlt, hget⟩ := List.getElem?_eq_some_iff.mp hleft.read
        rw [← hget, List.set_getElem_self]
      have hreps := steps_repetitions hclosing hcloseShape hindex₁ hdepth₁ hdepth₂ hplace hagain
        (max 1 times - 1) 1 (Nat.le_refl 1) (by omega)
      rw [← hsame] at hreps
      rw [hs₃, hcells, show s₂.depth - 1 = s.depth by omega]
      exact hreps
    · rw [hs₃, hcells]
      exact steps_pass hclosing hcloseShape hplace hleft.read hge

/-! ## Any lines -/

/-- Blocks behind surplus "times" lines. -/
def strayShapes (strays : List (ℕ × Blocks)) : List Shape :=
  strays.flatMap fun p => .closing p.1 :: p.2.shapes

/-- Blocks behind "do" lines that nothing closes. -/
def openShapes (opened : List Blocks) : List Shape :=
  opened.flatMap fun b => .opening :: b.shapes

/-- Lines of any shapes are balanced lines, then surplus "times" lines with balanced lines behind
each, then "do" lines left open with balanced lines behind each. -/
theorem exists_pieces (l : List Shape) : ∃ (b : Blocks) (strays : List (ℕ × Blocks))
    (opened : List Blocks), l = b.shapes ++ (strayShapes strays ++ openShapes opened) := by
  induction l with
  | nil => exact ⟨.nil, [], [], rfl⟩
  | cons shape l ih =>
    obtain ⟨b, strays, opened, rfl⟩ := ih
    cases shape with
    | simple => exact ⟨.simple b, strays, opened, rfl⟩
    | closing times =>
      refine ⟨.nil, (times, b) :: strays, opened, ?_⟩
      simp [strayShapes, Blocks.shapes]
    | opening =>
      cases strays with
      | nil =>
        refine ⟨.nil, [], b :: opened, ?_⟩
        simp [strayShapes, openShapes, Blocks.shapes]
      | cons p strays =>
        refine ⟨.block b p.1 p.2, strays, opened, ?_⟩
        simp [strayShapes, Blocks.shapes]

/-- At a depth that nothing has been below, a "times" line has no cell of its own. -/
theorem steps_strays {testFile : List Text} (strays : List (ℕ × Blocks)) {s s' : Scan}
    (h : Leveled s) (hfloor : ∀ j l, s.levelAt j = some l → s.depth ≤ l)
    (hat : At testFile s.index (strayShapes strays))
    (hscan : scan (strayShapes strays) s = some s') : Steps testFile s s' := by
  induction strays generalizing s s' with
  | nil =>
    cases hscan
    exact Steps.refl testFile s
  | cons p strays ih =>
    obtain ⟨times, b⟩ := p
    obtain ⟨s₁, h1, hscan⟩ := Option.bind_eq_some_iff.mp hscan
    have hscan' : scan (b.shapes ++ strayShapes strays) s₁ = some s' := hscan
    rw [scan_append] at hscan'
    obtain ⟨s₂, h2, h3⟩ := Option.bind_eq_some_iff.mp hscan'
    obtain ⟨c, cell, hleft⟩ := left h1
    obtain ⟨line, hline, hshape⟩ := hat.head
    have hindex₁ := hleft.index
    have hdepth₁ := hleft.depth
    have hplace : pyIndex s.cells.length (s.depth - 1) = some c :=
      pyIndex_eq_some.mpr ⟨(List.getElem?_eq_some_iff.mp hleft.read).1, hleft.place⟩
    rcases hleft.cells with ⟨hlevel, -⟩ | ⟨-, hge, hcells⟩
    · have := hfloor c cell.level (levelAt_of_cell hleft.read)
      omega
    · have hs₁ : s₁ = ⟨s.index + 1, s.depth - 1, s.cells⟩ := by
        rw [← hindex₁, ← hdepth₁, ← hcells]
      have hpass := steps_pass hline hshape hplace hleft.read hge
      rw [← hs₁] at hpass
      have hleveled₁ := leveled_leave h h1
      obtain ⟨hdepth₂, hindex₂, -⟩ := scan_blocks hleveled₁.room h2
      have hat' : At testFile s₁.index (b.shapes ++ strayShapes strays) := by
        rw [hindex₁]
        exact hat.tail
      have hfloor₂ : ∀ j l, s₂.levelAt j = some l → s₂.depth ≤ l := by
        rw [hdepth₂]
        refine scan_floor hleveled₁.room (Int.le_refl _) (fun j l hj => ?_) h2
        rw [hleft.levelAt] at hj
        have := hfloor j l hj
        omega
      have hblocks := steps_blocks b hleveled₁ hat'.append_left h2
      have hrest := ih (leveled_scan hleveled₁ h2) hfloor₂
        (by rw [hindex₂]; exact hat'.append_right) h3
      exact (hpass.trans hblocks).trans hrest

theorem steps_open {testFile : List Text} (opened : List Blocks) {s s' : Scan} (h : Leveled s)
    (hat : At testFile s.index (openShapes opened)) (hscan : scan (openShapes opened) s = some s') :
    Steps testFile s s' := by
  induction opened generalizing s s' with
  | nil =>
    cases hscan
    exact Steps.refl testFile s
  | cons b opened ih =>
    obtain ⟨s₁, h1, hscan⟩ := Option.bind_eq_some_iff.mp hscan
    have hscan' : scan (b.shapes ++ openShapes opened) s₁ = some s' := hscan
    rw [scan_append] at hscan'
    obtain ⟨s₂, h2, h3⟩ := Option.bind_eq_some_iff.mp hscan'
    obtain ⟨k, hentered⟩ := entered h.room h1
    obtain ⟨line, hline, hshape⟩ := hat.head
    have hleveled₁ := leveled_enter h h1
    obtain ⟨-, hindex₂, -⟩ := scan_blocks hleveled₁.room h2
    have hat' : At testFile s₁.index (b.shapes ++ openShapes opened) := by
      rw [hentered.index]
      exact hat.tail
    have hblocks := steps_blocks b hleveled₁ hat'.append_left h2
    have hrest := ih (leveled_scan hleveled₁ h2) (by rw [hindex₂]; exact hat'.append_right) h3
    exact ((steps_enter hline hshape h1 hentered.index).trans hblocks).trans hrest

/-- **`parse` follows the scan as long as that goes on.** -/
theorem steps_scan {testFile : List Text} {l : List Shape} {s : Scan} (hat : At testFile 0 l)
    (hscan : scan l {} = some s) : Steps testFile {} s := by
  obtain ⟨b, strays, opened, rfl⟩ := exists_pieces l
  rw [scan_append] at hscan
  obtain ⟨s₁, h1, hscan⟩ := Option.bind_eq_some_iff.mp hscan
  rw [scan_append] at hscan
  obtain ⟨s₂, h2, h3⟩ := Option.bind_eq_some_iff.mp hscan
  have hleveled₁ := leveled_scan leveled_init h1
  have hleveled₂ := leveled_scan hleveled₁ h2
  have hindex₁ := scan_index h1
  have hindex₂ := scan_index h2
  have hdepth₁ := (scan_blocks leveled_init.room h1).1
  have hfloor₁ : ∀ j l, s₁.levelAt j = some l → s₁.depth ≤ l := by
    rw [hdepth₁]
    exact scan_floor leveled_init.room (Int.le_refl _) (fun j l hj => nomatch hj) h1
  have hat₁ := hat.append_right
  rw [← hindex₁] at hat₁
  have hat₂ := hat₁.append_right
  rw [← hindex₂] at hat₂
  have hblocks := steps_blocks b leveled_init hat.append_left h1
  have hstrays := steps_strays strays hleveled₁ hfloor₁ hat₁.append_left h2
  exact (hblocks.trans hstrays).trans (steps_open opened hleveled₂ hat₂ h3)

end Executor.Parser
