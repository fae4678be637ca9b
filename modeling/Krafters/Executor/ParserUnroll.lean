import Krafters.Executor.Parser

/-!
# Loop unrolling: `parse` computes the recursive meaning of a program

`Program` is the syntax of the testing language: simple command lines, blank
lines and `do` … `k times` blocks with `1 ≤ k`, each line a text that the parser
takes for that kind.  `lines` writes a program out, `meaning` repeats the body of
a block `k` times, commands keeping the number of their line.

    Ends p.lines (.ok (p.meaning 0 ++ [reset]))                    (parse_program)

The loop invariant (`RunsAt`) is about the cells of the open blocks only: at depth
`d` (`do_open = d - 1`) a program may grow `pointers` and overwrite every cell from
`d` on, and leaves the first `d` as they were.
-/

namespace Executor.Parser

open Py

/-! ## Runs of the loop -/

/-- `parse(test_file)` ends with `r`. -/
def Ends (testFile : List Text) (r : Except TestException (List Command)) : Prop :=
  ∃ fuel, parse fuel testFile = some r

/-- One turn of the loop that does not raise. -/
def Turn (testFile : List Text) (s s' : State) : Prop :=
  ∃ line, testFile[s.index]? = some line ∧ parseStep line s = .ok s'

/-- Turns of the loop, any number of them. -/
abbrev Turns (testFile : List Text) : State → State → Prop := Relation.ReflTransGen (Turn testFile)

theorem parseLoop_mono (testFile : List Text) (r : Except TestException (List Command)) :
    ∀ (fuel more : Nat) (s : State), parseLoop testFile fuel s = some r →
      parseLoop testFile (fuel + more) s = some r := by
  intro fuel
  induction fuel with
  | zero => intro more s h; simp [parseLoop] at h
  | succ fuel ih =>
    intro more s h
    rw [Nat.succ_add]
    simp only [parseLoop] at h ⊢
    cases hl : testFile[s.index]? with
    | none => rw [hl] at h; exact h
    | some line =>
      rw [hl] at h
      cases hp : parseStep line s with
      | error e => simp only [hp] at h ⊢; exact h
      | ok s' => simp only [hp] at h ⊢; exact ih more s' h

theorem Ends.unique {testFile : List Text} {r r' : Except TestException (List Command)}
    (h : Ends testFile r) (h' : Ends testFile r') : r = r' := by
  obtain ⟨n, hn⟩ := h
  obtain ⟨m, hm⟩ := h'
  have hn' := parseLoop_mono _ r n m _ hn
  have hm' := parseLoop_mono _ r' m n _ hm
  rw [Nat.add_comm, hn'] at hm'
  exact Option.some.inj hm'

/-- Turns lead the loop from `s` to whatever it does from `s'`. -/
theorem parseLoop_of_turns {testFile : List Text} {s s' : State} (h : Turns testFile s s')
    (fuel : Nat) {r : Except TestException (List Command)}
    (hr : parseLoop testFile fuel s' = some r) : ∃ fuel', parseLoop testFile fuel' s = some r := by
  induction h using Relation.ReflTransGen.head_induction_on with
  | refl => exact ⟨fuel, hr⟩
  | head hab _ ih =>
    obtain ⟨fuel', ih⟩ := ih
    obtain ⟨line, hl, hp⟩ := hab
    refine ⟨fuel' + 1, ?_⟩
    simp only [parseLoop, hl, hp]
    exact ih

/-- What the loop ends with, it also ends with after some turns. -/
theorem parseLoop_after_turns {testFile : List Text} {s s' : State} (h : Turns testFile s s')
    {fuel : Nat} {r : Except TestException (List Command)}
    (hr : parseLoop testFile fuel s = some r) : ∃ fuel', parseLoop testFile fuel' s' = some r := by
  induction h using Relation.ReflTransGen.head_induction_on generalizing fuel with
  | refl => exact ⟨fuel, hr⟩
  | head hturn _ ih =>
    obtain ⟨line, hline, hstep⟩ := hturn
    cases fuel with
    | zero => cases hr
    | succ fuel =>
      simp only [parseLoop, hline, hstep] at hr
      exact ih hr

/-! ## Programs -/

structure BlankLine where
  text : Text
  isBlank : lineKind (rstrip text) = .blank

structure SimpleLine where
  text : Text
  call : Call
  isCommand : lineKind (rstrip text) = .command call

structure DoLine where
  text : Text
  isDo : lineKind (rstrip text) = .doLine

structure TimesLine where
  text : Text
  times : Nat
  isTimes : lineKind (rstrip text) = .timesLine times
  pos : 1 ≤ times

/-- A sequence of simple lines, blank lines and blocks. -/
inductive Program
  | nil
  | blank (line : BlankLine) (rest : Program)
  | simple (line : SimpleLine) (rest : Program)
  | block (opening : DoLine) (body : Program) (closing : TimesLine) (rest : Program)

namespace Program

def lines : Program → List Text
  | nil => []
  | blank line rest => line.text :: rest.lines
  | simple line rest => line.text :: rest.lines
  | block opening body closing rest =>
    opening.text :: (body.lines ++ closing.text :: rest.lines)

/-- The commands of a program whose first line has index `i`. -/
def meaning : Program → Nat → List Command
  | nil, _ => []
  | blank _ rest, i => rest.meaning (i + 1)
  | simple line rest, i => { call := line.call, line := i + 1 } :: rest.meaning (i + 1)
  | block _ body closing rest, i =>
    (List.replicate closing.times (body.meaning (i + 1))).flatten ++
      rest.meaning (i + 1 + body.lines.length + 1)

end Program

/-! ## One turn at depth `d`

At depth `d` the first `d` cells belong to open blocks and `do_open` is `d - 1`. -/

section
variable {testFile : List Text} {doOpen : Int} {d index : Nat} {pointers : List Pointer}
  {commandsList : List Command} {line : Text}

theorem pyIndex_ofNat {len k : Nat} (h : k < len) : pyIndex len (k : Int) = some k := by
  simp [pyIndex, h]

/-- The `do` branch at depth `d`: the cell `d` is the new block's, the open cells are kept. -/
theorem openBlock_spec (index : Nat) (commandsList : List Command) (hc : d ≤ pointers.length) :
    ∃ pointers', openBlock ⟨(d : Int) - 1, pointers, index, commandsList⟩ =
        some ⟨d, pointers', index, commandsList⟩ ∧
      pointers'[d]? = some ⟨index, 1⟩ ∧ pointers'.take d = pointers.take d := by
  unfold openBlock
  simp only [Int.sub_add_cancel]
  split
  · next hlt =>
    have hlen : pointers.length = d := by omega
    refine ⟨_, rfl, by simp [← hlen], ?_⟩
    rw [List.take_append_of_le_length (by omega)]
  · next hge =>
    have hlt : d < pointers.length := by omega
    rw [pyIndex_ofNat hlt]
    refine ⟨_, rfl, by simp [hlt], ?_⟩
    rw [List.take_set_of_le (by omega)]

theorem closeBlock_of_cell {cell : Pointer} (hcell : pointers[d]? = some cell) (times : Nat) :
    closeBlock ⟨d, pointers, index, commandsList⟩ times =
      some (if cell.repetition < times then
        ⟨d, pointers.set d ⟨cell.start, cell.repetition + 1⟩, cell.start, commandsList⟩
      else ⟨(d : Int) - 1, pointers, index, commandsList⟩) := by
  obtain ⟨hlt, -⟩ := List.getElem?_eq_some_iff.mp hcell
  simp [closeBlock, pyIndex_ofNat hlt, hcell]

theorem turn_blank (hl : testFile[index]? = some line) (hk : lineKind (rstrip line) = .blank) :
    Turn testFile ⟨doOpen, pointers, index, commandsList⟩
      ⟨doOpen, pointers, index + 1, commandsList⟩ :=
  ⟨line, hl, by simp [parseStep, branch, hk, Except.map]⟩

theorem turn_command {call : Call} (hl : testFile[index]? = some line)
    (hk : lineKind (rstrip line) = .command call) :
    Turn testFile ⟨doOpen, pointers, index, commandsList⟩
      ⟨doOpen, pointers, index + 1, commandsList ++ [⟨call, index + 1⟩]⟩ :=
  ⟨line, hl, by simp [parseStep, branch, hk, Except.map]⟩

theorem turn_do {s s' : State} (hl : testFile[s.index]? = some line)
    (hk : lineKind (rstrip line) = .doLine) (ho : openBlock s = some s') :
    Turn testFile s { s' with index := s'.index + 1 } :=
  ⟨line, hl, by simp [parseStep, branch, hk, ho, Except.map]⟩

theorem turn_times (s : State) {s' : State} {times : Nat} (hl : testFile[s.index]? = some line)
    (hk : lineKind (rstrip line) = .timesLine times) (hc : closeBlock s times = some s') :
    Turn testFile s { s' with index := s'.index + 1 } :=
  ⟨line, hl, by simp [parseStep, branch, hk, hc, Except.map]⟩

end

/-! ## Whole programs -/

/-- Running `p` from index `i` at any depth: its commands are emitted, the loop is behind its last
line, and the cells of the open blocks are as before. -/
def RunsAt (testFile : List Text) (p : Program) (i : Nat) : Prop :=
  ∀ (d : Nat) (pointers : List Pointer) (commandsList : List Command), d ≤ pointers.length →
    ∃ pointers', Turns testFile ⟨(d : Int) - 1, pointers, i, commandsList⟩
        ⟨(d : Int) - 1, pointers', i + p.lines.length, commandsList ++ p.meaning i⟩ ∧
      d ≤ pointers'.length ∧ pointers'.take d = pointers.take d

theorem getElem?_of_take_succ {α : Type} {l l' : List α} {d : Nat}
    (h : l'.take (d + 1) = l.take (d + 1)) : l'[d]? = l[d]? := by
  have := congrArg (·[d]?) h
  simpa using this

theorem take_of_take_succ {α : Type} {l l' : List α} {d : Nat}
    (h : l'.take (d + 1) = l.take (d + 1)) : l'.take d = l.take d := by
  have := congrArg (List.take d) h
  simpa [List.take_take] using this

/-- The repetitions still owed: from the first line of the body with `m` turns to go back, the
block emits its body `m + 1` times and closes. -/
theorem runs_repetitions {testFile : List Text} {body : Program} {closing : TimesLine} {i : Nat}
    (hbody : RunsAt testFile body (i + 1))
    (hclose : testFile[i + 1 + body.lines.length]? = some closing.text) (d : Nat) :
    ∀ (m r : Nat) (pointers : List Pointer) (commandsList : List Command),
      pointers[d]? = some ⟨i, r⟩ → r + m = closing.times →
      ∃ pointers', Turns testFile ⟨d, pointers, i + 1, commandsList⟩
          ⟨(d : Int) - 1, pointers', i + 1 + body.lines.length + 1,
            commandsList ++ (List.replicate (m + 1) (body.meaning (i + 1))).flatten⟩ ∧
        d ≤ pointers'.length ∧ pointers'.take d = pointers.take d := by
  intro m
  induction m with
  | zero =>
    intro r pointers commandsList hcell hrep
    obtain ⟨hlt, -⟩ := List.getElem?_eq_some_iff.mp hcell
    obtain ⟨ptrs, hrun, hlen, hkeep⟩ := hbody (d + 1) pointers commandsList hlt
    have hcell' : ptrs[d]? = some ⟨i, r⟩ := (getElem?_of_take_succ hkeep).trans hcell
    have hturn := turn_times ⟨d, ptrs, i + 1 + body.lines.length,
      commandsList ++ body.meaning (i + 1)⟩ hclose closing.isTimes (closeBlock_of_cell hcell' _)
    rw [if_neg (by simp only; omega)] at hturn
    refine ⟨ptrs, ?_, by omega, take_of_take_succ hkeep⟩
    rw [show ((d + 1 : Nat) : Int) - 1 = d by omega] at hrun
    simpa using hrun.tail hturn
  | succ m ih =>
    intro r pointers commandsList hcell hrep
    obtain ⟨hlt, -⟩ := List.getElem?_eq_some_iff.mp hcell
    obtain ⟨ptrs, hrun, hlen, hkeep⟩ := hbody (d + 1) pointers commandsList hlt
    have hcell' : ptrs[d]? = some ⟨i, r⟩ := (getElem?_of_take_succ hkeep).trans hcell
    have hturn := turn_times ⟨d, ptrs, i + 1 + body.lines.length,
      commandsList ++ body.meaning (i + 1)⟩ hclose closing.isTimes (closeBlock_of_cell hcell' _)
    rw [if_pos (by simp only; omega)] at hturn
    obtain ⟨ptrs', hrun', hlen', hkeep'⟩ := ih (r + 1) (ptrs.set d ⟨i, r + 1⟩)
      (commandsList ++ body.meaning (i + 1)) (by simp [show d < ptrs.length by omega]) (by omega)
    refine ⟨ptrs', ?_, hlen', ?_⟩
    · rw [show ((d + 1 : Nat) : Int) - 1 = d by omega] at hrun
      have := (hrun.tail hturn).trans hrun'
      simpa [List.replicate_succ, List.append_assoc] using this
    · rw [hkeep', List.take_set_of_le (Nat.le_refl d)]
      exact take_of_take_succ hkeep

theorem runsAt_program (testFile : List Text) (p : Program) :
    ∀ (pre post : List Text), testFile = pre ++ p.lines ++ post → RunsAt testFile p pre.length := by
  induction p with
  | nil =>
    intro pre post _ d pointers commandsList hc
    refine ⟨pointers, ?_, hc, rfl⟩
    simpa [Program.lines, Program.meaning] using Relation.ReflTransGen.refl
  | blank line rest ih =>
    intro pre post hfile d pointers commandsList hc
    have hl : testFile[pre.length]? = some line.text := by simp [hfile, Program.lines]
    have hrest := ih (pre ++ [line.text]) post (by simp [hfile, Program.lines])
    rw [List.length_append, List.length_singleton] at hrest
    obtain ⟨ptrs, hrun, hlen, hkeep⟩ := hrest d pointers commandsList hc
    refine ⟨ptrs, ?_, hlen, hkeep⟩
    rw [Program.lines, Program.meaning, List.length_cons, Nat.add_comm rest.lines.length,
      ← Nat.add_assoc]
    exact .head (turn_blank hl line.isBlank) hrun
  | simple line rest ih =>
    intro pre post hfile d pointers commandsList hc
    have hl : testFile[pre.length]? = some line.text := by simp [hfile, Program.lines]
    have hrest := ih (pre ++ [line.text]) post (by simp [hfile, Program.lines])
    rw [List.length_append, List.length_singleton] at hrest
    obtain ⟨ptrs, hrun, hlen, hkeep⟩ :=
      hrest d pointers (commandsList ++ [⟨line.call, pre.length + 1⟩]) hc
    refine ⟨ptrs, ?_, hlen, hkeep⟩
    rw [Program.lines, Program.meaning, List.length_cons, Nat.add_comm rest.lines.length,
      ← Nat.add_assoc, List.append_cons]
    exact .head (turn_command hl line.isCommand) hrun
  | block opening body closing rest ihBody ihRest =>
    intro pre post hfile d pointers commandsList hc
    simp only [Program.lines] at hfile
    have hl : testFile[pre.length]? = some opening.text := by simp [hfile]
    have hclose : testFile[pre.length + 1 + body.lines.length]? = some closing.text := by
      have hsplit : testFile =
          (pre ++ opening.text :: body.lines) ++ closing.text :: (rest.lines ++ post) := by
        simp [hfile]
      have hlen : pre.length + 1 + body.lines.length =
          (pre ++ opening.text :: body.lines).length := by
        simp; omega
      rw [hsplit, hlen, List.getElem?_append_right (Nat.le_refl _), Nat.sub_self]
      rfl
    have hbody := ihBody (pre ++ [opening.text]) (closing.text :: rest.lines ++ post)
      (by simp [hfile])
    have hrest := ihRest (pre ++ opening.text :: (body.lines ++ [closing.text])) post
      (by simp [hfile])
    rw [List.length_append, List.length_singleton] at hbody
    rw [show (pre ++ opening.text :: (body.lines ++ [closing.text])).length =
      pre.length + 1 + body.lines.length + 1 by simp; omega] at hrest
    -- open the block, run all its repetitions, then what follows it
    obtain ⟨ptrs1, hopen, hcell1, hkeep1⟩ :=
      openBlock_spec pre.length commandsList hc
    have htimes : 1 + (closing.times - 1) = closing.times := by have := closing.pos; omega
    obtain ⟨ptrs2, hrun2, hlen2, hkeep2⟩ :=
      runs_repetitions hbody hclose d (closing.times - 1) 1 ptrs1 commandsList hcell1 htimes
    rw [Nat.add_comm (closing.times - 1) 1, htimes] at hrun2
    obtain ⟨ptrs3, hrun3, hlen3, hkeep3⟩ := hrest d ptrs2 (commandsList ++
      (List.replicate closing.times (body.meaning (pre.length + 1))).flatten) hlen2
    refine ⟨ptrs3, ?_, hlen3, hkeep3.trans (hkeep2.trans hkeep1)⟩
    rw [show pre.length + (Program.block opening body closing rest).lines.length =
      pre.length + 1 + body.lines.length + 1 + rest.lines.length by simp [Program.lines]; omega,
      Program.meaning, ← List.append_assoc]
    exact (Relation.ReflTransGen.head (turn_do hl opening.isDo hopen) hrun2).trans hrun3

/-- The line `parse` appends at the end. -/
theorem lineKind_reset : lineKind (rstrip "reset".toList) = .command .reset := by decide

/-- **Loop unrolling.**  `parse` returns the commands of the recursive meaning of the program, and
the reset of the appended line. -/
theorem parse_program (p : Program) :
    Ends p.lines (.ok (p.meaning 0 ++ [{ call := .reset, line := p.lines.length + 1 }])) := by
  obtain ⟨pointers, hrun, -, -⟩ := runsAt_program (p.lines ++ ["reset".toList]) p []
    ["reset".toList] rfl 0 [] [] (Nat.le_refl 0)
  simp only [List.length_nil, Nat.zero_add, List.nil_append] at hrun
  have hline : (p.lines ++ ["reset".toList])[p.lines.length]? = some "reset".toList := by simp
  apply parseLoop_of_turns (hrun.tail (turn_command hline lineKind_reset)) 1
  simp [parseLoop]

end Executor.Parser
