import Krafters.Executor.ParserTotal
import Krafters.TestGenerator.Lines

/-!
# Generated tests read back by the parser

The file of a `Test` is followed call by call, from the first one.  After calls whose
lines mean what they should, `parse` has emitted their commands (`Reaches`); a call
whose line it cannot read, or reads with another rule, spoils the result whatever
comes behind it (`Fails`):

    b.Plain ∧ Reaches b.file b.meaning  or  ¬ b.Plain ∧ Fails b.file b.meaning     (outcome)
    RoundTrips b ↔ b.Plain                                              (round_trips_iff)

`repeat` and `repeat_all` indent the lines of a block with a tab, which no pattern of the
parser allows, and a rule is cut at the word "set" and at line ends.
-/

namespace TestGenerator

open Py Executor Executor.Parser

/-! ## Specification -/

/-- A call with the blanks around its rule taken off. -/
def trimmed : Call → Call
  | .modifyLinkFromTo sources targets rule bidirectional =>
    .modifyLinkFromTo sources targets (strip rule) bidirectional
  | call => call

theorem trimmed_link (sources targets : Endpoints) (bidirectional : Bool) (rule : Text) :
    trimmed (Built.link sources targets bidirectional rule) =
      Built.link sources targets bidirectional (strip rule) := rfl

/-- The calls of the commands, up to blanks around the rules. -/
def calls (commandsList : List Command) : List Call := commandsList.map fun c => trimmed c.call

/-- The lines of the file that `print_to_file` writes, as they are read back. -/
def Built.file (b : Built) : List Text := readlines b.test.printToFile

/-- The file is accepted, and its commands are those of the builder calls; `parse` adds the last
reset. -/
def RoundTrips (b : Built) : Prop :=
  ∃ commandsList, Ends b.file (.ok commandsList) ∧
    calls commandsList = (b.meaning ++ [Call.reset]).map trimmed

/-- A rule that the parser finds whole. -/
def Verbatim (rule : Text) : Prop :=
  hasSub "set".toList (rstrip rule) = false ∧ ∀ c ∈ rstrip rule, isNewline c = false

/-- Nothing but tests without a line is repeated, and all rules are found whole. -/
def Built.Plain : Built → Prop
  | init => True
  | run t _ => t.Plain
  | reset t => t.Plain
  | setDelay t delay _ _ _ => t.Plain ∧ Verbatim (delayRule delay)
  | setLoss t loss _ _ _ => t.Plain ∧ Verbatim (lossRule loss)
  | setRule t rule _ _ _ => t.Plain ∧ Verbatim rule.text
  | partition t _ _ => t.Plain
  | repeatTest t test _ _ => t.Plain ∧ test.test.getLines = []
  | repeatAll t _ _ => t.test.testLines = []

/-! ## Lines of a file -/

/-- What is read of some written lines. -/
def written (lines : List Text) : List Text :=
  readlines (lines.flatMap fun line => line ++ "\n".toList)

theorem written_cons (line : Text) (lines : List Text) :
    written (line :: lines) = readlines (line ++ ['\n']) ++ written lines := by
  unfold written
  rw [List.flatMap_cons, List.append_assoc]
  exact readlines_append _ _

theorem written_append (lines lines' : List Text) :
    written (lines ++ lines') = written lines ++ written lines' := by
  induction lines with
  | nil => rfl
  | cons line lines ih => rw [List.cons_append, written_cons, written_cons, ih, List.append_assoc]

theorem written_singleton (line : Text) : written [line] = readlines (line ++ ['\n']) := by
  rw [written_cons]
  exact List.append_nil _

/-- The letters in front of the first line end. -/
def firstLine (s : Text) : Text := s.takeWhile fun c => !isNewline c

theorem firstLine_notNewline (s : Text) : ∀ c ∈ firstLine s, isNewline c = false := by
  intro c hc
  simpa using List.mem_takeWhile_imp hc

theorem readlines_first (s : Text) :
    ∃ more, readlines (s ++ ['\n']) = (firstLine s ++ ['\n']) :: more := by
  have hfirst := firstLine_notNewline s
  have hsplit : s = firstLine s ++ s.dropWhile fun c => !isNewline c :=
    List.takeWhile_append_dropWhile.symm
  cases hrest : s.dropWhile fun c => !isNewline c with
  | nil =>
    rw [hrest, List.append_nil] at hsplit
    exact ⟨_, (congrArg (fun a => readlines (a ++ ['\n'])) hsplit).trans
      (readlines_newline hfirst (by rfl) [])⟩
  | cons c rest =>
    have hc : isNewline c = true := by
      have := List.head?_dropWhile_not (fun c => !isNewline c) s
      rw [hrest] at this
      simpa using this
    rw [hrest] at hsplit
    have hread := readlines_newline hfirst hc (rest ++ ['\n'])
    rw [← List.cons_append, ← List.append_assoc] at hread
    exact ⟨_, (congrArg (fun a => readlines (a ++ ['\n'])) hsplit).trans hread⟩

/-! ## Programs of a line -/

theorem exists_blanks {lines : List Text} (h : ∀ line ∈ lines, rstrip line = []) :
    ∃ p : Program, p.lines = lines ∧ ∀ i, p.meaning i = [] := by
  induction lines with
  | nil => exact ⟨.nil, rfl, fun _ => rfl⟩
  | cons line lines ih =>
    obtain ⟨p, rfl, hp⟩ := ih fun line' hline' => h line' (List.mem_cons_of_mem _ hline')
    have hblank : lineKind (rstrip line) = .blank := by
      rw [h line List.mem_cons_self]
      rfl
    exact ⟨.blank ⟨line, hblank⟩ p, rfl, fun i => hp (i + 1)⟩

theorem exists_program_line {line : Text} {call : Call}
    (hnewline : ∀ c ∈ rstrip line, isNewline c = false)
    (hkind : lineKind (rstrip line) = .command call) :
    ∃ p : Program, p.lines = written [line] ∧ ∀ i, p.meaning i = [{ call, line := i + 1 }] := by
  obtain ⟨first, more, hread, hfirst, hmore⟩ := readlines_line hnewline
  obtain ⟨p, hlines, hp⟩ := exists_blanks hmore
  rw [← hfirst] at hkind
  refine ⟨.simple ⟨first, call, hkind⟩ p, ?_, fun i => ?_⟩
  · rw [written_singleton, hread, ← hlines]
    rfl
  · rw [Program.meaning, hp]

/-- A block without lines. -/
theorem exists_program_block {times : Nat} (pos : 1 ≤ times) :
    ∃ p : Program, p.lines = written (Test.doTimes [] times) ∧ ∀ i, p.meaning i = [] := by
  have hdo : lineKind (rstrip "do\n".toList) = .doLine := by decide
  have hspace : ∀ c ∈ ['\n'], isSpace c = true := by decide
  have hword : rstrip (natText times ++ " times".toList) = natText times ++ " times".toList := by
    have hsplit : natText times ++ " times".toList =
        (natText times ++ [' ']) ++ "times".toList := by
      rw [List.append_assoc]
      rfl
    rw [hsplit]
    exact rstrip_append_word (by decide) (by decide) _
  have htimes : lineKind (rstrip (natText times ++ " times".toList ++ ['\n'])) =
      .timesLine times := by
    rw [rstrip_append_spaces hspace, hword]
    exact lineKind_times times
  have hnewline : ∀ c ∈ natText times ++ " times".toList, isNewline c = false := by
    intro c hc
    rcases List.mem_append.mp hc with hc | hc
    · exact isNewline_of_not_isSpace (isSpace_of_mem_natText hc)
    · have hall : ∀ c ∈ " times".toList, isNewline c = false := by decide
      exact hall c hc
  refine ⟨.block ⟨_, hdo⟩ .nil ⟨_, times, htimes, pos⟩ .nil, ?_, fun i => ?_⟩
  · have hread := readlines_newline hnewline (c := '\n') (by rfl) []
    have hlines : Test.doTimes [] times = ["do".toList, natText times ++ " times".toList] := rfl
    rw [hlines, written_cons, written_singleton, hread]
    rfl
  · simp [Program.meaning]

/-! ## Runs of the loop -/

theorem parseStep_extends {line : Text} {s s' : State} (h : parseStep line s = .ok s') :
    s.commandsList <+: s'.commandsList := by
  unfold parseStep at h
  cases hkind : lineKind (rstrip line) with
  | command call =>
    unfold branch at h
    rw [hkind] at h
    cases h
    exact List.prefix_append _ _
  | doLine =>
    rw [branch_do hkind] at h
    cases hopen : openBlock s with
    | none => rw [hopen] at h; cases h
    | some s₁ =>
      rw [hopen] at h
      cases h
      unfold openBlock at hopen
      dsimp only at hopen
      split at hopen
      · cases hopen
        exact List.prefix_rfl
      · obtain ⟨k, -, rfl⟩ := Option.map_eq_some_iff.mp hopen
        exact List.prefix_rfl
  | timesLine times =>
    rw [branch_times hkind] at h
    cases hclose : closeBlock s times with
    | none => rw [hclose] at h; cases h
    | some s₁ =>
      rw [hclose] at h
      cases h
      obtain ⟨k, -, hclose⟩ := Option.bind_eq_some_iff.mp hclose
      obtain ⟨cell, -, rfl⟩ := Option.map_eq_some_iff.mp hclose
      split <;> exact List.prefix_rfl
  | _ =>
    unfold branch at h
    rw [hkind] at h
    cases h
    try exact List.prefix_rfl

/-- Commands that were emitted stay. -/
theorem parseLoop_prefix {testFile : List Text} {fuel : Nat} {s : State}
    {commandsList : List Command} (h : parseLoop testFile fuel s = some (.ok commandsList)) :
    s.commandsList <+: commandsList := by
  induction fuel generalizing s with
  | zero => cases h
  | succ fuel ih =>
    unfold parseLoop at h
    cases hline : testFile[s.index]? with
    | none =>
      rw [hline] at h
      cases h
      exact List.prefix_rfl
    | some line =>
      rw [hline] at h
      dsimp only at h
      cases hstep : parseStep line s with
      | error e => rw [hstep] at h; cases h
      | ok s' =>
        rw [hstep] at h
        exact (parseStep_extends hstep).trans (ih h)

/-! ## What the lines of the calls do so far -/

/-- The loop gets behind the lines and has emitted the commands of the calls. -/
def Reaches (file : List Text) (built : List Call) : Prop :=
  ∀ post, ∃ pointers commandsList,
    Turns (file ++ post) State.init ⟨-1, pointers, file.length, commandsList⟩ ∧
      calls commandsList = built.map trimmed

/-- Whatever is behind the lines, the commands are not those of the calls. -/
def Fails (file : List Text) (built : List Call) : Prop :=
  ∀ post commandsList more, Ends (file ++ post) (.ok commandsList) →
    calls commandsList ≠ (built ++ more).map trimmed

/-- The lines mean the calls if `plain` holds, and spoil the file otherwise. -/
def Outcome (plain : Prop) (file : List Text) (built : List Call) : Prop :=
  (plain ∧ Reaches file built) ∨ (¬ plain ∧ Fails file built)

section
variable {plain : Prop} {file file' : List Text} {built built' : List Call}

theorem reaches_nil : Reaches [] [] := fun _ => ⟨[], [], .refl, rfl⟩

theorem Reaches.append (h : Reaches file built) (p : Program)
    (hp : ∀ i, calls (p.meaning i) = built'.map trimmed) :
    Reaches (file ++ p.lines) (built ++ built') := by
  intro post
  obtain ⟨pointers, commandsList, hturns, hcalls⟩ := h (p.lines ++ post)
  have hrun := runsAt_program (file ++ p.lines ++ post) p file post rfl
  obtain ⟨pointers', hrun, -, -⟩ := hrun 0 pointers commandsList (Nat.zero_le _)
  rw [← List.append_assoc] at hturns
  refine ⟨pointers', commandsList ++ p.meaning file.length, ?_, ?_⟩
  · rw [List.length_append]
    exact hturns.trans hrun
  · have := hp file.length
    unfold calls at hcalls this ⊢
    rw [List.map_append, List.map_append, hcalls, this]

theorem Fails.append (h : Fails file built) : Fails (file ++ file') (built ++ built') := by
  intro post commandsList more hends
  rw [List.append_assoc] at hends ⊢
  exact h _ _ _ hends

/-- A line that raises. -/
theorem fails_of_raises {line : Text} (hline : line ∈ file)
    (hraises : ∀ s s', parseStep line s ≠ .ok s') : Fails file built := by
  intro post commandsList more hends
  exact absurd hends (not_ends_ok_of_raises (List.mem_append_left post hline) hraises commandsList)

/-- A line whose command is another one. -/
theorem Reaches.fails {line : Text} {more : List Text} {call call' : Call} (h : Reaches file built)
    (hkind : lineKind (rstrip line) = .command call) (hne : trimmed call ≠ trimmed call') :
    Fails (file ++ line :: more) (built ++ [call']) := by
  intro post commandsList more' ⟨fuel, hok⟩ heq
  obtain ⟨pointers, emitted, hturns, hcalls⟩ := h (line :: more ++ post ++ ["reset".toList])
  rw [← List.append_assoc, ← List.append_assoc] at hturns
  have hline : (file ++ line :: more ++ post ++ ["reset".toList])[file.length]? = some line := by
    simp
  obtain ⟨fuel', hok'⟩ := parseLoop_after_turns (hturns.tail (turn_command hline hkind)) hok
  obtain ⟨rest, hrest⟩ := parseLoop_prefix hok'
  have hlength : (calls emitted).length = (built.map trimmed).length := congrArg List.length hcalls
  unfold calls at hlength heq
  rw [← hrest] at heq
  simp only [List.append_assoc, List.map_append] at heq
  have htail := (List.append_inj heq hlength).2
  exact hne (List.cons_eq_cons.mp htail).1

theorem Outcome.append (h : Outcome plain file built) {p : Program}
    (hp : ∀ i, calls (p.meaning i) = built'.map trimmed) :
    Outcome plain (file ++ p.lines) (built ++ built') :=
  h.imp (fun ⟨hplain, hreaches⟩ => ⟨hplain, hreaches.append p hp⟩)
    fun ⟨hplain, hfails⟩ => ⟨hplain, hfails.append⟩

end

/-! ## Rules -/

theorem isSpace_of_isLower {c : Char} (h : isLower c = true) : isSpace c = false := by
  simp only [isLower, Bool.and_eq_true, decide_eq_true_eq] at h
  obtain ⟨h1, h2⟩ := h
  simp only [isSpace, Bool.or_eq_false_iff, Bool.and_eq_false_iff, decide_eq_false_iff_not,
    beq_eq_false_iff_ne]
  omega

section
variable {c : Char} {rest : Text} (hc : isSpace c = false)
include hc

theorem rstrip_cons : rstrip (c :: rest) = c :: rstrip rest := rstrip_append_cons hc [] rest

theorem strip_cons : strip (c :: rest) = c :: rstrip rest := by
  unfold strip lstrip
  rw [rstrip_cons hc, List.dropWhile_cons_of_neg (by simp [hc])]

theorem strip_blank_cons : strip (' ' :: c :: rest) = c :: rstrip rest := by
  have hrstrip : rstrip (' ' :: c :: rest) = ' ' :: c :: rstrip rest :=
    rstrip_append_cons hc [' '] rest
  unfold strip lstrip
  rw [hrstrip, List.dropWhile_cons_of_pos (by rfl), List.dropWhile_cons_of_neg (by simp [hc])]

/-- A link line ends where its rule does. -/
theorem rstrip_fromToCommand (sources targets : Endpoints) (bidirectional : Bool) :
    rstrip (fromToCommand sources targets bidirectional (c :: rest)) =
      fromToCommand sources targets bidirectional (c :: rstrip rest) := by
  have hfront := rstrip_append_cons hc
    (front sources targets bidirectional ++ ['s', 'e', 't', ' ']) rest
  simp only [fromToCommand_eq, List.cons_append, List.nil_append]
  simpa using hfront

end

theorem length_rstrip_le (s : Text) : (rstrip s).length ≤ s.length := by
  unfold rstrip
  rw [List.length_reverse]
  exact (List.dropWhile_sublist _).length_le.trans List.length_reverse.le

theorem length_strip_le (s : Text) : (strip s).length ≤ s.length :=
  (List.dropWhile_sublist _).length_le.trans (length_rstrip_le s)

theorem length_rstrip_prefix {a s : Text} (h : a <+: s) :
    (rstrip a).length ≤ (rstrip s).length := by
  obtain ⟨b, hb⟩ := h
  obtain ⟨w, hs, hw⟩ := exists_rstrip s
  rw [← hb] at hs
  rcases List.append_eq_append_iff.mp hs with ⟨z, hz, -⟩ | ⟨z, hz, hwz⟩
  · rw [← hb, hz, List.length_append]
    have := length_rstrip_le a
    omega
  · have hspaces : ∀ c ∈ z, isSpace c = true := fun c hc => hw c (by rw [hwz]; simp [hc])
    have hrstrip := rstrip_append_spaces hspaces (rstrip (a ++ b))
    rw [← hz, rstrip_rstrip, hb] at hrstrip
    rw [hrstrip]

theorem front_notNewline (sources targets : Endpoints) (bidirectional : Bool) :
    ∀ c ∈ front sources targets bidirectional ++ ['s', 'e', 't', ' '], isNewline c = false := by
  intro c hc
  cases hnl : isNewline c with
  | false => rfl
  | true =>
    have hspace := isSpace_of_isNewline hnl
    have hid : isIdLetter c = false := by
      cases h : isIdLetter c with
      | false => rfl
      | true =>
        rw [isSpace_of_isIdLetter h] at hspace
        cases hspace
    have hne : ∀ d, isNewline d = false → c ≠ d := by
      rintro d hd rfl
      rw [hnl] at hd
      cases hd
    have hword : ∀ word : Text, (∀ d ∈ word, isNewline d = false) → c ∉ word :=
      fun word hall hmem => hne c (hall c hmem) rfl
    have hfromTo : c ∉ fromTo sources targets :=
      notMem_fromTo hid (hne ' ' (by decide)) (hword _ (by decide)) (hword _ (by decide)) _ _
    have htail : c ∉ if bidirectional then " bidirectional ".toList else " ".toList :=
      hword _ (by cases bidirectional <;> decide)
    rcases List.mem_append.mp hc with hc | hc
    · exact absurd hc fun h => (List.mem_append.mp h).elim hfromTo htail
    · exact absurd hc (hword _ (by decide))

section
variable {c : Char} {rest : Text} (hlower : isLower c = true) (sources targets : Endpoints)
  (bidirectional : Bool)
include hlower

/-- A rule that is found whole. -/
theorem lineKind_verbatim (h : Verbatim (c :: rest)) :
    (∀ d ∈ rstrip (fromToCommand sources targets bidirectional (c :: rest)),
      isNewline d = false) ∧
    lineKind (rstrip (fromToCommand sources targets bidirectional (c :: rest))) =
      .command (Built.link sources targets bidirectional (' ' :: c :: rstrip rest)) := by
  have hc := isSpace_of_isLower hlower
  obtain ⟨hset, hnewline⟩ := h
  rw [rstrip_cons hc] at hset hnewline
  rw [rstrip_fromToCommand hc]
  constructor
  · intro d hd
    have hline : fromToCommand sources targets bidirectional (c :: rstrip rest) =
        (front sources targets bidirectional ++ ['s', 'e', 't', ' ']) ++ c :: rstrip rest := by
      rw [fromToCommand_eq]
      simp
    rw [hline] at hd
    rcases List.mem_append.mp hd with hd | hd
    · exact front_notNewline _ _ _ d hd
    · exact hnewline d hd
  · have hinside : ¬ "set".toList <:+: ' ' :: c :: rstrip rest := by
      intro h
      rcases List.infix_cons_iff.mp h with h | h
      · exact not_begins (by decide) h
      · exact of_decide_eq_false hset h
    obtain ⟨-, hsplit⟩ | ⟨a, b, more, -, hstart⟩ :=
      splitOn_cases (show "set".toList ≠ [] by decide) (' ' :: c :: rstrip rest)
    · exact lineKind_link sources targets bidirectional hlower hsplit
    · exact absurd ((List.suffix_append a _).isInfix.trans hstart.isInfix) hinside

/-- A rule that is cut at a line end or at the word "set". -/
theorem lineKind_cut (h : ¬ Verbatim (c :: rest)) :
    ∃ first more netem,
      written [fromToCommand sources targets bidirectional (c :: rest)] = first :: more ∧
      lineKind (rstrip first) = .command (Built.link sources targets bidirectional netem) ∧
      strip netem ≠ strip (c :: rest) := by
  have hc := isSpace_of_isLower hlower
  obtain ⟨more, hread⟩ :=
    readlines_first (fromToCommand sources targets bidirectional (c :: rest))
  have hfirst : firstLine (fromToCommand sources targets bidirectional (c :: rest)) =
      fromToCommand sources targets bidirectional (c :: firstLine rest) := by
    have hline : ∀ rule, fromToCommand sources targets bidirectional rule =
        (front sources targets bidirectional ++ ['s', 'e', 't', ' ']) ++ rule := by
      intro rule
      rw [fromToCommand_eq]
      simp
    unfold firstLine
    rw [hline, hline, List.takeWhile_append_of_pos, List.takeWhile_cons_of_pos]
    · simp [isNewline_of_not_isSpace hc]
    · intro d hd
      simp [front_notNewline _ _ _ d hd]
  have hrstrip : rstrip (firstLine (fromToCommand sources targets bidirectional (c :: rest)) ++
      ['\n']) = fromToCommand sources targets bidirectional (c :: rstrip (firstLine rest)) := by
    rw [rstrip_append_spaces (by decide), hfirst, rstrip_fromToCommand hc]
  have hlength : (rstrip (firstLine rest)).length ≤ (rstrip rest).length :=
    length_rstrip_prefix (List.takeWhile_prefix _)
  obtain ⟨hinside, hsplit⟩ | ⟨a, b, pieces, hsplit, hstart⟩ :=
    splitOn_cases (show "set".toList ≠ [] by decide) (' ' :: c :: rstrip (firstLine rest))
  · refine ⟨_, more, ' ' :: c :: rstrip (firstLine rest), by rw [written_singleton, hread], ?_, ?_⟩
    · rw [hrstrip]
      exact lineKind_link sources targets bidirectional hlower hsplit
    · rw [strip_blank_cons hc, strip_cons hc, rstrip_rstrip]
      intro heq
      have heq' : rstrip (firstLine rest) = rstrip rest := (List.cons_eq_cons.mp heq).2
      rw [heq'] at hinside
      refine h ⟨?_, ?_⟩
      · rw [rstrip_cons hc]
        exact decide_eq_false fun hset => hinside (hset.trans (List.infix_cons List.infix_rfl))
      · rw [rstrip_cons hc, ← heq']
        intro d hd
        rcases List.mem_cons.mp hd with rfl | hd
        · exact isNewline_of_not_isSpace hc
        · obtain ⟨w, hw, -⟩ := exists_rstrip (firstLine rest)
          exact firstLine_notNewline rest d (by rw [hw]; exact List.mem_append_left w hd)
  · refine ⟨_, more, a, by rw [written_singleton, hread], ?_, ?_⟩
    · rw [hrstrip]
      exact lineKind_link sources targets bidirectional hlower hsplit
    · intro heq
      have hle := hstart.length_le
      have hstrip := length_strip_le a
      rw [heq, strip_cons hc] at hstrip
      simp only [List.length_append, List.length_cons] at hle hstrip
      have hset : "set".toList.length = 3 := by decide
      omega

end

/-! ## One call -/

section
variable {plain : Prop} {lines : List Text} {built : List Call}

theorem Outcome.line (h : Outcome plain (written lines) built) {line : Text} {call : Call}
    (hnewline : ∀ c ∈ rstrip line, isNewline c = false)
    (hkind : lineKind (rstrip line) = .command call) {call' : Call}
    (hcall : trimmed call = trimmed call') :
    Outcome plain (written (lines ++ [line])) (built ++ [call']) := by
  obtain ⟨p, hlines, hp⟩ := exists_program_line hnewline hkind
  rw [written_append, ← hlines]
  apply h.append
  intro i
  unfold calls
  rw [hp, List.map_singleton, List.map_singleton, hcall]

theorem Outcome.link (h : Outcome plain (written lines) built) (rule : Rule)
    (sources targets : Endpoints) (bidirectional : Bool) :
    Outcome (plain ∧ Verbatim rule.text)
      (written (lines ++ [fromToCommand sources targets bidirectional rule.text]))
      (built ++ [Built.link sources targets bidirectional rule.text]) := by
  obtain ⟨text, c, rest, rfl, hlower⟩ := rule
  have hc := isSpace_of_isLower hlower
  dsimp only
  by_cases hverbatim : Verbatim (c :: rest)
  · obtain ⟨hnewline, hkind⟩ := lineKind_verbatim hlower sources targets bidirectional hverbatim
    have hcall : trimmed (Built.link sources targets bidirectional (' ' :: c :: rstrip rest)) =
        trimmed (Built.link sources targets bidirectional (c :: rest)) := by
      rw [trimmed_link, trimmed_link, strip_blank_cons hc, strip_cons hc, rstrip_rstrip]
    refine (h.line hnewline hkind hcall).imp (fun ⟨hplain, h⟩ => ⟨⟨hplain, hverbatim⟩, h⟩) ?_
    exact fun ⟨hplain, h⟩ => ⟨fun h => hplain h.1, h⟩
  · refine .inr ⟨fun h => hverbatim h.2, ?_⟩
    obtain ⟨first, more, netem, hwritten, hkind, hne⟩ :=
      lineKind_cut hlower sources targets bidirectional hverbatim
    rw [written_append, hwritten]
    rcases h with ⟨-, hreaches⟩ | ⟨-, hfails⟩
    · refine hreaches.fails hkind fun h => hne ?_
      rw [trimmed_link, trimmed_link] at h
      exact (Call.modifyLinkFromTo.inj h).2.2.1
    · exact hfails.append

/-- A block without lines changes nothing. -/
theorem Outcome.emptyBlock (h : Outcome plain (written lines) built) {times : Nat}
    (pos : 1 ≤ times) : Outcome plain (written (lines ++ Test.doTimes [] times)) built := by
  obtain ⟨p, hlines, hp⟩ := exists_program_block pos
  have hempty : ∀ i, calls (p.meaning i) = List.map trimmed [] := fun i => by rw [hp]; rfl
  have := h.append hempty
  rwa [List.append_nil, hlines, ← written_append] at this

end

/-! ## Tabs -/

/-- A line that is not blank up to its first line end. -/
def Starts (line : Text) : Prop :=
  ∃ pre c rest, line = pre ++ c :: rest ∧ isSpace c = false ∧ ∀ d ∈ pre, isNewline d = false

theorem starts_cons {c : Char} (hc : isSpace c = false) (rest : Text) : Starts (c :: rest) :=
  ⟨[], c, rest, rfl, hc, fun _ h => nomatch h⟩

theorem Starts.tab {line : Text} (h : Starts line) : Starts ('\t' :: line) := by
  obtain ⟨pre, c, rest, rfl, hc, hpre⟩ := h
  refine ⟨'\t' :: pre, c, rest, rfl, hc, fun d hd => ?_⟩
  rcases List.mem_cons.mp hd with rfl | hd
  · rfl
  · exact hpre d hd

theorem starts_doTimes {lines : List Text} (h : ∀ line ∈ lines, Starts line) (times : Nat) :
    ∀ line ∈ Test.doTimes lines times, Starts line := by
  intro line hline
  rcases List.mem_append.mp hline with hline | hline
  · rcases List.mem_cons.mp hline with rfl | hline
    · exact starts_cons (by decide) _
    · obtain ⟨line', hline', rfl⟩ := List.mem_map.mp hline
      exact (h line' hline').tab
  · obtain rfl := List.mem_singleton.mp hline
    obtain ⟨d, ds, hn⟩ := List.exists_cons_of_ne_nil (natText_ne_nil times)
    have hd : isSpace d = false := isSpace_of_mem_natText (n := times) (by rw [hn]; simp)
    rw [hn]
    exact starts_cons hd _

theorem starts_fromToCommand (sources targets : Endpoints) (bidirectional : Bool) (rule : Text) :
    Starts (fromToCommand sources targets bidirectional rule) := by
  have hline : ∃ rest, fromToCommand sources targets bidirectional rule = 'f' :: rest := by
    unfold fromToCommand
    cases bidirectional <;> exact ⟨_, rfl⟩
  obtain ⟨rest, hline⟩ := hline
  rw [hline]
  exact starts_cons (by decide) rest

theorem starts_append {t : Test} {line : Text} (h : ∀ line' ∈ t.testLines, Starts line')
    (hline : Starts line) : ∀ line' ∈ (t.append line).testLines, Starts line' := by
  intro line' hline'
  rcases List.mem_append.mp hline' with hline' | hline'
  · exact h line' hline'
  · obtain rfl := List.mem_singleton.mp hline'
    exact hline

theorem starts_testLines (b : Built) : ∀ line ∈ b.test.testLines, Starts line := by
  induction b with
  | init => exact fun _ h => nomatch h
  | run t n ih => exact starts_append ih (starts_cons (by decide) _)
  | reset t ih => exact starts_append ih (starts_cons (by decide) _)
  | setDelay t delay sources targets bidirectional ih
  | setLoss t loss sources targets bidirectional ih
  | setRule t rule sources targets bidirectional ih =>
    exact starts_append ih (starts_fromToCommand _ _ _ _)
  | partition t group1 group2 ih => exact starts_append ih (starts_fromToCommand _ _ _ _)
  | repeatTest t test times pos iht ihtest =>
    intro line hline
    rcases List.mem_append.mp hline with hline | hline
    · exact iht line hline
    · exact starts_doTimes ihtest times line hline
  | repeatAll t times pos ih => exact starts_doTimes ih times

/-- A file with a line behind a tab. -/
theorem fails_of_tab {line : Text} {lines : List Text} (h : Starts line)
    (hline : '\t' :: line ∈ lines) (built : List Call) : Fails (written lines) built := by
  obtain ⟨lines₁, lines₂, rfl⟩ := List.append_of_mem hline
  obtain ⟨more, hread⟩ := readlines_first ('\t' :: line)
  obtain ⟨pre, c, rest, rfl, hc, hpre⟩ := h
  have hfirst : firstLine ('\t' :: (pre ++ c :: rest)) = ('\t' :: pre) ++ c :: firstLine rest := by
    unfold firstLine
    rw [← List.cons_append, List.takeWhile_append_of_pos, List.takeWhile_cons_of_pos]
    · simp [isNewline_of_not_isSpace hc]
    · intro d hd
      rcases List.mem_cons.mp hd with rfl | hd
      · rfl
      · simp [hpre d hd]
  have hkind : lineKind (rstrip (firstLine ('\t' :: (pre ++ c :: rest)) ++ ['\n'])) = .unknown := by
    rw [rstrip_append_spaces (by decide), hfirst, rstrip_append_cons hc, List.cons_append]
    exact lineKind_tab _
  apply @fails_of_raises _ _ (firstLine ('\t' :: (pre ++ c :: rest)) ++ ['\n'])
  · rw [written_append, written_cons, hread]
    simp
  · intro s s' hstep
    unfold parseStep branch at hstep
    rw [hkind] at hstep
    cases hstep

theorem tab_mem_doTimes {line : Text} {lines : List Text} (h : line ∈ lines) (times : Nat) :
    '\t' :: line ∈ Test.doTimes lines times :=
  List.mem_append_left _ (List.mem_cons_of_mem _ (List.mem_map.mpr ⟨line, h, rfl⟩))

/-! ## Top theorem -/

theorem meaning_eq_nil {b : Built} (h : b.test.testLines = []) : b.meaning = [] := by
  cases b with
  | init => rfl
  | repeatTest => cases (List.append_eq_nil_iff.mp h).2
  | repeatAll => cases h
  | _ => cases (List.append_eq_nil_iff.mp h).2

theorem flatten_replicate_nil (n : Nat) : (List.replicate n ([] : List Call)).flatten = [] := by
  simp

/-- What the file of a test does, by the calls that built it. -/
theorem outcome (b : Built) : Outcome b.Plain (written b.test.testLines) b.meaning := by
  induction b with
  | init => exact .inl ⟨trivial, reaches_nil⟩
  | run t n ih =>
    have hword : rstrip ("run ".toList ++ natText n) = "run ".toList ++ natText n :=
      rstrip_append_word (natText_ne_nil n) (fun _ hc => isSpace_of_mem_natText hc) _
    refine ih.line ?_ (by rw [hword]; exact lineKind_run n) rfl
    rw [hword]
    intro c hc
    rcases List.mem_append.mp hc with hc | hc
    · have hall : ∀ d ∈ "run ".toList, isNewline d = false := by decide
      exact hall c hc
    · exact isNewline_of_not_isSpace (isSpace_of_mem_natText hc)
  | reset t ih => exact ih.line (by decide) lineKind_reset rfl
  | setDelay t delay sources targets bidirectional ih =>
    exact ih.link ⟨delayRule delay, 'd', _, rfl, by decide⟩ sources targets bidirectional
  | setLoss t loss sources targets bidirectional ih =>
    exact ih.link ⟨lossRule loss, 'l', _, rfl, by decide⟩ sources targets bidirectional
  | setRule t rule sources targets bidirectional ih =>
    exact ih.link rule sources targets bidirectional
  | partition t group1 group2 ih =>
    have hverbatim : Verbatim (lossRule (natText 100)) := by unfold Verbatim; decide
    refine (ih.link ⟨lossRule (natText 100), 'l', _, rfl, by decide⟩ group1 group2 true).imp ?_ ?_
    · exact fun ⟨hplain, h⟩ => ⟨hplain.1, h⟩
    · exact fun ⟨hplain, h⟩ => ⟨fun h => hplain ⟨h, hverbatim⟩, h⟩
  | repeatTest t test times pos iht ihtest =>
    have hfile : (Built.repeatTest t test times pos).test.testLines =
      t.test.testLines ++ Test.doTimes test.test.testLines times := rfl
    have hmeaning : (Built.repeatTest t test times pos).meaning =
      t.meaning ++ (List.replicate times test.meaning).flatten := rfl
    cases hlines : test.test.testLines with
    | nil =>
      rw [hfile, hmeaning, hlines, meaning_eq_nil hlines, flatten_replicate_nil, List.append_nil]
      apply (iht.emptyBlock pos).imp
      · exact fun ⟨hplain, h⟩ => ⟨⟨hplain, hlines⟩, h⟩
      · exact fun ⟨hplain, h⟩ => ⟨fun h => hplain h.1, h⟩
    | cons line lines =>
      have hmem : line ∈ test.test.testLines := by rw [hlines]; exact List.mem_cons_self
      refine .inr ⟨fun h => ?_, ?_⟩
      · have hnil : test.test.testLines = [] := h.2
        rw [hlines] at hnil
        cases hnil
      · rw [hfile]
        exact fails_of_tab (starts_testLines test line hmem)
          (List.mem_append_right _ (tab_mem_doTimes hmem times)) _
  | repeatAll t times pos ih =>
    have hfile : (Built.repeatAll t times pos).test.testLines =
      Test.doTimes t.test.testLines times := rfl
    have hmeaning : (Built.repeatAll t times pos).meaning =
      (List.replicate times t.meaning).flatten := rfl
    cases hlines : t.test.testLines with
    | nil =>
      rw [hfile, hmeaning, hlines, meaning_eq_nil hlines, flatten_replicate_nil]
      have hempty : Outcome True (written []) [] := .inl ⟨trivial, reaches_nil⟩
      apply (hempty.emptyBlock pos).imp
      · exact fun ⟨_, h⟩ => ⟨hlines, h⟩
      · exact fun ⟨hplain, h⟩ => absurd trivial hplain
    | cons line lines =>
      have hmem : line ∈ t.test.testLines := by rw [hlines]; exact List.mem_cons_self
      refine .inr ⟨fun h => ?_, ?_⟩
      · have hnil : t.test.testLines = [] := h
        rw [hlines] at hnil
        cases hnil
      · rw [hfile]
        exact fails_of_tab (starts_testLines t line hmem) (tab_mem_doTimes hmem times) _

/-- **A generated test means what was built if and only if** it repeats no test with lines and its
rules have neither the word "set" nor a line end in them. -/
theorem round_trips_iff (b : Built) : RoundTrips b ↔ b.Plain := by
  have hfile : b.file = written b.test.testLines := rfl
  rcases outcome b with ⟨hplain, hreaches⟩ | ⟨hplain, hfails⟩
  · refine iff_of_true ?_ hplain
    obtain ⟨pointers, commandsList, hturns, hcalls⟩ := hreaches ["reset".toList]
    rw [← hfile] at hturns
    have hline : (b.file ++ ["reset".toList])[b.file.length]? = some "reset".toList := by simp
    refine ⟨commandsList ++ [{ call := .reset, line := b.file.length + 1 }],
      parseLoop_of_turns (hturns.tail (turn_command hline lineKind_reset)) 1 ?_, ?_⟩
    · simp [parseLoop]
    · unfold calls at hcalls ⊢
      rw [List.map_append, List.map_append, hcalls]
      rfl
  · refine iff_of_false ?_ hplain
    rintro ⟨commandsList, hends, hcalls⟩
    refine hfails [] commandsList [Call.reset] ?_ hcalls
    rw [List.append_nil]
    exact hends

/-- A repeated `run`, and a rule that is cut at "offset". -/
theorem not_round_trips :
    ¬ RoundTrips (.repeatTest .init (.run .init 5) 2 (by decide)) ∧
    ¬ RoundTrips (.setRule .init ⟨"delay 10ms offset 3".toList, 'd', _, rfl, by decide⟩
      .all .all false) := by
  constructor
  · rintro ⟨commandsList, hends, -⟩
    have herror : Ends (Built.repeatTest .init (.run .init 5) 2 (by decide)).file
        (.error (unknownCommand "\trun 5".toList 1)) := ⟨10, by decide +kernel⟩
    cases hends.unique herror
  · rintro ⟨commandsList, hends, hcalls⟩
    have hcut : Ends (Built.setRule .init ⟨"delay 10ms offset 3".toList, 'd', _, rfl, by decide⟩
        .all .all false).file (.ok [⟨.modifyLinkFromTo ["all".toList] ["all".toList]
          " delay 10ms off".toList false, 1⟩, ⟨.reset, 2⟩]) := ⟨10, by decide +kernel⟩
    obtain rfl := Except.ok.inj (hends.unique hcut)
    exact absurd hcalls (by decide +kernel)

end TestGenerator
