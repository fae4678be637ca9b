import Krafters.Executor.ParserLines

/-!
# The command forms, and the lines that are of one

`Form line kind` says that the whole line is made of the tokens of one command form, and
that `kind` is what this form means.  The patterns are matched at the start of a line
only, so a line can be accepted with text that nothing reads.  `Whole` compares the line
with the pattern that took it:

    parseStep line s = .ok s' → (Form (rstrip line) (lineKind (rstrip line)) ↔ Whole (rstrip line))
-/

open Py Regex

namespace Executor.Parser

/-! ## Forms -/

/-- The whole line is of the form that `kind` stands for. -/
def Form (line : Text) : LineKind → Prop
  | .command .reset => splitWs line = ["reset".toList]
  | .doLine => splitWs line = ["do".toList]
  | .timesLine n => ∃ number word, splitWs line = [number, word] ∧ pyInt number = some n ∧
      (word = "time".toList ∨ word = "times".toList)
  | .command (.runCommand n label) => ∃ number, pyInt number = some n ∧
      (splitWs line = ["run".toList, number] ∧ label = "no_name".toList ∨
        splitWs line = ["run".toList, number, label])
  | .command (.modifyLinkFromTo sources targets rule bidirectional) =>
      ∃ l : LinkLine, l.text = line ∧ IsRule l.tail ∧ sources = l.sources.ids ∧
        targets = l.targets.ids ∧ rule = l.tail ∧ bidirectional = l.both.isSome
  | .command (.modifyRandomLink k rule bidirectional) =>
      ∃ l : RandomLinkLine, l.text = line ∧ IsRule l.tail ∧ pyInt l.number = some k ∧
        rule = l.tail ∧ bidirectional = l.both.isSome
  | .blank => False
  | .malformed => False
  | .unknown => False

/-- Nothing of the line is left over by the pattern that takes it and by what reads the
parameters: a rule has no second "set", "run" has at most three words, the other patterns match
the line as a whole. -/
def Whole (line : Text) : Prop :=
  if matchAt modifyLinkPattern line ∨ matchAt modifyRandomLinkPattern line then
    (splitOn "set".toList line).length ≤ 2
  else if matchAt resetPattern line then line ∈ lang resetPattern
  else if matchAt runPattern line then (splitWs line).length ≤ 3
  else if matchAt doPattern line then line ∈ lang doPattern
  else line ∈ lang timesPattern

/-! ## Rules -/

section
variable {line : Text}

/-- The rule is cut at a second "set". -/
theorem whole_rule_iff {front tail netem : Text} {more : List Text}
    (hline : splitOn "set".toList line = front :: splitOn "set".toList tail)
    (h : splitOn "set".toList tail = netem :: more) :
    netem = tail ↔ (splitOn "set".toList line).length ≤ 2 := by
  rw [splitOn_eq_self_cons (show "set".toList ≠ [] by decide) h, hline, h, List.length_cons,
    List.length_cons, ← List.length_eq_zero_iff]
  omega

theorem form_link_iff {sources targets : List Text} {netem : Text} {bidirectional : Bool}
    (h : lineKind line = .command (.modifyLinkFromTo sources targets netem bidirectional)) :
    Form line (lineKind line) ↔ (splitOn "set".toList line).length ≤ 2 := by
  obtain ⟨l, rfl, hrule, hs, ht, hb, more, hmore⟩ := exists_linkLine_of_lineKind h
  rw [h]
  constructor
  · rintro ⟨l', hl', -, -, -, rfl, -⟩
    have hsplit := l'.splitOn_set
    have hsplit' := l.splitOn_set
    rw [hl', hsplit', hmore] at hsplit
    have hmore' := (List.cons_eq_cons.mp hsplit).2.symm
    exact (whole_rule_iff (hl' ▸ l'.splitOn_set) hmore').mp rfl
  · intro hwhole
    exact ⟨l, rfl, hrule, hs, ht, (whole_rule_iff l.splitOn_set hmore).mpr hwhole, hb⟩

theorem form_randomLink_iff {k : Nat} {netem : Text} {bidirectional : Bool}
    (h : lineKind line = .command (.modifyRandomLink k netem bidirectional)) :
    Form line (lineKind line) ↔ (splitOn "set".toList line).length ≤ 2 := by
  obtain ⟨l, rfl, hrule, hk, hb, more, hmore⟩ := exists_randomLinkLine_of_lineKind h
  rw [h]
  constructor
  · rintro ⟨l', hl', -, -, rfl, -⟩
    have hsplit := l'.splitOn_set
    have hsplit' := l.splitOn_set
    rw [hl', hsplit', hmore] at hsplit
    have hmore' := (List.cons_eq_cons.mp hsplit).2.symm
    exact (whole_rule_iff (hl' ▸ l'.splitOn_set) hmore').mp rfl
  · intro hwhole
    exact ⟨l, rfl, hrule, hk, (whole_rule_iff l.splitOn_set hmore).mpr hwhole, hb⟩

/-! ## Keywords -/

theorem rstrip_eq_of_append {c : Char} {a s : Text} (hc : isSpace c = false)
    (h : rstrip (a ++ c :: s) = a ++ c :: s) : rstrip (c :: s) = c :: s := by
  rw [rstrip_append_cons hc] at h
  have hnil := rstrip_append_cons hc [] s
  rw [List.nil_append, List.nil_append] at hnil
  rw [hnil]
  exact List.append_cancel_left h

/-- A pattern with one keyword and blanks around it. -/
theorem keyword_iff {c : Char} {kw : Text} (hkw : ∀ d ∈ c :: kw, isSpace d = false)
    (hstrip : rstrip line = line)
    (h : matchAt (parts [blanks, lit (c :: kw), blanks]) line = true) :
    splitWs line = [c :: kw] ↔ line ∈ lang (parts [blanks, lit (c :: kw), blanks]) := by
  have hc := hkw c List.mem_cons_self
  constructor
  · intro hsplit
    obtain ⟨p, hp, rest, rfl⟩ := (matchAt_iff _ _).mp h
    simp only [mem_parts_cons] at hp
    obtain ⟨lead, hlead, _, ⟨_, hword, _, ⟨gap, -, _, hnil, rfl⟩, rfl⟩, rfl⟩ := hp
    obtain rfl := (mem_lang_lit _ _).mp hword
    obtain rfl := mem_parts_nil.mp hnil
    simp only [List.append_assoc, List.nil_append, List.cons_append] at hsplit hstrip ⊢
    rw [splitWs_spaces_append (mem_blanks.mp hlead).isSpace] at hsplit
    have hword := eq_of_splitWs_singleton hc (rstrip_eq_of_append hc hstrip) hsplit
    rw [hword]
    exact mem_parts_cons.mpr ⟨lead, hlead, c :: kw, mem_parts_cons.mpr ⟨_, (mem_lang_lit _ _).mpr rfl,
      [], mem_parts_cons.mpr ⟨[], mem_blanks.mpr (fun d hd => nomatch hd), [],
        mem_parts_nil.mpr rfl, rfl⟩, List.append_nil _⟩, rfl⟩
  · intro hwhole
    simp only [mem_parts_cons] at hwhole
    obtain ⟨lead, hlead, _, ⟨_, hword, _, ⟨gap, hgap, _, hnil, rfl⟩, rfl⟩, rfl⟩ := hwhole
    obtain rfl := (mem_lang_lit _ _).mp hword
    obtain rfl := mem_parts_nil.mp hnil
    rw [List.append_nil, splitWs_spaces_append (mem_blanks.mp hlead).isSpace]
    cases gap with
    | nil => rw [List.append_nil, splitWs_word (List.cons_ne_nil _ _) hkw]
    | cons d gap =>
      have hspace := (mem_blanks.mp hgap).isSpace
      rw [splitWs_word_append (List.cons_ne_nil _ _) hkw (hspace d List.mem_cons_self),
        splitWs_spaces fun e he => hspace e (List.mem_cons_of_mem d he)]

/-- "<n> time" and "<n> times". -/
theorem form_times_iff {n : Nat} (hstrip : rstrip line = line)
    (hmatch : matchAt timesPattern line = true) (hn : getTimes line = .ok n) :
    Form line (.timesLine n) ↔ line ∈ lang timesPattern := by
  have hplural : ∀ o : Text, o ∈ lang (opt (lit "s".toList)) ↔ o = [] ∨ o = ['s'] := by
    intro o
    rw [mem_lang_opt, mem_lang_lit]
    exact or_comm
  constructor
  · rintro ⟨number, word, hsplit, -, hword⟩
    obtain ⟨p, hp, rest, rfl⟩ := (matchAt_iff _ _).mp hmatch
    unfold timesPattern at hp
    simp only [mem_parts_cons] at hp
    obtain ⟨lead, hlead, _, ⟨digits', hdigits, _, ⟨gap, hgap, _, ⟨_, htime, _, ⟨o, -, _,
      ⟨gap', -, _, hnil, rfl⟩, rfl⟩, rfl⟩, rfl⟩, rfl⟩, rfl⟩ := hp
    obtain rfl := (mem_lang_lit _ _).mp htime
    obtain rfl := mem_parts_nil.mp hnil
    have htime : "time".toList = 't' :: "ime".toList := by decide
    obtain ⟨hgapne, hblank⟩ := mem_blanks1.mp hgap
    obtain ⟨hne, hall⟩ := mem_digits.mp hdigits
    simp only [List.append_assoc, List.nil_append] at hsplit hstrip ⊢
    rw [splitWs_spaces_append (mem_blanks.mp hlead).isSpace,
      splitWs_word_blanks hne (fun c hc => isIdLetter_of_digit (hall c hc)) hgapne hblank] at hsplit
    have hlast := (List.cons_eq_cons.mp hsplit).2
    have hlead' : lead ++ (digits' ++ (gap ++ ("time".toList ++ (o ++ (gap' ++ rest))))) =
        (lead ++ digits' ++ gap) ++ ("time".toList ++ (o ++ (gap' ++ rest))) := by
      simp only [List.append_assoc]
    rw [hlead', htime, List.cons_append] at hstrip
    rw [htime, List.cons_append] at hlast
    have heq := eq_of_splitWs_singleton (by decide) (rstrip_eq_of_append (by decide) hstrip) hlast
    rw [htime, List.cons_append, heq]
    have hword' : ∃ o', (o' = [] ∨ o' = ['s']) ∧ word = "time".toList ++ o' := by
      rcases hword with rfl | rfl
      · exact ⟨[], .inl rfl, by decide⟩
      · exact ⟨['s'], .inr rfl, by decide⟩
    obtain ⟨o', ho', rfl⟩ := hword'
    exact append_mem_lang_seq hlead (append_mem_lang_seq hdigits (append_mem_lang_seq hgap
      (append_mem_lang_seq ((mem_lang_lit _ _).mpr rfl) (mem_parts_cons.mpr ⟨o', (hplural o').mpr ho',
        [], mem_parts_cons.mpr ⟨[], mem_blanks.mpr (fun d hd => nomatch hd), [],
          mem_parts_nil.mpr rfl, rfl⟩, List.append_nil _⟩))))
  · intro hwhole
    unfold timesPattern at hwhole
    simp only [mem_parts_cons] at hwhole
    obtain ⟨lead, hlead, _, ⟨digits', hdigits, _, ⟨gap, hgap, _, ⟨_, htime, _, ⟨o, ho, _,
      ⟨gap', hgap', _, hnil, rfl⟩, rfl⟩, rfl⟩, rfl⟩, rfl⟩, rfl⟩ := hwhole
    obtain rfl := (mem_lang_lit _ _).mp htime
    obtain rfl := mem_parts_nil.mp hnil
    obtain ⟨hgapne, hblank⟩ := mem_blanks1.mp hgap
    obtain ⟨hne, hall⟩ := mem_digits.mp hdigits
    have hword : ∀ d ∈ "time".toList ++ o, isSpace d = false := by
      rcases (hplural o).mp ho with rfl | rfl
      · decide
      · decide
    have hspace := (mem_blanks.mp hgap').isSpace
    have hlast : splitWs ("time".toList ++ o ++ gap') = ["time".toList ++ o] := by
      cases gap' with
      | nil => rw [List.append_nil, splitWs_word (by simp) hword]
      | cons d gap' =>
        rw [splitWs_word_append (by simp) hword (hspace d List.mem_cons_self),
          splitWs_spaces fun e he => hspace e (List.mem_cons_of_mem d he)]
    have hsplit : splitWs (lead ++ (digits' ++ (gap ++ ("time".toList ++ (o ++ (gap' ++ [])))))) =
        [digits', "time".toList ++ o] := by
      rw [splitWs_spaces_append (mem_blanks.mp hlead).isSpace,
        splitWs_word_blanks hne (fun c hc => isIdLetter_of_digit (hall c hc)) hgapne hblank,
        List.append_nil, ← List.append_assoc, hlast]
    unfold getTimes at hn
    rw [hsplit] at hn
    refine ⟨digits', _, hsplit, ?_, ?_⟩
    · dsimp only at hn
      cases hdigit : pyInt digits' with
      | none =>
        rw [hdigit] at hn
        cases hn
      | some k =>
        rw [hdigit] at hn
        cases hn
        rfl
    · rcases (hplural o).mp ho with rfl | rfl
      · exact .inl (by decide)
      · exact .inr (by decide)

/-- "run <n>", with a label or without. -/
theorem form_run_iff {n : Nat} {nop label : Text} (hmatch : matchAt runPattern line = true)
    (hparams : getParamsRun line = .ok (nop, label)) (hn : pyInt nop = some n) :
    Form line (.command (.runCommand n label)) ↔ (splitWs line).length ≤ 3 := by
  have hfirst : ∃ words, splitWs line = "run".toList :: words := by
    obtain ⟨p, hp, rest, rfl⟩ := (matchAt_iff _ _).mp hmatch
    unfold runPattern at hp
    obtain ⟨lead, hlead, _, hword, rfl⟩ := mem_parts_cons.mp hp
    obtain ⟨_, hrun, _, hgaps, rfl⟩ := mem_parts_cons.mp hword
    obtain rfl := (mem_lang_lit _ _).mp hrun
    obtain ⟨gap, hgap, tail, -, rfl⟩ := mem_parts_cons.mp hgaps
    obtain ⟨hgapne, hblank⟩ := mem_blanks1.mp hgap
    obtain ⟨d, gap, rfl⟩ := List.exists_cons_of_ne_nil hgapne
    have hrun : ∀ c ∈ "run".toList, isSpace c = false := by decide
    refine ⟨splitWs (gap ++ (tail ++ rest)), ?_⟩
    simp only [List.append_assoc, List.cons_append]
    rw [splitWs_spaces_append (mem_blanks.mp hlead).isSpace,
      splitWs_word_append (by decide) hrun (hblank.isSpace d List.mem_cons_self)]
  obtain ⟨words, hwords⟩ := hfirst
  unfold getParamsRun at hparams
  rw [hwords] at hparams
  unfold Form
  rw [hwords]
  match words, hparams with
  | [], hparams => cases hparams
  | [_], hparams =>
    cases hparams
    exact iff_of_true ⟨nop, hn, .inl ⟨rfl, rfl⟩⟩ (by simp)
  | [_, _], hparams =>
    cases hparams
    exact iff_of_true ⟨nop, hn, .inr rfl⟩ (by simp)
  | _ :: _ :: _ :: more, hparams =>
    refine iff_of_false ?_ (by simp)
    rintro ⟨number, -, ⟨h, -⟩ | h⟩
    · cases h
    · cases h

end

/-! ## Top theorem -/

/-- The pattern that takes a line, what it is taken for, and what `Whole` asks of it. -/
inductive Taken (line : Text) : Prop
  | link (sources targets : List Text) (rule : Text) (bidirectional : Bool)
    (kind : lineKind line = .command (.modifyLinkFromTo sources targets rule bidirectional))
    (whole : Whole line ↔ (splitOn "set".toList line).length ≤ 2)
  | randomLink (k : Nat) (rule : Text) (bidirectional : Bool)
    (kind : lineKind line = .command (.modifyRandomLink k rule bidirectional))
    (whole : Whole line ↔ (splitOn "set".toList line).length ≤ 2)
  | reset (matched : matchAt resetPattern line = true) (kind : lineKind line = .command .reset)
    (whole : Whole line ↔ line ∈ lang resetPattern)
  | run (n : Nat) (nop label : Text) (matched : matchAt runPattern line = true)
    (params : getParamsRun line = .ok (nop, label)) (number : pyInt nop = some n)
    (kind : lineKind line = .command (.runCommand n label))
    (whole : Whole line ↔ (splitWs line).length ≤ 3)
  | doLine (matched : matchAt doPattern line = true) (kind : lineKind line = .doLine)
    (whole : Whole line ↔ line ∈ lang doPattern)
  | times (n : Nat) (matched : matchAt timesPattern line = true) (number : getTimes line = .ok n)
    (kind : lineKind line = .timesLine n) (whole : Whole line ↔ line ∈ lang timesPattern)
  | blank (kind : lineKind line = .blank)
  | rejected (kind : lineKind line = .malformed ∨ lineKind line = .unknown)

theorem taken (line : Text) : Taken line := by
  have hkind := lineKind.eq_1 line
  have hwhole := Whole.eq_1 line
  by_cases hempty : line.isEmpty = true
  · exact .blank (hkind.trans (if_pos hempty))
  rw [if_neg hempty] at hkind
  by_cases hlink : matchAt modifyLinkPattern line = true
  · rw [if_pos hlink] at hkind
    rw [if_pos (.inl hlink)] at hwhole
    cases hp : getParamsLink line with
    | error e => exact .rejected (.inl (hkind.trans (by rw [hp]; rfl)))
    | ok p => exact .link _ _ _ _ (hkind.trans (by rw [hp]; rfl)) (Iff.of_eq hwhole)
  rw [if_neg hlink] at hkind
  by_cases hrlink : matchAt modifyRandomLinkPattern line = true
  · rw [if_pos hrlink] at hkind
    rw [if_pos (.inr hrlink)] at hwhole
    cases hp : getParamsRlink line with
    | error e => exact .rejected (.inl (hkind.trans (by rw [hp]; rfl)))
    | ok p => exact .randomLink _ _ _ (hkind.trans (by rw [hp]; rfl)) (Iff.of_eq hwhole)
  rw [if_neg hrlink] at hkind
  rw [if_neg (not_or.mpr ⟨hlink, hrlink⟩)] at hwhole
  by_cases hreset : matchAt resetPattern line = true
  · rw [if_pos hreset] at hkind hwhole
    exact .reset hreset hkind (Iff.of_eq hwhole)
  rw [if_neg hreset] at hkind hwhole
  by_cases hrun : matchAt runPattern line = true
  · rw [if_pos hrun] at hkind hwhole
    cases hp : getParamsRun line with
    | error e => exact .rejected (.inl (hkind.trans (by rw [hp]; rfl)))
    | ok p =>
      rw [hp] at hkind
      cases hnop : pyInt p.1 with
      | none => exact .rejected (.inl (hkind.trans (by simp [LineKind.ofParams, hnop])))
      | some n =>
        exact .run n p.1 p.2 hrun hp hnop (hkind.trans (by simp [LineKind.ofParams, hnop]))
          (Iff.of_eq hwhole)
  rw [if_neg hrun] at hkind hwhole
  by_cases hdo : matchAt doPattern line = true
  · rw [if_pos hdo] at hkind hwhole
    exact .doLine hdo hkind (Iff.of_eq hwhole)
  rw [if_neg hdo] at hkind hwhole
  by_cases htimes : matchAt timesPattern line = true
  · rw [if_pos htimes] at hkind
    cases hp : getTimes line with
    | error e => exact .rejected (.inl (hkind.trans (by rw [hp]; rfl)))
    | ok n => exact .times n htimes hp (hkind.trans (by rw [hp]; rfl)) (Iff.of_eq hwhole)
  · exact .rejected (.inr (hkind.trans (if_neg htimes)))

theorem ne_rejected_of_parseStep {line : Text} {s s' : State} (h : parseStep line s = .ok s') :
    ¬ (lineKind (rstrip line) = .malformed ∨ lineKind (rstrip line) = .unknown) := by
  unfold parseStep branch at h
  rintro (hkind | hkind)
  · rw [hkind] at h
    cases h
  · rw [hkind] at h
    cases h

/-- **When nothing of an accepted line is ignored**: when it is whole for the pattern that takes
it. -/
theorem accepted_form_iff {line : Text} {s s' : State} (h : parseStep line s = .ok s')
    (hblank : lineKind (rstrip line) ≠ .blank) :
    Form (rstrip line) (lineKind (rstrip line)) ↔ Whole (rstrip line) := by
  have hstrip := rstrip_rstrip line
  cases taken (rstrip line) with
  | link sources targets rule bidirectional kind whole => rw [whole, form_link_iff kind]
  | randomLink k rule bidirectional kind whole => rw [whole, form_randomLink_iff kind]
  | reset matched kind whole =>
    rw [kind, whole]
    exact keyword_iff (by decide) hstrip matched
  | run n nop label matched params number kind whole =>
    rw [kind, whole]
    exact form_run_iff matched params number
  | doLine matched kind whole =>
    rw [kind, whole]
    exact keyword_iff (by decide) hstrip matched
  | times n matched number kind whole =>
    rw [kind, whole]
    exact form_times_iff hstrip matched number
  | blank kind => exact absurd kind hblank
  | rejected kind => exact absurd kind (ne_rejected_of_parseStep h)

/-- "run 10 clean" on a line of its own. -/
theorem accepted_form_iff_run : Form "run 10 clean".toList (.command (.runCommand 10 "clean".toList)) ↔
    Whole "run 10 clean".toList :=
  @accepted_form_iff "run 10 clean\n".toList State.init _ rfl (by decide)

/-- "resetfoo" is taken for "reset". -/
theorem accepted_with_text : parseStep "resetfoo".toList State.init =
      .ok { State.init with index := 1, commandsList := [⟨.reset, 1⟩] } ∧
    ¬ Form (rstrip "resetfoo".toList) (lineKind (rstrip "resetfoo".toList)) := by
  have hkind : lineKind (rstrip "resetfoo".toList) = .command .reset := by decide
  refine ⟨by decide, ?_⟩
  rw [hkind]
  show ¬ splitWs (rstrip "resetfoo".toList) = ["reset".toList]
  decide

end Executor.Parser
