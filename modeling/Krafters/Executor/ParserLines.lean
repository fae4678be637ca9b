import Krafters.Executor.Parser

/-!
# The link lines of the parser, part by part

`LinkLine` and `RandomLinkLine` are the lines that the two link patterns match, cut into
their parts; what the string methods of `get_params` find are these parts, but for the rule,
which `split("set")` cuts at the next "set":

    matchAt modifyLinkPattern line = true ↔ line is the text of a LinkLine with a rule
    getParamsLink l.text = .ok ⟨l.sources.ids, l.targets.ids, netem, l.bidirectional⟩

No letter of "set", "to", "from" or "bidirectional" is in an id, so that the words in front of
the rule are where the methods look for them.
-/

namespace Executor.Parser

open Py Regex

/-! ## Ids -/

/-- Letters of numerals, of "rand" and of "all". -/
def isIdLetter (c : Char) : Bool := isAsciiDigit c || "andrl".toList.contains c

theorem isIdLetter_of_digit {c : Char} (h : isAsciiDigit c = true) : isIdLetter c = true := by
  unfold isIdLetter
  rw [h]
  rfl

theorem isSpace_of_isIdLetter {c : Char} (h : isIdLetter c = true) : isSpace c = false := by
  rcases Bool.or_eq_true_iff.mp h with h | h
  · exact isSpace_of_isAsciiDigit h
  · have hmem : c ∈ "andrl".toList := by simpa using h
    have hall : ∀ d ∈ "andrl".toList, isSpace d = false := by decide
    exact hall c hmem

/-- `[0-9]+` or "rand" -/
def IsMember (id : Text) : Prop :=
  id = "rand".toList ∨ id ≠ [] ∧ ∀ c ∈ id, isAsciiDigit c = true

/-- The ids of one side: "all", or some members. -/
def IsIds (ids : List Text) : Prop :=
  ids = ["all".toList] ∨ ids ≠ [] ∧ ∀ id ∈ ids, IsMember id

theorem IsMember.word {id : Text} (h : IsMember id) :
    id ≠ [] ∧ ∀ c ∈ id, isIdLetter c = true := by
  rcases h with rfl | ⟨hne, hdigits⟩
  · exact ⟨by decide, by decide⟩
  · exact ⟨hne, fun c hc => isIdLetter_of_digit (hdigits c hc)⟩

/-- Blanks of a pattern. -/
def Blank (s : Text) : Prop := ∀ c ∈ s, c = ' '

theorem Blank.isSpace {s : Text} (h : Blank s) : ∀ c ∈ s, isSpace c = true := by
  intro c hc
  rw [h c hc]
  rfl

theorem Blank.notMem {s : Text} (h : Blank s) {c : Char} (hc : c ≠ ' ') : c ∉ s :=
  fun hmem => hc (h c hmem)

theorem mem_blanks {s : Text} : s ∈ lang blanks ↔ Blank s := by
  unfold blanks Blank
  rw [mem_lang_star_cls]
  simp

theorem mem_blanks1 {s : Text} : s ∈ lang blanks1 ↔ s ≠ [] ∧ Blank s := by
  unfold blanks1 Blank
  rw [mem_lang_plus_cls]
  simp

theorem mem_digits {s : Text} :
    s ∈ lang digits ↔ s ≠ [] ∧ ∀ c ∈ s, isAsciiDigit c = true := mem_lang_plus_cls _ _

/-- A side as it is written, every id with blanks behind it. -/
structure IdsText where
  text : Text
  ids : List Text
  isIds : IsIds ids
  letters : ∀ c ∈ text, isIdLetter c = true ∨ c = ' '
  split : splitWs text = ids
  ends : ∃ text', text = text' ++ [' ']
  mem : text ∈ lang idsPattern

theorem IdsText.notMem {c : Char} (i : IdsText) (hid : isIdLetter c = false) (hc : c ≠ ' ') :
    c ∉ i.text := by
  intro hmem
  rcases i.letters c hmem with h | h
  · rw [hid] at h
    cases h
  · exact hc h

/-- `(([0-9]+|rand) +)` -/
def memberPattern : Regex := parts [alt digits (lit "rand".toList), blanks1]

theorem mem_parts_two {r s : Regex} {t : Text} :
    t ∈ lang (parts [r, s]) ↔ ∃ a ∈ lang r, ∃ b ∈ lang s, a ++ b = t := by
  simp only [parts, mem_lang_seq, mem_lang_eps]
  constructor
  · rintro ⟨a, ha, -, ⟨b, hb, -, rfl, rfl⟩, rfl⟩
    exact ⟨a, ha, b, hb, by rw [List.append_nil]⟩
  · rintro ⟨a, ha, b, hb, rfl⟩
    exact ⟨a, ha, _, ⟨b, hb, _, rfl, rfl⟩, by rw [List.append_nil]⟩

theorem exists_last_blank {b : Text} (hne : b ≠ []) (hb : Blank b) : ∃ b', b = b' ++ [' '] := by
  obtain ⟨b', c, rfl⟩ := List.eq_nil_or_concat b |>.resolve_left hne
  obtain rfl := hb c (by simp)
  exact ⟨b', List.concat_eq_append⟩

theorem splitWs_word_blanks {w b : Text} (hw : w ≠ []) (hletters : ∀ c ∈ w, isIdLetter c = true)
    (hne : b ≠ []) (hb : Blank b) (s : Text) : splitWs (w ++ (b ++ s)) = w :: splitWs s := by
  obtain ⟨c, b', rfl⟩ := List.exists_cons_of_ne_nil hne
  have hc : isSpace c = true := hb.isSpace c List.mem_cons_self
  rw [List.cons_append, splitWs_word_append hw
    (fun d hd => isSpace_of_isIdLetter (hletters d hd)) hc,
    splitWs_spaces_append fun d hd => hb.isSpace d (List.mem_cons_of_mem c hd)]

/-- What a list of members with their blanks is split into. -/
theorem members_split {l : List Text} (h : ∀ y ∈ l, y ∈ lang memberPattern) :
    (∀ c ∈ l.flatten, isIdLetter c = true ∨ c = ' ') ∧
    (∀ id ∈ splitWs l.flatten, IsMember id) ∧
    (l ≠ [] → splitWs l.flatten ≠ [] ∧ ∃ text', l.flatten = text' ++ [' ']) := by
  induction l with
  | nil => exact ⟨fun c hc => (nomatch hc), fun id hid => (nomatch hid), fun h => absurd rfl h⟩
  | cons y l ih =>
    obtain ⟨hletters, hmembers, hends⟩ := ih fun y' hy' => h y' (List.mem_cons_of_mem y hy')
    obtain ⟨w, hw, b, hb, rfl⟩ := mem_parts_two.mp (h y List.mem_cons_self)
    obtain ⟨hne, hblank⟩ := mem_blanks1.mp hb
    have hmember : IsMember w := by
      rcases (mem_lang_alt _ _ w).mp hw with hw | hw
      · exact .inr (mem_digits.mp hw)
      · exact .inl ((mem_lang_lit _ _).mp hw)
    have hsplit : splitWs ((w ++ b) :: l).flatten = w :: splitWs l.flatten := by
      rw [List.flatten_cons, List.append_assoc]
      exact splitWs_word_blanks hmember.word.1 hmember.word.2 hne hblank _
    refine ⟨fun c hc => ?_, fun id hid => ?_, fun _ => ⟨by rw [hsplit]; exact List.cons_ne_nil _ _, ?_⟩⟩
    · rw [List.flatten_cons, List.append_assoc] at hc
      rcases List.mem_append.mp hc with hc | hc
      · exact .inl (hmember.word.2 c hc)
      · rcases List.mem_append.mp hc with hc | hc
        · exact .inr (hblank c hc)
        · exact hletters c hc
    · rw [hsplit] at hid
      rcases List.mem_cons.mp hid with rfl | hid
      · exact hmember
      · exact hmembers id hid
    · cases l with
      | nil =>
        obtain ⟨b', rfl⟩ := exists_last_blank hne hblank
        exact ⟨w ++ b', by simp⟩
      | cons y' l =>
        obtain ⟨-, text', htext⟩ := hends (List.cons_ne_nil _ _)
        exact ⟨w ++ b ++ text', by rw [List.flatten_cons, htext]; simp only [List.append_assoc]⟩

/-- The pattern of the ids matches the sides. -/
theorem exists_idsText {s : Text} (h : s ∈ lang idsPattern) : ∃ i : IdsText, i.text = s := by
  rcases (mem_lang_alt _ _ s).mp h with hall | hmembers
  · obtain ⟨w, hw, b, hb, rfl⟩ := mem_parts_two.mp hall
    obtain rfl := (mem_lang_lit _ _).mp hw
    obtain ⟨hne, hblank⟩ := mem_blanks1.mp hb
    have hletters : ∀ c ∈ "all".toList, isIdLetter c = true := by decide
    have hsplit : splitWs ("all".toList ++ b) = ["all".toList] := by
      have := splitWs_word_blanks (by decide) hletters hne hblank []
      rwa [List.append_nil] at this
    refine ⟨⟨_, _, .inl rfl, fun c hc => ?_, hsplit, ?_, h⟩, rfl⟩
    · rcases List.mem_append.mp hc with hc | hc
      · exact .inl (hletters c hc)
      · exact .inr (hblank c hc)
    · obtain ⟨b', rfl⟩ := exists_last_blank hne hblank
      exact ⟨"all".toList ++ b', by rw [List.append_assoc]⟩
  · obtain ⟨y, hy, z, hz, rfl⟩ := (mem_lang_seq _ _ s).mp hmembers
    obtain ⟨l, rfl, hl⟩ := Language.mem_kstar.mp hz
    have hall : ∀ y' ∈ y :: l, y' ∈ lang memberPattern := List.forall_mem_cons.mpr ⟨hy, hl⟩
    obtain ⟨hletters, hmembers, hends⟩ := members_split hall
    obtain ⟨hne, hlast⟩ := hends (List.cons_ne_nil _ _)
    exact ⟨⟨(y :: l).flatten, _, .inr ⟨hne, hmembers⟩, hletters, rfl, hlast, h⟩, rfl⟩

/-! ## Lines with a rule -/

/-- "bidirectional" with the blanks behind it, or nothing. -/
def bidirectionalWord : Option Text → Text
  | none => []
  | some gap => "bidirectional".toList ++ gap

theorem bidirectionalWord_none : bidirectionalWord none = [] := rfl

theorem bidirectionalWord_some (gap : Text) :
    bidirectionalWord (some gap) = "bidirectional".toList ++ gap := rfl

/-- A text ends with a blank and has no 'b': what stands in front of "bidirectional" and "set". -/
structure Before (front : Text) : Prop where
  noB : 'b' ∉ front
  ends : ∃ front', front = front' ++ [' ']

/-- The word "bidirectional" is found and taken out with the blank before it. -/
theorem bidirectional_spec {front : Text} (h : Before front) {both : Option Text}
    (hboth : ∀ gap ∈ both, gap ≠ [] ∧ Blank gap) :
    hasSub " bidirectional ".toList (front ++ bidirectionalWord both) = both.isSome ∧
    (∀ gap ∈ both, ∃ front', front = front' ++ [' '] ∧
      replace " bidirectional".toList [] (front ++ bidirectionalWord both) = front' ++ gap) := by
  have hpattern : " bidirectional".toList = ' ' :: 'b' :: "idirectional".toList := by decide
  cases both with
  | none =>
    refine ⟨?_, fun gap hgap => nomatch hgap⟩
    rw [bidirectionalWord_none, List.append_nil, Option.isSome_none]
    exact hasSub_of_notMem (o := 'b') (by decide) h.noB
  | some gap =>
    obtain ⟨hne, hblank⟩ := hboth gap rfl
    obtain ⟨front', rfl⟩ := h.ends
    have hb : 'b' ∉ front' := fun hmem => h.noB (List.mem_append_left _ hmem)
    have hword : "bidirectional".toList = 'b' :: "idirectional".toList := by decide
    have htext : front' ++ [' '] ++ bidirectionalWord (some gap) =
        front' ++ ' ' :: ('b' :: "idirectional".toList ++ gap) := by
      rw [bidirectionalWord_some, hword, List.append_assoc, List.singleton_append]
    rw [Option.isSome_some]
    constructor
    · obtain ⟨c, gap', rfl⟩ := List.exists_cons_of_ne_nil hne
      obtain rfl := hblank c List.mem_cons_self
      have hsub : " bidirectional ".toList = ' ' :: ('b' :: "idirectional".toList ++ [' ']) := by
        decide
      rw [htext, hsub]
      refine decide_eq_true ⟨front', gap', ?_⟩
      simp only [List.append_assoc, List.cons_append, List.nil_append]
    · intro gap' hgap'
      obtain rfl := Option.some.inj hgap'
      refine ⟨front', rfl, ?_⟩
      rw [htext, hpattern, replace_append_of_notMem_second _ _ hb (by decide),
        show ' ' :: ('b' :: "idirectional".toList ++ gap) =
          (' ' :: 'b' :: "idirectional".toList) ++ gap from rfl, replace_self,
        replace_of_notMem_letter (o := 'b') (List.mem_cons_of_mem _ List.mem_cons_self)
          (hblank.notMem (by decide)), List.nil_append]

/-- What `get_params` finds in a line cut at its first "set". -/
theorem getParamsRule_eq {line front netem : Text} {more : List Text} {both : Option Text}
    (hfront : Before front) (hboth : ∀ gap ∈ both, gap ≠ [] ∧ Blank gap)
    (hsplit : splitOn "set".toList line = (front ++ bidirectionalWord both) :: netem :: more) :
    ∃ front' gap, front = front' ++ [' '] ∧ Blank gap ∧
      getParamsRule line = .ok (netem, front' ++ gap, both.isSome) := by
  obtain ⟨hsub, hreplace⟩ := bidirectional_spec hfront hboth
  unfold getParamsRule
  rw [hsplit]
  dsimp only
  rw [hsub]
  cases both with
  | none =>
    obtain ⟨front', rfl⟩ := hfront.ends
    refine ⟨front', [' '], rfl, fun c hc => List.mem_singleton.mp hc, ?_⟩
    rw [if_neg (by rw [Option.isSome_none]; exact Bool.false_ne_true), bidirectionalWord_none,
      List.append_nil, Option.isSome_none]
  | some gap =>
    obtain ⟨front', hfront', hreplace⟩ := hreplace gap rfl
    refine ⟨front', gap, hfront', (hboth gap rfl).2, ?_⟩
    rw [if_pos Option.isSome_some, hreplace, Option.isSome_some]

/-! ## "from … to …" -/

/-- A line of the first pattern, up to what follows its first "set". -/
structure LinkLine where
  lead : Text
  gap₁ : Text
  sources : IdsText
  gap₂ : Text
  targets : IdsText
  both : Option Text
  tail : Text
  blank_lead : Blank lead
  blank₁ : gap₁ ≠ [] ∧ Blank gap₁
  blank₂ : gap₂ ≠ [] ∧ Blank gap₂
  blank_both : ∀ gap ∈ both, gap ≠ [] ∧ Blank gap

/-- ` +[a-z]+.*` -/
def IsRule (tail : Text) : Prop :=
  ∃ gap c rest, tail = gap ++ c :: rest ∧ gap ≠ [] ∧ Blank gap ∧ isLower c = true

theorem mem_parts_cons {r : Regex} {rs : List Regex} {t : Text} :
    t ∈ lang (parts (r :: rs)) ↔ ∃ a ∈ lang r, ∃ b ∈ lang (parts rs), a ++ b = t :=
  mem_lang_seq _ _ t

theorem mem_parts_nil {t : Text} : t ∈ lang (parts []) ↔ t = [] := mem_lang_eps t

/-- What the end of both link patterns matches. -/
theorem mem_rulePattern {s : Text} (rest : Text) (h : s ∈ lang rulePattern) : ∃ both tail,
    s ++ rest = bidirectionalWord both ++ "set".toList ++ tail ∧
    (∀ gap ∈ both, gap ≠ [] ∧ Blank gap) ∧ IsRule tail := by
  unfold rulePattern at h
  obtain ⟨o, ho, -, ⟨_, hset, -, ⟨gap, hgap, -, ⟨w, hw, _, hnil, rfl⟩, rfl⟩, rfl⟩, rfl⟩ :=
    by simpa only [mem_parts_cons] using h
  obtain rfl := (mem_lang_lit _ _).mp hset
  obtain rfl := mem_parts_nil.mp hnil
  obtain ⟨hne, hlower⟩ := (mem_lang_plus_cls _ _).mp hw
  obtain ⟨c, w, rfl⟩ := List.exists_cons_of_ne_nil hne
  obtain ⟨hgapne, hblank⟩ := mem_blanks1.mp hgap
  have hrule : IsRule (gap ++ ((c :: w) ++ ([] ++ rest))) :=
    ⟨gap, c, w ++ ([] ++ rest), rfl, hgapne, hblank, hlower c List.mem_cons_self⟩
  rcases (mem_lang_opt _ _).mp ho with ho | rfl
  · obtain ⟨_, hword, g, hg, rfl⟩ := mem_parts_two.mp ho
    obtain rfl := (mem_lang_lit _ _).mp hword
    refine ⟨some g, _, ?_, fun g' hg' => ?_, hrule⟩
    · rw [bidirectionalWord_some]
      simp only [List.append_assoc]
    · obtain rfl := Option.some.inj hg'
      exact mem_blanks1.mp hg
  · refine ⟨none, _, ?_, fun g' hg' => (nomatch hg'), hrule⟩
    rw [bidirectionalWord_none]
    simp only [List.append_assoc, List.nil_append]

namespace LinkLine

variable (l : LinkLine)

def front : Text :=
  l.lead ++ "from".toList ++ (l.gap₁ ++ l.sources.text) ++ "to".toList ++ (l.gap₂ ++ l.targets.text)

def text : Text := l.front ++ bidirectionalWord l.both ++ "set".toList ++ l.tail

/-- A letter that is neither in the ids nor a blank. -/
theorem notMem_front {c : Char} (hid : isIdLetter c = false) (hblank : c ≠ ' ')
    (hfrom : c ∉ "from".toList) (hto : c ∉ "to".toList) : c ∉ l.front := by
  unfold front
  simp only [List.mem_append, not_or]
  exact ⟨⟨⟨⟨l.blank_lead.notMem hblank, hfrom⟩, l.blank₁.2.notMem hblank,
    l.sources.notMem hid hblank⟩, hto⟩, l.blank₂.2.notMem hblank, l.targets.notMem hid hblank⟩

theorem before : Before l.front := by
  refine ⟨l.notMem_front (by decide) (by decide) (by decide) (by decide), ?_⟩
  obtain ⟨text', htext⟩ := l.targets.ends
  refine ⟨l.lead ++ "from".toList ++ (l.gap₁ ++ l.sources.text) ++ "to".toList ++
    (l.gap₂ ++ text'), ?_⟩
  unfold front
  rw [htext]
  simp only [List.append_assoc]

theorem notMem_bidirectionalWord {both : Option Text}
    (hboth : ∀ gap ∈ both, gap ≠ [] ∧ Blank gap) : 's' ∉ bidirectionalWord both := by
  cases both with
  | none => exact fun h => nomatch h
  | some gap =>
    intro h
    rcases List.mem_append.mp h with h | h
    · exact absurd h (by decide)
    · exact (hboth gap rfl).2.notMem (by decide) h

/-- The first "set" is the one in front of the rule. -/
theorem splitOn_set : splitOn "set".toList l.text =
    (l.front ++ bidirectionalWord l.both) :: splitOn "set".toList l.tail := by
  have hs : 's' ∉ l.front ++ bidirectionalWord l.both := fun h =>
    (List.mem_append.mp h).elim (l.notMem_front (by decide) (by decide) (by decide) (by decide))
      (notMem_bidirectionalWord l.blank_both)
  have hset : "set".toList = 's' :: ['e', 't'] := by decide
  unfold text
  rw [hset, List.append_assoc, List.cons_append]
  exact splitOn_append hs l.tail

/-- **The parts of a link line**, with the rule up to the next "set". -/
theorem params {netem : Text} {more : List Text}
    (h : splitOn "set".toList l.tail = netem :: more) :
    getParamsLink l.text =
      .ok ⟨l.sources.ids, l.targets.ids, netem, l.both.isSome⟩ := by
  have hsplit := l.splitOn_set
  rw [h] at hsplit
  obtain ⟨front', gap, hfront', hgap, hrule⟩ := getParamsRule_eq l.before l.blank_both hsplit
  obtain ⟨target', htarget⟩ := l.targets.ends
  have hto : "to".toList = 't' :: ['o'] := by decide
  have hfrom : "from".toList = 'f' :: ['r', 'o', 'm'] := by decide
  -- the blank in front of "bidirectional" is the last one of the targets
  have hfront : front' = l.lead ++ "from".toList ++ (l.gap₁ ++ l.sources.text) ++ "to".toList ++
      (l.gap₂ ++ target') := by
    unfold front at hfront'
    rw [htarget, ← List.append_assoc, ← List.append_assoc] at hfront'
    have := (List.append_inj' hfront' rfl).1
    rw [← this, List.append_assoc _ l.gap₂]
  have ht : 't' ∉ l.lead ++ "from".toList ++ (l.gap₁ ++ l.sources.text) := by
    simp only [List.mem_append, not_or]
    exact ⟨⟨l.blank_lead.notMem (by decide), by decide⟩, l.blank₁.2.notMem (by decide),
      l.sources.notMem (by decide) (by decide)⟩
  have ht' : 't' ∉ l.gap₂ ++ target' ++ gap := by
    have htargets : 't' ∉ target' := fun hmem =>
      l.targets.notMem (c := 't') (by decide) (by decide) (by rw [htarget]; exact List.mem_append_left _ hmem)
    simp only [List.mem_append, not_or]
    exact ⟨⟨l.blank₂.2.notMem (by decide), htargets⟩, hgap.notMem (by decide)⟩
  have hpieces : splitOn "to".toList (front' ++ gap) =
      [l.lead ++ "from".toList ++ (l.gap₁ ++ l.sources.text), l.gap₂ ++ target' ++ gap] := by
    rw [hfront, hto, List.append_assoc _ _ gap, List.append_assoc _ ('t' :: ['o']),
      List.cons_append, splitOn_append ht, splitOn_of_notMem ht']
  have hreplace : replace "from".toList []
      (l.lead ++ "from".toList ++ (l.gap₁ ++ l.sources.text)) =
      l.lead ++ (l.gap₁ ++ l.sources.text) := by
    have hf : 'f' ∉ l.gap₁ ++ l.sources.text := by
      rw [List.mem_append, not_or]
      exact ⟨l.blank₁.2.notMem (by decide), l.sources.notMem (by decide) (by decide)⟩
    rw [hfrom, List.append_assoc, replace_append_of_notMem _ _ (l.blank_lead.notMem (by decide)),
      replace_self, replace_of_notMem hf, List.nil_append]
  have hsources : splitWs (l.lead ++ (l.gap₁ ++ l.sources.text)) = l.sources.ids := by
    rw [splitWs_spaces_append l.blank_lead.isSpace, splitWs_spaces_append l.blank₁.2.isSpace,
      l.sources.split]
  have htargets : splitWs (l.gap₂ ++ target' ++ gap) = l.targets.ids := by
    have hlast : splitWs (target' ++ [' ']) = l.targets.ids := by rw [← htarget, l.targets.split]
    have hblank : splitWs (target' ++ gap) = splitWs (target' ++ [' ']) := by
      rw [splitWs_append (by rfl)]
      cases gap with
      | nil => rw [List.append_nil]; exact (List.append_nil _).symm
      | cons c gap =>
        obtain rfl := hgap c List.mem_cons_self
        rw [splitWs_append (by rfl),
          splitWs_spaces fun d hd => hgap.isSpace d (List.mem_cons_of_mem _ hd)]
        rfl
    rw [List.append_assoc, splitWs_spaces_append l.blank₂.2.isSpace, hblank, hlast]
  unfold getParamsLink
  rw [hrule]
  simp only [bind, Except.bind, hpieces, hreplace, hsources, htargets]

end LinkLine

/-- **The first pattern matches the link lines only.** -/
theorem exists_linkLine {line : Text} (h : matchAt modifyLinkPattern line = true) :
    ∃ l : LinkLine, l.text = line ∧ IsRule l.tail := by
  obtain ⟨p, hp, rest, rfl⟩ := (matchAt_iff _ _).mp h
  unfold modifyLinkPattern at hp
  simp only [mem_parts_cons] at hp
  obtain ⟨lead, hlead, -, ⟨_, hfrom, -, ⟨gap₁, hgap₁, -, ⟨s, hs, -, ⟨_, hto, -, ⟨gap₂, hgap₂, -,
    ⟨t, ht, -, ⟨r, hr, _, hnil, rfl⟩, rfl⟩, rfl⟩, rfl⟩, rfl⟩, rfl⟩, rfl⟩, rfl⟩ := hp
  obtain rfl := (mem_lang_lit _ _).mp hfrom
  obtain rfl := (mem_lang_lit _ _).mp hto
  obtain rfl := mem_parts_nil.mp hnil
  obtain ⟨sources, rfl⟩ := exists_idsText hs
  obtain ⟨targets, rfl⟩ := exists_idsText ht
  obtain ⟨both, tail, htail, hboth, hrule⟩ := mem_rulePattern rest hr
  refine ⟨⟨lead, gap₁, sources, gap₂, targets, both, tail, mem_blanks.mp hlead,
    mem_blanks1.mp hgap₁, mem_blanks1.mp hgap₂, hboth⟩, ?_, hrule⟩
  unfold LinkLine.text LinkLine.front
  dsimp only
  simp only [List.append_assoc, List.append_nil] at htail ⊢
  rw [htail]

theorem splitOn_eq_cons (s : Text) : ∃ a more, splitOn "set".toList s = a :: more := by
  rcases splitOn_cases (show "set".toList ≠ [] by decide) s with ⟨-, h⟩ | ⟨a, b, more, h, -⟩
  · exact ⟨s, [], h⟩
  · exact ⟨a, b :: more, h⟩

theorem ofParams_eq_command {α : Type} {f : α → LineKind} {r : Except OtherError α} {call : Call}
    (h : LineKind.ofParams f r = .command call) : ∃ a, r = .ok a ∧ f a = .command call := by
  cases r with
  | error e => cases h
  | ok a => exact ⟨a, rfl, h⟩

/-- **A line taken for a link command is a link line**, and its parts are the arguments. -/
theorem exists_linkLine_of_lineKind {line : Text} {sources targets : List Text}
    {netemCommand : Text} {bidirectional : Bool}
    (h : lineKind line = .command (.modifyLinkFromTo sources targets netemCommand bidirectional)) :
    ∃ l : LinkLine, l.text = line ∧ IsRule l.tail ∧ sources = l.sources.ids ∧
      targets = l.targets.ids ∧ bidirectional = l.both.isSome ∧
      ∃ more, splitOn "set".toList l.tail = netemCommand :: more := by
  unfold lineKind at h
  split at h
  · cases h
  split at h
  · next hmatch =>
    obtain ⟨l, rfl, hrule⟩ := exists_linkLine hmatch
    obtain ⟨netem, more, hmore⟩ := splitOn_eq_cons l.tail
    rw [l.params hmore] at h
    cases h
    exact ⟨l, rfl, hrule, rfl, rfl, rfl, more, hmore⟩
  split at h
  · obtain ⟨_, -, h⟩ := ofParams_eq_command h
    cases h
  split at h
  · cases h
  split at h
  · obtain ⟨⟨nop, label⟩, -, h⟩ := ofParams_eq_command h
    dsimp only at h
    cases hnop : pyInt nop <;> rw [hnop] at h <;> cases h
  split at h
  · cases h
  split at h
  · obtain ⟨_, -, h⟩ := ofParams_eq_command h
    cases h
  · cases h

/-! ## "on … connections" -/

def connectionWord (plural : Bool) : Text := "connection".toList ++ if plural then ['s'] else []

/-- A line of the second pattern, up to what follows its first "set". -/
structure RandomLinkLine where
  lead : Text
  gap₁ : Text
  number : Text
  gap₂ : Text
  plural : Bool
  gap₃ : Text
  both : Option Text
  tail : Text
  blank_lead : Blank lead
  blank₁ : gap₁ ≠ [] ∧ Blank gap₁
  digits : number ≠ [] ∧ ∀ c ∈ number, isAsciiDigit c = true
  blank₂ : gap₂ ≠ [] ∧ Blank gap₂
  blank₃ : gap₃ ≠ [] ∧ Blank gap₃
  blank_both : ∀ gap ∈ both, gap ≠ [] ∧ Blank gap

namespace RandomLinkLine

variable (l : RandomLinkLine)

def front : Text :=
  l.lead ++ "on".toList ++ (l.gap₁ ++ l.number ++ l.gap₂) ++ (connectionWord l.plural ++ l.gap₃)

def text : Text := l.front ++ bidirectionalWord l.both ++ "set".toList ++ l.tail

theorem notMem_number {c : Char} (h : isAsciiDigit c = false) : c ∉ l.number := by
  intro hmem
  have := l.digits.2 c hmem
  rw [h] at this
  cases this

/-- A letter that is neither a digit nor a blank, in front of the word "connections". -/
theorem notMem_front {c : Char} (hdigit : isAsciiDigit c = false) (hblank : c ≠ ' ')
    (hon : c ∉ "on".toList) : c ∉ l.lead ++ "on".toList ++ (l.gap₁ ++ l.number ++ l.gap₂) := by
  simp only [List.mem_append, not_or]
  exact ⟨⟨l.blank_lead.notMem hblank, hon⟩,
    ⟨l.blank₁.2.notMem hblank, l.notMem_number hdigit⟩, l.blank₂.2.notMem hblank⟩

theorem before : Before l.front := by
  constructor
  · intro hmem
    rcases List.mem_append.mp hmem with hmem | hmem
    · exact l.notMem_front (by decide) (by decide) (by decide) hmem
    · rcases List.mem_append.mp hmem with hmem | hmem
      · revert hmem
        cases l.plural <;> decide
      · exact l.blank₃.2.notMem (by decide) hmem
  · obtain ⟨gap', hgap⟩ := exists_last_blank l.blank₃.1 l.blank₃.2
    refine ⟨l.lead ++ "on".toList ++ (l.gap₁ ++ l.number ++ l.gap₂) ++
      (connectionWord l.plural ++ gap'), ?_⟩
    unfold front
    rw [hgap]
    simp only [List.append_assoc]

/-- The 's' of "connections" does not start a "set". -/
theorem splitOn_set : splitOn "set".toList l.text =
    (l.front ++ bidirectionalWord l.both) :: splitOn "set".toList l.tail := by
  have hset : "set".toList = 's' :: ['e', 't'] := by decide
  have hword : connectionWord l.plural = "connection".toList ++ if l.plural then ['s'] else [] := rfl
  have hu : 's' ∉ l.lead ++ "on".toList ++ (l.gap₁ ++ l.number ++ l.gap₂) ++ "connection".toList :=
    fun h => (List.mem_append.mp h).elim
      (l.notMem_front (by decide) (by decide) (by decide)) (by decide)
  have hv : 's' ∉ l.gap₃ ++ bidirectionalWord l.both := fun h =>
    (List.mem_append.mp h).elim (l.blank₃.2.notMem (by decide))
      (LinkLine.notMem_bidirectionalWord l.blank_both)
  unfold text front
  rw [hset, hword]
  cases l.plural with
  | false =>
    have hs : 's' ∉ l.lead ++ "on".toList ++ (l.gap₁ ++ l.number ++ l.gap₂) ++
        "connection".toList ++ (l.gap₃ ++ bidirectionalWord l.both) :=
      fun h => (List.mem_append.mp h).elim hu hv
    have := @splitOn_append 's' ['e', 't'] _ hs l.tail
    simpa only [List.append_assoc, List.cons_append, List.nil_append, List.append_nil,
      Bool.false_eq_true, if_false] using this
  | true =>
    obtain ⟨c, gap', hgap⟩ := List.exists_cons_of_ne_nil l.blank₃.1
    have hc : c = ' ' := l.blank₃.2 c (by rw [hgap]; exact List.mem_cons_self)
    have hp : ¬ 's' :: ['e', 't'] <+: 's' :: (l.gap₃ ++ bidirectionalWord l.both ++
        's' :: (['e', 't'] ++ l.tail)) := by
      intro h
      have h := (List.cons_prefix_cons.mp h).2
      rw [hgap, hc, List.cons_append, List.cons_append] at h
      exact absurd (List.cons_prefix_cons.mp h).1 (by decide)
    have := splitOn_append_cons hu hv l.tail hp
    simpa only [List.append_assoc, List.cons_append, List.nil_append, if_true] using this

theorem firstNumber (rest : Text) : splitWs (replace "on".toList []
    (l.lead ++ "on".toList ++ (l.gap₁ ++ l.number ++ l.gap₂) ++ rest)) =
      l.number :: splitWs (replace "on".toList [] rest) := by
  have hon : "on".toList = 'o' :: ['n'] := by decide
  have hnumber : 'o' ∉ l.gap₁ ++ l.number ++ l.gap₂ := by
    simp only [List.mem_append, not_or]
    exact ⟨⟨l.blank₁.2.notMem (by decide), l.notMem_number (by decide)⟩,
      l.blank₂.2.notMem (by decide)⟩
  rw [hon, List.append_assoc, List.append_assoc,
    replace_append_of_notMem _ _ (l.blank_lead.notMem (by decide)), replace_self,
    replace_append_of_notMem _ _ hnumber, List.nil_append,
    splitWs_spaces_append l.blank_lead.isSpace, List.append_assoc, List.append_assoc,
    splitWs_spaces_append l.blank₁.2.isSpace,
    splitWs_word_blanks l.digits.1 (fun c hc => isIdLetter_of_digit (l.digits.2 c hc)) l.blank₂.1
      l.blank₂.2]

/-- **The parts of a random link line**, with the rule up to the next "set". -/
theorem params {netem : Text} {more : List Text} {n : Nat}
    (h : splitOn "set".toList l.tail = netem :: more) (hn : pyInt l.number = some n) :
    getParamsRlink l.text = .ok (n, netem, l.both.isSome) := by
  have hsplit := l.splitOn_set
  rw [h] at hsplit
  obtain ⟨front', gap, hfront', -, hrule⟩ := getParamsRule_eq l.before l.blank_both hsplit
  obtain ⟨gap', hgap⟩ := exists_last_blank l.blank₃.1 l.blank₃.2
  have hfront : front' = l.lead ++ "on".toList ++ (l.gap₁ ++ l.number ++ l.gap₂) ++
      (connectionWord l.plural ++ gap') := by
    unfold front at hfront'
    rw [hgap, ← List.append_assoc, ← List.append_assoc] at hfront'
    have := (List.append_inj' hfront' rfl).1
    rw [← this]
    simp only [List.append_assoc]
  unfold getParamsRlink
  rw [hrule, hfront, List.append_assoc _ _ gap]
  simp only [bind, Except.bind, l.firstNumber, hn]

end RandomLinkLine

/-- **The second pattern matches the random link lines only.** -/
theorem exists_randomLinkLine {line : Text} (h : matchAt modifyRandomLinkPattern line = true) :
    ∃ l : RandomLinkLine, l.text = line ∧ IsRule l.tail := by
  obtain ⟨p, hp, rest, rfl⟩ := (matchAt_iff _ _).mp h
  unfold modifyRandomLinkPattern at hp
  simp only [mem_parts_cons] at hp
  obtain ⟨lead, hlead, -, ⟨_, hon, -, ⟨gap₁, hgap₁, -, ⟨number, hnumber, -, ⟨gap₂, hgap₂, -,
    ⟨_, hword, -, ⟨o, ho, -, ⟨gap₃, hgap₃, -, ⟨r, hr, _, hnil, rfl⟩, rfl⟩, rfl⟩, rfl⟩, rfl⟩, rfl⟩,
    rfl⟩, rfl⟩, rfl⟩ := hp
  obtain rfl := (mem_lang_lit _ _).mp hon
  obtain rfl := (mem_lang_lit _ _).mp hword
  obtain rfl := mem_parts_nil.mp hnil
  obtain ⟨both, tail, htail, hboth, hrule⟩ := mem_rulePattern rest hr
  have hplural : ∃ plural : Bool, o = if plural then ['s'] else [] := by
    rcases (mem_lang_opt _ _).mp ho with ho | rfl
    · obtain rfl := (mem_lang_lit _ _).mp ho
      exact ⟨true, rfl⟩
    · exact ⟨false, rfl⟩
  obtain ⟨plural, rfl⟩ := hplural
  refine ⟨⟨lead, gap₁, number, gap₂, plural, gap₃, both, tail, mem_blanks.mp hlead,
    mem_blanks1.mp hgap₁, mem_digits.mp hnumber, mem_blanks1.mp hgap₂, mem_blanks1.mp hgap₃,
    hboth⟩, ?_, hrule⟩
  unfold RandomLinkLine.text RandomLinkLine.front connectionWord
  dsimp only
  simp only [List.append_assoc, List.append_nil] at htail ⊢
  rw [htail]

/-- **A line taken for a random link command is a random link line**, and its parts are the
arguments. -/
theorem exists_randomLinkLine_of_lineKind {line : Text} {k : Nat} {netemCommand : Text}
    {bidirectional : Bool}
    (h : lineKind line = .command (.modifyRandomLink k netemCommand bidirectional)) :
    ∃ l : RandomLinkLine, l.text = line ∧ IsRule l.tail ∧ pyInt l.number = some k ∧
      bidirectional = l.both.isSome ∧
      ∃ more, splitOn "set".toList l.tail = netemCommand :: more := by
  unfold lineKind at h
  split at h
  · cases h
  split at h
  · obtain ⟨_, -, h⟩ := ofParams_eq_command h
    cases h
  split at h
  · next hmatch =>
    obtain ⟨l, rfl, hrule⟩ := exists_randomLinkLine hmatch
    obtain ⟨netem, more, hmore⟩ := splitOn_eq_cons l.tail
    obtain ⟨n, hn⟩ := exists_pyInt (isDigit_of_digits l.digits.1 l.digits.2)
    rw [l.params hmore hn] at h
    cases h
    exact ⟨l, rfl, hrule, hn, rfl, more, hmore⟩
  split at h
  · cases h
  split at h
  · obtain ⟨⟨nop, label⟩, -, h⟩ := ofParams_eq_command h
    dsimp only at h
    cases hnop : pyInt nop <;> rw [hnop] at h <;> cases h
  split at h
  · cases h
  split at h
  · obtain ⟨_, -, h⟩ := ofParams_eq_command h
    cases h
  · cases h

end Executor.Parser
