import Krafters.Executor.Parser
import Krafters.TestGenerator.Test

/-!
# What the parser takes the lines of a `Test` for

    lineKind (fromToCommand s t b rule) = .command (.modifyLinkFromTo s.ids t.ids netem b)
                                                                        (lineKind_link)

`netem` is what `split("set")` finds behind the first "set"; no letter of "set", "to",
"from" or "bidirectional" is in an id, so that the splits in front of it find the parts.
A line behind a tab is an unknown command: all patterns begin with blanks only.
-/

namespace TestGenerator

open Py Regex Executor Executor.Parser

/-! ## Ids -/

/-- Letters of numerals, of "rand" and of "all". -/
def isIdLetter (c : Char) : Bool := isAsciiDigit c || "andrl".toList.contains c

theorem isIdLetter_of_digit {c : Char} (h : isAsciiDigit c = true) : isIdLetter c = true := by
  unfold isIdLetter
  rw [h]
  rfl

theorem isSpace_of_isIdLetter {c : Char} (h : isIdLetter c = true) : isSpace c = false := by
  rcases Bool.or_eq_true_iff.mp h with h | h
  · exact isSpace_of_isAsciiDigit h
  · have hmem : c ∈ "andrl".toList := by simpa using h
    have hall : ∀ d ∈ "andrl".toList, isSpace d = false := by decide
    exact hall c hmem

/-- A word of id letters. -/
def IsId (id : Text) : Prop := id ≠ [] ∧ ∀ c ∈ id, isIdLetter c = true

theorem isId_member (n : Member) : IsId n.str := by
  cases n with
  | node n => exact ⟨n.nonempty, fun c hc => isIdLetter_of_digit (n.numeric c hc)⟩
  | random => exact ⟨by decide, by decide⟩

theorem isId_of_mem_ids {e : Endpoints} {id : Text} (h : id ∈ e.ids) : IsId id := by
  cases e with
  | all =>
    obtain rfl := List.mem_singleton.mp h
    exact ⟨by decide, by decide⟩
  | single n =>
    obtain rfl := List.mem_singleton.mp h
    exact isId_member n
  | group g =>
    obtain ⟨n, -, rfl⟩ := List.mem_map.mp h
    exact isId_member n

theorem foldl_str (nodes : List Member) : ∀ result : Text,
    nodes.foldl (fun result node => result ++ (node.str ++ " ".toList)) result =
      result ++ (nodes.map Member.str).flatMap fun id => id ++ [' '] := by
  induction nodes with
  | nil => exact fun result => (List.append_nil result).symm
  | cons n nodes ih =>
    intro result
    rw [List.foldl_cons, ih, List.append_assoc]
    rfl

/-- The ids, each with a blank behind it. -/
theorem str_blank (e : Endpoints) : e.str ++ [' '] = e.ids.flatMap fun id => id ++ [' '] := by
  cases e with
  | all => rfl
  | single n => simp [Endpoints.str, Endpoints.ids]
  | group g =>
    show g.str ++ [' '] = (g.nodes.map Member.str).flatMap fun id => id ++ [' ']
    unfold NodeGroup.str
    rw [foldl_str, List.nil_append]
    obtain ⟨nodes, n, hnodes⟩ := List.eq_nil_or_concat g.nodes |>.resolve_left g.nonempty
    have hlast : (g.nodes.map Member.str).flatMap (fun id => id ++ [' ']) =
        ((nodes.map Member.str).flatMap fun id => id ++ [' ']) ++ n.str ++ [' '] := by
      simp [hnodes]
    have hpos : 0 < ((nodes.map Member.str).flatMap (fun id => id ++ [' ']) ++ n.str ++
        [' ']).length := by
      rw [List.length_append]
      exact Nat.succ_pos _
    rw [hlast, if_pos hpos, List.dropLast_concat]

theorem mem_str {e : Endpoints} {c : Char} (h : c ∈ e.str) : isIdLetter c = true ∨ c = ' ' := by
  have hc : c ∈ e.str ++ [' '] := List.mem_append_left _ h
  rw [str_blank] at hc
  obtain ⟨id, hid, hc⟩ := List.mem_flatMap.mp hc
  rcases List.mem_append.mp hc with hc | hc
  · exact .inl ((isId_of_mem_ids hid).2 c hc)
  · exact .inr (List.mem_singleton.mp hc)

theorem notMem_str {c : Char} (h : isIdLetter c = false) (hc : c ≠ ' ') (e : Endpoints) :
    c ∉ e.str := by
  intro hmem
  rcases mem_str hmem with hid | hblank
  · rw [h] at hid
    cases hid
  · exact hc hblank

theorem notMem_words {c : Char} {pre : Text} (hid : isIdLetter c = false) (hblank : c ≠ ' ')
    (hpre : c ∉ pre) (e : Endpoints) : c ∉ pre ++ (e.str ++ [' ']) := by
  simp only [List.mem_append, not_or]
  exact ⟨hpre, notMem_str hid hblank e, fun h => hblank (List.mem_singleton.mp h)⟩

theorem splitWs_ids {ids : List Text} (h : ∀ id ∈ ids, IsId id) :
    splitWs (ids.flatMap fun id => id ++ [' ']) = ids := by
  induction ids with
  | nil => rfl
  | cons id ids ih =>
    obtain ⟨hne, hletters⟩ := h id List.mem_cons_self
    have hid := splitWs_word hne fun c hc => isSpace_of_isIdLetter (hletters c hc)
    rw [List.flatMap_cons, List.append_assoc, List.singleton_append, splitWs_append (by rfl), hid,
      ih fun id' hid' => h id' (List.mem_cons_of_mem id hid')]
    rfl

theorem splitWs_str (e : Endpoints) : splitWs ([' '] ++ (e.str ++ [' '])) = e.ids := by
  have hblank : splitWs ([' '] ++ (e.str ++ [' '])) = splitWs [] ++ splitWs (e.str ++ [' ']) :=
    splitWs_append (c := ' ') (by rfl) [] (e.str ++ [' '])
  rw [hblank, str_blank, splitWs_ids fun _ => isId_of_mem_ids]
  rfl

/-! ## Words of the patterns -/

theorem nil_mem_blanks : ([] : Text) ∈ lang blanks := nil_mem_lang_star _

theorem blank_mem_blanks1 : [' '] ∈ lang blanks1 :=
  (mem_lang_plus_cls _ _).mpr ⟨by simp, by simp⟩

theorem member_mem_lang (n : Member) :
    n.str ++ [' '] ∈ lang (parts [alt digits (lit "rand".toList), blanks1]) := by
  refine append_mem_lang_seq ((mem_lang_alt _ _ _).mpr ?_)
    (append_mem_lang_seq blank_mem_blanks1 ((mem_lang_eps []).mpr rfl))
  cases n with
  | node n => exact .inl ((mem_lang_plus_cls _ _).mpr ⟨n.nonempty, n.numeric⟩)
  | random => exact .inr ((mem_lang_lit _ _).mpr rfl)

theorem members_mem_lang (nodes : List Member) :
    (nodes.map Member.str).flatMap (fun id => id ++ [' ']) ∈
      lang (star (parts [alt digits (lit "rand".toList), blanks1])) := by
  induction nodes with
  | nil => exact nil_mem_lang_star _
  | cons n nodes ih => exact append_mem_lang_star (member_mem_lang n) ih

theorem str_mem_lang (e : Endpoints) : e.str ++ [' '] ∈ lang idsPattern := by
  apply (mem_lang_alt _ _ _).mpr
  cases e with
  | all =>
    exact .inl (append_mem_lang_seq ((mem_lang_lit "all".toList _).mpr rfl)
      (append_mem_lang_seq blank_mem_blanks1 ((mem_lang_eps []).mpr rfl)))
  | single n =>
    have := append_mem_lang_seq (member_mem_lang n)
      (nil_mem_lang_star (parts [alt digits (lit "rand".toList), blanks1]))
    rw [List.append_nil] at this
    exact .inr this
  | group g =>
    obtain ⟨n, nodes, hnodes⟩ := List.exists_cons_of_ne_nil g.nonempty
    have hids : (Endpoints.group g).ids = n.str :: nodes.map Member.str := by
      simp [Endpoints.ids, hnodes]
    rw [str_blank, hids]
    exact .inr (append_mem_lang_seq (member_mem_lang n) (members_mem_lang nodes))

/-! ## Link lines -/

/-- A link line up to its targets. -/
def fromTo (sources targets : Endpoints) : Text :=
  "from ".toList ++ sources.str ++ " to ".toList ++ targets.str

/-- A link line in front of its "set". -/
def front (sources targets : Endpoints) (bidirectional : Bool) : Text :=
  fromTo sources targets ++ if bidirectional then " bidirectional ".toList else " ".toList

theorem fromToCommand_eq (sources targets : Endpoints) (bidirectional : Bool) (rule : Text) :
    fromToCommand sources targets bidirectional rule =
      front sources targets bidirectional ++ 's' :: (['e', 't'] ++ ' ' :: rule) := by
  unfold fromToCommand front fromTo
  cases bidirectional <;> simp

theorem notMem_fromTo {c : Char} (hid : isIdLetter c = false) (hblank : c ≠ ' ')
    (hfrom : c ∉ "from ".toList) (hto : c ∉ " to ".toList) (sources targets : Endpoints) :
    c ∉ fromTo sources targets := by
  unfold fromTo
  simp only [List.mem_append, not_or]
  exact ⟨⟨⟨hfrom, notMem_str hid hblank sources⟩, hto⟩, notMem_str hid hblank targets⟩

/-- The words "bidirectional" and "set" do not hide in the ids. -/
theorem getParamsRule_link (sources targets : Endpoints) (bidirectional : Bool) {rule netem : Text}
    {more : List Text} (h : splitOn "set".toList (' ' :: rule) = netem :: more) :
    getParamsRule (fromToCommand sources targets bidirectional rule) =
      .ok (netem, front sources targets false, bidirectional) := by
  have hs : 's' ∉ fromTo sources targets := notMem_fromTo (by decide) (by decide) (by decide) (by decide) _ _
  have hb : 'b' ∉ fromTo sources targets := notMem_fromTo (by decide) (by decide) (by decide) (by decide) _ _
  have hfront : 's' ∉ front sources targets bidirectional := by
    have hword : 's' ∉ if bidirectional then " bidirectional ".toList else " ".toList := by
      cases bidirectional <;> decide
    exact fun h => (List.mem_append.mp h).elim hs hword
  have hsplit : splitOn "set".toList (fromToCommand sources targets bidirectional rule) =
      front sources targets bidirectional :: netem :: more := by
    rw [fromToCommand_eq, ← h, show "set".toList = ['s', 'e', 't'] from rfl]
    exact splitOn_append hfront (' ' :: rule)
  unfold getParamsRule
  rw [hsplit]
  cases bidirectional with
  | false =>
    have hb' : 'b' ∉ front sources targets false := fun h =>
      (List.mem_append.mp h).elim hb (by decide)
    have hsub : hasSub " bidirectional ".toList (front sources targets false) = false :=
      hasSub_of_notMem (by decide) hb'
    simp only [hsub, Bool.false_eq_true, if_false]
  | true =>
    have hsub : hasSub " bidirectional ".toList (front sources targets true) = true :=
      decide_eq_true (List.suffix_append _ _).isInfix
    have hreplace : replace " bidirectional".toList [] (front sources targets true) =
        front sources targets false := by
      have hword : " bidirectional".toList = ' ' :: 'b' :: "idirectional".toList := by decide
      have hwords : " bidirectional ".toList = " bidirectional".toList ++ [' '] := by decide
      have hblank : replace " bidirectional".toList [] [' '] = " ".toList := by decide
      unfold front
      rw [if_pos rfl, if_neg Bool.false_ne_true, hwords, hword, List.cons_append,
        replace_append_of_notMem_second _ _ hb (by decide), ← List.cons_append, replace_self,
        ← hword, hblank, List.nil_append]
    simp only [hsub, if_true, hreplace]

theorem getParamsLink_link (sources targets : Endpoints) (bidirectional : Bool)
    {rule netem : Text} {more : List Text}
    (h : splitOn "set".toList (' ' :: rule) = netem :: more) :
    getParamsLink (fromToCommand sources targets bidirectional rule) =
      .ok ⟨sources.ids, targets.ids, netem, bidirectional⟩ := by
  have hsource : 't' ∉ "from ".toList ++ (sources.str ++ [' ']) :=
    notMem_words (by decide) (by decide) (by decide) sources
  have htarget : 't' ∉ [' '] ++ (targets.str ++ [' ']) :=
    notMem_words (by decide) (by decide) (by decide) targets
  have hsplit : splitOn "to".toList (front sources targets false) =
      ["from ".toList ++ (sources.str ++ [' ']), [' '] ++ (targets.str ++ [' '])] := by
    have hfront : front sources targets false = ("from ".toList ++ (sources.str ++ [' '])) ++
        't' :: (['o'] ++ ([' '] ++ (targets.str ++ [' ']))) := by
      have hto : " to ".toList = [' ', 't', 'o', ' '] := by decide
      have hblank : " ".toList = [' '] := by decide
      unfold front fromTo
      rw [if_neg Bool.false_ne_true, hto, hblank]
      simp only [List.append_assoc, List.cons_append, List.nil_append]
    rw [hfront, show "to".toList = ['t', 'o'] from rfl, splitOn_append hsource,
      splitOn_of_notMem htarget]
  have hreplace : replace "from".toList [] ("from ".toList ++ (sources.str ++ [' '])) =
      [' '] ++ (sources.str ++ [' ']) := by
    have hf : 'f' ∉ [' '] ++ (sources.str ++ [' ']) :=
      notMem_words (by decide) (by decide) (by decide) sources
    rw [show "from ".toList = ['f', 'r', 'o', 'm'] ++ [' '] from rfl,
      show "from".toList = ['f', 'r', 'o', 'm'] from rfl, List.append_assoc, replace_self,
      replace_of_notMem hf]
    rfl
  unfold getParamsLink
  rw [getParamsRule_link sources targets bidirectional h]
  simp only [bind, Except.bind, hsplit, hreplace, splitWs_str]

theorem matchAt_link (sources targets : Endpoints) (bidirectional : Bool) {c : Char} {rule : Text}
    (hc : isLower c = true) :
    matchAt modifyLinkPattern (fromToCommand sources targets bidirectional (c :: rule)) = true := by
  have hnil : ([] : Text) ∈ lang (parts []) := (mem_lang_eps []).mpr rfl
  have hword : [c] ∈ lang (plus (cls isLower)) :=
    (mem_lang_plus_cls _ _).mpr ⟨by simp, by simp [hc]⟩
  have hopt : (if bidirectional then "bidirectional ".toList else []) ∈
      lang (opt (parts [lit "bidirectional".toList, blanks1])) := by
    apply (mem_lang_opt _ _).mpr
    cases bidirectional with
    | false => exact .inr rfl
    | true =>
      have hword : "bidirectional ".toList = "bidirectional".toList ++ ([' '] ++ []) := by decide
      rw [if_pos rfl, hword]
      exact .inl (append_mem_lang_seq ((mem_lang_lit "bidirectional".toList _).mpr rfl)
        (append_mem_lang_seq blank_mem_blanks1 hnil))
  have hrule := append_mem_lang_seq hopt (append_mem_lang_seq
    ((mem_lang_lit "set".toList _).mpr rfl) (append_mem_lang_seq blank_mem_blanks1
      (append_mem_lang_seq hword hnil)))
  have hlink := append_mem_lang_seq nil_mem_blanks (append_mem_lang_seq
    ((mem_lang_lit "from".toList _).mpr rfl) (append_mem_lang_seq blank_mem_blanks1
      (append_mem_lang_seq (str_mem_lang sources) (append_mem_lang_seq
        ((mem_lang_lit "to".toList _).mpr rfl) (append_mem_lang_seq blank_mem_blanks1
          (append_mem_lang_seq (str_mem_lang targets) (append_mem_lang_seq hrule hnil)))))))
  refine (matchAt_iff _ _).mpr ⟨_, hlink, rule, ?_⟩
  have hfrom : "from ".toList = "from".toList ++ [' '] := by decide
  have hto : " to ".toList = [' '] ++ ("to".toList ++ [' ']) := by decide
  have hset : " set ".toList = [' '] ++ ("set".toList ++ [' ']) := by decide
  have hboth : " bidirectional set ".toList =
      [' '] ++ ("bidirectional ".toList ++ ("set".toList ++ [' '])) := by decide
  unfold fromToCommand
  rw [hfrom, hto, hset, hboth]
  cases bidirectional <;>
    simp only [if_true, if_false, Bool.false_eq_true, List.append_assoc, List.nil_append,
      List.cons_append]

/-- **A link call's line is read as its command**, with the rule up to the first "set" in it. -/
theorem lineKind_link (sources targets : Endpoints) (bidirectional : Bool) {c : Char}
    {rule netem : Text} {more : List Text} (hc : isLower c = true)
    (h : splitOn "set".toList (' ' :: c :: rule) = netem :: more) :
    lineKind (fromToCommand sources targets bidirectional (c :: rule)) =
      .command (.modifyLinkFromTo sources.ids targets.ids netem bidirectional) := by
  have hne : (fromToCommand sources targets bidirectional (c :: rule)).isEmpty = false := by
    unfold fromToCommand
    cases bidirectional <;> rfl
  unfold lineKind
  rw [hne, matchAt_link sources targets bidirectional hc, getParamsLink_link _ _ _ h]
  rfl

/-! ## The other lines -/

/-- A line that does not start with the keyword of a pattern. -/
theorem not_matchAt {k c : Char} {kw s : Text} (rs : List Regex) (hk : k ≠ ' ') (hc : c ≠ ' ')
    (h : ¬ k :: kw <+: c :: s) : matchAt (parts (blanks :: lit (k :: kw) :: rs)) (c :: s) = false := by
  rw [← Bool.not_eq_true]
  intro hmatch
  have hstart := keyword_of_matchAt (· == ' ') (k :: kw) (parts rs) (c :: s)
    (by simpa using hk) (by simp) hmatch
  rw [List.dropWhile_cons_of_neg (by simpa using hc)] at hstart
  exact h hstart

theorem digit_of_matchAt {c : Char} {s : Text} (hc : c ≠ ' ')
    (h : matchAt timesPattern (c :: s) = true) : isAsciiDigit c = true := by
  obtain ⟨p, hp, t, hpt⟩ := (matchAt_iff _ _).mp h
  obtain ⟨a, ha, q, hq, rfl⟩ := (mem_lang_seq _ _ p).mp hp
  obtain ⟨b, hb, r, -, rfl⟩ := (mem_lang_seq _ _ q).mp hq
  obtain ⟨hne, hdigits⟩ := (mem_lang_plus_cls _ _).mp hb
  have hblanks := (mem_lang_star_cls _ _).mp ha
  cases a with
  | nil =>
    obtain ⟨d, b, rfl⟩ := List.exists_cons_of_ne_nil hne
    obtain ⟨rfl, -⟩ := List.cons_eq_cons.mp hpt
    exact hdigits d List.mem_cons_self
  | cons d a =>
    obtain ⟨rfl, -⟩ := List.cons_eq_cons.mp hpt
    exact absurd (by simpa using hblanks d List.mem_cons_self) hc

theorem not_begins {k c : Char} {kw s : Text} (h : c ≠ k) : ¬ k :: kw <+: c :: s :=
  fun hstart => h (List.cons_prefix_cons.mp hstart).1.symm

theorem lineKind_tab (s : Text) : lineKind ('\t' :: s) = .unknown := by
  have hlink : matchAt modifyLinkPattern ('\t' :: s) = false :=
    not_matchAt _ (by decide) (by decide) (not_begins (by decide))
  have hrlink : matchAt modifyRandomLinkPattern ('\t' :: s) = false :=
    not_matchAt _ (by decide) (by decide) (not_begins (by decide))
  have hreset : matchAt resetPattern ('\t' :: s) = false :=
    not_matchAt _ (by decide) (by decide) (not_begins (by decide))
  have hrun : matchAt runPattern ('\t' :: s) = false :=
    not_matchAt _ (by decide) (by decide) (not_begins (by decide))
  have hdo : matchAt doPattern ('\t' :: s) = false :=
    not_matchAt _ (by decide) (by decide) (not_begins (by decide))
  have htimes : matchAt timesPattern ('\t' :: s) = false := by
    rw [← Bool.not_eq_true]
    intro h
    exact absurd (digit_of_matchAt (by decide) h) (by decide)
  unfold lineKind
  simp only [List.isEmpty_cons, hlink, hrlink, hreset, hrun, hdo, htimes, Bool.false_eq_true,
    if_false]

theorem lineKind_run (n : Nat) :
    lineKind ("run ".toList ++ natText n) = .command (.runCommand n "no_name".toList) := by
  have hline : "run ".toList ++ natText n = 'r' :: 'u' :: 'n' :: ' ' :: natText n := rfl
  have hlink : matchAt modifyLinkPattern ('r' :: 'u' :: 'n' :: ' ' :: natText n) = false :=
    not_matchAt _ (by decide) (by decide) (not_begins (by decide))
  have hrlink : matchAt modifyRandomLinkPattern ('r' :: 'u' :: 'n' :: ' ' :: natText n) = false :=
    not_matchAt _ (by decide) (by decide) (not_begins (by decide))
  have hreset : matchAt resetPattern ('r' :: 'u' :: 'n' :: ' ' :: natText n) = false :=
    not_matchAt _ (by decide) (by decide) fun h =>
      not_begins (by decide) (List.cons_prefix_cons.mp h).2
  have hrun : matchAt runPattern ('r' :: 'u' :: 'n' :: ' ' :: natText n) = true := by
    have hdigits : natText n ∈ lang digits :=
      (mem_lang_plus_cls _ _).mpr ⟨natText_ne_nil n, fun _ hc => isAsciiDigit_of_mem_natText hc⟩
    have hword := append_mem_lang_seq nil_mem_blanks (append_mem_lang_seq
      ((mem_lang_lit ['r', 'u', 'n'] _).mpr rfl) (append_mem_lang_seq blank_mem_blanks1
        (append_mem_lang_seq hdigits (append_mem_lang_seq
          ((mem_lang_opt (parts [blanks1, plus (cls isLabelLetter)]) []).mpr (.inr rfl))
          (append_mem_lang_seq nil_mem_blanks ((mem_lang_eps []).mpr rfl))))))
    refine (matchAt_iff _ _).mpr ⟨_, hword, [], ?_⟩
    simp only [List.append_nil, List.nil_append, List.cons_append]
  have hparams : getParamsRun ('r' :: 'u' :: 'n' :: ' ' :: natText n) =
      .ok (natText n, "no_name".toList) := by
    have hsplit : splitWs (['r', 'u', 'n'] ++ ' ' :: natText n) = [['r', 'u', 'n'], natText n] := by
      rw [splitWs_append (by rfl), splitWs_natText]
      rfl
    unfold getParamsRun
    rw [show 'r' :: 'u' :: 'n' :: ' ' :: natText n = ['r', 'u', 'n'] ++ ' ' :: natText n from rfl,
      hsplit]
  rw [hline]
  unfold lineKind
  simp only [List.isEmpty_cons, hlink, hrlink, hreset, hrun, hparams, Bool.false_eq_true, if_false,
    if_true, LineKind.ofParams, pyInt_natText, Option.elim_some]

theorem lineKind_times (n : Nat) : lineKind (natText n ++ " times".toList) = .timesLine n := by
  obtain ⟨d, ds, hn⟩ := List.exists_cons_of_ne_nil (natText_ne_nil n)
  have hd : isAsciiDigit d = true := isAsciiDigit_of_mem_natText (by rw [hn]; simp)
  have hne : ∀ c : Char, isAsciiDigit c = false → d ≠ c := by
    rintro c hc rfl
    rw [hd] at hc
    cases hc
  have hblank : d ≠ ' ' := hne _ (by decide)
  have hline : natText n ++ " times".toList = d :: (ds ++ " times".toList) := by rw [hn]; rfl
  have hlink : matchAt modifyLinkPattern (d :: (ds ++ " times".toList)) = false :=
    not_matchAt _ (by decide) hblank (not_begins (hne _ (by decide)))
  have hrlink : matchAt modifyRandomLinkPattern (d :: (ds ++ " times".toList)) = false :=
    not_matchAt _ (by decide) hblank (not_begins (hne _ (by decide)))
  have hreset : matchAt resetPattern (d :: (ds ++ " times".toList)) = false :=
    not_matchAt _ (by decide) hblank (not_begins (hne _ (by decide)))
  have hrun : matchAt runPattern (d :: (ds ++ " times".toList)) = false :=
    not_matchAt _ (by decide) hblank (not_begins (hne _ (by decide)))
  have hdo : matchAt doPattern (d :: (ds ++ " times".toList)) = false :=
    not_matchAt _ (by decide) hblank (not_begins (hne _ (by decide)))
  have htimes : matchAt timesPattern (natText n ++ " times".toList) = true := by
    have hdigits : natText n ∈ lang digits :=
      (mem_lang_plus_cls _ _).mpr ⟨natText_ne_nil n, fun _ hc => isAsciiDigit_of_mem_natText hc⟩
    have hword := append_mem_lang_seq nil_mem_blanks (append_mem_lang_seq hdigits
      (append_mem_lang_seq blank_mem_blanks1 (append_mem_lang_seq
        ((mem_lang_lit "time".toList _).mpr rfl) (append_mem_lang_seq
          ((mem_lang_opt (lit "s".toList) "s".toList).mpr (.inl ((mem_lang_lit _ _).mpr rfl)))
          (append_mem_lang_seq nil_mem_blanks ((mem_lang_eps []).mpr rfl))))))
    have htail : " times".toList = [' '] ++ ("time".toList ++ "s".toList) := by decide
    refine (matchAt_iff _ _).mpr ⟨_, hword, [], ?_⟩
    rw [htail]
    simp only [List.append_nil, List.nil_append]
  have hgetTimes : getTimes (natText n ++ " times".toList) = .ok n := by
    have hsplit : splitWs (natText n ++ ' ' :: "times".toList) =
        natText n :: splitWs "times".toList := by
      rw [splitWs_append (by rfl), splitWs_natText]
      rfl
    unfold getTimes
    rw [show " times".toList = ' ' :: "times".toList by decide, hsplit]
    simp only [pyInt_natText, Option.elim_some]
  rw [hline] at htimes hgetTimes ⊢
  unfold lineKind
  simp only [List.isEmpty_cons, hlink, hrlink, hreset, hrun, hdo, htimes, hgetTimes,
    Bool.false_eq_true, if_false, if_true, LineKind.ofParams]

end TestGenerator
