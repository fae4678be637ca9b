import Mathlib.Data.List.Infix
import Mathlib.Data.List.TakeWhile

/-!
# Text: the string methods of Python 3 on lists of characters

A `str` is the list of its code points.  Only the methods the programs over this
library call are here, each with the facts their callers need:

* `rstrip`, `strip`, `splitWs` (`s.split()`) with Python's white space;
* `splitOn` (`s.split(sep)`) and `replace` for a non-empty pattern, left to right
  and without overlaps;
* `hasSub` (`sub in s`), `pyInt` (`int(s)` for an unsigned numeral), `natText` (`str(n)`);
* `readlines` of a file opened as text.

The searching methods are scans with a skip counter (the letters of the match
still to pass), so that they recurse on the text and evaluate.
-/

namespace Py

/-- A Python `str`. -/
abbrev Text := List Char

/-- Decided letter by letter, also where all of Mathlib is imported and `Char` is a finite type. -/
instance decidableLetters {p : Char → Prop} [DecidablePred p] (s : Text) :
    Decidable (∀ c ∈ s, p c) := List.decidableBAll p s

instance decidableMemTexts (s : Text) (l : List Text) : Decidable (s ∈ l) :=
  List.instDecidableMemOfLawfulBEq s l

/-! ## Characters -/

/-- Letters for which `str.isspace` holds (and `split()` cuts). -/
def isSpace (c : Char) : Bool :=
  let n := c.toNat
  (9 ≤ n && n ≤ 13) || (28 ≤ n && n ≤ 32) || n == 0x85 || n == 0xA0 || n == 0x1680 ||
  (0x2000 ≤ n && n ≤ 0x200A) || n == 0x2028 || n == 0x2029 || n == 0x202F || n == 0x205F ||
  n == 0x3000

/-- Code points of the zeros of the decimal digit blocks (category Nd, Unicode 6.3). -/
def zeros : List Nat :=
  [0x30, 0x660, 0x6F0, 0x7C0, 0x966, 0x9E6, 0xA66, 0xAE6, 0xB66, 0xBE6, 0xC66, 0xCE6, 0xD66,
   0xE50, 0xED0, 0xF20, 0x1040, 0x1090, 0x17E0, 0x1810, 0x1946, 0x19D0, 0x1A80, 0x1A90, 0x1B50,
   0x1BB0, 0x1C40, 0x1C50, 0xA620, 0xA8D0, 0xA900, 0xA9D0, 0xAA50, 0xABF0, 0xFF10, 0x104A0,
   0x11066, 0x110F0, 0x11136, 0x111D0, 0x116C0, 0x1D7CE, 0x1D7D8, 0x1D7E2, 0x1D7EC, 0x1D7F6]

/-- Value of a decimal digit. -/
def digitValue (c : Char) : Option Nat :=
  (zeros.find? fun z => z ≤ c.toNat && c.toNat < z + 10).map fun z => c.toNat - z

/-- `[0-9]` -/
def isAsciiDigit (c : Char) : Bool := 48 ≤ c.toNat && c.toNat ≤ 57

/-- `[a-z]` -/
def isLower (c : Char) : Bool := 97 ≤ c.toNat && c.toNat ≤ 122

/-! ## Stripping and splitting at white space -/

def lstrip (s : Text) : Text := s.dropWhile isSpace

def rstrip (s : Text) : Text := (lstrip s.reverse).reverse

def strip (s : Text) : Text := lstrip (rstrip s)

/-- `split()`: `cur` is the current token, reversed. -/
def splitWsGo (cur : Text) : Text → List Text
  | [] => if cur.isEmpty then [] else [cur.reverse]
  | c :: s =>
    if isSpace c then
      if cur.isEmpty then splitWsGo [] s else cur.reverse :: splitWsGo [] s
    else splitWsGo (c :: cur) s

def splitWs (s : Text) : List Text := splitWsGo [] s

/-! ## Searching -/

/-- `sub in s` -/
def hasSub (sub s : Text) : Bool := decide (sub <:+: s)

/-- `s.split(sep)`: `skip` letters of a match are still to pass, `cur` is the current piece,
reversed. -/
def splitOnGo (sep : Text) : Nat → Text → Text → List Text
  | _, cur, [] => [cur.reverse]
  | skip + 1, cur, _ :: s => splitOnGo sep skip cur s
  | 0, cur, c :: s =>
    if sep.isPrefixOf (c :: s) then cur.reverse :: splitOnGo sep (sep.length - 1) [] s
    else splitOnGo sep 0 (c :: cur) s

def splitOn (sep s : Text) : List Text := splitOnGo sep 0 [] s

/-- `s.replace(old, new)` -/
def replaceGo (old new : Text) : Nat → Text → Text
  | _, [] => []
  | skip + 1, _ :: s => replaceGo old new skip s
  | 0, c :: s =>
    if old.isPrefixOf (c :: s) then new ++ replaceGo old new (old.length - 1) s
    else c :: replaceGo old new 0 s

def replace (old new s : Text) : Text := replaceGo old new 0 s

/-! ## Files -/

def isNewline (c : Char) : Bool := c == '\n' || c == '\r'

/-- `cr`: the letter before was "\r", `cur` is the current line, reversed. -/
def readlinesGo (cr : Bool) (cur : Text) : Text → List Text
  | [] => if cur.isEmpty then [] else [cur.reverse]
  | c :: s =>
    if cr && c == '\n' then readlinesGo false [] s
    else if isNewline c then ('\n' :: cur).reverse :: readlinesGo (c == '\r') [] s
    else readlinesGo false (c :: cur) s

/-- `f.readlines()`: "\n", "\r" and "\r\n" end a line and are read as "\n". -/
def readlines (s : Text) : List Text := readlinesGo false [] s

/-! ## Numbers -/

/-- Value of a numeral, most significant digit first. -/
def numeralValue : Nat → Text → Option Nat
  | acc, [] => some acc
  | acc, c :: s => (digitValue c).bind fun d => numeralValue (acc * 10 + d) s

/-- `int(s)` for a text without sign and blanks; `none` is `ValueError`. -/
def pyInt (s : Text) : Option Nat := if s.isEmpty then none else numeralValue 0 s

/-- `s.isdigit()`, for texts whose digits are decimal (no superscripts, no circled digits). -/
def isDigit (s : Text) : Bool := !s.isEmpty && s.all fun c => (digitValue c).isSome

/-- `str(n)` -/
def natText (n : Nat) : Text := Nat.toDigits 10 n

/-! ## Lemmas: stripping -/

theorem dropWhile_append_cons {p : Char → Bool} {c : Char} (hc : p c = false) (a s : Text) :
    (a ++ c :: s).dropWhile p = a.dropWhile p ++ c :: s := by
  induction a with
  | nil => simp [hc]
  | cons d a ih =>
    cases hd : p d with
    | true => simpa [hd] using ih
    | false => simp [hd]

/-- Letters that are no blanks stay, and what is in front of them. -/
theorem rstrip_append_cons {c : Char} (hc : isSpace c = false) (a s : Text) :
    rstrip (a ++ c :: s) = a ++ c :: rstrip s := by
  unfold rstrip lstrip
  rw [List.reverse_append, List.reverse_cons, List.append_assoc, List.singleton_append,
    dropWhile_append_cons hc]
  simp

theorem rstrip_append_spaces {w : Text} (hw : ∀ c ∈ w, isSpace c = true) (s : Text) :
    rstrip (s ++ w) = rstrip s := by
  unfold rstrip lstrip
  rw [List.reverse_append, List.dropWhile_append_of_pos fun c hc => hw c (List.mem_reverse.mp hc)]

theorem rstrip_spaces {w : Text} (hw : ∀ c ∈ w, isSpace c = true) : rstrip w = [] :=
  rstrip_append_spaces hw []

/-- A text with a word at its end. -/
theorem rstrip_append_word {w : Text} (hne : w ≠ []) (hw : ∀ c ∈ w, isSpace c = false) (a : Text) :
    rstrip (a ++ w) = a ++ w := by
  obtain ⟨w, c, rfl⟩ := List.eq_nil_or_concat w |>.resolve_left hne
  have hc : isSpace c = false := hw c (by simp)
  have hstrip := rstrip_append_cons hc (a ++ w) []
  have hnil : rstrip [] = [] := rfl
  rw [hnil] at hstrip
  rw [List.concat_eq_append, ← List.append_assoc]
  exact hstrip

theorem exists_rstrip (s : Text) : ∃ w, s = rstrip s ++ w ∧ ∀ c ∈ w, isSpace c = true := by
  refine ⟨(s.reverse.takeWhile isSpace).reverse, ?_, fun c hc => ?_⟩
  · unfold rstrip lstrip
    rw [← List.reverse_append, List.takeWhile_append_dropWhile, List.reverse_reverse]
  · exact List.mem_takeWhile_imp (List.mem_reverse.mp hc)

theorem rstrip_rstrip (s : Text) : rstrip (rstrip s) = rstrip s := by
  obtain ⟨w, hs, hw⟩ := exists_rstrip s
  have := rstrip_append_spaces hw (rstrip s)
  rw [← hs] at this
  exact this.symm

/-- The letters that are no white space. -/
def letters (s : Text) : Nat := s.countP fun c => !isSpace c

theorem letters_append (s t : Text) : letters (s ++ t) = letters s + letters t :=
  List.countP_append

theorem letters_spaces {w : Text} (hw : ∀ c ∈ w, isSpace c = true) : letters w = 0 := by
  apply List.countP_eq_zero.mpr
  intro c hc
  rw [hw c hc]
  decide

theorem letters_rstrip (s : Text) : letters (rstrip s) = letters s := by
  obtain ⟨w, hs, hw⟩ := exists_rstrip s
  have := letters_append (rstrip s) w
  rw [← hs, letters_spaces hw] at this
  exact this.symm

/-- Stripping takes no letter away. -/
theorem letters_strip (s : Text) : letters (strip s) = letters s := by
  have happ := letters_append ((rstrip s).takeWhile isSpace) ((rstrip s).dropWhile isSpace)
  rw [List.takeWhile_append_dropWhile, letters_rstrip,
    letters_spaces fun c hc => List.mem_takeWhile_imp hc, Nat.zero_add] at happ
  exact happ.symm

/-! ## Lemmas: splitting at white space -/

theorem splitWsGo_append {c : Char} (hc : isSpace c = true) (b : Text) :
    ∀ (a cur : Text), splitWsGo cur (a ++ c :: b) = splitWsGo cur a ++ splitWs b := by
  intro a
  induction a with
  | nil =>
    intro cur
    simp only [List.nil_append, splitWsGo, hc, if_true]
    split <;> rfl
  | cons d a ih =>
    intro cur
    simp only [List.cons_append, splitWsGo]
    split
    · split
      · exact ih []
      · rw [ih [], List.cons_append]
    · exact ih (d :: cur)

/-- A blank is a border of words. -/
theorem splitWs_append {c : Char} (hc : isSpace c = true) (a b : Text) :
    splitWs (a ++ c :: b) = splitWs a ++ splitWs b := splitWsGo_append hc b a []

theorem splitWsGo_word (w : Text) :
    ∀ cur : Text, (∀ c ∈ w, isSpace c = false) →
      splitWsGo cur w = if (w.reverse ++ cur).isEmpty then [] else [cur.reverse ++ w] := by
  induction w with
  | nil =>
    intro cur _
    simp [splitWsGo]
  | cons d w ih =>
    intro cur h
    have hd : isSpace d = false := h d List.mem_cons_self
    simp only [splitWsGo, hd, Bool.false_eq_true, if_false]
    rw [ih (d :: cur) fun c hc => h c (List.mem_cons_of_mem d hc)]
    simp

theorem splitWs_word {w : Text} (hne : w ≠ []) (h : ∀ c ∈ w, isSpace c = false) :
    splitWs w = [w] := by
  rw [splitWs, splitWsGo_word w [] h, if_neg (by simpa using hne)]
  rfl

theorem splitWsGo_words (s : Text) : ∀ cur : Text, (∀ c ∈ cur, isSpace c = false) →
    ∀ w ∈ splitWsGo cur s, w ≠ [] ∧ ∀ c ∈ w, isSpace c = false := by
  have hlast : ∀ cur : Text, (∀ c ∈ cur, isSpace c = false) → cur.isEmpty = false →
      cur.reverse ≠ [] ∧ ∀ c ∈ cur.reverse, isSpace c = false := fun cur hcur hempty =>
    ⟨by simpa using hempty, fun c hc => hcur c (List.mem_reverse.mp hc)⟩
  induction s with
  | nil =>
    intro cur hcur w hw
    unfold splitWsGo at hw
    split at hw
    · cases hw
    · next hempty =>
      obtain rfl := List.mem_singleton.mp hw
      exact hlast cur hcur (by simpa using hempty)
  | cons d s ih =>
    intro cur hcur w hw
    unfold splitWsGo at hw
    split at hw
    · split at hw
      · exact ih [] (fun _ hc => nomatch hc) w hw
      · next hempty =>
        rcases List.mem_cons.mp hw with rfl | hw
        · exact hlast cur hcur (by simpa using hempty)
        · exact ih [] (fun _ hc => nomatch hc) w hw
    · next hd => exact ih (d :: cur) (List.forall_mem_cons.mpr ⟨by simpa using hd, hcur⟩) w hw

/-- The words of a text are words. -/
theorem mem_splitWs {s w : Text} (h : w ∈ splitWs s) : w ≠ [] ∧ ∀ c ∈ w, isSpace c = false :=
  splitWsGo_words s [] (fun _ hc => nomatch hc) w h

/-- White space in front does not matter. -/
theorem splitWs_spaces_append {a : Text} (ha : ∀ c ∈ a, isSpace c = true) (s : Text) :
    splitWs (a ++ s) = splitWs s := by
  induction a with
  | nil => rfl
  | cons c a ih =>
    have hc := splitWs_append (ha c List.mem_cons_self) [] (a ++ s)
    exact hc.trans (ih fun d hd => ha d (List.mem_cons_of_mem c hd))

theorem splitWs_spaces {a : Text} (ha : ∀ c ∈ a, isSpace c = true) : splitWs a = [] := by
  have := splitWs_spaces_append ha []
  rwa [List.append_nil] at this

/-- The first word of a text. -/
theorem splitWs_word_append {w : Text} (hne : w ≠ []) (hw : ∀ c ∈ w, isSpace c = false) {c : Char}
    (hc : isSpace c = true) (s : Text) : splitWs (w ++ c :: s) = w :: splitWs s := by
  rw [splitWs_append hc, splitWs_word hne hw]
  rfl

/-- A text that starts with a letter, up to its first word. -/
theorem exists_first_word {c : Char} (hc : isSpace c = false) (s : Text) :
    ∃ w rest, c :: s = (c :: w) ++ rest ∧ (∀ d ∈ c :: w, isSpace d = false) ∧
      splitWs (c :: s) = (c :: w) :: splitWs rest ∧ ∀ d ∈ rest.head?, isSpace d = true := by
  have hword : ∀ d ∈ c :: s.takeWhile (fun d => !isSpace d), isSpace d = false := by
    intro d hd
    rcases List.mem_cons.mp hd with rfl | hd
    · exact hc
    · simpa using List.mem_takeWhile_imp hd
  have hsplit : c :: s =
      (c :: s.takeWhile fun d => !isSpace d) ++ s.dropWhile fun d => !isSpace d := by
    rw [List.cons_append, List.takeWhile_append_dropWhile]
  refine ⟨s.takeWhile fun d => !isSpace d, s.dropWhile fun d => !isSpace d, hsplit, hword, ?_, ?_⟩
  · conv_lhs => rw [hsplit]
    cases hrest : s.dropWhile fun d => !isSpace d with
    | nil =>
      rw [List.append_nil, splitWs_word (List.cons_ne_nil _ _) hword]
      rfl
    | cons d rest =>
      have hd := List.head?_dropWhile_not (fun d => !isSpace d) s
      rw [hrest] at hd
      have hd' : isSpace d = true := by simpa using hd
      rw [splitWs_word_append (List.cons_ne_nil _ _) hword hd']
      have := splitWs_append hd' [] rest
      rw [List.nil_append] at this
      rw [this]
      rfl
  · intro d hd
    have hnot := List.head?_dropWhile_not (fun d => !isSpace d) s
    rw [hd] at hnot
    simpa using hnot

theorem splitWs_ne_nil {c : Char} (hc : isSpace c = false) (s : Text) : splitWs (c :: s) ≠ [] := by
  obtain ⟨w, rest, -, -, hsplit, -⟩ := exists_first_word hc s
  rw [hsplit]
  exact List.cons_ne_nil _ _

/-- Only white space has no word. -/
theorem isSpace_of_splitWs_nil {s : Text} (h : splitWs s = []) : ∀ c ∈ s, isSpace c = true := by
  induction s with
  | nil => exact fun c hc => nomatch hc
  | cons d s ih =>
    cases hd : isSpace d with
    | false => exact absurd h (splitWs_ne_nil hd s)
    | true =>
      have hs : splitWs (d :: s) = splitWs [] ++ splitWs s := splitWs_append hd [] s
      intro c hc
      rcases List.mem_cons.mp hc with rfl | hc
      · exact hd
      · exact ih (hs.symm.trans h) c hc

/-- A right-stripped text that starts with a letter and has one word is that word. -/
theorem eq_of_splitWs_singleton {c : Char} {s w : Text} (hc : isSpace c = false)
    (hstrip : rstrip (c :: s) = c :: s) (h : splitWs (c :: s) = [w]) : c :: s = w := by
  obtain ⟨v, rest, hs, hv, hsplit, -⟩ := exists_first_word hc s
  rw [h] at hsplit
  obtain ⟨rfl, hnil⟩ := List.cons_eq_cons.mp hsplit
  have hspaces := isSpace_of_splitWs_nil hnil.symm
  have hword : rstrip (c :: v) = c :: v :=
    rstrip_append_word (List.cons_ne_nil _ _) hv []
  rw [hs, rstrip_append_spaces hspaces, hword] at hstrip
  rw [hs]
  exact hstrip.symm

/-! ## Lemmas: searching -/

theorem isPrefixOf_cons_of_ne {o c : Char} (hne : c ≠ o) (old s : Text) :
    (o :: old).isPrefixOf (c :: s) = false := by
  simp [List.isPrefixOf, Ne.symm hne]

/-- Letters before the first letter of the pattern are passed. -/
theorem replace_append_of_notMem {o : Char} {old new : Text} (pre s : Text) (h : o ∉ pre) :
    replace (o :: old) new (pre ++ s) = pre ++ replace (o :: old) new s := by
  induction pre with
  | nil => rfl
  | cons c pre ih =>
    have hc : c ≠ o := fun hc => h (hc ▸ List.mem_cons_self)
    have hpre : o ∉ pre := fun hm => h (List.mem_cons_of_mem c hm)
    have hgo : replace (o :: old) new (c :: (pre ++ s)) =
        c :: replace (o :: old) new (pre ++ s) := by
      simp only [replace, replaceGo, isPrefixOf_cons_of_ne hc, Bool.false_eq_true,
        if_false]
    rw [List.cons_append, hgo, ih hpre, List.cons_append]

theorem replaceGo_skip (old new s : Text) :
    ∀ x : Text, replaceGo old new x.length (x ++ s) = replaceGo old new 0 s := by
  intro x
  induction x with
  | nil => rfl
  | cons c x ih => exact ih

theorem replace_self {o : Char} {old new : Text} (s : Text) :
    replace (o :: old) new ((o :: old) ++ s) = new ++ replace (o :: old) new s := by
  have hp : (o :: old).isPrefixOf (o :: (old ++ s)) = true := by
    simp [List.isPrefixOf_iff_prefix]
  simp only [replace, List.cons_append, replaceGo, hp, if_true, List.length_cons,
    Nat.add_sub_cancel]
  rw [replaceGo_skip]

theorem replace_of_notMem {o : Char} {old new s : Text} (h : o ∉ s) :
    replace (o :: old) new s = s := by
  have := @replace_append_of_notMem o old new s [] h
  simpa [replace, replaceGo] using this

/-- A letter of the pattern is missing. -/
theorem replace_of_notMem_letter {o : Char} {old new s : Text} (ho : o ∈ old) (h : o ∉ s) :
    replace old new s = s := by
  induction s with
  | nil => rfl
  | cons c s ih =>
    have hp : old.isPrefixOf (c :: s) = false := by
      rw [← Bool.not_eq_true, List.isPrefixOf_iff_prefix]
      exact fun hstart => h (hstart.subset ho)
    have hgo : replace old new (c :: s) = c :: replace old new s := by
      simp only [replace, replaceGo, hp, Bool.false_eq_true, if_false]
    rw [hgo, ih fun hm => h (List.mem_cons_of_mem c hm)]

/-- The same when only the second letter is missing, up to a text with another first letter. -/
theorem replace_append_of_notMem_second {o₁ o₂ c : Char} {old new : Text} (pre s : Text)
    (h : o₂ ∉ pre) (hc : c ≠ o₂) :
    replace (o₁ :: o₂ :: old) new (pre ++ c :: s) =
      pre ++ replace (o₁ :: o₂ :: old) new (c :: s) := by
  induction pre with
  | nil => rfl
  | cons d pre ih =>
    have hsecond : ∃ e rest, pre ++ c :: s = e :: rest ∧ e ≠ o₂ := by
      cases pre with
      | nil => exact ⟨c, s, rfl, hc⟩
      | cons e pre => exact ⟨e, pre ++ c :: s, rfl, fun he => h (by simp [he])⟩
    obtain ⟨e, rest, hrest, he⟩ := hsecond
    have hgo : replace (o₁ :: o₂ :: old) new (d :: (pre ++ c :: s)) =
        d :: replace (o₁ :: o₂ :: old) new (pre ++ c :: s) := by
      have hp : (o₁ :: o₂ :: old).isPrefixOf (d :: (pre ++ c :: s)) = false := by
        simp [hrest, List.isPrefixOf, Ne.symm he]
      simp only [replace, replaceGo, hp, Bool.false_eq_true, if_false]
    rw [List.cons_append, hgo, ih fun hm => h (List.mem_cons_of_mem d hm), List.cons_append]

theorem splitOnGo_skip (sep s cur : Text) :
    ∀ x : Text, splitOnGo sep x.length cur (x ++ s) = splitOnGo sep 0 cur s := by
  intro x
  induction x with
  | nil => rfl
  | cons c x ih => exact ih

theorem splitOnGo_of_notMem {o : Char} {sep : Text} (s : Text) :
    ∀ (pre cur : Text), o ∉ pre →
      splitOnGo (o :: sep) 0 cur (pre ++ s) = splitOnGo (o :: sep) 0 (pre.reverse ++ cur) s := by
  intro pre
  induction pre with
  | nil => exact fun cur _ => rfl
  | cons c pre ih =>
    intro cur h
    have hc : c ≠ o := fun hc => h (hc ▸ List.mem_cons_self)
    simp only [List.cons_append, splitOnGo, isPrefixOf_cons_of_ne hc, Bool.false_eq_true,
      if_false]
    rw [ih _ fun hm => h (List.mem_cons_of_mem c hm)]
    simp

/-- The piece in front of the first separator. -/
theorem splitOn_append {o : Char} {sep : Text} {pre : Text} (h : o ∉ pre) (s : Text) :
    splitOn (o :: sep) (pre ++ o :: (sep ++ s)) = pre :: splitOn (o :: sep) s := by
  have hp : (o :: sep).isPrefixOf (o :: (sep ++ s)) = true := by
    simp [List.isPrefixOf_iff_prefix]
  unfold splitOn
  rw [splitOnGo_of_notMem _ pre [] h]
  simp only [splitOnGo, hp, if_true, List.length_cons, Nat.add_sub_cancel]
  rw [splitOnGo_skip]
  simp

/-- The same, where the first letter of the separator is once in front without starting one. -/
theorem splitOn_append_cons {o : Char} {sep u v : Text} (hu : o ∉ u) (hv : o ∉ v) (s : Text)
    (hp : ¬ o :: sep <+: o :: (v ++ o :: (sep ++ s))) :
    splitOn (o :: sep) (u ++ o :: (v ++ o :: (sep ++ s))) =
      (u ++ o :: v) :: splitOn (o :: sep) s := by
  have hp' : (o :: sep).isPrefixOf (o :: (v ++ o :: (sep ++ s))) = false := by
    rw [← Bool.not_eq_true, List.isPrefixOf_iff_prefix]
    exact hp
  have hs : (o :: sep).isPrefixOf (o :: (sep ++ s)) = true := by
    simp [List.isPrefixOf_iff_prefix]
  unfold splitOn
  rw [splitOnGo_of_notMem _ u [] hu]
  simp only [splitOnGo, hp', Bool.false_eq_true, if_false]
  rw [splitOnGo_of_notMem _ v _ hv]
  simp only [splitOnGo, hs, if_true, List.length_cons, Nat.add_sub_cancel]
  rw [splitOnGo_skip]
  simp

theorem splitOn_of_notMem {o : Char} {sep s : Text} (h : o ∉ s) : splitOn (o :: sep) s = [s] := by
  have := @splitOnGo_of_notMem o sep [] s [] h
  simpa [splitOn, splitOnGo] using this

theorem exists_splitOnGo (sep s : Text) :
    ∀ (skip : Nat) (cur : Text), ∃ b more, splitOnGo sep skip cur s = b :: more := by
  induction s with
  | nil => exact fun _ cur => ⟨cur.reverse, [], by simp [splitOnGo]⟩
  | cons c s ih =>
    intro skip cur
    cases skip with
    | succ skip => exact ih skip cur
    | zero =>
      unfold splitOnGo
      split
      · exact ⟨_, _, rfl⟩
      · exact ih 0 (c :: cur)

theorem splitOnGo_cases {sep : Text} (hsep : sep ≠ []) (s : Text) :
    ∀ cur, (¬ sep <:+: s ∧ splitOnGo sep 0 cur s = [cur.reverse ++ s]) ∨
      ∃ a b more, splitOnGo sep 0 cur s = (cur.reverse ++ a) :: b :: more ∧ a ++ sep <+: s := by
  induction s with
  | nil => exact fun cur => .inl ⟨fun h => hsep (List.infix_nil.mp h), by simp [splitOnGo]⟩
  | cons c s ih =>
    intro cur
    by_cases hp : sep.isPrefixOf (c :: s) = true
    · obtain ⟨b, more, hmore⟩ := exists_splitOnGo sep s (sep.length - 1) []
      refine .inr ⟨[], b, more, ?_, List.isPrefixOf_iff_prefix.mp hp⟩
      simp only [splitOnGo, hp, if_true, List.append_nil, hmore]
    · have hgo : splitOnGo sep 0 cur (c :: s) = splitOnGo sep 0 (c :: cur) s := by
        simp only [splitOnGo, hp, Bool.false_eq_true, if_false]
      rw [hgo]
      rcases ih (c :: cur) with ⟨hinside, hsplit⟩ | ⟨a, b, more, hsplit, hstart⟩
      · refine .inl ⟨fun h => ?_, by simp [hsplit]⟩
        rcases List.infix_cons_iff.mp h with h | h
        · exact hp (List.isPrefixOf_iff_prefix.mpr h)
        · exact hinside h
      · exact .inr ⟨c :: a, b, more, by simp [hsplit], List.cons_prefix_cons.mpr ⟨rfl, hstart⟩⟩

/-- One piece, or a first piece with the separator behind it and more pieces. -/
theorem splitOn_cases {sep : Text} (hsep : sep ≠ []) (s : Text) :
    (¬ sep <:+: s ∧ splitOn sep s = [s]) ∨
      ∃ a b more, splitOn sep s = a :: b :: more ∧ a ++ sep <+: s :=
  splitOnGo_cases hsep s []

theorem splitOnGo_first {sep p : Text} {more : List Text} (hsep : sep ≠ []) :
    ∀ (s a cur : Text), splitOnGo sep 0 cur s = p :: more → a ++ sep <+: s →
      p.length ≤ cur.length + a.length := by
  intro s
  induction s with
  | nil =>
    intro a cur _ hstart
    exact absurd (List.append_eq_nil_iff.mp (List.prefix_nil.mp hstart)).2 hsep
  | cons c s ih =>
    intro a cur hsplit hstart
    by_cases hp : sep.isPrefixOf (c :: s) = true
    · simp only [splitOnGo, hp, if_true, List.cons.injEq] at hsplit
      rw [← hsplit.1, List.length_reverse]
      omega
    · simp only [splitOnGo, hp, Bool.false_eq_true, if_false] at hsplit
      cases a with
      | nil => exact absurd (List.isPrefixOf_iff_prefix.mpr hstart) hp
      | cons d a =>
        have hle := ih a (c :: cur) hsplit (List.cons_prefix_cons.mp hstart).2
        simp only [List.length_cons] at hle ⊢
        omega

/-- No separator is in front of the one behind the first piece. -/
theorem splitOn_first {sep s p a : Text} {more : List Text} (hsep : sep ≠ [])
    (h : splitOn sep s = p :: more) (hstart : a ++ sep <+: s) : p.length ≤ a.length := by
  have := splitOnGo_first hsep s a [] h hstart
  rwa [List.length_nil, Nat.zero_add] at this

/-- The first piece is the whole text only if it is the one piece. -/
theorem splitOn_eq_self_cons {sep s a : Text} {more : List Text} (hsep : sep ≠ [])
    (h : splitOn sep s = a :: more) : a = s ↔ more = [] := by
  rcases splitOn_cases hsep s with ⟨-, hsplit⟩ | ⟨a', b, more', hsplit, hstart⟩
  · rw [hsplit, List.cons.injEq] at h
    exact iff_of_true h.1.symm h.2.symm
  · rw [hsplit, List.cons.injEq] at h
    obtain ⟨rfl, rfl⟩ := h
    refine iff_of_false ?_ (List.cons_ne_nil _ _)
    rintro rfl
    have hle := hstart.length_le
    have hpos := List.length_pos_iff.mpr hsep
    rw [List.length_append] at hle
    omega

theorem hasSub_of_notMem {o : Char} {sub s : Text} (ho : o ∈ sub) (h : o ∉ s) :
    hasSub sub s = false := decide_eq_false fun hinside => h (hinside.subset ho)

/-! ## Lemmas: files -/

theorem isSpace_of_isNewline {c : Char} (h : isNewline c = true) : isSpace c = true := by
  simp only [isNewline, Bool.or_eq_true, beq_iff_eq] at h
  rcases h with rfl | rfl <;> rfl

theorem isNewline_of_not_isSpace {c : Char} (h : isSpace c = false) : isNewline c = false := by
  cases hnl : isNewline c with
  | false => rfl
  | true =>
    rw [isSpace_of_isNewline hnl] at h
    cases h

theorem readlinesGo_append (s : Text) : ∀ (a : Text) (cr : Bool) (cur : Text),
    readlinesGo cr cur (a ++ '\n' :: s) = readlinesGo cr cur (a ++ ['\n']) ++ readlines s := by
  intro a
  induction a with
  | nil =>
    intro cr cur
    cases cr <;> rfl
  | cons c a ih =>
    intro cr cur
    simp only [List.cons_append, readlinesGo]
    split
    · exact ih false []
    · split
      · rw [ih, List.cons_append]
      · exact ih false (c :: cur)

/-- A written line ends the last line that is read from it. -/
theorem readlines_append (a s : Text) :
    readlines (a ++ '\n' :: s) = readlines (a ++ ['\n']) ++ readlines s :=
  readlinesGo_append s a false []

theorem readlinesGo_of_notNewline (s : Text) : ∀ (a cur : Text), (∀ c ∈ a, isNewline c = false) →
    readlinesGo false cur (a ++ s) = readlinesGo false (a.reverse ++ cur) s := by
  intro a
  induction a with
  | nil => exact fun cur _ => rfl
  | cons c a ih =>
    intro cur h
    have hc : isNewline c = false := h c List.mem_cons_self
    simp only [List.cons_append, readlinesGo, Bool.false_and, Bool.false_eq_true, if_false, hc]
    rw [ih _ fun d hd => h d (List.mem_cons_of_mem c hd)]
    simp

/-- The first line of a text. -/
theorem readlines_newline {a : Text} {c : Char} (h : ∀ d ∈ a, isNewline d = false)
    (hc : isNewline c = true) (s : Text) :
    readlines (a ++ c :: s) = (a ++ ['\n']) :: readlinesGo (c == '\r') [] s := by
  unfold readlines
  rw [readlinesGo_of_notNewline _ a [] h]
  simp only [readlinesGo, Bool.false_and, Bool.false_eq_true, if_false, hc, if_true]
  simp

theorem readlinesGo_spaces : ∀ (w : Text) (cr : Bool) (cur : Text), (∀ c ∈ w, isSpace c = true) →
    (∀ c ∈ cur, isSpace c = true) →
      ∀ line ∈ readlinesGo cr cur (w ++ ['\n']), ∀ c ∈ line, isSpace c = true := by
  intro w
  induction w with
  | nil =>
    intro cr cur _ hcur line hline c hc
    cases cr with
    | true => cases hline
    | false =>
      obtain rfl := List.mem_singleton.mp hline
      rcases List.mem_cons.mp (List.mem_reverse.mp hc) with rfl | hc
      · rfl
      · exact hcur c hc
  | cons d w ih =>
    intro cr cur hw hcur line hline
    have hd := hw d List.mem_cons_self
    have hw' : ∀ c ∈ w, isSpace c = true := fun c hc => hw c (List.mem_cons_of_mem d hc)
    simp only [List.cons_append, readlinesGo] at hline
    split at hline
    · exact ih false [] hw' (fun c hc => nomatch hc) line hline
    · split at hline
      · rcases List.mem_cons.mp hline with rfl | hline
        · intro c hc
          rcases List.mem_cons.mp (List.mem_reverse.mp hc) with rfl | hc
          · rfl
          · exact hcur c hc
        · exact ih _ [] hw' (fun c hc => nomatch hc) line hline
      · refine ih false (d :: cur) hw' (fun c hc => ?_) line hline
        rcases List.mem_cons.mp hc with rfl | hc
        · exact hd
        · exact hcur c hc

theorem readlinesGo_trailing : ∀ (w cur : Text), (∀ c ∈ w, isSpace c = true) →
    ∃ w' more, readlinesGo false cur (w ++ ['\n']) = (cur.reverse ++ w') :: more ∧
      (∀ c ∈ w', isSpace c = true) ∧ ∀ line ∈ more, ∀ c ∈ line, isSpace c = true := by
  intro w
  induction w with
  | nil => exact fun cur _ => ⟨['\n'], [], by simp [readlinesGo], by decide, fun _ h => nomatch h⟩
  | cons d w ih =>
    intro cur hw
    have hw' : ∀ c ∈ w, isSpace c = true := fun c hc => hw c (List.mem_cons_of_mem d hc)
    cases hd : isNewline d with
    | true =>
      refine ⟨['\n'], readlinesGo (d == '\r') [] (w ++ ['\n']), ?_, by decide,
        readlinesGo_spaces w _ [] hw' fun c hc => nomatch hc⟩
      simp [readlinesGo, hd]
    | false =>
      obtain ⟨w', more, hgo, hspaces, hmore⟩ := ih (d :: cur) hw'
      refine ⟨d :: w', more, ?_, fun c hc => ?_, hmore⟩
      · simp only [List.cons_append, readlinesGo, Bool.false_and, Bool.false_eq_true, if_false, hd]
        rw [hgo]
        simp
      · rcases List.mem_cons.mp hc with rfl | hc
        · exact hw c List.mem_cons_self
        · exact hspaces c hc

/-- A written line is read as one line and blank ones, if it has line ends only at its end. -/
theorem readlines_line {a : Text} (h : ∀ c ∈ rstrip a, isNewline c = false) :
    ∃ first more, readlines (a ++ ['\n']) = first :: more ∧ rstrip first = rstrip a ∧
      ∀ line ∈ more, rstrip line = [] := by
  obtain ⟨w, ha, hw⟩ := exists_rstrip a
  obtain ⟨w', more, hgo, hw', hmore⟩ := readlinesGo_trailing w (rstrip a).reverse hw
  refine ⟨rstrip a ++ w', more, ?_, ?_, fun line hline => rstrip_spaces (hmore line hline)⟩
  · have hread : readlines (rstrip a ++ (w ++ ['\n'])) =
        readlinesGo false ((rstrip a).reverse ++ []) (w ++ ['\n']) :=
      readlinesGo_of_notNewline _ _ [] h
    rw [List.append_nil, hgo, List.reverse_reverse, ← List.append_assoc, ← ha] at hread
    exact hread
  · rw [rstrip_append_spaces hw', ← rstrip_append_spaces hw (rstrip a), ← ha]

/-! ## Lemmas: numbers -/

theorem digitValue_of_isAsciiDigit {c : Char} (h : isAsciiDigit c = true) :
    digitValue c = some (c.toNat - 48) := by
  simp only [isAsciiDigit, Bool.and_eq_true, decide_eq_true_eq] at h
  have hlt : c.toNat < 48 + 10 := by omega
  simp [digitValue, zeros, h.1, hlt]

theorem exists_numeralValue {s : Text} (h : ∀ c ∈ s, (digitValue c).isSome = true) :
    ∀ acc : Nat, ∃ n, numeralValue acc s = some n := by
  induction s with
  | nil => exact fun acc => ⟨acc, rfl⟩
  | cons c s ih =>
    intro acc
    obtain ⟨d, hd⟩ := Option.isSome_iff_exists.mp (h c List.mem_cons_self)
    obtain ⟨n, hn⟩ := ih (fun c' hc' => h c' (List.mem_cons_of_mem c hc')) (acc * 10 + d)
    refine ⟨n, ?_⟩
    rw [numeralValue, hd]
    exact hn

/-- `int` reads what `isdigit` lets through. -/
theorem exists_pyInt {s : Text} (h : isDigit s = true) : ∃ n, pyInt s = some n := by
  simp only [isDigit, Bool.and_eq_true, Bool.not_eq_true', List.all_eq_true] at h
  obtain ⟨n, hn⟩ := exists_numeralValue h.2 0
  refine ⟨n, ?_⟩
  unfold pyInt
  rw [h.1]
  exact hn

theorem isDigit_of_digits {s : Text} (hne : s ≠ []) (h : ∀ c ∈ s, isAsciiDigit c = true) :
    isDigit s = true := by
  unfold isDigit
  rw [Bool.and_eq_true, List.all_eq_true]
  refine ⟨by simpa using hne, fun c hc => ?_⟩
  rw [digitValue_of_isAsciiDigit (h c hc)]
  rfl

theorem numeralValue_eq (s : Text) : ∀ acc : Nat, (∀ c ∈ s, isAsciiDigit c = true) →
    numeralValue acc s = some (Nat.ofDigitChars 10 s acc) := by
  induction s with
  | nil => exact fun acc _ => by simp [numeralValue]
  | cons c s ih =>
    intro acc h
    rw [numeralValue, digitValue_of_isAsciiDigit (h c List.mem_cons_self), Option.bind_some,
      ih _ fun d hd => h d (List.mem_cons_of_mem c hd), Nat.ofDigitChars_cons, Nat.mul_comm]
    rfl

theorem natText_injective {m n : Nat} (h : natText m = natText n) : m = n := by
  have := congrArg (fun l => Nat.ofDigitChars 10 l 0) h
  simpa [natText] using this

theorem natText_ne_nil (n : Nat) : natText n ≠ [] := Nat.toDigits_ne_nil

theorem isAsciiDigit_of_mem_natText {n : Nat} {c : Char} (h : c ∈ natText n) :
    isAsciiDigit c = true := by
  have := Nat.isDigit_of_mem_toDigits (by decide) (by decide) h
  simp only [Char.isDigit, Bool.and_eq_true, decide_eq_true_eq] at this
  obtain ⟨h1, h2⟩ := this
  have h1' : 48 ≤ c.toNat := h1
  have h2' : c.toNat ≤ 57 := h2
  simp [isAsciiDigit, h1', h2']

theorem pyInt_natText (n : Nat) : pyInt (natText n) = some n := by
  have hvalue := numeralValue_eq (natText n) 0 fun c hc => isAsciiDigit_of_mem_natText hc
  unfold pyInt
  rw [if_neg (by simpa using natText_ne_nil n), hvalue]
  simp [natText]

theorem isSpace_of_isAsciiDigit {c : Char} (h : isAsciiDigit c = true) : isSpace c = false := by
  simp only [isAsciiDigit, Bool.and_eq_true, decide_eq_true_eq] at h
  obtain ⟨h1, h2⟩ := h
  simp only [isSpace, Bool.or_eq_false_iff, Bool.and_eq_false_iff, decide_eq_false_iff_not,
    beq_eq_false_iff_ne]
  omega

theorem isSpace_of_mem_natText {n : Nat} {c : Char} (h : c ∈ natText n) : isSpace c = false :=
  isSpace_of_isAsciiDigit (isAsciiDigit_of_mem_natText h)

theorem splitWs_natText (n : Nat) : splitWs (natText n) = [natText n] :=
  splitWs_word (natText_ne_nil n) fun _ hc => isSpace_of_mem_natText hc

end Py
