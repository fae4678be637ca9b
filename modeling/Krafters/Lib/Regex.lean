import Mathlib.Computability.Language
import Krafters.Lib.Text

/-!
# Regular expressions matched at the start of a text

`Regex` has character classes instead of single letters.  `lang` is its language;
`rests r s` lists what can remain of `s` after a prefix in that language, and
`matchAt r s` is the truth value of Python's `re.match`:

    t ∈ rests r s ↔ ∃ p ∈ lang r, p ++ t = s                  (mem_rests)
    matchAt r s = true ↔ ∃ p ∈ lang r, p <+: s                 (matchAt_iff)

Backtracking order decides which prefix a group captures, never whether there is
one, so the language is all that `match` tells a caller who reads no group.
-/

open Py

inductive Regex
  | eps
  | cls (p : Char → Bool)
  | seq (r s : Regex)
  | alt (r s : Regex)
  | star (r : Regex)

namespace Regex

/-! ## Syntax used in patterns -/

/-- A literal text. -/
def lit : Text → Regex
  | [] => eps
  | c :: s => seq (cls (· == c)) (lit s)

def plus (r : Regex) : Regex := seq r (star r)

def opt (r : Regex) : Regex := alt r eps

/-- A sequence of parts. -/
def parts : List Regex → Regex
  | [] => eps
  | r :: rs => seq r (parts rs)

/-! ## Meaning -/

def lang : Regex → Language Char
  | eps => 1
  | cls p => {s | ∃ c, p c = true ∧ s = [c]}
  | seq r s => lang r * lang s
  | alt r s => lang r + lang s
  | star r => KStar.kstar (lang r)

/-- Repeats `f` while it shortens the text, at most `n` times. -/
def starRests (f : Text → List Text) : Nat → Text → List Text
  | 0, s => [s]
  | n + 1, s => s :: ((f s).filter fun t => t.length < s.length).flatMap (starRests f n)

def rests : Regex → Text → List Text
  | eps, s => [s]
  | cls _, [] => []
  | cls p, c :: s => if p c then [s] else []
  | seq r s, t => (rests r t).flatMap (rests s)
  | alt r s, t => rests r t ++ rests s t
  | star r, t => starRests (rests r) t.length t

/-- `re.match(r, s)` is not `None`. -/
def matchAt (r : Regex) (s : Text) : Bool := !(rests r s).isEmpty

/-! ## The matcher is its language -/

@[simp] theorem mem_lang_eps (s : Text) : s ∈ lang eps ↔ s = [] := Language.mem_one s

@[simp] theorem mem_lang_cls (p : Char → Bool) (s : Text) :
    s ∈ lang (cls p) ↔ ∃ c, p c = true ∧ s = [c] := Iff.rfl

@[simp] theorem mem_lang_seq (r s : Regex) (t : Text) :
    t ∈ lang (seq r s) ↔ ∃ a ∈ lang r, ∃ b ∈ lang s, a ++ b = t := Language.mem_mul

@[simp] theorem mem_lang_alt (r s : Regex) (t : Text) :
    t ∈ lang (alt r s) ↔ t ∈ lang r ∨ t ∈ lang s := Language.mem_add _ _ t

theorem mem_lang_star (r : Regex) (s : Text) :
    s ∈ lang (star r) ↔ s = [] ∨ ∃ a ∈ lang r, a ≠ [] ∧ ∃ b ∈ lang (star r), a ++ b = s := by
  constructor
  · intro h
    obtain ⟨L, rfl, hL⟩ := Language.mem_kstar.mp h
    clear h
    induction L with
    | nil => exact Or.inl rfl
    | cons a L ih =>
      have hL' : ∀ y ∈ L, y ∈ lang r := fun y hy => hL y (List.mem_cons_of_mem _ hy)
      have hb : L.flatten ∈ lang (star r) := Language.join_mem_kstar hL'
      by_cases ha : a = []
      · subst ha
        exact ih hL'
      · exact Or.inr ⟨a, hL a List.mem_cons_self, ha, _, hb, rfl⟩
  · rintro (rfl | ⟨a, ha, -, b, hb, rfl⟩)
    · exact Language.nil_mem_kstar _
    · obtain ⟨L, rfl, hL⟩ := Language.mem_kstar.mp hb
      refine Language.mem_kstar.mpr ⟨a :: L, rfl, fun y hy => ?_⟩
      rcases List.mem_cons.mp hy with rfl | hy
      · exact ha
      · exact hL y hy

theorem mem_starRests (r : Regex) (f : Text → List Text)
    (hf : ∀ s t, t ∈ f s ↔ ∃ p ∈ lang r, p ++ t = s) (n : Nat) :
    ∀ s t : Text, s.length ≤ n →
      (t ∈ starRests f n s ↔ ∃ p ∈ lang (star r), p ++ t = s) := by
  induction n with
  | zero =>
    intro s t hn
    have hs : s = [] := List.eq_nil_of_length_eq_zero (by omega)
    subst hs
    simp only [starRests, List.mem_singleton, List.append_eq_nil_iff]
    constructor
    · rintro rfl
      exact ⟨[], Language.nil_mem_kstar _, rfl, rfl⟩
    · rintro ⟨p, -, -, h⟩
      exact h
  | succ n ih =>
    intro s t hn
    simp only [starRests, List.mem_cons, List.mem_flatMap, List.mem_filter, decide_eq_true_eq]
    constructor
    · rintro (rfl | ⟨u, ⟨hu, hlt⟩, ht⟩)
      · exact ⟨[], Language.nil_mem_kstar _, rfl⟩
      · obtain ⟨a, ha, rfl⟩ := (hf s u).mp hu
        obtain ⟨b, hb, rfl⟩ := (ih u t (by omega)).mp ht
        refine ⟨a ++ b, (mem_lang_star r _).mpr (Or.inr ⟨a, ha, ?_, b, hb, rfl⟩),
          List.append_assoc a b t⟩
        rintro rfl
        simp at hlt
    · rintro ⟨p, hp, rfl⟩
      rcases (mem_lang_star r p).mp hp with rfl | ⟨a, ha, hne, b, hb, rfl⟩
      · exact Or.inl rfl
      · have hpos : 0 < a.length := List.length_pos_iff.mpr hne
        have hlen : ((a ++ b) ++ t).length = a.length + (b ++ t).length := by simp
        refine Or.inr ⟨b ++ t, ⟨(hf _ _).mpr ⟨a, ha, by simp⟩, by omega⟩, ?_⟩
        exact (ih _ t (by omega)).mpr ⟨b, hb, rfl⟩

theorem mem_rests (r : Regex) : ∀ s t : Text, t ∈ rests r s ↔ ∃ p ∈ lang r, p ++ t = s := by
  induction r with
  | eps =>
    intro s t
    simp [rests, eq_comm]
  | cls p =>
    intro s t
    cases s with
    | nil => simp [rests]
    | cons c s =>
      by_cases hc : p c = true
      · simp only [rests, hc, if_true, List.mem_singleton, mem_lang_cls]
        constructor
        · rintro rfl
          exact ⟨[c], ⟨c, hc, rfl⟩, rfl⟩
        · rintro ⟨-, ⟨d, -, rfl⟩, h⟩
          simp only [List.cons_append, List.nil_append, List.cons.injEq] at h
          exact h.2
      · simp only [rests, hc, Bool.false_eq_true, if_false, List.not_mem_nil, mem_lang_cls, false_iff]
        rintro ⟨-, ⟨d, hd, rfl⟩, h⟩
        simp only [List.cons_append, List.nil_append, List.cons.injEq] at h
        exact hc (h.1 ▸ hd)
  | seq r1 r2 ih1 ih2 =>
    intro s t
    simp only [rests, List.mem_flatMap, mem_lang_seq]
    constructor
    · rintro ⟨u, hu, ht⟩
      obtain ⟨a, ha, rfl⟩ := (ih1 s u).mp hu
      obtain ⟨b, hb, rfl⟩ := (ih2 u t).mp ht
      exact ⟨a ++ b, ⟨a, ha, b, hb, rfl⟩, by simp⟩
    · rintro ⟨-, ⟨a, ha, b, hb, rfl⟩, rfl⟩
      exact ⟨b ++ t, (ih1 _ _).mpr ⟨a, ha, by simp⟩, (ih2 _ _).mpr ⟨b, hb, rfl⟩⟩
  | alt r1 r2 ih1 ih2 =>
    intro s t
    simp only [rests, List.mem_append, ih1, ih2, mem_lang_alt]
    constructor
    · rintro (⟨p, hp, h⟩ | ⟨p, hp, h⟩)
      · exact ⟨p, Or.inl hp, h⟩
      · exact ⟨p, Or.inr hp, h⟩
    · rintro ⟨p, hp | hp, h⟩
      · exact Or.inl ⟨p, hp, h⟩
      · exact Or.inr ⟨p, hp, h⟩
  | star r ih =>
    intro s t
    exact mem_starRests r (rests r) ih s.length s t (Nat.le_refl _)

theorem matchAt_iff (r : Regex) (s : Text) : matchAt r s = true ↔ ∃ p ∈ lang r, p <+: s := by
  unfold matchAt
  rw [Bool.not_eq_true', List.isEmpty_eq_false_iff_exists_mem]
  constructor
  · rintro ⟨t, ht⟩
    obtain ⟨p, hp, rfl⟩ := (mem_rests r s t).mp ht
    exact ⟨p, hp, List.prefix_append p t⟩
  · rintro ⟨p, hp, t, rfl⟩
    exact ⟨t, (mem_rests r _ t).mpr ⟨p, hp, rfl⟩⟩

/-! ## Membership of the derived forms -/

@[simp] theorem mem_lang_lit (w s : Text) : s ∈ lang (lit w) ↔ s = w := by
  induction w generalizing s with
  | nil => exact mem_lang_eps s
  | cons c w ih =>
    simp only [lit, mem_lang_seq, mem_lang_cls, beq_iff_eq, ih]
    constructor
    · rintro ⟨-, ⟨d, rfl, rfl⟩, b, rfl, rfl⟩
      rfl
    · rintro rfl
      exact ⟨[c], ⟨c, rfl, rfl⟩, w, rfl, rfl⟩

theorem mem_lang_opt (r : Regex) (s : Text) : s ∈ lang (opt r) ↔ s ∈ lang r ∨ s = [] := by
  simp [opt]

theorem nil_mem_lang_star (r : Regex) : ([] : Text) ∈ lang (star r) := Language.nil_mem_kstar _

theorem append_mem_lang_seq {r s : Regex} {a b : Text} (ha : a ∈ lang r) (hb : b ∈ lang s) :
    a ++ b ∈ lang (seq r s) := Language.append_mem_mul ha hb

theorem append_mem_lang_star {r : Regex} {a b : Text} (ha : a ∈ lang r) (hb : b ∈ lang (star r)) :
    a ++ b ∈ lang (star r) := by
  by_cases h : a = []
  · subst h
    exact hb
  · exact (mem_lang_star r _).mpr (Or.inr ⟨a, ha, h, b, hb, rfl⟩)

/-- A class repeated: every letter is in it. -/
theorem mem_lang_star_cls (p : Char → Bool) (s : Text) :
    s ∈ lang (star (cls p)) ↔ ∀ c ∈ s, p c = true := by
  constructor
  · intro h
    obtain ⟨L, rfl, hL⟩ := Language.mem_kstar.mp h
    intro c hc
    obtain ⟨w, hw, hcw⟩ := List.mem_flatten.mp hc
    obtain ⟨d, hd, rfl⟩ := hL w hw
    rw [List.mem_singleton.mp hcw]
    exact hd
  · intro h
    induction s with
    | nil => exact nil_mem_lang_star _
    | cons c s ih =>
      have hc : [c] ∈ lang (cls p) := ⟨c, h c List.mem_cons_self, rfl⟩
      exact append_mem_lang_star hc (ih fun d hd => h d (List.mem_cons_of_mem _ hd))

theorem mem_lang_plus_cls (p : Char → Bool) (s : Text) :
    s ∈ lang (plus (cls p)) ↔ s ≠ [] ∧ ∀ c ∈ s, p c = true := by
  simp only [plus, mem_lang_seq, mem_lang_cls, mem_lang_star_cls]
  constructor
  · rintro ⟨-, ⟨c, hc, rfl⟩, b, hb, rfl⟩
    exact ⟨by simp, by simpa [hc] using hb⟩
  · rintro ⟨hne, h⟩
    cases s with
    | nil => exact absurd rfl hne
    | cons c s =>
      exact ⟨[c], ⟨c, h c List.mem_cons_self, rfl⟩, s,
        fun d hd => h d (List.mem_cons_of_mem _ hd), rfl⟩

/-- A pattern that begins with optional blanks and a keyword matches only texts that do. -/
theorem keyword_of_matchAt (p : Char → Bool) (kw : Text) (r : Regex) (s : Text)
    (hkw : ∀ c ∈ kw.head?, p c = false) (hne : kw ≠ [])
    (h : matchAt (seq (star (cls p)) (seq (lit kw) r)) s = true) : kw <+: s.dropWhile p := by
  obtain ⟨w, hw, t, rfl⟩ := (matchAt_iff _ _).mp h
  simp only [mem_lang_seq, mem_lang_star_cls, mem_lang_lit] at hw
  obtain ⟨a, ha, -, ⟨_, rfl, b, -, rfl⟩, rfl⟩ := hw
  obtain ⟨c, kw', rfl⟩ := List.exists_cons_of_ne_nil hne
  have hc : p c = false := hkw c (by simp)
  have hd : (a ++ (c :: kw' ++ b) ++ t).dropWhile p = c :: kw' ++ (b ++ t) := by
    rw [List.append_assoc, List.dropWhile_append_of_pos ha]
    simp [hc]
  rw [hd]
  exact List.prefix_append _ _

end Regex
