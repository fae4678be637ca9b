import Krafters.Executor.ParserLines

/-!
# What `get_params` makes of a line that a link pattern accepted

The pattern and `get_params` read the same line, each in its own way.  They agree on the ids,
the number and "bidirectional" of every line; on the rule, which is all that stands behind
"set", they agree exactly for the lines with one "set":

    matchAt modifyLinkPattern line → (LinkParamsAgree line ↔ SetOnce line)

since `split("set")` also cuts at a "set" inside the rule, and what follows it is lost.
-/

namespace Executor.Parser

open Py Regex

/-- No text behind a "set" of the line has another one. -/
def SetOnce (line : Text) : Prop :=
  ∀ a b, line = a ++ "set".toList ++ b → ¬ "set".toList <:+: b

/-- A line of the first pattern, and the parameters are its parts. -/
def LinkParamsAgree (line : Text) : Prop :=
  (∃ l : LinkLine, l.text = line ∧ IsRule l.tail) ∧
  ∀ l : LinkLine, l.text = line → IsRule l.tail → ∃ params, getParamsLink line = .ok params ∧
    params.sources = l.sources.ids ∧ params.targets = l.targets.ids ∧
    params.bidirectional = l.both.isSome ∧ strip params.netemCommand = strip l.tail

/-- A line of the second pattern, and the parameters are its parts. -/
def RandomLinkParamsAgree (line : Text) : Prop :=
  (∃ l : RandomLinkLine, l.text = line ∧ IsRule l.tail) ∧
  ∀ l : RandomLinkLine, l.text = line → IsRule l.tail →
    ∃ connectionNumber netemCommand bidirectional,
      getParamsRlink line = .ok (connectionNumber, netemCommand, bidirectional) ∧
      pyInt l.number = some connectionNumber ∧ bidirectional = l.both.isSome ∧
      strip netemCommand = strip l.tail

/-! ## The rule -/

theorem set_ne_nil : "set".toList ≠ [] := by decide

/-- The letters of a "set" inside the rule are not in what is taken for the rule. -/
theorem strip_rule_iff {tail netem : Text} {more : List Text}
    (h : splitOn "set".toList tail = netem :: more) :
    strip netem = strip tail ↔ ¬ "set".toList <:+: tail := by
  constructor
  · intro hstrip
    rcases splitOn_cases set_ne_nil tail with ⟨hnone, -⟩ | ⟨a, b, more', hsplit, rest, hrest⟩
    · exact hnone
    · rw [hsplit, List.cons.injEq] at h
      obtain ⟨rfl, -⟩ := h
      have hcount : letters a = letters tail := by
        rw [← letters_strip, hstrip, letters_strip]
      have hset : letters "set".toList = 3 := by decide
      rw [← hrest, letters_append, letters_append, hset] at hcount
      omega
  · intro hnone
    rcases splitOn_cases set_ne_nil tail with ⟨-, hsplit⟩ | ⟨a, b, more', -, rest, hrest⟩
    · rw [hsplit, List.cons.injEq] at h
      rw [h.1]
    · exact absurd ⟨a, rest, hrest⟩ hnone

/-- The keyword is the first "set", so that a second one is in the rule. -/
theorem setOnce_iff {line front tail : Text} (hline : line = front ++ "set".toList ++ tail)
    (hsplit : splitOn "set".toList line = front :: splitOn "set".toList tail) :
    SetOnce line ↔ ¬ "set".toList <:+: tail := by
  constructor
  · exact fun h => h front tail hline
  · intro h a b hab hset
    have hle : front.length ≤ a.length := splitOn_first set_ne_nil hsplit ⟨b, hab.symm⟩
    have hsuffix : b <:+ tail := by
      have hb : b <:+ line := ⟨a ++ "set".toList, hab.symm⟩
      have htail : tail <:+ line := ⟨front ++ "set".toList, hline.symm⟩
      apply List.suffix_of_suffix_length_le hb htail
      have hlength := congrArg List.length (hline.symm.trans hab)
      simp only [List.length_append] at hlength
      omega
    exact h (hset.trans hsuffix.isInfix)

/-! ## The two patterns -/

theorem LinkLine.setOnce_iff (l : LinkLine) : SetOnce l.text ↔ ¬ "set".toList <:+: l.tail :=
  Parser.setOnce_iff rfl l.splitOn_set

theorem RandomLinkLine.setOnce_iff (l : RandomLinkLine) :
    SetOnce l.text ↔ ¬ "set".toList <:+: l.tail := Parser.setOnce_iff rfl l.splitOn_set

theorem linkParamsAgree_iff {line : Text} (h : matchAt modifyLinkPattern line = true) :
    LinkParamsAgree line ↔ SetOnce line := by
  constructor
  · rintro ⟨⟨l, rfl, hrule⟩, hagree⟩
    obtain ⟨params, hparams, -, -, -, hnetem⟩ := hagree l rfl hrule
    obtain ⟨netem, more, hmore⟩ := splitOn_eq_cons l.tail
    rw [l.params hmore, Except.ok.injEq] at hparams
    rw [← hparams] at hnetem
    exact l.setOnce_iff.mpr ((strip_rule_iff hmore).mp hnetem)
  · intro honce
    refine ⟨exists_linkLine h, ?_⟩
    rintro l rfl hrule
    obtain ⟨netem, more, hmore⟩ := splitOn_eq_cons l.tail
    exact ⟨_, l.params hmore, rfl, rfl, rfl,
      (strip_rule_iff hmore).mpr (l.setOnce_iff.mp honce)⟩

theorem randomLinkParamsAgree_iff {line : Text} (h : matchAt modifyRandomLinkPattern line = true) :
    RandomLinkParamsAgree line ↔ SetOnce line := by
  have hnumber : ∀ l : RandomLinkLine, ∃ n, pyInt l.number = some n := fun l =>
    exists_pyInt (isDigit_of_digits l.digits.1 l.digits.2)
  constructor
  · rintro ⟨⟨l, rfl, hrule⟩, hagree⟩
    obtain ⟨n, netem', both, hparams, -, -, hnetem⟩ := hagree l rfl hrule
    obtain ⟨netem, more, hmore⟩ := splitOn_eq_cons l.tail
    obtain ⟨n', hn'⟩ := hnumber l
    rw [l.params hmore hn', Except.ok.injEq, Prod.mk.injEq, Prod.mk.injEq] at hparams
    obtain ⟨-, rfl, -⟩ := hparams
    exact l.setOnce_iff.mpr ((strip_rule_iff hmore).mp hnetem)
  · intro honce
    refine ⟨exists_randomLinkLine h, ?_⟩
    rintro l rfl hrule
    obtain ⟨netem, more, hmore⟩ := splitOn_eq_cons l.tail
    obtain ⟨n, hn⟩ := hnumber l
    exact ⟨n, netem, _, l.params hmore hn, hn, rfl,
      (strip_rule_iff hmore).mpr (l.setOnce_iff.mp honce)⟩

/-- **The parameters are the parts of the line** that the pattern accepted exactly if the line
has one "set". -/
theorem params_agree_iff (line : Text) :
    ((matchAt modifyLinkPattern line = true → LinkParamsAgree line) ∧
      (matchAt modifyRandomLinkPattern line = true → RandomLinkParamsAgree line)) ↔
    (matchAt modifyLinkPattern line = true ∨ matchAt modifyRandomLinkPattern line = true →
      SetOnce line) := by
  constructor
  · rintro ⟨hlink, hrandom⟩ (h | h)
    · exact (linkParamsAgree_iff h).mp (hlink h)
    · exact (randomLinkParamsAgree_iff h).mp (hrandom h)
  · intro honce
    exact ⟨fun h => (linkParamsAgree_iff h).mpr (honce (.inl h)),
      fun h => (randomLinkParamsAgree_iff h).mpr (honce (.inr h))⟩

/-- "delay 10ms offset 3" is read as "delay 10ms off". -/
theorem params_lose_rule :
    matchAt modifyLinkPattern "from 1 to 2 set delay 10ms offset 3".toList = true ∧
    getParamsLink "from 1 to 2 set delay 10ms offset 3".toList =
      .ok ⟨["1".toList], ["2".toList], " delay 10ms off".toList, false⟩ ∧
    ¬ LinkParamsAgree "from 1 to 2 set delay 10ms offset 3".toList := by
  have hmatch : matchAt modifyLinkPattern "from 1 to 2 set delay 10ms offset 3".toList = true := by
    decide +kernel
  refine ⟨hmatch, by decide +kernel, fun hagree => ?_⟩
  have honce := (linkParamsAgree_iff hmatch).mp hagree
  exact honce "from 1 to 2 ".toList " delay 10ms offset 3".toList (by decide +kernel)
    ⟨" delay 10ms off".toList, " 3".toList, by decide +kernel⟩

end Executor.Parser
