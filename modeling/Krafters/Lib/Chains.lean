import Mathlib.Data.List.Chain
import Mathlib.Data.List.Infix

/-!
# Chains

Lists in which each element follows from the one before it.  Where the elements carry consecutive
numbers, a number tells the place:

    i = number of the first + n  →  drop n = filter (i ≤ number)

Where an element determines the one before it, two chains to the same element agree as far back
as both reach.
-/

namespace Chains

variable {α : Type}

section Consecutive

variable {idx : α → ℕ} {l before after : List α} {first x : α}

theorem idx_eq (h : (before ++ x :: after).IsChain fun x y => idx y = idx x + 1)
    (hfirst : (before ++ x :: after).head? = some first) :
    idx x = idx first + before.length := by
  induction before generalizing first with
  | nil =>
    cases hfirst
    rfl
  | cons y before ih =>
    obtain rfl := Option.some_inj.mp hfirst
    cases hb : before ++ x :: after with
    | nil => exact absurd hb (List.append_ne_nil_of_right_ne_nil _ (List.cons_ne_nil _ _))
    | cons z l =>
      rw [List.cons_append, hb, List.isChain_cons_cons] at h
      have hx := ih (hb ▸ h.2) (by rw [hb]; rfl)
      rw [List.length_cons]
      omega

/-- The elements from a number on are found by their place. -/
theorem drop_eq_filter (h : l.IsChain fun x y => idx y = idx x + 1)
    (hfirst : l.head? = some first) (i : ℕ) :
    l.drop (i - idx first) = l.filter (i ≤ idx ·) := by
  have place (before after : List α) (x : α) (heq : before ++ x :: after = l) :
      idx x = idx first + before.length := by
    subst heq
    exact idx_eq h hfirst
  have htake : (l.take (i - idx first)).filter (i ≤ idx ·) = [] := by
    rw [List.filter_eq_nil_iff]
    intro x hx hi
    obtain ⟨before, after, heq⟩ := List.append_of_mem hx
    have hlen := congrArg List.length heq
    rw [List.length_take, List.length_append, List.length_cons] at hlen
    have hidx := place before (after ++ l.drop (i - idx first)) x
      (by rw [← List.cons_append, ← List.append_assoc, ← heq, List.take_append_drop])
    have hi := of_decide_eq_true hi
    omega
  have hdrop : (l.drop (i - idx first)).filter (i ≤ idx ·) = l.drop (i - idx first) := by
    rw [List.filter_eq_self]
    intro x hx
    obtain ⟨before, after, heq⟩ := List.append_of_mem hx
    have hidx := place (l.take (i - idx first) ++ before) after x
      (by rw [List.append_assoc, ← heq, List.take_append_drop])
    have hlen := congrArg List.length heq
    rw [List.length_drop, List.length_append, List.length_cons] at hlen
    rw [List.length_append, List.length_take] at hidx
    exact decide_eq_true (by omega)
  conv_rhs => rw [← List.take_append_drop (i - idx first) l, List.filter_append]
  rw [htake, hdrop, List.nil_append]

end Consecutive

section Past

variable {r : α → α → Prop} {l l' : List α} {x : α}

/-- **Two chains to the same element** are one the end of the other. -/
theorem suffix_or_suffix (h : (l ++ [x]).IsChain r) (h' : (l' ++ [x]).IsChain r)
    (past : ∀ y ∈ l, ∀ y' ∈ l', ∀ z, r y z → r y' z → y = y') : l <:+ l' ∨ l' <:+ l := by
  have link {l : List α} {y x : α} (h : (l ++ [y] ++ [x]).IsChain r) : r y x :=
    (List.isChain_append.mp h).2.2 y List.getLast?_concat x rfl
  -- from the common element back
  induction l using List.reverseRecOn generalizing l' x with
  | nil => exact .inl List.nil_suffix
  | append_singleton l y ih =>
    rcases List.eq_nil_or_concat l' with rfl | ⟨l', y', rfl⟩
    · exact .inr List.nil_suffix
    · rw [List.concat_eq_append] at *
      obtain rfl : y = y' := past y (by simp) y' (by simp) x (link h) (link h')
      have hpast : ∀ z ∈ l, ∀ z' ∈ l', ∀ x, r z x → r z' x → z = z' := fun z hz z' hz' =>
        past z (List.mem_append_left _ hz) z' (List.mem_append_left _ hz')
      refine (ih h.left_of_append h'.left_of_append hpast).imp ?_ ?_
      · rintro ⟨k, rfl⟩
        exact ⟨k, (List.append_assoc ..).symm⟩
      · rintro ⟨k, rfl⟩
        exact ⟨k, (List.append_assoc ..).symm⟩

end Past

end Chains
