import Mathlib.Data.List.Basic

/-!
# Serialisation

A `Pickle` turns values into bytes and back:

    loads (dumps a) = some a

What other bytes load as, it does not say.  `unary` writes lists of numbers with two letters, and
`via` writes values as such lists.
-/

structure Pickle (α β : Type) where
  dumps : α → List β
  loads : List β → Option α
  loads_dumps : ∀ a, loads (dumps a) = some a

namespace Pickle

variable {α β γ : Type}

/-! ## Algorithm -/

/-- Values that are written as other ones. -/
def via (p : Pickle β γ) (code : α → β) (back : β → Option α) (h : ∀ a, back (code a) = some a) :
    Pickle α γ where
  dumps a := p.dumps (code a)
  loads bytes := (p.loads bytes).bind back
  loads_dumps a := by rw [p.loads_dumps, Option.bind_some, h]

/-- Each number as so many ones and a zero. -/
def inUnary (zero one : β) (l : List ℕ) : List β :=
  l.flatMap fun n => List.replicate n one ++ [zero]

/-- The numbers, with the ones read so far of the first. -/
def countUnary [DecidableEq β] (one : β) : ℕ → List β → Option (List ℕ)
  | 0, [] => some []
  | _ + 1, [] => none
  | n, b :: rest =>
    if b = one then countUnary one (n + 1) rest else (countUnary one 0 rest).map (n :: ·)

/-! ## Lemmas -/

variable [DecidableEq β] {zero one : β}

theorem countUnary_ones (k n : ℕ) (rest : List β) :
    countUnary one n (List.replicate k one ++ rest) = countUnary one (n + k) rest := by
  induction k generalizing n with
  | zero => rfl
  | succ k ih =>
    rw [List.replicate_succ, List.cons_append, countUnary, if_pos rfl, ih]
    congr 1
    omega

theorem countUnary_zero (h : zero ≠ one) (n : ℕ) (rest : List β) :
    countUnary one n (zero :: rest) = (countUnary one 0 rest).map (n :: ·) := by
  rw [countUnary, if_neg h]

theorem countUnary_inUnary (h : zero ≠ one) (l : List ℕ) :
    countUnary one 0 (inUnary zero one l) = some l := by
  induction l with
  | nil => rfl
  | cons n l ih =>
    rw [inUnary, List.flatMap_cons, List.append_assoc, countUnary_ones, List.singleton_append,
      countUnary_zero h, Nat.zero_add]
    show (countUnary one 0 (inUnary zero one l)).map _ = _
    rw [ih, Option.map_some]

variable (zero one) in
/-- Lists of numbers in two letters. -/
def unary (h : zero ≠ one) : Pickle (List ℕ) β where
  dumps := inUnary zero one
  loads := countUnary one 0
  loads_dumps := countUnary_inUnary h

end Pickle
