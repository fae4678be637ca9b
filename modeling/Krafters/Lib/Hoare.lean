import Mathlib.Init

/-!
# Pre- and postconditions for stateful code that may raise

Code is `EStateM ε σ α`: a state `σ` that survives an exception, as the attributes
of an object do.  `Triple P m Q E`: from a state in `P`, `m` returns `a` in a state
in `Q a`, or raises in a state in `E`.
-/

namespace Hoare

variable {ε σ α β : Type}

/-- `{P} m {Q}`, and `E` where `m` raises. -/
def Triple (P : σ → Prop) (m : EStateM ε σ α) (Q : α → σ → Prop) (E : σ → Prop) : Prop :=
  ∀ s, P s → match m s with
    | .ok a s' => Q a s'
    | .error _ s' => E s'

/-- `m` keeps `P`, whether it returns or raises. -/
def Keeps (P : σ → Prop) (m : EStateM ε σ α) : Prop := Triple P m (fun _ => P) P

theorem Triple.conseq {P P' : σ → Prop} {m : EStateM ε σ α} {Q Q' : α → σ → Prop}
    {E E' : σ → Prop} (h : Triple P m Q E) (hP : ∀ s, P' s → P s) (hQ : ∀ a s, Q a s → Q' a s)
    (hE : ∀ s, E s → E' s) : Triple P' m Q' E' := by
  intro s hs
  have := h s (hP s hs)
  cases hm : m s with
  | ok a s' => rw [hm] at this; exact hQ a s' this
  | error e s' => rw [hm] at this; exact hE s' this

theorem Triple.pure {P : σ → Prop} {Q : α → σ → Prop} {E : σ → Prop} (a : α)
    (h : ∀ s, P s → Q a s) : Triple P (Pure.pure a : EStateM ε σ α) Q E := h

theorem Triple.bind {P : σ → Prop} {m : EStateM ε σ α} {f : α → EStateM ε σ β}
    {R : α → σ → Prop} {Q : β → σ → Prop} {E : σ → Prop} (hm : Triple P m R E)
    (hf : ∀ a, Triple (R a) (f a) Q E) : Triple P (m >>= f) Q E := by
  intro s hs
  have h := hm s hs
  show match EStateM.bind m f s with
    | .ok a s' => Q a s'
    | .error _ s' => E s'
  unfold EStateM.bind
  cases hr : m s with
  | ok a s' => rw [hr] at h; exact hf a s' h
  | error e s' => rw [hr] at h; exact h

/-- After reading the state, the code continues with what it read. -/
theorem Triple.get {P : σ → Prop} {f : σ → EStateM ε σ β} {Q : β → σ → Prop} {E : σ → Prop}
    (hf : ∀ s, P s → Triple (fun s' => s' = s) (f s) Q E) :
    Triple P (MonadState.get >>= f) Q E := fun s hs => hf s hs s rfl

theorem Triple.throw {P : σ → Prop} {Q : α → σ → Prop} {E : σ → Prop} (e : ε)
    (h : ∀ s, P s → E s) : Triple P (throw e : EStateM ε σ α) Q E := h

theorem Triple.tryCatch {P : σ → Prop} {m : EStateM ε σ α} {handle : ε → EStateM ε σ α}
    {Q : α → σ → Prop} {R E : σ → Prop} (hm : Triple P m Q R)
    (hh : ∀ e, Triple R (handle e) Q E) : Triple P (tryCatch m handle) Q E := by
  intro s hs
  have h := hm s hs
  show match EStateM.tryCatch m handle s with
    | .ok a s' => Q a s'
    | .error _ s' => E s'
  unfold EStateM.tryCatch
  cases hr : m s with
  | ok a s' => rw [hr] at h; exact h
  | error e s' => rw [hr] at h; exact hh e s' h

theorem Triple.ite {P : σ → Prop} {c : Prop} [Decidable c] {m m' : EStateM ε σ α}
    {Q : α → σ → Prop} {E : σ → Prop} (ht : c → Triple P m Q E) (he : ¬ c → Triple P m' Q E) :
    Triple P (if c then m else m') Q E := by
  by_cases h : c
  · rw [if_pos h]; exact ht h
  · rw [if_neg h]; exact he h

/-- A loop over a list keeps what every turn keeps. -/
theorem Keeps.forM {P : σ → Prop} {f : α → EStateM ε σ Unit} (l : List α)
    (hf : ∀ a ∈ l, Keeps P (f a)) : Keeps P (l.forM f) := by
  induction l with
  | nil => exact Triple.pure () fun _ h => h
  | cons a l ih =>
    exact Triple.bind (hf a List.mem_cons_self) fun _ =>
      ih fun b hb => hf b (List.mem_cons_of_mem a hb)

/-! ## Exceptions that are not raised -/

/-- `m` never raises `e`. -/
def Never (e : ε) (m : EStateM ε σ α) : Prop := ∀ s s', m s ≠ .error e s'

theorem Never.bind {e : ε} {m : EStateM ε σ α} {f : α → EStateM ε σ β} (hm : Never e m)
    (hf : ∀ a, Never e (f a)) : Never e (m >>= f) := by
  intro s s'
  show EStateM.bind m f s ≠ _
  unfold EStateM.bind
  cases hr : m s with
  | ok a t => exact hf a t s'
  | error e' t =>
    intro h
    cases h
    exact hm s s' hr

theorem Never.forM {e : ε} {f : α → EStateM ε σ Unit} (l : List α) (hf : ∀ a ∈ l, Never e (f a)) :
    Never e (l.forM f) := by
  induction l with
  | nil =>
    intro s s' h
    cases h
  | cons a l ih =>
    exact Never.bind (hf a List.mem_cons_self) fun _ =>
      ih fun b hb => hf b (List.mem_cons_of_mem a hb)

/-! ## Runs that return -/

theorem bind_ok {m : EStateM ε σ α} {f : α → EStateM ε σ β} {b : β} {s s' : σ} :
    (m >>= f) s = .ok b s' ↔ ∃ a t, m s = .ok a t ∧ f a t = .ok b s' := by
  show EStateM.bind m f s = _ ↔ _
  unfold EStateM.bind
  cases m s with
  | ok a t =>
    constructor
    · exact fun h => ⟨a, t, rfl, h⟩
    · rintro ⟨a, t, ⟨⟩, h⟩
      exact h
  | error e t =>
    constructor
    · intro h
      cases h
    · rintro ⟨a, t, ⟨⟩, -⟩

/-- The code behind one that returned runs from where this one ended. -/
theorem bind_of_ok {m : EStateM ε σ α} {f : α → EStateM ε σ β} {a : α} {s t : σ}
    (h : m s = .ok a t) : (m >>= f) s = f a t := by
  show EStateM.bind m f s = _
  unfold EStateM.bind
  rw [h]

theorem bind_of_error {m : EStateM ε σ α} {f : α → EStateM ε σ β} {e : ε} {s t : σ}
    (h : m s = .error e t) : (m >>= f) s = .error e t := by
  show EStateM.bind m f s = _
  unfold EStateM.bind
  rw [h]

/-- A loop that returned made one step after the other. -/
theorem forM_ok {f : α → EStateM ε σ Unit} {a : α} {l : List α} {s s' : σ} :
    (a :: l).forM f s = .ok () s' ↔ ∃ t, f a s = .ok () t ∧ l.forM f t = .ok () s' := by
  show (f a >>= fun _ => l.forM f) s = _ ↔ _
  rw [bind_ok]
  constructor
  · rintro ⟨⟨⟩, t, h, h'⟩
    exact ⟨t, h, h'⟩
  · rintro ⟨t, h, h'⟩
    exact ⟨(), t, h, h'⟩

end Hoare
