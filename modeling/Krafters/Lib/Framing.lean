import Mathlib.Data.List.Infix

/-!
# Messages in a stream of bytes

A `Framing` writes a message as a frame that tells where it ends, and takes the first frame from a
buffer:

    next (frame m ++ rest) = some (m, rest),   next of a part of a frame = none

A buffer that holds the beginning of the frames of some messages gives the first of these, or
nothing while its frame is not there as a whole.
-/

structure Framing (M β : Type) where
  frame : M → List β
  /-- the messages that have a frame -/
  fits : M → Prop
  next : List β → Option (M × List β)
  next_nil : next [] = none
  next_frame : ∀ m rest, fits m → next (frame m ++ rest) = some (m, rest)
  next_part : ∀ m part, fits m → part <+: frame m → part ≠ frame m → next part = none

namespace Framing

variable {M β : Type} (F : Framing M β)

def frames (messages : List M) : List β := messages.flatMap F.frame

variable {F} {m : M} {messages : List M} {buffer rest : List β}

theorem frames_cons : F.frames (m :: messages) = F.frame m ++ F.frames messages := rfl

theorem frames_concat : F.frames (messages ++ [m]) = F.frames messages ++ F.frame m := by
  simp [frames]

theorem frames_prefix_concat : F.frames messages <+: F.frames (messages ++ [m]) :=
  ⟨F.frame m, frames_concat.symm⟩

/-- What a buffer with the beginning of some frames gives. -/
theorem next_cases (hfits : ∀ m ∈ messages, F.fits m) (h : buffer <+: F.frames messages) :
    (F.next buffer = none ∧ (buffer = F.frames messages → messages = [])) ∨
    ∃ m later rest, messages = m :: later ∧ F.next buffer = some (m, rest) ∧
      buffer = F.frame m ++ rest := by
  cases messages with
  | nil =>
    obtain rfl : buffer = [] := List.prefix_nil.mp h
    exact .inl ⟨F.next_nil, fun _ => rfl⟩
  | cons m later =>
    have hm := hfits m List.mem_cons_self
    rw [frames_cons] at h ⊢
    by_cases hwhole : F.frame m <+: buffer
    · obtain ⟨rest, rfl⟩ := hwhole
      exact .inr ⟨m, later, rest, rfl, F.next_frame m rest hm, rfl⟩
    · have hpart : buffer <+: F.frame m :=
        (List.prefix_or_prefix_of_prefix h (List.prefix_append _ _)).resolve_right hwhole
      refine .inl ⟨F.next_part m buffer hm hpart fun h => ?_, fun h => ?_⟩
      · exact hwhole (h ▸ List.prefix_rfl)
      · exact absurd (h ▸ List.prefix_append _ _) hwhole

end Framing
