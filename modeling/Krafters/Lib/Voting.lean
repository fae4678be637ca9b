import Mathlib.Data.Set.Finite.Basic
import Mathlib.Order.WellFoundedSet

/-!
# Voting by ballots

What any single-decree consensus protocol of the Paxos family records: which values
were proposed under which ballot, which voter promised which ballot and what it
reported then, which voter accepted which ballot.  The main result is
`Sound.chosen_unique`: in a sound record at most one value is chosen.
-/

namespace Voting

/-- A record of votes of voters `A` on values `V` under the ballots `B`. -/
structure Record (A B V : Type) where
  proposed : B → V → Prop
  /-- `promised a b last`: voter `a` promised `b` and reported `last`, the highest
  ballot it had accepted by then. -/
  promised : A → B → WithBot B → Prop
  accepted : A → B → V → Prop

variable {A B V : Type} [LinearOrder B]

/-- The rules that the voters and the proposers of a record keep. -/
structure Sound (r : Record A B V) (Quorum : Set A → Prop) : Prop where
  accepted_proposed : ∀ {a b v}, r.accepted a b v → r.proposed b v
  proposed_unique : ∀ {b v v'}, r.proposed b v → r.proposed b v' → v = v'
  promise_blocks : ∀ {a b last b' v}, r.promised a b last → r.accepted a b' v →
    b ≤ b' ∨ (b' : WithBot B) ≤ last
  /-- A proposal rests on the promises of a quorum and repeats the value of a ballot that
  is at least every ballot reported there. -/
  proposed_safe : ∀ {b v}, r.proposed b v → ∃ Q, Quorum Q ∧ ∃ high : WithBot B,
    (∀ a ∈ Q, ∃ last ≤ high, r.promised a b last) ∧
    ∀ h : B, high = h → h < b ∧ r.proposed h v
  quorums_meet : ∀ {Q Q'}, Quorum Q → Quorum Q' → (Q ∩ Q').Nonempty
  proposed_finite : {b | ∃ v, r.proposed b v}.Finite

/-- `v` is chosen under `b`: a quorum accepted it. -/
def Chosen (r : Record A B V) (Quorum : Set A → Prop) (b : B) (v : V) : Prop :=
  ∃ Q, Quorum Q ∧ ∀ a ∈ Q, r.accepted a b v

variable {r : Record A B V} {Quorum : Set A → Prop}

/-- Once a value is chosen, every later ballot proposes it. -/
theorem Sound.proposed_of_chosen (hr : Sound r Quorum) {b b' : B} {v v' : V}
    (hc : Chosen r Quorum b v) (hp : r.proposed b' v') (hle : b ≤ b') : v = v' := by
  have hwf : {b | ∃ v, r.proposed b v}.WellFoundedOn (· < ·) := hr.proposed_finite.wellFoundedOn
  -- induction along the finitely many proposed ballots
  refine @Set.WellFoundedOn.induction B _ _ b' hwf ⟨v', hp⟩
    (fun b' => ∀ v', r.proposed b' v' → b ≤ b' → v = v') ?_ v' hp hle
  intro b' _ ih v' hp hle
  obtain ⟨Q, hQ, hacc⟩ := hc
  rcases hle.eq_or_lt with rfl | hlt
  · obtain ⟨a, ha, -⟩ := hr.quorums_meet hQ hQ
    exact hr.proposed_unique (hr.accepted_proposed (hacc a ha)) hp
  · obtain ⟨Q', hQ', high, hprom, hhigh⟩ := hr.proposed_safe hp
    obtain ⟨a, ha, ha'⟩ := hr.quorums_meet hQ hQ'
    obtain ⟨last, hlast, hpa⟩ := hprom a ha'
    rcases hr.promise_blocks hpa (hacc a ha) with hle' | hle'
    · exact absurd hle' (not_le.mpr hlt)
    · have hbh : (b : WithBot B) ≤ high := hle'.trans hlast
      obtain ⟨h, rfl⟩ := WithBot.ne_bot_iff_exists.mp
        (ne_of_gt (lt_of_lt_of_le (WithBot.bot_lt_coe b) hbh))
      obtain ⟨hlt', hph⟩ := hhigh h rfl
      exact ih h ⟨v', hph⟩ hlt' v' hph (WithBot.coe_le_coe.mp hbh)

/-- **At most one value is chosen**, under whatever ballots. -/
theorem Sound.chosen_unique (hr : Sound r Quorum) {b b' : B} {v v' : V}
    (hc : Chosen r Quorum b v) (hc' : Chosen r Quorum b' v') : v = v' := by
  have proposed : ∀ {b v}, Chosen r Quorum b v → r.proposed b v := by
    rintro b v ⟨Q, hQ, hacc⟩
    obtain ⟨a, ha, -⟩ := hr.quorums_meet hQ hQ
    exact hr.accepted_proposed (hacc a ha)
  rcases le_total b b' with hle | hle
  · exact hr.proposed_of_chosen hc (proposed hc') hle
  · exact (hr.proposed_of_chosen hc' (proposed hc) hle).symm

end Voting
