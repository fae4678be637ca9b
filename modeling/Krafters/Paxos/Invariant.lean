import Krafters.Lib.Voting
import Krafters.Paxos.ReplicatedValue

/-!
# What the datagrams on the network prove, and what a node may rely on

`NetInv` is about the datagrams sent so far, `NodeInv` relates the attributes of one
node to them.  `NetInv.decided_unique` reads the datagrams of one instance as a voting
record; the lemmas on `NodeInv` are one per method of the paxos object.
-/

namespace Paxos

variable {U V : Type} (ids : Finset U)

/-! ## Evidence -/

structure Packet (U V : Type) where
  fromUid : U
  toUid : U
  message : Message U V

/-- Every datagram sent so far; none is ever taken out, so any may arrive late or again. -/
abbrev Net (U V : Type) : Type := List (Packet U V)

def Says (net : Net U V) (u : U) (m : Message U V) : Prop := ∃ toUid, ⟨u, toUid, m⟩ ∈ net

def AcceptSent (net : Net U V) (i : ℕ) (p : ProposalID U) (v : V) : Prop :=
  ∃ u, Says net u (.accept i p v)

def Quorum (Q : Finset U) : Prop := Q ⊆ ids ∧ ids.card / 2 + 1 ≤ Q.card

/-- A quorum sent Accepted for `v` under one proposal id of instance `i`. -/
def Decided (net : Net U V) (i : ℕ) (v : V) : Prop :=
  ∃ p Q, Quorum ids Q ∧ ∀ a ∈ Q, Says net a (.accepted i p v)

/-- The value that a node in instance `i` may hold: the one decided in the instance before. -/
def Held (net : Net U V) (i : ℕ) (value : Option V) : Prop :=
  ∀ k, i = k + 1 → ∃ v, value = some v ∧ Decided ids net k v

/-- An accepted id with its value, as acceptors store and report it. -/
def Backed (net : Net U V) (i : ℕ) (id : WithBot (ProposalID U)) (value : Option V) : Prop :=
  (id = ⊥ ∧ value = none) ∨
    ∃ (p : ProposalID U) (v : V), id = p ∧ value = some v ∧ AcceptSent net i p v

variable {ids} {net net' : Net U V}

/-- The id that an Accept proposes a value with. -/
def Message.acceptID : Message U V → Option (ProposalID U)
  | .accept _ p _ => some p
  | _ => none

theorem acceptSent_finite (net : Net U V) (i : ℕ) : {p | ∃ v, AcceptSent net i p v}.Finite := by
  refine Set.Finite.subset (List.finite_toSet (net.filterMap fun k => k.message.acceptID)) ?_
  rintro p ⟨v, u, toUid, hmem⟩
  exact List.mem_filterMap.mpr ⟨_, hmem, rfl⟩

/-! Evidence does not go away. -/

section Mono

variable (hsub : net ⊆ net')

include hsub

theorem Says.mono {u : U} {m : Message U V} (h : Says net u m) : Says net' u m := by
  obtain ⟨toUid, hmem⟩ := h
  exact ⟨toUid, hsub hmem⟩

theorem AcceptSent.mono {i : ℕ} {p : ProposalID U} {v : V} (h : AcceptSent net i p v) :
    AcceptSent net' i p v := by
  obtain ⟨u, hu⟩ := h
  exact ⟨u, hu.mono hsub⟩

theorem Decided.mono {i : ℕ} {v : V} (h : Decided ids net i v) : Decided ids net' i v := by
  obtain ⟨p, Q, hQ, ha⟩ := h
  exact ⟨p, Q, hQ, fun a hm => (ha a hm).mono hsub⟩

theorem Held.mono {i : ℕ} {value : Option V} (h : Held ids net i value) :
    Held ids net' i value := by
  intro k hk
  obtain ⟨v, hv, hd⟩ := h k hk
  exact ⟨v, hv, hd.mono hsub⟩

theorem Backed.mono {i : ℕ} {id : WithBot (ProposalID U)} {value : Option V}
    (h : Backed net i id value) : Backed net' i id value := by
  rcases h with h | ⟨p, v, hp, hv, ha⟩
  · exact .inl h
  · exact .inr ⟨p, v, hp, hv, ha.mono hsub⟩

end Mono

variable [LinearOrder U] (ids) (net)

/-- `a` promised `p` and had accepted nothing above `high`. -/
def PromiseBelow (i : ℕ) (p : ProposalID U) (high : WithBot (ProposalID U))
    (a : U) : Prop :=
  ∃ last ≤ high, ∃ value, Says net a (.promise i p last value)

/-- What makes it safe to propose `v` under `p`. -/
def Safe (i : ℕ) (p : ProposalID U) (v : V) : Prop :=
  ∃ Q, Quorum ids Q ∧ ∃ high : WithBot (ProposalID U), (∀ a ∈ Q, PromiseBelow net i p high a) ∧
    ∀ h : ProposalID U, high = h → h < p ∧ AcceptSent net i h v

variable {ids} {net}

section Mono

variable (hsub : net ⊆ net')

include hsub

theorem PromiseBelow.mono {i : ℕ} {p : ProposalID U} {high : WithBot (ProposalID U)} {a : U}
    (h : PromiseBelow net i p high a) : PromiseBelow net' i p high a := by
  obtain ⟨last, hle, value, hs⟩ := h
  exact ⟨last, hle, value, hs.mono hsub⟩

theorem Safe.mono {i : ℕ} {p : ProposalID U} {v : V} (h : Safe ids net i p v) :
    Safe ids net' i p v := by
  obtain ⟨Q, hQ, high, hprom, hhigh⟩ := h
  refine ⟨Q, hQ, high, fun a ha => (hprom a ha).mono hsub, fun h heq => ?_⟩
  exact ⟨(hhigh h heq).1, (hhigh h heq).2.mono hsub⟩

end Mono

variable (ids) (net)

/-! ## Invariant of the network -/

/-- What a datagram of `u` says about earlier ones. -/
def MessageOk (u : U) : Message U V → Prop
  | .accept i p v => p.uid = u ∧ Safe ids net i p v
  | .promise i p last value => last ≤ p ∧ Backed net i last value
  | .accepted i p v => AcceptSent net i p v
  | .catchup i value => Held ids net i value
  | _ => True

variable {ids} {net} in
theorem MessageOk.mono (hsub : net ⊆ net') {u : U} {m : Message U V} (h : MessageOk ids net u m) :
    MessageOk ids net' u m := by
  cases m with
  | accept i p v => exact ⟨h.1, h.2.mono hsub⟩
  | promise i p last value => exact ⟨h.1, h.2.mono hsub⟩
  | accepted i p v => exact AcceptSent.mono hsub h
  | catchup i value => exact Held.mono hsub h
  | _ => trivial

structure NetInv : Prop where
  sender : ∀ {u m}, Says net u m → u ∈ ids
  ok : ∀ {u m}, Says net u m → MessageOk ids net u m
  unique : ∀ {u i p v v'}, Says net u (.accept i p v) → Says net u (.accept i p v') → v = v'
  /-- An acceptor that promised `p` accepts nothing below `p` that it did not report. -/
  blocks : ∀ {u i p last value p' v}, Says net u (.promise i p last value) →
    Says net u (.accepted i p' v) → p ≤ p' ∨ (p' : WithBot (ProposalID U)) ≤ last

/-- The votes of instance `i`. -/
def record (i : ℕ) : Voting.Record U (ProposalID U) V where
  proposed := AcceptSent net i
  promised a p last := ∃ value, Says net a (.promise i p last value)
  accepted a p v := Says net a (.accepted i p v)

variable {ids} {net}

theorem Quorum.meet {Q Q' : Finset U} (hQ : Quorum ids Q) (hQ' : Quorum ids Q') :
    (Q ∩ Q').Nonempty := by
  obtain ⟨hsub, hcard⟩ := hQ
  obtain ⟨hsub', hcard'⟩ := hQ'
  have hunion : (Q ∪ Q').card ≤ ids.card := Finset.card_le_card (Finset.union_subset hsub hsub')
  have hsum := Finset.card_union_add_card_inter Q Q'
  rw [← Finset.card_pos]
  omega

theorem NetInv.acceptSent_unique (h : NetInv ids net) {i : ℕ} {p : ProposalID U} {v v' : V}
    (hv : AcceptSent net i p v) (hv' : AcceptSent net i p v') : v = v' := by
  obtain ⟨u, hu⟩ := hv
  obtain ⟨u', hu'⟩ := hv'
  obtain ⟨rfl, -⟩ : p.uid = u ∧ _ := h.ok hu
  obtain ⟨rfl, -⟩ : p.uid = u' ∧ _ := h.ok hu'
  exact h.unique hu hu'

theorem NetInv.sound (h : NetInv ids net) (i : ℕ) :
    Voting.Sound (record net i) fun Q => ∃ Q' : Finset U, Q = Q' ∧ Quorum ids Q' where
  accepted_proposed ha := h.ok ha
  proposed_unique := h.acceptSent_unique
  promise_blocks := by
    rintro a p last p' v ⟨value, hp⟩ ha
    exact h.blocks hp ha
  proposed_safe := by
    rintro p v ⟨u, hu⟩
    obtain ⟨-, Q, hQ, high, hprom, hhigh⟩ : p.uid = u ∧ Safe ids net i p v := h.ok hu
    exact ⟨Q, ⟨Q, rfl, hQ⟩, high, hprom, hhigh⟩
  quorums_meet := by
    rintro _ _ ⟨Q, rfl, hQ⟩ ⟨Q', rfl, hQ'⟩
    obtain ⟨a, ha⟩ := hQ.meet hQ'
    exact ⟨a, by simpa using ha⟩
  proposed_finite := acceptSent_finite net i

/-- **At most one value is decided in an instance.** -/
theorem NetInv.decided_unique (h : NetInv ids net) {i : ℕ} {v v' : V} (hv : Decided ids net i v)
    (hv' : Decided ids net i v') : v = v' := by
  have chosen : ∀ {v}, Decided ids net i v → ∃ p, Voting.Chosen (record net i)
      (fun Q => ∃ Q' : Finset U, Q = Q' ∧ Quorum ids Q') p v := by
    rintro v ⟨p, Q, hQ, ha⟩
    exact ⟨p, Q, ⟨Q, rfl, hQ⟩, ha⟩
  obtain ⟨p, hp⟩ := chosen hv
  obtain ⟨p', hp'⟩ := chosen hv'
  exact (h.sound i).chosen_unique hp hp'

/-! ## Invariant of a node -/

def Message.instanceNumber : Message U V → ℕ
  | .syncRequest i => i
  | .catchup i _ => i
  | .nack i _ _ => i
  | .prepare i _ => i
  | .promise i _ _ _ => i
  | .accept i _ _ => i
  | .accepted i _ _ => i

/-- The proposer is past its phase 1 and proposes `v` under `id`. -/
structure Proposer.Accepting (p : Proposer U V) (id : ProposalID U) (v : V) : Prop where
  proposalId : id = p.proposalId
  leader : p.leader = true
  proposedValue : p.proposedValue = some v

variable (ids) (net)

structure ProposerInv (u : U) (i : ℕ) (p : Proposer U V) : Prop where
  uid : p.networkUid = u
  quorumSize : p.quorumSize = ids.card / 2 + 1
  proposalUid : p.proposalId.uid = u
  number : p.proposalId.number ≤ p.highestProposalId.number
  promises : ∀ {s}, p.promisesReceived = some s →
    s ⊆ ids ∧ ∀ a ∈ s, PromiseBelow net i p.proposalId p.highestAcceptedId a
  leader : p.leader = true → ∃ s, p.promisesReceived = some s ∧ ids.card / 2 + 1 ≤ s.card
  highest : ∀ {h : ProposalID U}, p.highestAcceptedId = h →
    h < p.proposalId ∧ ∃ v, p.proposedValue = some v ∧ AcceptSent net i h v
  /-- The Accept messages sent in this instance are older or of the current proposal. -/
  own : ∀ {id v}, Says net u (.accept i id v) →
    id.number ≤ p.proposalId.number ∧ (id = p.proposalId → p.Accepting id v)

structure AcceptorInv (u : U) (i : ℕ) (a : Acceptor U V) : Prop where
  promised : a.acceptedId ≤ a.promisedId
  accepted : Backed net i a.acceptedId a.acceptedValue
  ownPromise : ∀ {p last value}, Says net u (.promise i p last value) →
    (p : WithBot (ProposalID U)) ≤ a.promisedId
  ownAccepted : ∀ {p v}, Says net u (.accepted i p v) → (p : WithBot (ProposalID U)) ≤ a.acceptedId

/-- Every acceptor counted for a proposal sent its Accepted; the ones that moved on to
another proposal stay counted, so `bound` tells each one's last proposal. -/
def Tally (i : ℕ) (proposals : ProposalID U → Option (ProposalStatus U V))
    (bound : U → WithBot (ProposalID U)) : Prop :=
  ∀ p ps, proposals p = some ps → ∃ S ⊆ ids, S.card = ps.acceptCount ∧
    ∀ a ∈ S, Says net a (.accepted i p ps.value) ∧ (p : WithBot (ProposalID U)) ≤ bound a

structure LearnerInv (i : ℕ) (l : Learner U V) : Prop where
  quorumSize : l.quorumSize = ids.card / 2 + 1
  tally : Tally ids net i l.proposals l.acceptors

structure NodeInv (u : U) (n : ReplicatedValue U V) : Prop where
  mem : u ∈ ids
  uid : n.networkUid = u
  peers : n.peers.length = ids.card
  own : ∀ {m}, Says net u m → m.instanceNumber ≤ n.instanceNumber
  proposer : ProposerInv ids net u n.instanceNumber n.paxos.proposer
  acceptor : AcceptorInv net u n.instanceNumber n.paxos.acceptor
  learner : LearnerInv ids net n.instanceNumber n.paxos.learner
  held : Held ids net n.instanceNumber n.currentValue
  updates : n.updates.Pairwise fun x y => x.instanceNumber < y.instanceNumber
  update : ∀ x ∈ n.updates, 0 < x.instanceNumber ∧ x.instanceNumber ≤ n.instanceNumber ∧
    Held ids net x.instanceNumber x.value

variable {ids} {net}

/-- What holds of a node between two events: a running task that sends Accept messages sends
those of the current proposal. -/
structure Idle (n : ReplicatedValue U V) : Prop where
  task : ∀ {p v}, n.retransmitTask = some ⟨.accept p v, true⟩ → n.paxos.proposer.Accepting p v
  undecided : n.paxos.learner.finalValue = none

/-! ## A new instance -/

section Init

variable {u : U} {i : ℕ} (hnew : ∀ {m}, Says net u m → m.instanceNumber < i)

include hnew

theorem ProposerInv.init : ProposerInv ids net u i (Proposer.init u (ids.card / 2 + 1)) where
  uid := rfl
  quorumSize := rfl
  proposalUid := rfl
  number := le_rfl
  promises := by simp [Proposer.init]
  leader := by simp [Proposer.init]
  highest := by simp [Proposer.init]
  own h := absurd (hnew h) (lt_irrefl i)

theorem AcceptorInv.init : AcceptorInv net u i (⟨u, ⊥, ⊥, none⟩ : Acceptor U V) where
  promised := le_rfl
  accepted := .inl ⟨rfl, rfl⟩
  ownPromise h := absurd (hnew h) (lt_irrefl i)
  ownAccepted h := absurd (hnew h) (lt_irrefl i)

end Init

theorem LearnerInv.init (u : U) (i : ℕ) :
    LearnerInv ids net i (Learner.init u (ids.card / 2 + 1) : Learner U V) where
  quorumSize := rfl
  tally := by simp [Tally, Learner.init]

/-! ## The proposer's methods -/

section Proposer

variable {u : U} {i : ℕ} {p : Proposer U V}

theorem Proposer.observeProposal_eq (p : Proposer U V) (id : WithBot (ProposalID U)) :
    p.observeProposal id =
      { p with highestProposalId := (p.observeProposal id).highestProposalId } := by
  cases id with
  | bot => rfl
  | coe id => simp only [observeProposal]; split <;> rfl

theorem Proposer.le_observeProposal (p : Proposer U V) (id : WithBot (ProposalID U)) :
    p.highestProposalId.number ≤ (p.observeProposal id).highestProposalId.number := by
  cases id with
  | bot => exact le_rfl
  | coe id =>
    simp only [observeProposal]
    split
    · next h =>
      rcases ProposalID.lt_iff.mp h with h | h
      · exact h.le
      · exact h.1.le
    · exact le_rfl

theorem Proposer.Accepting.observeProposal {id : ProposalID U} {v : V} (h : p.Accepting id v)
    (seen : WithBot (ProposalID U)) : (p.observeProposal seen).Accepting id v := by
  rw [Proposer.observeProposal_eq]
  exact ⟨h.proposalId, h.leader, h.proposedValue⟩

theorem ProposerInv.observeProposal (h : ProposerInv ids net u i p)
    (seen : WithBot (ProposalID U)) : ProposerInv ids net u i (p.observeProposal seen) := by
  have hle := p.le_observeProposal seen
  rw [Proposer.observeProposal_eq]
  exact ⟨h.uid, h.quorumSize, h.proposalUid, h.number.trans hle, h.promises, h.leader, h.highest,
    fun ha => ⟨(h.own ha).1, fun heq => ⟨heq, ((h.own ha).2 heq).2, ((h.own ha).2 heq).3⟩⟩⟩

omit [LinearOrder U] in
theorem Proposer.Accepting.proposeValue {id : ProposalID U} {v : V} (h : p.Accepting id v)
    (value : Option V) : (p.proposeValue value).1.Accepting id v := by
  simp only [Proposer.proposeValue, h.proposedValue]
  exact h

theorem ProposerInv.proposeValue (h : ProposerInv ids net u i p) (value : Option V) :
    ProposerInv ids net u i (p.proposeValue value).1 := by
  unfold Proposer.proposeValue
  split
  · exact h
  · next hnone =>
    -- no Accept was sent and nothing was reported, else there were a value
    refine ⟨h.uid, h.quorumSize, h.proposalUid, h.number, h.promises, h.leader, ?_, ?_⟩
    · intro q hq
      obtain ⟨-, v, hv, -⟩ := h.highest hq
      rw [hnone] at hv
      cases hv
    · intro id v ha
      refine ⟨(h.own ha).1, fun heq => ?_⟩
      have hv := ((h.own ha).2 heq).proposedValue
      rw [hnone] at hv
      cases hv

theorem ProposerInv.prepare (h : ProposerInv ids net u i p) : ProposerInv ids net u i p.prepare := by
  have hnumber := h.number
  refine ⟨h.uid, h.quorumSize, h.uid, le_rfl, ?_, ?_, ?_, ?_⟩
  · rintro s ⟨⟩
    exact ⟨Finset.empty_subset _, by simp⟩
  · simp [Proposer.prepare]
  · intro q hq
    obtain ⟨hlt, hv⟩ := h.highest hq
    refine ⟨ProposalID.lt_iff.mpr (.inl ?_), hv⟩
    show q.number < p.highestProposalId.number + 1
    rcases ProposalID.lt_iff.mp hlt with hlt | hlt <;> omega
  · intro id v ha
    have hle := (h.own ha).1
    constructor
    · show id.number ≤ p.highestProposalId.number + 1
      omega
    · rintro rfl
      change p.highestProposalId.number + 1 ≤ _ at hle
      omega

theorem ProposerInv.receiveNack (h : ProposerInv ids net u i p) (fromUid : U)
    (id : ProposalID U) (promised : WithBot (ProposalID U)) :
    ProposerInv ids net u i (p.receiveNack fromUid id promised) := by
  have h' := h.observeProposal promised
  simp only [Proposer.receiveNack]
  split
  · exact h'
  · next nacks _ =>
    have hnacks : ProposerInv ids net u i
        { p.observeProposal promised with nacksReceived := some (insert fromUid nacks) } :=
      ⟨h'.uid, h'.quorumSize, h'.proposalUid, h'.number, h'.promises, h'.leader, h'.highest,
        fun ha => ⟨(h'.own ha).1, fun heq => ⟨heq, ((h'.own ha).2 heq).2, ((h'.own ha).2 heq).3⟩⟩⟩
    split
    · split
      · exact hnacks.prepare
      · exact hnacks
    · exact h'

/-- A leader's Accept message is safe. -/
theorem ProposerInv.safe (h : ProposerInv ids net u i p) {id : ProposalID U} {v : V}
    (ha : p.Accepting id v) : Safe ids net i id v := by
  obtain ⟨rfl, hleader, hv⟩ := ha
  obtain ⟨s, hs, hcard⟩ := h.leader hleader
  obtain ⟨hsub, hprom⟩ := h.promises hs
  refine ⟨s, ⟨hsub, hcard⟩, p.highestAcceptedId, hprom, fun q hq => ?_⟩
  obtain ⟨hlt, w, hw, hsent⟩ := h.highest hq
  obtain rfl : w = v := Option.some.inj (hw.symm.trans hv)
  exact ⟨hlt, hsent⟩

theorem PromiseBelow.trans {id : ProposalID U} {high high' : WithBot (ProposalID U)} {a : U}
    (h : PromiseBelow net i id high a) (hle : high ≤ high') : PromiseBelow net i id high' a := by
  obtain ⟨last, hlast, hs⟩ := h
  exact ⟨last, hlast.trans hle, hs⟩

/-- Before it leads, a proposer has sent no Accept under its proposal id. -/
theorem ProposerInv.not_sent (hnet : NetInv ids net) (h : ProposerInv ids net u i p)
    (hleader : p.leader = false) {v : V} : ¬ AcceptSent net i p.proposalId v := by
  rintro ⟨w, hw⟩
  obtain ⟨hw', -⟩ : p.proposalId.uid = w ∧ _ := hnet.ok hw
  obtain rfl : u = w := h.proposalUid.symm.trans hw'
  have hacc := ((h.own hw).2 rfl).leader
  rw [hleader] at hacc
  cases hacc

theorem ProposerInv.recordPromise (hnet : NetInv ids net) (h : ProposerInv ids net u i p)
    (hleader : p.leader = false) {s : Finset U} (hs : p.promisesReceived = some s) {a : U}
    {last : WithBot (ProposalID U)} {value : Option V}
    (ha : Says net a (.promise i p.proposalId last value)) :
    ProposerInv ids net u i (p.recordPromise s a last value) := by
  obtain ⟨hsub, hprom⟩ := h.promises hs
  obtain ⟨hle, hback⟩ : last ≤ p.proposalId ∧ Backed net i last value := hnet.ok ha
  have hsub' : insert a s ⊆ ids := Finset.insert_subset (hnet.sender ha) hsub
  have hnotLeader : p.leader = true → ∃ t, some (insert a s) = some t ∧ ids.card / 2 + 1 ≤ t.card :=
    fun hl => absurd (hleader.symm.trans hl) (by decide)
  have hown : ∀ {id v}, Says net u (.accept i id v) → id ≠ p.proposalId := by
    rintro _ v hid rfl
    exact h.not_sent hnet hleader ⟨u, hid⟩
  simp only [Proposer.recordPromise]
  split
  · next hlt =>
    refine ⟨h.uid, h.quorumSize, h.proposalUid, h.number, ?_, hnotLeader, ?_,
      fun hid => ⟨(h.own hid).1, fun heq => absurd heq (hown hid)⟩⟩
    · rintro _ ⟨⟩
      refine ⟨hsub', fun b hb => ?_⟩
      rcases Finset.mem_insert.mp hb with rfl | hb
      · exact ⟨last, le_rfl, value, ha⟩
      · exact (hprom b hb).trans hlt.le
    · intro q hq
      rcases hback with ⟨hbot, -⟩ | ⟨q', v, heq, rfl, hsent⟩
      · cases hbot.symm.trans hq
      · obtain rfl := WithBot.coe_inj.mp (heq.symm.trans hq)
        have hne : q' ≠ p.proposalId := fun he => h.not_sent hnet hleader (he ▸ hsent)
        exact ⟨lt_of_le_of_ne (WithBot.coe_le_coe.mp (heq ▸ hle)) hne, v, rfl, hsent⟩
  · next hlt =>
    refine ⟨h.uid, h.quorumSize, h.proposalUid, h.number, ?_, hnotLeader, h.highest,
      fun hid => ⟨(h.own hid).1, fun heq => absurd heq (hown hid)⟩⟩
    rintro _ ⟨⟩
    refine ⟨hsub', fun b hb => ?_⟩
    rcases Finset.mem_insert.mp hb with rfl | hb
    · exact ⟨last, not_lt.mp hlt, value, ha⟩
    · exact hprom b hb

theorem Proposer.recordPromise_eq (p : Proposer U V) (s : Finset U) (a : U)
    (last : WithBot (ProposalID U)) (value : Option V) :
    (p.recordPromise s a last value).leader = p.leader ∧
    (p.recordPromise s a last value).promisesReceived = some (insert a s) := by
  simp only [Proposer.recordPromise]
  split <;> simp

theorem ProposerInv.countPromise (hnet : NetInv ids net) (h : ProposerInv ids net u i p)
    (hleader : p.leader = false) {s : Finset U} (hs : p.promisesReceived = some s) :
    ProposerInv ids net u i (p.countPromise s).1 := by
  unfold Proposer.countPromise
  split
  · next hcard =>
    refine ⟨h.uid, h.quorumSize, h.proposalUid, h.number, h.promises,
      fun _ => ⟨s, hs, (hcard.trans h.quorumSize).ge⟩, h.highest, fun {id v} hid => ?_⟩
    refine ⟨(h.own hid).1, ?_⟩
    rintro rfl
    exact absurd ⟨u, hid⟩ (h.not_sent hnet hleader)
  · exact h

theorem ProposerInv.receivePromise (hnet : NetInv ids net) (h : ProposerInv ids net u i p)
    {a : U} {id : ProposalID U} {last : WithBot (ProposalID U)} {value : Option V}
    (ha : Says net a (.promise i id last value)) :
    ProposerInv ids net u i (p.receivePromise a id last value).1 := by
  have h' := h.observeProposal (id : WithBot (ProposalID U))
  simp only [Proposer.receivePromise]
  split
  · next hcond =>
    obtain ⟨hleader, heq⟩ := hcond
    have ha' : Says net a (.promise i (p.observeProposal id).proposalId last value) := by
      rw [← heq]
      exact ha
    split
    · exact h'
    · next s hs =>
      split
      · exact h'
      · obtain ⟨hl, hr⟩ := Proposer.recordPromise_eq (p.observeProposal id) s a last value
        exact (h'.recordPromise hnet hleader hs ha').countPromise hnet (hl.trans hleader) hr
  · exact h'

theorem Proposer.Accepting.receivePromise {id : ProposalID U} {v : V} (h : p.Accepting id v)
    (a : U) (id' : ProposalID U) (last : WithBot (ProposalID U)) (value : Option V) :
    (p.receivePromise a id' last value).1.Accepting id v := by
  have h' := h.observeProposal (id' : WithBot (ProposalID U))
  simp only [Proposer.receivePromise, h'.leader]
  exact h'

end Proposer

/-! ## The acceptor's methods -/

section Acceptor

variable {u : U} {i : ℕ} {a : Acceptor U V}

theorem AcceptorInv.promise (h : AcceptorInv net u i a) {p : ProposalID U}
    (hle : a.promisedId ≤ p) : AcceptorInv net u i { a with promisedId := p } :=
  ⟨h.promised.trans hle, h.accepted, fun hs => (h.ownPromise hs).trans hle, h.ownAccepted⟩

theorem AcceptorInv.accept (h : AcceptorInv net u i a) {p : ProposalID U} {v : V}
    (hle : a.promisedId ≤ p) (ha : AcceptSent net i p v) :
    AcceptorInv net u i { a with promisedId := p, acceptedId := p, acceptedValue := v } :=
  ⟨le_rfl, .inr ⟨p, v, rfl, rfl, ha⟩, fun hs => (h.ownPromise hs).trans hle,
    fun hs => ((h.ownAccepted hs).trans h.promised).trans hle⟩

end Acceptor

/-! ## The learner's methods -/

section Learner

variable {i : ℕ} {l : Learner U V} {bound bound' : U → WithBot (ProposalID U)}

theorem Tally.mono_bound {proposals : ProposalID U → Option (ProposalStatus U V)}
    (h : Tally ids net i proposals bound) (hle : ∀ a, bound a ≤ bound' a) :
    Tally ids net i proposals bound' := by
  intro p ps hp
  obtain ⟨S, hS, hcard, hs⟩ := h p ps hp
  exact ⟨S, hS, hcard, fun a ha => ⟨(hs a ha).1, (hs a ha).2.trans (hle a)⟩⟩

theorem Tally.update {proposals : ProposalID U → Option (ProposalStatus U V)}
    (h : Tally ids net i proposals bound) {p : ProposalID U} {status : Option (ProposalStatus U V)}
    (hp : ∀ ps, status = some ps → ∃ S ⊆ ids, S.card = ps.acceptCount ∧
      ∀ a ∈ S, Says net a (.accepted i p ps.value) ∧ (p : WithBot (ProposalID U)) ≤ bound a) :
    Tally ids net i (Function.update proposals p status) bound := by
  intro q ps hq
  by_cases hqp : q = p
  · subst hqp
    rw [Function.update_self] at hq
    exact hp ps hq
  · rw [Function.update_of_ne hqp] at hq
    exact h q ps hq

/-- A released proposal keeps its count and its value, or goes. -/
theorem Tally.release (h : Tally ids net i l.proposals bound) (a : U)
    (last : WithBot (ProposalID U)) : Tally ids net i (l.release a last).1.proposals bound := by
  unfold Learner.release
  split
  · exact h
  · next last =>
    split
    · exact h
    · next ps hps =>
      simp only
      split
      · apply h.update
        intro ps' hps'
        split at hps'
        · cases hps'
        · cases hps'
          exact h last ps hps
      · apply h.update
        intro ps' hps'
        cases hps'
        exact h last ps hps

theorem Learner.release_frame (l : Learner U V) (a : U) (last : WithBot (ProposalID U)) :
    (l.release a last).1.quorumSize = l.quorumSize ∧
    (l.release a last).1.acceptors = l.acceptors ∧
    (l.release a last).1.finalValue = l.finalValue := by
  unfold Learner.release
  split
  · simp
  · split
    · simp
    · simp only
      split <;> simp

variable (ids) (net) in
/-- What an Accepted message for `v` leaves and returns: an answer only for a decided value. -/
structure Learned (i : ℕ) (v : V)
    (r : Learner U V × Except NodeError (Option (PaxosMessage U V))) : Prop where
  inv : LearnerInv ids net i r.1
  decided : ∀ {m}, r.2 = .ok (some m) → Decided ids net i v
  undecided : (∀ m, r.2 ≠ .ok (some m)) → r.1.finalValue = none

theorem Learned.open {v : V} {e : Except NodeError (Option (PaxosMessage U V))}
    (hl : LearnerInv ids net i l) (hf : l.finalValue = none) (hno : ∀ m, e ≠ .ok (some m)) :
    Learned ids net i v (l, e) :=
  ⟨hl, fun hm => absurd hm (hno _), fun _ => hf⟩

variable [DecidableEq V]

/-- Counting an acceptor that was below `p` until now. -/
theorem Tally.count (hnet : NetInv ids net) (hq : l.quorumSize = ids.card / 2 + 1)
    (hfinal : l.finalValue = none) (h : Tally ids net i l.proposals bound) {a : U}
    {p : ProposalID U} {v : V} (ha : Says net a (.accepted i p v)) (hlt : bound a < p)
    (hle : ∀ b, bound b ≤ l.acceptors b) (hl : (p : WithBot (ProposalID U)) ≤ l.acceptors a) :
    Learned ids net i v (l.count a p v) := by
  obtain ⟨S, hS, hcard, hs⟩ : ∃ S ⊆ ids, S.card = ((l.proposals p).getD ⟨0, 0, ∅, v⟩).acceptCount ∧
      ∀ b ∈ S, Says net b (.accepted i p ((l.proposals p).getD ⟨0, 0, ∅, v⟩).value) ∧
        (p : WithBot (ProposalID U)) ≤ bound b := by
    cases hp : l.proposals p with
    | none => exact ⟨∅, Finset.empty_subset _, rfl, by simp⟩
    | some ps => exact h p ps hp
  have h' := h.mono_bound hle
  have hnotMem : a ∉ S := fun hmem => absurd (hs a hmem).2 (not_le.mpr hlt)
  simp only [Learner.count]
  split
  · next heq =>
    have hS' : insert a S ⊆ ids := Finset.insert_subset (hnet.sender ha) hS
    have hcard' : (insert a S).card = ((l.proposals p).getD ⟨0, 0, ∅, v⟩).acceptCount + 1 := by
      rw [Finset.card_insert_of_notMem hnotMem, hcard]
    have hs' : ∀ b ∈ insert a S, Says net b (.accepted i p v) ∧
        (p : WithBot (ProposalID U)) ≤ l.acceptors b := by
      intro b hb
      rcases Finset.mem_insert.mp hb with rfl | hb
      · exact ⟨ha, hl⟩
      · exact ⟨heq ▸ (hs b hb).1, (hs b hb).2.trans (hle b)⟩
    split
    · next hcount =>
      refine ⟨⟨hq, by simp [Tally]⟩, ?_, fun hno => absurd rfl (hno _)⟩
      rintro _ ⟨⟩
      refine ⟨p, insert a S, ⟨hS', ?_⟩, fun b hb => (hs' b hb).1⟩
      rw [hcard', hcount, hq]
    · refine .open ⟨hq, h'.update ?_⟩ hfinal (by simp)
      rintro _ ⟨⟩
      exact ⟨insert a S, hS', hcard', heq ▸ hs'⟩
  · refine .open ⟨hq, h'.update ?_⟩ hfinal (by simp)
    rintro _ ⟨⟩
    exact ⟨S, hS, hcard, fun b hb => ⟨(hs b hb).1, (hs b hb).2.trans (hle b)⟩⟩

/-- The last two parts of `receive_accepted`, with the old last proposals in `bound`. -/
theorem Tally.releaseCount (l : Learner U V) (hnet : NetInv ids net) (hq : l.quorumSize = ids.card / 2 + 1)
    (hfinal : l.finalValue = none) (h : Tally ids net i l.proposals bound) {a : U}
    {p : ProposalID U} {v : V} (ha : Says net a (.accepted i p v)) (hlt : bound a < p)
    (hle : ∀ b, bound b ≤ l.acceptors b) (hl : (p : WithBot (ProposalID U)) ≤ l.acceptors a)
    (last : WithBot (ProposalID U)) :
    Learned ids net i v (match l.release a last with
      | (l, .error e) => (l, .error e)
      | (l, .ok ()) => l.count a p v) := by
  have htally := h.release a last
  obtain ⟨hq', hacc, hfin⟩ := l.release_frame a last
  rw [← hq'] at hq
  rw [← hfin] at hfinal
  rw [← hacc] at hle hl
  rcases hr : l.release a last with ⟨l', e⟩
  rw [hr] at htally hq hfinal hle hl
  cases e with
  | error e => exact .open ⟨hq, htally.mono_bound hle⟩ hfinal (by simp)
  | ok _ => exact htally.count hnet hq hfinal ha hlt hle hl

theorem LearnerInv.receiveAccepted (hnet : NetInv ids net) (h : LearnerInv ids net i l)
    (hfinal : l.finalValue = none) {a : U} {p : ProposalID U} {v : V}
    (ha : Says net a (.accepted i p v)) : Learned ids net i v (l.receiveAccepted a p v) := by
  unfold Learner.receiveAccepted
  split
  · next hf => cases hfinal.symm.trans hf
  · simp only
    split
    · exact .open h hfinal (by simp)
    · next hnew =>
      have hlt : l.acceptors a < p := not_le.mp hnew
      refine Tally.releaseCount { l with acceptors := Function.update l.acceptors a p } hnet
        h.quorumSize hfinal h.tally ha hlt (fun b => ?_) ?_ _
      · by_cases hb : b = a
        · subst hb
          simp only [Function.update_self]
          exact hlt.le
        · simp only [Function.update_of_ne hb, le_refl]
      · simp only [Function.update_self, le_refl]

end Learner

end Paxos
