import Krafters.Paxos.Changes

/-!
# Every handler keeps the invariants

`Sendable` says what a node may send in the state it is in; `NetInv.send` and
`NodeInv.grow` show that such a datagram keeps the invariants.  `Settled.change` shows it
of every other change, and so `step_settled` of every event.
-/

namespace Paxos

variable {U V : Type} [LinearOrder U] {ids : Finset U} {net : Net U V} {u : U}
  {n : ReplicatedValue U V}

/-! ## Sending -/

/-- The message tells the state that the node is in. -/
def Sendable (n : ReplicatedValue U V) (m : Message U V) : Prop :=
  m.instanceNumber = n.instanceNumber ∧
  match m with
  | .accept _ p v => n.paxos.proposer.Accepting p v
  | .promise _ p last value => n.paxos.acceptor.promisedId = p ∧
      n.paxos.acceptor.acceptedId = last ∧ n.paxos.acceptor.acceptedValue = value
  | .accepted _ p v => n.paxos.acceptor.promisedId = p ∧ n.paxos.acceptor.acceptedId = p ∧
      n.paxos.acceptor.acceptedValue = some v
  | .catchup _ value => n.currentValue = value
  | _ => True

omit [LinearOrder U] in
theorem says_append {toUid w : U} {m m' : Message U V} :
    Says (net ++ [⟨u, toUid, m⟩]) w m' ↔ Says net w m' ∨ w = u ∧ m' = m := by
  simp only [Says, List.mem_append, List.mem_singleton, Packet.mk.injEq]
  constructor
  · rintro ⟨toUid', h | ⟨rfl, -, rfl⟩⟩
    · exact .inl ⟨toUid', h⟩
    · exact .inr ⟨rfl, rfl⟩
  · rintro (⟨toUid', h⟩ | ⟨rfl, rfl⟩)
    · exact ⟨toUid', .inl h⟩
    · exact ⟨toUid, .inr ⟨rfl, rfl, rfl⟩⟩

/-- A network that grows, by what the node itself may send or by what others send, keeps the
invariant of the node. -/
theorem NodeInv.grow {net' : Net U V} (h : NodeInv ids net u n) (hsub : net ⊆ net')
    (hnew : ∀ {m}, Says net' u m → Says net u m ∨ Sendable n m) : NodeInv ids net' u n where
  mem := h.mem
  uid := h.uid
  peers := h.peers
  own hm := by
    rcases hnew hm with hm | ⟨hi, -⟩
    · exact h.own hm
    · exact hi.le
  proposer := by
    obtain ⟨huid, hq, hp, hnum, hprom, hleader, hhigh, hown⟩ := h.proposer
    refine ⟨huid, hq, hp, hnum, fun hs => ?_, hleader, fun hh => ?_, fun hm => ?_⟩
    · exact ⟨(hprom hs).1, fun a ha => ((hprom hs).2 a ha).mono hsub⟩
    · obtain ⟨hlt, v, hv, hsent⟩ := hhigh hh
      exact ⟨hlt, v, hv, hsent.mono hsub⟩
    · rcases hnew hm with hm | ⟨-, hacc⟩
      · exact hown hm
      · exact ⟨by rw [hacc.proposalId], fun _ => hacc⟩
  acceptor := by
    obtain ⟨hpromised, hacc, hownP, hownA⟩ := h.acceptor
    refine ⟨hpromised, hacc.mono hsub, fun hm => ?_, fun hm => ?_⟩
    · rcases hnew hm with hm | ⟨-, hp, -⟩
      · exact hownP hm
      · exact hp.ge
    · rcases hnew hm with hm | ⟨-, -, ha, -⟩
      · exact hownA hm
      · exact ha.ge
  learner := by
    refine ⟨h.learner.quorumSize, fun p ps hp => ?_⟩
    obtain ⟨S, hS, hcard, hs⟩ := h.learner.tally p ps hp
    exact ⟨S, hS, hcard, fun a ha => ⟨(hs a ha).1.mono hsub, (hs a ha).2⟩⟩
  held := h.held.mono hsub
  updates := h.updates
  update x hx := ⟨(h.update x hx).1, (h.update x hx).2.1, (h.update x hx).2.2.mono hsub⟩

/-- What a node may send is true of the network. -/
theorem NodeInv.messageOk (h : NodeInv ids net u n) {m : Message U V} (hm : Sendable n m) :
    MessageOk ids net u m := by
  obtain ⟨hi, hm⟩ := hm
  cases m with
  | accept i p v =>
    obtain rfl : i = n.instanceNumber := hi
    exact ⟨by rw [hm.proposalId, h.proposer.proposalUid], h.proposer.safe hm⟩
  | promise i p last value =>
    obtain rfl : i = n.instanceNumber := hi
    obtain ⟨hp, rfl, rfl⟩ := hm
    exact ⟨hp ▸ h.acceptor.promised, h.acceptor.accepted⟩
  | accepted i p v =>
    obtain rfl : i = n.instanceNumber := hi
    obtain ⟨-, ha, hv⟩ := hm
    rcases h.acceptor.accepted with ⟨hbot, -⟩ | ⟨q, w, hq, hw, hsent⟩
    · cases ha.symm.trans hbot
    · obtain rfl := WithBot.coe_inj.mp (ha.symm.trans hq)
      obtain rfl := Option.some.inj (hv.symm.trans hw)
      exact hsent
  | catchup i value =>
    obtain rfl : i = n.instanceNumber := hi
    exact hm ▸ h.held
  | _ => trivial

theorem NetInv.send (hnet : NetInv ids net) (h : NodeInv ids net u n) {m : Message U V}
    (hm : Sendable n m) (toUid : U) : NetInv ids (net ++ [⟨u, toUid, m⟩]) := by
  have hsub : net ⊆ net ++ [⟨u, toUid, m⟩] := List.subset_append_left _ _
  refine ⟨fun hs => ?_, fun hs => ?_, fun {w i p v v'} hs hs' => ?_,
    fun {w i p last value p' v} hs hs' => ?_⟩
  · rcases says_append.mp hs with hs | ⟨rfl, -⟩
    · exact hnet.sender hs
    · exact h.mem
  · rcases says_append.mp hs with hs | ⟨rfl, rfl⟩
    · exact (hnet.ok hs).mono hsub
    · exact (h.messageOk hm).mono hsub
  · obtain hold | ⟨rfl, rfl⟩ := says_append.mp hs <;>
      rcases says_append.mp hs' with hold' | ⟨hw, hmm⟩
    · exact hnet.unique hold hold'
    · subst hw hmm
      obtain ⟨rfl, hacc⟩ := hm
      have := ((h.proposer.own hold).2 hacc.proposalId).proposedValue
      exact Option.some.inj (this.symm.trans hacc.proposedValue)
    · obtain ⟨rfl, hacc⟩ := hm
      have := ((h.proposer.own hold').2 hacc.proposalId).proposedValue
      exact Option.some.inj (hacc.proposedValue.symm.trans this)
    · cases hmm
      rfl
  · obtain hold | ⟨rfl, rfl⟩ := says_append.mp hs <;>
      rcases says_append.mp hs' with hold' | ⟨hw, hmm⟩
    · exact hnet.blocks hold hold'
    · -- a new Accepted is at least every promise
      subst hw hmm
      obtain ⟨rfl, hp, -⟩ := hm
      exact .inl (WithBot.coe_le_coe.mp (hp ▸ h.acceptor.ownPromise hold))
    · -- a new promise reports the last accepted id
      obtain ⟨rfl, -, rfl, -⟩ := hm
      exact .inr (h.acceptor.ownAccepted hold')
    · cases hmm

/-! ## Runs -/

/-- The network in the course of an event of node `u`. -/
def Run.network (base : Net U V) (u : U) (r : Run U V) : Net U V :=
  base ++ r.sent.map fun s => ⟨u, s.toUid, s.message⟩

variable (ids u) in
structure Good (base : Net U V) (r : Run U V) : Prop where
  net : NetInv ids (r.network base u)
  node : NodeInv ids (r.network base u) u r.node
  /-- callbacks return normally -/
  callback : r.callback = false

variable (ids u) in
structure Settled (base : Net U V) (r : Run U V) : Prop extends Good ids u base r where
  idle : Idle r.node

variable {base : Net U V}

omit [LinearOrder U] in
theorem Run.network_of_sent_nil {r : Run U V} (hs : r.sent = []) : r.network base u = base := by
  rw [Run.network, hs, List.map_nil, List.append_nil]

omit [LinearOrder U] in
theorem Run.heard {w : U} {m : Message U V} (r : Run U V) (h : Says base w m) :
    Says (r.network base u) w m := h.mono (List.subset_append_left _ _)

/-- Only the paxos object, tasks, timers and the like change. -/
theorem Good.setNode {r : Run U V} (h : Good ids u base r) {n : ReplicatedValue U V}
    (hn : NodeInv ids (r.network base u) u n) : Good ids u base { r with node := n } :=
  ⟨h.net, hn, h.callback⟩

theorem NodeInv.withTasks (h : NodeInv ids net u n) (task : Option (LoopingCall U V))
    (drive : Option Bool) (window : ℕ) : NodeInv ids net u
      { n with retransmitTask := task, delayedDrive := drive, backoffWindow := window } :=
  ⟨h.mem, h.uid, h.peers, h.own, h.proposer, h.acceptor, h.learner, h.held, h.updates, h.update⟩

/-! ## The paxos object -/

theorem NodeInv.withProposer (h : NodeInv ids net u n) {p : Proposer U V}
    (hp : ProposerInv ids net u n.instanceNumber p) :
    NodeInv ids net u { n with paxos := { n.paxos with proposer := p } } :=
  ⟨h.mem, h.uid, h.peers, h.own, hp, h.acceptor, h.learner, h.held, h.updates, h.update⟩

theorem NodeInv.withAcceptor (h : NodeInv ids net u n) {a : Acceptor U V}
    (ha : AcceptorInv net u n.instanceNumber a) :
    NodeInv ids net u { n with paxos := { n.paxos with acceptor := a } } :=
  ⟨h.mem, h.uid, h.peers, h.own, h.proposer, ha, h.learner, h.held, h.updates, h.update⟩

theorem NodeInv.withLearner (h : NodeInv ids net u n) {l : Learner U V}
    (hl : LearnerInv ids net n.instanceNumber l) :
    NodeInv ids net u { n with paxos := { n.paxos with learner := l } } :=
  ⟨h.mem, h.uid, h.peers, h.own, h.proposer, h.acceptor, hl, h.held, h.updates, h.update⟩

/-- A proposer that still proposes what it proposed leaves the node settled. -/
theorem Settled.withProposer {r : Run U V} (h : Settled ids u base r) {p : Proposer U V}
    (hp : ProposerInv ids (r.network base u) u r.node.instanceNumber p)
    (hacc : ∀ {id v}, r.node.paxos.proposer.Accepting id v → p.Accepting id v) :
    Settled ids u base
      { r with node := { r.node with paxos := { r.node.paxos with proposer := p } } } :=
  ⟨h.setNode (h.node.withProposer hp), fun ht => hacc (h.idle.task ht), h.idle.undecided⟩

theorem Settled.withAcceptor {r : Run U V} (h : Settled ids u base r) {a : Acceptor U V}
    (ha : AcceptorInv (r.network base u) u r.node.instanceNumber a) :
    Settled ids u base
      { r with node := { r.node with paxos := { r.node.paxos with acceptor := a } } } :=
  ⟨h.setNode (h.node.withAcceptor ha), h.idle.task, h.idle.undecided⟩

/-! ## Instances -/

theorem NodeInv.advanced (h : NodeInv ids net u n) {i : ℕ} (hlt : n.instanceNumber < i)
    {value : Option V} (hheld : Held ids net i value) (catchup : Bool) :
    NodeInv ids net u (n.advanced i value catchup) := by
  have hnew : ∀ {m}, Says net u m → m.instanceNumber < i := fun hm => (h.own hm).trans_lt hlt
  have hpaxos : (n.advanced i value catchup).paxos = .init u (ids.card / 2 + 1) ⊥ ⊥ none := by
    show PaxosInstance.init n.networkUid (n.peers.length / 2 + 1) ⊥ ⊥ none = _
    rw [h.uid, h.peers]
  refine ⟨h.mem, h.uid, h.peers, fun hm => (hnew hm).le, ?_, ?_, ?_, hheld, ?_, ?_⟩
  · rw [hpaxos]
    exact .init hnew
  · rw [hpaxos]
    exact .init hnew
  · rw [hpaxos]
    exact .init u i
  · refine List.pairwise_append.mpr ⟨h.updates, List.pairwise_singleton _ _, ?_⟩
    intro x hx y hy
    rw [List.mem_singleton] at hy
    subst hy
    exact (h.update x hx).2.1.trans_lt hlt
  · intro x hx
    rcases List.mem_append.mp hx with hx | hx
    · obtain ⟨hpos, hle, hx'⟩ := h.update x hx
      exact ⟨hpos, hle.trans hlt.le, hx'⟩
    · rw [List.mem_singleton] at hx
      subst hx
      exact ⟨by show 0 < i; omega, le_rfl, hheld⟩

/-- `save_state` in the current instance. -/
theorem Settled.save {r : Run U V} (h : Settled ids u base r)
    (promised accepted : WithBot (ProposalID U)) (value : Option V) (file : Saved U V) :
    Settled ids u base { r with node := { r.node with
      toSaved := ⟨r.node.instanceNumber, r.node.currentValue, promised, accepted, value⟩
      stateFile := file } } :=
  ⟨h.setNode ⟨h.node.mem, h.node.uid, h.node.peers, h.node.own, h.node.proposer, h.node.acceptor,
    h.node.learner, h.node.held, h.node.updates, h.node.update⟩, h.idle.task, h.idle.undecided⟩

theorem Settled.observeProposal {r : Run U V} (h : Settled ids u base r)
    (seen : WithBot (ProposalID U)) : Settled ids u base
      { r with node := { r.node with paxos := r.node.paxos.observeProposal seen } } :=
  h.withProposer (h.node.proposer.observeProposal seen) fun ha => ha.observeProposal seen

/-- A datagram is delivered only after it was sent. -/
def Event.Sent (base : Net U V) : Event U V → Prop
  | .datagram fromUid m => Says base fromUid m
  | _ => True

theorem Speaks.sendable {e : Event U V} {m : Message U V} (hm : Speaks n e m) (hidle : Idle n) :
    Sendable n m := by
  obtain ⟨hi, hm⟩ := hm
  refine ⟨hi, ?_⟩
  cases m with
  | accept i p v => exact hidle.task hm
  | promise i p last value => exact hm
  | accepted i p v => exact hm.1
  | catchup i value => exact hm
  | _ => trivial

theorem Settled.send {r : Run U V} (h : Settled ids u base r) {m : Message U V}
    (hm : Sendable r.node m) (toUid : U) (writes : List Bool) :
    Settled ids u base { r with writes, sent := r.sent ++ [⟨toUid, m, r.node⟩] } := by
  have hnet : Run.network base u { r with writes, sent := r.sent ++ [⟨toUid, m, r.node⟩] } =
      r.network base u ++ [⟨u, toUid, m⟩] := by simp [Run.network]
  refine ⟨⟨?_, ?_, h.callback⟩, h.idle⟩
  · rw [hnet]
    exact h.net.send h.node hm toUid
  · rw [hnet]
    refine h.node.grow (List.subset_append_left _ _) fun {m'} hs => ?_
    rcases says_append.mp hs with hs | ⟨-, rfl⟩
    · exact .inl hs
    · exact .inr hm

variable [DecidableEq V] {e : Event U V} {r r' : Run U V}

/-- The value of the instance that a node enters is decided. -/
theorem Settled.held (h : Settled ids u base r) (he : e.Sent base) {i : ℕ} {value : Option V}
    {catchup : Bool} (hi : Enters r.node e i value catchup) :
    Held ids (r.network base u) i value := by
  cases hi with
  | @resolution w p v m hevent hm =>
    subst hevent
    have hl := h.node.learner.receiveAccepted h.net h.idle.undecided (r.heard he)
    intro k hk
    obtain rfl : r.node.instanceNumber = k := Nat.succ.inj hk
    exact ⟨v, rfl, hl.decided hm⟩
  | catchup hevent hlt =>
    subst hevent
    exact h.net.ok (r.heard he)

/-- **Every change keeps the invariants.** -/
theorem Settled.change (he : e.Sent base) (h : Settled ids u base r) (hc : Change n e r r') :
    Settled ids u base r' := by
  cases hc with
  | send toUid writes hm => exact h.send (hm.sendable h.idle) toUid writes
  | fail writes => exact ⟨⟨h.net, h.node, h.callback⟩, h.idle⟩
  | start hidle hf =>
    refine ⟨h.setNode (h.node.withTasks _ _ _), ?_, h.idle.undecided⟩
    rintro p v ⟨⟩
    exact hf
  | timers drive window htask =>
    refine ⟨h.setNode (h.node.withTasks _ _ _), fun hrun => ?_, h.idle.undecided⟩
    rcases htask with rfl | hidle
    · exact h.idle.task hrun
    · exact absurd hrun (hidle _)
  | @propose value he' hr hnone =>
    exact h.withProposer (h.node.proposer.proposeValue value) fun ha => ha.proposeValue value
  | prepare he' hstop hr hidle =>
    exact ⟨h.setNode (h.node.withProposer h.node.proposer.prepare),
      fun hrun => absurd hrun (hidle _), h.idle.undecided⟩
  | @nack w p promised task hr he' hidle =>
    -- the Prepare that `paxos.receive_nack` starts would leave a task of the old proposal behind
    have hnode := h.node.withProposer (h.node.proposer.receiveNack w p promised)
    exact ⟨h.setNode (hnode.withTasks _ _ _), fun hrun => absurd hrun (hidle _), h.idle.undecided⟩
  | @promise w p last value he' =>
    subst he'
    exact h.withProposer (h.node.proposer.receivePromise h.net (r.heard he))
      fun ha => ha.receivePromise w p last value
  | observe p => exact h.observeProposal p
  | promised hr he' hle =>
    exact ((h.observeProposal _).withAcceptor (h.node.acceptor.promise hle)).save _ _ _ _
  | @accepted w p v hr he' hle =>
    subst he'
    exact ((h.observeProposal _).withAcceptor (h.node.acceptor.accept hle
      ⟨w, r.heard he⟩)).save _ _ _ _
  | learn he' hnone =>
    subst he'
    have hl := h.node.learner.receiveAccepted h.net h.idle.undecided (r.heard he)
    exact ⟨h.setNode (h.node.withLearner hl.inv), h.idle.task, hl.undecided hnone⟩
  | advance hi hidle =>
    have hnode := h.node.advanced hi.lt (h.held he hi)
    exact ⟨h.setNode ((hnode _).withTasks _ _ _), fun hrun => absurd hrun (hidle _), rfl⟩
  | advanceRaised hi hr hc => cases h.callback.symm.trans hc

theorem Settled.reached (he : e.Sent base) (h : Settled ids u base r) (hr : Reached n e r r') :
    Settled ids u base r' := by
  induction hr with
  | refl => exact h
  | tail _ hc ih => exact ih.change he hc

/-- **Every event keeps the invariants**, however its sends go. -/
theorem step_settled (he : e.Sent base) {writes : List Bool}
    (h : Settled ids u base ⟨n, [], writes, false⟩) :
    Settled ids u base (n.step e writes false) :=
  h.reached he (step_reached n e writes false)

end Paxos
