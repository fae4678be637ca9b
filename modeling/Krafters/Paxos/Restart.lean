import Krafters.Paxos.Changes
import Krafters.Paxos.Cluster

/-!
# One value per proposal id, when nodes crash and restart

Nodes may crash at any moment and come back from their state file, which holds what the
acceptor promised and accepted but not the proposal counter.  `one_value_per_ballot`: all
Accept messages of an instance with one proposal id carry one value, as long as no node
starts a proposal with an id that it has sent Accept messages with before its crash.
`ballot_reused` is a run in which a restarted node does.
-/

namespace Paxos

variable {U V : Type}

/-! ## Algorithm -/

/-- The instance and the proposal id of an Accept message. -/
def Message.ballot : Message U V → Option (ℕ × ProposalID U)
  | .accept i p _ => some (i, p)
  | _ => none

variable [LinearOrder U]

/-- The ballots in which `u` has sent Accept messages. -/
def ballots (net : Net U V) (u : U) : List (ℕ × ProposalID U) :=
  net.filterMap fun k => if k.fromUid = u then k.message.ballot else none

/-- The instance and the proposal id of the proposal that the event makes the node start. -/
def Event.starts (n : ReplicatedValue U V) : Event U V → Option (ℕ × ProposalID U)
  | .append _ =>
    if n.stoppable then some (n.instanceNumber, n.paxos.prepare.proposer.proposalId) else none
  | .drive =>
    if n.stoppable ∧ n.delayedDrive = some true then
      some (n.instanceNumber, n.paxos.prepare.proposer.proposalId)
    else none
  | .datagram fromUid (.nack i p promised) =>
    let id := (n.paxos.receiveNack fromUid p promised).proposer.proposalId
    if i = n.instanceNumber ∧ id ≠ n.paxos.proposer.proposalId then some (i, id) else none
  | _ => none

namespace Cluster

/-- Node `u` is `n` now, and has sent the datagrams. -/
def resume (s : System U V) (u : U) (n : ReplicatedValue U V) (sent : List (Sent U V)) :
    System U V :=
  ⟨Function.update s.nodes u n, s.net ++ sent.map fun d => ⟨u, d.toUid, d.message⟩⟩

/-- One step of a cluster whose nodes may crash; the events all meet `Ok`. -/
inductive FaultyStep [DecidableEq V] (c : Cluster U V)
    (Ok : System U V → U → Event U V → Bool → Prop) : System U V → System U V → Prop
  | event {s : System U V} {u : U} {e : Event U V} (writes : List Bool) {callback : Bool}
      (hu : u ∈ c.ids) (he : Enabled s u e) (hok : Ok s u e callback) :
      FaultyStep c Ok s (resume s u ((s.nodes u).step e writes callback).node
        ((s.nodes u).step e writes callback).sent)
  /-- a crash between two events -/
  | crash {s : System U V} {u : U} (hu : u ∈ c.ids) :
      FaultyStep c Ok s (resume s u (.load u (c.peers u) (s.nodes u).stateFile) [])
  /-- a crash in the course of an event, when `k` datagrams have left -/
  | crashAt {s : System U V} {u : U} {e : Event U V} (writes : List Bool) {callback : Bool}
      (k : ℕ) (hu : u ∈ c.ids) (he : Enabled s u e) (hok : Ok s u e callback) :
      FaultyStep c Ok s (resume s u
        (.load u (c.peers u) (((s.nodes u).step e writes callback).nodeAt k).stateFile)
        (((s.nodes u).step e writes callback).sent.take k))

def ReachableFaulty [DecidableEq V] (c : Cluster U V)
    (Ok : System U V → U → Event U V → Bool → Prop) (s : System U V) : Prop :=
  Relation.ReflTransGen (c.FaultyStep Ok) c.initial s

/-- No Accept message of the node was sent in the ballot that it is about to start. -/
def FreshBallot (s : System U V) (u : U) (e : Event U V) : Prop :=
  ∀ b ∈ e.starts (s.nodes u), b ∉ ballots s.net u

instance (s : System U V) (u : U) (e : Event U V) : Decidable (FreshBallot s u e) := by
  unfold FreshBallot
  infer_instance

/-- The node starts fresh ballots only, and no callback that raises leaves an Accept message of
the old instance to be repeated. -/
structure Careful (s : System U V) (u : U) (e : Event U V) (callback : Bool) : Prop where
  fresh : FreshBallot s u e
  calm : callback = true → ∀ p v, ¬ LoopingCall.Runs (s.nodes u).retransmitTask (.accept p v)

/-- A step by choice of an event or of a node that crashes. -/
inductive FaultyMove (U V : Type)
  | move (m : Move U V)
  | crash (u : U)

/-- A run in which every write works and every callback returns; moves that are not there or fail
the check are skipped. -/
def replay [DecidableEq V] (c : Cluster U V) (check : System U V → U → Event U V → Bool)
    (s : System U V) (l : List (FaultyMove U V)) : System U V :=
  l.foldl (fun s m => match m with
    | .move m => match move s m with
      | some (u, e) =>
        if u ∈ c.ids ∧ check s u e then
          resume s u ((s.nodes u).step e [] false).node ((s.nodes u).step e [] false).sent
        else s
      | none => s
    | .crash u =>
      if u ∈ c.ids then resume s u (.load u (c.peers u) (s.nodes u).stateFile) [] else s) s

end Cluster

/-! ## Lemmas -/

/-! The values that a learner counts for a proposal id. -/

/-- What the learner has counted is in `G`. -/
def Learner.Counts (l : Learner U V) (G : ProposalID U → V → Prop) : Prop :=
  ∀ p ps, l.proposals p = some ps → G p ps.value

section Learner

variable {l : Learner U V} {G G' : ProposalID U → V → Prop}

omit [LinearOrder U] in
theorem Learner.Counts.mono (h : l.Counts G) (hG : ∀ p v, G p v → G' p v) : l.Counts G' :=
  fun p ps hp => hG p _ (h p ps hp)

theorem Learner.Counts.update (h : l.Counts G) {p : ProposalID U}
    {status : Option (ProposalStatus U V)} (hp : ∀ ps, status = some ps → G p ps.value) :
    { l with proposals := Function.update l.proposals p status }.Counts G := by
  intro q ps hq
  by_cases hqp : q = p
  · subst hqp
    simp only [Function.update_self] at hq
    exact hp ps hq
  · simp only [Function.update_of_ne hqp] at hq
    exact h q ps hq

theorem Learner.Counts.release (h : l.Counts G) (a : U) (last : WithBot (ProposalID U)) :
    (l.release a last).1.Counts G := by
  unfold Learner.release
  split
  · exact h
  · next last =>
    split
    · exact h
    · next ps hps =>
      simp only
      split
      · apply h.update
        intro ps' hps'
        split at hps'
        · cases hps'
        · cases hps'
          exact h last ps hps
      · apply h.update
        intro ps' hps'
        cases hps'
        exact h last ps hps

theorem Learner.release_error (l : Learner U V) (a : U) (last : WithBot (ProposalID U)) :
    (l.release a last).2 ≠ .error .valueMismatch := by
  unfold Learner.release
  split
  · simp
  · split
    · simp
    · simp only
      split <;> simp

variable [DecidableEq V]

/-- A value that is the only one of its id is counted without a mismatch. -/
theorem Learner.Counts.count (h : l.Counts G) (a : U) {p : ProposalID U} {v : V} (hv : G p v)
    (huniq : ∀ w, G p w → w = v) :
    (l.count a p v).1.Counts G ∧ (l.count a p v).2 ≠ .error .valueMismatch := by
  have hvalue : ((l.proposals p).getD ⟨0, 0, ∅, v⟩).value = v := by
    cases hp : l.proposals p with
    | none => rfl
    | some ps => exact huniq _ (h p ps hp)
  simp only [Learner.count, hvalue, if_true]
  split
  · refine ⟨?_, by simp⟩
    rintro q ps ⟨⟩
  · refine ⟨h.update fun ps hps => ?_, by simp⟩
    cases hps
    exact hvalue.symm ▸ hv

theorem Learner.Counts.receiveAccepted (h : l.Counts G) (a : U) {p : ProposalID U} {v : V}
    (hv : G p v) (huniq : ∀ w, G p w → w = v) :
    (l.receiveAccepted a p v).1.Counts G ∧
      (l.receiveAccepted a p v).2 ≠ .error .valueMismatch := by
  unfold Learner.receiveAccepted
  split
  · simp only
    split
    · exact ⟨h, by simp⟩
    · exact ⟨h, by simp⟩
  · simp only
    split
    · exact ⟨h, by simp⟩
    · have hrel := Learner.Counts.release
        (l := { l with acceptors := Function.update l.acceptors a p }) h a (l.acceptors a)
      have hkey := Learner.release_error
        { l with acceptors := Function.update l.acceptors a p } a (l.acceptors a)
      split
      · next l' e heq =>
        rw [heq] at hrel hkey
        refine ⟨hrel, ?_⟩
        rintro ⟨⟩
        exact hkey rfl
      · next l' heq =>
        rw [heq] at hrel
        exact hrel.count a hv huniq

end Learner

/-! The proposer: an id with which Accept messages were sent is the present one, with its value. -/

structure ProposerBallots (net : Net U V) (u : U) (i : ℕ) (p : Proposer U V) : Prop where
  uid : p.networkUid = u
  proposalUid : p.proposalId.uid = u
  number : p.proposalId.number ≤ p.highestProposalId.number
  started : p.promisesReceived ≠ none → 0 < p.proposalId.number
  leader : p.leader = true → p.promisesReceived ≠ none
  own : ∀ {v}, Says net u (.accept i p.proposalId v) → p.Accepting p.proposalId v

namespace ProposerBallots

variable {net net' : Net U V} {u : U} {i : ℕ} {p : Proposer U V}

omit [LinearOrder U] in
theorem grow (h : ProposerBallots net u i p)
    (hnew : ∀ {v}, Says net' u (.accept i p.proposalId v) →
      Says net u (.accept i p.proposalId v) ∨ p.Accepting p.proposalId v) :
    ProposerBallots net' u i p :=
  ⟨h.uid, h.proposalUid, h.number, h.started, h.leader, fun hs => (hnew hs).elim h.own id⟩

omit [LinearOrder U] in
theorem init (q : ℕ) (hpos : ∀ {id v}, Says net u (.accept i id v) → 0 < id.number) :
    ProposerBallots net u i (Proposer.init u q) where
  uid := rfl
  proposalUid := rfl
  number := le_rfl
  started h := absurd rfl h
  leader h := by cases h
  own hs := absurd (hpos hs) (lt_irrefl 0)

theorem observeProposal (h : ProposerBallots net u i p) (seen : WithBot (ProposalID U)) :
    ProposerBallots net u i (p.observeProposal seen) := by
  have hle := p.le_observeProposal seen
  rw [Proposer.observeProposal_eq]
  exact ⟨h.uid, h.proposalUid, h.number.trans hle, h.started, h.leader,
    fun hs => ⟨rfl, (h.own hs).leader, (h.own hs).proposedValue⟩⟩

omit [LinearOrder U] in
theorem proposeValue (h : ProposerBallots net u i p) (value : Option V) :
    ProposerBallots net u i (p.proposeValue value).1 := by
  have hown : ∀ {v}, Says net u (.accept i p.proposalId v) →
      (p.proposeValue value).1.Accepting p.proposalId v := fun hs => (h.own hs).proposeValue value
  unfold Proposer.proposeValue at hown ⊢
  split at hown
  · exact ⟨h.uid, h.proposalUid, h.number, h.started, h.leader, hown⟩
  · exact ⟨h.uid, h.proposalUid, h.number, h.started, h.leader, hown⟩

omit [LinearOrder U] in
theorem prepare (h : ProposerBallots net u i p)
    (hfresh : ∀ {v}, ¬ Says net u (.accept i p.prepare.proposalId v)) :
    ProposerBallots net u i p.prepare where
  uid := h.uid
  proposalUid := h.uid
  number := le_rfl
  started _ := Nat.succ_pos _
  leader h := by cases h
  own hs := absurd hs hfresh

/-- A Nack starts a proposal or leaves all but the counters as it is. -/
theorem receiveNack (h : ProposerBallots net u i p) (fromUid : U) (id : ProposalID U)
    (promised : WithBot (ProposalID U))
    (hfresh : (p.receiveNack fromUid id promised).proposalId ≠ p.proposalId →
      ∀ {v}, ¬ Says net u (.accept i (p.receiveNack fromUid id promised).proposalId v)) :
    ProposerBallots net u i (p.receiveNack fromUid id promised) := by
  have h' := h.observeProposal promised
  have hid := p.observeProposal_proposalId promised
  revert hfresh
  simp only [Proposer.receiveNack]
  split
  · exact fun _ => h'
  · next nacks _ =>
    have hnacks : ProposerBallots net u i
        { p.observeProposal promised with nacksReceived := some (insert fromUid nacks) } :=
      ⟨h'.uid, h'.proposalUid, h'.number, h'.started, h'.leader,
        fun hs => ⟨rfl, (h'.own hs).leader, (h'.own hs).proposedValue⟩⟩
    split
    · split
      · intro hfresh
        refine hnacks.prepare (hfresh fun heq => ?_)
        -- the new number is above all that were seen
        have hnumber : (p.observeProposal promised).highestProposalId.number + 1 =
            (p.observeProposal promised).proposalId.number := by
          rw [hid, ← heq]
          rfl
        have := h'.number
        omega
      · exact fun _ => hnacks
    · exact fun _ => h'

theorem receivePromise (h : ProposerBallots net u i p) (a : U) (id : ProposalID U)
    (last : WithBot (ProposalID U)) (value : Option V) :
    ProposerBallots net u i (p.receivePromise a id last value).1 := by
  have hframe := p.receivePromise_frame a id last value
  refine ⟨hframe.networkUid.trans h.uid, ?_, ?_, ?_, ?_, ?_⟩
  · rw [hframe.proposalId]
    exact h.proposalUid
  · rw [hframe.proposalId]
    exact h.number.trans hframe.highest
  · rw [hframe.proposalId]
    exact fun hne => h.started fun hnone => hne (hframe.promises.mpr hnone)
  · intro hleader hnone
    have hnone := hframe.promises.mp hnone
    rcases hframe.leader hleader with hl | hne
    · exact h.leader hl hnone
    · exact hne hnone
  · rw [hframe.proposalId]
    exact fun hs => (h.own hs).receivePromise a id last value

end ProposerBallots

/-! The network and the nodes. -/

structure NetBallots (net : Net U V) : Prop where
  own : ∀ {u i p v}, Says net u (.accept i p v) → p.uid = u ∧ 0 < p.number
  unique : ∀ {u i p v v'}, Says net u (.accept i p v) → Says net u (.accept i p v') → v = v'
  proposed : ∀ {u i p v}, Says net u (.accepted i p v) → AcceptSent net i p v

omit [LinearOrder U] in
theorem NetBallots.acceptSent_unique {net : Net U V} (h : NetBallots net) {i : ℕ}
    {p : ProposalID U} {v v' : V} (hv : AcceptSent net i p v) (hv' : AcceptSent net i p v') :
    v = v' := by
  obtain ⟨u, hu⟩ := hv
  obtain ⟨u', hu'⟩ := hv'
  obtain rfl : u = u' := (h.own hu).1.symm.trans (h.own hu').1
  exact h.unique hu hu'

structure NodeBallots (net : Net U V) (u : U) (n : ReplicatedValue U V) : Prop where
  uid : n.networkUid = u
  file : n.stateFile.instanceNumber = n.instanceNumber
  past : ∀ {i p v}, Says net u (.accept i p v) → i ≤ n.instanceNumber
  proposer : ProposerBallots net u n.instanceNumber n.paxos.proposer
  learner : n.paxos.learner.Counts (AcceptSent net n.instanceNumber)
  task : ∀ {p v}, LoopingCall.Runs n.retransmitTask (.accept p v) →
    n.paxos.proposer.Accepting p v

omit [LinearOrder U] in
/-- What others send does not matter to a node. -/
theorem NodeBallots.grow {net net' : Net U V} {u : U} {n : ReplicatedValue U V}
    (h : NodeBallots net u n) (hsub : net ⊆ net') (hnew : ∀ {m}, Says net' u m → Says net u m) :
    NodeBallots net' u n :=
  ⟨h.uid, h.file, fun hs => h.past (hnew hs), h.proposer.grow fun hs => .inl (hnew hs),
    h.learner.mono fun _ _ ha => ha.mono hsub, h.task⟩

omit [LinearOrder U] in
/-- A node comes back with nothing but what its state file holds. -/
theorem NodeBallots.load {net : Net U V} {u : U} {n : ReplicatedValue U V}
    (h : NodeBallots net u n) (hnet : NetBallots net) (peers : List U) :
    NodeBallots net u (.load u peers n.stateFile) where
  uid := rfl
  file := rfl
  past hs := h.file.symm ▸ h.past hs
  proposer := .init _ fun hs => (hnet.own hs).2
  learner := by rintro p ps ⟨⟩
  task := by rintro p v ⟨⟩

omit [LinearOrder U] in
/-- In a new instance the node has sent nothing. -/
theorem NodeBallots.advanced {net : Net U V} {u : U} {n : ReplicatedValue U V}
    (h : NodeBallots net u n) (hnet : NetBallots net) {i : ℕ} (hlt : n.instanceNumber < i)
    (value : Option V) (catchup : Bool) {task : Option (LoopingCall U V)}
    (htask : ∀ p v, ¬ LoopingCall.Runs task (.accept p v)) :
    NodeBallots net u { n.advanced i value catchup with retransmitTask := task } where
  uid := h.uid
  file := rfl
  past hs := (h.past hs).trans hlt.le
  proposer := by
    show ProposerBallots net u i (.init n.networkUid n.quorumSize)
    rw [h.uid]
    exact .init _ fun hs => (hnet.own hs).2
  learner := by rintro p ps ⟨⟩
  task hrun := absurd hrun (htask _ _)

/-! The course of an event. -/

/-- In the course of an event of node `n`. -/
structure Voted (base : Net U V) (u : U) (n : ReplicatedValue U V) (r : Run U V) : Prop where
  net : NetBallots (r.network base u)
  node : NodeBallots (r.network base u) u r.node
  calm : r.callback = true → ∀ p v, ¬ LoopingCall.Runs n.retransmitTask (.accept p v)

variable {base : Net U V} {u : U} {n : ReplicatedValue U V} {e : Event U V} {r r' : Run U V}

theorem mem_ballots {net : Net U V} {i : ℕ} {p : ProposalID U} {v : V}
    (h : Says net u (.accept i p v)) : (i, p) ∈ ballots net u := by
  obtain ⟨toUid, hmem⟩ := h
  exact List.mem_filterMap.mpr ⟨_, hmem, by simp [Message.ballot]⟩

theorem Voted.send (he : e.Sent base) (h : Voted base u n r) {m : Message U V}
    (hm : Speaks r.node e m) (toUid : U) (writes : List Bool) :
    Voted base u n { r with writes, sent := r.sent ++ [⟨toUid, m, r.node⟩] } := by
  have hnet : Run.network base u { r with writes, sent := r.sent ++ [⟨toUid, m, r.node⟩] } =
      r.network base u ++ [⟨u, toUid, m⟩] := by simp [Run.network]
  have hsub : r.network base u ⊆ r.network base u ++ [⟨u, toUid, m⟩] :=
    List.subset_append_left _ _
  obtain ⟨hi, hm⟩ := hm
  have accepting : ∀ {i p v}, m = .accept i p v → i = r.node.instanceNumber ∧
      r.node.paxos.proposer.Accepting p v := by
    rintro i p v rfl
    exact ⟨hi, h.node.task hm⟩
  have hp := h.node.proposer
  refine ⟨hnet ▸ ⟨fun hs => ?_, fun hs hs' => ?_, fun hs => ?_⟩,
    hnet ▸ ⟨h.node.uid, h.node.file, fun hs => ?_, hp.grow fun hs => ?_,
      h.node.learner.mono fun _ _ ha => ha.mono hsub, h.node.task⟩, h.calm⟩
  · rcases says_append.mp hs with hs | ⟨rfl, hmm⟩
    · exact h.net.own hs
    · obtain ⟨-, hacc⟩ := accepting hmm.symm
      rw [hacc.proposalId]
      exact ⟨hp.proposalUid, hp.started (hp.leader hacc.leader)⟩
  · -- an Accept that the node sends now agrees with those it sent before
    have agree : ∀ {i p v v'}, Says (r.network base u) u (.accept i p v) → m = .accept i p v' →
        v = v' := by
      intro i p v v' hold hmm
      obtain ⟨rfl, hacc⟩ := accepting hmm
      have hid := hacc.proposalId
      subst hid
      exact Option.some.inj ((hp.own hold).proposedValue.symm.trans hacc.proposedValue)
    obtain hs | ⟨rfl, hmm⟩ := says_append.mp hs <;>
      rcases says_append.mp hs' with hs' | ⟨hw, hmm'⟩
    · exact h.net.unique hs hs'
    · subst hw
      exact agree hs hmm'.symm
    · exact (agree hs' hmm.symm).symm
    · cases hmm.trans hmm'.symm
      rfl
  · rcases says_append.mp hs with hs | ⟨rfl, rfl⟩
    · exact (h.net.proposed hs).mono hsub
    · obtain ⟨-, w, rfl⟩ := hm
      exact AcceptSent.mono hsub ⟨w, r.heard he⟩
  · rcases says_append.mp hs with hs | ⟨-, hmm⟩
    · exact h.node.past hs
    · exact (accepting hmm.symm).1.le
  · rcases says_append.mp hs with hs | ⟨-, hmm⟩
    · exact .inl hs
    · exact .inr (accepting hmm.symm).2

omit [LinearOrder U] in
/-- Only attributes change, and the ballots stay as they are. -/
theorem Voted.setNode (h : Voted base u n r) {m : ReplicatedValue U V}
    (hm : NodeBallots (r.network base u) u m) : Voted base u n { r with node := m } :=
  ⟨h.net, hm, h.calm⟩

variable [DecidableEq V]

theorem Voted.change (he : e.Sent base) (hfresh : ∀ b ∈ e.starts n, b ∉ ballots base u)
    (h : Voted base u n r) (hc : Change n e r r') : Voted base u n r' := by
  obtain ⟨huid, hfile, hpast, hp, hl, ht⟩ := h.node
  cases hc with
  | send toUid writes hm => exact h.send he hm toUid writes
  | fail writes => exact ⟨h.net, h.node, h.calm⟩
  | start hidle hf =>
    refine h.setNode ⟨huid, hfile, hpast, hp, hl, ?_⟩
    rintro p v ⟨⟩
    exact hf
  | timers drive window htask =>
    refine h.setNode ⟨huid, hfile, hpast, hp, hl, fun hrun => ?_⟩
    rcases htask with rfl | hidle
    · exact ht hrun
    · exact absurd hrun (hidle _)
  | propose he' hr hnone =>
    exact h.setNode ⟨huid, hfile, hpast, hp.proposeValue _, hl, fun hrun =>
      (ht hrun).proposeValue _⟩
  | prepare he' hstop hr hidle =>
    refine h.setNode ⟨huid, hfile, hpast, hp.prepare fun {v} hs => ?_, hl, fun hrun =>
      absurd hrun (hidle _)⟩
    rw [Run.network_of_sent_nil hr.sent] at hs
    apply hfresh (n.instanceNumber, n.paxos.prepare.proposer.proposalId)
    · rcases he' with ⟨value, rfl⟩ | ⟨rfl, hdrive⟩
      · simp [Event.starts, hstop]
      · simp [Event.starts, hstop, hdrive]
    · rw [← hr.instanceNumber, ← hr.proposalId]
      exact mem_ballots hs
  | @nack w p promised task hr he' hidle =>
    refine h.setNode ⟨huid, hfile, hpast, hp.receiveNack _ _ _ fun hne {v} hs => ?_, hl,
      fun hrun => absurd hrun (hidle _)⟩
    rw [Run.network_of_sent_nil hr.sent, hr.node] at hs
    rw [hr.node] at hne
    change (n.paxos.receiveNack w p promised).proposer.proposalId ≠ _ at hne
    refine hfresh (n.instanceNumber, (n.paxos.receiveNack w p promised).proposer.proposalId) ?_
      (mem_ballots hs)
    rw [he', hr.node]
    simp only [Event.starts, true_and]
    rw [if_pos hne]
    rfl
  | promise he' =>
    exact h.setNode ⟨huid, hfile, hpast, hp.receivePromise _ _ _ _, hl, fun hrun =>
      (ht hrun).receivePromise _ _ _ _⟩
  | observe p =>
    exact h.setNode ⟨huid, hfile, hpast, hp.observeProposal p, hl, fun hrun =>
      (ht hrun).observeProposal p⟩
  | @promised w p hr he' hle | @accepted w p v hr he' hle =>
    exact h.setNode ⟨huid, rfl, hpast, hp.observeProposal p, hl, fun hrun =>
      (ht hrun).observeProposal p⟩
  | learn he' hnone =>
    subst he'
    have hsent := h.net.proposed (r.heard he)
    exact h.setNode ⟨huid, hfile, hpast, hp, (hl.receiveAccepted _ hsent fun w hw =>
      h.net.acceptSent_unique hw hsent).1, ht⟩
  | advance hi hidle =>
    exact h.setNode (h.node.advanced h.net hi.lt _ _ fun _ _ => hidle _)
  | advanceRaised hi hr hcall =>
    exact h.setNode (h.node.advanced h.net hi.lt _ _ (hr.node ▸ h.calm hcall))

theorem Voted.reached (he : e.Sent base) (hfresh : ∀ b ∈ e.starts n, b ∉ ballots base u)
    (h : Voted base u n r) (hr : Reached n e r r') : Voted base u n r' := by
  induction hr with
  | refl => exact h
  | tail _ hc ih => exact ih.change he hfresh hc

/-! Runs of the cluster. -/

structure System.Ballots (ids : Finset U) (s : System U V) : Prop where
  net : NetBallots s.net
  node : ∀ w ∈ ids, NodeBallots s.net w (s.nodes w)

variable {c : Cluster U V} {s s' : System U V}

omit [LinearOrder U] [DecidableEq V] in
theorem Cluster.ballots_initial : c.initial.Ballots c.ids := by
  have hno : ∀ {w : U} {m : Message U V}, ¬ Says ([] : Net U V) w m := by
    rintro w m ⟨toUid, h⟩
    cases h
  refine ⟨⟨fun h => absurd h hno, fun h => absurd h hno, fun h => absurd h hno⟩, fun w hw =>
    ⟨rfl, rfl, fun h => absurd h hno, .init _ fun h => absurd h hno, ?_, ?_⟩⟩
  · rintro p ps ⟨⟩
  · rintro p v ⟨⟩

omit [DecidableEq V] in
/-- What one node does leaves the others alone. -/
theorem System.Ballots.resume (h : s.Ballots c.ids) {sent : List (Sent U V)}
    (hnet : NetBallots (s.net ++ sent.map fun d => ⟨u, d.toUid, d.message⟩))
    (hnode : NodeBallots (s.net ++ sent.map fun d => ⟨u, d.toUid, d.message⟩) u n) :
    (Cluster.resume s u n sent).Ballots c.ids := by
  refine ⟨hnet, fun w hw => ?_⟩
  by_cases hwu : w = u
  · subst hwu
    simp only [Cluster.resume, Function.update_self]
    exact hnode
  · simp only [Cluster.resume, Function.update_of_ne hwu]
    apply (h.node w hw).grow (List.subset_append_left _ _)
    rintro m ⟨toUid, hmem⟩
    rcases List.mem_append.mp hmem with hmem | hmem
    · exact ⟨toUid, hmem⟩
    · obtain ⟨d, -, hd⟩ := List.mem_map.mp hmem
      exact absurd (congrArg Packet.fromUid hd).symm hwu

theorem System.Ballots.step (h : s.Ballots c.ids) (hstep : c.FaultyStep Cluster.Careful s s') :
    s'.Ballots c.ids := by
  have start : ∀ {u : U} {e : Event U V} (writes : List Bool) {callback : Bool}, u ∈ c.ids →
      Cluster.Enabled s u e → Cluster.Careful s u e callback → ∀ {r},
      Reached (s.nodes u) e ⟨s.nodes u, [], writes, callback⟩ r →
      Voted s.net u (s.nodes u) r := by
    intro u e writes callback hu he hok r hr
    have hsent : e.Sent s.net := by
      cases e with
      | datagram fromUid m => exact ⟨u, he⟩
      | _ => trivial
    refine Voted.reached hsent hok.fresh ⟨?_, ?_, hok.calm⟩ hr
    · rw [Run.network_of_sent_nil rfl]
      exact h.net
    · rw [Run.network_of_sent_nil rfl]
      exact h.node u hu
  cases hstep with
  | event writes hu he hok =>
    have := start writes hu he hok (step_reached _ _ _ _)
    exact h.resume this.net this.node
  | crash hu =>
    apply h.resume
    · rw [List.map_nil, List.append_nil]
      exact h.net
    · rw [List.map_nil, List.append_nil]
      exact (h.node _ hu).load h.net _
  | @crashAt u e writes callback k hu he hok =>
    obtain ⟨r, hr, hsent, hnode⟩ :=
      (step_reached (s.nodes u) e writes callback).moment k (Nat.zero_le k)
    have := start writes hu he hok hr
    have hnet := this.net
    have hload := this.node.load hnet (c.peers u)
    rw [Run.network, hsent] at hnet hload
    rw [hnode] at hload
    exact h.resume hnet hload

theorem Cluster.ReachableFaulty.inv (hs : c.ReachableFaulty Careful s) : s.Ballots c.ids := by
  induction hs with
  | refl => exact Cluster.ballots_initial
  | tail _ hstep ih => exact ih.step hstep

theorem Cluster.ReachableFaulty.replay {Ok : System U V → U → Event U V → Bool → Prop}
    {check : System U V → U → Event U V → Bool}
    (hcheck : ∀ s u e, check s u e = true → Ok s u e false) (hs : c.ReachableFaulty Ok s)
    (l : List (FaultyMove U V)) : c.ReachableFaulty Ok (c.replay check s l) := by
  induction l generalizing s with
  | nil => exact hs
  | cons m l ih =>
    apply ih
    cases m with
    | move m =>
      dsimp only
      split
      · next u e hm =>
        split
        · next hu =>
          exact hs.tail (.event [] hu.1 (enabled_of_move hm) (hcheck s u e hu.2))
        · exact hs
      · exact hs
    | crash u =>
      dsimp only
      split
      · next hu => exact hs.tail (.crash hu)
      · exact hs

/-! ## Top theorems -/

/-- **One value per proposal id**: in every run of a cluster with lost, repeated and reordered
datagrams and with crashes at any moment, whose nodes never start a proposal with an id that they
have sent Accept messages with before, the Accept messages of one instance with one proposal id
agree, and the learner finds no mismatch in what it is sent. -/
theorem Cluster.one_value_per_ballot (c : Cluster U V) {s : System U V}
    (hs : c.ReachableFaulty Careful s) :
    (∀ i p v v', AcceptSent s.net i p v → AcceptSent s.net i p v' → v = v') ∧
    ∀ u ∈ c.ids, ∀ a p v, ⟨a, u, .accepted (s.nodes u).instanceNumber p v⟩ ∈ s.net →
      ((s.nodes u).paxos.receiveAccepted a p v).2 ≠ .error .valueMismatch := by
  have h := Cluster.ReachableFaulty.inv hs
  refine ⟨fun i p v v' hv hv' => h.net.acceptSent_unique hv hv', ?_⟩
  intro u hu a p v hmem
  have hsent := h.net.proposed ⟨u, hmem⟩
  exact ((h.node u hu).learner.receiveAccepted a hsent fun w hw =>
    h.net.acceptSent_unique hw hsent).2

/-! Finished runs are looked through for their datagrams. -/

/-- The kind of a message and its arguments. -/
def Message.fields : Message U V →
    ℕ × ℕ × WithBot (ProposalID U) × WithBot (ProposalID U) × Option V
  | .syncRequest i => (0, i, ⊥, ⊥, none)
  | .catchup i value => (1, i, ⊥, ⊥, value)
  | .nack i p promised => (2, i, p, promised, none)
  | .prepare i p => (3, i, p, ⊥, none)
  | .promise i p last value => (4, i, p, last, value)
  | .accept i p v => (5, i, p, ⊥, some v)
  | .accepted i p v => (6, i, p, ⊥, some v)

omit [LinearOrder U] [DecidableEq V] in
theorem Message.fields_injective :
    Function.Injective (Message.fields : Message U V → _) := by
  intro m m' h
  cases m <;> cases m' <;> simp_all [Message.fields]

set_option synthInstance.maxSize 512 in
instance : DecidableEq (Message U V) := Message.fields_injective.decidableEq

instance : DecidableEq (Packet U V) := fun k k' =>
  decidable_of_iff (k.fromUid = k'.fromUid ∧ k.toUid = k'.toUid ∧ k.message = k'.message) (by
    cases k
    cases k'
    simp)

instance {α : Type} (x : Except NodeError α) (error : NodeError) : Decidable (x = .error error) :=
  match x with
  | .error error' => decidable_of_iff (error' = error) (by simp)
  | .ok _ => isFalse (by simp)

/-- Node 1 crashes between its Prepare and the promises, starts the same id again and leads with
it; nodes 2 and 3 accept its value. -/
def restarted : System ℕ ℕ := threeNodes.replay
  (fun s u e => decide (Cluster.FreshBallot s u e)) threeNodes.initial
  [.move (.append 1 (some 7)), .move (.deliver 0), .move (.deliver 1), .crash 1,
    .move (.append 1 (some 8)), .move (.deliver 5), .move (.deliver 3), .move (.deliver 4),
    .move (.deliver 10), .move (.deliver 11), .move (.deliver 14)]

theorem restarted_reachable : threeNodes.ReachableFaulty Cluster.Careful restarted :=
  Cluster.ReachableFaulty.replay (fun _ _ _ h => ⟨of_decide_eq_true h, fun hc => by cases hc⟩)
    Relation.ReflTransGen.refl _

theorem one_value_restarted : ⟨3, 3, .accepted 0 ⟨1, 1⟩ 8⟩ ∈ restarted.net ∧
    ((restarted.nodes 3).paxos.receiveAccepted 3 ⟨1, 1⟩ 8).2 ≠ .error .valueMismatch := by
  have hmem : ⟨3, 3, .accepted 0 ⟨1, 1⟩ 8⟩ ∈ restarted.net :=
    by decide +kernel
  have hnumber : (restarted.nodes 3).instanceNumber = 0 := by decide +kernel
  refine ⟨hmem, (threeNodes.one_value_per_ballot restarted_reachable).2 3 (by decide) 3 ⟨1, 1⟩ 8 ?_⟩
  rw [hnumber]
  exact hmem

/-- Node 1 crashes after its Accept messages with value 7 and leads with the same id again, with
value 8; each value is accepted by a node, and the learner of node 3 gets both. -/
def reused : System ℕ ℕ := threeNodes.replay (fun _ _ _ => true) threeNodes.initial
  [.move (.append 1 (some 7)), .move (.deliver 0), .move (.deliver 1), .move (.deliver 3),
    .move (.deliver 4), .crash 1, .move (.append 1 (some 8)), .move (.deliver 8),
    .move (.deliver 9), .move (.deliver 11), .move (.deliver 12), .move (.deliver 6),
    .move (.deliver 15), .move (.deliver 18)]

theorem ballot_reused : threeNodes.ReachableFaulty (fun _ _ _ _ => True) reused ∧
    AcceptSent reused.net 0 ⟨1, 1⟩ 7 ∧ AcceptSent reused.net 0 ⟨1, 1⟩ 8 ∧
    ⟨3, 3, .accepted 0 ⟨1, 1⟩ 8⟩ ∈ reused.net ∧
    ((reused.nodes 3).paxos.receiveAccepted 3 ⟨1, 1⟩ 8).2 = .error .valueMismatch :=
  ⟨Cluster.ReachableFaulty.replay (fun _ _ _ _ => trivial) Relation.ReflTransGen.refl _,
    ⟨1, 1, by decide +kernel⟩, ⟨1, 1, by decide +kernel⟩, by decide +kernel, by decide +kernel⟩

end Paxos
