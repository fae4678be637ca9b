import Krafters.Paxos.Changes
import Krafters.Paxos.Cluster

/-!
# What becomes of an appended value

Runs of a cluster without crashes, with a record of the calls of `paxos_append` made so
far.  `append_settled`: the node of a call has been given the value as the one decided in
the instance of the call or a later one, or is going to propose it in the instance it is
in, unless another value was appended, on any node, in that instance or a later one.
`append_lost` is a run in which a value goes that way, and the caller is not told.
-/

namespace Paxos

variable {U V : Type}

/-! ## Algorithm -/

/-- A call of `paxos_append`: the node, the instance it was in, the value, and whether the call
returned normally. -/
structure Call (U V : Type) where
  node : U
  instanceNumber : ℕ
  value : Option V
  returned : Bool
deriving DecidableEq

variable [LinearOrder U]

def ReplicatedValue.returns (n : ReplicatedValue U V) (value : Option V) (writes : List Bool) :
    Bool :=
  match proposeUpdate value ⟨n, [], writes, false⟩ with
  | .ok _ _ => true
  | .error _ _ => false

/-- The call that an event of node `u` is. -/
def Event.calls (n : ReplicatedValue U V) (u : U) (writes : List Bool) :
    Event U V → List (Call U V)
  | .append value => [⟨u, n.instanceNumber, value, n.returns value writes⟩]
  | _ => []

namespace Call

/-- The callback was given the value, as the one decided in the instance of the call or later. -/
def Learned (call : Call U V) (n : ReplicatedValue U V) : Prop :=
  ∃ x ∈ n.updates, call.instanceNumber < x.instanceNumber ∧ x.value = call.value

/-- The value is what the node is going to propose in the instance it is in. -/
def Proposed (call : Call U V) (n : ReplicatedValue U V) : Prop :=
  n.paxos.proposer.proposedValue = call.value

/-- Another value was appended in the instance of the call or later, on whichever node. -/
def Contended (call : Call U V) (calls : List (Call U V)) : Prop :=
  ∃ other ∈ calls, call.instanceNumber ≤ other.instanceNumber ∧
    ∃ v, other.value = some v ∧ some v ≠ call.value

instance [DecidableEq V] (call : Call U V) (n : ReplicatedValue U V) :
    Decidable (call.Learned n) := by
  unfold Learned
  infer_instance

instance [DecidableEq V] (call : Call U V) (n : ReplicatedValue U V) :
    Decidable (call.Proposed n) := by
  unfold Proposed
  infer_instance

end Call

/-- The runs of a cluster, with the calls in the order in which they were made. -/
inductive Cluster.Logged [DecidableEq V] (c : Cluster U V) :
    System U V → List (Call U V) → Prop
  | initial : Logged c c.initial []
  | event {s : System U V} {calls : List (Call U V)} {u : U} {e : Event U V} (writes : List Bool)
      (h : Logged c s calls) (hu : u ∈ c.ids) (he : Enabled s u e) :
      Logged c (after s u e writes) (calls ++ e.calls (s.nodes u) u writes)

/-- A run in which every write works; moves that are not there are skipped. -/
def Cluster.record [DecidableEq V] (c : Cluster U V) (run : System U V × List (Call U V))
    (l : List (Move U V)) : System U V × List (Call U V) :=
  l.foldl (fun run m => match move run.1 m with
    | some (u, e) =>
      if u ∈ c.ids then (after run.1 u e [], run.2 ++ e.calls (run.1.nodes u) u []) else run
    | none => run) run

/-! ## Lemmas -/

/-- The value was appended in instance `i`. -/
def Called (calls : List (Call U V)) (i : ℕ) (v : V) : Prop :=
  ∃ call ∈ calls, call.instanceNumber = i ∧ call.value = some v

variable {calls calls' : List (Call U V)}

omit [LinearOrder U] in
theorem Called.mono (hsub : calls ⊆ calls') {i : ℕ} {v : V} (h : Called calls i v) :
    Called calls' i v := by
  obtain ⟨call, hmem, h⟩ := h
  exact ⟨call, hsub hmem, h⟩

omit [LinearOrder U] in
theorem Call.Contended.mono (hsub : calls ⊆ calls') {call : Call U V} (h : call.Contended calls) :
    call.Contended calls' := by
  obtain ⟨other, hmem, h⟩ := h
  exact ⟨other, hsub hmem, h⟩

omit [LinearOrder U] in
/-- A value appended in the instance of a call or later is that of the call, or contends. -/
theorem Called.eq_or_contended {call : Call U V} {i : ℕ} {v : V} (h : Called calls i v)
    (hle : call.instanceNumber ≤ i) : some v = call.value ∨ call.Contended calls := by
  obtain ⟨other, hmem, rfl, hv⟩ := h
  by_cases heq : some v = call.value
  · exact .inl heq
  · exact .inr ⟨other, hmem, hle, v, hv, heq⟩

theorem Proposer.observeProposal_proposedValue (p : Proposer U V)
    (seen : WithBot (ProposalID U)) : (p.observeProposal seen).proposedValue = p.proposedValue := by
  rw [Proposer.observeProposal_eq]

/-- A promise brings its own value or leaves the one there was. -/
theorem Proposer.receivePromise_proposedValue (p : Proposer U V) (a : U) (id : ProposalID U)
    (last : WithBot (ProposalID U)) (value : Option V) :
    (p.receivePromise a id last value).1.proposedValue = p.proposedValue ∨
      ∃ v, value = some v ∧ (p.receivePromise a id last value).1.proposedValue = some v := by
  have hseen := p.observeProposal_proposedValue id
  simp only [Proposer.receivePromise]
  split
  · split
    · exact .inl hseen
    · split
      · exact .inl hseen
      · have hrecord : ∀ s, ((p.observeProposal id).recordPromise s a last value).proposedValue =
            p.proposedValue ∨ ∃ v, value = some v ∧
              ((p.observeProposal id).recordPromise s a last value).proposedValue = some v := by
          intro s
          simp only [Proposer.recordPromise]
          split
          · cases value with
            | none => exact .inl hseen
            | some v => exact .inr ⟨v, rfl, rfl⟩
          · exact .inl hseen
        simp only [Proposer.countPromise]
        split <;> exact hrecord _
  · exact .inl hseen

theorem Proposer.receiveNack_proposedValue (p : Proposer U V) (a : U) (id : ProposalID U)
    (promised : WithBot (ProposalID U)) :
    (p.receiveNack a id promised).proposedValue = p.proposedValue := by
  have hseen := p.observeProposal_proposedValue promised
  simp only [Proposer.receiveNack]
  split
  · exact hseen
  · split
    · split <;> exact hseen
    · exact hseen

/-- What the calls made so far tell about node `u`. -/
structure NodeCalls (calls : List (Call U V)) (u : U) (n : ReplicatedValue U V) : Prop where
  proposed : ∀ {v}, n.paxos.proposer.proposedValue = some v → Called calls n.instanceNumber v
  task : ∀ {p v}, LoopingCall.Runs n.retransmitTask (.accept p v) →
    Called calls n.instanceNumber v
  last : n.instanceNumber = 0 ∨ ∃ x ∈ n.updates, x.instanceNumber = n.instanceNumber
  past : ∀ call ∈ calls, call.node = u → call.instanceNumber ≤ n.instanceNumber
  present : ∀ call ∈ calls, call.node = u → call.instanceNumber = n.instanceNumber →
    call.Proposed n ∨ call.Contended calls

namespace NodeCalls

variable {u : U} {n : ReplicatedValue U V}

omit [LinearOrder U] in
/-- Calls on other nodes can only contend. -/
theorem grow (h : NodeCalls calls u n) (hsub : calls ⊆ calls')
    (hnew : ∀ call ∈ calls', call.node = u → call ∈ calls) : NodeCalls calls' u n where
  proposed hv := (h.proposed hv).mono hsub
  task hrun := (h.task hrun).mono hsub
  last := h.last
  past call hmem hu := h.past call (hnew call hmem hu) hu
  present call hmem hu hi :=
    (h.present call (hnew call hmem hu) hu hi).imp_right (Call.Contended.mono hsub)

omit [LinearOrder U] in
/-- A proposer that proposes what it did, or a value appended in this instance. -/
theorem withPaxos (h : NodeCalls calls u n) {x : PaxosInstance U V}
    (hx : x.proposer.proposedValue = n.paxos.proposer.proposedValue ∨
      ∃ v, x.proposer.proposedValue = some v ∧ Called calls n.instanceNumber v) :
    NodeCalls calls u { n with paxos := x } := by
  refine ⟨fun {v} hv => ?_, h.task, h.last, h.past, fun call hmem hu hi => ?_⟩
  · rcases hx with heq | ⟨w, hw, hcalled⟩
    · exact h.proposed (heq.symm.trans hv)
    · obtain rfl := Option.some.inj (hw.symm.trans hv)
      exact hcalled
  · rcases hx with heq | ⟨w, hw, hcalled⟩
    · exact (h.present call hmem hu hi).imp_left heq.trans
    · exact (hcalled.eq_or_contended hi.le).imp_left hw.trans

omit [LinearOrder U] in
theorem withTask (h : NodeCalls calls u n) {task : Option (LoopingCall U V)}
    (htask : ∀ {p v}, LoopingCall.Runs task (.accept p v) → Called calls n.instanceNumber v)
    (drive : Option Bool) (window : ℕ) : NodeCalls calls u { n with
      retransmitTask := task, delayedDrive := drive, backoffWindow := window } :=
  ⟨h.proposed, htask, h.last, h.past, h.present⟩

omit [LinearOrder U] in
/-- In a new instance the node has made no calls and proposes nothing. -/
theorem advanced (h : NodeCalls calls u n) {i : ℕ} (hlt : n.instanceNumber < i)
    (value : Option V) (catchup : Bool) {task : Option (LoopingCall U V)}
    (hidle : ∀ g, ¬ LoopingCall.Runs task g) :
    NodeCalls calls u { n.advanced i value catchup with retransmitTask := task } where
  proposed := by rintro v ⟨⟩
  task hrun := absurd hrun (hidle _)
  last := .inr ⟨⟨i, value, catchup⟩, List.mem_append_right _ List.mem_cons_self, rfl⟩
  past call hmem hu := (h.past call hmem hu).trans hlt.le
  present call hmem hu hi := by
    have hle := h.past call hmem hu
    change call.instanceNumber = i at hi
    omega

omit [LinearOrder U] in
/-- The call itself: its value is proposed, or that of an earlier call or promise is. -/
theorem append (h : NodeCalls calls u n) (value : Option V) (returned : Bool) :
    NodeCalls (calls ++ [⟨u, n.instanceNumber, value, returned⟩]) u
      { n with paxos := n.paxos.proposeValue value } := by
  have hsub : calls ⊆ calls ++ [⟨u, n.instanceNumber, value, returned⟩] :=
    List.subset_append_left _ _
  have hold : ∀ call ∈ calls ++ [⟨u, n.instanceNumber, value, returned⟩],
      call ∈ calls ∨ call = ⟨u, n.instanceNumber, value, returned⟩ := by
    intro call hmem
    simpa using hmem
  have hvalue : n.paxos.proposer.proposedValue = none ∧
        (n.paxos.proposeValue value).proposer.proposedValue = value ∨
      (n.paxos.proposeValue value).proposer.proposedValue = n.paxos.proposer.proposedValue ∧
        n.paxos.proposer.proposedValue ≠ none := by
    simp only [PaxosInstance.proposeValue, Proposer.proposeValue]
    split
    · next w hw => exact .inr ⟨rfl, by simp [hw]⟩
    · next hnone => exact .inl ⟨hnone, rfl⟩
  have hcalled : ∀ {v}, (n.paxos.proposeValue value).proposer.proposedValue = some v →
      Called (calls ++ [⟨u, n.instanceNumber, value, returned⟩]) n.instanceNumber v := by
    intro v hv
    rcases hvalue with ⟨-, heq⟩ | ⟨heq, -⟩
    · exact ⟨_, List.mem_append_right _ List.mem_cons_self, rfl, heq.symm.trans hv⟩
    · exact (h.proposed (heq.symm.trans hv)).mono hsub
  refine ⟨hcalled, fun hrun => (h.task hrun).mono hsub, h.last, fun call hmem hu => ?_,
    fun call hmem hu hi => ?_⟩
  · rcases hold call hmem with hmem | rfl
    · exact h.past call hmem hu
    · exact le_rfl
  · cases hq : (n.paxos.proposeValue value).proposer.proposedValue with
    | some v => exact ((hcalled hq).eq_or_contended hi.le).imp_left hq.trans
    | none =>
      -- nothing was proposed and None was appended
      rcases hvalue with ⟨hnone, heq⟩ | ⟨heq, hne⟩
      · rcases hold call hmem with hmem | rfl
        · refine (h.present call hmem hu hi).imp (fun hp => ?_) (Call.Contended.mono hsub)
          exact hq.trans (hnone.symm.trans hp)
        · exact .inl heq
      · exact absurd (heq.symm.trans hq) hne

end NodeCalls

/-- In the course of an event of node `u`. -/
structure Kept (base : Net U V) (u : U) (calls : List (Call U V)) (r : Run U V) : Prop where
  sent : ∀ {i p v}, AcceptSent (r.network base u) i p v → Called calls i v
  node : NodeCalls calls u r.node
  callback : r.callback = false

variable {base : Net U V} {u : U} {n : ReplicatedValue U V} {e : Event U V} {r r' : Run U V}

theorem Kept.send (h : Kept base u calls r) {m : Message U V} (hm : Speaks r.node e m) (toUid : U)
    (writes : List Bool) :
    Kept base u calls { r with writes, sent := r.sent ++ [⟨toUid, m, r.node⟩] } := by
  have hnet : Run.network base u { r with writes, sent := r.sent ++ [⟨toUid, m, r.node⟩] } =
      r.network base u ++ [⟨u, toUid, m⟩] := by simp [Run.network]
  refine ⟨?_, h.node, h.callback⟩
  rintro i p v ⟨w, hw⟩
  rw [hnet] at hw
  rcases says_append.mp hw with hw | ⟨-, rfl⟩
  · exact h.sent ⟨w, hw⟩
  · obtain ⟨rfl, hrun⟩ := hm
    exact h.node.task hrun

variable [DecidableEq V]

theorem Kept.change (hpromise : ∀ {w i p last v}, e = .datagram w (.promise i p last (some v)) →
      ∃ q, AcceptSent base i q v)
    (hcall : ∀ {v}, e = .append (some v) → Called calls n.instanceNumber v)
    (h : Kept base u calls r) (hc : Change n e r r') : Kept base u calls r' := by
  have setNode : ∀ {m : ReplicatedValue U V}, NodeCalls calls u m →
      Kept base u calls { r with node := m } := fun hm => ⟨h.sent, hm, h.callback⟩
  cases hc with
  | send toUid writes hm => exact h.send hm toUid writes
  | fail writes => exact ⟨h.sent, h.node, h.callback⟩
  | start hidle hf =>
    refine setNode (h.node.withTask ?_ _ _)
    rintro p v ⟨⟩
    exact h.node.proposed hf.proposedValue
  | timers drive window htask =>
    refine setNode (h.node.withTask (fun {p v} hrun => ?_) drive window)
    rcases htask with rfl | hidle
    · exact h.node.task hrun
    · exact absurd hrun (hidle _)
  | @propose value he hr hnone =>
    have heq : (r.node.paxos.proposeValue value).proposer.proposedValue = value := by
      simp only [PaxosInstance.proposeValue, Proposer.proposeValue, hnone]
    refine setNode (h.node.withPaxos ?_)
    cases value with
    | none => exact .inl (heq.trans hnone.symm)
    | some v =>
      refine .inr ⟨v, heq, ?_⟩
      rw [hr.node]
      exact hcall he
  | prepare he hstop hr hidle => exact setNode (h.node.withPaxos (.inl rfl))
  | @nack w p promised task hr he hidle =>
    have hnode := h.node.withPaxos (x := r.node.paxos.receiveNack w p promised)
      (.inl (Proposer.receiveNack_proposedValue _ w p promised))
    exact setNode (hnode.withTask (fun hrun => absurd hrun (hidle _)) _ _)
  | @promise w p last value he =>
    refine setNode (h.node.withPaxos ?_)
    obtain heq | ⟨v, rfl, heq⟩ := Proposer.receivePromise_proposedValue r.node.paxos.proposer w p
      last value
    · exact .inl heq
    · obtain ⟨q, w', hsent⟩ := hpromise he
      exact .inr ⟨v, heq, h.sent ⟨w', r.heard hsent⟩⟩
  | observe p =>
    exact setNode (h.node.withPaxos
      (.inl (r.node.paxos.proposer.observeProposal_proposedValue p)))
  | @promised w p hr he hle =>
    have hnode := h.node.withPaxos (x := r.node.paxos.observeProposal p)
      (.inl (r.node.paxos.proposer.observeProposal_proposedValue p))
    exact setNode ⟨hnode.proposed, hnode.task, hnode.last, hnode.past, hnode.present⟩
  | @accepted w p v hr he hle =>
    have hnode := h.node.withPaxos (x := r.node.paxos.observeProposal p)
      (.inl (r.node.paxos.proposer.observeProposal_proposedValue p))
    exact setNode ⟨hnode.proposed, hnode.task, hnode.last, hnode.past, hnode.present⟩
  | learn he hnone => exact setNode (h.node.withPaxos (.inl rfl))
  | advance hi hidle => exact setNode (h.node.advanced hi.lt _ _ hidle)
  | advanceRaised hi hr hcallback => cases h.callback.symm.trans hcallback

theorem Kept.reached (hpromise : ∀ {w i p last v}, e = .datagram w (.promise i p last (some v)) →
      ∃ q, AcceptSent base i q v)
    (hcall : ∀ {v}, e = .append (some v) → Called calls n.instanceNumber v)
    (h : Kept base u calls r) (hr : Reached n e r r') : Kept base u calls r' := by
  induction hr with
  | refl => exact h
  | tail _ hc ih => exact ih.change hpromise hcall hc

/-- An append first hands its value to the proposer, which may ignore it. -/
theorem append_reached (n : ReplicatedValue U V) (value : Option V) (writes : List Bool) :
    Reached n (.append value) ⟨{ n with paxos := n.paxos.proposeValue value }, [], writes, false⟩
      (n.step (.append value) writes false) := by
  have hready : Run.Ready n ⟨{ n with paxos := n.paxos.proposeValue value }, [], writes, false⟩ := by
    refine ⟨rfl, rfl, ?_⟩
    simp only [PaxosInstance.prepare, PaxosInstance.proposeValue, Proposer.proposeValue]
    split <;> rfl
  have := driveToResolution_reached (n := n) (e := .append value) (.inl ⟨value, rfl⟩) _
    ⟨.refl, hready, rfl⟩
  have heq : handle (.append value) ⟨n, [], writes, false⟩ =
      driveToResolution ⟨{ n with paxos := n.paxos.proposeValue value }, [], writes, false⟩ :=
    Hoare.bind_of_ok (Base.proposeUpdate_eq value _)
  rw [ReplicatedValue.step, heq]
  split
  · next hr =>
    rw [hr] at this
    exact this
  · next hr =>
    rw [hr] at this
    exact this

/-! Runs of the cluster. -/

variable {c : Cluster U V} {s : System U V}

theorem Cluster.Logged.reachable (h : c.Logged s calls) : c.Reachable s := by
  induction h with
  | initial => exact Relation.ReflTransGen.refl
  | event writes _ hu he ih => exact ih.tail (.event writes hu he)

structure System.Recorded (ids : Finset U) (s : System U V) (calls : List (Call U V)) : Prop where
  sent : ∀ {i p v}, AcceptSent s.net i p v → Called calls i v
  node : ∀ w ∈ ids, NodeCalls calls w (s.nodes w)
  mem : ∀ call ∈ calls, call.node ∈ ids

theorem System.Recorded.step (h : s.Recorded c.ids calls) (hs : c.Reachable s) {u : U}
    {e : Event U V} (writes : List Bool) (hu : u ∈ c.ids) (he : Cluster.Enabled s u e) :
    (Cluster.after s u e writes).Recorded c.ids (calls ++ e.calls (s.nodes u) u writes) := by
  have hsub : calls ⊆ calls ++ e.calls (s.nodes u) u writes := List.subset_append_left _ _
  have hnew : ∀ call ∈ e.calls (s.nodes u) u writes, call.node = u := by
    intro call hmem
    cases e with
    | append value =>
      obtain rfl := List.mem_singleton.mp hmem
      rfl
    | _ => cases hmem
  have hpromise : ∀ {w i p last v}, e = .datagram w (.promise i p last (some v)) →
      ∃ q, AcceptSent s.net i q v := by
    rintro w i p last v rfl
    obtain ⟨-, ⟨-, hnone⟩ | ⟨q, v', -, heq, hsent⟩⟩ : last ≤ p ∧ Backed s.net i last (some v) :=
      hs.inv.net.ok ⟨u, he⟩
    · cases hnone
    · cases heq
      exact ⟨q, hsent⟩
  have kept : Kept s.net u (calls ++ e.calls (s.nodes u) u writes)
      ((s.nodes u).step e writes false) := by
    cases e with
    | append value =>
      refine Kept.reached hpromise ?_ ?_ (append_reached (s.nodes u) value writes)
      · rintro v ⟨⟩
        exact ⟨_, List.mem_append_right _ List.mem_cons_self, rfl, rfl⟩
      · refine ⟨fun {i p v} hsent => ?_, (h.node u hu).append value _, rfl⟩
        rw [Run.network_of_sent_nil rfl] at hsent
        exact (h.sent hsent).mono hsub
    | _ =>
      refine Kept.reached hpromise (by rintro v ⟨⟩) ⟨?_, ?_, rfl⟩ (step_reached _ _ writes false)
      · intro i p v hsent
        rw [Run.network_of_sent_nil rfl] at hsent
        exact (h.sent hsent).mono hsub
      · exact (h.node u hu).grow hsub fun call hmem _ => by simpa [Event.calls] using hmem
  refine ⟨kept.sent, fun w hw => ?_, fun call hmem => ?_⟩
  · by_cases hwu : w = u
    · subst hwu
      simp only [Cluster.after, Function.update_self]
      exact kept.node
    · simp only [Cluster.after, Function.update_of_ne hwu]
      apply (h.node w hw).grow hsub
      intro call hmem hcall
      rcases List.mem_append.mp hmem with hmem | hmem
      · exact hmem
      · exact absurd (hcall.symm.trans (hnew call hmem)) hwu
  · rcases List.mem_append.mp hmem with hmem | hmem
    · exact h.mem call hmem
    · rw [hnew call hmem]
      exact hu

theorem Cluster.Logged.recorded (h : c.Logged s calls) : s.Recorded c.ids calls := by
  induction h with
  | initial =>
    refine ⟨?_, fun w _ => ⟨?_, ?_, .inl rfl, ?_, ?_⟩, ?_⟩
    · rintro i p v ⟨w, toUid, hmem⟩
      cases hmem
    · rintro v ⟨⟩
    · rintro p v ⟨⟩
    · rintro call hmem
      cases hmem
    · rintro call hmem
      cases hmem
    · rintro call hmem
      cases hmem
  | event writes h hu he ih => exact ih.step h.reachable writes hu he

theorem Cluster.Logged.record (h : c.Logged s calls) (l : List (Move U V)) :
    c.Logged (c.record (s, calls) l).1 (c.record (s, calls) l).2 := by
  induction l generalizing s calls with
  | nil => exact h
  | cons m l ih =>
    have hfirst : c.Logged (c.record (s, calls) [m]).1 (c.record (s, calls) [m]).2 := by
      simp only [Cluster.record, List.foldl_cons, List.foldl_nil]
      split
      · next u e hm =>
        split
        · next hu => exact h.event [] hu (enabled_of_move hm)
        · exact h
      · exact h
    exact ih hfirst

/-! ## Top theorems -/

/-- **What becomes of an appended value**: in every state after the call, the node has been given
the value as one decided in the instance of the call or later, or is going to propose it in the
instance it is in, or another value was appended in the instance of the call or later. -/
theorem Cluster.append_settled (c : Cluster U V) {s : System U V} {calls : List (Call U V)}
    (h : c.Logged s calls) : ∀ call ∈ calls, call.Learned (s.nodes call.node) ∨
      call.Proposed (s.nodes call.node) ∨ call.Contended calls := by
  intro call hmem
  have hrec := h.recorded
  have hinv := h.reachable.inv
  have hmem' := hrec.mem call hmem
  obtain ⟨-, -, hlast, hpast, hpresent⟩ := hrec.node _ hmem'
  rcases (hpast call hmem rfl).eq_or_lt with heq | hlt
  · exact .inr (hpresent call hmem rfl heq)
  · -- the node has left the instance, for one after a decided value
    rcases hlast with hzero | ⟨x, hx, hxi⟩
    · omega
    · obtain ⟨hpos, -, hheld⟩ := (hinv.node _ hmem').1.update x hx
      obtain ⟨k, hk⟩ : ∃ k, x.instanceNumber = k + 1 := ⟨x.instanceNumber - 1, by omega⟩
      obtain ⟨v, hv, p, Q, hQ, hsaid⟩ := hheld k hk
      obtain ⟨a, ha⟩ := hQ.meet hQ
      rw [Finset.inter_self] at ha
      have hsent : AcceptSent s.net k p v := hinv.net.ok (hsaid a ha)
      have hle : call.instanceNumber ≤ k := by omega
      rcases (hrec.sent hsent).eq_or_contended hle with heq | hc
      · exact .inl ⟨x, hx, by omega, hv.trans heq⟩
      · exact .inr (.inr hc)

/-- Node 1 appends 7 and leads; nothing else is appended. -/
def uncontended : System ℕ ℕ × List (Call ℕ ℕ) := threeNodes.record (threeNodes.initial, [])
  [.append 1 (some 7), .deliver 0, .deliver 1, .deliver 3, .deliver 4]

theorem append_settled_uncontended : ⟨1, 0, some 7, true⟩ ∈ uncontended.2 ∧
    (Call.Learned ⟨1, 0, some 7, true⟩ (uncontended.1.nodes 1) ∨
      Call.Proposed ⟨1, 0, some 7, true⟩ (uncontended.1.nodes 1) ∨
      Call.Contended ⟨1, 0, some 7, true⟩ uncontended.2) := by
  have hmem : ⟨1, 0, some 7, true⟩ ∈ uncontended.2 := by decide +kernel
  exact ⟨hmem, threeNodes.append_settled (Cluster.Logged.initial.record _) _ hmem⟩

/-- Nodes 1 and 2 append 7 and 8 in instance 0; node 1 leads, and node 2 resolves the instance
with 7. -/
def overtaken : System ℕ ℕ × List (Call ℕ ℕ) := threeNodes.record (threeNodes.initial, [])
  [.append 1 (some 7), .append 2 (some 8), .deliver 0, .deliver 1, .deliver 6, .deliver 7,
    .deliver 8, .deliver 9, .deliver 12, .deliver 15]

theorem append_lost : threeNodes.Logged overtaken.1 overtaken.2 ∧
    ⟨2, 0, some 8, true⟩ ∈ overtaken.2 ∧
    ¬ Call.Learned ⟨2, 0, some 8, true⟩ (overtaken.1.nodes 2) ∧
    ¬ Call.Proposed ⟨2, 0, some 8, true⟩ (overtaken.1.nodes 2) :=
  ⟨Cluster.Logged.initial.record _, by decide +kernel, by decide +kernel, by decide +kernel⟩

end Paxos
