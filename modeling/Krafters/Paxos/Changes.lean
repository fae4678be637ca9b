import Krafters.Paxos.Invariant
import Mathlib.Logic.Relation

/-!
# What an event does to a node, one change at a time

`Change n e r r'`: in the course of event `e` of node `n`, the run goes from `r` to `r'`
by one assignment of attributes that belong together, or by one call of `transport.write`.
`step_reached` takes an event apart into such changes, and `step_moment` does so up to the
moment at which a given datagram leaves.  An invariant of runs then needs one case per
constructor and no reading of the handlers.
-/

namespace Paxos

open Hoare

variable {U V : Type} [LinearOrder U]

/-! ## Algorithm -/

/-- A task that repeats what the proposer proposes now. -/
def Retransmission.Of (p : Proposer U V) : Retransmission U V → Prop
  | .prepare id => id = p.proposalId
  | .accept id v => p.Accepting id v

/-- The task runs. -/
def LoopingCall.Runs (task : Option (LoopingCall U V)) (f : Retransmission U V) : Prop :=
  task = some ⟨f, true⟩

/-- `stop_driving` returns: there is no task, or it runs. -/
def ReplicatedValue.stoppable (n : ReplicatedValue U V) : Bool :=
  match n.retransmitTask with
  | some ⟨_, running⟩ => running
  | none => true

/-- The message tells the state that the node is in; `e` is the event that it answers. -/
def Speaks (n : ReplicatedValue U V) (e : Event U V) (m : Message U V) : Prop :=
  m.instanceNumber = n.instanceNumber ∧
  match m with
  | .prepare _ p => LoopingCall.Runs n.retransmitTask (.prepare p)
  | .accept _ p v => LoopingCall.Runs n.retransmitTask (.accept p v)
  | .promise _ p last value => n.paxos.acceptor.promisedId = p ∧
      n.paxos.acceptor.acceptedId = last ∧ n.paxos.acceptor.acceptedValue = value
  | .accepted i p v => (n.paxos.acceptor.promisedId = p ∧ n.paxos.acceptor.acceptedId = p ∧
      n.paxos.acceptor.acceptedValue = some v) ∧ ∃ w, e = .datagram w (.accept i p v)
  | .nack _ p promised => n.promisedId = promised ∧ p < n.paxos.acceptor.promisedId
  | .catchup _ value => n.currentValue = value
  | .syncRequest _ => True

/-- Why and where to a node changes its instance. -/
inductive Enters [DecidableEq V] (n : ReplicatedValue U V) (e : Event U V) :
    ℕ → Option V → Bool → Prop
  | resolution {w : U} {p : ProposalID U} {v : V} {m : PaxosMessage U V}
      (he : e = .datagram w (.accepted n.instanceNumber p v))
      (h : (n.paxos.receiveAccepted w p v).2 = .ok (some m)) :
      Enters n e (n.instanceNumber + 1) (some v) false
  | catchup {w : U} {i : ℕ} {value : Option V} (he : e = .datagram w (.catchup i value))
      (hlt : n.instanceNumber < i) : Enters n e i value true

/-- The event of node `n` begins. -/
structure Run.Begins (n : ReplicatedValue U V) (r : Run U V) : Prop where
  node : r.node = n
  sent : r.sent = []

/-- Nothing has left yet, and the next proposal is the one that node `n` would start. -/
structure Run.Ready (n : ReplicatedValue U V) (r : Run U V) : Prop where
  sent : r.sent = []
  instanceNumber : r.node.instanceNumber = n.instanceNumber
  proposalId : r.node.paxos.prepare.proposer.proposalId = n.paxos.prepare.proposer.proposalId

inductive Change [DecidableEq V] (n : ReplicatedValue U V) (e : Event U V) :
    Run U V → Run U V → Prop
  /-- a datagram leaves -/
  | send {r} (toUid : U) {m : Message U V} (writes : List Bool) (h : Speaks r.node e m) :
      Change n e r { r with writes, sent := r.sent ++ [⟨toUid, m, r.node⟩] }
  /-- a write raises -/
  | fail {r} (writes : List Bool) : Change n e r { r with writes }
  /-- a task starts where none runs -/
  | start {r} {f : Retransmission U V} (hidle : ∀ g, ¬ LoopingCall.Runs r.node.retransmitTask g)
      (hf : f.Of r.node.paxos.proposer) :
      Change n e r { r with node := { r.node with retransmitTask := some ⟨f, true⟩ } }
  /-- the task stops, or goes; the delayed drive and its window change -/
  | timers {r} {task : Option (LoopingCall U V)} (drive : Option Bool) (window : ℕ)
      (h : task = r.node.retransmitTask ∨ ∀ g, ¬ LoopingCall.Runs task g) :
      Change n e r { r with node := { r.node with
        retransmitTask := task, delayedDrive := drive, backoffWindow := window } }
  | propose {r} {value : Option V} (he : e = .append value) (hr : r.Begins n)
      (hnone : r.node.paxos.proposer.proposedValue = none) :
      Change n e r { r with node := { r.node with paxos := r.node.paxos.proposeValue value } }
  | prepare {r} (he : (∃ value, e = .append value) ∨ e = .drive ∧ n.delayedDrive = some true)
      (hstop : n.stoppable = true) (hr : r.Ready n)
      (hidle : ∀ g, ¬ LoopingCall.Runs r.node.retransmitTask g) :
      Change n e r { r with node := { r.node with paxos := r.node.paxos.prepare } }
  /-- a Nack, which may start a proposal, and the end of the task -/
  | nack {r} {w : U} {p : ProposalID U} {promised : WithBot (ProposalID U)}
      {task : Option (LoopingCall U V)} (hr : r.Begins n)
      (he : e = .datagram w (.nack r.node.instanceNumber p promised))
      (h : ∀ g, ¬ LoopingCall.Runs task g) :
      Change n e r { r with node := { r.node with
        paxos := r.node.paxos.receiveNack w p promised, retransmitTask := task } }
  | promise {r} {w : U} {p : ProposalID U} {last : WithBot (ProposalID U)} {value : Option V}
      (he : e = .datagram w (.promise r.node.instanceNumber p last value)) :
      Change n e r { r with node := { r.node with
        paxos := (r.node.paxos.receivePromise w p last value).1 } }
  /-- the acceptor refuses a Prepare or Accept message; the proposer next to it sees its id -/
  | observe {r} (p : ProposalID U) :
      Change n e r { r with node := { r.node with paxos := r.node.paxos.observeProposal p } }
  /-- the acceptor promises, and the state is saved -/
  | promised {r} {w : U} {p : ProposalID U} (hr : r.Begins n)
      (he : e = .datagram w (.prepare r.node.instanceNumber p))
      (hle : r.node.paxos.acceptor.promisedId ≤ (p : WithBot (ProposalID U))) :
      Change n e r { r with node := { r.node with
        paxos := { r.node.paxos.observeProposal p with
          acceptor := { r.node.paxos.acceptor with promisedId := p } }
        toSaved := ⟨r.node.instanceNumber, r.node.currentValue, p,
          r.node.paxos.acceptor.acceptedId, r.node.paxos.acceptor.acceptedValue⟩
        stateFile := ⟨r.node.instanceNumber, r.node.currentValue, p,
          r.node.paxos.acceptor.acceptedId, r.node.paxos.acceptor.acceptedValue⟩ } }
  /-- the acceptor accepts, and the state is saved with the promised id that was saved before -/
  | accepted {r} {w : U} {p : ProposalID U} {v : V} (hr : r.Begins n)
      (he : e = .datagram w (.accept r.node.instanceNumber p v))
      (hle : r.node.paxos.acceptor.promisedId ≤ (p : WithBot (ProposalID U))) :
      Change n e r { r with node := { r.node with
        paxos := { r.node.paxos.observeProposal p with
          acceptor := { r.node.paxos.acceptor with
            promisedId := p, acceptedId := p, acceptedValue := v } }
        toSaved := ⟨r.node.instanceNumber, r.node.currentValue, r.node.promisedId, p, v⟩
        stateFile := ⟨r.node.instanceNumber, r.node.currentValue, r.node.promisedId, p, v⟩ } }
  /-- an Accepted message that does not resolve the instance -/
  | learn {r} {w : U} {p : ProposalID U} {v : V}
      (he : e = .datagram w (.accepted r.node.instanceNumber p v))
      (h : ∀ m, (r.node.paxos.receiveAccepted w p v).2 ≠ .ok (some m)) :
      Change n e r { r with node := { r.node with
        paxos := (r.node.paxos.receiveAccepted w p v).1 } }
  /-- the next instance and the end of the task, after a callback that returned -/
  | advance {r} {i : ℕ} {value : Option V} {catchup : Bool} {task : Option (LoopingCall U V)}
      (h : Enters r.node e i value catchup) (ht : ∀ g, ¬ LoopingCall.Runs task g) :
      Change n e r { r with node :=
        { r.node.advanced i value catchup with retransmitTask := task } }
  /-- the next instance, and a callback that raised -/
  | advanceRaised {r} {i : ℕ} {value : Option V} {catchup : Bool}
      (h : Enters r.node e i value catchup) (hr : r.Begins n) (hc : r.callback = true) :
      Change n e r { r with node := r.node.advanced i value catchup }

/-- What the run has come to. -/
abbrev Reached [DecidableEq V] (n : ReplicatedValue U V) (e : Event U V) (r r' : Run U V) : Prop :=
  Relation.ReflTransGen (Change n e) r r'

/-! ## Lemmas -/

variable {n n' : ReplicatedValue U V} {r₀ : Run U V}

theorem Enters.lt [DecidableEq V] {e : Event U V} {i : ℕ} {value : Option V} {catchup : Bool}
    (h : Enters n e i value catchup) : n.instanceNumber < i := by
  cases h with
  | resolution he h => exact Nat.lt_succ_self _
  | catchup he hlt => exact hlt

/-! The paxos object's methods, as far as they decide what a node does next. -/

theorem Learner.receiveAccepted_resolution [DecidableEq V] {l : Learner U V} {a : U}
    {p : ProposalID U} {v : V} {m : PaxosMessage U V}
    (h : (l.receiveAccepted a p v).2 = .ok (some m)) : ∃ w x, m = .resolution w x := by
  revert h
  unfold Learner.receiveAccepted
  split
  · rintro ⟨⟩
    exact ⟨_, _, rfl⟩
  · simp only
    split
    · rintro ⟨⟩
    · split
      · rintro ⟨⟩
      · simp only [Learner.count]
        split
        · split
          · rintro ⟨⟩
            exact ⟨_, _, rfl⟩
          · rintro ⟨⟩
        · rintro ⟨⟩

theorem Proposer.observeProposal_proposalId (p : Proposer U V) (seen : WithBot (ProposalID U)) :
    (p.observeProposal seen).proposalId = p.proposalId := by
  rw [Proposer.observeProposal_eq]

omit [LinearOrder U] in
theorem Proposer.proposeValue_proposalId (p : Proposer U V) (value : Option V) :
    (p.proposeValue value).1.proposalId = p.proposalId := by
  unfold Proposer.proposeValue
  split <;> rfl

/-- What a promise leaves as it was, and what it may change. -/
structure Proposer.Promised (p q : Proposer U V) : Prop where
  networkUid : q.networkUid = p.networkUid
  proposalId : q.proposalId = p.proposalId
  highest : p.highestProposalId.number ≤ q.highestProposalId.number
  promises : q.promisesReceived = none ↔ p.promisesReceived = none
  leader : q.leader = true → p.leader = true ∨ p.promisesReceived ≠ none

theorem Proposer.receivePromise_frame (p : Proposer U V) (a : U) (id : ProposalID U)
    (last : WithBot (ProposalID U)) (value : Option V) :
    p.Promised (p.receivePromise a id last value).1 := by
  have hseen : p.Promised (p.observeProposal id) := by
    have hle := p.le_observeProposal id
    rw [Proposer.observeProposal_eq]
    exact ⟨rfl, rfl, hle, Iff.rfl, .inl⟩
  simp only [Proposer.receivePromise]
  split
  · split
    · exact hseen
    · next s hs =>
      have hs' : p.promisesReceived ≠ none := by
        intro hnone
        cases hs.symm.trans (hseen.promises.mpr hnone)
      split
      · exact hseen
      · simp only [Proposer.countPromise, Proposer.recordPromise]
        split <;> split <;> exact ⟨hseen.networkUid, hseen.proposalId, hseen.highest,
          by simp [hs'], fun _ => .inr hs'⟩
  · exact hseen

/-- What a promise makes a proposer return is an Accept of what it proposes from then on. -/
theorem Proposer.receivePromise_accepting {p : Proposer U V} {a : U} {id : ProposalID U}
    {last : WithBot (ProposalID U)} {value : Option V} {m : PaxosMessage U V}
    (h : (p.receivePromise a id last value).2 = .ok (some m)) :
    ∃ w v, m = .accept w id v ∧ (p.receivePromise a id last value).1.Accepting id v := by
  revert h
  simp only [Proposer.receivePromise]
  split
  · next hcond =>
    split
    · rintro ⟨⟩
    · next s hs =>
      split
      · rintro ⟨⟩
      · intro h
        obtain ⟨hid, -⟩ : ((p.observeProposal id).recordPromise s a last value).proposalId =
            (p.observeProposal id).proposalId ∧ True := by
          simp only [Proposer.recordPromise]
          split <;> simp
        have h := Except.ok.inj h
        unfold Proposer.countPromise at h ⊢
        split at h
        · next hcard =>
          rw [if_pos hcard]
          obtain ⟨v, hv, rfl⟩ := Option.map_eq_some_iff.mp h
          have heq := hid.trans hcond.2.symm
          exact ⟨_, v, by rw [heq], heq.symm, rfl, hv⟩
        · cases h
  · rintro ⟨⟩

section Rules

variable {P Q E : Run U V → Prop}

omit [LinearOrder U] in
/-- After `stop` no task runs, also where it raises. -/
theorem triple_stopTask (hok : ∀ r task, P r → r.node.stoppable = true →
      (∀ g, ¬ LoopingCall.Runs task g) →
      Q { r with node := { r.node with retransmitTask := task } })
    (herr : ∀ r, P r → r.node.stoppable = false →
      (∀ g, ¬ LoopingCall.Runs r.node.retransmitTask g) → E r) :
    Triple P stopTask (fun _ => Q) E := by
  apply triple_getNode
  intro n
  rcases hn : n.retransmitTask with - | ⟨f, running⟩
  · apply Triple.pure ()
    rintro r ⟨hr, rfl⟩
    have := hok r none hr (by rw [ReplicatedValue.stoppable, hn]) fun g hg => by cases hg
    rwa [← hn] at this
  · refine Triple.ite (fun hrun => triple_modifyNode ?_) fun hrun => Triple.throw _ ?_
    · rintro r ⟨hr, rfl⟩
      exact hok r _ hr (by rw [ReplicatedValue.stoppable, hn]; exact hrun) fun g hg => by cases hg
    · rintro r ⟨hr, rfl⟩
      have hrun : running = false := Bool.eq_false_iff.mpr hrun
      apply herr r hr (by rw [ReplicatedValue.stoppable, hn]; exact hrun)
      intro g hg
      cases hn.symm.trans hg
      cases hrun

omit [LinearOrder U] in
theorem triple_stopDriving (hok : ∀ r task drive, P r → r.node.stoppable = true →
      (∀ g, ¬ LoopingCall.Runs task g) →
      Q { r with node := { r.node with retransmitTask := task, delayedDrive := drive } })
    (herr : ∀ r, P r → r.node.stoppable = false →
      (∀ g, ¬ LoopingCall.Runs r.node.retransmitTask g) → E r) :
    Triple P stopDriving (fun _ => Q) E := by
  refine Triple.bind (R := fun _ r' => ∃ r task, P r ∧ r.node.stoppable = true ∧
    r' = { r with node := { r.node with retransmitTask := task } })
    (triple_stopTask (fun r task hr hs _ => ⟨r, task, hr, hs, rfl⟩) herr) fun _ =>
      triple_modifyNode ?_
  rintro _ ⟨r, task, hr, hs, rfl⟩
  exact hok r none _ hr hs fun g hg => by cases hg

end Rules

variable [DecidableEq V] {e : Event U V}

/-! ## The handlers -/

theorem send_reached {toUid : U} {m : Message U V} :
    Triple (fun r => Reached n e r₀ r ∧ Speaks r.node e m) (send toUid m)
      (fun _ => Reached n e r₀) (Reached n e r₀) :=
  triple_send (fun _ writes h => h.1.tail (.send toUid writes h.2))
    fun _ writes h => h.1.tail (.fail writes)

/-- The loops that send a message with the current instance number to every peer. -/
theorem sendAll_reached {m : ℕ → Message U V} (hm : Speaks n' e (m n'.instanceNumber)) :
    Keeps (fun r => Reached n e r₀ r ∧ r.node = n') (do
      (← getNode).peers.forM fun uid => do send uid (m (← getNode).instanceNumber)) := by
  apply triple_getNode
  intro _
  refine Triple.conseq (P := fun r => Reached n e r₀ r ∧ r.node = n')
    (Keeps.forM _ fun uid _ => triple_getNode fun _ => triple_send ?_ ?_) (fun r h => h.1)
    (fun _ _ h => h) (fun _ h => h)
  · rintro r writes ⟨⟨h, rfl⟩, rfl⟩
    exact ⟨h.tail (.send uid writes hm), rfl⟩
  · rintro r writes ⟨⟨h, rfl⟩, rfl⟩
    exact ⟨h.tail (.fail writes), rfl⟩

theorem fireTask_reached {f : Retransmission U V} :
    Triple (fun r => Reached n e r₀ r ∧ LoopingCall.Runs r.node.retransmitTask f) (fireTask f)
      (fun _ => Reached n e r₀) (Reached n e r₀) := by
  rintro r ⟨h, hf⟩
  refine Triple.tryCatch (P := fun r' => Reached n e r₀ r' ∧ r'.node = r.node)
    (R := fun r' => Reached n e r₀ r' ∧ r'.node = r.node) ?_ (fun _ => triple_modifyNode ?_) r
    ⟨h, rfl⟩
  · have hall : Keeps (fun r' => Reached n e r₀ r' ∧ r'.node = r.node) (runRetransmission f) := by
      cases f with
      | prepare p => exact sendAll_reached (m := fun i => .prepare i p) ⟨rfl, hf⟩
      | accept p v => exact sendAll_reached (m := fun i => .accept i p v) ⟨rfl, hf⟩
    exact hall.conseq (fun _ h => h) (fun _ _ h => h.1) fun _ h => h
  · rintro r' ⟨h', hn⟩
    refine h'.tail (.timers _ _ (.inr fun g hg => ?_))
    obtain ⟨t, -, ht⟩ := Option.map_eq_some_iff.mp hg
    cases ht

theorem startTask_reached {f : Retransmission U V} :
    Triple (fun r => Reached n e r₀ r ∧ (∀ g, ¬ LoopingCall.Runs r.node.retransmitTask g) ∧
        f.Of r.node.paxos.proposer) (startTask f) (fun _ => Reached n e r₀) (Reached n e r₀) :=
  Triple.bind (triple_modifyNode fun _ h => ⟨h.1.tail (.start h.2.1 h.2.2), rfl⟩)
    fun _ => fireTask_reached

theorem driveToResolution_reached
    (he : (∃ value, e = .append value) ∨ e = .drive ∧ n.delayedDrive = some true) :
    Triple (fun r => Reached n e r₀ r ∧ r.Ready n ∧ r.node.retransmitTask = n.retransmitTask)
      driveToResolution (fun _ => Reached n e r₀) (Reached n e r₀) := by
  refine Triple.bind (R := fun _ r => (Reached n e r₀ r ∧ r.Ready n ∧ n.stoppable = true) ∧
    ∀ g, ¬ LoopingCall.Runs r.node.retransmitTask g) (triple_stopDriving ?_ ?_) fun _ => ?_
  · rintro r task drive ⟨h, hr, heq⟩ hs ht
    have hs : n.stoppable = true := by rwa [ReplicatedValue.stoppable, heq] at hs
    exact ⟨⟨h.tail (.timers drive r.node.backoffWindow (.inr ht)),
      ⟨hr.sent, hr.instanceNumber, hr.proposalId⟩, hs⟩, ht⟩
  · exact fun r h _ _ => h.1
  · refine Triple.bind (R := fun _ r => Reached n e r₀ r ∧
      ∀ g, ¬ LoopingCall.Runs r.node.retransmitTask g) (triple_modifyNode ?_) fun _ =>
      triple_getNode fun n' => startTask_reached.conseq ?_ (fun _ _ h => h) fun _ h => h
    · rintro r ⟨⟨h, hr, hs⟩, ht⟩
      exact ⟨h.tail (.prepare he hs hr ht), ht⟩
    · rintro r ⟨⟨h, ht⟩, rfl⟩
      exact ⟨h, ht, rfl⟩

/-- The paxos object of the old instance, which `x` stands for, goes with it. -/
theorem advanceInstance_reached {i : ℕ} {value : Option V} {catchup : Bool} :
    Triple (fun r' => ∃ r x, (Reached n e r₀ r ∧ r.Begins n ∧ Enters r.node e i value catchup) ∧
        r' = { r with node := { r.node with paxos := x } })
      (advanceInstance i value catchup) (fun _ => Reached n e r₀) (Reached n e r₀) := by
  refine Triple.bind (R := fun _ r' => ∃ r, (Reached n e r₀ r ∧ Enters r.node e i value catchup) ∧
    r' = { r with node := r.node.advanced i value catchup }) ?_ fun _ =>
      Triple.bind (R := fun _ => Reached n e r₀) (triple_stopDriving ?_ ?_) fun _ =>
        triple_modifyNode ?_
  · rintro _ ⟨r, x, ⟨h, hr, hi⟩, rfl⟩
    rw [Base.advanceInstance_eq]
    split_ifs with hc
    · exact h.tail (.advanceRaised hi hr hc)
    · exact ⟨r, ⟨h, hi⟩, rfl⟩
  · rintro _ task drive ⟨r, ⟨h, hi⟩, rfl⟩ - ht
    exact (h.tail (.advance hi ht)).tail (.timers drive _ (.inl rfl))
  · rintro _ ⟨r, ⟨h, hi⟩, rfl⟩ - ht
    exact h.tail (.advance hi ht)
  · intro r h
    exact h.tail (.timers _ _ (.inl rfl))

theorem currentOnly_reached {i : ℕ} {act : Act U V Unit}
    (hact : Triple (fun r => (Reached n e r₀ r ∧ r.Begins n) ∧ i = r.node.instanceNumber) act
      (fun _ => Reached n e r₀) (Reached n e r₀)) :
    Triple (fun r => Reached n e r₀ r ∧ r.Begins n) (currentOnly i act) (fun _ => Reached n e r₀)
      (Reached n e r₀) := by
  refine triple_getNode fun n' => Triple.ite (fun hi => ?_) fun _ => Triple.pure () fun r h => h.1.1
  refine hact.conseq ?_ (fun _ _ h => h) fun _ h => h
  rintro r ⟨h, rfl⟩
  exact ⟨h, hi⟩

/-- The refusal of a Prepare or Accept message. -/
theorem nack_reached {fromUid : U} {p : ProposalID U} {r : Run U V} (h : Reached n e r₀ r)
    (hlt : p < r.node.paxos.acceptor.promisedId) :
    Triple (fun r' => r' = { r with node := { r.node with
        paxos := r.node.paxos.observeProposal p } })
      (getNode >>= fun n => send fromUid (.nack n.instanceNumber p n.promisedId))
      (fun _ => Reached n e r₀) (Reached n e r₀) := by
  refine triple_getNode fun n => send_reached.conseq ?_ (fun _ _ h => h) fun _ h => h
  rintro _ ⟨rfl, rfl⟩
  exact ⟨h.tail (.observe p), rfl, rfl, hlt⟩

theorem Base.receivePrepare_reached {fromUid : U} {i : ℕ} {p : ProposalID U}
    (he : e = .datagram fromUid (.prepare i p)) :
    Triple (fun r => (Reached n e r₀ r ∧ r.Begins n) ∧ i = r.node.instanceNumber)
      (Base.receivePrepare fromUid p) (fun _ => Reached n e r₀) (Reached n e r₀) := by
  refine Triple.bind (R := fun m r' => ∃ r, ((Reached n e r₀ r ∧ r.Begins n) ∧
    i = r.node.instanceNumber) ∧ m = (r.node.paxos.receivePrepare fromUid p).2 ∧
    r' = { r with node := { r.node with paxos := (r.node.paxos.receivePrepare fromUid p).1 } })
    (triple_onPaxos fun r h => ⟨r, h, rfl, rfl⟩) fun m => ?_
  rintro _ ⟨r, ⟨⟨h, hr⟩, rfl⟩, rfl, rfl⟩
  by_cases hle : r.node.paxos.acceptor.promisedId ≤ p
  · simp only [PaxosInstance.receivePrepare, PaxosInstance.observeProposal,
      Acceptor.receivePrepare, hle, if_true]
    refine triple_getNode (P := fun r' => r' = _) (fun n' => Triple.bind (triple_modifyNode ?_)
      fun _ => send_reached) _ rfl
    rintro _ ⟨rfl, rfl⟩
    exact ⟨h.tail (.promised hr he hle), rfl, rfl, rfl, rfl⟩
  · simp only [PaxosInstance.receivePrepare, PaxosInstance.observeProposal,
      Acceptor.receivePrepare, hle, if_false]
    exact nack_reached h (not_le.mp hle) _ rfl

theorem receiveAccept_reached {fromUid : U} {i : ℕ} {p : ProposalID U} {v : V}
    (he : e = .datagram fromUid (.accept i p v)) :
    Triple (fun r => (Reached n e r₀ r ∧ r.Begins n) ∧ i = r.node.instanceNumber)
      (receiveAccept fromUid p v) (fun _ => Reached n e r₀) (Reached n e r₀) := by
  refine Triple.bind (R := fun _ => Reached n e r₀) (Triple.bind (R := fun m r' => ∃ r,
    ((Reached n e r₀ r ∧ r.Begins n) ∧ i = r.node.instanceNumber) ∧
    m = (r.node.paxos.receiveAccept fromUid p v).2 ∧
    r' = { r with node := { r.node with paxos := (r.node.paxos.receiveAccept fromUid p v).1 } })
    (triple_onPaxos fun r h => ⟨r, h, rfl, rfl⟩) fun m => ?_) fun _ => triple_modifyNode fun r h =>
      h.tail (.timers _ _ (.inl rfl))
  rintro _ ⟨r, ⟨⟨h, hr⟩, rfl⟩, rfl, rfl⟩
  by_cases hle : r.node.paxos.acceptor.promisedId ≤ p
  · simp only [PaxosInstance.receiveAccept, PaxosInstance.observeProposal,
      Acceptor.receiveAccept, hle, if_true]
    have hsaved := h.tail (.accepted hr he hle)
    refine triple_getNode (P := fun r' => r' = _) (fun n' => Triple.bind (R := fun _ r' =>
      Reached n e r₀ r' ∧ Speaks r'.node e (.accepted r'.node.instanceNumber p v))
      (triple_modifyNode ?_) fun _ => ?_) _ rfl
    · rintro _ ⟨rfl, rfl⟩
      exact ⟨hsaved, rfl, ⟨rfl, rfl, rfl⟩, fromUid, he⟩
    · rintro r' ⟨h', hm⟩
      exact ((sendAll_reached (m := fun i => .accepted i p v) hm).conseq (fun _ h => h)
        (fun _ _ h => h.1) fun _ h => h.1) r' ⟨h', rfl⟩
  · simp only [PaxosInstance.receiveAccept, PaxosInstance.observeProposal,
      Acceptor.receiveAccept, hle, if_false]
    exact nack_reached h (not_le.mp hle) _ rfl

theorem Base.receivePromise_reached {fromUid : U} {i : ℕ} {p : ProposalID U}
    {last : WithBot (ProposalID U)} {value : Option V}
    (he : e = .datagram fromUid (.promise i p last value)) :
    Triple (fun r => (Reached n e r₀ r ∧ r.Begins n) ∧ i = r.node.instanceNumber)
      (Base.receivePromise fromUid p last value) (fun _ => Reached n e r₀) (Reached n e r₀) := by
  refine Triple.bind (R := fun m r => Reached n e r₀ r ∧ ∀ m', m = some m' → ∃ w v,
    m' = .accept w p v ∧ r.node.paxos.proposer.Accepting p v) (triple_tryPaxos ?_ ?_) fun m => ?_
  · rintro r m ⟨⟨h, -⟩, rfl⟩ hm
    refine ⟨h.tail (.promise he), ?_⟩
    rintro m' rfl
    exact Proposer.receivePromise_accepting hm
  · rintro r _ ⟨⟨h, -⟩, rfl⟩ _
    exact h.tail (.promise he)
  · rcases m with - | m
    · exact Triple.pure () fun r h => h.1
    · cases m with
      | accept w id v =>
        refine Triple.bind (R := fun _ r => Reached n e r₀ r ∧
          (∀ g, ¬ LoopingCall.Runs r.node.retransmitTask g) ∧ r.node.paxos.proposer.Accepting id v)
          (triple_stopTask ?_ fun r h _ _ => h.1) fun _ => startTask_reached (f := .accept id v)
        rintro r task ⟨h, hm⟩ - ht
        obtain ⟨w', v', heq, hacc⟩ := hm _ rfl
        cases heq
        exact ⟨h.tail (.timers r.node.delayedDrive r.node.backoffWindow (.inr ht)), ht, hacc⟩
      | _ => exact Triple.pure () fun r h => h.1

theorem receiveNack_reached {fromUid : U} {i : ℕ} {p : ProposalID U}
    {promised : WithBot (ProposalID U)} (he : e = .datagram fromUid (.nack i p promised)) :
    Triple (fun r => (Reached n e r₀ r ∧ r.Begins n) ∧ i = r.node.instanceNumber)
      (receiveNack fromUid p promised) (fun _ => Reached n e r₀) (Reached n e r₀) := by
  refine Triple.bind (R := fun _ r' => ∃ r, (Reached n e r₀ r ∧ r.Begins n ∧
    i = r.node.instanceNumber) ∧ r' = { r with node := { r.node with
      paxos := r.node.paxos.receiveNack fromUid p promised } }) (triple_modifyNode ?_) fun _ => ?_
  · rintro r ⟨⟨h, hn⟩, hi⟩
    exact ⟨r, ⟨h, hn, hi⟩, rfl⟩
  · refine Triple.bind (R := fun _ => Reached n e r₀) (triple_stopDriving ?_ ?_) fun _ =>
      Triple.bind (R := fun _ => Reached n e r₀) (triple_modifyNode ?_) fun _ =>
        triple_modifyNode ?_
    · rintro _ task drive ⟨r, ⟨h, hn, rfl⟩, rfl⟩ - ht
      exact (h.tail (.nack hn he ht)).tail (.timers drive _ (.inl rfl))
    · rintro _ ⟨r, ⟨h, hn, rfl⟩, rfl⟩ - ht
      exact h.tail (.nack hn he ht)
    · exact fun r h => h.tail (.timers _ _ (.inl rfl))
    · exact fun r h => h.tail (.timers _ _ (.inl rfl))

theorem receiveAccepted_reached {fromUid : U} {i : ℕ} {p : ProposalID U} {v : V}
    (he : e = .datagram fromUid (.accepted i p v)) :
    Triple (fun r => (Reached n e r₀ r ∧ r.Begins n) ∧ i = r.node.instanceNumber)
      (receiveAccepted fromUid p v) (fun _ => Reached n e r₀) (Reached n e r₀) := by
  refine Triple.bind (R := fun m r' => (m = none ∧ Reached n e r₀ r') ∨
    (∃ w x, m = some (.resolution w x)) ∧ ∃ r x, (Reached n e r₀ r ∧ r.Begins n ∧
      Enters r.node e (r'.node.instanceNumber + 1) (some v) false) ∧
      r' = { r with node := { r.node with paxos := x } }) (triple_tryPaxos ?_ ?_) fun m => ?_
  · rintro r m ⟨⟨h, hr⟩, rfl⟩ hm
    cases m with
    | none => exact .inl ⟨rfl, h.tail (.learn he fun m hm' => by cases hm.symm.trans hm')⟩
    | some m =>
      obtain ⟨w, x, rfl⟩ := Learner.receiveAccepted_resolution hm
      exact .inr ⟨⟨w, x, rfl⟩, r, _, ⟨h, hr, .resolution he hm⟩, rfl⟩
  · rintro r error ⟨⟨h, -⟩, rfl⟩ hm
    exact h.tail (.learn he fun m hm' => by cases hm.symm.trans hm')
  · rintro r' (⟨rfl, h⟩ | ⟨⟨w, x, rfl⟩, h⟩)
    · exact h
    · refine triple_getNode (P := fun r => r = r') (fun n' => advanceInstance_reached.conseq ?_
        (fun _ _ h => h) fun _ h => h) r' rfl
      rintro _ ⟨rfl, rfl⟩
      exact h

theorem receiveCatchup_reached {fromUid : U} {i : ℕ} {value : Option V}
    (he : e = .datagram fromUid (.catchup i value)) :
    Triple (fun r => Reached n e r₀ r ∧ r.Begins n) (receiveCatchup i value)
      (fun _ => Reached n e r₀) (Reached n e r₀) := by
  refine triple_getNode fun n' => Triple.ite (fun hlt => ?_) fun _ => Triple.pure () fun r h =>
    h.1.1
  refine advanceInstance_reached.conseq ?_ (fun _ _ h => h) fun _ h => h
  rintro r ⟨⟨h, hr⟩, rfl⟩
  exact ⟨r, r.node.paxos, ⟨h, hr, .catchup he hlt⟩, rfl⟩

theorem receiveSyncRequest_reached {fromUid : U} {i : ℕ} :
    Keeps (Reached n e r₀) (receiveSyncRequest fromUid i) := by
  refine triple_getNode fun n' => Triple.ite (fun _ => ?_) fun _ => Triple.pure () fun r h => h.1
  refine send_reached.conseq ?_ (fun _ _ h => h) fun _ h => h
  rintro r ⟨h, rfl⟩
  exact ⟨h, rfl, rfl⟩

theorem proposeUpdate_reached {value : Option V} (he : e = .append value) :
    Triple (fun r => Reached n e r₀ r ∧ r.Begins n) (proposeUpdate value)
      (fun _ => Reached n e r₀) (Reached n e r₀) := by
  refine Triple.bind (R := fun _ r => Reached n e r₀ r ∧ r.Ready n ∧
    r.node.retransmitTask = n.retransmitTask) (triple_getNode fun n' => Triple.ite (fun hnone =>
      triple_modifyNode ?_) fun _ => Triple.pure () ?_) fun _ =>
        driveToResolution_reached (.inl ⟨value, he⟩)
  · rintro r ⟨⟨h, hr⟩, rfl⟩
    have hnone := Option.isNone_iff_eq_none.mp hnone
    have hsame : r.node.retransmitTask = n.retransmitTask := by rw [hr.node]
    refine ⟨h.tail (.propose he hr hnone), ⟨hr.sent, by rw [← hr.node], ?_⟩, hsame⟩
    rw [← hr.node]
    simp only [PaxosInstance.prepare, PaxosInstance.proposeValue, Proposer.proposeValue, hnone]
    rfl
  · rintro r ⟨⟨h, hr⟩, -⟩
    exact ⟨h, ⟨hr.sent, by rw [hr.node], by rw [hr.node]⟩, by rw [hr.node]⟩

/-- **Every handler is a sequence of changes.** -/
theorem handle_reached (e : Event U V) :
    Triple (fun r => Reached n e r₀ r ∧ r.Begins n) (handle e) (fun _ => Reached n e r₀)
      (Reached n e r₀) := by
  cases e with
  | datagram fromUid m =>
    cases m with
    | syncRequest i =>
      exact receiveSyncRequest_reached.conseq (fun _ h => h.1) (fun _ _ h => h) fun _ h => h
    | catchup i value => exact receiveCatchup_reached rfl
    | nack i p promised => exact currentOnly_reached (receiveNack_reached rfl)
    | prepare i p => exact currentOnly_reached (Base.receivePrepare_reached rfl)
    | promise i p last value => exact currentOnly_reached (Base.receivePromise_reached rfl)
    | accept i p v => exact currentOnly_reached (receiveAccept_reached rfl)
    | accepted i p v => exact currentOnly_reached (receiveAccepted_reached rfl)
  | append value => exact proposeUpdate_reached rfl
  | retransmit =>
    apply triple_getNode
    intro n'
    rcases hn : n'.retransmitTask with - | ⟨f, _ | _⟩
    · exact Triple.pure () fun r h => h.1.1
    · exact Triple.pure () fun r h => h.1.1
    · refine fireTask_reached.conseq ?_ (fun _ _ h => h) fun _ h => h
      rintro r ⟨⟨h, -⟩, rfl⟩
      exact ⟨h, hn⟩
  | drive =>
    apply triple_getNode
    intro n'
    rcases hn : n'.delayedDrive with - | _ | _
    · exact Triple.pure () fun r h => h.1.1
    · exact Triple.pure () fun r h => h.1.1
    · -- the timer was due in the node that the event came to
      by_cases hn' : n' = n
      · refine Triple.bind (R := fun _ r => Reached n .drive r₀ r ∧ r.Ready n ∧
          r.node.retransmitTask = n.retransmitTask) (triple_modifyNode ?_) fun _ =>
            driveToResolution_reached (.inr ⟨rfl, hn' ▸ hn⟩)
        rintro r ⟨⟨h, hr⟩, -⟩
        refine ⟨h.tail (.timers _ _ (.inl rfl)), ⟨hr.sent, ?_, ?_⟩, ?_⟩ <;> rw [← hr.node]
      · rintro r ⟨⟨-, hr⟩, heq⟩
        exact absurd (heq.symm.trans hr.node) hn'
  | sync peer =>
    refine triple_getNode fun n' => Triple.ite (fun _ => ?_) fun _ => Triple.pure () fun r h =>
      h.1.1
    refine send_reached.conseq ?_ (fun _ _ h => h) fun _ h => h
    rintro r ⟨⟨h, -⟩, rfl⟩
    exact ⟨h, rfl, trivial⟩

/-! ## Top theorems -/

/-- **Every event is a sequence of changes**, whichever writes raise and whether the callback
does. -/
theorem step_reached (n : ReplicatedValue U V) (e : Event U V) (writes : List Bool)
    (callback : Bool) :
    Reached n e ⟨n, [], writes, callback⟩ (n.step e writes callback) := by
  have := handle_reached (n := n) e ⟨n, [], writes, callback⟩ ⟨.refl, rfl, rfl⟩
  unfold ReplicatedValue.step
  split
  · next hr =>
    rw [hr] at this
    exact this
  · next hr =>
    rw [hr] at this
    exact this

/-- The node at the moment at which datagram `k` leaves, or at the end. -/
def Run.nodeAt (r : Run U V) (k : ℕ) : ReplicatedValue U V :=
  match r.sent[k]? with
  | some s => s.sender
  | none => r.node

/-- A change is one datagram of the node as it is, or none leaves. -/
theorem Change.sent {r r' : Run U V} (h : Change n e r r') :
    r'.sent = r.sent ∨ ∃ s : Sent U V, r'.sent = r.sent ++ [s] ∧ s.sender = r.node ∧
      r'.node = r.node := by
  cases h with
  | send toUid writes h => exact .inr ⟨_, rfl, rfl, rfl⟩
  | _ => exact .inl rfl

/-- **Every moment of an event is reached by changes, too**: the one at which datagram `k` is about
to leave, or the end. -/
theorem Reached.moment {r : Run U V} (h : Reached n e r₀ r) (k : ℕ) (hk : r₀.sent.length ≤ k) :
    ∃ r', Reached n e r₀ r' ∧ r'.sent = r.sent.take k ∧ r'.node = r.nodeAt k := by
  -- a moment at which nothing has left that has not left by the end
  have last : ∀ r' : Run U V, r'.sent.length ≤ k → r'.sent = r'.sent.take k ∧
      r'.node = r'.nodeAt k := by
    intro r' hle
    refine ⟨(List.take_of_length_le hle).symm, ?_⟩
    rw [Run.nodeAt, List.getElem?_eq_none hle]
  induction h with
  | refl => exact ⟨r₀, .refl, last r₀ hk⟩
  | @tail r r' h hc ih =>
    obtain ⟨r₁, h₁, hsent₁, hnode₁⟩ := ih
    by_cases hle : r'.sent.length ≤ k
    · exact ⟨r', h.tail hc, last r' hle⟩
    · refine ⟨r₁, h₁, ?_, ?_⟩
      · rw [hsent₁]
        rcases hc.sent with heq | ⟨s, heq, -, -⟩
        · rw [heq]
        · rw [heq, List.length_append, List.length_singleton] at hle
          rw [heq, List.take_append_of_le_length (by omega)]
      · rw [hnode₁]
        rcases hc.sent with heq | ⟨s, heq, hs, -⟩
        · rw [heq] at hle
          simp only [Run.nodeAt, heq, List.getElem?_eq_getElem (not_le.mp hle)]
        · rw [heq, List.length_append, List.length_singleton] at hle
          simp only [Run.nodeAt, heq]
          rcases Nat.lt_or_ge k r.sent.length with hlt | hkl
          · rw [List.getElem?_append_left hlt, List.getElem?_eq_getElem hlt]
          · obtain rfl : k = r.sent.length := by omega
            rw [List.getElem?_concat_length, List.getElem?_eq_none le_rfl]
            exact hs.symm

/-- The moment right after datagram `k` has left. -/
theorem Reached.left {r : Run U V} (h : Reached n e r₀ r) (h₀ : r₀.sent = []) {k : ℕ}
    {s : Sent U V} (hs : r.sent[k]? = some s) :
    ∃ r', Reached n e r₀ r' ∧ r'.sent = r.sent.take (k + 1) ∧ r'.node = s.sender := by
  induction h with
  | refl =>
    rw [h₀] at hs
    cases hs
  | @tail r r' h hc ih =>
    rcases hc.sent with heq | ⟨s', heq, hsender, hnode⟩
    · rw [heq] at hs ⊢
      exact ih hs
    · rw [heq] at hs
      rcases Nat.lt_or_ge k r.sent.length with hlt | hle
      · rw [List.getElem?_append_left hlt] at hs
        rw [heq, List.take_append_of_le_length (by omega)]
        exact ih hs
      · rw [List.getElem?_append_right hle, List.getElem?_singleton] at hs
        split at hs
        · cases hs
          refine ⟨r', h.tail hc, ?_, hnode.trans hsender.symm⟩
          rw [List.take_of_length_le]
          rw [heq, List.length_append, List.length_singleton]
          omega
        · cases hs

end Paxos
