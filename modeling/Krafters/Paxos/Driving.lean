import Krafters.Paxos.InstanceChange

/-!
# The driver and its retransmission task

`stop_driving` and `send_accept` stop the task that `retransmit_task` refers to.  The task also
stops by itself, when a write raises while its function sends, and `retransmit_task` keeps
referring to it.  `handle_spec` is what one event makes of a task that can be stopped:

    (n.step e writes callback).node.stoppable ↔ TaskSends n ⟨e, writes, callback⟩

so that a run never trips over its task exactly when no write of a task raises.
-/

namespace Paxos

open Hoare

variable {U V : Type} [LinearOrder U] [DecidableEq V]

/-! ## Statement -/

/-- An event, with the writes that raise in its course and whether the callback does. -/
structure Occurrence (U V : Type) where
  event : Event U V
  writes : List Bool
  callback : Bool

/-- The node after a run. -/
def ReplicatedValue.after (n : ReplicatedValue U V) (l : List (Occurrence U V)) :
    ReplicatedValue U V :=
  l.foldl (fun n o => (n.step o.event o.writes o.callback).node) n

/-- There is no task, or it runs. -/
def LoopingCall.Alive (task : Option (LoopingCall U V)) : Prop :=
  task = none ∨ ∃ f, LoopingCall.Runs task f

/-- The task is none or runs; what stops it returns, and so does a drive, which leaves the task
of its own proposal. -/
structure ReplicatedValue.Driveable (n : ReplicatedValue U V) : Prop where
  task : LoopingCall.Alive n.retransmitTask
  stopDriving : ∀ r, r.node = n → ∃ r', Paxos.stopDriving r = .ok () r'
  sendAccept : ∀ p v r, r.node = n → ∃ r', Paxos.sendAccept p v r = .ok () r'
  drive : ∀ r, r.node = n → ∃ r' running, driveToResolution r = .ok () r' ∧
    r'.node.retransmitTask = some ⟨.prepare n.paxos.prepare.proposer.proposalId, running⟩

/-- In the course of the event, `stop` is called on a task that does not run. -/
def Occurrence.Trips (n : ReplicatedValue U V) (o : Occurrence U V) : Prop :=
  ∃ r, handle o.event ⟨n, [], o.writes, o.callback⟩ = .error .notRunning r

def NeverTrips (n : ReplicatedValue U V) (l : List (Occurrence U V)) : Prop :=
  ∀ l', l' <+: l → (n.after l').Driveable ∧ ∀ o, l' ++ [o] <+: l → ¬ o.Trips (n.after l')

/-- The node calls the function of a task: that of a new one for a drive or for the Accept messages
that a quorum of promises allows, or that of the task which is due. -/
def Event.Retransmits (n : ReplicatedValue U V) : Event U V → Prop
  | .append _ => True
  | .drive => n.delayedDrive = some true
  | .retransmit => ∃ f, LoopingCall.Runs n.retransmitTask f
  | .datagram w (.promise i p last value) => i = n.instanceNumber ∧
      ∃ m, (n.paxos.receivePromise w p last value).2 = .ok (some m)
  | _ => False

/-- No write of a task's function raises. -/
def Occurrence.TaskSends (n : ReplicatedValue U V) (o : Occurrence U V) : Prop :=
  o.event.Retransmits n → true ∉ o.writes.take n.peers.length

/-! ## Lemmas -/

section Sends

omit [LinearOrder U] [DecidableEq V]

variable {r : Run U V} {f : Retransmission U V}

/-- One datagram for each peer: the loop ends at the first write that raises. -/
theorem sendAll_eq (m : ℕ → Message U V) (peers : List U) (r : Run U V) :
    ∃ r', r'.node = r.node ∧
      (peers.forM fun uid => do send uid (m (← getNode).instanceNumber) : Act U V Unit) r =
        if true ∈ r.writes.take peers.length then .error .send r' else .ok () r' := by
  induction peers generalizing r with
  | nil => exact ⟨r, rfl, rfl⟩
  | cons uid peers ih =>
    rcases r with ⟨node, sent, writes, callback⟩
    rcases writes with - | ⟨_ | _, writes⟩
    · obtain ⟨r', hnode, hr'⟩ := ih ⟨node, sent ++ [⟨uid, m node.instanceNumber, node⟩], [], callback⟩
      refine ⟨r', hnode, Eq.trans ?_ (hr'.trans ?_)⟩
      · rfl
      · simp
    · obtain ⟨r', hnode, hr'⟩ :=
        ih ⟨node, sent ++ [⟨uid, m node.instanceNumber, node⟩], writes, callback⟩
      refine ⟨r', hnode, Eq.trans ?_ (hr'.trans ?_)⟩
      · rfl
      · simp
    · exact ⟨⟨node, sent, writes, callback⟩, rfl, by simp; rfl⟩

theorem runRetransmission_eq (f : Retransmission U V) (r : Run U V) :
    ∃ r', r'.node = r.node ∧ runRetransmission f r =
      if true ∈ r.writes.take r.node.peers.length then .error .send r' else .ok () r' := by
  cases f with
  | prepare p => exact sendAll_eq (fun i => .prepare i p) r.node.peers r
  | accept p v => exact sendAll_eq (fun i => .accept i p v) r.node.peers r

/-- The task goes on running unless a write raises. -/
theorem fireTask_eq (ht : r.node.retransmitTask = some ⟨f, true⟩) :
    ∃ r', fireTask f r = .ok () r' ∧ r'.node.retransmitTask =
      some ⟨f, decide (true ∉ r.writes.take r.node.peers.length)⟩ := by
  obtain ⟨r', hnode, hr'⟩ := runRetransmission_eq f r
  have hfire : fireTask f r = EStateM.tryCatch (runRetransmission f) (fun _ => modifyNode fun n =>
    { n with retransmitTask := n.retransmitTask.map fun t => { t with running := false } }) r := rfl
  rw [hfire]
  unfold EStateM.tryCatch
  rw [hr']
  by_cases hraise : true ∈ r.writes.take r.node.peers.length
  · rw [if_pos hraise]
    refine ⟨_, rfl, ?_⟩
    show r'.node.retransmitTask.map _ = _
    rw [hnode, ht, decide_eq_false (not_not.mpr hraise)]
    rfl
  · rw [if_neg hraise]
    refine ⟨_, rfl, ?_⟩
    rw [hnode, ht, decide_eq_true hraise]

theorem startTask_eq (f : Retransmission U V) (r : Run U V) :
    ∃ r', startTask f r = .ok () r' ∧ r'.node.retransmitTask =
      some ⟨f, decide (true ∉ r.writes.take r.node.peers.length)⟩ := by
  obtain ⟨r', hr', htask⟩ := fireTask_eq (f := f)
    (r := { r with node := { r.node with retransmitTask := some ⟨f, true⟩ } }) rfl
  exact ⟨r', hr', htask⟩

end Sends

/-! What stops the task. -/

section Stops

variable {r : Run U V}

omit [LinearOrder U] [DecidableEq V] in
theorem alive_some {f : Retransmission U V} {running : Bool} :
    LoopingCall.Alive (some ⟨f, running⟩) ↔ running = true := by
  constructor
  · rintro (h | ⟨g, h⟩)
    · cases h
    · cases h
      rfl
  · rintro rfl
    exact .inr ⟨f, rfl⟩

omit [LinearOrder U] [DecidableEq V] in
theorem stoppable_iff {n : ReplicatedValue U V} :
    n.stoppable = true ↔ LoopingCall.Alive n.retransmitTask := by
  unfold ReplicatedValue.stoppable
  rcases n.retransmitTask with - | ⟨f, running⟩
  · exact iff_of_true rfl (.inl rfl)
  · exact alive_some.symm

omit [LinearOrder U] [DecidableEq V] in
/-- `stop` changes the task only, and it returns exactly where the task can be stopped. -/
theorem stopTask_eq (r : Run U V) : ∃ task, stopTask r =
    if r.node.stoppable then .ok () { r with node := { r.node with retransmitTask := task } }
    else .error .notRunning r := by
  rcases r with ⟨⟨saved, uid, peers, file, paxos, task, drive, window, updates⟩, sent, writes, callback⟩
  rcases task with - | ⟨f, _ | _⟩
  · exact ⟨none, rfl⟩
  · exact ⟨none, rfl⟩
  · exact ⟨some ⟨f, false⟩, rfl⟩

omit [LinearOrder U] [DecidableEq V] in
theorem stopDriving_eq (r : Run U V) : stopDriving r =
    if r.node.stoppable then
      .ok () { r with node := { r.node with
        retransmitTask := none
        delayedDrive := r.node.delayedDrive.map fun _ => false } }
    else .error .notRunning r := by
  rcases r with ⟨⟨saved, uid, peers, file, paxos, task, drive, window, updates⟩, sent, writes, callback⟩
  rcases task with - | ⟨f, _ | _⟩ <;> rfl

omit [LinearOrder U] [DecidableEq V] in
theorem driveToResolution_eq (hs : r.node.stoppable = true) :
    ∃ r', driveToResolution r = .ok () r' ∧ r'.node.retransmitTask =
      some ⟨.prepare r.node.paxos.prepare.proposer.proposalId,
        decide (true ∉ r.writes.take r.node.peers.length)⟩ := by
  have hstop := stopDriving_eq r
  rw [if_pos hs] at hstop
  obtain ⟨r', hr', htask⟩ := startTask_eq (.prepare r.node.paxos.prepare.proposer.proposalId)
    { r with node := { r.node with
        retransmitTask := none
        delayedDrive := r.node.delayedDrive.map fun _ => false
        paxos := r.node.paxos.prepare } }
  exact ⟨r', (bind_of_ok hstop).trans hr', htask⟩

omit [LinearOrder U] [DecidableEq V] in
theorem sendAccept_eq (hs : r.node.stoppable = true) (p : ProposalID U) (v : V) :
    ∃ r', Paxos.sendAccept p v r = .ok () r' ∧ r'.node.retransmitTask =
      some ⟨.accept p v, decide (true ∉ r.writes.take r.node.peers.length)⟩ := by
  obtain ⟨task, hstop⟩ := stopTask_eq r
  rw [if_pos hs] at hstop
  obtain ⟨r', hr', htask⟩ := startTask_eq (.accept p v)
    { r with node := { r.node with retransmitTask := task } }
  exact ⟨r', (bind_of_ok hstop).trans hr', htask⟩

omit [LinearOrder U] [DecidableEq V] in
/-- **The node can go on driving as long as its task can be stopped.** -/
theorem driveable_iff {n : ReplicatedValue U V} : n.Driveable ↔ n.stoppable = true := by
  constructor
  · exact fun h => stoppable_iff.mpr h.task
  · intro hs
    refine ⟨stoppable_iff.mp hs, ?_, ?_, ?_⟩
    · rintro r rfl
      rw [stopDriving_eq, if_pos hs]
      exact ⟨_, rfl⟩
    · rintro p v r rfl
      obtain ⟨r', hr', -⟩ := sendAccept_eq hs p v
      exact ⟨r', hr'⟩
    · rintro r rfl
      obtain ⟨r', hr', htask⟩ := driveToResolution_eq hs
      exact ⟨r', _, hr', htask⟩

end Stops

/-! What has nothing to do with the task. -/

/-- Code ends with this task, and not because a task could not be stopped. -/
def Left {α : Type} (task : Option (LoopingCall U V)) :
    EStateM.Result NodeError (Run U V) α → Prop
  | .ok _ r => r.node.retransmitTask = task
  | .error e r => e ≠ .notRunning ∧ r.node.retransmitTask = task

def Leaves {α : Type} (m : Act U V α) : Prop := ∀ r, Left r.node.retransmitTask (m r)

section Leaves

omit [LinearOrder U] [DecidableEq V]

variable {α β : Type}

theorem Leaves.bind {m : Act U V α} {f : α → Act U V β} (hm : Leaves m) (hf : ∀ a, Leaves (f a)) :
    Leaves (m >>= f) := by
  intro r
  have h := hm r
  show Left _ (EStateM.bind m f r)
  unfold EStateM.bind
  cases hr : m r with
  | ok a r' =>
    rw [hr] at h
    have h' := hf a r'
    rwa [show r'.node.retransmitTask = _ from h] at h'
  | error e r' =>
    rw [hr] at h
    exact h

theorem Left.after {m : Act U V α} {f : α → Act U V β} {r r' : Run U V} {a : α}
    {task : Option (LoopingCall U V)} (hm : m r = .ok a r') (h : Left task (f a r')) :
    Left task ((m >>= f) r) := by
  rw [bind_of_ok hm]
  exact h

theorem leaves_pure (a : α) : Leaves (pure a : Act U V α) := fun _ => rfl

theorem leaves_getNode : Leaves (getNode : Act U V (ReplicatedValue U V)) := fun _ => rfl

theorem leaves_modifyNode {f : ReplicatedValue U V → ReplicatedValue U V}
    (hf : ∀ n, (f n).retransmitTask = n.retransmitTask) : Leaves (modifyNode f) := fun r => hf r.node

theorem leaves_onPaxos (f : PaxosInstance U V → PaxosInstance U V × α) : Leaves (onPaxos f) :=
  fun _ => rfl

theorem leaves_send (toUid : U) (m : Message U V) : Leaves (send toUid m) := by
  rintro ⟨node, sent, writes, callback⟩
  rcases writes with - | ⟨_ | _, writes⟩
  · rfl
  · rfl
  · exact ⟨by decide, rfl⟩

theorem Leaves.forM {f : α → Act U V Unit} (l : List α) (hf : ∀ a ∈ l, Leaves (f a)) :
    Leaves (l.forM f) := by
  induction l with
  | nil => exact leaves_pure ()
  | cons a l ih =>
    exact Leaves.bind (hf a List.mem_cons_self) fun _ =>
      ih fun b hb => hf b (List.mem_cons_of_mem a hb)

theorem Leaves.ite {c : Prop} [Decidable c] {m m' : Act U V α} (hm : Leaves m) (hm' : Leaves m') :
    Leaves (if c then m else m') := by
  split
  · exact hm
  · exact hm'

end Leaves

omit [DecidableEq V] in
theorem Base.receivePrepare_leaves (w : U) (p : ProposalID U) :
    Leaves (Base.receivePrepare w p : Act U V Unit) := by
  apply Leaves.bind (leaves_onPaxos _)
  intro m
  cases m with
  | promise _ _ p' last value =>
    exact Leaves.bind leaves_getNode fun n => Leaves.bind (leaves_modifyNode fun _ => rfl) fun _ =>
      leaves_send _ _
  | _ => exact Leaves.bind leaves_getNode fun n => leaves_send _ _

omit [DecidableEq V] in
theorem receiveAccept_leaves (w : U) (p : ProposalID U) (v : V) : Leaves (receiveAccept w p v) := by
  refine Leaves.bind (Leaves.bind (leaves_onPaxos _) fun m => ?_) fun _ =>
    leaves_modifyNode fun _ => rfl
  cases m with
  | accepted _ p' v' =>
    refine Leaves.bind leaves_getNode fun n => Leaves.bind (leaves_modifyNode fun _ => rfl) fun _ =>
      Leaves.bind leaves_getNode fun n => Leaves.forM _ fun uid _ => ?_
    exact Leaves.bind leaves_getNode fun n => leaves_send _ _
  | _ => exact Leaves.bind leaves_getNode fun n => leaves_send _ _

omit [LinearOrder U] [DecidableEq V] in
theorem receiveSyncRequest_leaves (w : U) (i : ℕ) :
    Leaves (receiveSyncRequest w i : Act U V Unit) :=
  Leaves.bind leaves_getNode fun _ => Leaves.ite (leaves_send _ _) (leaves_pure ())

omit [LinearOrder U] [DecidableEq V] in
theorem currentOnly_leaves {i : ℕ} {act : Act U V Unit} (h : Leaves act) :
    Leaves (currentOnly i act) :=
  Leaves.bind leaves_getNode fun _ => Leaves.ite h (leaves_pure ())

/-! The events. -/

omit [LinearOrder U] [DecidableEq V] in
theorem advanceInstance_left {r : Run U V} (ha : LoopingCall.Alive r.node.retransmitTask) (i : ℕ)
    (value : Option V) (catchup : Bool) :
    ∃ task, LoopingCall.Alive task ∧ Left task (advanceInstance i value catchup r) := by
  cases hc : r.callback with
  | true =>
    rw [advanceInstance_raised hc]
    exact ⟨_, ha, by decide, rfl⟩
  | false =>
    rw [advanceInstance_returned hc ha]
    exact ⟨none, .inl rfl, rfl⟩

section Paxos

omit [LinearOrder U] [DecidableEq V]

variable {α : Type} {f : PaxosInstance U V → PaxosInstance U V × Except NodeError α} {r : Run U V}

theorem tryPaxos_ok {a : α} (h : (f r.node.paxos).2 = .ok a) : tryPaxos f r =
    .ok a { r with node := { r.node with paxos := (f r.node.paxos).1 } } := by
  have hf : onPaxos f r = .ok (f r.node.paxos).2
    { r with node := { r.node with paxos := (f r.node.paxos).1 } } := rfl
  have htry : tryPaxos f r = _ := bind_of_ok hf
  rw [htry, h]
  rfl

theorem tryPaxos_error {e : NodeError} (h : (f r.node.paxos).2 = .error e) : tryPaxos f r =
    .error e { r with node := { r.node with paxos := (f r.node.paxos).1 } } := by
  have hf : onPaxos f r = .ok (f r.node.paxos).2
    { r with node := { r.node with paxos := (f r.node.paxos).1 } } := rfl
  have htry : tryPaxos f r = _ := bind_of_ok hf
  rw [htry, h]
  rfl

end Paxos

theorem Learner.receiveAccepted_error {l : Learner U V} {w : U} {p : ProposalID U} {v : V}
    {e : NodeError} (h : (l.receiveAccepted w p v).2 = .error e) : e ≠ .notRunning := by
  revert h
  unfold Learner.receiveAccepted
  split
  · rintro ⟨⟩
  · dsimp only
    split
    · rintro ⟨⟩
    · split
      · next l' e' hrelease =>
        rintro ⟨⟩
        revert hrelease
        unfold Learner.release
        split
        · rintro ⟨⟩
        · split
          · rintro ⟨⟩
            decide
          · dsimp only
            split
            · rintro ⟨⟩
            · rintro ⟨⟩
              decide
      · unfold Learner.count
        dsimp only
        split
        · split
          · rintro ⟨⟩
          · rintro ⟨⟩
        · rintro ⟨⟩
          decide

omit [DecidableEq V] in
theorem Proposer.receivePromise_error {p : Proposer U V} {w : U} {id : ProposalID U}
    {last : WithBot (ProposalID U)} {value : Option V} {e : NodeError}
    (h : (p.receivePromise w id last value).2 = .error e) : e ≠ .notRunning := by
  revert h
  unfold Proposer.receivePromise
  dsimp only
  split
  · split
    · rintro ⟨⟩
      decide
    · split
      · rintro ⟨⟩
      · rintro ⟨⟩
  · rintro ⟨⟩

omit [LinearOrder U] [DecidableEq V] in
theorem currentOnly_eq (i : ℕ) (act : Act U V Unit) (r : Run U V) :
    currentOnly i act r = if i = r.node.instanceNumber then act r else .ok () r := by
  show (if i = r.node.instanceNumber then act else pure ()) r = _
  split <;> rfl

omit [DecidableEq V] in
theorem receiveNack_left {r : Run U V} (hs : r.node.stoppable = true) (w : U) (p : ProposalID U)
    (promised : WithBot (ProposalID U)) : Left none (receiveNack w p promised r) := by
  have hstop := stopDriving_eq
    { r with node := { r.node with paxos := r.node.paxos.receiveNack w p promised } }
  exact Left.after rfl (Left.after (hstop.trans (if_pos hs)) rfl)

theorem receiveAccepted_left {r : Run U V} (ha : LoopingCall.Alive r.node.retransmitTask) (w : U)
    (p : ProposalID U) (v : V) :
    ∃ task, LoopingCall.Alive task ∧ Left task (receiveAccepted w p v r) := by
  cases hm : (r.node.paxos.receiveAccepted w p v).2 with
  | error e =>
    have hpaxos := tryPaxos_error (f := fun x => x.receiveAccepted w p v) hm
    have haccepted : receiveAccepted w p v r = _ := bind_of_error hpaxos
    rw [haccepted]
    exact ⟨_, ha, Learner.receiveAccepted_error hm, rfl⟩
  | ok m =>
    have hpaxos := tryPaxos_ok (f := fun x => x.receiveAccepted w p v) hm
    cases m with
    | none => exact ⟨_, ha, Left.after hpaxos rfl⟩
    | some m =>
      obtain ⟨w', x, rfl⟩ := Learner.receiveAccepted_resolution hm
      obtain ⟨task, halive, hleft⟩ := advanceInstance_left (r := { r with node := { r.node with
        paxos := (r.node.paxos.receiveAccepted w p v).1 } }) ha (r.node.instanceNumber + 1) v false
      exact ⟨task, halive, Left.after hpaxos hleft⟩

omit [LinearOrder U] [DecidableEq V] in
theorem receiveCatchup_left {r : Run U V} (ha : LoopingCall.Alive r.node.retransmitTask) (i : ℕ)
    (value : Option V) : ∃ task, LoopingCall.Alive task ∧ Left task (receiveCatchup i value r) := by
  have hcatchup : receiveCatchup i value r =
      (if r.node.instanceNumber < i then advanceInstance i value true else pure ()) r := rfl
  rw [hcatchup]
  split
  · exact advanceInstance_left ha i value true
  · exact ⟨_, ha, rfl⟩

omit [LinearOrder U] [DecidableEq V] in
theorem driveToResolution_left {r : Run U V} (hs : r.node.stoppable = true) :
    Left (some ⟨.prepare r.node.paxos.prepare.proposer.proposalId,
      decide (true ∉ r.writes.take r.node.peers.length)⟩) (driveToResolution r) := by
  obtain ⟨r', hr', htask⟩ := driveToResolution_eq hs
  rw [hr']
  exact htask

omit [LinearOrder U] [DecidableEq V] in
theorem sendAccept_left {r : Run U V} (hs : r.node.stoppable = true) (p : ProposalID U) (v : V) :
    Left (some ⟨.accept p v, decide (true ∉ r.writes.take r.node.peers.length)⟩)
      (Paxos.sendAccept p v r) := by
  obtain ⟨r', hr', htask⟩ := sendAccept_eq hs p v
  rw [hr']
  exact htask

omit [DecidableEq V] in
/-- A promise that completes the quorum starts a task of its own. -/
theorem receivePromise_left {r : Run U V} (ha : LoopingCall.Alive r.node.retransmitTask) (w : U)
    (p : ProposalID U) (last : WithBot (ProposalID U)) (value : Option V) :
    ∃ task, Left task (Base.receivePromise w p last value r) ∧ (LoopingCall.Alive task ↔
      ((∃ m, (r.node.paxos.receivePromise w p last value).2 = .ok (some m)) →
        true ∉ r.writes.take r.node.peers.length)) := by
  cases hm : (r.node.paxos.receivePromise w p last value).2 with
  | error e =>
    have hpaxos := tryPaxos_error (f := fun x => x.receivePromise w p last value) hm
    have hreceive : Base.receivePromise w p last value r = _ := bind_of_error hpaxos
    refine ⟨r.node.retransmitTask, ?_, iff_of_true ha fun ⟨m, h⟩ => nomatch h⟩
    rw [hreceive]
    exact ⟨Proposer.receivePromise_error hm, rfl⟩
  | ok m =>
    have hpaxos := tryPaxos_ok (f := fun x => x.receivePromise w p last value) hm
    cases m with
    | none => exact ⟨_, Left.after hpaxos rfl, iff_of_true ha fun ⟨m, h⟩ => nomatch h⟩
    | some m =>
      obtain ⟨w', v, rfl, -⟩ := Proposer.receivePromise_accepting hm
      have hsend := sendAccept_left (r := { r with node := { r.node with
        paxos := (r.node.paxos.receivePromise w p last value).1 } }) (stoppable_iff.mpr ha) p v
      refine ⟨_, Left.after hpaxos hsend, alive_some.trans ?_⟩
      rw [decide_eq_true_iff]
      exact ⟨fun h _ => h, fun h => h ⟨_, rfl⟩⟩

section Timers

variable {r : Run U V}

theorem handle_retransmit (h : ∀ f, ¬ LoopingCall.Runs r.node.retransmitTask f) :
    handle .retransmit r = .ok () r := by
  rcases r with ⟨⟨saved, uid, peers, file, paxos, task, drive, window, updates⟩, sent, writes, callback⟩
  rcases task with - | ⟨f, _ | _⟩
  · rfl
  · rfl
  · exact absurd rfl (h f)

theorem handle_retransmit_due {f : Retransmission U V}
    (h : LoopingCall.Runs r.node.retransmitTask f) : handle .retransmit r = fireTask f r := by
  rcases r with ⟨⟨saved, uid, peers, file, paxos, task, drive, window, updates⟩, sent, writes, callback⟩
  obtain rfl : task = some ⟨f, true⟩ := h
  rfl

theorem handle_drive (h : r.node.delayedDrive ≠ some true) : handle .drive r = .ok () r := by
  rcases r with ⟨⟨saved, uid, peers, file, paxos, task, drive, window, updates⟩, sent, writes, callback⟩
  rcases drive with - | _ | _
  · rfl
  · rfl
  · exact absurd rfl h

theorem handle_drive_due (h : r.node.delayedDrive = some true) : handle .drive r =
    driveToResolution { r with node := { r.node with delayedDrive := some false } } := by
  rcases r with ⟨⟨saved, uid, peers, file, paxos, task, drive, window, updates⟩, sent, writes, callback⟩
  obtain rfl : drive = some true := h
  rfl

end Timers

/-- **What an event makes of a task that can be stopped**: one that can be stopped again, unless
a write of its function raises; and nothing trips. -/
theorem handle_spec {n : ReplicatedValue U V} (ha : LoopingCall.Alive n.retransmitTask)
    (o : Occurrence U V) : ∃ task, Left task (handle o.event ⟨n, [], o.writes, o.callback⟩) ∧
      (LoopingCall.Alive task ↔ o.TaskSends n) := by
  obtain ⟨e, writes, callback⟩ := o
  have hs := stoppable_iff.mpr ha
  -- the task is not called
  have quiet : ∀ {task : Option (LoopingCall U V)}, ¬ e.Retransmits n → LoopingCall.Alive task →
      Left task (handle e ⟨n, [], writes, callback⟩) → ∃ task,
        Left task (handle e ⟨n, [], writes, callback⟩) ∧
        (LoopingCall.Alive task ↔ Occurrence.TaskSends n ⟨e, writes, callback⟩) :=
    fun hno halive hleft => ⟨_, hleft, iff_of_true halive fun h => absurd h hno⟩
  -- the task is called, and what it sends decides
  have loud : ∀ (f : Retransmission U V), e.Retransmits n →
      Left (some ⟨f, decide (true ∉ writes.take n.peers.length)⟩)
        (handle e ⟨n, [], writes, callback⟩) → ∃ task,
        Left task (handle e ⟨n, [], writes, callback⟩) ∧
        (LoopingCall.Alive task ↔ Occurrence.TaskSends n ⟨e, writes, callback⟩) := by
    intro f hyes hleft
    refine ⟨_, hleft, alive_some.trans ?_⟩
    rw [decide_eq_true_iff]
    exact ⟨fun h _ => h, fun h => h hyes⟩
  cases e with
  | append value =>
    have hdrive := driveToResolution_left
      (r := ⟨{ n with paxos := n.paxos.proposeValue value }, [], writes, callback⟩) hs
    exact loud _ trivial (Left.after (Base.proposeUpdate_eq value _) hdrive)
  | retransmit =>
    by_cases hdue : ∃ f, LoopingCall.Runs n.retransmitTask f
    · obtain ⟨f, hf⟩ := hdue
      obtain ⟨r', hr', htask⟩ := fireTask_eq (r := ⟨n, [], writes, callback⟩) hf
      refine loud f ⟨f, hf⟩ ?_
      rw [handle_retransmit_due hf, hr']
      exact htask
    · apply quiet hdue ha
      rw [handle_retransmit fun f hf => hdue ⟨f, hf⟩]
      rfl
  | drive =>
    by_cases hdue : n.delayedDrive = some true
    · have hdrive := driveToResolution_left
        (r := ⟨{ n with delayedDrive := some false }, [], writes, callback⟩) hs
      apply loud (.prepare n.paxos.prepare.proposer.proposalId) hdue
      rw [handle_drive_due (r := ⟨n, [], writes, callback⟩) hdue]
      exact hdrive
    · apply quiet hdue ha
      rw [handle_drive (r := ⟨n, [], writes, callback⟩) hdue]
      rfl
  | sync peer =>
    exact quiet (fun h => h) ha (Leaves.bind leaves_getNode (fun _ => Leaves.ite (leaves_send _ _)
      (leaves_pure ())) _)
  | datagram w m =>
    cases m with
    | syncRequest i => exact quiet (fun h => h) ha (receiveSyncRequest_leaves w i _)
    | catchup i value =>
      obtain ⟨task, halive, hleft⟩ := receiveCatchup_left (r := ⟨n, [], writes, callback⟩) ha i value
      exact quiet (fun h => h) halive hleft
    | nack i p promised =>
      have hnack : handle (.datagram w (.nack i p promised)) ⟨n, [], writes, callback⟩ = _ :=
        currentOnly_eq i _ _
      by_cases hi : i = n.instanceNumber
      · refine quiet (fun h => h) (.inl rfl) ?_
        rw [hnack, if_pos hi]
        exact receiveNack_left hs w p promised
      · refine quiet (fun h => h) ha ?_
        rw [hnack, if_neg hi]
        rfl
    | prepare i p =>
      exact quiet (fun h => h) ha (currentOnly_leaves (Base.receivePrepare_leaves w p) _)
    | promise i p last value =>
      have hpromise : handle (.datagram w (.promise i p last value)) ⟨n, [], writes, callback⟩ =
        _ := currentOnly_eq i _ _
      by_cases hi : i = n.instanceNumber
      · obtain ⟨task, hleft, halive⟩ := receivePromise_left (r := ⟨n, [], writes, callback⟩) ha w p
          last value
        rw [if_pos hi] at hpromise
        rw [hpromise]
        exact ⟨task, hleft, halive.trans ⟨fun h h' => h h'.2, fun h h' => h ⟨hi, h'⟩⟩⟩
      · refine quiet (fun h => hi h.1) ha ?_
        rw [hpromise, if_neg hi]
        rfl
    | accept i p v =>
      exact quiet (fun h => h) ha (currentOnly_leaves (receiveAccept_leaves w p v) _)
    | accepted i p v =>
      have haccepted : handle (.datagram w (.accepted i p v)) ⟨n, [], writes, callback⟩ = _ :=
        currentOnly_eq i _ _
      by_cases hi : i = n.instanceNumber
      · obtain ⟨task, halive, hleft⟩ := receiveAccepted_left (r := ⟨n, [], writes, callback⟩) ha w p v
        refine quiet (fun h => h) halive ?_
        rw [haccepted, if_pos hi]
        exact hleft
      · refine quiet (fun h => h) ha ?_
        rw [haccepted, if_neg hi]
        rfl

theorem step_spec {n : ReplicatedValue U V} (ha : LoopingCall.Alive n.retransmitTask)
    (o : Occurrence U V) : ¬ o.Trips n ∧ (LoopingCall.Alive
      (n.step o.event o.writes o.callback).node.retransmitTask ↔ o.TaskSends n) := by
  obtain ⟨task, hleft, halive⟩ := handle_spec ha o
  constructor
  · rintro ⟨r, hr⟩
    rw [hr] at hleft
    exact hleft.1 rfl
  · rw [← halive]
    unfold ReplicatedValue.step
    split
    · next hr =>
      rw [hr] at hleft
      rw [show _ = task from hleft]
    · next hr =>
      rw [hr] at hleft
      rw [show _ = task from hleft.2]

theorem ReplicatedValue.after_append (n : ReplicatedValue U V) (l : List (Occurrence U V))
    (o : Occurrence U V) :
    n.after (l ++ [o]) = ((n.after l).step o.event o.writes o.callback).node := by
  unfold ReplicatedValue.after
  rw [List.foldl_append]
  rfl

theorem alive_after {n : ReplicatedValue U V} (ha : LoopingCall.Alive n.retransmitTask)
    {l : List (Occurrence U V)} (h : ∀ l' o, l' ++ [o] <+: l → o.TaskSends (n.after l')) :
    LoopingCall.Alive (n.after l).retransmitTask := by
  induction l using List.reverseRecOn with
  | nil => exact ha
  | append_singleton l o ih =>
    have hbefore := ih fun l' o' hpre => h l' o' (hpre.trans (List.prefix_append l [o]))
    rw [ReplicatedValue.after_append]
    exact (step_spec hbefore o).2.mpr (h l o (List.prefix_refl _))

/-! ## Top theorem -/

/-- **The driver trips over its own task.**  Over any run of a node, from any state file: in every
state the task is none or runs, no call of `stop_driving` or `send_accept` raises, and a drive can
start, exactly when in no event a write of the task's function raises. -/
theorem never_trips_iff (uid : U) (peers : List U) (file : Saved U V) (l : List (Occurrence U V)) :
    NeverTrips (.load uid peers file) l ↔
      ∀ l' o, l' ++ [o] <+: l → o.TaskSends (ReplicatedValue.after (.load uid peers file) l') := by
  have hstart : LoopingCall.Alive (ReplicatedValue.load uid peers file).retransmitTask := .inl rfl
  constructor
  · intro h l' o hpre
    obtain ⟨hdrive, -⟩ := h _ ((List.prefix_append l' [o]).trans hpre)
    obtain ⟨hdrive', -⟩ := h _ hpre
    have halive := hdrive'.task
    rw [ReplicatedValue.after_append] at halive
    exact (step_spec hdrive.task o).2.mp halive
  · intro h l' hpre
    have halive := alive_after hstart fun l'' o hpre' => h l'' o (hpre'.trans hpre)
    exact ⟨driveable_iff.mpr (stoppable_iff.mpr halive), fun o _ => (step_spec halive o).1⟩

/-- The second write of node 1's first Prepare raises, and the next append raises, too. -/
theorem trips_over_task : ∃ l : List (Occurrence ℕ ℕ), ∃ o : Occurrence ℕ ℕ,
    (l.flatMap Occurrence.writes).count true = 1 ∧
    ¬ LoopingCall.Alive (ReplicatedValue.after (.fresh 1 [1, 2, 3]) l).retransmitTask ∧
    o.Trips (ReplicatedValue.after (.fresh 1 [1, 2, 3]) l) ∧ ¬ NeverTrips (.fresh 1 [1, 2, 3]) l := by
  refine ⟨[⟨.append (some 7), [false, true], false⟩], ⟨.append (some 8), [], false⟩, by decide, ?_,
    ⟨_, rfl⟩, ?_⟩
  · intro h
    exact absurd (alive_some.mp h) (by decide)
  · intro h
    have halive := (h _ (List.prefix_refl _)).1.task
    exact absurd (alive_some.mp halive) (by decide)

end Paxos
