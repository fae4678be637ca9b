import Krafters.Paxos.Changes

/-!
# The change of instance, when the callback may raise

`advance_instance` is spread over two classes with `onUpdateCallback` in the middle.
`advance_complete_iff`: it leaves nothing of the old instance exactly if the callback
returns, or if there is neither a task nor a delayed drive to be left; and in every run
in which each callback that raises finds the node so, a node sends only what its present
paxos object proposes and holds.  `advance_incomplete` is a run in which a value of the
old instance is proposed in the new one.
-/

namespace Paxos

variable {U V : Type}

/-! ## Statement -/

/-- Node `n'` is node `n` after a complete change to instance `i`. -/
structure ReplicatedValue.Entered (n n' : ReplicatedValue U V) (i : ℕ) (value : Option V) :
    Prop where
  memory : n'.toSaved = ⟨i, value, ⊥, ⊥, none⟩
  file : n'.stateFile = ⟨i, value, ⊥, ⊥, none⟩
  paxos : n'.paxos = .init n.networkUid n.quorumSize ⊥ ⊥ none
  task : n'.retransmitTask = none
  drive : n'.delayedDrive ≠ some true

/-- The change is complete when `advance_instance` returns, or raises what the callback raised. -/
def AdvanceComplete (r : Run U V) (i : ℕ) (value : Option V) (catchup : Bool) : Prop :=
  match advanceInstance i value catchup r with
  | .ok _ r' => r.node.Entered r'.node i value
  | .error .callback r' => r.node.Entered r'.node i value
  | .error _ _ => True

/-- Nothing that could outlive the instance. -/
structure ReplicatedValue.Quiet (n : ReplicatedValue U V) : Prop where
  task : n.retransmitTask = none
  drive : n.delayedDrive ≠ some true

/-- The message is about the instance of node `n` and tells what its paxos object, which is made
anew with every instance, proposes and holds. -/
def Current (n : ReplicatedValue U V) (m : Message U V) : Prop :=
  m.instanceNumber = n.instanceNumber ∧
  match m with
  | .prepare _ p => p = n.paxos.proposer.proposalId
  | .accept _ p v => n.paxos.proposer.Accepting p v
  | .promise _ p last value => n.paxos.acceptor.promisedId = p ∧
      n.paxos.acceptor.acceptedId = last ∧ n.paxos.acceptor.acceptedValue = value
  | .accepted _ p v => n.paxos.acceptor.promisedId = p ∧ n.paxos.acceptor.acceptedId = p ∧
      n.paxos.acceptor.acceptedValue = some v
  | .nack _ _ promised => n.promisedId = promised
  | .catchup _ value => n.currentValue = value
  | .syncRequest _ => True

/-- The runs of a node, with crashes at any moment, whose events all meet `Ok`: the node as it is
now and every datagram it has sent. -/
inductive Serves [LinearOrder U] [DecidableEq V] (Ok : ReplicatedValue U V → Bool → Prop) (uid : U)
    (peers : List U) : ReplicatedValue U V → List (Sent U V) → Prop
  | fresh : Serves Ok uid peers (.fresh uid peers) []
  | event {n : ReplicatedValue U V} {history : List (Sent U V)} (e : Event U V)
      (writes : List Bool) (callback : Bool) (h : Serves Ok uid peers n history)
      (hok : Ok n callback) :
      Serves Ok uid peers (n.step e writes callback).node
        (history ++ (n.step e writes callback).sent)
  /-- a crash between two events -/
  | crash {n : ReplicatedValue U V} {history : List (Sent U V)} (h : Serves Ok uid peers n history) :
      Serves Ok uid peers (.load uid peers n.stateFile) history
  /-- a crash in the course of an event, when `k` datagrams have left -/
  | crashAt {n : ReplicatedValue U V} {history : List (Sent U V)} (e : Event U V)
      (writes : List Bool) (callback : Bool) (k : ℕ) (h : Serves Ok uid peers n history)
      (hok : Ok n callback) :
      Serves Ok uid peers (.load uid peers ((n.step e writes callback).nodeAt k).stateFile)
        (history ++ (n.step e writes callback).sent.take k)

/-- The runs in which a callback raises only where nothing could outlive the instance. -/
abbrev ServesQuietly [LinearOrder U] [DecidableEq V] (uid : U) (peers : List U) :
    ReplicatedValue U V → List (Sent U V) → Prop :=
  Serves (fun n callback => callback = true → n.Quiet) uid peers

/-! ## Lemmas -/

section Advance

variable {r : Run U V} {i : ℕ} {value : Option V} {catchup : Bool}

theorem advanceInstance_raised (hc : r.callback = true) :
    advanceInstance i value catchup r =
      .error .callback { r with node := r.node.advanced i value catchup } := by
  rcases r with ⟨node, sent, writes, callback⟩
  subst hc
  rfl

/-- A task that its function's exception has stopped cannot be stopped again. -/
theorem advanceInstance_stuck (hc : r.callback = false) {f : Retransmission U V}
    (ht : r.node.retransmitTask = some ⟨f, false⟩) :
    advanceInstance i value catchup r =
      .error .notRunning { r with node := r.node.advanced i value catchup } := by
  rcases r with ⟨⟨_, _, _, _, _, task, _, _, _⟩, sent, writes, callback⟩
  subst hc
  obtain rfl : task = some ⟨f, false⟩ := ht
  rfl

theorem advanceInstance_returned (hc : r.callback = false)
    (ht : r.node.retransmitTask = none ∨ ∃ f, LoopingCall.Runs r.node.retransmitTask f) :
    advanceInstance i value catchup r =
      .ok () { r with node := { r.node.advanced i value catchup with
        retransmitTask := none
        delayedDrive := r.node.delayedDrive.map fun _ => false
        backoffWindow := backoffInitial } } := by
  rcases r with ⟨⟨_, _, _, _, _, task, _, _, _⟩, sent, writes, callback⟩
  subst hc
  rcases ht with ht | ⟨f, ht⟩
  · obtain rfl : task = none := ht
    rfl
  · obtain rfl : task = some ⟨f, true⟩ := ht
    rfl

/-- What the callback's outcome decides. -/
theorem advanceComplete_iff :
    AdvanceComplete r i value catchup ↔ (r.callback = true → r.node.Quiet) := by
  cases hc : r.callback with
  | true =>
    rw [AdvanceComplete, advanceInstance_raised hc]
    constructor
    · exact fun h _ => ⟨h.task, h.drive⟩
    · exact fun h => ⟨rfl, rfl, rfl, (h rfl).task, (h rfl).drive⟩
  | false =>
    refine iff_of_true ?_ fun h => absurd h (by decide)
    rcases ht : r.node.retransmitTask with - | ⟨f, _ | _⟩
    · rw [AdvanceComplete, advanceInstance_returned hc (.inl ht)]
      refine ⟨rfl, rfl, rfl, rfl, fun h => ?_⟩
      obtain ⟨_, -, hf⟩ := Option.map_eq_some_iff.mp h
      cases hf
    · rw [AdvanceComplete, advanceInstance_stuck hc ht]
      trivial
    · rw [AdvanceComplete, advanceInstance_returned hc (.inr ⟨f, ht⟩)]
      refine ⟨rfl, rfl, rfl, rfl, fun h => ?_⟩
      obtain ⟨_, -, hf⟩ := Option.map_eq_some_iff.mp h
      cases hf

end Advance

/-! A running task repeats what the proposer proposes now. -/

/-- The node repeats nothing old. -/
def Tasked (n : ReplicatedValue U V) : Prop :=
  ∀ f, LoopingCall.Runs n.retransmitTask f → f.Of n.paxos.proposer

/-- A task that repeats what is proposed goes on to do so. -/
theorem Tasked.withPaxos {n : ReplicatedValue U V} (h : Tasked n) {x : PaxosInstance U V}
    (hid : x.proposer.proposalId = n.paxos.proposer.proposalId)
    (hacc : ∀ {p v}, n.paxos.proposer.Accepting p v → x.proposer.Accepting p v) :
    Tasked { n with paxos := x } := by
  intro f hf
  have := h f hf
  cases f with
  | prepare p => exact this.trans hid.symm
  | accept p v => exact hacc this

variable [LinearOrder U]

theorem Speaks.current {n : ReplicatedValue U V} {e : Event U V} {m : Message U V}
    (h : Speaks n e m) (ht : Tasked n) : Current n m := by
  obtain ⟨hi, h⟩ := h
  refine ⟨hi, ?_⟩
  cases m with
  | prepare i p => exact ht _ h
  | accept i p v => exact ht _ h
  | accepted i p v => exact h.1
  | nack i p promised => exact h.1
  | _ => exact h

variable [DecidableEq V]

/-- In the course of an event. -/
structure Fair (n : ReplicatedValue U V) (r : Run U V) : Prop where
  tasked : Tasked r.node
  sent : ∀ s ∈ r.sent, Current s.sender s.message
  calm : r.callback = true → ∀ f, ¬ LoopingCall.Runs n.retransmitTask f

theorem Fair.change {n : ReplicatedValue U V} {e : Event U V} {r r' : Run U V} (h : Fair n r)
    (hc : Change n e r r') : Fair n r' := by
  obtain ⟨ht, hs, hcalm⟩ := h
  cases hc with
  | send toUid writes hm =>
    refine ⟨ht, fun s hmem => ?_, hcalm⟩
    rcases List.mem_append.mp hmem with hmem | hmem
    · exact hs s hmem
    · rw [List.mem_singleton] at hmem
      subst hmem
      exact hm.current ht
  | fail writes => exact ⟨ht, hs, hcalm⟩
  | start hidle hf =>
    refine ⟨?_, hs, hcalm⟩
    rintro f ⟨⟩
    exact hf
  | timers drive window htask =>
    refine ⟨fun f hf => ?_, hs, hcalm⟩
    rcases htask with rfl | hidle
    · exact ht f hf
    · exact absurd hf (hidle f)
  | propose he hr hnone =>
    exact ⟨ht.withPaxos (Proposer.proposeValue_proposalId _ _) fun ha => ha.proposeValue _, hs, hcalm⟩
  | prepare he hstop hr hidle => exact ⟨fun f hf => absurd hf (hidle f), hs, hcalm⟩
  | nack hr he hidle => exact ⟨fun f hf => absurd hf (hidle f), hs, hcalm⟩
  | promise he =>
    exact ⟨ht.withPaxos ((Proposer.receivePromise_frame _ _ _ _ _).proposalId)
      fun ha => ha.receivePromise _ _ _ _, hs, hcalm⟩
  | observe p | @promised _ p _ _ _ | @accepted _ p _ _ _ _ =>
    exact ⟨ht.withPaxos (Proposer.observeProposal_proposalId _ _) fun ha => ha.observeProposal p,
      hs, hcalm⟩
  | learn he hnone => exact ⟨ht.withPaxos rfl id, hs, hcalm⟩
  | advance hi hidle => exact ⟨fun f hf => absurd hf (hidle f), hs, hcalm⟩
  | advanceRaised hi hr hc =>
    refine ⟨fun f hf => absurd ?_ (hcalm hc f), hs, hcalm⟩
    rw [← hr.node]
    exact hf

theorem Fair.reached {n : ReplicatedValue U V} {e : Event U V} {r r' : Run U V} (h : Fair n r)
    (hr : Reached n e r r') : Fair n r' := by
  induction hr with
  | refl => exact h
  | tail _ hc ih => exact ih.change hc

theorem Serves.fair {uid : U} {peers : List U} {n : ReplicatedValue U V}
    {history : List (Sent U V)} (h : ServesQuietly uid peers n history) :
    Tasked n ∧ ∀ s ∈ history, Current s.sender s.message := by
  have step : ∀ {n : ReplicatedValue U V} (e : Event U V) (writes : List Bool) (callback : Bool),
      Tasked n → (callback = true → n.Quiet) → Fair n (n.step e writes callback) := by
    intro n e writes callback ht hok
    refine Fair.reached ⟨ht, by simp, fun hc f hf => ?_⟩ (step_reached n e writes callback)
    cases (hok hc).task.symm.trans hf
  have loaded : ∀ file : Saved U V, Tasked (.load uid peers file) := by
    rintro file f ⟨⟩
  induction h with
  | fresh => exact ⟨loaded _, by simp⟩
  | event e writes callback h hok ih =>
    have hfair := step e writes callback ih.1 hok
    refine ⟨hfair.tasked, fun s hs => ?_⟩
    rcases List.mem_append.mp hs with hs | hs
    · exact ih.2 s hs
    · exact hfair.sent s hs
  | crash h ih => exact ⟨loaded _, ih.2⟩
  | crashAt e writes callback k h hok ih =>
    refine ⟨loaded _, fun s hs => ?_⟩
    rcases List.mem_append.mp hs with hs | hs
    · exact ih.2 s hs
    · exact (step e writes callback ih.1 hok).sent s (List.mem_of_mem_take hs)

/-! ## Top theorem -/

/-- **The change of instance is complete** exactly if the callback returns or there is nothing
to be left, in any state and for any new instance and value; and where every callback that
raises finds the node so, all that a node ever sends is of the instance that it is in. -/
theorem advance_complete_iff (uid : U) (peers : List U) :
    (∀ (r : Run U V) (i : ℕ) (value : Option V) (catchup : Bool),
      AdvanceComplete r i value catchup ↔ (r.callback = true → r.node.Quiet)) ∧
    ∀ (n : ReplicatedValue U V) (history : List (Sent U V)), ServesQuietly uid peers n history →
      ∀ s ∈ history, Current s.sender s.message :=
  ⟨fun _ _ _ _ => advanceComplete_iff, fun _ _ h => h.fair.2⟩

/-- A node without a task catches up, the callback raises, and what it sends after that is of its
new instance. -/
theorem advance_complete_run : ∃ (n : ReplicatedValue ℕ ℕ) (history : List (Sent ℕ ℕ)),
    ServesQuietly 1 [1, 2, 3] n history ∧ AdvanceComplete ⟨.fresh 1 [1, 2, 3], [], [], true⟩ 4
      (some 7) true ∧ history.length = 3 ∧ ∀ s ∈ history, Current s.sender s.message := by
  have started : ServesQuietly 1 [1, 2, 3] (.fresh 1 [1, 2, 3] : ReplicatedValue ℕ ℕ) [] := .fresh
  have quiet : (.fresh 1 [1, 2, 3] : ReplicatedValue ℕ ℕ).Quiet := ⟨rfl, by decide⟩
  have proposed := (started.event (.datagram 2 (.catchup 4 (some 7))) [] true fun _ => quiet).event
    (.append (some 8)) [] false fun h => absurd h (by decide)
  obtain ⟨hcomplete, hcurrent⟩ := advance_complete_iff (V := ℕ) 1 [1, 2, 3]
  exact ⟨_, _, proposed, (hcomplete _ _ _ _).mpr fun _ => quiet, rfl, hcurrent _ _ proposed⟩

/-- A leader resolves instance 0, the callback raises, and the task of the old instance sends its
value 7 under its id in instance 1. -/
theorem advance_incomplete : ∃ (n n' : ReplicatedValue ℕ ℕ) (history history' : List (Sent ℕ ℕ)),
    Serves (fun _ _ => True) 1 [1, 2, 3] n history ∧
    ¬ AdvanceComplete ⟨n, [], [], true⟩ 1 (some 7) false ∧
    Serves (fun _ _ => True) 1 [1, 2, 3] n' history' ∧
    ∃ s ∈ history', s.message = .accept 1 ⟨1, 1⟩ 7 ∧ ¬ Current s.sender s.message := by
  have started : Serves (fun _ _ => True) 1 [1, 2, 3] (.fresh 1 [1, 2, 3] : ReplicatedValue ℕ ℕ) [] :=
    .fresh
  have leading := ((started.event (.append (some 7)) [] false trivial).event
    (.datagram 1 (.promise 0 ⟨1, 1⟩ ⊥ none)) [] false trivial).event
    (.datagram 2 (.promise 0 ⟨1, 1⟩ ⊥ none)) [] false trivial
  have advanced := (leading.event (.datagram 1 (.accepted 0 ⟨1, 1⟩ 7)) [] false trivial).event
    (.datagram 2 (.accepted 0 ⟨1, 1⟩ 7)) [] true trivial
  have repeated := advanced.event .retransmit [] false trivial
  refine ⟨_, _, _, _, leading, fun h => ?_, repeated, ?_⟩
  · have := ((advanceComplete_iff.mp h) rfl).task
    cases this
  · exact ⟨_, List.mem_append_right _ List.mem_cons_self, rfl, fun h => absurd h.2.leader (by decide)⟩

end Paxos
