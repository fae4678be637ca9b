import Krafters.Lib.Hoare
import Krafters.Paxos.ComposablePaxos

/-!
# The replicated value of paxos/custom_server.py

`ExponentialBackoffResolutionStrategyMixin` over `SimpleSynchronizationStrategyMixin`
over `BaseReplicatedValue`, with the `Messenger` that carries its datagrams.  A method
that two classes define is one definition per class, under the name of its class.

What the outside decides is data of a run: which calls of `transport.write` raise and
whether `onUpdateCallback` raises.  Delays are left out, so a timer may fire at any
moment at which it is set.
-/

namespace Paxos

variable {U V : Type}

/-! ## State -/

/-- The datagrams of `Messenger`, with their keyword arguments. -/
inductive Message (U V : Type)
  | syncRequest (instanceNumber : ℕ)
  | catchup (instanceNumber : ℕ) (currentValue : Option V)
  | nack (instanceNumber : ℕ) (proposalId : ProposalID U)
      (promisedProposalId : WithBot (ProposalID U))
  | prepare (instanceNumber : ℕ) (proposalId : ProposalID U)
  | promise (instanceNumber : ℕ) (proposalId : ProposalID U)
      (lastAcceptedId : WithBot (ProposalID U)) (lastAcceptedValue : Option V)
  | accept (instanceNumber : ℕ) (proposalId : ProposalID U) (proposalValue : V)
  | accepted (instanceNumber : ℕ) (proposalId : ProposalID U) (proposalValue : V)

/-- What `save_state` writes to the state file. -/
structure Saved (U V : Type) where
  instanceNumber : ℕ
  currentValue : Option V
  promisedId : WithBot (ProposalID U)
  acceptedId : WithBot (ProposalID U)
  acceptedValue : Option V

/-- The content of a state file that `load_state` has just made. -/
def Saved.fresh : Saved U V := ⟨0, none, ⊥, ⊥, none⟩

/-- The function of a `LoopingCall`: `send_prepare` or the base class's `send_accept`. -/
inductive Retransmission (U V : Type)
  | prepare (proposalId : ProposalID U)
  | accept (proposalId : ProposalID U) (proposalValue : V)

/-- `task.LoopingCall` -/
structure LoopingCall (U V : Type) where
  f : Retransmission U V
  running : Bool

/-- A call of `advance_instance` whose value went to `onUpdateCallback`. -/
structure Update (V : Type) where
  instanceNumber : ℕ
  value : Option V
  catchup : Bool

/-- A node: the attributes of the replicated value (those that `save_state` mirrors come
first), its state file and the updates that its callback was given. -/
structure ReplicatedValue (U V : Type) extends Saved U V where
  networkUid : U
  peers : List U
  stateFile : Saved U V
  paxos : PaxosInstance U V
  retransmitTask : Option (LoopingCall U V)
  /-- `delayed_drive`, with `active()` -/
  delayedDrive : Option Bool
  backoffWindow : ℕ
  updates : List (Update V)

def backoffInitial : ℕ := 5

def backoffCap : ℕ := 2000

/-- A datagram that left, and the node as it was at that moment. -/
structure Sent (U V : Type) where
  toUid : U
  message : Message U V
  sender : ReplicatedValue U V

/-- A node in the course of one event. -/
structure Run (U V : Type) where
  node : ReplicatedValue U V
  sent : List (Sent U V)
  /-- which of the next calls of `transport.write` raise -/
  writes : List Bool
  /-- `onUpdateCallback` raises -/
  callback : Bool

abbrev Act (U V α : Type) : Type := EStateM NodeError (Run U V) α

namespace ReplicatedValue

def quorumSize (n : ReplicatedValue U V) : ℕ := n.peers.length / 2 + 1

/-- `__init__` with what `load_state` reads from the state file. -/
def load (networkUid : U) (peers : List U) (file : Saved U V) : ReplicatedValue U V where
  toSaved := file
  networkUid
  peers
  stateFile := file
  paxos := .init networkUid (peers.length / 2 + 1) file.promisedId file.acceptedId
    file.acceptedValue
  retransmitTask := none
  delayedDrive := none
  backoffWindow := backoffInitial
  updates := []

/-- A node whose state file does not exist yet. -/
def fresh (networkUid : U) (peers : List U) : ReplicatedValue U V := load networkUid peers .fresh

end ReplicatedValue

/-! ## Primitives -/

def getNode : Act U V (ReplicatedValue U V) := do return (← get).node

def modifyNode (f : ReplicatedValue U V → ReplicatedValue U V) : Act U V Unit :=
  modify fun r => { r with node := f r.node }

/-- `Messenger._send` -/
def send (toUid : U) (message : Message U V) : Act U V Unit := do
  let r : Run U V ← get
  match r.writes with
  | true :: writes =>
    set { r with writes }
    throw .send
  | writes =>
    let datagram : Sent U V := ⟨toUid, message, r.node⟩
    set { r with writes := writes.tail, sent := r.sent ++ [datagram] }

def onUpdateCallback : Act U V Unit := do
  if (← get).callback then throw .callback

/-- A method of `self.paxos` that returns. -/
def onPaxos {α : Type} (f : PaxosInstance U V → PaxosInstance U V × α) : Act U V α := do
  let n ← getNode
  modifyNode fun n => { n with paxos := (f n.paxos).1 }
  return (f n.paxos).2

/-- A method of `self.paxos` that may raise. -/
def tryPaxos {α : Type} (f : PaxosInstance U V → PaxosInstance U V × Except NodeError α) :
    Act U V α := do
  match ← onPaxos f with
  | .ok a => return a
  | .error e => throw e

/-- `save_state`: the mirrored attributes, then the state file. -/
def saveState (s : Saved U V) : Act U V Unit :=
  modifyNode fun n => { n with toSaved := s, stateFile := s }

/-! ## Proof rules for the primitives -/

section Rules

open Hoare

variable {α : Type} {P : Run U V → Prop} {Q : α → Run U V → Prop} {E : Run U V → Prop}

theorem triple_getNode {f : ReplicatedValue U V → Act U V α}
    (h : ∀ n, Triple (fun r => P r ∧ r.node = n) (f n) Q E) : Triple P (getNode >>= f) Q E :=
  fun r hr => h r.node r ⟨hr, rfl⟩

theorem triple_modifyNode {f : ReplicatedValue U V → ReplicatedValue U V}
    {Q : Unit → Run U V → Prop} (h : ∀ r, P r → Q () { r with node := f r.node }) :
    Triple P (modifyNode f) Q E := h

theorem triple_onPaxos {f : PaxosInstance U V → PaxosInstance U V × α}
    (h : ∀ r, P r → Q (f r.node.paxos).2
      { r with node := { r.node with paxos := (f r.node.paxos).1 } }) :
    Triple P (onPaxos f) Q E := h

theorem triple_tryPaxos {f : PaxosInstance U V → PaxosInstance U V × Except NodeError α}
    (hok : ∀ r a, P r → (f r.node.paxos).2 = .ok a →
      Q a { r with node := { r.node with paxos := (f r.node.paxos).1 } })
    (herr : ∀ r e, P r → (f r.node.paxos).2 = .error e →
      E { r with node := { r.node with paxos := (f r.node.paxos).1 } }) :
    Triple P (tryPaxos f) Q E := by
  refine Triple.bind (triple_onPaxos fun r hr => ?_) (R := fun x r' => ∃ r, P r ∧
    x = (f r.node.paxos).2 ∧ r' = { r with node := { r.node with paxos := (f r.node.paxos).1 } }) ?_
  · exact ⟨r, hr, rfl, rfl⟩
  · intro x
    cases x with
    | ok a =>
      apply Triple.pure a
      rintro _ ⟨r, hr, hx, rfl⟩
      exact hok r a hr hx.symm
    | error e =>
      apply Triple.throw e
      rintro _ ⟨r, hr, hx, rfl⟩
      exact herr r e hr hx.symm

/-- A datagram leaves with the node as it is, or the write raises and nothing changes. -/
theorem triple_send {toUid : U} {m : Message U V} {Q : Unit → Run U V → Prop}
    (hok : ∀ r writes, P r →
      Q () { r with writes := writes, sent := r.sent ++ [⟨toUid, m, r.node⟩] })
    (herr : ∀ r writes, P r → E { r with writes := writes }) :
    Triple P (send toUid m) Q E := by
  intro r hr
  rcases r with ⟨node, sent, writes, callback⟩
  rcases writes with - | ⟨_ | _, writes⟩
  · exact hok _ _ hr
  · exact hok _ _ hr
  · exact herr _ _ hr

end Rules

variable [LinearOrder U]

/-! ## BaseReplicatedValue -/

namespace Base

def proposeUpdate (newValue : Option V) : Act U V Unit := do
  let n ← getNode
  if n.paxos.proposer.proposedValue.isNone then
    modifyNode fun n => { n with paxos := n.paxos.proposeValue newValue }

def advanceInstance (newInstanceNumber : ℕ) (newCurrentValue : Option V) (catchup : Bool) :
    Act U V Unit := do
  saveState ⟨newInstanceNumber, newCurrentValue, ⊥, ⊥, none⟩
  modifyNode fun n => { n with paxos := .init n.networkUid n.quorumSize ⊥ ⊥ none }
  modifyNode fun n =>
    { n with updates := n.updates ++ [⟨newInstanceNumber, newCurrentValue, catchup⟩] }
  onUpdateCallback

def sendPrepare (proposalId : ProposalID U) : Act U V Unit := do
  (← getNode).peers.forM fun uid => do
    send uid (.prepare (← getNode).instanceNumber proposalId)

def sendAccept (proposalId : ProposalID U) (proposalValue : V) : Act U V Unit := do
  (← getNode).peers.forM fun uid => do
    send uid (.accept (← getNode).instanceNumber proposalId proposalValue)

def sendAccepted (proposalId : ProposalID U) (proposalValue : V) : Act U V Unit := do
  (← getNode).peers.forM fun uid => do
    send uid (.accepted (← getNode).instanceNumber proposalId proposalValue)

end Base

/-- The node after the writes of the base class's `advance_instance`. -/
def ReplicatedValue.advanced (n : ReplicatedValue U V) (i : ℕ) (value : Option V)
    (catchup : Bool) : ReplicatedValue U V :=
  { n with
    toSaved := ⟨i, value, ⊥, ⊥, none⟩
    stateFile := ⟨i, value, ⊥, ⊥, none⟩
    paxos := .init n.networkUid n.quorumSize ⊥ ⊥ none
    updates := n.updates ++ [⟨i, value, catchup⟩] }

omit [LinearOrder U] in
theorem Base.advanceInstance_eq (i : ℕ) (value : Option V) (catchup : Bool) (r : Run U V) :
    Base.advanceInstance i value catchup r =
      if r.callback then .error .callback { r with node := r.node.advanced i value catchup }
      else .ok () { r with node := r.node.advanced i value catchup } := by
  rcases r with ⟨node, sent, writes, callback⟩
  cases callback <;> rfl

omit [LinearOrder U] in
/-- The proposer ignores a value where it has one. -/
theorem Base.proposeUpdate_eq (value : Option V) (r : Run U V) : Base.proposeUpdate value r =
    .ok () { r with node := { r.node with paxos := r.node.paxos.proposeValue value } } := by
  show (if r.node.paxos.proposer.proposedValue.isNone then
    modifyNode fun n => { n with paxos := n.paxos.proposeValue value } else pure ()) r = _
  cases hv : r.node.paxos.proposer.proposedValue with
  | none => rfl
  | some v =>
    have hkeep : r.node.paxos.proposeValue value = r.node.paxos := by
      simp only [PaxosInstance.proposeValue, Proposer.proposeValue, hv]
    rw [hkeep]
    rfl

/-! ## ExponentialBackoffResolutionStrategyMixin -/

def runRetransmission : Retransmission U V → Act U V Unit
  | .prepare proposalId => Base.sendPrepare proposalId
  | .accept proposalId proposalValue => Base.sendAccept proposalId proposalValue

/-- One call of the running task; the task stops when the function raises. -/
def fireTask (f : Retransmission U V) : Act U V Unit :=
  tryCatch (runRetransmission f) fun _ =>
    modifyNode fun n =>
      { n with retransmitTask := n.retransmitTask.map fun t => { t with running := false } }

/-- `self.retransmit_task = LoopingCall(f)`, then its `start` with `now=True`. -/
def startTask (f : Retransmission U V) : Act U V Unit := do
  modifyNode fun n => { n with retransmitTask := some ⟨f, true⟩ }
  fireTask f

/-- `self.retransmit_task.stop()`, where there is a task. -/
def stopTask : Act U V Unit := do
  match (← getNode).retransmitTask with
  | none => return
  | some t =>
    if t.running then
      modifyNode fun n => { n with retransmitTask := some { t with running := false } }
    else throw .notRunning

def rescheduleNextDriveAttempt : Act U V Unit :=
  modifyNode fun n => { n with delayedDrive := some true }

def stopDriving : Act U V Unit := do
  stopTask
  modifyNode fun n =>
    { n with retransmitTask := none, delayedDrive := n.delayedDrive.map fun _ => false }

def driveToResolution : Act U V Unit := do
  stopDriving
  modifyNode fun n => { n with paxos := n.paxos.prepare }
  startTask (.prepare (← getNode).paxos.proposer.proposalId)

def advanceInstance (newInstanceNumber : ℕ) (newCurrentValue : Option V) (catchup : Bool) :
    Act U V Unit := do
  Base.advanceInstance newInstanceNumber newCurrentValue catchup
  stopDriving
  modifyNode fun n => { n with backoffWindow := backoffInitial }

def proposeUpdate (newValue : Option V) : Act U V Unit := do
  Base.proposeUpdate newValue
  driveToResolution

def sendAccept (proposalId : ProposalID U) (proposalValue : V) : Act U V Unit := do
  stopTask
  startTask (.accept proposalId proposalValue)

/-! ## Messages -/

namespace Base

def receivePrepare (fromUid : U) (proposalId : ProposalID U) : Act U V Unit := do
  match ← onPaxos fun x => x.receivePrepare fromUid proposalId with
  | .promise _ _ proposalId' lastAcceptedId lastAcceptedValue =>
    let n ← getNode
    saveState ⟨n.instanceNumber, n.currentValue, proposalId', lastAcceptedId, lastAcceptedValue⟩
    send fromUid (.promise n.instanceNumber proposalId' lastAcceptedId lastAcceptedValue)
  | _ =>
    let n ← getNode
    send fromUid (.nack n.instanceNumber proposalId n.promisedId)

def receivePromise (fromUid : U) (proposalId : ProposalID U)
    (lastAcceptedId : WithBot (ProposalID U)) (lastAcceptedValue : Option V) : Act U V Unit := do
  match ← tryPaxos fun x =>
      x.receivePromise fromUid proposalId lastAcceptedId lastAcceptedValue with
  | some (.accept _ proposalId' proposalValue) => Paxos.sendAccept proposalId' proposalValue
  | _ => return

def receiveAccept (fromUid : U) (proposalId : ProposalID U) (proposalValue : V) : Act U V Unit := do
  match ← onPaxos fun x => x.receiveAccept fromUid proposalId proposalValue with
  | .accepted _ proposalId' proposalValue' =>
    let n ← getNode
    -- the promised id saved is the mirrored one, not that of the acceptor
    saveState ⟨n.instanceNumber, n.currentValue, n.promisedId, proposalId, proposalValue⟩
    sendAccepted proposalId' proposalValue'
  | _ =>
    let n ← getNode
    send fromUid (.nack n.instanceNumber proposalId n.promisedId)

end Base

/-- `if instance_number != self.instance_number: return` -/
def currentOnly (instanceNumber : ℕ) (act : Act U V Unit) : Act U V Unit := do
  if instanceNumber = (← getNode).instanceNumber then act

def receiveNack (fromUid : U) (proposalId : ProposalID U)
    (promisedProposalId : WithBot (ProposalID U)) : Act U V Unit := do
  modifyNode fun n => { n with paxos := n.paxos.receiveNack fromUid proposalId promisedProposalId }
  stopDriving
  modifyNode fun n => { n with backoffWindow := min (n.backoffWindow * 2) backoffCap }
  rescheduleNextDriveAttempt

def receiveAccept (fromUid : U) (proposalId : ProposalID U) (proposalValue : V) : Act U V Unit := do
  Base.receiveAccept fromUid proposalId proposalValue
  rescheduleNextDriveAttempt

def receiveAccepted [DecidableEq V] (fromUid : U) (proposalId : ProposalID U) (proposalValue : V) :
    Act U V Unit := do
  match ← tryPaxos fun x => x.receiveAccepted fromUid proposalId proposalValue with
  | some (.resolution _ _) =>
    advanceInstance ((← getNode).instanceNumber + 1) proposalValue false
  | _ => return

/-! ## SimpleSynchronizationStrategyMixin -/

def receiveSyncRequest (fromUid : U) (instanceNumber : ℕ) : Act U V Unit := do
  let n ← getNode
  if instanceNumber < n.instanceNumber then
    send fromUid (.catchup n.instanceNumber n.currentValue)

def receiveCatchup (instanceNumber : ℕ) (currentValue : Option V) : Act U V Unit := do
  if (← getNode).instanceNumber < instanceNumber then
    advanceInstance instanceNumber currentValue true

/-! ## Events -/

/-- What the reactor and the RPC server call a node with. -/
inductive Event (U V : Type)
  | datagram (fromUid : U) (message : Message U V)
  | append (value : Option V)
  /-- the retransmission task is due -/
  | retransmit
  /-- the delayed drive is due -/
  | drive
  /-- the synchronization task is due and `random.choice` gave `peer` -/
  | sync (peer : U)

/-- The `receive_…` method that `datagramReceived` looks up. -/
def receive [DecidableEq V] (fromUid : U) : Message U V → Act U V Unit
  | .syncRequest i => receiveSyncRequest fromUid i
  | .catchup i v => receiveCatchup i v
  | .nack i p promised => currentOnly i (receiveNack fromUid p promised)
  | .prepare i p => currentOnly i (Base.receivePrepare fromUid p)
  | .promise i p la lv => currentOnly i (Base.receivePromise fromUid p la lv)
  | .accept i p v => currentOnly i (receiveAccept fromUid p v)
  | .accepted i p v => currentOnly i (receiveAccepted fromUid p v)

def handle [DecidableEq V] : Event U V → Act U V Unit
  | .datagram fromUid message => receive fromUid message
  | .append value => proposeUpdate value
  | .retransmit => do
    match (← getNode).retransmitTask with
    | some ⟨f, true⟩ => fireTask f
    | _ => return
  | .drive => do
    match (← getNode).delayedDrive with
    | some true =>
      modifyNode fun n => { n with delayedDrive := some false }
      driveToResolution
    | _ => return
  | .sync peer => do
    let n ← getNode
    if peer ∈ n.peers then send peer (.syncRequest n.instanceNumber)

/-- One event from start to end: every caller of a node (the datagram loop, the reactor, the
RPC server) catches what it raises, and what it did until then stays. -/
def ReplicatedValue.step [DecidableEq V] (n : ReplicatedValue U V) (e : Event U V)
    (writes : List Bool) (callback : Bool) : Run U V :=
  match handle e ⟨n, [], writes, callback⟩ with
  | .ok _ r => r
  | .error _ r => r

end Paxos
