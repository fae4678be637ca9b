import Mathlib.Data.Finset.Card
import Mathlib.Data.Prod.Lex
import Mathlib.Order.WithBot

/-!
# composable_paxos: Proposer, Acceptor, Learner and PaxosInstance

A method is a function from the object and the message to the object it leaves and
what it returns or raises; an object that raises keeps what it had written until then.

A proposal id that may be `None` is a `WithBot`: Python 2 orders `None` below every
tuple.
-/

namespace Paxos

variable {U V : Type}

/-! ## Proposal ids and messages -/

structure ProposalID (U : Type) where
  number : ℕ
  uid : U

/-- Tuples are compared by number, then by uid. -/
instance [LinearOrder U] : LinearOrder (ProposalID U) :=
  LinearOrder.lift' (fun p => toLex (p.number, p.uid)) fun p q h => by
    obtain ⟨hn, hu⟩ := Prod.mk.inj (toLex.injective h)
    cases p; cases q; simp_all

theorem ProposalID.lt_iff [LinearOrder U] {p q : ProposalID U} :
    p < q ↔ p.number < q.number ∨ p.number = q.number ∧ p.uid < q.uid :=
  Prod.Lex.toLex_lt_toLex

/-- The subclasses of `PaxosMessage`, with the arguments of their constructors. -/
inductive PaxosMessage (U V : Type)
  | prepare (fromUid : U) (proposalId : ProposalID U)
  | nack (fromUid proposerUid : U) (proposalId : ProposalID U)
      (promisedProposalId : WithBot (ProposalID U))
  | promise (fromUid proposerUid : U) (proposalId : ProposalID U)
      (lastAcceptedId : WithBot (ProposalID U)) (lastAcceptedValue : Option V)
  | accept (fromUid : U) (proposalId : ProposalID U) (proposalValue : V)
  | accepted (fromUid : U) (proposalId : ProposalID U) (proposalValue : V)
  | resolution (fromUid : U) (value : V)

/-- What the code of a node can raise. -/
inductive NodeError
  /-- `in None` -/
  | typeError
  /-- a missing key of a dict or element of a set -/
  | keyError
  /-- `'Value mismatch for single proposal!'` -/
  | valueMismatch
  /-- `LoopingCall.stop` of a task that does not run -/
  | notRunning
  /-- `transport.write` -/
  | send
  /-- `onUpdateCallback` -/
  | callback
deriving DecidableEq, Repr

/-! ## Proposer -/

structure Proposer (U V : Type) where
  networkUid : U
  quorumSize : ℕ
  leader : Bool
  proposedValue : Option V
  proposalId : ProposalID U
  highestAcceptedId : WithBot (ProposalID U)
  promisesReceived : Option (Finset U)
  nacksReceived : Option (Finset U)
  highestProposalId : ProposalID U

namespace Proposer

variable [LinearOrder U]

def init (networkUid : U) (quorumSize : ℕ) : Proposer U V where
  networkUid
  quorumSize
  leader := false
  proposedValue := none
  proposalId := ⟨0, networkUid⟩
  highestAcceptedId := ⊥
  promisesReceived := none
  nacksReceived := none
  highestProposalId := ⟨0, networkUid⟩

def proposeValue (p : Proposer U V) (value : Option V) :
    Proposer U V × Option (PaxosMessage U V) :=
  match p.proposedValue with
  | some _ => (p, none)
  | none =>
    ({ p with proposedValue := value },
      -- callers drop the message, also where the value is None
      if p.leader then value.map (.accept p.networkUid p.proposalId) else none)

def prepare (p : Proposer U V) : Proposer U V :=
  let proposalId : ProposalID U := ⟨p.highestProposalId.number + 1, p.networkUid⟩
  { p with
    leader := false
    promisesReceived := some ∅
    nacksReceived := some ∅
    proposalId
    highestProposalId := proposalId }

def observeProposal (p : Proposer U V) : WithBot (ProposalID U) → Proposer U V
  | ⊥ => p
  | (proposalId : ProposalID U) =>
    if p.highestProposalId < proposalId then { p with highestProposalId := proposalId } else p

def receiveNack (p : Proposer U V) (fromUid : U) (proposalId : ProposalID U)
    (promisedProposalId : WithBot (ProposalID U)) : Proposer U V :=
  let p := p.observeProposal promisedProposalId
  match p.nacksReceived with
  | none => p
  | some nacks =>
    if proposalId = p.proposalId then
      let p := { p with nacksReceived := some (insert fromUid nacks) }
      -- the Prepare message that this returns is dropped by the caller
      if (insert fromUid nacks).card = p.quorumSize then p.prepare else p
    else p

/-- What a promise of an acceptor not counted before tells. -/
def recordPromise (p : Proposer U V) (promises : Finset U) (fromUid : U)
    (lastAcceptedId : WithBot (ProposalID U)) (lastAcceptedValue : Option V) : Proposer U V :=
  let p := { p with promisesReceived := some (insert fromUid promises) }
  if p.highestAcceptedId < lastAcceptedId then
    { p with
      highestAcceptedId := lastAcceptedId
      proposedValue := lastAcceptedValue <|> p.proposedValue }
  else p

/-- With the promise of a quorum's last acceptor the proposer becomes the leader. -/
def countPromise (p : Proposer U V) (promises : Finset U) :
    Proposer U V × Option (PaxosMessage U V) :=
  if promises.card = p.quorumSize then
    ({ p with leader := true }, p.proposedValue.map (.accept p.networkUid p.proposalId))
  else (p, none)

def receivePromise (p : Proposer U V) (fromUid : U) (proposalId : ProposalID U)
    (lastAcceptedId : WithBot (ProposalID U)) (lastAcceptedValue : Option V) :
    Proposer U V × Except NodeError (Option (PaxosMessage U V)) :=
  let p := p.observeProposal proposalId
  if p.leader = false ∧ proposalId = p.proposalId then
    match p.promisesReceived with
    | none => (p, .error .typeError)
    | some promises =>
      if fromUid ∈ promises then (p, .ok none)
      else
        let p := p.recordPromise promises fromUid lastAcceptedId lastAcceptedValue
        let (p, m) := p.countPromise (insert fromUid promises)
        (p, .ok m)
  else (p, .ok none)

end Proposer

/-! ## Acceptor -/

structure Acceptor (U V : Type) where
  networkUid : U
  promisedId : WithBot (ProposalID U)
  acceptedId : WithBot (ProposalID U)
  acceptedValue : Option V

namespace Acceptor

variable [LinearOrder U]

def receivePrepare (a : Acceptor U V) (fromUid : U) (proposalId : ProposalID U) :
    Acceptor U V × PaxosMessage U V :=
  if a.promisedId ≤ proposalId then
    ({ a with promisedId := proposalId },
      .promise a.networkUid fromUid proposalId a.acceptedId a.acceptedValue)
  else (a, .nack a.networkUid fromUid proposalId a.promisedId)

def receiveAccept (a : Acceptor U V) (fromUid : U) (proposalId : ProposalID U)
    (proposalValue : V) : Acceptor U V × PaxosMessage U V :=
  if a.promisedId ≤ proposalId then
    ({ a with promisedId := proposalId, acceptedId := proposalId, acceptedValue := proposalValue },
      .accepted a.networkUid proposalId proposalValue)
  else (a, .nack a.networkUid fromUid proposalId a.promisedId)

end Acceptor

/-! ## Learner -/

structure ProposalStatus (U V : Type) where
  acceptCount : ℕ
  retainCount : ℤ
  acceptors : Finset U
  value : V

structure Learner (U V : Type) where
  networkUid : U
  quorumSize : ℕ
  proposals : ProposalID U → Option (ProposalStatus U V)
  /-- maps from_uid to the last accepted proposal id, `None` where there is no entry -/
  acceptors : U → WithBot (ProposalID U)
  finalValue : Option V
  finalAcceptors : Option (Finset U)
  finalProposalId : WithBot (ProposalID U)

namespace Learner

variable [LinearOrder U]

def init (networkUid : U) (quorumSize : ℕ) : Learner U V where
  networkUid
  quorumSize
  proposals := fun _ => none
  acceptors := fun _ => ⊥
  finalValue := none
  finalAcceptors := none
  finalProposalId := ⊥

/-- The proposal that `fromUid` accepted last loses its retainer. -/
def release (l : Learner U V) (fromUid : U) (lastPn : WithBot (ProposalID U)) :
    Learner U V × Except NodeError Unit :=
  match lastPn with
  | ⊥ => (l, .ok ())
  | (last : ProposalID U) =>
    match l.proposals last with
    | none => (l, .error .keyError)
    | some ps =>
      let ps' := { ps with retainCount := ps.retainCount - 1 }
      if fromUid ∈ ps.acceptors then
        let ps' := { ps' with acceptors := ps.acceptors.erase fromUid }
        ({ l with
            proposals := Function.update l.proposals last
              (if ps'.retainCount = 0 then none else some ps') }, .ok ())
      else ({ l with proposals := Function.update l.proposals last (some ps') }, .error .keyError)

/-- The new acceptor of a proposal is counted; the quorum's last one decides. -/
def count [DecidableEq V] (l : Learner U V) (fromUid : U) (proposalId : ProposalID U)
    (proposalValue : V) : Learner U V × Except NodeError (Option (PaxosMessage U V)) :=
  let ps := (l.proposals proposalId).getD ⟨0, 0, ∅, proposalValue⟩
  if proposalValue = ps.value then
    let ps := { ps with
      acceptCount := ps.acceptCount + 1
      retainCount := ps.retainCount + 1
      acceptors := insert fromUid ps.acceptors }
    if ps.acceptCount = l.quorumSize then
      -- the two dicts become None; nothing reads them after finalValue is set
      ({ l with
          finalProposalId := proposalId
          finalValue := proposalValue
          finalAcceptors := ps.acceptors
          proposals := fun _ => none
          acceptors := fun _ => ⊥ }, .ok (some (.resolution l.networkUid proposalValue)))
    else ({ l with proposals := Function.update l.proposals proposalId (some ps) }, .ok none)
  else ({ l with proposals := Function.update l.proposals proposalId (some ps) },
    .error .valueMismatch)

def receiveAccepted [DecidableEq V] (l : Learner U V) (fromUid : U) (proposalId : ProposalID U)
    (proposalValue : V) : Learner U V × Except NodeError (Option (PaxosMessage U V)) :=
  match l.finalValue with
  | some final =>
    let l :=
      if l.finalProposalId ≤ proposalId ∧ proposalValue = final then
        { l with finalAcceptors := l.finalAcceptors.map (insert fromUid) }
      else l
    (l, .ok (some (.resolution l.networkUid final)))
  | none =>
    let lastPn := l.acceptors fromUid
    if (proposalId : WithBot (ProposalID U)) ≤ lastPn then (l, .ok none) -- Old message
    else
      let l := { l with acceptors := Function.update l.acceptors fromUid proposalId }
      match l.release fromUid lastPn with
      | (l, .error e) => (l, .error e)
      | (l, .ok ()) => l.count fromUid proposalId proposalValue

end Learner

/-! ## PaxosInstance -/

/-- The three base classes share only `network_uid` and `quorum_size`. -/
structure PaxosInstance (U V : Type) where
  proposer : Proposer U V
  acceptor : Acceptor U V
  learner : Learner U V

namespace PaxosInstance

variable [LinearOrder U]

def init (networkUid : U) (quorumSize : ℕ) (promisedId acceptedId : WithBot (ProposalID U))
    (acceptedValue : Option V) : PaxosInstance U V where
  proposer := Proposer.init networkUid quorumSize
  acceptor := { networkUid, promisedId, acceptedId, acceptedValue }
  learner := Learner.init networkUid quorumSize

def observeProposal (x : PaxosInstance U V) (proposalId : WithBot (ProposalID U)) :
    PaxosInstance U V :=
  { x with proposer := x.proposer.observeProposal proposalId }

def receivePrepare (x : PaxosInstance U V) (fromUid : U) (proposalId : ProposalID U) :
    PaxosInstance U V × PaxosMessage U V :=
  let x := x.observeProposal proposalId
  let (acceptor, m) := x.acceptor.receivePrepare fromUid proposalId
  ({ x with acceptor }, m)

def receiveAccept (x : PaxosInstance U V) (fromUid : U) (proposalId : ProposalID U)
    (proposalValue : V) : PaxosInstance U V × PaxosMessage U V :=
  let x := x.observeProposal proposalId
  let (acceptor, m) := x.acceptor.receiveAccept fromUid proposalId proposalValue
  ({ x with acceptor }, m)

def proposeValue (x : PaxosInstance U V) (value : Option V) : PaxosInstance U V :=
  { x with proposer := (x.proposer.proposeValue value).1 }

def prepare (x : PaxosInstance U V) : PaxosInstance U V :=
  { x with proposer := x.proposer.prepare }

def receiveNack (x : PaxosInstance U V) (fromUid : U) (proposalId : ProposalID U)
    (promisedProposalId : WithBot (ProposalID U)) : PaxosInstance U V :=
  { x with proposer := x.proposer.receiveNack fromUid proposalId promisedProposalId }

def receivePromise (x : PaxosInstance U V) (fromUid : U) (proposalId : ProposalID U)
    (lastAcceptedId : WithBot (ProposalID U)) (lastAcceptedValue : Option V) :
    PaxosInstance U V × Except NodeError (Option (PaxosMessage U V)) :=
  let (proposer, m) := x.proposer.receivePromise fromUid proposalId lastAcceptedId lastAcceptedValue
  ({ x with proposer }, m)

def receiveAccepted [DecidableEq V] (x : PaxosInstance U V) (fromUid : U)
    (proposalId : ProposalID U) (proposalValue : V) :
    PaxosInstance U V × Except NodeError (Option (PaxosMessage U V)) :=
  let (learner, m) := x.learner.receiveAccepted fromUid proposalId proposalValue
  ({ x with learner }, m)

end PaxosInstance

end Paxos
