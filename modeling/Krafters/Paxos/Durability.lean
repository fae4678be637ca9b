import Krafters.Paxos.Changes

/-!
# The durable acceptor state

A life of one node is any sequence of events and crashes; after a crash the node comes
back through `load_state`.  `durable_of_acceptPromised`: as long as no Accept message
brings a proposal id above the promised one, what is on disk covers every answer sent.
`accept_not_durable` is a life in which one does.
-/

namespace Paxos

open Hoare

variable {U V : Type} [LinearOrder U]

/-! ## Statement -/

/-- The instance and the proposal id that an acceptor binds itself to by a message. -/
def Message.bound : Message U V → Option (ℕ × ProposalID U)
  | .promise i p _ _ => some (i, p)
  | .accepted i p _ => some (i, p)
  | _ => none

/-- Promise, Accepted and Nack messages. -/
def Message.Answer : Message U V → Prop
  | .promise .. => True
  | .accepted .. => True
  | .nack .. => True
  | _ => False

/-- The mirrored attributes, the state file and the acceptor agree. -/
structure InSync (n : ReplicatedValue U V) : Prop where
  file : n.stateFile = n.toSaved
  promised : n.promisedId = n.paxos.acceptor.promisedId
  accepted : n.acceptedId = n.paxos.acceptor.acceptedId
  value : n.acceptedValue = n.paxos.acceptor.acceptedValue

/-- What the datagrams of one life, in the order in which they were sent, must satisfy. -/
structure Durable (history : List (Sent U V)) : Prop where
  inSync : ∀ s ∈ history, s.message.Answer → InSync s.sender
  /-- The node binds itself to ever higher ids within an instance, also across crashes. -/
  monotone : history.Pairwise fun s s' => ∀ i p q,
    s.message.bound = some (i, p) → s'.message.bound = some (i, q) → p ≤ q
  nack : ∀ s ∈ history, ∀ i p promised, s.message = .nack i p promised →
    (p : WithBot (ProposalID U)) < promised

/-- The lives of a node whose events all meet `Ok`: the node as it is now and every datagram it
has sent. -/
inductive Life [DecidableEq V] (Ok : ReplicatedValue U V → Event U V → Prop) (uid : U) (peers : List U) :
    ReplicatedValue U V → List (Sent U V) → Prop
  | fresh : Life Ok uid peers (.fresh uid peers) []
  | event {n : ReplicatedValue U V} {history : List (Sent U V)} {e : Event U V}
      (writes : List Bool) (callback : Bool) (h : Life Ok uid peers n history) (he : Ok n e) :
      Life Ok uid peers (n.step e writes callback).node
        (history ++ (n.step e writes callback).sent)
  /-- a crash between two events -/
  | crash {n : ReplicatedValue U V} {history : List (Sent U V)} (h : Life Ok uid peers n history) :
      Life Ok uid peers (.load uid peers n.stateFile) history
  /-- a crash right after datagram `k` of an event -/
  | crashAfter {n : ReplicatedValue U V} {history : List (Sent U V)} {e : Event U V}
      (writes : List Bool) (callback : Bool) (h : Life Ok uid peers n history) (he : Ok n e)
      {k : ℕ} {s : Sent U V} (hs : (n.step e writes callback).sent[k]? = some s) :
      Life Ok uid peers (.load uid peers s.sender.stateFile)
        (history ++ (n.step e writes callback).sent.take (k + 1))

/-- An Accept message of the current instance carries an id that was promised, or a lower one. -/
def AcceptPromised (n : ReplicatedValue U V) : Event U V → Prop
  | .datagram _ (.accept i p _) => i = n.instanceNumber →
      (p : WithBot (ProposalID U)) ≤ n.paxos.acceptor.promisedId
  | _ => True

/-! ## Lemmas -/

/-- The node stands by what it has sent. -/
structure Safekept (n : ReplicatedValue U V) (history : List (Sent U V)) : Prop where
  inSync : InSync n
  bound : ∀ s ∈ history, ∀ i p, s.message.bound = some (i, p) → i ≤ n.instanceNumber ∧
    (i = n.instanceNumber → (p : WithBot (ProposalID U)) ≤ n.paxos.acceptor.promisedId)
  durable : Durable history

/-- In the course of an event: also at each moment at which a datagram left. -/
structure Guarded (base : List (Sent U V)) (r : Run U V) : Prop where
  now : Safekept r.node (base ++ r.sent)
  moments : ∀ k s, r.sent[k]? = some s → Safekept s.sender (base ++ r.sent.take (k + 1))

/-- A message that the node can stand by. -/
def Speakable (n : ReplicatedValue U V) : Message U V → Prop
  | .promise i p _ _ => i = n.instanceNumber ∧ n.paxos.acceptor.promisedId = p
  | .accepted i p _ => i = n.instanceNumber ∧ n.paxos.acceptor.promisedId = p
  | .nack _ p promised => (p : WithBot (ProposalID U)) < promised
  | _ => True

variable {n n' : ReplicatedValue U V} {history base : List (Sent U V)} {r : Run U V}

theorem Safekept.congr (h : Safekept n history) (hs : n'.toSaved = n.toSaved)
    (hf : n'.stateFile = n.stateFile) (ha : n'.paxos.acceptor = n.paxos.acceptor) :
    Safekept n' history := by
  refine ⟨⟨?_, ?_, ?_, ?_⟩, ?_, h.durable⟩
  · rw [hf, hs, h.inSync.file]
  · rw [ha, ← h.inSync.promised]
    exact congrArg Saved.promisedId hs
  · rw [ha, ← h.inSync.accepted]
    exact congrArg Saved.acceptedId hs
  · rw [ha, ← h.inSync.value]
    exact congrArg Saved.acceptedValue hs
  · rw [ha, show n'.instanceNumber = n.instanceNumber from congrArg Saved.instanceNumber hs]
    exact h.bound

theorem Safekept.send (h : Safekept n history) {m : Message U V} (hm : Speakable n m) (toUid : U) :
    Safekept n (history ++ [⟨toUid, m, n⟩]) := by
  have hbound : ∀ i p, m.bound = some (i, p) → i = n.instanceNumber ∧
      n.paxos.acceptor.promisedId = p := by
    intro i p hb
    cases m <;> cases hb <;> exact hm
  refine ⟨h.inSync, ?_, ?_, ?_, ?_⟩
  · intro s hs i p hb
    rcases List.mem_append.mp hs with hs | hs
    · exact h.bound s hs i p hb
    · rw [List.mem_singleton] at hs
      subst hs
      obtain ⟨rfl, hp⟩ := hbound i p hb
      exact ⟨le_rfl, fun _ => hp.ge⟩
  · intro s hs ha
    rcases List.mem_append.mp hs with hs | hs
    · exact h.durable.inSync s hs ha
    · rw [List.mem_singleton] at hs
      subst hs
      exact h.inSync
  · refine List.pairwise_append.mpr ⟨h.durable.monotone, List.pairwise_singleton _ _, ?_⟩
    intro s hs s' hs' i p q hb hb'
    rw [List.mem_singleton] at hs'
    subst hs'
    obtain ⟨rfl, hq⟩ := hbound i q hb'
    exact WithBot.coe_le_coe.mp (hq ▸ (h.bound s hs _ p hb).2 rfl)
  · intro s hs i p promised hmsg
    rcases List.mem_append.mp hs with hs | hs
    · exact h.durable.nack s hs i p promised hmsg
    · rw [List.mem_singleton] at hs
      subst hs
      obtain rfl : m = .nack i p promised := hmsg
      exact hm

/-- What comes back from the state file stands by everything sent before. -/
theorem Safekept.load (h : Safekept n history) (uid : U) (peers : List U) :
    Safekept (.load uid peers n.stateFile) history := by
  refine ⟨⟨rfl, rfl, rfl, rfl⟩, ?_, h.durable⟩
  show ∀ s ∈ history, ∀ i p, s.message.bound = some (i, p) → i ≤ n.stateFile.instanceNumber ∧
    (i = n.stateFile.instanceNumber → (p : WithBot (ProposalID U)) ≤ n.stateFile.promisedId)
  rw [h.inSync.file, show n.toSaved.promisedId = _ from h.inSync.promised]
  exact h.bound

/-- A new instance starts from an empty acceptor, on disk as in memory. -/
theorem Safekept.advanced (h : Safekept n history) {i : ℕ} (hlt : n.instanceNumber < i)
    (value : Option V) (catchup : Bool) : Safekept (n.advanced i value catchup) history := by
  refine ⟨⟨rfl, rfl, rfl, rfl⟩, fun s hs j p hb => ?_, h.durable⟩
  have hle := (h.bound s hs j p hb).1
  constructor
  · show j ≤ i
    omega
  · intro hj
    change j = i at hj
    omega

/-- Saving an acceptor that promises at least what it promised before. -/
theorem Safekept.save (h : Safekept n history) {x : PaxosInstance U V}
    (hle : n.paxos.acceptor.promisedId ≤ x.acceptor.promisedId) {saved : Saved U V}
    (hs : saved = ⟨n.instanceNumber, n.currentValue, x.acceptor.promisedId,
      x.acceptor.acceptedId, x.acceptor.acceptedValue⟩) :
    Safekept { n with toSaved := saved, stateFile := saved, paxos := x } history := by
  subst hs
  refine ⟨⟨rfl, rfl, rfl, rfl⟩, fun s hs i p hb => ?_, h.durable⟩
  obtain ⟨hi, hp⟩ := h.bound s hs i p hb
  exact ⟨hi, fun heq => (hp heq).trans hle⟩

theorem Speaks.speakable (hsync : InSync n) {e : Event U V} {m : Message U V}
    (hm : Speaks n e m) : Speakable n m := by
  obtain ⟨hi, hm⟩ := hm
  cases m with
  | promise i p last value => exact ⟨hi, hm.1⟩
  | accepted i p v => exact ⟨hi, hm.1.1⟩
  | nack i p promised =>
    obtain ⟨rfl, hlt⟩ := hm
    exact hsync.promised ▸ hlt
  | _ => trivial

variable [DecidableEq V] {e : Event U V}

/-- One change of a node whose Accept messages are promised. -/
theorem Safekept.change {r' : Run U V} (hok : AcceptPromised n e)
    (h : Safekept r.node (history ++ r.sent)) (hc : Change n e r r') :
    Safekept r'.node (history ++ r'.sent) := by
  cases hc with
  | send toUid writes hm =>
    have := h.send (hm.speakable h.inSync) toUid
    rwa [List.append_assoc] at this
  | fail writes => exact h
  | promised hr he hle => exact h.save hle rfl
  | @accepted w p v hr he hle =>
    -- the id accepted is the one promised, so the mirrored promised id is right, too
    have hge : (p : WithBot (ProposalID U)) ≤ r.node.paxos.acceptor.promisedId := by
      subst he
      rw [hr.node] at hok ⊢
      exact hok rfl
    have hp : r.node.promisedId = p := h.inSync.promised.trans (le_antisymm hle hge)
    exact h.save hle (by rw [hp])
  | @advance i value catchup task hi ht => exact (h.advanced hi.lt value catchup).congr rfl rfl rfl
  | advanceRaised hi hr hcall => exact h.advanced hi.lt _ _
  | _ => exact h.congr rfl rfl rfl

theorem Safekept.reached {r' : Run U V} (hok : AcceptPromised n e)
    (h : Safekept r.node (history ++ r.sent)) (hr : Reached n e r r') :
    Safekept r'.node (history ++ r'.sent) := by
  induction hr with
  | refl => exact h
  | tail _ hc ih => exact ih.change hok hc

theorem step_keeps (h : Safekept n history) (he : AcceptPromised n e) (writes : List Bool)
    (callback : Bool) : Guarded history (n.step e writes callback) := by
  have hstart : Safekept n (history ++ []) := by simpa using h
  have hstep := step_reached n e writes callback
  refine ⟨Safekept.reached he hstart hstep, fun k s hs => ?_⟩
  obtain ⟨r, hr, hsent, hnode⟩ := hstep.left rfl hs
  have := Safekept.reached he hstart hr
  rwa [hsent, hnode] at this

theorem Life.safekept {uid : U} {peers : List U} (h : Life AcceptPromised uid peers n history) :
    Safekept n history := by
  induction h with
  | fresh =>
    have hnil : ∀ s, s ∉ ([] : List (Sent U V)) := fun _ => List.not_mem_nil
    exact ⟨⟨rfl, rfl, rfl, rfl⟩, fun s hs => absurd hs (hnil s),
      ⟨fun s hs => absurd hs (hnil s), List.Pairwise.nil, fun s hs => absurd hs (hnil s)⟩⟩
  | event writes callback _ he ih => exact (step_keeps ih he writes callback).now
  | crash _ ih => exact ih.load _ _
  | crashAfter writes callback _ he hs ih =>
    exact ((step_keeps ih he writes callback).moments _ _ hs).load _ _

/-! ## Top theorems -/

/-- **What is on disk covers every answer sent**, in every life in which no Accept message of the
current instance carries an id above the promised one. -/
theorem durable_of_acceptPromised {uid : U} {peers : List U}
    (h : Life AcceptPromised uid peers n history) : Durable history :=
  h.safekept.durable

/-- A node that promises, accepts, crashes and refuses a lower id after that. -/
theorem durable_over_crash : ∃ (n : ReplicatedValue ℕ ℕ) (history : List (Sent ℕ ℕ)),
    Life AcceptPromised 1 [1, 2, 3] n history ∧ history.length = 5 ∧ Durable history := by
  have started : Life AcceptPromised 1 [1, 2, 3] (.fresh 1 [1, 2, 3] : ReplicatedValue ℕ ℕ) [] :=
    .fresh
  have promised := started.event (e := .datagram 2 (.prepare 0 ⟨2, 2⟩)) [] false trivial
  have accepted := promised.event (e := .datagram 2 (.accept 0 ⟨2, 2⟩ 7)) [] false
    fun _ => le_rfl
  have refused := accepted.crash.event (e := .datagram 3 (.prepare 0 ⟨1, 3⟩)) [] false trivial
  exact ⟨_, _, refused, by decide, durable_of_acceptPromised refused⟩

/-- An Accept message without its Prepare: the id is answered but not saved, and after a crash
the node promises a lower one. -/
theorem accept_not_durable : ∃ (n : ReplicatedValue ℕ ℕ) (history : List (Sent ℕ ℕ)),
    Life (fun _ _ => True) 1 [1, 2, 3] n history ∧
    (∃ s ∈ history, s.message.Answer ∧ ¬ InSync s.sender) ∧
    ¬ history.Pairwise fun s s' => ∀ i p q,
      s.message.bound = some (i, p) → s'.message.bound = some (i, q) → p ≤ q := by
  have started : Life (fun _ _ => True) 1 [1, 2, 3] (.fresh 1 [1, 2, 3] : ReplicatedValue ℕ ℕ) [] :=
    .fresh
  have accepted := started.event (e := .datagram 2 (.accept 0 ⟨2, 2⟩ 7)) [] false trivial
  have promised := accepted.crash.event (e := .datagram 3 (.prepare 0 ⟨1, 3⟩)) [] false trivial
  refine ⟨_, _, promised, ⟨_, List.mem_cons_self, trivial, fun h => ?_⟩, fun h => ?_⟩
  · exact absurd h.promised (by decide)
  · obtain ⟨hfirst, -⟩ := List.pairwise_cons.mp h
    have hle := hfirst _ (List.mem_cons_of_mem _ (List.mem_cons_of_mem _ List.mem_cons_self)) 0
      ⟨2, 2⟩ ⟨1, 3⟩ rfl rfl
    exact absurd hle (by decide)

end Paxos
