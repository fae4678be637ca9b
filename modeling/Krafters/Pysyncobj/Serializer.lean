import Krafters.Lib.Pickle
import Mathlib.Logic.Function.Basic
import Mathlib.Logic.Relation

/-!
# pysyncobj/serializer.py: the transfer of a snapshot

The serializer of a node without a dump file: the snapshot is in memory, `__pid` is −1 from
`serialize` to the next `checkSerializing` and else 0.  A transmission is cut into batches,
the last of which is empty.  While a peer gets them in their order,

    incoming = data.take transmitted

for the data of the transmission that is under way, so what it has in the end is one snapshot,
and not parts of two.  Batches get lost with the connection; then `__sendAppendEntries` finds the
node disconnected and cancels the transmission.  A connection that comes before that would leave
a gap which nobody notices: the next batch is not a first one.
-/

namespace Pysyncobj

/-! ## Algorithm -/

structure Transmission (β : Type) where
  transmitted : ℕ
  data : List β

structure Serializer (U β : Type) where
  transmissionBatchSize : ℕ
  /-- `__pid` is −1 -/
  serializing : Bool
  currentID : ℕ
  transmissions : U → Option (Transmission β)
  incomingTransmissionFile : Option (List β)
  inMemorySerializedData : Option (List β)

/-- A batch, with `isFirst` and `isLast`. -/
structure Batch (β : Type) where
  data : List β
  isFirst : Bool
  isLast : Bool

namespace Serializer

variable {U β : Type}

def init (transmissionBatchSize : ℕ) : Serializer U β where
  transmissionBatchSize
  serializing := false
  currentID := 0
  transmissions := fun _ => none
  incomingTransmissionFile := none
  inMemorySerializedData := none

variable (s : Serializer U β)

/-- The id of the snapshot for `SUCCESS`, and nothing for `NOT_SERIALIZING`. -/
def checkSerializing : Option ℕ × Serializer U β :=
  if s.serializing then
    (some s.currentID, { s with serializing := false, transmissions := fun _ => none })
  else (none, s)

def serialize (data : List β) (id : ℕ) : Serializer U β :=
  if s.serializing then s
  else { s with currentID := id, inMemorySerializedData := some data, serializing := true }

/-- The next batch of a transmission, and the transmission after it. -/
def nextBatch (batchSize : ℕ) (t : Transmission β) : Batch β × Option (Transmission β) :=
  let data := (t.data.drop t.transmitted).take batchSize
  let isLast := data.length == 0
  (⟨data, t.transmitted == 0, isLast⟩,
    if isLast then none else some { t with transmitted := t.transmitted + data.length })

variable [DecidableEq U]

def getTransmissionData (id : U) : Option (Batch β) × Serializer U β :=
  if s.serializing then (none, s)
  else
    match s.transmissions id, s.inMemorySerializedData with
    -- the assertion that there is data fails, and the exception is caught
    | none, none => (none, s)
    | none, some data =>
      let (batch, t) := nextBatch s.transmissionBatchSize ⟨0, data⟩
      (some batch, { s with transmissions := Function.update s.transmissions id t })
    | some t, _ =>
      let (batch, t) := nextBatch s.transmissionBatchSize t
      (some batch, { s with transmissions := Function.update s.transmissions id t })

omit [DecidableEq U] in
def setTransmissionData : Option (Batch β) → Bool × Serializer U β
  | none => (false, s)
  | some ⟨data, isFirst, isLast⟩ =>
    match if isFirst then some [] else s.incomingTransmissionFile with
    | none => (false, s)
    | some incoming =>
      if isLast then
        (true, { s with
          inMemorySerializedData := some (incoming ++ data), incomingTransmissionFile := none })
      else (false, { s with incomingTransmissionFile := some (incoming ++ data) })

def cancelTransmisstion (id : U) : Serializer U β :=
  { s with transmissions := Function.update s.transmissions id none }

end Serializer

/-- The calls that a node makes, in whatever order. -/
inductive Operation (U β : Type)
  | checkSerializing
  | serialize (data : List β) (id : ℕ)
  | getTransmissionData (id : U)
  | setTransmissionData (batch : Option (Batch β))
  | cancelTransmisstion (id : U)

namespace Serializer

variable {U β : Type} [DecidableEq U]

def perform (s : Serializer U β) : Operation U β → Serializer U β
  | .checkSerializing => s.checkSerializing.2
  | .serialize data id => s.serialize data id
  | .getTransmissionData id => (s.getTransmissionData id).2
  | .setTransmissionData batch => (s.setTransmissionData batch).2
  | .cancelTransmisstion id => s.cancelTransmisstion id

end Serializer

/-- A node that sends snapshots to a peer: the batches under way, in their order, and every
snapshot that the sender ever had in memory. -/
structure Link (U β : Type) where
  sender : Serializer U β
  /-- without a connection what the node sends is lost -/
  connected : Bool
  channel : List (Batch β)
  receiver : Serializer U β
  taken : List (List β)

namespace Link

variable {U β : Type} [DecidableEq U]

inductive Step (peer : U) : Link U β → Link U β → Prop
  | send {l : Link U β} {batch : Batch β} {sender : Serializer U β}
      (h : l.sender.getTransmissionData peer = (some batch, sender)) :
      Step peer l { l with
        sender, channel := if l.connected then l.channel ++ [batch] else l.channel }
  | deliver {l : Link U β} {batch : Batch β} {channel : List (Batch β)}
      (h : l.channel = batch :: channel) :
      Step peer l { l with
        channel, receiver := (l.receiver.setTransmissionData (some batch)).2 }
  /-- what else the sender does: to other peers, and as a receiver itself -/
  | sender {l : Link U β} (o : Operation U β) (h : o ≠ .getTransmissionData peer) :
      Step peer l { l with
        sender := l.sender.perform o
        taken := (l.sender.perform o).inMemorySerializedData.toList ++ l.taken }
  | receiver {l : Link U β} (o : Operation U β) (h : ∀ batch, o ≠ .setTransmissionData batch) :
      Step peer l { l with receiver := l.receiver.perform o }
  /-- of the batches under way the first `k` still arrive -/
  | disconnect {l : Link U β} (k : ℕ) :
      Step peer l { l with connected := false, channel := l.channel.take k }
  /-- after the transmission has been cancelled, or has ended -/
  | connect {l : Link U β} (h : l.sender.transmissions peer = none) :
      Step peer l { l with connected := true }

def initial (transmissionBatchSize transmissionBatchSize' : ℕ) : Link U β :=
  ⟨.init transmissionBatchSize, true, [], .init transmissionBatchSize', []⟩

def Reachable (peer : U) (transmissionBatchSize transmissionBatchSize' : ℕ) (l : Link U β) : Prop :=
  Relation.ReflTransGen (Step peer) (initial transmissionBatchSize transmissionBatchSize') l

/-- One batch to the peer, sent and delivered; whether the peer has a snapshot then. -/
def exchange (peer : U) (l : Link U β) : Bool × Link U β :=
  let (batch, sender) := l.sender.getTransmissionData peer
  let (complete, receiver) := l.receiver.setTransmissionData batch
  (complete, { l with sender, receiver })

def exchanges (peer : U) (l : Link U β) : ℕ → Bool × Link U β
  | 0 => (false, l)
  | n + 1 => (exchanges peer l n).2.exchange peer

end Link

/-! ## Lemmas -/

/-- What a receiver with `incoming` has after a batch. -/
def Batch.assemble {β : Type} (batch : Batch β) (incoming : Option (List β)) : Option (List β) :=
  (if batch.isFirst then some [] else incoming).map (· ++ batch.data)

/-- What it keeps for the next batch. -/
def Batch.absorb {β : Type} (incoming : Option (List β)) (batch : Batch β) : Option (List β) :=
  if batch.isLast then none else batch.assemble incoming

namespace Serializer

variable {U β : Type}

theorem setTransmissionData_incoming (s : Serializer U β) (batch : Batch β) :
    (s.setTransmissionData (some batch)).2.incomingTransmissionFile =
      Batch.absorb s.incomingTransmissionFile batch := by
  obtain ⟨data, isFirst, isLast⟩ := batch
  unfold setTransmissionData Batch.absorb Batch.assemble
  cases isFirst with
  | true => cases isLast <;> rfl
  | false =>
    cases hs : s.incomingTransmissionFile with
    | none => simp [hs]
    | some incoming => cases isLast <;> simp

/-- The receiver is done: it has assembled what it now has in memory. -/
theorem setTransmissionData_complete {s : Serializer U β} {batch : Batch β}
    (h : (s.setTransmissionData (some batch)).1 = true) :
    batch.isLast = true ∧ (s.setTransmissionData (some batch)).2.inMemorySerializedData =
      batch.assemble s.incomingTransmissionFile ∧
      (batch.assemble s.incomingTransmissionFile).isSome := by
  obtain ⟨data, isFirst, isLast⟩ := batch
  unfold setTransmissionData Batch.assemble at *
  dsimp only at *
  cases hf : (if isFirst then some [] else s.incomingTransmissionFile) with
  | none => simp [hf] at h
  | some incoming => cases isLast <;> simp [hf] at h ⊢

theorem setTransmissionData_last {s : Serializer U β} {batch : Batch β} {data : List β}
    (hlast : batch.isLast = true) (h : batch.assemble s.incomingTransmissionFile = some data) :
    (s.setTransmissionData (some batch)).1 = true ∧
      (s.setTransmissionData (some batch)).2.inMemorySerializedData = some data := by
  obtain ⟨d, isFirst, isLast⟩ := batch
  unfold Batch.assemble at h
  unfold setTransmissionData
  dsimp only at *
  cases hf : (if isFirst then some [] else s.incomingTransmissionFile) with
  | none => simp [hf] at h
  | some incoming =>
    subst hlast
    simpa [hf] using h

variable [DecidableEq U]

theorem perform_incoming (s : Serializer U β) (o : Operation U β)
    (h : ∀ batch, o ≠ .setTransmissionData batch) :
    (s.perform o).incomingTransmissionFile = s.incomingTransmissionFile := by
  cases o with
  | checkSerializing =>
    show (s.checkSerializing).2.incomingTransmissionFile = _
    unfold checkSerializing
    split <;> rfl
  | serialize data id =>
    show (s.serialize data id).incomingTransmissionFile = _
    unfold serialize
    split <;> rfl
  | getTransmissionData id =>
    show (s.getTransmissionData id).2.incomingTransmissionFile = _
    unfold getTransmissionData
    split
    · rfl
    · split <;> rfl
  | setTransmissionData batch => exact absurd rfl (h batch)
  | cancelTransmisstion id => rfl

/-- The last batch is the one after the end of the data. -/
theorem nextBatch_isLast {batchSize : ℕ} (hsize : 0 < batchSize) (t : Transmission β) :
    (nextBatch batchSize t).1.isLast = decide (t.data.length ≤ t.transmitted) := by
  show (((t.data.drop t.transmitted).take batchSize).length == 0) = _
  rw [List.length_take, List.length_drop, Bool.eq_iff_iff, beq_iff_eq, decide_eq_true_eq]
  omega

theorem nextBatch_snd {batchSize : ℕ} (hsize : 0 < batchSize) (t : Transmission β) :
    (nextBatch batchSize t).2 = if t.data.length ≤ t.transmitted then none
      else some { t with transmitted := min (t.transmitted + batchSize) t.data.length } := by
  show (if (nextBatch batchSize t).1.isLast then none
    else some { t with transmitted := t.transmitted +
      ((t.data.drop t.transmitted).take batchSize).length }) = _
  rw [nextBatch_isLast hsize, List.length_take, List.length_drop]
  by_cases h : t.data.length ≤ t.transmitted
  · rw [if_pos h, if_pos (decide_eq_true h)]
  · rw [if_neg h, if_neg (by simpa using h)]
    congr 2
    omega

/-- The batches up to one, put together. -/
theorem nextBatch_assemble (batchSize : ℕ) (t : Transmission β) {incoming : Option (List β)}
    (h : t.transmitted = 0 ∨ incoming = some (t.data.take t.transmitted)) :
    (nextBatch batchSize t).1.assemble incoming =
      some (t.data.take (t.transmitted + batchSize)) := by
  unfold Batch.assemble nextBatch
  dsimp only
  by_cases hzero : t.transmitted = 0
  · simp [hzero]
  · rw [if_neg (by simpa using hzero), h.resolve_left hzero, Option.map_some, ← List.take_add]

/-- A batch to `peer` begins a transmission of what is in memory, or goes on with one. -/
theorem getTransmissionData_some {s s' : Serializer U β} {peer : U} {batch : Batch β}
    (h : s.getTransmissionData peer = (some batch, s')) :
    s.serializing = false ∧ ∃ t : Transmission β,
      (s.transmissions peer = some t ∨
        s.transmissions peer = none ∧ s.inMemorySerializedData = some t.data ∧ t.transmitted = 0) ∧
      batch = (nextBatch s.transmissionBatchSize t).1 ∧
      s' = { s with transmissions :=
        Function.update s.transmissions peer (nextBatch s.transmissionBatchSize t).2 } := by
  unfold getTransmissionData at h
  split at h
  · cases h
  · next hs =>
    refine ⟨Bool.eq_false_iff.mpr hs, ?_⟩
    split at h
    · cases h
    · next data ht hm =>
      cases h
      exact ⟨⟨0, data⟩, .inr ⟨ht, hm, rfl⟩, rfl, rfl⟩
    · next t ht =>
      cases h
      exact ⟨t, .inl ht, rfl, rfl⟩

end Serializer

namespace Link

variable {U β : Type} [DecidableEq U] {peer : U} {l l' : Link U β}

/-- What the peer will have assembled when it has all batches that are under way. -/
def pending (l : Link U β) : Option (List β) :=
  l.channel.foldl Batch.absorb l.receiver.incomingTransmissionFile

structure Inv (peer : U) (l : Link U β) : Prop where
  size : 0 < l.sender.transmissionBatchSize
  memory : ∀ data, l.sender.inMemorySerializedData = some data → data ∈ l.taken
  transmission : ∀ t, l.sender.transmissions peer = some t → t.data ∈ l.taken ∧
    t.transmitted ≤ t.data.length ∧
    (l.connected = true → l.pending = some (t.data.take t.transmitted))
  /-- what a batch under way completes was taken as a whole -/
  complete : ∀ l₁ batch l₂, l.channel = l₁ ++ batch :: l₂ → batch.isLast = true →
    ∀ data, batch.assemble (l₁.foldl Batch.absorb l.receiver.incomingTransmissionFile) =
      some data → data ∈ l.taken

omit [DecidableEq U] in
theorem inv_initial {batchSize : ℕ} (batchSize' : ℕ) (h : 0 < batchSize) :
    (initial batchSize batchSize' : Link U β).Inv peer where
  size := h
  memory := fun _ h => nomatch h
  transmission := fun _ h => nomatch h
  complete := by
    intro l₁ batch l₂ h
    cases l₁ <;> cases h

/-- What the sender sends next, and what it keeps of the transmission. -/
theorem Inv.next {batch : Batch β} {sender : Serializer U β} (h : l.Inv peer)
    (hget : l.sender.getTransmissionData peer = (some batch, sender)) :
    sender.transmissionBatchSize = l.sender.transmissionBatchSize ∧
    sender.inMemorySerializedData = l.sender.inMemorySerializedData ∧
    ∃ t : Transmission β, t.data ∈ l.taken ∧ batch.isLast = decide (t.data.length ≤ t.transmitted) ∧
      (l.connected = true → batch.assemble l.pending =
        some (t.data.take (t.transmitted + l.sender.transmissionBatchSize))) ∧
      sender.transmissions peer = if t.data.length ≤ t.transmitted then none else some { t with
        transmitted := min (t.transmitted + l.sender.transmissionBatchSize) t.data.length } := by
  obtain ⟨-, t, ht, rfl, rfl⟩ := Serializer.getTransmissionData_some hget
  have hspec : t.data ∈ l.taken ∧ (l.connected = true →
      t.transmitted = 0 ∨ l.pending = some (t.data.take t.transmitted)) := by
    rcases ht with ht | ⟨-, hm, hzero⟩
    · obtain ⟨hmem, -, hp⟩ := h.transmission t ht
      exact ⟨hmem, fun hc => .inr (hp hc)⟩
    · exact ⟨h.memory _ hm, fun _ => .inl hzero⟩
  refine ⟨rfl, rfl, t, hspec.1, Serializer.nextBatch_isLast h.size t, fun hc =>
    Serializer.nextBatch_assemble l.sender.transmissionBatchSize t (hspec.2 hc), ?_⟩
  dsimp only
  rw [Function.update_self, Serializer.nextBatch_snd h.size]

theorem Inv.send {batch : Batch β} {sender : Serializer U β} (h : l.Inv peer)
    (hget : l.sender.getTransmissionData peer = (some batch, sender)) :
    ({ l with sender, channel := if l.connected then l.channel ++ [batch] else l.channel } :
      Link U β).Inv peer := by
  obtain ⟨hsize, hmemory, t, hmem, hlast, hasm, htrans⟩ := h.next hget
  refine ⟨hsize ▸ h.size, fun data hd => h.memory data (hmemory ▸ hd), ?_, ?_⟩
  · intro t' ht'
    replace ht' := htrans.symm.trans ht'
    split at ht'
    · cases ht'
    · next hmore =>
      cases ht'
      refine ⟨hmem, Nat.min_le_right _ _, fun hc => ?_⟩
      show (if l.connected then l.channel ++ [batch] else l.channel).foldl _ _ = _
      rw [if_pos hc, List.foldl_append, List.foldl_cons, List.foldl_nil]
      show Batch.absorb l.pending _ = _
      unfold Batch.absorb
      rw [hlast, if_neg (by simpa using hmore), hasm hc, ← List.take_eq_take_min]
  · intro l₁ b l₂ heq hb data hd
    dsimp only at heq
    cases hc : l.connected with
    | false =>
      rw [hc, if_neg Bool.false_ne_true] at heq
      exact h.complete l₁ b l₂ heq hb data hd
    | true =>
      rw [hc, if_pos rfl] at heq
      rcases List.eq_nil_or_concat' l₂ with rfl | ⟨l₃, b', rfl⟩
      · -- the new batch
        obtain ⟨hl₁, hb'⟩ := List.append_inj' heq rfl
        cases hb'
        subst hl₁
        have : t.data.take (t.transmitted + l.sender.transmissionBatchSize) = data :=
          Option.some_inj.mp ((hasm hc).symm.trans hd)
        rw [← this, List.take_of_length_le (by have := hlast.symm.trans hb; simp at this; omega)]
        exact hmem
      · rw [← List.cons_append, ← List.append_assoc] at heq
        exact h.complete l₁ b l₃ (List.append_inj' heq rfl).1 hb data hd

omit [DecidableEq U] in
theorem Inv.deliver {batch : Batch β} {channel : List (Batch β)} (h : l.Inv peer)
    (hc : l.channel = batch :: channel) :
    ({ l with channel, receiver := (l.receiver.setTransmissionData (some batch)).2 } :
      Link U β).Inv peer := by
  refine ⟨h.size, h.memory, ?_, ?_⟩
  · intro t ht
    obtain ⟨hmem, hle, hp⟩ := h.transmission t ht
    refine ⟨hmem, hle, fun hconnected => ?_⟩
    rw [← hp hconnected]
    show channel.foldl _ _ = l.channel.foldl _ _
    rw [hc, List.foldl_cons, Serializer.setTransmissionData_incoming]
  · intro l₁ b l₂ heq hb data hd
    dsimp only at heq hd
    apply h.complete (batch :: l₁) b l₂ (by rw [hc, heq, List.cons_append]) hb data
    rw [List.foldl_cons, ← Serializer.setTransmissionData_incoming]
    exact hd

/-- What the sender does for others leaves its transmission to `peer` or ends it. -/
theorem perform_transmissions (s : Serializer U β) (o : Operation U β)
    (h : o ≠ .getTransmissionData peer) :
    (s.perform o).transmissionBatchSize = s.transmissionBatchSize ∧
      ∀ t, (s.perform o).transmissions peer = some t → s.transmissions peer = some t := by
  cases o with
  | checkSerializing =>
    show (s.checkSerializing).2.transmissionBatchSize = _ ∧ ∀ t, _
    unfold Serializer.perform Serializer.checkSerializing
    split
    · exact ⟨rfl, fun t ht => nomatch ht⟩
    · exact ⟨rfl, fun t ht => ht⟩
  | serialize data id =>
    unfold Serializer.perform Serializer.serialize
    dsimp only
    split <;> exact ⟨rfl, fun t ht => ht⟩
  | getTransmissionData id =>
    have hid : peer ≠ id := fun he => h (he ▸ rfl)
    cases hg : s.getTransmissionData id with
    | mk batch s' =>
      show (s.getTransmissionData id).2.transmissionBatchSize = _ ∧
        ∀ t, (s.getTransmissionData id).2.transmissions peer = some t → _
      rw [hg]
      cases batch with
      | none =>
        unfold Serializer.getTransmissionData at hg
        split at hg
        · cases hg
          exact ⟨rfl, fun t ht => ht⟩
        · split at hg <;> cases hg
          exact ⟨rfl, fun t ht => ht⟩
      | some batch =>
        obtain ⟨-, t, -, -, rfl⟩ := Serializer.getTransmissionData_some hg
        refine ⟨rfl, fun t' ht' => ?_⟩
        dsimp only at ht'
        rwa [Function.update_of_ne hid] at ht'
  | setTransmissionData batch =>
    unfold Serializer.perform Serializer.setTransmissionData
    dsimp only
    split
    · exact ⟨rfl, fun t ht => ht⟩
    · split
      · exact ⟨rfl, fun t ht => ht⟩
      · split <;> exact ⟨rfl, fun t ht => ht⟩
  | cancelTransmisstion id =>
    refine ⟨rfl, fun t ht => ?_⟩
    replace ht : Function.update s.transmissions id none peer = some t := ht
    by_cases hid : peer = id
    · subst hid
      rw [Function.update_self] at ht
      cases ht
    · rwa [Function.update_of_ne hid] at ht

theorem Inv.step (h : l.Inv peer) (hs : Step peer l l') : l'.Inv peer := by
  cases hs with
  | send hget => exact h.send hget
  | deliver hc => exact h.deliver hc
  | sender o ho =>
    obtain ⟨hsize, htrans⟩ := perform_transmissions l.sender o ho
    refine ⟨?_, ?_, ?_, ?_⟩
    · show 0 < (l.sender.perform o).transmissionBatchSize
      rw [hsize]
      exact h.size
    · intro data hd
      exact List.mem_append_left _ (Option.mem_toList.mpr hd)
    · intro t ht
      obtain ⟨hmem, hrest⟩ := h.transmission t (htrans t ht)
      exact ⟨List.mem_append_right _ hmem, hrest⟩
    · intro l₁ b l₂ heq hb data hd
      exact List.mem_append_right _ (h.complete l₁ b l₂ heq hb data hd)
  | receiver o ho =>
    have hin := Serializer.perform_incoming l.receiver o ho
    refine ⟨h.size, h.memory, ?_, ?_⟩
    · intro t ht
      obtain ⟨hmem, hle, hp⟩ := h.transmission t ht
      refine ⟨hmem, hle, fun hconnected => ?_⟩
      show l.channel.foldl _ (l.receiver.perform o).incomingTransmissionFile = _
      rw [hin]
      exact hp hconnected
    · intro l₁ b l₂ heq hb data hd
      dsimp only at hd
      rw [hin] at hd
      exact h.complete l₁ b l₂ heq hb data hd
  | disconnect k =>
    refine ⟨h.size, h.memory, fun t ht => ?_, fun l₁ b l₂ heq hb data hd => ?_⟩
    · obtain ⟨hmem, hle, -⟩ := h.transmission t ht
      exact ⟨hmem, hle, fun hc => nomatch hc⟩
    · refine h.complete l₁ b (l₂ ++ l.channel.drop k) ?_ hb data hd
      rw [← List.cons_append, ← List.append_assoc, ← show l.channel.take k = l₁ ++ b :: l₂ from heq,
        List.take_append_drop]
  | connect hnone =>
    exact ⟨h.size, h.memory, fun t ht => (nomatch hnone.symm.trans ht), h.complete⟩

theorem Reachable.inv {batchSize batchSize' : ℕ} (hsize : 0 < batchSize)
    (h : Reachable peer batchSize batchSize' l) : l.Inv peer := by
  induction h with
  | refl => exact inv_initial batchSize' hsize
  | tail _ h ih => exact ih.step h

/-- **A snapshot arrives as a whole.**  In every run of a sender and a peer that gets the
batches in their order, whatever else the two do, cancelled transmissions, new snapshots and lost
connections included: when the peer takes a transmission for complete, it has in memory one
snapshot as the sender had it. -/
theorem snapshot_whole {batchSize batchSize' : ℕ} (hsize : 0 < batchSize)
    (hr : Reachable peer batchSize batchSize' l) {batch : Batch β} {channel : List (Batch β)}
    (hc : l.channel = batch :: channel) (hs : (l.receiver.setTransmissionData (some batch)).1 = true) :
    ∃ data ∈ l.taken,
      (l.receiver.setTransmissionData (some batch)).2.inMemorySerializedData = some data := by
  obtain ⟨hlast, hm, hsome⟩ := Serializer.setTransmissionData_complete hs
  obtain ⟨data, hd⟩ := Option.isSome_iff_exists.mp hsome
  exact ⟨data, (hr.inv hsize).complete [] batch channel hc hlast data hd, hm.trans hd⟩

/-- A connection breaks with a batch under way, and the next one brings the snapshot. -/
theorem snapshot_whole_taken : ∃ (l : Link ℕ ℕ) (batch : Batch ℕ), l.channel = [batch] ∧
    l.receiver.incomingTransmissionFile = some [7, 8] ∧ ∃ data ∈ l.taken,
      (l.receiver.setTransmissionData (some batch)).2.inMemorySerializedData = some data := by
  have hready : Reachable 0 1 1 _ := ((Relation.ReflTransGen.refl (r := Step (β := ℕ) 0)).tail
    (.sender (.serialize [7, 8] 3) (fun h => nomatch h))).tail
    (.sender .checkSerializing (fun h => nomatch h))
  have hbroken := (((hready.tail (.send rfl)).tail (.send rfl)).tail (.deliver rfl)).tail
    (.disconnect 0)
  have hcancelled := hbroken.tail (.sender (.cancelTransmisstion 0) (fun h => nomatch h))
  have hrun := ((((((hcancelled.tail (.connect rfl)).tail (.send rfl)).tail (.deliver rfl)).tail
    (.send rfl)).tail (.deliver rfl)).tail (.send rfl))
  exact ⟨_, _, rfl, rfl, snapshot_whole Nat.one_pos hrun rfl rfl⟩

/-- `n` batches of `data` have been exchanged. -/
structure Exchanged (peer : U) (data : List β) (batchSize n : ℕ) (l : Link U β) : Prop where
  ready : l.sender.serializing = false
  size : l.sender.transmissionBatchSize = batchSize
  sent : ∃ t : Transmission β, t.data = data ∧ t.transmitted = min (n * batchSize) data.length ∧
    (l.sender.transmissions peer = some t ∨ l.sender.transmissions peer = none ∧
      l.sender.inMemorySerializedData = some data ∧ t.transmitted = 0) ∧
    (t.transmitted = 0 ∨
      l.receiver.incomingTransmissionFile = some (data.take t.transmitted))

theorem getTransmissionData_eq (s : Serializer U β) (hs : s.serializing = false)
    {t : Transmission β} (ht : s.transmissions peer = some t ∨ s.transmissions peer = none ∧
      s.inMemorySerializedData = some t.data ∧ t.transmitted = 0) :
    s.getTransmissionData peer = (some (Serializer.nextBatch s.transmissionBatchSize t).1,
      { s with transmissions :=
          Function.update s.transmissions peer (Serializer.nextBatch s.transmissionBatchSize t).2 }) := by
  unfold Serializer.getTransmissionData
  rw [hs, if_neg Bool.false_ne_true]
  rcases ht with ht | ⟨ht, hm, hzero⟩
  · simp only [ht]
  · obtain ⟨transmitted, data⟩ := t
    subst hzero
    simp only [ht, hm]

theorem exchange_eq {sender : Serializer U β} {batch : Batch β}
    (h : l.sender.getTransmissionData peer = (some batch, sender)) :
    l.exchange peer = ((l.receiver.setTransmissionData (some batch)).1,
      { l with sender, receiver := (l.receiver.setTransmissionData (some batch)).2 }) := by
  unfold exchange
  rw [h]

theorem Exchanged.next {data : List β} {batchSize n : ℕ} (hsize : 0 < batchSize)
    (h : Exchanged peer data batchSize n l) :
    if data.length ≤ n * batchSize then
      (l.exchange peer).1 = true ∧ (l.exchange peer).2.receiver.inMemorySerializedData = some data
    else (l.exchange peer).1 = false ∧ Exchanged peer data batchSize (n + 1) (l.exchange peer).2 := by
  obtain ⟨hready, rfl, t, rfl, hlen, ht, hin⟩ := h
  have hasm := Serializer.nextBatch_assemble l.sender.transmissionBatchSize t hin
  have hlast := Serializer.nextBatch_isLast hsize t
  rw [exchange_eq (getTransmissionData_eq l.sender hready ht)]
  split
  · next hdone =>
    have hend : t.data.length ≤ t.transmitted := by omega
    rw [List.take_of_length_le (by omega)] at hasm
    rw [decide_eq_true hend] at hlast
    exact Serializer.setTransmissionData_last hlast hasm
  · next hmore =>
    have hnot : ¬ t.data.length ≤ t.transmitted := by omega
    rw [decide_eq_false hnot] at hlast
    have hnext : (Serializer.nextBatch l.sender.transmissionBatchSize t).2 =
        some ⟨min (t.transmitted + l.sender.transmissionBatchSize) t.data.length, t.data⟩ := by
      rw [Serializer.nextBatch_snd hsize, if_neg hnot]
    refine ⟨Bool.eq_false_iff.mpr fun hc => ?_, hready, rfl,
      ⟨min (t.transmitted + l.sender.transmissionBatchSize) t.data.length, t.data⟩, rfl,
      ?_, .inl ?_, .inr ?_⟩
    · rw [(Serializer.setTransmissionData_complete hc).1] at hlast
      cases hlast
    · rw [Nat.add_mul]
      dsimp only
      omega
    · dsimp only
      rw [Function.update_self, hnext]
    · dsimp only
      rw [Serializer.setTransmissionData_incoming, ← List.take_eq_take_min]
      unfold Batch.absorb
      rw [hlast, if_neg Bool.false_ne_true, hasm]

/-- **A transfer that nothing disturbs ends**, with the batch after the data: of `n` batches
each is short of the whole as long as they do not hold the data, and then the next one completes
it. -/
theorem transfer_completes {data : List β} (hsize : 0 < l.sender.transmissionBatchSize)
    (hready : l.sender.serializing = false) (hnone : l.sender.transmissions peer = none)
    (hmem : l.sender.inMemorySerializedData = some data) {n : ℕ}
    (hn : n = (data.length + l.sender.transmissionBatchSize - 1) / l.sender.transmissionBatchSize) :
    (∀ k ≤ n, (l.exchanges peer k).1 = false) ∧ (l.exchanges peer (n + 1)).1 = true ∧
      (l.exchanges peer (n + 1)).2.receiver.inMemorySerializedData = some data := by
  have hmid : ∀ k, k ≤ n → (l.exchanges peer k).1 = false ∧
      Exchanged peer data l.sender.transmissionBatchSize k (l.exchanges peer k).2 := by
    intro k hk
    induction k with
    | zero => exact ⟨rfl, hready, rfl, ⟨0, data⟩, rfl, by simp, .inr ⟨hnone, hmem, rfl⟩, .inl rfl⟩
    | succ k ih =>
      have hnext := (ih (by omega)).2.next hsize
      have hlt : k * l.sender.transmissionBatchSize < data.length := by
        have := Nat.div_mul_le_self (data.length + l.sender.transmissionBatchSize - 1)
          l.sender.transmissionBatchSize
        have hmul := Nat.mul_le_mul_right l.sender.transmissionBatchSize hk
        rw [Nat.add_mul] at hmul
        rw [← hn] at this
        omega
      rwa [if_neg (by omega)] at hnext
  have hend : data.length ≤ n * l.sender.transmissionBatchSize := by
    have := Nat.lt_div_mul_add hsize (a := data.length + l.sender.transmissionBatchSize - 1)
    rw [← hn] at this
    omega
  have hlast := (hmid n (Nat.le_refl n)).2.next hsize
  rw [if_pos hend] at hlast
  exact ⟨fun k hk => (hmid k hk).1, hlast⟩

theorem transfer_completes_three :
    let l : Link ℕ ℕ :=
      ⟨((Serializer.init 2).serialize [5, 6, 7] 4).checkSerializing.2, true, [], .init 2, []⟩
    (∀ k ≤ 2, (l.exchanges 0 k).1 = false) ∧ (l.exchanges 0 3).1 = true ∧
      (l.exchanges 0 3).2.receiver.inMemorySerializedData = some [5, 6, 7] :=
  transfer_completes (by decide) rfl rfl rfl rfl

end Link

end Pysyncobj
