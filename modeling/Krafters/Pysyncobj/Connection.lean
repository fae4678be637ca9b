import Krafters.Lib.Framing
import Krafters.Lib.Pickle
import Mathlib.Algebra.Ring.Int.Defs
import Mathlib.Algebra.Ring.Nat
import Mathlib.Logic.Relation

/-!
# pysyncobj/connection.py: messages over a socket

A message goes out as the length of its bytes, in four bytes, and the bytes.  The socket takes
them in parts, and the other side gets them in parts.  With what is not read yet of the messages
that were sent as `pending`,

    sent = received ++ pending
    readBuffer ++ wire ++ writeBuffer = frames pending

as long as the sockets work; after that the other side has a beginning of the frames.  So the
messages arrive in their order and once, up to one from which on they are lost.
-/

namespace Pysyncobj

/-! ## Algorithm -/

/-- `struct.pack('i', n)`, which raises for what has no place in four bytes. -/
def packInt (n : ℕ) : Option (List UInt8) :=
  if n < 2 ^ 31 then
    some [.ofNat n, .ofNat (n / 2 ^ 8), .ofNat (n / 2 ^ 16), .ofNat (n / 2 ^ 24)]
  else none

/-- `struct.unpack('i', …)` -/
def unpackInt (a b c d : UInt8) : ℤ :=
  let n : ℕ := a.toNat + 2 ^ 8 * b.toNat + 2 ^ 16 * c.toNat + 2 ^ 24 * d.toNat
  if n < 2 ^ 31 then (n : ℤ) else n - 2 ^ 32

/-- Where an index of a slice points to. -/
def sliceIndex (i : ℤ) (length : ℕ) : ℕ := (if i < 0 then i + length else i).toNat

/-- `b[i:]` -/
def sliceFrom {α : Type} (b : List α) (i : ℤ) : List α := b.drop (sliceIndex i b.length)

/-- `b[i:j]` -/
def slice {α : Type} (b : List α) (i j : ℤ) : List α :=
  (b.take (sliceIndex j b.length)).drop (sliceIndex i b.length)

/-- What `socket.send` does: it takes bytes, has no room (`EAGAIN`), or fails. -/
inductive SendResult
  | taken (res : ℕ)
  | again
  | error
deriving DecidableEq

/-- What `socket.recv` does, with the error that `getsockopt` then tells of. -/
inductive RecvResult
  | incoming (bytes : List UInt8) (error : Bool)
  | again
  | error

structure Connection where
  readBuffer : List UInt8
  writeBuffer : List UInt8
  disconnected : Bool

namespace Connection

/-- As `connect` leaves it. -/
def init : Connection := ⟨[], [], false⟩

variable (c : Connection)

/-- A failed `socket.send`: what is in the buffers is lost. -/
def dropped : Connection := ⟨[], [], true⟩

/-- Whether to go on, the connection after that, and the bytes that the socket has taken. -/
def processSend (result : SendResult) : Bool × Connection × List UInt8 :=
  if c.writeBuffer = [] then (false, c, [])
  else match result with
    | .taken res =>
      if res = 0 then (false, c, [])
      else (true, { c with writeBuffer := c.writeBuffer.drop res }, c.writeBuffer.take res)
    | .again => (false, c, [])
    | .error => (false, dropped, [])

/-- With what the calls of `socket.send` do; after these there is no room. -/
def trySendBuffer (c : Connection) : List SendResult → Connection × List UInt8
  | [] => (c, [])
  | result :: results =>
    match c.processSend result with
    | (true, c', taken) => ((trySendBuffer c' results).1, taken ++ (trySendBuffer c' results).2)
    | (false, c', taken) => (c', taken)

/-- Nothing where `struct.pack` raises; the connection is then as it was. -/
def send {M : Type} (pickle : Pickle M UInt8) (message : M) (results : List SendResult) :
    Option (Connection × List UInt8) :=
  let data := pickle.dumps message
  (packInt data.length).map fun length =>
    trySendBuffer { c with writeBuffer := c.writeBuffer ++ (length ++ data) } results

def read : RecvResult → Bool × Connection
  | .incoming bytes error =>
    if error then (false, { c with disconnected := true })
    else if bytes = [] then (false, c)
    else (true, { c with readBuffer := c.readBuffer ++ bytes })
  | .again => (false, c)
  | .error => (false, { c with disconnected := true })

def getMessage {M : Type} (pickle : Pickle M UInt8) : Option M × Connection :=
  match c.readBuffer with
  | a :: b :: c' :: d :: rest =>
    let l := unpackInt a b c' d
    if (rest.length : ℤ) < l then (none, c)
    else match pickle.loads (slice c.readBuffer 4 (4 + l)) with
      | none => (none, { c with disconnected := true })
      | some message => (some message, { c with readBuffer := sliceFrom c.readBuffer (4 + l) })
  | _ => (none, c)

end Connection

/-- One direction of a connection: the two ends, the bytes that one socket has taken and the other
one not given yet, and the messages that went in and came out. -/
structure Pipe (M : Type) where
  sender : Connection
  receiver : Connection
  wire : List UInt8
  /-- the socket of the sender works -/
  sends : Bool
  /-- the socket of the receiver works -/
  receives : Bool
  sent : List M
  received : List M

namespace Pipe

variable {M : Type} (pickle : Pickle M UInt8)

def initial : Pipe M := ⟨.init, .init, [], true, true, [], []⟩

/-- A socket that works does not fail, and one that has failed takes nothing any more. -/
def Answers (works : Bool) (results : List SendResult) : Prop :=
  if works then SendResult.error ∉ results else ∀ res, SendResult.taken res ∉ results

/-- What the two nodes and the sockets do, in any order.  The receiver's own messages go the other
way; here they can only fail. -/
inductive Step : Pipe M → Pipe M → Prop
  | send {s : Pipe M} {message : M} {results : List SendResult} {sender : Connection}
      {taken : List UInt8} (hr : Answers s.sends results)
      (h : s.sender.send pickle message results = some (sender, taken)) :
      Step s { s with sender, wire := s.wire ++ taken, sent := s.sent ++ [message] }
  | flush {s : Pipe M} {results : List SendResult} (hr : Answers s.sends results) :
      Step s { s with
        sender := (s.sender.trySendBuffer results).1
        wire := s.wire ++ (s.sender.trySendBuffer results).2 }
  | breakSender {s : Pipe M} : Step s { s with sends := false }
  | read {s : Pipe M} {n : ℕ} {error : Bool} (hn : n ≤ 2 ^ 13) (hw : s.receives = true) :
      Step s { s with
        receiver := (s.receiver.read (.incoming (s.wire.take n) error)).2
        wire := s.wire.drop n
        receives := !error }
  | readAgain {s : Pipe M} : Step s { s with receiver := (s.receiver.read .again).2 }
  | readError {s : Pipe M} :
      Step s { s with receiver := (s.receiver.read .error).2, receives := false }
  | sendError {s : Pipe M} : Step s { s with receiver := .dropped, receives := false }
  | getMessage {s : Pipe M} :
      Step s { s with
        receiver := (s.receiver.getMessage pickle).2
        received := s.received ++ (s.receiver.getMessage pickle).1.toList }

def Reachable (s : Pipe M) : Prop := Relation.ReflTransGen (Step pickle) .initial s

end Pipe

/-! ## Lemmas -/

theorem unpackInt_packInt {n : ℕ} (h : n < 2 ^ 31) :
    unpackInt (.ofNat n) (.ofNat (n / 2 ^ 8)) (.ofNat (n / 2 ^ 16)) (.ofNat (n / 2 ^ 24)) = n := by
  unfold unpackInt
  simp only [UInt8.toNat_ofNat']
  omega

theorem sliceIndex_ofNat (i length : ℕ) : sliceIndex i length = i := by
  unfold sliceIndex
  omega

namespace Connection

variable {M : Type} {pickle : Pickle M UInt8} {m : M} {c : Connection}

/-- The bytes of a message as `send` appends them. -/
def frame (pickle : Pickle M UInt8) (m : M) : List UInt8 :=
  let n := (pickle.dumps m).length
  .ofNat n :: .ofNat (n / 2 ^ 8) :: .ofNat (n / 2 ^ 16) :: .ofNat (n / 2 ^ 24) :: pickle.dumps m

def next (pickle : Pickle M UInt8) (buffer : List UInt8) : Option (M × List UInt8) :=
  let r := getMessage ⟨buffer, [], false⟩ pickle
  r.1.map fun m => (m, r.2.readBuffer)

theorem next_frame (rest : List UInt8) (h : (pickle.dumps m).length < 2 ^ 31) :
    next pickle (frame pickle m ++ rest) = some (m, rest) := by
  have hlength : ¬ ((pickle.dumps m ++ rest).length : ℤ) < (pickle.dumps m).length := by
    rw [List.length_append]
    omega
  have hindex : ∀ k, sliceIndex (4 + ((pickle.dumps m).length : ℤ)) k =
      4 + (pickle.dumps m).length := sliceIndex_ofNat (4 + (pickle.dumps m).length)
  have hfour : ∀ k, sliceIndex 4 k = 4 := sliceIndex_ofNat 4
  unfold next getMessage frame
  dsimp only [List.cons_append]
  rw [unpackInt_packInt h, if_neg hlength]
  unfold slice sliceFrom
  rw [hindex, hfour, Nat.add_comm 4]
  simp [pickle.loads_dumps]

theorem next_part {part : List UInt8} (hpart : part <+: frame pickle m)
    (hne : part ≠ frame pickle m) (h : (pickle.dumps m).length < 2 ^ 31) :
    next pickle part = none := by
  rcases part with - | ⟨a, - | ⟨b, - | ⟨c, - | ⟨d, data⟩⟩⟩⟩
  iterate 4 rfl
  unfold frame at hpart hne
  simp only [List.cons_prefix_cons] at hpart
  obtain ⟨rfl, rfl, rfl, rfl, hdata⟩ := hpart
  have hshort : (data.length : ℤ) < (pickle.dumps m).length := by
    have hle := hdata.length_le
    have hlen : data.length ≠ (pickle.dumps m).length := fun h => hne (by rw [hdata.eq_of_length h])
    omega
  unfold next getMessage
  dsimp only
  rw [unpackInt_packInt h, if_pos hshort]
  rfl

def framing (pickle : Pickle M UInt8) : Framing M UInt8 where
  frame := frame pickle
  fits m := (pickle.dumps m).length < 2 ^ 31
  next := next pickle
  next_nil := rfl
  next_frame _ rest h := next_frame rest h
  next_part _ _ h hpart hne := next_part hpart hne h

/-- The first message in the buffer, and what is behind it. -/
theorem getMessage_spec (pickle : Pickle M UInt8) (c : Connection) :
    match next pickle c.readBuffer with
    | none => (c.getMessage pickle).1 = none ∧ (c.getMessage pickle).2.readBuffer = c.readBuffer
    | some (m, rest) =>
      (c.getMessage pickle).1 = some m ∧ (c.getMessage pickle).2.readBuffer = rest := by
  rcases c with ⟨buffer, writeBuffer, disconnected⟩
  rcases buffer with - | ⟨a, - | ⟨b, - | ⟨c, - | ⟨d, rest⟩⟩⟩⟩
  iterate 4 exact ⟨rfl, rfl⟩
  unfold next getMessage
  dsimp only
  by_cases hshort : (rest.length : ℤ) < unpackInt a b c d
  · simp [hshort]
  · simp only [if_neg hshort]
    cases pickle.loads (slice (a :: b :: c :: d :: rest) 4 (4 + unpackInt a b c d)) with
    | none => exact ⟨rfl, rfl⟩
    | some m => exact ⟨rfl, rfl⟩

/-- A socket that does not fail has taken what is not in the buffer any more. -/
theorem trySendBuffer_taken {results : List SendResult} (h : SendResult.error ∉ results) :
    (c.trySendBuffer results).2 ++ (c.trySendBuffer results).1.writeBuffer = c.writeBuffer := by
  induction results generalizing c with
  | nil => rfl
  | cons result results ih =>
    obtain ⟨hne, hlater⟩ := not_or.mp (List.mem_cons.not.mp h)
    unfold trySendBuffer processSend
    by_cases hempty : c.writeBuffer = []
    · rw [if_pos hempty]
      rfl
    · rw [if_neg hempty]
      cases result with
      | taken res =>
        by_cases hzero : res = 0
        · simp [hzero]
        · have hrest := ih (c := { c with writeBuffer := c.writeBuffer.drop res }) hlater
          dsimp only at hrest ⊢
          rw [if_neg hzero]
          dsimp only
          rw [List.append_assoc, hrest, List.take_append_drop]
      | again => rfl
      | error => exact absurd rfl hne

theorem trySendBuffer_failed {results : List SendResult} (h : ∀ res, .taken res ∉ results) :
    (c.trySendBuffer results).2 = [] := by
  cases results with
  | nil => rfl
  | cons result results =>
    unfold trySendBuffer processSend
    by_cases hempty : c.writeBuffer = []
    · rw [if_pos hempty]
    · rw [if_neg hempty]
      cases result with
      | taken res => exact absurd List.mem_cons_self (h res)
      | again => rfl
      | error => rfl

end Connection

namespace Pipe

open Connection

variable {M : Type} {pickle : Pickle M UInt8} {s s' : Pipe M} {pending : List M}

/-- `pending` are the messages that were sent and not read yet. -/
structure Inv (pickle : Pickle M UInt8) (s : Pipe M) (pending : List M) : Prop where
  sent : s.sent = s.received ++ pending
  fits : ∀ m ∈ pending, (framing pickle).fits m
  buffer : s.receiver.readBuffer <+: (framing pickle).frames pending
  arrives : s.receives = true →
    s.receiver.readBuffer ++ s.wire <+: (framing pickle).frames pending
  whole : s.sends = true → s.receives = true →
    s.receiver.readBuffer ++ s.wire ++ s.sender.writeBuffer = (framing pickle).frames pending

theorem Inv.append (h : s.Inv pickle pending) {m : M} (hfits : (framing pickle).fits m) :
    ({ s with
      sender := { s.sender with writeBuffer := s.sender.writeBuffer ++ frame pickle m }
      sent := s.sent ++ [m] } : Pipe M).Inv pickle (pending ++ [m]) where
  sent := by
    rw [← List.append_assoc, ← h.sent]
  fits := by
    intro x hx
    rcases List.mem_append.mp hx with hx | hx
    · exact h.fits x hx
    · rwa [List.mem_singleton.mp hx]
  buffer := h.buffer.trans Framing.frames_prefix_concat
  arrives hr := (h.arrives hr).trans Framing.frames_prefix_concat
  whole hs hr := by
    rw [Framing.frames_concat, ← h.whole hs hr, List.append_assoc, List.append_assoc,
      List.append_assoc]
    rfl

theorem Inv.flush (h : s.Inv pickle pending) {results : List SendResult}
    (hr : Answers s.sends results) :
    ({ s with
      sender := (s.sender.trySendBuffer results).1
      wire := s.wire ++ (s.sender.trySendBuffer results).2 } : Pipe M).Inv pickle pending := by
  unfold Answers at hr
  cases hs : s.sends with
  | true =>
    rw [hs, if_pos rfl] at hr
    have hwhole : s.receives = true → s.receiver.readBuffer ++
        (s.wire ++ (s.sender.trySendBuffer results).2) ++
        (s.sender.trySendBuffer results).1.writeBuffer = (framing pickle).frames pending := by
      intro hrecv
      rw [← h.whole hs hrecv, List.append_assoc, List.append_assoc, trySendBuffer_taken hr,
        List.append_assoc]
    exact ⟨h.sent, h.fits, h.buffer, fun hrecv => ⟨_, hwhole hrecv⟩, fun _ => hwhole⟩
  | false =>
    rw [hs, if_neg Bool.false_ne_true] at hr
    -- a socket that has failed takes nothing more
    rw [trySendBuffer_failed hr, List.append_nil]
    exact ⟨h.sent, h.fits, h.buffer, h.arrives, fun hs' => nomatch hs'⟩

/-- The socket of the receiver has failed. -/
theorem Inv.fail (h : s.Inv pickle pending) {receiver : Connection} (wire : List UInt8)
    (hb : receiver.readBuffer <+: s.receiver.readBuffer) :
    ({ s with receiver, wire, receives := false } : Pipe M).Inv pickle pending :=
  ⟨h.sent, h.fits, hb.trans h.buffer, (fun hr => nomatch hr), (fun _ hr => nomatch hr)⟩

/-- Bytes go from the wire to the receiver. -/
theorem Inv.move (h : s.Inv pickle pending) {receiver : Connection} {wire : List UInt8}
    (hw : s.receives = true)
    (heq : receiver.readBuffer ++ wire = s.receiver.readBuffer ++ s.wire) :
    ({ s with receiver, wire, receives := true } : Pipe M).Inv pickle pending where
  sent := h.sent
  fits := h.fits
  buffer := (List.prefix_append _ wire).trans (heq ▸ h.arrives hw)
  arrives _ := by
    rw [heq]
    exact h.arrives hw
  whole hs _ := by
    rw [heq]
    exact h.whole hs hw

theorem Inv.getMessage (h : s.Inv pickle pending) : ∃ later,
    ({ s with
      receiver := (s.receiver.getMessage pickle).2
      received := s.received ++ (s.receiver.getMessage pickle).1.toList } : Pipe M).Inv
        pickle later := by
  have hspec := getMessage_spec pickle s.receiver
  have hcases := Framing.next_cases h.fits h.buffer
  rcases hcases with ⟨hnone, -⟩ | ⟨m, later, rest, rfl, hsome, hbuffer⟩
  · rw [show next pickle s.receiver.readBuffer = none from hnone] at hspec
    obtain ⟨hmessage, hread⟩ := hspec
    refine ⟨pending, ?_, h.fits, ?_, ?_, ?_⟩
    · rw [hmessage, h.sent]
      simp
    · rw [hread]
      exact h.buffer
    · rw [hread]
      exact h.arrives
    · rw [hread]
      exact h.whole
  · rw [show next pickle s.receiver.readBuffer = some (m, rest) from hsome] at hspec
    obtain ⟨hmessage, hread⟩ := hspec
    have hframes : (framing pickle).frames (m :: later) =
        (framing pickle).frame m ++ (framing pickle).frames later := rfl
    refine ⟨later, ?_, fun x hx => h.fits x (List.mem_cons_of_mem m hx), ?_, ?_, ?_⟩
    · rw [hmessage, h.sent]
      simp
    · have hb := h.buffer
      rw [hbuffer, hframes, List.prefix_append_right_inj] at hb
      rwa [hread]
    · intro hr
      have ha := h.arrives hr
      rw [hbuffer, hframes, List.append_assoc, List.prefix_append_right_inj] at ha
      rwa [hread]
    · intro hs hr
      have hw := h.whole hs hr
      rw [hbuffer, hframes, List.append_assoc, List.append_assoc, List.append_cancel_left_eq,
        ← List.append_assoc] at hw
      rwa [hread]

theorem Inv.step (h : s.Inv pickle pending) (hstep : Step pickle s s') :
    ∃ later, s'.Inv pickle later := by
  cases hstep with
  | @send message results sender taken hr hsend =>
    unfold Connection.send packInt at hsend
    dsimp only at hsend
    split at hsend
    · next hfits =>
      have heq := (Option.some.inj hsend).symm
      have happend := (h.append hfits).flush hr
      rw [show sender = _ from congrArg Prod.fst heq, show taken = _ from congrArg Prod.snd heq]
      exact ⟨_, happend⟩
    · cases hsend
  | flush hr => exact ⟨_, h.flush hr⟩
  | breakSender =>
    exact ⟨pending, h.sent, h.fits, h.buffer, h.arrives, fun hs => nomatch hs⟩
  | @read n error hn hw =>
    cases error with
    | true => exact ⟨_, h.fail _ List.prefix_rfl⟩
    | false =>
      have hread : (s.receiver.read (.incoming (s.wire.take n) false)).2.readBuffer =
          s.receiver.readBuffer ++ s.wire.take n := by
        unfold Connection.read
        by_cases hempty : s.wire.take n = [] <;> simp [hempty]
      exact ⟨_, h.move hw (by rw [hread, List.append_assoc, List.take_append_drop])⟩
  | readAgain => exact ⟨_, h⟩
  | readError => exact ⟨_, h.fail _ List.prefix_rfl⟩
  | sendError => exact ⟨_, h.fail _ (List.nil_prefix)⟩
  | getMessage => exact h.getMessage

theorem Reachable.inv (h : Reachable pickle s) : ∃ pending, s.Inv pickle pending := by
  induction h with
  | refl =>
    exact ⟨[], rfl, (fun _ hm => absurd hm List.not_mem_nil), List.prefix_rfl, fun _ => List.prefix_rfl,
      fun _ _ => rfl⟩
  | tail _ hstep ih =>
    obtain ⟨pending, h⟩ := ih
    exact h.step hstep

/-! ## Top theorems -/

/-- **Messages arrive in their order, and once**: those that came out are the first of those that
went in; and all of them, when the sockets work and nothing is under way. -/
theorem in_order (h : Reachable pickle s) : s.received <+: s.sent ∧
    (s.sends = true → s.receives = true → s.sender.writeBuffer = [] → s.wire = [] →
      (s.receiver.getMessage pickle).1 = none → s.received = s.sent) := by
  obtain ⟨pending, h⟩ := h.inv
  refine ⟨⟨pending, h.sent.symm⟩, fun hs hr hwrite hwire hnone => ?_⟩
  have hwhole := h.whole hs hr
  rw [hwrite, hwire, List.append_nil, List.append_nil] at hwhole
  have hspec := getMessage_spec pickle s.receiver
  rcases Framing.next_cases h.fits h.buffer with ⟨-, hempty⟩ | ⟨m, later, rest, -, hsome, -⟩
  · rw [h.sent, hempty hwhole, List.append_nil]
  · rw [show next pickle s.receiver.readBuffer = some (m, rest) from hsome] at hspec
    exact absurd (hnone.symm.trans hspec.1) (Option.some_ne_none m).symm

/-- Two messages of several bytes, which leave in three parts and arrive in two others. -/
theorem in_order_parts : ∃ s : Pipe (List ℕ), s.sent = [[3], [1, 2]] ∧ s.received <+: s.sent ∧
    s.received = s.sent := by
  have htaken : ∀ res, Answers true [.taken res] := by simp [Answers]
  have hfirst : Reachable (.unary (0 : UInt8) 1 (by decide)) _ :=
    .tail .refl (@Step.send _ _ .initial [3] [.taken 3] _ _ (htaken 3) rfl)
  have hsecond := hfirst.tail (@Step.send _ _ _ [1, 2] [.taken 7] _ _ (htaken 7) rfl)
  have hflushed := hsecond.tail (@Step.flush _ _ _ [.taken 7] (htaken 7))
  have hread := hflushed.tail (@Step.read _ _ _ 11 false (by decide) rfl)
  have hone := (hread.tail .getMessage).tail .getMessage
  have hrest := hone.tail (@Step.read _ _ _ 6 false (by decide) rfl)
  have hboth := hrest.tail .getMessage
  exact ⟨_, rfl, (in_order hboth).1, (in_order hboth).2 rfl rfl rfl rfl rfl⟩

end Pipe

end Pysyncobj
