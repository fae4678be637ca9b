import Krafters.Lib.Hoare
import Krafters.Pysyncobj.Serializer

/-!
# pysyncobj/syncobj.py: a node of the Raft cluster

`SyncObj` with the `Node` objects of its peers, after `__initInTickThread`, without a dump
file.  One event is one turn of `_onTick` up to `poll`, one message that `poll` delivers, or a
call from a client's thread.  An exception that leaves `_onTick` ends the tick thread
(`halted`): only `ReferenceError` is caught there.

What the outside decides is data of an event: which timers are due, which calls of `Node.send`
find the connection broken, when `__sendAppendEntries` runs out of its period, and which
callbacks raise.  Log indices start at 1, so they are naturals and `- 1` never meets 0.
-/

namespace Pysyncobj

/-! ## State -/

/-- `(command, logID, term)` -/
structure Entry (C : Type) where
  command : Option C
  idx : ℕ
  term : ℕ
  deriving DecidableEq

/-- A class derived from `SyncObj`: its own attributes, what its replicated methods return and
do to them, and the compressed pickle of `(data, last applied entry, the entry before)`. -/
structure Replicated where
  Command : Type
  Data : Type
  Result : Type
  Byte : Type
  initial : Data
  apply : Command → Data → Result × Data
  pickle : Pickle (Data × Entry Command × Entry Command) Byte

/-- What a snapshot holds: the data, the entry applied last and the one before it. -/
abbrev Replicated.Snapshot (P : Replicated) : Type :=
  P.Data × Entry P.Command × Entry P.Command

inductive RaftState
  | follower
  | candidate
  | leader
  deriving DecidableEq

inductive FailReason
  | success
  | queueFull
  | missingLeader
  | discarded
  | notLeader
  | leaderChanged
  deriving DecidableEq

structure SyncObjConf where
  commandsQueueSize : ℕ := 1000
  maxCommandsPerTick : ℕ := 100
  appendEntriesBatchSize : ℕ := 1000
  appendEntriesUseBatch : Bool := true
  logCompactionMinEntries : ℕ := 5000
  logCompactionBatchSize : ℕ := 8192
  commandsWaitLeader : Bool := true

/-- What stands for a callback in the commands queue: nothing, a function of a client, or the
node and the id of a request that came from there. -/
inductive Callback (U : Type)
  | none
  | function (k : ℕ)
  | request (node : U) (id : ℕ)

inductive Message (P : Replicated)
  | requestVote (term lastLogIndex lastLogTerm : ℕ)
  | responseVote (term : ℕ)
  /-- `prevLogIdx` and `prevLogTerm` are `None` together -/
  | appendEntries (term commitIndex : ℕ) (entries : List (Entry P.Command)) (prev : Option (ℕ × ℕ))
  | appendSerialized (term commitIndex : ℕ) (serialized : Option (Batch P.Byte))
  | applyCommand (command : P.Command) (requestId : Option ℕ)
  /-- with `error`, or with `log_idx` and `log_term` -/
  | applyCommandResponse (requestId : ℕ) (result : Except FailReason (ℕ × ℕ))
  | nextNodeIdx (nextNodeIdx : ℕ) (reset : Bool)

/-- A call of a client's function. -/
structure Call (P : Replicated) where
  function : ℕ
  result : Option P.Result
  reason : FailReason

instance {P : Replicated} [DecidableEq P.Result] : DecidableEq (Call P) := fun c c' =>
  decidable_of_iff (c.function = c'.function ∧ c.result = c'.result ∧ c.reason = c'.reason)
    (by cases c; cases c'; simp)

structure SyncObj (P : Replicated) (U : Type) where
  selfNodeAddr : U
  conf : SyncObjConf
  /-- the addresses of the `Node` objects -/
  nodes : List U
  /-- their status is `CONNECTED` -/
  connected : U → Bool
  raftState : RaftState
  raftCurrentTerm : ℕ
  votesCount : ℕ
  raftLeader : Option U
  raftLog : List (Entry P.Command)
  raftCommitIndex : ℕ
  raftLastApplied : ℕ
  raftNextIndex : U → ℕ
  raftMatchIndex : U → ℕ
  forceLogCompaction : Bool
  serializer : Serializer U P.Byte
  commandsQueue : List (P.Command × Callback U)
  /-- log index, term and function, in the order in which they were added -/
  commandsWaitingCommit : List (ℕ × ℕ × ℕ)
  commandsLocalCounter : ℕ
  /-- counter and function; the counters grow, so this is their order, too -/
  commandsWaitingReply : List (ℕ × ℕ)
  data : P.Data
  /-- the tick thread has ended -/
  halted : Bool

/-- The bytes of a snapshot that a node took or loaded, and the term it was in. -/
inductive Dump (β : Type)
  | taken (term : ℕ) (bytes : List β)
  | loaded (term : ℕ) (bytes : List β)
  deriving DecidableEq

inductive SyncError
  | indexError
  | keyError
  | typeError
  | assertionError
  | callback

/-- What the outside decides in the course of an event. -/
structure Environment where
  /-- which of the next calls of `send` leave the connection as it is; then all do -/
  links : List Bool
  /-- how many turns of its loop the next calls of `__sendAppendEntries` make in their period -/
  periods : List ℕ
  /-- which of the next calls of a client's function raise -/
  raises : List Bool

/-- A node in the course of an event. -/
structure Turn (P : Replicated) (U : Type) where
  node : SyncObj P U
  sent : List (U × Message P)
  calls : List (Call P)
  dumps : List (Dump P.Byte)
  env : Environment

abbrev Act (P : Replicated) (U α : Type) : Type := EStateM SyncError (Turn P U) α

variable {P : Replicated} {U : Type}

namespace SyncObj

/-- `__init__` and a first `__initInTickThread`. -/
def init (selfNodeAddr : U) (otherNodesAddrs : List U) (conf : SyncObjConf) : SyncObj P U where
  selfNodeAddr
  conf
  nodes := otherNodesAddrs
  connected := fun _ => false
  raftState := .follower
  raftCurrentTerm := 0
  votesCount := 0
  raftLeader := none
  raftLog := [⟨none, 1, 0⟩]
  raftCommitIndex := 1
  raftLastApplied := 1
  raftNextIndex := fun _ => 0
  raftMatchIndex := fun _ => 0
  forceLogCompaction := false
  serializer := .init conf.logCompactionBatchSize
  commandsQueue := []
  commandsWaitingCommit := []
  commandsLocalCounter := 0
  commandsWaitingReply := []
  data := P.initial
  halted := false

/-- The entries of a log from index `fromIDx` on; `none` where the log is empty and its first
entry is looked up. -/
def entriesFrom {C : Type} (log : List (Entry C)) (fromIDx : ℕ) : Option (List (Entry C)) :=
  match log with
  | [] => none
  | first :: _ => if fromIDx < first.idx then some [] else some (log.drop (fromIDx - first.idx))

end SyncObj

/-! ## Primitives -/

def getNode : Act P U (SyncObj P U) := do return (← get).node

def modifyNode (f : SyncObj P U → SyncObj P U) : Act P U Unit :=
  modify fun r => { r with node := f r.node }

/-- An `if` without `else`. -/
def onlyIf (c : Prop) [Decidable c] (m : Act P U Unit) : Act P U Unit := if c then m else return

/-- A value, or the exception where there is none. -/
def orRaise {α : Type} (e : SyncError) : Option α → Act P U α
  | some a => pure a
  | none => throw e

def getCurrentEntry : Act P U (Entry P.Command) := do
  orRaise .indexError (← getNode).raftLog.getLast?

def getEntries (fromIDx : ℕ) : Act P U (List (Entry P.Command)) := do
  orRaise .indexError (SyncObj.entriesFrom (← getNode).raftLog fromIDx)

def getPrevLogIndexTerm : ℕ → Act P U (Option (ℕ × ℕ))
  | 0 => return none
  | prevIndex + 1 => do
    let entries ← getEntries prevIndex
    return entries.head?.map fun e => (prevIndex, e.term)

def deleteEntriesFrom (fromIDx : ℕ) : Act P U Unit := do
  let first ← orRaise .indexError (← getNode).raftLog.head?
  if first.idx ≤ fromIDx then
    modifyNode fun n => { n with raftLog := n.raftLog.take (fromIDx - first.idx) }
  else return

def deleteEntriesTo (toIDx : ℕ) : Act P U Unit := do
  let first ← orRaise .indexError (← getNode).raftLog.head?
  if first.idx ≤ toIDx then
    modifyNode fun n => { n with raftLog := n.raftLog.drop (toIDx - first.idx) }
  else return

/-- For the record of a run; the code keeps none. -/
def recordDump (d : Dump P.Byte) : Act P U Unit := modify fun r => { r with dumps := r.dumps ++ [d] }

/-- A call of a client's function. -/
def callFunction (k : ℕ) (result : Option P.Result) (reason : FailReason) : Act P U Unit := do
  let r : Turn P U ← get
  let c : Call P := ⟨k, result, reason⟩
  set { r with calls := r.calls ++ [c], env := { r.env with raises := r.env.raises.tail } }
  if r.env.raises.headD false then throw .callback else return

/-- A call of what stands for a callback; only a function can be called. -/
def call (callback : Callback U) (result : Option P.Result) (reason : FailReason) :
    Act P U Unit :=
  match callback with
  | .function k => callFunction k result reason
  | _ => throw .typeError

section Links

variable [DecidableEq U]

/-- `Node.send`: without a connection the message is lost.  The call may find the connection
broken; the message may arrive all the same. -/
def nodeSend (addr : U) (message : Message P) : Act P U Unit := do
  let r : Turn P U ← get
  if r.node.connected addr then
    let connected := Function.update r.node.connected addr (r.env.links.headD true)
    set { r with
      node := { r.node with connected }
      sent := r.sent ++ [(addr, message)]
      env := { r.env with links := r.env.links.tail } }
  else return

/-- `__send` -/
def send (nodeAddr : U) (message : Message P) : Act P U Unit := do
  if nodeAddr ∈ (← getNode).nodes then nodeSend nodeAddr message else return

/-! ## Append entries -/

def sendNextNodeIdx (nodeAddr : U) (reset : Bool) : Act P U Unit := do
  send nodeAddr (.nextNodeIdx ((← getCurrentEntry).idx + 1) reset)

/-- The entries for a node, and its next index after them. -/
def takeEntries (nodeAddr : U) (nextNodeIndex : ℕ) : Act P U (List (Entry P.Command)) := do
  if nextNodeIndex ≤ (← getCurrentEntry).idx then
    let entries ← getEntries nextNodeIndex
    let entries := entries.take (← getNode).conf.appendEntriesBatchSize
    let last ← orRaise .indexError entries.getLast?
    modifyNode fun n =>
      { n with raftNextIndex := Function.update n.raftNextIndex nodeAddr (last.idx + 1) }
    return entries
  else return []

/-- A turn of the loop of `__sendAppendEntries` for one node. -/
def appendEntriesTurn (nodeAddr : U) (sendingSerialized : Bool) : Act P U Bool := do
  let n ← getNode
  let first ← orRaise .indexError n.raftLog.head?
  if first.idx ≤ n.raftNextIndex nodeAddr then
    let prev ← getPrevLogIndexTerm (n.raftNextIndex nodeAddr)
    let entries ← takeEntries nodeAddr (n.raftNextIndex nodeAddr)
    nodeSend nodeAddr (.appendEntries n.raftCurrentTerm n.raftCommitIndex entries prev)
    return sendingSerialized
  else
    let (serialized, serializer) := n.serializer.getTransmissionData nodeAddr
    modifyNode fun n => { n with serializer }
    nodeSend nodeAddr (.appendSerialized n.raftCurrentTerm n.raftCommitIndex serialized)
    match serialized with
    | none => return false
    | some batch =>
      if batch.isLast then
        modifyNode fun n =>
          { n with raftNextIndex := Function.update n.raftNextIndex nodeAddr first.idx }
        return false
      else return true

/-- The condition of the loop. -/
def appendEntriesGoesOn (nodeAddr : U) (sendSingle sendingSerialized : Bool) : Act P U Bool := do
  let n ← getNode
  return n.raftNextIndex nodeAddr ≤ (← getCurrentEntry).idx || sendSingle || sendingSerialized

/-- The loop for one node, and the turns that are left of the period. -/
def appendEntriesLoop (nodeAddr : U) : ℕ → Bool → Bool → Act P U ℕ
  | 0, sendSingle, sendingSerialized => do
    if ← appendEntriesGoesOn nodeAddr sendSingle sendingSerialized then
      let _ ← appendEntriesTurn nodeAddr sendingSerialized
      return 0
    else return 0
  | turns + 1, sendSingle, sendingSerialized => do
    if ← appendEntriesGoesOn nodeAddr sendSingle sendingSerialized then
      appendEntriesLoop nodeAddr turns false (← appendEntriesTurn nodeAddr sendingSerialized)
    else return turns + 1

def sendAppendEntriesTo : List U → ℕ → Act P U Unit
  | [], _ => return
  | nodeAddr :: nodes, turns => do
    if (← getNode).connected nodeAddr then
      sendAppendEntriesTo nodes (← appendEntriesLoop nodeAddr turns true false)
    else
      modifyNode fun n => { n with serializer := n.serializer.cancelTransmisstion nodeAddr }
      sendAppendEntriesTo nodes turns

def sendAppendEntries : Act P U Unit := do
  let r : Turn P U ← get
  set { r with env := { r.env with periods := r.env.periods.tail } }
  sendAppendEntriesTo r.node.nodes (r.env.periods.headD 0)

/-! ## Leaders -/

def onLeaderChanged : Act P U Unit := do
  (← getNode).commandsWaitingReply.forM fun (_, k) => callFunction k none .leaderChanged
  modifyNode fun n => { n with commandsWaitingReply := [] }

def onBecomeLeader : Act P U Unit := do
  modifyNode fun n => { n with raftLeader := some n.selfNodeAddr, raftState := .leader }
  (← getNode).nodes.forM fun nodeAddr => do
    let next := (← getCurrentEntry).idx + 1
    modifyNode fun n => { n with
      raftNextIndex := Function.update n.raftNextIndex nodeAddr next
      raftMatchIndex := Function.update n.raftMatchIndex nodeAddr 0 }
  sendAppendEntries

/-- The election deadline has passed. -/
def startElection : Act P U Unit := do
  modifyNode fun n => { n with
    raftLeader := none
    raftState := .candidate
    raftCurrentTerm := n.raftCurrentTerm + 1
    votesCount := 1 }
  (← getNode).nodes.forM fun nodeAddr => do
    let last ← getCurrentEntry
    nodeSend nodeAddr (.requestVote (← getNode).raftCurrentTerm last.idx last.term)
  onLeaderChanged

/-! ## Commands -/

/-- `_applyCommand` -/
def applyCommand (command : P.Command) (callback : Callback U) : Act P U Unit := do
  let n ← getNode
  if 0 < n.conf.commandsQueueSize ∧ n.conf.commandsQueueSize ≤ n.commandsQueue.length then
    call callback none .queueFull
  else modifyNode fun n => { n with commandsQueue := n.commandsQueue ++ [(command, callback)] }

/-- A command that a leader takes from the queue. -/
def appendCommand (command : P.Command) (callback : Callback U) : Act P U Unit := do
  let idx := (← getCurrentEntry).idx + 1
  let term := (← getNode).raftCurrentTerm
  modifyNode fun n => { n with raftLog := n.raftLog ++ [⟨some command, idx, term⟩] }
  match callback with
  | .none => return
  | .function k => modifyNode fun n =>
      { n with commandsWaitingCommit := n.commandsWaitingCommit ++ [(idx, term, k)] }
  | .request node id => send node (.applyCommandResponse id (.ok (idx, term)))

/-- A command that any other node takes from the queue. -/
def passCommand (command : P.Command) (callback : Callback U) : Act P U Unit := do
  match (← getNode).raftLeader, callback with
  | _, .request node id => send node (.applyCommandResponse id (.error .notLeader))
  | some leader, .none => send leader (.applyCommand command none)
  | some leader, .function k =>
    modifyNode fun n => { n with
      commandsLocalCounter := n.commandsLocalCounter + 1
      commandsWaitingReply := n.commandsWaitingReply ++ [(n.commandsLocalCounter + 1, k)] }
    send leader (.applyCommand command (some (← getNode).commandsLocalCounter))
  | none, callback => call callback none .missingLeader

def takeCommand (command : P.Command) (callback : Callback U) : Act P U Unit := do
  let n ← getNode
  if n.raftState = .leader then
    appendCommand command callback
    if n.conf.appendEntriesUseBatch then return else sendAppendEntries
  else passCommand command callback

/-- `_checkCommandsToApply`, for so many commands. -/
def checkCommandsToApply : ℕ → Act P U Unit
  | 0 => return
  | i + 1 => do
    let n ← getNode
    if n.raftLeader.isNone && n.conf.commandsWaitLeader then return
    else
      match n.commandsQueue with
      | [] => return
      | (command, callback) :: queue =>
        modifyNode fun n => { n with commandsQueue := queue }
        takeCommand command callback
        checkCommandsToApply i

/-! ## Commit and application -/

/-- The loop that advances the commit index of a leader, for so many turns. -/
def advanceCommitIndex : ℕ → Act P U Unit
  | 0 => return
  | i + 1 => do
    let n ← getNode
    let next := n.raftCommitIndex + 1
    if (n.nodes.length + 1) / 2 < 1 + n.nodes.countP (next ≤ n.raftMatchIndex ·) then
      modifyNode fun n => { n with raftCommitIndex := next }
      advanceCommitIndex i
    else return

def doApplyCommand : Option P.Command → Act P U P.Result
  | none => throw .keyError
  | some command => do
    let n ← getNode
    modifyNode fun n => { n with data := (P.apply command n.data).2 }
    return (P.apply command n.data).1

def applyEntry (entry : Entry P.Command) : Act P U Unit := do
  let n ← getNode
  let subscribers := n.commandsWaitingCommit.filter (·.1 = entry.idx)
  modifyNode fun n =>
    { n with commandsWaitingCommit := n.commandsWaitingCommit.filter (·.1 ≠ entry.idx) }
  let result ← doApplyCommand entry.command
  subscribers.forM fun (_, term, k) =>
    if term = entry.term then callFunction k (some result) .success
    else callFunction k none .discarded
  modifyNode fun n => { n with raftLastApplied := n.raftLastApplied + 1 }

def applyCommitted : Act P U Unit := do
  let n ← getNode
  if n.raftLastApplied < n.raftCommitIndex then
    let entries ← getEntries (n.raftLastApplied + 1)
    (entries.take (n.raftCommitIndex - n.raftLastApplied)).forM applyEntry
  else return

/-! ## Snapshots -/

/-- `__tryLogCompaction`, where `logCompactionMinTime` has passed or not. -/
def tryLogCompaction (compactionDue : Bool) : Act P U Unit := do
  let n ← getNode
  match n.serializer.checkSerializing with
  | (some id, serializer) =>
    modifyNode fun n => { n with serializer }
    deleteEntriesTo id
  | (none, _) =>
    if n.raftLog.length ≤ n.conf.logCompactionMinEntries && !compactionDue && !n.forceLogCompaction
    then return
    else
      modifyNode fun n => { n with forceLogCompaction := false }
      match (← getEntries (n.raftLastApplied - 1)).take 2 with
      | [] => return
      | [_] => throw .indexError
      | before :: last :: _ =>
        modifyNode fun n => { n with
          serializer := n.serializer.serialize (P.pickle.dumps (n.data, last, before)) last.idx }
        recordDump (.taken n.raftCurrentTerm (P.pickle.dumps (n.data, last, before)))

/-- `__loadDumpFile`, which leaves all as it is where the data cannot be loaded. -/
def loadDumpFile : Act P U Unit := do
  let n ← getNode
  match n.serializer.inMemorySerializedData with
  | none => return
  | some bytes =>
    match P.pickle.loads bytes with
    | none => return
    | some (data, last, before) =>
      modifyNode fun n => { n with data, raftLog := [before, last], raftLastApplied := last.idx }
      recordDump (.loaded n.raftCurrentTerm bytes)

/-! ## `_onTick` -/

/-- Which timers are due. -/
structure Clock where
  election : Bool
  appendEntries : Bool
  compaction : Bool

/-- The leader's part of a tick. -/
def tickLeader (clock : Clock) : Act P U Unit := do
  advanceCommitIndex ((← getCurrentEntry).idx - (← getNode).raftCommitIndex)
  if clock.appendEntries then sendAppendEntries else return

/-- `_onTick`, up to `poll`. -/
def onTick (clock : Clock) : Act P U Unit := do
  onlyIf ((← getNode).raftState ≠ .leader ∧ clock.election) startElection
  onlyIf ((← getNode).raftState = .leader) (tickLeader clock)
  applyCommitted
  checkCommandsToApply (← getNode).conf.maxCommandsPerTick
  tryLogCompaction clock.compaction

/-! ## `_onMessageReceived` -/

def onRequestVote (nodeAddr : U) (term lastLogIndex lastLogTerm : ℕ) : Act P U Unit := do
  let n ← getNode
  onlyIf (n.raftCurrentTerm < term) do
    modifyNode fun n => { n with raftCurrentTerm := term, raftState := .follower }
  let n ← getNode
  if n.raftState ≠ .leader ∧ n.raftCurrentTerm ≤ term then
    let last ← getCurrentEntry
    if lastLogTerm < last.term ∨ lastLogTerm = last.term ∧ lastLogIndex < last.idx then return
    else send nodeAddr (.responseVote term)
  else return

/-- What every accepted `append_entries` message begins with. -/
def followLeader (nodeAddr : U) (term : ℕ) : Act P U Unit := do
  onlyIf ((← getNode).raftLeader ≠ some nodeAddr) onLeaderChanged
  modifyNode fun n =>
    { n with raftLeader := some nodeAddr, raftCurrentTerm := term, raftState := .follower }

/-- What an `append_entries` message ends with where it was of use. -/
def acknowledge (nodeAddr : U) (leaderCommitIndex : ℕ) : Act P U Unit := do
  sendNextNodeIdx nodeAddr false
  let last ← getCurrentEntry
  modifyNode fun n => { n with raftCommitIndex := min leaderCommitIndex last.idx }

def onAppendEntries (nodeAddr : U) (term commitIndex : ℕ) (entries : List (Entry P.Command))
    (prev : Option (ℕ × ℕ)) : Act P U Unit := do
  if (← getNode).raftCurrentTerm ≤ term then
    followLeader nodeAddr term
    match prev with
    | none =>
      -- `None` is less than every number
      let _ ← orRaise .indexError (← getNode).raftLog.head?
      sendNextNodeIdx nodeAddr true
    | some (prevLogIdx, prevLogTerm) =>
      match ← getEntries prevLogIdx with
      | [] => sendNextNodeIdx nodeAddr true
      | prevEntry :: after =>
        if prevEntry.term ≠ prevLogTerm then
          deleteEntriesFrom prevLogIdx
          sendNextNodeIdx nodeAddr true
        else
          onlyIf (0 < after.length) (deleteEntriesFrom (prevLogIdx + 1))
          modifyNode fun n => { n with raftLog := n.raftLog ++ entries }
          acknowledge nodeAddr commitIndex
  else return

def onAppendSerialized (nodeAddr : U) (term commitIndex : ℕ)
    (serialized : Option (Batch P.Byte)) : Act P U Unit := do
  if (← getNode).raftCurrentTerm ≤ term then
    followLeader nodeAddr term
    match serialized with
    -- `serialized` is `None` as in a message without it, but here `prevLogIdx` is missing
    | none => throw .keyError
    | some batch =>
      let (complete, serializer) := (← getNode).serializer.setTransmissionData (some batch)
      modifyNode fun n => { n with serializer }
      onlyIf complete loadDumpFile
      acknowledge nodeAddr commitIndex
  else return

def onApplyCommandResponse (requestId : ℕ) (result : Except FailReason (ℕ × ℕ)) :
    Act P U Unit := do
  match (← getNode).commandsWaitingReply.find? (·.1 = requestId) with
  | none => return
  | some (_, k) =>
    modifyNode fun n =>
      { n with commandsWaitingReply := n.commandsWaitingReply.eraseP (·.1 = requestId) }
    match result with
    | .error e => callFunction k none e
    | .ok (idx, term) =>
      if (← getNode).raftLastApplied < idx then
        modifyNode fun n =>
          { n with commandsWaitingCommit := n.commandsWaitingCommit ++ [(idx, term, k)] }
      else throw .assertionError

def onResponseVote (term : ℕ) : Act P U Unit := do
  let n ← getNode
  if n.raftState = .candidate ∧ term = n.raftCurrentTerm then
    modifyNode fun n => { n with votesCount := n.votesCount + 1 }
    if (n.nodes.length + 1) / 2 < n.votesCount + 1 then onBecomeLeader else return
  else return

def onNextNodeIdx (nodeAddr : U) (nextNodeIdx : ℕ) (reset : Bool) : Act P U Unit := do
  if (← getNode).raftState = .leader then
    modifyNode fun n => { n with
      raftNextIndex :=
        if reset then Function.update n.raftNextIndex nodeAddr nextNodeIdx else n.raftNextIndex
      raftMatchIndex := Function.update n.raftMatchIndex nodeAddr (nextNodeIdx - 1) }
  else return

/-- `_onMessageReceived` -/
def onMessageReceived (nodeAddr : U) : Message P → Act P U Unit
  | .requestVote term lastLogIndex lastLogTerm =>
    onRequestVote nodeAddr term lastLogIndex lastLogTerm
  | .responseVote term => onResponseVote term
  | .appendEntries term commitIndex entries prev =>
    onAppendEntries nodeAddr term commitIndex entries prev
  | .appendSerialized term commitIndex serialized =>
    onAppendSerialized nodeAddr term commitIndex serialized
  | .applyCommand command none => applyCommand command .none
  | .applyCommand command (some requestId) => applyCommand command (.request nodeAddr requestId)
  | .applyCommandResponse requestId result => onApplyCommandResponse requestId result
  | .nextNodeIdx nextNodeIdx reset => onNextNodeIdx nodeAddr nextNodeIdx reset

end Links

/-! ## Events -/

/-- An event of the tick thread. -/
inductive Event (P : Replicated) (U : Type)
  | tick (clock : Clock)
  | receive (nodeAddr : U) (message : Message P)
  /-- a connection to a node is there, or found broken -/
  | link (nodeAddr : U) (connected : Bool)
  /-- the listening socket failed, and `__initInTickThread` has bound it again -/
  | rebind
  | forceLogCompaction

variable [DecidableEq U]

def handle : Event P U → Act P U Unit
  | .tick clock => onTick clock
  | .receive nodeAddr message => onMessageReceived nodeAddr message
  | .link nodeAddr connected => modifyNode fun n =>
      { n with connected := Function.update n.connected nodeAddr connected }
  | .rebind => modifyNode fun n => { n with
      connected := fun _ => false, raftNextIndex := fun _ => 0, raftMatchIndex := fun _ => 0 }
  | .forceLogCompaction => modifyNode fun n => { n with forceLogCompaction := true }

/-- An exception ends the thread. -/
def SyncObj.step (n : SyncObj P U) (e : Event P U) (env : Environment) : Turn P U :=
  match handle e ⟨n, [], [], [], env⟩ with
  | .ok _ r => r
  | .error _ r => { r with node := { r.node with halted := true } }

omit [DecidableEq U] in
/-- A client calls a replicated method, in its own thread, where an exception stays. -/
def SyncObj.submit (n : SyncObj P U) (command : P.Command) (function : Option ℕ)
    (env : Environment) : Turn P U :=
  match applyCommand command (function.elim .none .function) ⟨n, [], [], [], env⟩ with
  | .ok _ r => r
  | .error _ r => r

end Pysyncobj
