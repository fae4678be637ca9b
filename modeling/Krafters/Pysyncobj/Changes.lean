import Krafters.Pysyncobj.SyncObj
import Mathlib.Data.List.Sublists
import Mathlib.Logic.Relation

/-!
# What an event does to a node, one change at a time

`Change e r r'`: in the course of event `e` of node `n`, the turn goes from `r` to `r'` by
assignments that belong together, with what they send and whom they call.  An exception may
leave a change half done: `Interrupted r r'`.  So an event ends in

    r  →  …  →  r'        or        r  →  …  →  r''  with  Interrupted r'' r'

(`Ends`), and an invariant of runs needs one case per constructor.
-/

namespace Pysyncobj

open Hoare

variable {P : Replicated} {U : Type}

/-! ## Algorithm -/

/-- What the leader that appended a command tells whoever asked for it, or any other node. -/
def Callback.answers (callback : Callback U) (result : Except FailReason (ℕ × ℕ)) :
    List (U × Message P) :=
  match callback with
  | .request node id => [(node, .applyCommandResponse id result)]
  | _ => []

def Callback.toFunction : Callback U → Option ℕ
  | .function k => some k
  | _ => Option.none

@[simp] theorem Callback.toFunction_none : (Callback.none : Callback U).toFunction = Option.none :=
  rfl

@[simp] theorem Callback.toFunction_function (k : ℕ) :
    (Callback.function k : Callback U).toFunction = some k := rfl

@[simp] theorem Callback.toFunction_request (w : U) (id : ℕ) :
    (Callback.request w id).toFunction = Option.none := rfl

/-- The function that waits for the commit of an entry. -/
def Callback.waits (callback : Callback U) (idx term : ℕ) : List (ℕ × ℕ × ℕ) :=
  match callback with
  | .function k => [(idx, term, k)]
  | _ => []

/-- What a message puts into the commands queue. -/
inductive Event.Enqueues : Event P U → P.Command → Callback U → Prop
  | request (w : U) (command : P.Command) (id : ℕ) :
      Enqueues (.receive w (.applyCommand command (some id))) command (.request w id)
  | forward (w : U) (command : P.Command) :
      Enqueues (.receive w (.applyCommand command none)) command .none

/-- A message of a leader. -/
inductive Event.Leads : Event P U → U → ℕ → Prop
  | entries (w : U) (term commitIndex : ℕ) (entries : List (Entry P.Command))
      (prev : Option (ℕ × ℕ)) :
      Leads (.receive w (.appendEntries term commitIndex entries prev)) w term
  | serialized (w : U) (term commitIndex : ℕ) (serialized : Option (Batch P.Byte)) :
      Leads (.receive w (.appendSerialized term commitIndex serialized)) w term

/-- The next entry to apply, and its command. -/
def SyncObj.Next (n : SyncObj P U) (entry : Entry P.Command) (command : P.Command) : Prop :=
  (∃ rest, SyncObj.entriesFrom n.raftLog (n.raftLastApplied + 1) = some (entry :: rest)) ∧
    entry.command = some command

/-- What a function that waits for the entry is told. -/
def Entry.reply (entry : Entry P.Command) (result : P.Result) (s : ℕ × ℕ × ℕ) : Call P :=
  if s.2.1 = entry.term then ⟨s.2.2, some result, .success⟩ else ⟨s.2.2, none, .discarded⟩

/-- The calls when an entry is applied. -/
def SyncObj.replies (n : SyncObj P U) (entry : Entry P.Command) (result : P.Result) :
    List (Call P) :=
  (n.commandsWaitingCommit.filter (·.1 = entry.idx)).map (entry.reply result)

/-- Entries of the log, behind the one that `prev` tells. -/
structure SyncObj.Reports (n : SyncObj P U) (entries : List (Entry P.Command))
    (prev : Option (ℕ × ℕ)) : Prop where
  leader : n.raftState = .leader
  log : ∃ before after, n.raftLog = before ++ entries ++ after ∧
    ∀ i t, prev = some (i, t) → ∃ first last, n.raftLog.head? = some first ∧
      before.getLast? = some last ∧ last.term = t ∧ i + 1 = first.idx + before.length

/-- What comes of an event at once, and at most once. -/
inductive Opening (e : Event P U) : Turn P U → Turn P U → Prop
  | enqueue {r} {command : P.Command} {callback : Callback U} (he : e.Enqueues command callback) :
      Opening e r { r with node := { r.node with
        commandsQueue := r.node.commandsQueue ++ [(command, callback)] } }
  /-- the answer to a candidate, whose term may be a newer one -/
  | vote {r} {w : U} {term lastLogIndex lastLogTerm : ℕ} {sent : List (U × Message P)}
      (he : e = .receive w (.requestVote term lastLogIndex lastLogTerm))
      (hs : sent.Sublist [(w, .responseVote term)]) :
      Opening e r { r with
        node := if r.node.raftCurrentTerm < term
          then { r.node with raftCurrentTerm := term, raftState := .follower } else r.node
        sent := r.sent ++ sent }
  | count {r} {w : U} {term : ℕ} (he : e = .receive w (.responseVote term))
      (hc : r.node.raftState = .candidate) (ht : term = r.node.raftCurrentTerm) :
      Opening e r { r with node := { r.node with votesCount := r.node.votesCount + 1 } }

variable [DecidableEq U]

inductive Change (e : Event P U) : Turn P U → Turn P U → Prop
  /-- connections, the leader's indices, the commit index, a flag -/
  | quiet {r} (connected : U → Bool) (next matched : U → ℕ) (commitIndex : ℕ) (force : Bool)
      (env : Environment) :
      Change e r { r with
        node := { r.node with
          connected := connected, raftNextIndex := next, raftMatchIndex := matched,
          raftCommitIndex := commitIndex, forceLogCompaction := force }
        env := env }
  /-- an election starts -/
  | campaign {r} {sent : List (U × Message P)} (lastLogIndex lastLogTerm : ℕ)
      (h : sent.Sublist (r.node.nodes.map fun addr =>
        (addr, .requestVote (r.node.raftCurrentTerm + 1) lastLogIndex lastLogTerm))) :
      Change e r { r with
        node := { r.node with
          raftLeader := none, raftState := .candidate,
          raftCurrentTerm := r.node.raftCurrentTerm + 1, votesCount := 1 }
        sent := r.sent ++ sent }
  | leaderChanged {r} :
      Change e r { r with
        node := { r.node with commandsWaitingReply := [] }
        calls := r.calls ++ r.node.commandsWaitingReply.map fun s => ⟨s.2, none, .leaderChanged⟩ }
  /-- a leader appends a command -/
  | append {r} {command : P.Command} {callback : Callback U}
      {queue : List (P.Command × Callback U)} {last : Entry P.Command}
      {sent : List (U × Message P)} (hl : r.node.raftState = .leader)
      (hq : r.node.commandsQueue = (command, callback) :: queue)
      (hlast : r.node.raftLog.getLast? = some last)
      (hs : sent.Sublist (callback.answers (.ok (last.idx + 1, r.node.raftCurrentTerm)))) :
      Change e r { r with
        node := { r.node with
          commandsQueue := queue
          raftLog := r.node.raftLog ++ [⟨some command, last.idx + 1, r.node.raftCurrentTerm⟩]
          commandsWaitingCommit := r.node.commandsWaitingCommit ++
            callback.waits (last.idx + 1) r.node.raftCurrentTerm }
        sent := r.sent ++ sent }
  /-- a command goes to the leader, and its function waits for a reply -/
  | forward {r} {command : P.Command} {k : ℕ} {queue : List (P.Command × Callback U)}
      {sent : List (U × Message P)} (leader : U)
      (hq : r.node.commandsQueue = (command, .function k) :: queue)
      (hs : sent.Sublist
        [(leader, .applyCommand command (some (r.node.commandsLocalCounter + 1)))]) :
      Change e r { r with
        node := { r.node with
          commandsQueue := queue
          commandsLocalCounter := r.node.commandsLocalCounter + 1
          commandsWaitingReply :=
            r.node.commandsWaitingReply ++ [(r.node.commandsLocalCounter + 1, k)] }
        sent := r.sent ++ sent }
  | forwardQuietly {r} {command : P.Command} {queue : List (P.Command × Callback U)}
      {sent : List (U × Message P)} (leader : U)
      (hq : r.node.commandsQueue = (command, .none) :: queue)
      (hs : sent.Sublist [(leader, .applyCommand command none)]) :
      Change e r { r with
        node := { r.node with commandsQueue := queue }, sent := r.sent ++ sent }
  | refuse {r} {command : P.Command} {w : U} {id : ℕ} {queue : List (P.Command × Callback U)}
      {sent : List (U × Message P)}
      (hq : r.node.commandsQueue = (command, .request w id) :: queue)
      (hs : sent.Sublist [(w, .applyCommandResponse id (.error .notLeader))]) :
      Change e r { r with
        node := { r.node with commandsQueue := queue }, sent := r.sent ++ sent }
  | missingLeader {r} {command : P.Command} {k : ℕ} {queue : List (P.Command × Callback U)}
      (env : Environment) (hq : r.node.commandsQueue = (command, .function k) :: queue) :
      Change e r { r with
        node := { r.node with commandsQueue := queue }
        calls := r.calls ++ [⟨k, none, .missingLeader⟩]
        env := env }
  | apply {r} {entry : Entry P.Command} {command : P.Command} (env : Environment)
      (h : r.node.Next entry command) :
      Change e r { r with
        node := { r.node with
          commandsWaitingCommit := r.node.commandsWaitingCommit.filter (·.1 ≠ entry.idx)
          data := (P.apply command r.node.data).2
          raftLastApplied := r.node.raftLastApplied + 1 }
        calls := r.calls ++ r.node.replies entry (P.apply command r.node.data).1
        env := env }
  /-- the end of the log is cut off -/
  | take {r} (k : ℕ) (hf : r.node.raftState = .follower) :
      Change e r { r with node := { r.node with raftLog := r.node.raftLog.take k } }
  /-- the begin of the log is cut off -/
  | drop {r} (k : ℕ) :
      Change e r { r with node := { r.node with raftLog := r.node.raftLog.drop k } }
  | checked {r} :
      Change e r { r with node := { r.node with
        serializer := r.node.serializer.checkSerializing.2 } }
  | serialize {r} {before last : Entry P.Command} {rest : List (Entry P.Command)}
      (h : SyncObj.entriesFrom r.node.raftLog (r.node.raftLastApplied - 1) =
        some (before :: last :: rest)) :
      Change e r { r with
        node := { r.node with
          serializer := r.node.serializer.serialize
            (P.pickle.dumps (r.node.data, last, before)) last.idx }
        dumps := r.dumps ++
          [.taken r.node.raftCurrentTerm (P.pickle.dumps (r.node.data, last, before))] }
  | cancel {r} (addr : U) :
      Change e r { r with node := { r.node with
        serializer := r.node.serializer.cancelTransmisstion addr } }
  /-- a leader sends entries -/
  | entries {r} {entries : List (Entry P.Command)} {prev : Option (ℕ × ℕ)} {addr : U}
      (ha : addr ∈ r.node.nodes) (h : r.node.Reports entries prev) :
      Change e r { r with sent := r.sent ++
        [(addr, .appendEntries r.node.raftCurrentTerm r.node.raftCommitIndex entries prev)] }
  /-- a leader sends a batch of a snapshot -/
  | batch {r} {sent : List (U × Message P)} {addr : U} (ha : addr ∈ r.node.nodes)
      (hl : r.node.raftState = .leader)
      (hs : sent.Sublist [(addr, .appendSerialized r.node.raftCurrentTerm r.node.raftCommitIndex
        (r.node.serializer.getTransmissionData addr).1)]) :
      Change e r { r with
        node := { r.node with serializer := (r.node.serializer.getTransmissionData addr).2 }
        sent := r.sent ++ sent }
  | follow {r} {w : U} {term : ℕ} (he : e.Leads w term) (hle : r.node.raftCurrentTerm ≤ term) :
      Change e r { r with node := { r.node with
        raftLeader := some w, raftCurrentTerm := term, raftState := .follower } }
  /-- entries of the leader behind one that the node has -/
  | accept {r} {w : U} {commitIndex i t : ℕ} {x : Entry P.Command}
      {entries before after : List (Entry P.Command)}
      (he : e = .receive w (.appendEntries r.node.raftCurrentTerm commitIndex entries (some (i, t))))
      (hl : r.node.raftState = .follower) (hlog : r.node.raftLog = before ++ x :: after)
      (hpos : ∀ first, r.node.raftLog.head? = some first → i = first.idx + before.length)
      (ht : x.term = t) :
      Change e r { r with node := { r.node with raftLog := before ++ [x] ++ entries } }
  | install {r} {w : U} {commitIndex : ℕ} {batch : Batch P.Byte}
      (he : e = .receive w (.appendSerialized r.node.raftCurrentTerm commitIndex (some batch))) :
      Change e r { r with node := { r.node with
        serializer := (r.node.serializer.setTransmissionData (some batch)).2 } }
  | load {r} {data : P.Data} {last before : Entry P.Command} {bytes : List P.Byte}
      (hl : r.node.raftState = .follower) (h : P.pickle.loads bytes = some (data, last, before)) :
      Change e r { r with
        node := { r.node with
          data := data, raftLog := [before, last], raftLastApplied := last.idx }
        dumps := r.dumps ++ [.loaded r.node.raftCurrentTerm bytes] }
  | acknowledge {r} (addr : U) (nextNodeIdx : ℕ) (reset : Bool) :
      Change e r { r with sent := r.sent ++ [(addr, .nextNodeIdx nextNodeIdx reset)] }
  /-- the function gets the error of the reply -/
  | replied {r} {w : U} {id k : ℕ} {reason : FailReason} (env : Environment)
      (he : e = .receive w (.applyCommandResponse id (.error reason)))
      (h : r.node.commandsWaitingReply.find? (·.1 = id) = some (id, k)) :
      Change e r { r with
        node := { r.node with
          commandsWaitingReply := r.node.commandsWaitingReply.eraseP (·.1 = id) }
        calls := r.calls ++ [⟨k, none, reason⟩]
        env := env }
  /-- the command is in the leader's log, and its function waits for the commit -/
  | appended {r} {w : U} {id k idx term : ℕ}
      (he : e = .receive w (.applyCommandResponse id (.ok (idx, term))))
      (h : r.node.commandsWaitingReply.find? (·.1 = id) = some (id, k)) :
      Change e r { r with node := { r.node with
        commandsWaitingReply := r.node.commandsWaitingReply.eraseP (·.1 = id)
        commandsWaitingCommit := r.node.commandsWaitingCommit ++ [(idx, term, k)] } }
  | elect {r} (hc : r.node.raftState = .candidate)
      (hv : (r.node.nodes.length + 1) / 2 < r.node.votesCount) :
      Change e r { r with node := { r.node with
        raftLeader := some r.node.selfNodeAddr, raftState := .leader } }

/-- A message of a node, and what the node had when it was sent. -/
inductive SyncObj.Sends (n : SyncObj P U) : U × Message P → Prop
  | vote (w : U) (i t : ℕ) (hw : w ∈ n.nodes) :
      Sends n (w, .requestVote (n.raftCurrentTerm + 1) i t)
  | entries {w : U} {entries : List (Entry P.Command)} {prev : Option (ℕ × ℕ)} (hw : w ∈ n.nodes)
      (h : n.Reports entries prev) :
      Sends n (w, .appendEntries n.raftCurrentTerm n.raftCommitIndex entries prev)
  | batch {w : U} (hw : w ∈ n.nodes) (hl : n.raftState = .leader) :
      Sends n (w, .appendSerialized n.raftCurrentTerm n.raftCommitIndex
        (n.serializer.getTransmissionData w).1)
  | command {command : P.Command} {k : ℕ} {queue : List (P.Command × Callback U)} (w : U)
      (hq : n.commandsQueue = (command, .function k) :: queue) :
      Sends n (w, .applyCommand command (some (n.commandsLocalCounter + 1)))
  | quietly {command : P.Command} {queue : List (P.Command × Callback U)} (w : U)
      (hq : n.commandsQueue = (command, .none) :: queue) :
      Sends n (w, .applyCommand command none)
  | refuse {command : P.Command} {w : U} {id : ℕ} {queue : List (P.Command × Callback U)}
      (hq : n.commandsQueue = (command, .request w id) :: queue) :
      Sends n (w, .applyCommandResponse id (.error .notLeader))
  | appended {command : P.Command} {w : U} {id : ℕ} {queue : List (P.Command × Callback U)}
      {last : Entry P.Command} (hl : n.raftState = .leader)
      (hq : n.commandsQueue = (command, .request w id) :: queue)
      (hlast : n.raftLog.getLast? = some last) :
      Sends n (w, .applyCommandResponse id (.ok (last.idx + 1, n.raftCurrentTerm)))
  | next (w : U) (nextNodeIdx : ℕ) (reset : Bool) : Sends n (w, .nextNodeIdx nextNodeIdx reset)

/-- What an event has come to: changes, perhaps after an opening one. -/
def Reached (e : Event P U) (r r' : Turn P U) : Prop :=
  ∃ r₁, (r₁ = r ∨ Opening e r r₁) ∧ Relation.ReflTransGen (Change e) r₁ r'

/-- The functions that the node has still to call. -/
def SyncObj.pending (n : SyncObj P U) : List ℕ :=
  n.commandsQueue.filterMap (·.2.toFunction) ++ n.commandsWaitingReply.map (·.2) ++
    n.commandsWaitingCommit.map (·.2.2)

/-- Reasons for a command that no leader has made an entry of. -/
def FailReason.refuses : FailReason → Bool
  | .queueFull | .missingLeader | .notLeader => true
  | .success | .discarded | .leaderChanged => false

/-- A call with a result comes from the entry that is applied. -/
def SyncObj.Explains (n : SyncObj P U) (c : Call P) : Prop :=
  c.reason = .success → ∃ entry command, n.Next entry command ∧
    (entry.idx, entry.term, c.function) ∈ n.commandsWaitingCommit ∧
    c.result = some (P.apply command n.data).1

/-- What a change that an exception breaks off may have done. -/
structure Interrupted (r r' : Turn P U) : Prop where
  node : ∃ queue waitingCommit waitingReply data,
    r'.node = { r.node with
      commandsQueue := queue, commandsWaitingCommit := waitingCommit,
      commandsWaitingReply := waitingReply, data := data } ∧
    queue <:+ r.node.commandsQueue ∧
    (data = r.node.data ∨
      ∃ entry command, r.node.Next entry command ∧ data = (P.apply command r.node.data).2)
  sent : r'.sent = r.sent
  dumps : r'.dumps = r.dumps
  calls : ∃ calls, r'.calls = r.calls ++ calls ∧
    (calls.map Call.function).Subperm r.node.pending ∧
    ∀ c ∈ calls, r.node.Explains c ∧ c.reason.refuses = false

/-- Where an exception ends an event. -/
def Stopped (e : Event P U) (r r' : Turn P U) : Prop :=
  ∃ r'', Reached e r r'' ∧ Interrupted r'' r'

/-- How an event of the tick thread ends: after changes, or broken off in the course of one. -/
inductive Ends (e : Event P U) (r : Turn P U) : Turn P U → Prop
  | done {r'} (h : Reached e r r') : Ends e r r'
  | halted {r'} (h : Stopped e r r') :
      Ends e r { r' with node := { r'.node with halted := true } }

/-! ## Lemmas -/

omit [DecidableEq U] in
theorem Interrupted.refl (r : Turn P U) : Interrupted r r where
  node := ⟨_, _, _, _, rfl, List.suffix_rfl, .inl rfl⟩
  sent := rfl
  dumps := rfl
  calls := ⟨[], (List.append_nil _).symm, List.nil_subperm, fun _ h => nomatch h⟩

variable {n n' : SyncObj P U} {e : Event P U} {r₀ r r' : Turn P U}

theorem Reached.refl (e : Event P U) (r : Turn P U) : Reached e r r := ⟨r, .inl rfl, .refl⟩

theorem Opening.reached (h : Opening e r r') : Reached e r r' := ⟨r', .inr h, .refl⟩

theorem Reached.next (h : Reached e r₀ r) (hc : Change e r r') : Reached e r₀ r' := by
  obtain ⟨r₁, hr, h⟩ := h
  exact ⟨r₁, hr, h.tail hc⟩

theorem Reached.stopped (h : Reached e r₀ r) : Stopped e r₀ r := ⟨r, h, .refl r⟩

/-- What a node never changes. -/
theorem Change.keeps (h : Change e r r') : r'.node.nodes = r.node.nodes ∧
    r'.node.selfNodeAddr = r.node.selfNodeAddr ∧ r'.node.halted = r.node.halted := by
  cases h <;> exact ⟨rfl, rfl, rfl⟩

omit [DecidableEq U] in
theorem Opening.keeps (h : Opening e r r') : r'.node.nodes = r.node.nodes ∧
    r'.node.selfNodeAddr = r.node.selfNodeAddr ∧ r'.node.halted = r.node.halted := by
  cases h with
  | vote he hs =>
    dsimp only
    split <;> exact ⟨rfl, rfl, rfl⟩
  | _ => exact ⟨rfl, rfl, rfl⟩

omit [DecidableEq U] in
theorem Interrupted.keeps (h : Interrupted r r') : r'.node.nodes = r.node.nodes ∧
    r'.node.selfNodeAddr = r.node.selfNodeAddr ∧ r'.node.halted = r.node.halted := by
  obtain ⟨_, _, _, _, heq, -⟩ := h.node
  rw [heq]
  exact ⟨rfl, rfl, rfl⟩

theorem Change.term_le (h : Change e r r') :
    r.node.raftCurrentTerm ≤ r'.node.raftCurrentTerm := by
  cases h with
  | campaign i t hs => exact Nat.le_succ _
  | follow he hle => exact hle
  | _ => exact le_rfl

theorem Change.sends {env : Environment} (h : Change e ⟨n, [], [], [], env⟩ r) :
    ∀ m ∈ r.sent, n.Sends m := by
  have sublist {m : U × Message P} {sent : List (U × Message P)} (hm : n.Sends m)
      (hs : sent.Sublist [m]) : ∀ m ∈ [] ++ sent, n.Sends m := by
    intro m' hm'
    rwa [List.mem_singleton.mp (hs.subset hm')]
  cases h with
  | campaign i t hs =>
    intro m hm
    obtain ⟨w, hw, rfl⟩ := List.mem_map.mp (hs.subset hm)
    exact .vote w i t hw
  | append hl hq hlast hs =>
    intro m hm
    cases ‹Callback U› with
    | request w id => exact sublist (.appended hl hq hlast) hs m hm
    | _ => cases hs.subset hm
  | forward leader hq hs => exact sublist (.command leader hq) hs
  | forwardQuietly leader hq hs => exact sublist (.quietly leader hq) hs
  | refuse hq hs => exact sublist (.refuse hq) hs
  | batch ha hl hs => exact sublist (.batch ha hl) hs
  | entries ha h => exact sublist (.entries ha h) (.refl _)
  | acknowledge addr next reset => exact sublist (.next addr next reset) (.refl _)
  | _ => exact fun m hm => nomatch hm

theorem Reached.nodes (h : Reached e r r') : r'.node.nodes = r.node.nodes := by
  obtain ⟨r₁, hr, h⟩ := h
  have hr : r₁.node.nodes = r.node.nodes := by
    rcases hr with rfl | ho
    · rfl
    · exact ho.keeps.1
  induction h with
  | refl => exact hr
  | tail _ hc ih => exact hc.keeps.1.trans ih

/-- A change of connections and of what the outside decides. -/
theorem Reached.links (h : Reached e r₀ r) (connected : U → Bool) (env : Environment) :
    Reached e r₀ { r with node := { r.node with connected }, env } :=
  h.next (.quiet connected r.node.raftNextIndex r.node.raftMatchIndex r.node.raftCommitIndex
    r.node.forceLogCompaction env)

section Rules

variable {α : Type} {A : Turn P U → Prop} {Q : α → Turn P U → Prop} {E : Turn P U → Prop}

omit [DecidableEq U] in
theorem triple_getNode {f : SyncObj P U → Act P U α}
    (h : ∀ n, Triple (fun r => A r ∧ r.node = n) (f n) Q E) : Triple A (getNode >>= f) Q E :=
  fun r hr => h r.node r ⟨hr, rfl⟩

omit [DecidableEq U] in
theorem triple_modifyNode {f : SyncObj P U → SyncObj P U} {Q : Unit → Turn P U → Prop}
    (h : ∀ r, A r → Q () { r with node := f r.node }) : Triple A (modifyNode f) Q E := h

omit [DecidableEq U] in
theorem triple_recordDump {d : Dump P.Byte} {Q : Unit → Turn P U → Prop}
    (h : ∀ r, A r → Q () { r with dumps := r.dumps ++ [d] }) : Triple A (recordDump d) Q E := h

omit [DecidableEq U] in
theorem triple_orRaise {error : SyncError} {o : Option α}
    (hok : ∀ r a, A r → o = some a → Q a r) (herr : ∀ r, A r → o = none → E r) :
    Triple A (orRaise error o) Q E := by
  cases o with
  | some a => exact Triple.pure a fun r h => hok r a h rfl
  | none => exact Triple.throw _ fun r h => herr r h rfl

omit [DecidableEq U] in
theorem triple_onlyIf {c : Prop} [Decidable c] {m : Act P U Unit} {Q : Unit → Turn P U → Prop}
    (ht : c → Triple A m Q E) (hf : ¬ c → ∀ r, A r → Q () r) : Triple A (onlyIf c m) Q E :=
  Triple.ite ht fun h => Triple.pure () (hf h)

omit [DecidableEq U] in
theorem triple_callFunction {k : ℕ} {result : Option P.Result} {reason : FailReason}
    {Q : Unit → Turn P U → Prop}
    (hok : ∀ r env, A r → Q () { r with calls := r.calls ++ [⟨k, result, reason⟩], env })
    (herr : ∀ r env, A r → E { r with calls := r.calls ++ [⟨k, result, reason⟩], env }) :
    Triple A (callFunction k result reason) Q E := by
  intro r hr
  rcases r with ⟨node, sent, calls, dumps, links, periods, raises⟩
  rcases raises with - | ⟨_ | _, raises⟩
  · exact hok _ _ hr
  · exact hok _ _ hr
  · exact herr _ _ hr

/-- The message is sent, or there is no connection. -/
theorem triple_nodeSend {addr : U} {m : Message P} {Q : Unit → Turn P U → Prop}
    (h : ∀ r sent connected env, A r → sent.Sublist [(addr, m)] →
      Q () { r with node := { r.node with connected }, sent := r.sent ++ sent, env }) :
    Triple A (nodeSend addr m) Q E := by
  refine Triple.get fun r hr => Triple.ite (fun _ => ?_) fun _ => Triple.pure () ?_
  · rintro r rfl
    exact h r [(addr, m)] _ _ hr (List.Sublist.refl _)
  · rintro r rfl
    have := h r [] r.node.connected r.env hr (List.nil_sublist _)
    rwa [List.append_nil] at this

theorem triple_send {addr : U} {m : Message P} {Q : Unit → Turn P U → Prop}
    (h : ∀ r sent connected env, A r → sent.Sublist [(addr, m)] →
      Q () { r with node := { r.node with connected }, sent := r.sent ++ sent, env }) :
    Triple A (send addr m) Q E := by
  apply triple_getNode
  intro n
  apply Triple.ite
  · exact fun _ => triple_nodeSend fun r sent connected env hr => h r sent connected env hr.1
  · intro _
    apply Triple.pure
    rintro r ⟨hr, -⟩
    have := h r [] r.node.connected r.env hr (List.nil_sublist _)
    rwa [List.append_nil] at this

omit [DecidableEq U] in
theorem triple_getCurrentEntry {f : Entry P.Command → Act P U α}
    (h : ∀ last, Triple (fun r => A r ∧ r.node.raftLog.getLast? = some last) (f last) Q E)
    (herr : ∀ r, A r → E r) : Triple A (getCurrentEntry >>= f) Q E := by
  refine Triple.bind (triple_getNode fun n => triple_orRaise ?_ fun r hr _ => herr r hr.1) h
  rintro r last ⟨hr, rfl⟩ hlast
  exact ⟨hr, hlast⟩

omit [DecidableEq U] in
theorem triple_getEntries {i : ℕ} {f : List (Entry P.Command) → Act P U α}
    (h : ∀ l, Triple (fun r => A r ∧ SyncObj.entriesFrom r.node.raftLog i = some l) (f l) Q E)
    (herr : ∀ r, A r → E r) : Triple A (getEntries i >>= f) Q E := by
  refine Triple.bind (triple_getNode fun n => triple_orRaise ?_ fun r hr _ => herr r hr.1) h
  rintro r l ⟨hr, rfl⟩ hl
  exact ⟨hr, hl⟩

omit [DecidableEq U] in
/-- Calls one after the other, up to one that raises. -/
theorem triple_callAll {σ : Type} (l : List σ) (g : σ → Call P) (f : σ → Act P U Unit)
    (hf : ∀ s, f s = callFunction (g s).function (g s).result (g s).reason) (r : Turn P U) :
    Triple (fun r' => r' = r) (l.forM f)
      (fun _ r' => ∃ env, r' = { r with calls := r.calls ++ l.map g, env })
      (fun r' => ∃ l' env, l' <+: l ∧ r' = { r with calls := r.calls ++ l'.map g, env }) := by
  induction l generalizing r with
  | nil =>
    apply Triple.pure
    rintro _ rfl
    exact ⟨_, by rw [List.map_nil, List.append_nil]⟩
  | cons s l ih =>
    refine Triple.bind (R := fun _ r' => ∃ env, r' = { r with calls := r.calls ++ [g s], env })
      ?_ fun _ => ?_
    · rw [hf]
      apply triple_callFunction
      · rintro _ env rfl
        exact ⟨env, rfl⟩
      · rintro _ env rfl
        exact ⟨[s], env, ⟨l, rfl⟩, rfl⟩
    · rintro _ ⟨env, rfl⟩
      refine (ih { r with calls := r.calls ++ [g s], env }).conseq (fun _ h => h) ?_ ?_ _ rfl
      · rintro _ r' ⟨env', rfl⟩
        exact ⟨env', by rw [List.map_cons, List.append_assoc, List.singleton_append]⟩
      · rintro r' ⟨l', env', hl', rfl⟩
        exact ⟨s :: l', env', by rwa [List.prefix_cons_inj],
          by rw [List.map_cons, List.append_assoc, List.singleton_append]⟩

end Rules

section Log

variable {C : Type} {log rest : List (Entry C)} {first x : Entry C} {i : ℕ}

theorem SyncObj.entriesFrom_of_le (hfirst : log.head? = some first) (h : first.idx ≤ i) :
    SyncObj.entriesFrom log i = some (log.drop (i - first.idx)) := by
  obtain ⟨log, rfl⟩ := List.head?_eq_some_iff.mp hfirst
  exact if_neg (by omega)

/-- The entry at an index is looked up by its place in the log. -/
theorem SyncObj.entriesFrom_cons : SyncObj.entriesFrom log i = some (x :: rest) ↔
    ∃ first before, log.head? = some first ∧ log = before ++ x :: rest ∧
      i = first.idx + before.length := by
  constructor
  · intro h
    cases log with
    | nil => cases h
    | cons first log =>
      by_cases hlt : i < first.idx
      · rw [show SyncObj.entriesFrom (first :: log) i = some [] from if_pos hlt] at h
        cases h
      · rw [SyncObj.entriesFrom_of_le rfl (by omega), Option.some_inj] at h
        have hlen := congrArg List.length h
        simp only [List.length_drop, List.length_cons] at hlen
        refine ⟨first, (first :: log).take (i - first.idx), rfl, ?_, ?_⟩
        · rw [← h, List.take_append_drop]
        · rw [List.length_take, List.length_cons]
          omega
  · rintro ⟨first, before, hfirst, rfl, rfl⟩
    rw [SyncObj.entriesFrom_of_le hfirst (by omega), Nat.add_sub_cancel_left, List.drop_left]

theorem SyncObj.entriesFrom_succ (h : SyncObj.entriesFrom log i = some (x :: rest)) :
    SyncObj.entriesFrom log (i + 1) = some rest := by
  obtain ⟨first, before, hfirst, rfl, rfl⟩ := SyncObj.entriesFrom_cons.mp h
  rw [SyncObj.entriesFrom_of_le hfirst (by omega), Nat.add_assoc, Nat.add_sub_cancel_left,
    List.drop_append, List.drop_of_length_le (by omega), Nat.add_sub_cancel_left]
  rfl

end Log

end Pysyncobj
