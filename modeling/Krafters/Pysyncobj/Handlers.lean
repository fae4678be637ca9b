import Krafters.Pysyncobj.Changes

/-!
# The handlers of a node are sequences of changes

One lemma per method of `SyncObj`, from the last one called to `_onTick` and
`_onMessageReceived`, and `step_reached` for every event.
-/

namespace Pysyncobj

open Hoare

variable {P : Replicated} {U : Type} [DecidableEq U] {n n' : SyncObj P U} {e : Event P U}
  {r₀ r r' : Turn P U}

/-! ## Append entries -/

theorem sendNextNodeIdx_reached {w : U} {reset : Bool} :
    Triple (Reached e r₀) (sendNextNodeIdx w reset) (fun _ => Reached e r₀)
      (Stopped e r₀) := by
  refine triple_getCurrentEntry (fun last => triple_send ?_) fun r h => h.stopped
  rintro r sent connected env ⟨h, -⟩ hs
  rcases List.sublist_singleton.mp hs with rfl | rfl
  · rw [List.append_nil]
    exact h.links connected env
  · exact (h.next (.acknowledge w _ reset)).links connected env

theorem takeEntries_spec {addr : U} {next : ℕ} (r : Turn P U) :
    Triple (fun r' => r' = r) (takeEntries addr next)
      (fun entries r' => (∃ rest k, SyncObj.entriesFrom r.node.raftLog next = some rest ∧
          entries = rest.take k) ∧
        ∃ f, r' = { r with node := { r.node with raftNextIndex := f } })
      (fun r' => r' = r) := by
  refine triple_getCurrentEntry (fun last => Triple.ite (fun _ => ?_) fun _ => ?_) fun _ h => h
  · refine triple_getEntries (fun rest => triple_getNode fun n' => Triple.bind
      (R := fun _ r' => r' = r ∧ SyncObj.entriesFrom r.node.raftLog next = some rest)
      (triple_orRaise ?_ ?_) fun last' => Triple.bind (triple_modifyNode ?_) fun _ =>
        Triple.pure _ fun _ h => h) ?_
    · rintro _ _ ⟨⟨⟨rfl, -⟩, hrest⟩, -⟩ -
      exact ⟨rfl, hrest⟩
    · rintro _ ⟨⟨⟨rfl, -⟩, -⟩, -⟩ -
      rfl
    · rintro _ ⟨rfl, hrest⟩
      exact ⟨⟨rest, _, hrest, rfl⟩, _, rfl⟩
    · rintro _ ⟨rfl, -⟩
      rfl
  · apply Triple.pure
    rintro r ⟨rfl, hlast⟩
    refine ⟨?_, _, rfl⟩
    cases hlog : r.node.raftLog with
    | nil =>
      rw [hlog] at hlast
      cases hlast
    | cons first log =>
      unfold SyncObj.entriesFrom
      by_cases hlt : next < first.idx
      · exact ⟨[], 0, if_pos hlt, rfl⟩
      · exact ⟨_, 0, if_neg hlt, rfl⟩

omit [DecidableEq U] in
theorem getPrevLogIndexTerm_spec {next : ℕ} (r : Turn P U) :
    Triple (fun r' => r' = r) (getPrevLogIndexTerm next)
      (fun prev r' => r' = r ∧ ∀ i t, prev = some (i, t) → next = i + 1 ∧ ∃ last rest,
        SyncObj.entriesFrom r.node.raftLog i = some (last :: rest) ∧ last.term = t)
      (fun r' => r' = r) := by
  cases next with
  | zero =>
    apply Triple.pure
    rintro _ rfl
    exact ⟨rfl, fun i t h => nomatch h⟩
  | succ i =>
    refine triple_getEntries (fun l => Triple.pure _ ?_) fun _ h => h
    rintro _ ⟨rfl, hl⟩
    refine ⟨rfl, fun j t h => ?_⟩
    cases l with
    | nil => cases h
    | cons last rest =>
      cases h
      exact ⟨rfl, last, rest, hl, rfl⟩

omit [DecidableEq U] in
/-- The entries from an index on, and what stands before them. -/
theorem SyncObj.reports {first : Entry P.Command} {next : ℕ} {rest : List (Entry P.Command)}
    {prev : Option (ℕ × ℕ)} (hl : n.raftState = .leader) (hfirst : n.raftLog.head? = some first)
    (hle : first.idx ≤ next) (hrest : SyncObj.entriesFrom n.raftLog next = some rest)
    (hprev : ∀ i t, prev = some (i, t) → next = i + 1 ∧ ∃ last after,
      SyncObj.entriesFrom n.raftLog i = some (last :: after) ∧ last.term = t) (k : ℕ) :
    n.Reports (rest.take k) prev := by
  rw [SyncObj.entriesFrom_of_le hfirst hle, Option.some_inj] at hrest
  refine ⟨hl, n.raftLog.take (next - first.idx), rest.drop k, ?_, ?_⟩
  · rw [← hrest, List.append_assoc, List.take_append_drop, List.take_append_drop]
  · intro i t h
    obtain ⟨rfl, last, after, hbefore, ht⟩ := hprev i t h
    obtain ⟨first', before, hfirst', hlog, rfl⟩ := SyncObj.entriesFrom_cons.mp hbefore
    obtain rfl : first' = first := Option.some_inj.mp (hfirst'.symm.trans hfirst)
    have htake : n.raftLog.take (first'.idx + before.length + 1 - first'.idx) = before ++ [last] := by
      rw [hlog, List.append_cons, Nat.add_assoc, Nat.add_sub_cancel_left]
      apply List.take_left'
      rw [List.length_append, List.length_singleton]
    rw [htake]
    refine ⟨first', last, hfirst, List.getLast?_concat .., ht, ?_⟩
    rw [List.length_append, List.length_singleton, Nat.add_assoc]

theorem appendEntriesTurn_reached {addr : U} (ha : addr ∈ r₀.node.nodes)
    {sendingSerialized : Bool} :
    Triple (fun r => Reached e r₀ r ∧ r.node.raftState = .leader)
      (appendEntriesTurn addr sendingSerialized)
      (fun _ r => Reached e r₀ r ∧ r.node.raftState = .leader) (Stopped e r₀) := by
  intro r hr
  obtain ⟨h, hl⟩ := hr
  refine triple_getNode (A := fun r' => r' = r) (fun n' => Triple.bind
    (R := fun first r' => r' = r ∧ r.node = n' ∧ n'.raftLog.head? = some first)
    (triple_orRaise ?_ ?_) fun first => Triple.ite (fun hle => ?_) fun _ => ?_) r rfl
  · rintro _ first ⟨rfl, hn⟩ hfirst
    exact ⟨rfl, hn, hfirst⟩
  · rintro _ ⟨rfl, -⟩ -
    exact h.stopped
  · -- entries of the log
    rintro r ⟨rfl, rfl, hfirst⟩
    refine Triple.bind ((getPrevLogIndexTerm_spec r).conseq (fun _ h => h) (fun _ _ h => h) ?_)
      (fun prev => ?_) r rfl
    · rintro _ rfl
      exact h.stopped
    · rintro r ⟨rfl, hprev⟩
      refine Triple.bind ((takeEntries_spec r).conseq (fun _ h => h) (fun _ _ h => h) ?_)
        (fun entries => Triple.bind (R := fun _ r => Reached e r₀ r ∧ r.node.raftState = .leader)
          (triple_nodeSend ?_) fun _ => Triple.pure _ fun _ h => h) r rfl
      · rintro _ rfl
        exact h.stopped
      · rintro _ sent connected env ⟨⟨rest, k, hrest, rfl⟩, f, rfl⟩ hs
        have hq := h.next (.quiet r.node.connected f r.node.raftMatchIndex r.node.raftCommitIndex
          r.node.forceLogCompaction r.env)
        have hrep : r.node.Reports (rest.take k) prev :=
          SyncObj.reports hl hfirst hle hrest hprev k
        refine ⟨?_, hl⟩
        rcases List.sublist_singleton.mp hs with rfl | rfl
        · rw [List.append_nil]
          exact hq.links connected env
        · exact (hq.next (.entries (hq.nodes ▸ ha) ⟨hrep.leader, hrep.log⟩)).links connected env
  · -- a batch of the snapshot
    cases hg : n'.serializer.getTransmissionData addr with
    | mk serialized serializer =>
      refine Triple.bind (R := fun _ r' => r.node = n' ∧ r' = { r with node := { r.node with
        serializer := serializer } }) (triple_modifyNode ?_) (fun _ => Triple.bind
          (R := fun _ r => Reached e r₀ r ∧ r.node.raftState = .leader) (triple_nodeSend ?_)
          fun _ => ?_)
      · rintro r ⟨rfl, hn, -⟩
        exact ⟨hn, rfl⟩
      · rintro _ sent connected env ⟨rfl, rfl⟩ hs
        have hs' : sent.Sublist [(addr, .appendSerialized r.node.raftCurrentTerm
            r.node.raftCommitIndex (r.node.serializer.getTransmissionData addr).1)] := by
          rw [hg]
          exact hs
        have hc := h.next (.batch (h.nodes ▸ ha) hl hs')
        rw [hg] at hc
        exact ⟨hc.links connected env, hl⟩
      · cases serialized with
        | none => exact Triple.pure _ fun _ h => h
        | some batch =>
          refine Triple.ite (fun _ => Triple.bind (R := fun _ r => Reached e r₀ r ∧
            r.node.raftState = .leader) (triple_modifyNode ?_) fun _ => Triple.pure _ fun _ h => h)
            fun _ => Triple.pure _ fun _ h => h
          rintro r ⟨h, hl⟩
          exact ⟨h.next (.quiet _ _ _ _ _ _), hl⟩

theorem appendEntriesLoop_reached {addr : U} (ha : addr ∈ r₀.node.nodes) (turns : ℕ)
    (sendSingle sendingSerialized : Bool) :
    Triple (fun r => Reached e r₀ r ∧ r.node.raftState = .leader)
      (appendEntriesLoop addr turns sendSingle sendingSerialized)
      (fun _ r => Reached e r₀ r ∧ r.node.raftState = .leader) (Stopped e r₀) := by
  have goesOn : ∀ sendSingle sendingSerialized,
      Triple (fun r => Reached e r₀ r ∧ r.node.raftState = .leader)
        (appendEntriesGoesOn addr sendSingle sendingSerialized)
        (fun _ r => Reached e r₀ r ∧ r.node.raftState = .leader) (Stopped e r₀) := by
    intro _ _
    refine triple_getNode fun n' => triple_getCurrentEntry (fun last => Triple.pure _ ?_) ?_
    · exact fun r h => h.1.1
    · exact fun r h => h.1.1.stopped
  induction turns generalizing sendSingle sendingSerialized with
  | zero =>
    exact Triple.bind (goesOn _ _) fun _ => Triple.ite
      (fun _ => Triple.bind (appendEntriesTurn_reached ha) fun _ => Triple.pure _ fun _ h => h)
      fun _ => Triple.pure _ fun _ h => h
  | succ turns ih =>
    exact Triple.bind (goesOn _ _) fun _ => Triple.ite
      (fun _ => Triple.bind (appendEntriesTurn_reached ha) fun _ => ih _ _)
      fun _ => Triple.pure _ fun _ h => h

theorem sendAppendEntries_reached :
    Triple (fun r => Reached e r₀ r ∧ r.node.raftState = .leader) sendAppendEntries
      (fun _ => Reached e r₀) (Stopped e r₀) := by
  have sendTo : ∀ (nodes : List U) (_ : nodes ⊆ r₀.node.nodes) (turns : ℕ),
      Triple (fun r => Reached e r₀ r ∧ r.node.raftState = .leader)
        (sendAppendEntriesTo nodes turns) (fun _ => Reached e r₀) (Stopped e r₀) := by
    intro nodes
    induction nodes with
    | nil => exact fun _ turns => Triple.pure _ fun r h => h.1
    | cons addr nodes ih =>
      intro ha turns
      obtain ⟨ha, hnodes⟩ := List.cons_subset.mp ha
      refine triple_getNode fun n' => Triple.ite (fun _ => Triple.bind
        ((appendEntriesLoop_reached ha turns true false).conseq (fun _ h => h.1) (fun _ _ h => h)
          fun _ h => h) (ih hnodes)) fun _ => Triple.bind (R := fun _ r => Reached e r₀ r ∧
            r.node.raftState = .leader) (triple_modifyNode ?_) fun _ => ih hnodes turns
      rintro r ⟨⟨h, hl⟩, -⟩
      exact ⟨h.next (.cancel addr), hl⟩
  rintro r ⟨h, hl⟩
  exact sendTo _ (h.nodes ▸ List.Subset.refl _) _ _ ⟨h.links r.node.connected _, hl⟩

/-! ## Leaders -/

omit [DecidableEq U] in
theorem SyncObj.sublist_waitingReply {l : List (ℕ × ℕ)} (h : l.Sublist n.commandsWaitingReply) :
    (l.map (·.2)).Sublist n.pending :=
  (h.map _).trans ((List.sublist_append_right _ _).trans (List.sublist_append_left _ _))

omit [DecidableEq U] in
theorem SyncObj.sublist_waitingCommit {l : List (ℕ × ℕ × ℕ)}
    (h : l.Sublist n.commandsWaitingCommit) : (l.map (·.2.2)).Sublist n.pending :=
  (h.map _).trans (List.sublist_append_right _ _)

theorem onLeaderChanged_reached {r : Turn P U} (h : Reached e r₀ r) :
    Triple (fun r' => r' = r) onLeaderChanged
      (fun _ r' => Reached e r₀ r' ∧ r'.node.raftCurrentTerm = r.node.raftCurrentTerm)
      (Stopped e r₀) := by
  rintro r rfl
  refine triple_getNode (A := fun r' => r' = r) (fun n' => Triple.bind
    (R := fun _ r' => ∃ env, r' = { r with
      calls := r.calls ++ r.node.commandsWaitingReply.map fun s => ⟨s.2, none, .leaderChanged⟩
      env }) ?_ fun _ => triple_modifyNode ?_) r rfl
  · rintro r' ⟨rfl, rfl⟩
    refine (triple_callAll r'.node.commandsWaitingReply (fun s => ⟨s.2, none, .leaderChanged⟩) _
      (fun s => rfl) r').conseq (fun _ h => h) (fun _ _ h => h) ?_ _ rfl
    rintro _ ⟨l, env, hl, rfl⟩
    refine ⟨_, h.links r'.node.connected env, ⟨_, _, _, _, rfl, List.suffix_rfl, .inl rfl⟩, rfl,
      rfl, _, rfl, ?_, ?_⟩
    · rw [List.map_map]
      exact (SyncObj.sublist_waitingReply hl.sublist).subperm
    · intro c hc
      obtain ⟨s, -, rfl⟩ := List.mem_map.mp hc
      exact ⟨(fun hs => nomatch hs), rfl⟩
  · rintro _ ⟨env, rfl⟩
    exact ⟨(h.next .leaderChanged).links _ env, rfl⟩

theorem onBecomeLeader_reached :
    Triple (fun r => Reached e r₀ r ∧ r.node.raftState = .candidate ∧
        (r.node.nodes.length + 1) / 2 < r.node.votesCount) onBecomeLeader
      (fun _ => Reached e r₀) (Stopped e r₀) := by
  refine Triple.bind (R := fun _ r => Reached e r₀ r ∧ r.node.raftState = .leader)
    (triple_modifyNode ?_) fun _ => triple_getNode fun n' => Triple.bind
      (R := fun _ r => Reached e r₀ r ∧ r.node.raftState = .leader) ?_
      fun _ => sendAppendEntries_reached
  · rintro r ⟨h, hc, hv⟩
    exact ⟨h.next (.elect hc hv), rfl⟩
  · generalize n'.nodes = nodes
    refine Triple.conseq (P := fun r => Reached e r₀ r ∧ r.node.raftState = .leader) ?_
      (fun _ h => h.1) (fun _ _ h => h) fun _ h => h
    induction nodes with
    | nil => exact Triple.pure _ fun _ h => h
    | cons addr nodes ih =>
      refine Triple.bind (triple_getCurrentEntry (fun last => triple_modifyNode ?_) ?_) fun _ => ih
      · rintro r ⟨⟨h, hl⟩, -⟩
        exact ⟨h.next (.quiet _ _ _ _ _ _), hl⟩
      · exact fun r h => h.1.stopped

theorem startElection_reached :
    Triple (Reached e r₀) startElection (fun _ => Reached e r₀) (Stopped e r₀) := by
  intro r h
  let message : Message P := .requestVote (r.node.raftCurrentTerm + 1)
    ((r.node.raftLog.getLast?.map Entry.idx).getD 0) ((r.node.raftLog.getLast?.map Entry.term).getD 0)
  -- the requests to the nodes up to one
  let Sent (nodes : List U) (r' : Turn P U) : Prop := ∃ sent connected env,
    sent.Sublist (nodes.map fun addr => (addr, message)) ∧ r' = { r with
      node := { r.node with
        connected, raftLeader := none, raftState := .candidate,
        raftCurrentTerm := r.node.raftCurrentTerm + 1, votesCount := 1 }
      sent := r.sent ++ sent
      env }
  have reached : ∀ {nodes r'}, nodes.Sublist r.node.nodes → Sent nodes r' → Reached e r₀ r' := by
    rintro nodes r' hn ⟨sent, connected, env, hs, rfl⟩
    exact (h.next (.campaign _ _ (hs.trans (hn.map _)))).links connected env
  refine Triple.bind (R := fun _ => Sent []) (triple_modifyNode (A := fun r' => r' = r) ?_)
    (fun _ => triple_getNode fun n' => Triple.bind (R := fun _ => Reached e r₀) ?_
      fun _ r h => (onLeaderChanged_reached h).conseq (fun _ h => h) (fun _ _ h => h.1)
        (fun _ h => h) r rfl) r rfl
  · rintro _ rfl
    exact ⟨[], _, _, List.nil_sublist _, by rw [List.append_nil]⟩
  · have hloop : ∀ nodes before, before ++ nodes = r.node.nodes → Triple (Sent before)
        (nodes.forM fun nodeAddr => do
          let last ← getCurrentEntry
          nodeSend nodeAddr (.requestVote (← getNode).raftCurrentTerm last.idx last.term))
        (fun _ => Reached e r₀) (Stopped e r₀) := by
      intro nodes
      induction nodes with
      | nil =>
        intro before hb
        exact Triple.pure _ fun r' hs => reached (hb ▸ List.sublist_append_left _ _) hs
      | cons addr nodes ih =>
        intro before hb
        refine Triple.bind (R := fun _ => Sent (before ++ [addr])) (triple_getCurrentEntry
          (fun last => triple_getNode fun n' => triple_nodeSend ?_) ?_) fun _ => ih _ (by simpa using hb)
        · rintro _ sent' connected' env' ⟨⟨⟨sent, connected, env, hs, rfl⟩, hlast⟩, rfl⟩ hs'
          have hlast : r.node.raftLog.getLast? = some last := hlast
          have hm : message =
              .requestVote (r.node.raftCurrentTerm + 1) last.idx last.term := by
            simp only [message, hlast, Option.map_some, Option.getD_some]
          refine ⟨sent ++ sent', connected', env', ?_, by rw [← List.append_assoc]⟩
          rw [List.map_append, List.map_singleton, hm]
          rw [hm] at hs
          exact hs.append hs'
        · exact fun r' hs => (reached (hb ▸ List.sublist_append_left _ _) hs).stopped
    rintro r' ⟨hs, rfl⟩
    have hn : r'.node.nodes = r.node.nodes := by
      obtain ⟨sent, connected, env, -, rfl⟩ := hs
      rfl
    rw [hn]
    exact hloop _ [] rfl r' hs

/-! ## Commands -/

theorem applyCommand_reached {command : P.Command} {callback : Callback U}
    (he : e.Enqueues command callback) :
    Triple (fun r => r = r₀) (applyCommand command callback) (fun _ => Reached e r₀)
      (Stopped e r₀) := by
  refine triple_getNode fun n' => Triple.ite (fun _ => ?_) fun _ => triple_modifyNode ?_
  · have htype : Triple (fun r => r = r₀ ∧ r.node = n') (throw .typeError : Act P U Unit)
        (fun _ => Reached e r₀) (Stopped e r₀) := by
      apply Triple.throw
      rintro r ⟨rfl, -⟩
      exact (Reached.refl e r).stopped
    cases he with
    | request w command id => exact htype
    | forward w command => exact htype
  · rintro r ⟨rfl, -⟩
    exact (Opening.enqueue he).reached

/-- The command has left the queue when an exception comes. -/
theorem Reached.popped {command : P.Command} {callback : Callback U}
    {queue : List (P.Command × Callback U)} (h : Reached e r₀ r)
    (hq : r.node.commandsQueue = (command, callback) :: queue) :
    Stopped e r₀ { r with node := { r.node with commandsQueue := queue } } :=
  ⟨r, h, ⟨queue, _, _, _, rfl, hq ▸ List.suffix_cons _ _, .inl rfl⟩, rfl, rfl, [],
    (List.append_nil _).symm, List.nil_subperm, fun _ h => nomatch h⟩

theorem appendCommand_reached {command : P.Command} {callback : Callback U}
    {queue : List (P.Command × Callback U)} (h : Reached e r₀ r)
    (hl : r.node.raftState = .leader)
    (hq : r.node.commandsQueue = (command, callback) :: queue) :
    Triple (fun r' => r' = { r with node := { r.node with commandsQueue := queue } })
      (appendCommand command callback)
      (fun _ r => Reached e r₀ r ∧ r.node.raftState = .leader) (Stopped e r₀) := by
  refine triple_getCurrentEntry (fun last => triple_getNode fun n' => Triple.bind
    (R := fun _ r' => (r.node.raftLog.getLast? = some last ∧
      r.node.raftCurrentTerm = n'.raftCurrentTerm) ∧ r' = { r with node := { r.node with
      commandsQueue := queue
      raftLog := r.node.raftLog ++ [⟨some command, last.idx + 1, r.node.raftCurrentTerm⟩] } })
    (triple_modifyNode ?_) fun _ => ?_) ?_
  · rintro _ ⟨⟨rfl, hlast⟩, rfl⟩
    exact ⟨⟨hlast, rfl⟩, rfl⟩
  · rintro _ ⟨⟨hlast, hterm⟩, rfl⟩
    rw [← hterm]
    cases callback with
    | none =>
      have hc := h.next (.append hl hq hlast (List.nil_sublist _))
      simp only [Callback.waits, List.append_nil] at hc
      exact ⟨hc, hl⟩
    | function k =>
      have hc := h.next (.append hl hq hlast (List.nil_sublist _))
      rw [List.append_nil] at hc
      exact ⟨hc, hl⟩
    | request w id =>
      refine triple_send (A := fun r' => r' = _) ?_ _ rfl
      rintro _ sent connected env rfl hs
      have hc := h.next (.append hl hq hlast hs)
      simp only [Callback.waits, List.append_nil] at hc
      exact ⟨hc.links connected env, hl⟩
  · rintro _ rfl
    exact h.popped hq

theorem passCommand_reached {command : P.Command} {callback : Callback U}
    {queue : List (P.Command × Callback U)} (h : Reached e r₀ r)
    (hq : r.node.commandsQueue = (command, callback) :: queue) :
    Triple (fun r' => r' = { r with node := { r.node with commandsQueue := queue } })
      (passCommand command callback) (fun _ => Reached e r₀) (Stopped e r₀) := by
  apply triple_getNode
  intro n'
  cases callback with
  | request w id =>
    refine triple_send ?_
    rintro _ sent connected env ⟨rfl, -⟩ hs
    exact (h.next (.refuse hq hs)).links connected env
  | none =>
    cases hleader : n'.raftLeader with
    | none =>
      refine Triple.throw _ ?_
      rintro _ ⟨rfl, -⟩
      exact h.popped hq
    | some leader =>
      refine triple_send ?_
      rintro _ sent connected env ⟨rfl, -⟩ hs
      exact (h.next (.forwardQuietly leader hq hs)).links connected env
  | function k =>
    cases hleader : n'.raftLeader with
    | none =>
      refine triple_callFunction ?_ ?_
      · rintro _ env ⟨rfl, -⟩
        exact h.next (.missingLeader env hq)
      · rintro _ env ⟨rfl, -⟩
        exact (h.next (.missingLeader env hq)).stopped
    | some leader =>
      refine Triple.bind (R := fun _ r' => r' = { r with node := { r.node with
        commandsQueue := queue
        commandsLocalCounter := r.node.commandsLocalCounter + 1
        commandsWaitingReply :=
          r.node.commandsWaitingReply ++ [(r.node.commandsLocalCounter + 1, k)] } })
        (triple_modifyNode ?_) fun _ => triple_getNode fun n'' => triple_send ?_
      · rintro _ ⟨rfl, -⟩
        rfl
      · rintro _ sent connected env ⟨rfl, rfl⟩ hs
        exact (h.next (.forward leader hq hs)).links connected env

theorem checkCommandsToApply_reached (i : ℕ) :
    Triple (Reached e r₀) (checkCommandsToApply i) (fun _ => Reached e r₀)
      (Stopped e r₀) := by
  induction i with
  | zero => exact Triple.pure _ fun _ h => h
  | succ i ih =>
    refine triple_getNode fun n' => Triple.ite (fun _ => Triple.pure _ fun _ h => h.1) fun _ => ?_
    cases hq : n'.commandsQueue with
    | nil => exact Triple.pure _ fun _ h => h.1
    | cons c queue =>
      obtain ⟨command, callback⟩ := c
      refine Triple.bind (R := fun _ r' => ∃ r, (Reached e r₀ r ∧
        r.node.commandsQueue = (command, callback) :: queue) ∧
        r' = { r with node := { r.node with commandsQueue := queue } }) (triple_modifyNode ?_)
        fun _ => Triple.bind (R := fun _ => Reached e r₀) ?_ fun _ => ih
      · rintro r ⟨h, rfl⟩
        exact ⟨r, ⟨h, hq⟩, rfl⟩
      · rintro _ ⟨r, ⟨h, hq⟩, rfl⟩
        refine triple_getNode (A := fun r' => r' = _) (fun n'' => Triple.ite (fun hl => ?_)
          fun _ => (passCommand_reached h hq).conseq (fun _ h => h.1) (fun _ _ h => h)
            fun _ h => h) _ rfl
        rintro _ ⟨rfl, rfl⟩
        exact Triple.bind (Q := fun _ => Reached e r₀) (appendCommand_reached h hl hq)
          (fun _ => Triple.ite (fun _ => Triple.pure _ fun _ h => h.1)
            fun _ => sendAppendEntries_reached) _ rfl

/-! ## Commit and application -/

theorem advanceCommitIndex_reached (i : ℕ) :
    Triple (fun r => Reached e r₀ r ∧ r.node.raftState = .leader) (advanceCommitIndex i)
      (fun _ r => Reached e r₀ r ∧ r.node.raftState = .leader) (Stopped e r₀) := by
  induction i with
  | zero => exact Triple.pure _ fun _ h => h
  | succ i ih =>
    refine triple_getNode fun n' => Triple.ite (fun _ => Triple.bind (triple_modifyNode ?_)
      fun _ => ih) fun _ => Triple.pure _ fun _ h => h.1
    rintro r ⟨⟨h, hl⟩, -⟩
    exact ⟨h.next (.quiet _ _ _ _ _ _), hl⟩

omit [DecidableEq U] in
theorem Entry.reply_function (entry : Entry P.Command) (result : P.Result) (s : ℕ × ℕ × ℕ) :
    (entry.reply result s).function = s.2.2 := by
  unfold Entry.reply
  split <;> rfl

omit [DecidableEq U] in
theorem Entry.reply_success {entry : Entry P.Command} {result : P.Result} {s : ℕ × ℕ × ℕ}
    (h : (entry.reply result s).reason = .success) :
    s.2.1 = entry.term ∧ (entry.reply result s).result = some result := by
  unfold Entry.reply at *
  split
  · next ht => exact ⟨ht, rfl⟩
  · next ht =>
    rw [if_neg ht] at h
    cases h

omit [DecidableEq U] in
theorem Entry.reply_refuses (entry : Entry P.Command) (result : P.Result) (s : ℕ × ℕ × ℕ) :
    (entry.reply result s).reason.refuses = false := by
  unfold Entry.reply
  split <;> rfl

theorem applyEntry_reached {entry : Entry P.Command} {rest : List (Entry P.Command)} :
    Triple (fun r => Reached e r₀ r ∧ SyncObj.entriesFrom r.node.raftLog
        (r.node.raftLastApplied + 1) = some (entry :: rest)) (applyEntry entry)
      (fun _ r => Reached e r₀ r ∧
        SyncObj.entriesFrom r.node.raftLog (r.node.raftLastApplied + 1) = some rest)
      (Stopped e r₀) := by
  rintro r ⟨h, hentry⟩
  refine triple_getNode (A := fun r' => r' = r) (fun n' => Triple.bind
    (R := fun _ r' => r.node = n' ∧ r' = { r with node := { r.node with
      commandsWaitingCommit := r.node.commandsWaitingCommit.filter (·.1 ≠ entry.idx) } })
    (triple_modifyNode ?_) fun _ => ?_) r rfl
  · rintro _ ⟨rfl, rfl⟩
    exact ⟨rfl, rfl⟩
  · cases hc : entry.command with
    | none =>
      refine Triple.bind (R := fun _ _ => False) (Triple.throw _ ?_) fun _ _ h => h.elim
      rintro _ ⟨rfl, rfl⟩
      exact ⟨r, h, ⟨_, _, _, _, rfl, List.suffix_rfl, .inl rfl⟩, rfl, rfl, [],
        (List.append_nil _).symm, List.nil_subperm, fun _ h => nomatch h⟩
    | some command =>
      have hnext : r.node.Next entry command := ⟨⟨rest, hentry⟩, hc⟩
      let result := (P.apply command r.node.data).1
      let subscribers := r.node.commandsWaitingCommit.filter (·.1 = entry.idx)
      let applied (calls : List (Call P)) (env : Environment) : Turn P U := { r with
        node := { r.node with
          commandsWaitingCommit := r.node.commandsWaitingCommit.filter (·.1 ≠ entry.idx)
          data := (P.apply command r.node.data).2 }
        calls := r.calls ++ calls
        env }
      refine Triple.bind (R := fun a r' => r.node = n' ∧ a = result ∧ r' = applied [] r.env)
        (triple_getNode fun n'' => Triple.bind (R := fun _ r' => (r.node = n' ∧
          n''.data = r.node.data) ∧ r' = applied [] r.env) (triple_modifyNode ?_)
          fun _ => Triple.pure _ ?_) fun a => Triple.bind
            (R := fun _ r' => ∃ env, r' = applied (subscribers.map (entry.reply result)) env) ?_
            fun _ => triple_modifyNode ?_
      · rintro _ ⟨⟨hn, rfl⟩, rfl⟩
        exact ⟨⟨hn, rfl⟩, by simp only [applied, List.append_nil]⟩
      · rintro _ ⟨⟨hn, hd⟩, rfl⟩
        exact ⟨hn, by rw [hd], rfl⟩
      · rintro _ ⟨rfl, rfl, rfl⟩
        refine (triple_callAll subscribers (entry.reply result) _ ?_ (applied [] r.env)).conseq
          (fun _ h => h) ?_ ?_ _ rfl
        · rintro ⟨idx, term, k⟩
          by_cases ht : term = entry.term
          · simp only [Entry.reply, if_pos ht]
          · simp only [Entry.reply, if_neg ht]
        · rintro _ _ ⟨env, rfl⟩
          exact ⟨env, by simp only [applied, List.append_nil]⟩
        · rintro _ ⟨l, env, hl, rfl⟩
          refine ⟨_, h.links r.node.connected env, ⟨_, _, _, _, rfl, List.suffix_rfl,
            .inr ⟨entry, command, hnext, rfl⟩⟩, rfl, rfl, l.map (entry.reply result), ?_, ?_, ?_⟩
          · simp only [applied, List.append_nil]
          · rw [List.map_map, show Call.function ∘ entry.reply result = (·.2.2) from
              funext (entry.reply_function result)]
            exact (SyncObj.sublist_waitingCommit
              (hl.sublist.trans List.filter_sublist)).subperm
          · intro c hc
            obtain ⟨s, hs', rfl⟩ := List.mem_map.mp hc
            refine ⟨fun hs => ?_, entry.reply_refuses result s⟩
            obtain ⟨hmem, hidx⟩ := List.mem_filter.mp (hl.subset hs')
            obtain ⟨ht, hresult⟩ := entry.reply_success hs
            refine ⟨entry, command, hnext, ?_, hresult⟩
            rw [← of_decide_eq_true hidx, ← ht, entry.reply_function]
            exact hmem
      · rintro _ ⟨env, rfl⟩
        exact ⟨h.next (.apply env hnext), SyncObj.entriesFrom_succ hentry⟩

theorem applyCommitted_reached :
    Triple (Reached e r₀) applyCommitted (fun _ => Reached e r₀) (Stopped e r₀) := by
  refine triple_getNode fun n' => Triple.ite (fun _ => triple_getEntries (fun entries => ?_)
    fun r h => h.1.stopped) fun _ => Triple.pure _ fun r h => h.1
  have hloop : ∀ l after, Triple (fun r => Reached e r₀ r ∧ SyncObj.entriesFrom r.node.raftLog
      (r.node.raftLastApplied + 1) = some (l ++ after)) (l.forM applyEntry)
      (fun _ => Reached e r₀) (Stopped e r₀) := by
    intro l
    induction l with
    | nil => exact fun after => Triple.pure _ fun r h => h.1
    | cons entry l ih => exact fun after => Triple.bind applyEntry_reached fun _ => ih after
  refine (hloop (entries.take (n'.raftCommitIndex - n'.raftLastApplied))
    (entries.drop (n'.raftCommitIndex - n'.raftLastApplied))).conseq ?_ (fun _ _ h => h) fun _ h => h
  rintro r ⟨⟨h, rfl⟩, hentries⟩
  exact ⟨h, by rw [List.take_append_drop]; exact hentries⟩

/-! ## Snapshots -/

theorem deleteEntriesTo_reached {i : ℕ} :
    Triple (Reached e r₀) (deleteEntriesTo i) (fun _ => Reached e r₀) (Stopped e r₀) := by
  refine triple_getNode fun n' => Triple.bind (R := fun _ => Reached e r₀)
    (triple_orRaise (fun r _ h _ => h.1) fun r h _ => h.1.stopped) fun first =>
      Triple.ite (fun _ => triple_modifyNode fun r h => h.next (.drop _)) fun _ =>
        Triple.pure _ fun r h => h

theorem deleteEntriesFrom_reached {i : ℕ} :
    Triple (fun r => Reached e r₀ r ∧ r.node.raftState = .follower) (deleteEntriesFrom i)
      (fun _ => Reached e r₀) (Stopped e r₀) := by
  refine triple_getNode fun n' => Triple.bind
    (R := fun _ r => Reached e r₀ r ∧ r.node.raftState = .follower)
    (triple_orRaise (fun r _ h _ => h.1) fun r h _ => h.1.1.stopped) fun first =>
      Triple.ite (fun _ => triple_modifyNode fun r h => h.1.next (.take _ h.2)) fun _ =>
        Triple.pure _ fun r h => h.1

theorem tryLogCompaction_reached {due : Bool} :
    Triple (Reached e r₀) (tryLogCompaction due) (fun _ => Reached e r₀)
      (Stopped e r₀) := by
  apply triple_getNode
  intro n'
  rcases hc : n'.serializer.checkSerializing with ⟨id, serializer⟩
  cases id with
  | some id =>
    refine Triple.bind (triple_modifyNode ?_) fun _ => deleteEntriesTo_reached
    rintro r ⟨h, rfl⟩
    have := h.next .checked
    rwa [hc] at this
  | none =>
    refine Triple.ite (fun _ => Triple.pure _ fun r h => h.1) fun _ => Triple.bind
      (R := fun _ r => Reached e r₀ r ∧ r.node.raftLastApplied = n'.raftLastApplied ∧
        r.node.data = n'.data ∧ r.node.raftCurrentTerm = n'.raftCurrentTerm)
      (triple_modifyNode ?_) fun _ => triple_getEntries (fun entries => ?_) fun r h => h.1.stopped
    · rintro r ⟨h, rfl⟩
      exact ⟨h.next (.quiet _ _ _ _ _ _), rfl, rfl, rfl⟩
    · rcases entries with - | ⟨before, - | ⟨last, rest⟩⟩
      · exact Triple.pure _ fun r h => h.1.1
      · exact Triple.throw _ fun r h => h.1.1.stopped
      · let dump : List P.Byte := P.pickle.dumps (n'.data, last, before)
        refine Triple.bind (R := fun _ r' => ∃ r : Turn P U, Reached e r₀ { r with
            node := { r.node with serializer := r.node.serializer.serialize dump last.idx }
            dumps := r.dumps ++ [.taken n'.raftCurrentTerm dump] } ∧
          r' = { r with node := { r.node with
            serializer := r.node.serializer.serialize dump last.idx } })
          (triple_modifyNode ?_) fun _ => triple_recordDump ?_
        · rintro r ⟨⟨h, hlast, hdata, hterm⟩, hentries⟩
          rw [← hlast] at hentries
          have hc := h.next (.serialize hentries)
          rw [hdata, hterm] at hc
          exact ⟨r, hc, by simp only [hdata, dump]⟩
        · rintro _ ⟨r, hc, rfl⟩
          exact hc

theorem loadDumpFile_reached :
    Triple (fun r => Reached e r₀ r ∧ r.node.raftState = .follower) loadDumpFile
      (fun _ => Reached e r₀) (Stopped e r₀) := by
  apply triple_getNode
  intro n'
  cases n'.serializer.inMemorySerializedData with
  | none => exact Triple.pure _ fun r h => h.1.1
  | some bytes =>
    cases hload : P.pickle.loads bytes with
    | none =>
      simp only [hload]
      exact Triple.pure _ fun r h => h.1.1
    | some d =>
      obtain ⟨data, last, before⟩ := d
      simp only [hload]
      refine Triple.bind (R := fun _ r' => ∃ r, (Reached e r₀ r ∧ r.node.raftState = .follower ∧
          r.node = n') ∧ r' = { r with node := { r.node with
            data := data, raftLog := [before, last], raftLastApplied := last.idx } })
        (triple_modifyNode ?_) fun _ => triple_recordDump ?_
      · rintro r ⟨⟨h, hf⟩, hn⟩
        exact ⟨r, ⟨h, hf, hn⟩, rfl⟩
      · rintro _ ⟨r, ⟨h, hf, rfl⟩, rfl⟩
        exact h.next (.load hf hload)

/-! ## Messages -/

theorem onRequestVote_reached {w : U} {term i t : ℕ}
    (he : e = .receive w (.requestVote term i t)) :
    Triple (fun r => r = r₀) (onRequestVote w term i t) (fun _ => Reached e r₀)
      (Stopped e r₀) := by
  rintro r rfl
  -- the node with the newer term
  let newer : Turn P U := { r with node := if r.node.raftCurrentTerm < term
    then { r.node with raftCurrentTerm := term, raftState := .follower } else r.node }
  have hnewer : Reached e r newer := by
    have := (Opening.vote (r := r) he (List.nil_sublist _)).reached
    rwa [List.append_nil] at this
  refine triple_getNode (A := fun r' => r' = r) (fun n' => Triple.bind
    (R := fun _ r' => r' = newer) (triple_onlyIf (fun hlt => triple_modifyNode ?_) ?_)
      fun _ => triple_getNode fun n'' => ?_) r rfl
  · rintro _ ⟨rfl, rfl⟩
    simp only [newer, if_pos hlt]
  · rintro hlt _ ⟨rfl, rfl⟩
    simp only [newer, if_neg hlt]
  · apply Triple.ite
    · refine fun _ => triple_getCurrentEntry (fun last => Triple.ite (fun _ => ?_) fun _ => ?_) ?_
      · apply Triple.pure
        rintro _ ⟨⟨rfl, -⟩, -⟩
        exact hnewer
      · apply triple_send
        rintro _ sent connected env ⟨⟨rfl, -⟩, -⟩ hs
        exact (Opening.vote he hs).reached.links connected env
      · rintro _ ⟨rfl, -⟩
        exact hnewer.stopped
    · intro _
      apply Triple.pure
      rintro _ ⟨rfl, -⟩
      exact hnewer

theorem followLeader_reached {w : U} {term : ℕ} (he : e.Leads w term) :
    Triple (fun r => Reached e r₀ r ∧ r.node.raftCurrentTerm ≤ term) (followLeader w term)
      (fun _ r => Reached e r₀ r ∧ r.node.raftCurrentTerm = term ∧ r.node.raftState = .follower)
      (Stopped e r₀) := by
  refine triple_getNode fun n' => Triple.bind
    (R := fun _ r => Reached e r₀ r ∧ r.node.raftCurrentTerm ≤ term)
    (triple_onlyIf (fun _ => ?_) fun _ r h => h.1) fun _ => triple_modifyNode ?_
  · rintro r ⟨⟨h, hle⟩, -⟩
    refine (onLeaderChanged_reached h).conseq (fun _ h => h) ?_ (fun _ h => h) r rfl
    rintro _ r' ⟨h', hterm⟩
    exact ⟨h', hterm.trans_le hle⟩
  · rintro r ⟨h, hle⟩
    exact ⟨h.next (.follow he hle), rfl, rfl⟩

theorem acknowledge_reached {w : U} {commitIndex : ℕ} :
    Triple (Reached e r₀) (acknowledge w commitIndex) (fun _ => Reached e r₀)
      (Stopped e r₀) := by
  refine Triple.bind sendNextNodeIdx_reached fun _ => triple_getCurrentEntry (fun last =>
    triple_modifyNode fun r h => h.1.next (.quiet _ _ _ _ _ _)) fun r h => h.stopped

omit [DecidableEq U] in
theorem deleteEntriesFrom_spec {r : Turn P U} {first : Entry P.Command} {i : ℕ}
    {E : Turn P U → Prop} (hfirst : r.node.raftLog.head? = some first) (hle : first.idx ≤ i) :
    Triple (fun r' => r' = r) (deleteEntriesFrom i) (fun _ r' => r' = { r with node :=
      { r.node with raftLog := r.node.raftLog.take (i - first.idx) } }) E := by
  refine triple_getNode fun n' => Triple.bind (R := fun f r' => r' = r ∧ f = first)
    (triple_orRaise ?_ ?_) fun f => Triple.ite (fun _ => triple_modifyNode ?_) fun hgt => ?_
  · rintro _ f ⟨rfl, rfl⟩ hf
    exact ⟨rfl, Option.some_inj.mp (hf.symm.trans hfirst)⟩
  · rintro _ ⟨rfl, rfl⟩ hf
    cases hf.symm.trans hfirst
  · rintro _ ⟨rfl, rfl⟩
    rfl
  · rintro _ ⟨-, rfl⟩
    exact absurd hle hgt

theorem onAppendEntries_reached {w : U} {term commitIndex : ℕ} {entries : List (Entry P.Command)}
    {prev : Option (ℕ × ℕ)} (he : e = .receive w (.appendEntries term commitIndex entries prev)) :
    Triple (Reached e r₀) (onAppendEntries w term commitIndex entries prev)
      (fun _ => Reached e r₀) (Stopped e r₀) := by
  have hleads : e.Leads w term := he ▸ .entries w term commitIndex entries prev
  refine triple_getNode fun n' => Triple.ite (fun hle => Triple.bind
    ((followLeader_reached hleads).conseq ?_ (fun _ _ h => h) fun _ h => h) fun _ => ?_) fun _ =>
      Triple.pure _ fun r h => h.1
  · rintro r ⟨h, rfl⟩
    exact ⟨h, hle⟩
  · cases prev with
    | none =>
      exact triple_getNode fun n'' => Triple.bind (R := fun _ => Reached e r₀)
        (triple_orRaise (fun r _ h _ => h.1.1) fun r h _ => h.1.1.stopped) fun _ =>
          sendNextNodeIdx_reached
    | some prev =>
      obtain ⟨i, t⟩ := prev
      refine triple_getEntries (fun l => ?_) fun r h => h.1.stopped
      cases l with
      | nil => exact sendNextNodeIdx_reached.conseq (fun _ h => h.1.1) (fun _ _ h => h) fun _ h => h
      | cons x after =>
        refine Triple.ite (fun _ => Triple.bind (deleteEntriesFrom_reached.conseq
          (fun _ h => ⟨h.1.1, h.1.2.2⟩) (fun _ _ h => h) fun _ h => h)
            fun _ => sendNextNodeIdx_reached)
          fun ht => ?_
        rintro r ⟨⟨h, hterm, hf⟩, hentries⟩
        obtain ⟨first, before, hfirst, hlog, rfl⟩ := SyncObj.entriesFrom_cons.mp hentries
        -- the log up to the entry before the new ones
        refine Triple.bind (P := fun r' => r' = r) (R := fun _ r' => r' = { r with node :=
          { r.node with raftLog := before ++ [x] } }) (triple_onlyIf (fun _ =>
            (deleteEntriesFrom_spec hfirst (by omega)).conseq (fun _ h => h) ?_ fun _ h => h) ?_)
          (fun _ => Triple.bind (triple_modifyNode ?_) fun _ => acknowledge_reached) r rfl
        · rintro _ _ rfl
          rw [hlog, Nat.add_assoc, Nat.add_sub_cancel_left, List.append_cons,
            List.take_left' (by rw [List.length_append, List.length_singleton])]
        · rintro hnil _ rfl
          obtain rfl : after = [] := List.eq_nil_of_length_eq_zero (by omega)
          rw [← hlog]
        · rintro _ rfl
          refine h.next (.accept (hterm.symm ▸ he) hf hlog (fun first' hfirst' => ?_)
            (not_not.mp ht))
          rw [Option.some_inj.mp (hfirst'.symm.trans hfirst)]

theorem onAppendSerialized_reached {w : U} {term commitIndex : ℕ}
    {serialized : Option (Batch P.Byte)}
    (he : e = .receive w (.appendSerialized term commitIndex serialized)) :
    Triple (Reached e r₀) (onAppendSerialized w term commitIndex serialized)
      (fun _ => Reached e r₀) (Stopped e r₀) := by
  have hleads : e.Leads w term := he ▸ .serialized w term commitIndex serialized
  refine triple_getNode fun n' => Triple.ite (fun hle => Triple.bind
    ((followLeader_reached hleads).conseq ?_ (fun _ _ h => h) fun _ h => h) fun _ => ?_) fun _ =>
      Triple.pure _ fun r h => h.1
  · rintro r ⟨h, rfl⟩
    exact ⟨h, hle⟩
  · cases serialized with
    | none => exact Triple.throw _ fun r h => h.1.stopped
    | some batch =>
      apply triple_getNode
      intro n''
      rcases hc : n''.serializer.setTransmissionData (some batch) with ⟨complete, serializer⟩
      refine Triple.bind (R := fun _ r => Reached e r₀ r ∧ r.node.raftState = .follower)
        (triple_modifyNode ?_) fun _ => Triple.bind (R := fun _ => Reached e r₀)
          (triple_onlyIf (fun _ => loadDumpFile_reached) fun _ r h => h.1) fun _ =>
            acknowledge_reached
      rintro r ⟨⟨h, hterm, hf⟩, rfl⟩
      have := h.next (.install (hterm.symm ▸ he))
      rw [hc] at this
      exact ⟨this, hf⟩

theorem onApplyCommandResponse_reached {w : U} {id : ℕ} {result : Except FailReason (ℕ × ℕ)}
    (he : e = .receive w (.applyCommandResponse id result)) :
    Triple (Reached e r₀) (onApplyCommandResponse id result) (fun _ => Reached e r₀)
      (Stopped e r₀) := by
  intro r h
  refine triple_getNode (A := fun r' => r' = r) (fun n' => ?_) r rfl
  cases hfind : n'.commandsWaitingReply.find? (·.1 = id) with
  | none =>
    apply Triple.pure
    rintro _ ⟨rfl, -⟩
    exact h
  | some s =>
    obtain ⟨id', k⟩ := s
    obtain rfl : id' = id := by simpa using List.find?_some hfind
    refine Triple.bind (R := fun _ r' => r.node = n' ∧ r' = { r with node := { r.node with
      commandsWaitingReply := r.node.commandsWaitingReply.eraseP (·.1 = id') } })
      (triple_modifyNode ?_) fun _ => ?_
    · rintro _ ⟨rfl, rfl⟩
      exact ⟨rfl, rfl⟩
    · cases result with
      | error reason =>
        apply triple_callFunction
        · rintro _ env ⟨rfl, rfl⟩
          exact h.next (.replied env he hfind)
        · rintro _ env ⟨rfl, rfl⟩
          exact (h.next (.replied env he hfind)).stopped
      | ok place =>
        obtain ⟨idx, term⟩ := place
        refine triple_getNode fun n'' => Triple.ite (fun _ => triple_modifyNode ?_) fun _ =>
          Triple.throw _ ?_
        · rintro _ ⟨⟨rfl, rfl⟩, -⟩
          exact h.next (.appended he hfind)
        · rintro _ ⟨⟨rfl, rfl⟩, -⟩
          exact ⟨r, h, ⟨_, _, _, _, rfl, List.suffix_rfl, .inl rfl⟩, rfl, rfl, [],
            (List.append_nil _).symm, List.nil_subperm, fun _ h => nomatch h⟩

theorem onResponseVote_reached {w : U} {term : ℕ} (he : e = .receive w (.responseVote term)) :
    Triple (fun r => r = r₀) (onResponseVote term) (fun _ => Reached e r₀) (Stopped e r₀) := by
  refine triple_getNode fun n' => Triple.ite (fun hc => Triple.bind
    (R := fun _ r => Reached e r₀ r ∧ r.node.raftState = .candidate ∧
      r.node.votesCount = n'.votesCount + 1 ∧ r.node.nodes = n'.nodes) (triple_modifyNode ?_)
    fun _ => Triple.ite (fun hv => ?_) fun _ => Triple.pure _ fun r h => h.1) fun _ =>
      Triple.pure _ ?_
  · rintro r ⟨rfl, rfl⟩
    exact ⟨(Opening.count he hc.1 hc.2).reached, hc.1, rfl, rfl⟩
  · refine onBecomeLeader_reached.conseq ?_ (fun _ _ h => h) fun _ h => h
    rintro r ⟨h, hcand, hvotes, hnodes⟩
    exact ⟨h, hcand, by rw [hvotes, hnodes]; exact hv⟩
  · rintro r ⟨rfl, -⟩
    exact .refl e r

theorem onNextNodeIdx_reached {w : U} {nextNodeIdx : ℕ} {reset : Bool} :
    Triple (Reached e r₀) (onNextNodeIdx w nextNodeIdx reset) (fun _ => Reached e r₀)
      (Stopped e r₀) :=
  triple_getNode fun _ => Triple.ite (fun _ => triple_modifyNode fun _ h =>
    h.1.next (.quiet _ _ _ _ _ _)) fun _ => Triple.pure _ fun _ h => h.1

theorem onTick_reached {clock : Clock} :
    Triple (Reached e r₀) (onTick clock) (fun _ => Reached e r₀) (Stopped e r₀) := by
  refine triple_getNode fun n₁ => Triple.bind (R := fun _ => Reached e r₀)
    (triple_onlyIf (fun _ => startElection_reached.conseq (fun _ h => h.1) (fun _ _ h => h)
      fun _ h => h) fun _ r h => h.1) fun _ => triple_getNode fun n₂ => Triple.bind
        (R := fun _ => Reached e r₀) (triple_onlyIf (fun hl => ?_) fun _ r h => h.1) fun _ =>
          Triple.bind applyCommitted_reached fun _ => triple_getNode fun n₃ => Triple.bind
            ((checkCommandsToApply_reached _).conseq (fun _ h => h.1) (fun _ _ h => h)
              fun _ h => h) fun _ => tryLogCompaction_reached
  -- the leader's part
  refine triple_getCurrentEntry (fun last => triple_getNode fun n₃ => Triple.bind
    ((advanceCommitIndex_reached _).conseq ?_ (fun _ _ h => h) fun _ h => h) fun _ => ?_)
    fun r h => h.1.stopped
  · rintro r ⟨⟨⟨h, rfl⟩, -⟩, -⟩
    exact ⟨h, hl⟩
  · exact Triple.ite (fun _ => sendAppendEntries_reached) fun _ => Triple.pure _ fun r h => h.1

/-- **Every handler is a sequence of changes**, or is broken off in one. -/
theorem handle_reached (e : Event P U) (r₀ : Turn P U) :
    Triple (fun r => r = r₀) (handle e) (fun _ => Reached e r₀) (Stopped e r₀) := by
  have whole {m : Act P U Unit} (h : Triple (Reached e r₀) m (fun _ => Reached e r₀)
      (Stopped e r₀)) : Triple (fun r => r = r₀) m (fun _ => Reached e r₀) (Stopped e r₀) := by
    refine h.conseq ?_ (fun _ _ h => h) fun _ h => h
    rintro r rfl
    exact .refl e r
  cases e with
  | tick clock => exact whole onTick_reached
  | receive w m =>
    cases m with
    | requestVote term i t => exact onRequestVote_reached rfl
    | responseVote term => exact onResponseVote_reached rfl
    | appendEntries term commitIndex entries prev => exact whole (onAppendEntries_reached rfl)
    | appendSerialized term commitIndex serialized => exact whole (onAppendSerialized_reached rfl)
    | applyCommand command id =>
      cases id with
      | none => exact applyCommand_reached (.forward w command)
      | some id => exact applyCommand_reached (.request w command id)
    | applyCommandResponse id result => exact whole (onApplyCommandResponse_reached rfl)
    | nextNodeIdx next reset => exact whole onNextNodeIdx_reached
  | link addr connected => exact whole fun r h => h.links _ _
  | rebind => exact whole fun r h => h.next (.quiet _ _ _ _ _ _)
  | forceLogCompaction => exact whole fun r h => h.next (.quiet _ _ _ _ _ _)

/-! ## Top theorems -/

/-- **Every event is a sequence of changes**, or is broken off in one and halts the node. -/
theorem step_ends (n : SyncObj P U) (e : Event P U) (env : Environment) :
    Ends e ⟨n, [], [], [], env⟩ (n.step e env) := by
  have h := handle_reached e ⟨n, [], [], [], env⟩ _ rfl
  unfold SyncObj.step
  cases hr : handle e ⟨n, [], [], [], env⟩ with
  | ok a r =>
    rw [hr] at h
    exact .done h
  | error error r =>
    rw [hr] at h
    exact .halted h

omit [DecidableEq U] in
/-- A client's command is in the queue; or the queue is full, and its function, if there is one,
is told so at once. -/
theorem submit_cases (n : SyncObj P U) (command : P.Command) (function : Option ℕ)
    (env : Environment) :
    ((n.submit command function env).sent = [] ∧ (n.submit command function env).dumps = []) ∧
    ((n.submit command function env).node = { n with
        commandsQueue := n.commandsQueue ++ [(command, function.elim .none .function)] } ∧
      (n.submit command function env).calls = [] ∨
    (n.submit command function env).node = n ∧
      (n.submit command function env).calls = function.toList.map (⟨·, none, .queueFull⟩)) := by
  let Result (r : Turn P U) : Prop := (r.sent = [] ∧ r.dumps = []) ∧
    (r.node = { n with
        commandsQueue := n.commandsQueue ++ [(command, function.elim .none .function)] } ∧
      r.calls = [] ∨
    r.node = n ∧ r.calls = function.toList.map (⟨·, none, .queueFull⟩))
  have h : Triple (fun r => r = ⟨n, [], [], [], env⟩)
      (applyCommand command (function.elim .none .function)) (fun _ => Result) Result := by
    refine triple_getNode fun n' => Triple.ite (fun _ => ?_) fun _ => triple_modifyNode ?_
    · cases function with
      | none =>
        apply Triple.throw
        rintro _ ⟨rfl, -⟩
        exact ⟨⟨rfl, rfl⟩, .inr ⟨rfl, rfl⟩⟩
      | some k =>
        apply triple_callFunction
        · rintro _ env' ⟨rfl, -⟩
          exact ⟨⟨rfl, rfl⟩, .inr ⟨rfl, rfl⟩⟩
        · rintro _ env' ⟨rfl, -⟩
          exact ⟨⟨rfl, rfl⟩, .inr ⟨rfl, rfl⟩⟩
    · rintro _ ⟨rfl, -⟩
      exact ⟨⟨rfl, rfl⟩, .inl ⟨rfl, rfl⟩⟩
  have := h _ rfl
  unfold SyncObj.submit
  cases hr : applyCommand command (function.elim .none .function) ⟨n, [], [], [], env⟩ with
  | ok a r =>
    rw [hr] at this
    exact this
  | error e r =>
    rw [hr] at this
    exact this

end Pysyncobj
