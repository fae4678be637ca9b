import Krafters.Pysyncobj.Commands
import Krafters.Pysyncobj.LogMatching

/-!
# Replies

From a submission to the call of its function: the function waits in the queue with its command,
then for a reply to the request that took the command to the leader, then for the commit of the
entry that the leader made of it.

    success for a function  →  its own command was applied      (success_own_result)

as long as index and term determine an entry, that is, no node votes twice in a term and snapshots
are loaded only as they were taken.
-/

namespace Pysyncobj

variable {P : Replicated} {U : Type} [DecidableEq U]

/-! ## Algorithm -/

/-- What node `u` knows of the functions it has to call. -/
structure SyncObj.Knows (a : List (Entry P.Command × Entry P.Command)) (s : System P U) (u : U)
    (n : SyncObj P U) : Prop where
  function : ∀ x k, (x, .function k) ∈ n.commandsQueue → (u, x, some k) ∈ s.submitted
  request : ∀ x v id, (x, .request v id) ∈ n.commandsQueue →
    ∃ w, ⟨v, w, .applyCommand x (some id)⟩ ∈ s.sent
  old : ∀ id k, (id, k) ∈ n.commandsWaitingReply → id ≤ n.commandsLocalCounter
  reply : ∀ id k, (id, k) ∈ n.commandsWaitingReply → ∃ x, (u, x, some k) ∈ s.submitted ∧
    ∀ w y, ⟨u, w, .applyCommand y (some id)⟩ ∈ s.sent → y = x
  commit : ∀ idx term k, (idx, term, k) ∈ n.commandsWaitingCommit →
    ∃ x, (u, x, some k) ∈ s.submitted ∧ ∃ y, (y, ⟨some x, idx, term⟩) ∈ a

structure System.Traced (a : List (Entry P.Command × Entry P.Command)) (s : System P U) :
    Prop where
  node : ∀ u, (s.nodes u).halted = false → (s.nodes u).Knows a s u
  ids : ∀ u w x id, ⟨u, w, .applyCommand x (some id)⟩ ∈ s.sent →
    id ≤ (s.nodes u).commandsLocalCounter
  response : ∀ w u id idx term, ⟨w, u, .applyCommandResponse id (.ok (idx, term))⟩ ∈ s.sent →
    ∃ x, (∃ w', ⟨u, w', .applyCommand x (some id)⟩ ∈ s.sent) ∧ ∃ y, (y, ⟨some x, idx, term⟩) ∈ a
  refusal : ∀ w u id reason, ⟨w, u, .applyCommandResponse id (.error reason)⟩ ∈ s.sent →
    reason = .notLeader

/-! ## Lemmas -/

variable {c : Cluster U} {a : List (Entry P.Command × Entry P.Command)} {s : System P U} {u v : U}
  {n : SyncObj P U} {e : Event P U} {env : Environment} {r : Turn P U}

theorem Change.queue_suffix (h : Change e ⟨n, [], [], [], env⟩ r) :
    r.node.commandsQueue <:+ n.commandsQueue := by
  cases h with
  | append hl hq hlast hs => exact ⟨[_], hq.symm⟩
  | forward leader hq hs => exact ⟨[_], hq.symm⟩
  | forwardQuietly leader hq hs => exact ⟨[_], hq.symm⟩
  | refuse hq hs => exact ⟨[_], hq.symm⟩
  | missingLeader env hq => exact ⟨[_], hq.symm⟩
  | _ => exact List.suffix_rfl

theorem Change.counter_le (h : Change e ⟨n, [], [], [], env⟩ r) :
    n.commandsLocalCounter ≤ r.node.commandsLocalCounter := by
  cases h with
  | forward leader hq hs => exact Nat.le_succ _
  | _ => exact le_rfl

theorem Change.waitingReply (h : Change e ⟨n, [], [], [], env⟩ r) {id k : ℕ}
    (hid : (id, k) ∈ r.node.commandsWaitingReply) : (id, k) ∈ n.commandsWaitingReply ∨
      id = n.commandsLocalCounter + 1 ∧ r.node.commandsLocalCounter = id ∧
        ∃ x queue, n.commandsQueue = (x, .function k) :: queue := by
  cases h with
  | leaderChanged => cases hid
  | forward leader hq hs =>
    refine (List.mem_append.mp hid).imp (fun hid => hid) fun hid => ?_
    cases List.mem_singleton.mp hid
    exact ⟨rfl, rfl, _, _, hq⟩
  | replied env he h => exact .inl (List.mem_of_mem_eraseP hid)
  | appended he h => exact .inl (List.mem_of_mem_eraseP hid)
  | _ => exact .inl hid

theorem Change.waitingCommit (h : Change e ⟨n, [], [], [], env⟩ r) {idx term k : ℕ}
    (hk : (idx, term, k) ∈ r.node.commandsWaitingCommit) :
    (idx, term, k) ∈ n.commandsWaitingCommit ∨
    (∃ x last queue, n.commandsQueue = (x, .function k) :: queue ∧
      n.appended r.node = [(last, ⟨some x, idx, term⟩)]) ∨
    ∃ w id, e = .receive w (.applyCommandResponse id (.ok (idx, term))) ∧
      (id, k) ∈ n.commandsWaitingReply := by
  cases h with
  | append hl hq hlast hs =>
    refine (List.mem_append.mp hk).imp id fun hk => .inl ?_
    cases ‹Callback U› with
    | function k' =>
      cases List.mem_singleton.mp hk
      exact ⟨_, _, _, hq, SyncObj.appended_eq hl hlast rfl⟩
    | _ => cases hk
  | apply env h => exact .inl (List.mem_of_mem_filter hk)
  | appended he h =>
    refine (List.mem_append.mp hk).imp id fun hk => .inr ?_
    cases List.mem_singleton.mp hk
    exact ⟨_, _, he, List.mem_of_find?_eq_some h⟩
  | _ => exact .inl hk

/-- Whoever is told where the command of a request is. -/
theorem Change.responds (h : Change e ⟨n, [], [], [], env⟩ r) {w : U} {id idx term : ℕ}
    (hm : (w, .applyCommandResponse id (.ok (idx, term))) ∈ r.sent) :
    ∃ x last queue, n.commandsQueue = (x, .request w id) :: queue ∧
      n.appended r.node = [(last, ⟨some x, idx, term⟩)] := by
  have other {m : U × Message P} {sent : List (U × Message P)} (hs : sent.Sublist [m])
      (hmem : (w, Message.applyCommandResponse id (.ok (idx, term))) ∈ [] ++ sent) :
      (w, .applyCommandResponse id (.ok (idx, term))) = m := List.mem_singleton.mp (hs.subset hmem)
  cases h with
  | campaign i t hs =>
    obtain ⟨v, -, heq⟩ := List.mem_map.mp (hs.subset hm)
    cases heq
  | append hl hq hlast hs =>
    cases ‹Callback U› with
    | request v id' =>
      cases other hs hm
      exact ⟨_, _, _, hq, SyncObj.appended_eq hl hlast rfl⟩
    | _ => cases hs.subset hm
  | forward leader hq hs => cases other hs hm
  | forwardQuietly leader hq hs => cases other hs hm
  | refuse hq hs => cases other hs hm
  | batch ha hl hs => cases other hs hm
  | entries ha h => cases other (.refl _) hm
  | acknowledge addr next reset => cases other (.refl _) hm
  | _ => cases hm

/-- A call with a result is explained by the entry that is applied. -/
theorem Change.explains (h : Change e ⟨n, [], [], [], env⟩ r)
    (hrefused : ∀ w id reason, e = .receive w (.applyCommandResponse id (.error reason)) →
      reason ≠ .success) : ∀ c ∈ r.calls, n.Explains c := by
  cases h with
  | leaderChanged =>
    intro c hc hs
    obtain ⟨s, -, rfl⟩ := List.mem_map.mp hc
    cases hs
  | missingLeader env hq =>
    intro c hc hs
    rw [List.mem_singleton.mp hc] at hs
    cases hs
  | @apply entry command _ h =>
    intro c hc hs
    obtain ⟨s, hs', rfl⟩ := List.mem_map.mp hc
    obtain ⟨hmem, hidx⟩ := List.mem_filter.mp hs'
    obtain ⟨ht, hresult⟩ := entry.reply_success hs
    refine ⟨entry, command, h, ?_, hresult⟩
    rw [← of_decide_eq_true hidx, ← ht, entry.reply_function]
    exact hmem
  | replied env he h =>
    intro c hc hs
    rw [List.mem_singleton.mp hc] at hs
    exact (hrefused _ _ _ he hs).elim
  | _ => exact fun c hc => nomatch hc

/-- A request carries the first command of the queue and the next number. -/
theorem Change.requests (h : Change e ⟨n, [], [], [], env⟩ r) {w : U} {x : P.Command} {id : ℕ}
    (hm : (w, .applyCommand x (some id)) ∈ r.sent) :
    id = n.commandsLocalCounter + 1 ∧ r.node.commandsLocalCounter = id ∧
      ∃ k queue, n.commandsQueue = (x, .function k) :: queue := by
  have other {m : U × Message P} {sent : List (U × Message P)} (hs : sent.Sublist [m])
      (hmem : (w, Message.applyCommand x (some id)) ∈ [] ++ sent) :
      (w, .applyCommand x (some id)) = m := List.mem_singleton.mp (hs.subset hmem)
  cases h with
  | campaign i t hs =>
    obtain ⟨v, -, heq⟩ := List.mem_map.mp (hs.subset hm)
    cases heq
  | append hl hq hlast hs =>
    cases ‹Callback U› with
    | request v id' => cases other hs hm
    | _ => cases hs.subset hm
  | forward leader hq hs =>
    cases other hs hm
    exact ⟨rfl, rfl, _, _, hq⟩
  | forwardQuietly leader hq hs => cases other hs hm
  | refuse hq hs => cases other hs hm
  | batch ha hl hs => cases other hs hm
  | entries ha h => cases other (.refl _) hm
  | acknowledge addr next reset => cases other (.refl _) hm
  | _ => cases hm

variable {a' : List (Entry P.Command × Entry P.Command)} {s' : System P U}

omit [DecidableEq U] in
/-- What others do leaves the knowledge of a node as it is. -/
theorem SyncObj.Knows.mono (h : n.Knows a s v) (ha : a ⊆ a') (hsub : s.submitted ⊆ s'.submitted)
    (hsent : s.sent ⊆ s'.sent) (hnew : ∀ w y id, ⟨v, w, .applyCommand y (some id)⟩ ∈ s'.sent →
      ⟨v, w, .applyCommand y (some id)⟩ ∈ s.sent ∨ n.commandsLocalCounter < id) :
    n.Knows a' s' v where
  function x k hk := hsub (h.function x k hk)
  request x v id hid := by
    obtain ⟨w, hw⟩ := h.request x v id hid
    exact ⟨w, hsent hw⟩
  old := h.old
  reply id k hk := by
    obtain ⟨x, hx, hall⟩ := h.reply id k hk
    refine ⟨x, hsub hx, fun w y hy => ?_⟩
    rcases hnew w y id hy with hy | hlt
    · exact hall w y hy
    · exact absurd (h.old id k hk) (by omega)
  commit idx term k hk := by
    obtain ⟨x, hx, y, hy⟩ := h.commit idx term k hk
    exact ⟨x, hsub hx, y, ha hy⟩

omit [DecidableEq U] in
/-- The packets on the way do not count, nor do further submissions. -/
theorem System.Traced.later (h : s.Traced a) (network : List (Packet P U))
    {submitted : List (U × P.Command × Option ℕ)} (hsub : s.submitted ⊆ submitted) :
    ({ s with network, submitted } : System P U).Traced a where
  node u hu := (h.node u hu).mono (fun _ h => h) hsub (fun _ h => h) fun _ _ _ h => .inl h
  ids := h.ids
  response := h.response
  refusal := h.refusal

theorem System.mem_sent_during {p : Packet P U} : p ∈ (s.during u r).sent ↔
    p ∈ s.sent ∨ p.fromAddr = u ∧ (p.toAddr, p.message) ∈ r.sent := by
  rw [System.during, List.mem_append, Turn.packets, List.mem_map]
  refine or_congr_right ⟨?_, ?_⟩
  · rintro ⟨m, hm, rfl⟩
    exact ⟨rfl, hm⟩
  · rintro ⟨rfl, hm⟩
    exact ⟨_, hm, rfl⟩

/-- An event of node `u`. -/
theorem System.Traced.during (h : s.Traced a) (ha : a ⊆ a')
    (hcounter : (s.nodes u).commandsLocalCounter ≤ r.node.commandsLocalCounter)
    (hnode : r.node.halted = false → r.node.Knows a' (s.during u r) u)
    (hids : ∀ w x id, (w, .applyCommand x (some id)) ∈ r.sent →
      (s.nodes u).commandsLocalCounter < id ∧ id ≤ r.node.commandsLocalCounter)
    (hresponse : ∀ w id idx term, (w, .applyCommandResponse id (.ok (idx, term))) ∈ r.sent →
      ∃ x, (∃ w', ⟨w, w', .applyCommand x (some id)⟩ ∈ s.sent) ∧ ∃ y, (y, ⟨some x, idx, term⟩) ∈ a')
    (hrefusal : ∀ w id reason, (w, .applyCommandResponse id (.error reason)) ∈ r.sent →
      reason = .notLeader) : (s.during u r).Traced a' where
  node v hv := by
    by_cases hvu : v = u
    · subst hvu
      rw [during_self] at hv ⊢
      exact hnode hv
    · rw [during_of_ne hvu] at hv ⊢
      refine (h.node v hv).mono ha (fun _ hx => hx) (fun _ hp => mem_sent_during.mpr (.inl hp)) ?_
      intro w y id hp
      exact .inl ((mem_sent_during.mp hp).resolve_right fun hnew => hvu hnew.1)
  ids v w x id hp := by
    rcases mem_sent_during.mp hp with hp | ⟨heq, hm⟩
    · refine (h.ids v w x id hp).trans ?_
      by_cases hvu : v = u
      · subst hvu
        rwa [during_self]
      · rw [during_of_ne hvu]
    · dsimp only at heq
      subst heq
      rw [during_self]
      exact (hids w x id hm).2
  response w v id idx term hp := by
    have hmono {x : P.Command} (hw : ∃ w', ⟨v, w', .applyCommand x (some id)⟩ ∈ s.sent) :
        ∃ w', ⟨v, w', .applyCommand x (some id)⟩ ∈ (s.during u r).sent := by
      obtain ⟨w', hw⟩ := hw
      exact ⟨w', mem_sent_during.mpr (.inl hw)⟩
    rcases mem_sent_during.mp hp with hp | ⟨-, hm⟩
    · obtain ⟨x, hw, y, hy⟩ := h.response w v id idx term hp
      exact ⟨x, hmono hw, y, ha hy⟩
    · obtain ⟨x, hw, hy⟩ := hresponse v id idx term hm
      exact ⟨x, hmono hw, hy⟩
  refusal w v id reason hp := by
    rcases mem_sent_during.mp hp with hp | ⟨-, hm⟩
    · exact h.refusal w v id reason hp
    · exact hrefusal v id reason hm

theorem System.Traced.change (h : s.Traced a) (hh : (s.nodes u).halted = false)
    (he : ∀ w m, e = .receive w m → ⟨w, u, m⟩ ∈ s.sent)
    (hc : Change e ⟨s.nodes u, [], [], [], env⟩ r) :
    (s.during u r).Traced (a ++ (s.nodes u).appended r.node) := by
  have hnode := h.node u hh
  have ha : a ⊆ a ++ (s.nodes u).appended r.node := List.subset_append_left _ _
  -- what the node knew before is still so
  have hknows : (s.nodes u).Knows (a ++ (s.nodes u).appended r.node) (s.during u r) u := by
    refine hnode.mono ha (fun _ hx => hx) (fun _ hp => mem_sent_during.mpr (.inl hp)) ?_
    intro w y id hp
    refine (mem_sent_during.mp hp).imp (fun hp => hp) fun hnew => ?_
    rw [(hc.requests hnew.2).1]
    exact Nat.lt_succ_self _
  refine h.during ha hc.counter_le (fun _ => ⟨?_, ?_, ?_, ?_, ?_⟩) ?_ ?_ ?_
  · exact fun x k hk => hknows.function x k (hc.queue_suffix.subset hk)
  · exact fun x v id hid => hknows.request x v id (hc.queue_suffix.subset hid)
  · intro id k hid
    rcases hc.waitingReply hid with hold | ⟨-, heq, -⟩
    · exact (hknows.old id k hold).trans hc.counter_le
    · exact heq.ge
  · intro id k hid
    rcases hc.waitingReply hid with hold | ⟨rfl, -, x, queue, hq⟩
    · exact hknows.reply id k hold
    · refine ⟨x, hknows.function x k (hq ▸ List.mem_cons_self), fun w y hp => ?_⟩
      rcases mem_sent_during.mp hp with hp | ⟨-, hm⟩
      · exact absurd (h.ids u w y _ hp) (by omega)
      · obtain ⟨-, -, k', queue', hq'⟩ := hc.requests hm
        cases hq.symm.trans hq'
        rfl
  · intro idx term k hk
    rcases hc.waitingCommit hk with hold | ⟨x, last, queue, hq, hx⟩ | ⟨w, id, heq, hid⟩
    · exact hknows.commit idx term k hold
    · refine ⟨x, hknows.function x k (hq ▸ List.mem_cons_self), last, ?_⟩
      rw [hx]
      exact List.mem_append_right _ List.mem_cons_self
    · obtain ⟨x, ⟨w', hw⟩, y, hy⟩ := h.response w u id idx term (he _ _ heq)
      obtain ⟨x', hx', hall⟩ := hnode.reply id k hid
      obtain rfl := hall w' x hw
      exact ⟨x, hx', y, ha hy⟩
  · intro w x id hm
    obtain ⟨rfl, heq, -⟩ := hc.requests hm
    exact ⟨Nat.lt_succ_self _, heq.ge⟩
  · intro w id idx term hm
    obtain ⟨x, last, queue, hq, hx⟩ := hc.responds hm
    refine ⟨x, hnode.request x w id (hq ▸ List.mem_cons_self), last, ?_⟩
    rw [hx]
    exact List.mem_append_right _ List.mem_cons_self
  · intro w id reason hm
    cases hc.sends _ hm
    rfl

omit [DecidableEq U] in
theorem Opening.counter (h : Opening e ⟨n, [], [], [], env⟩ r) :
    r.node.commandsLocalCounter = n.commandsLocalCounter ∧
    r.node.commandsWaitingReply = n.commandsWaitingReply ∧
    r.node.commandsWaitingCommit = n.commandsWaitingCommit := by
  cases h with
  | vote he hs =>
    dsimp only
    split <;> exact ⟨rfl, rfl, rfl⟩
  | _ => exact ⟨rfl, rfl, rfl⟩

theorem System.Traced.opening {p : Packet P U} {before behind : List (Packet P U)}
    (h : s.Traced a) (hp : p ∈ s.sent) (hh : (s.nodes p.toAddr).halted = false)
    (ho : Opening (.receive p.fromAddr p.message) ⟨s.nodes p.toAddr, [], [], [], env⟩ r) :
    (({ s with network := before ++ behind } : System P U).during p.toAddr r).Traced a := by
  have hnode := h.node _ hh
  obtain ⟨hcounter, hreply, hcommit⟩ := ho.counter
  have hvotes : ∀ m ∈ r.sent, m.2.isVote = true := by
    intro m hm
    cases ho with
    | vote he hs =>
      rw [List.mem_singleton.mp (hs.subset hm)]
      rfl
    | _ => cases hm
  have hqueue : ∀ x ∈ r.node.commandsQueue, x ∈ (s.nodes p.toAddr).commandsQueue ∨
      ∃ id, x.2 = .none ∨ x.2 = .request p.fromAddr id ∧
        ⟨p.fromAddr, p.toAddr, .applyCommand x.1 (some id)⟩ ∈ s.sent := by
    intro x hx
    cases ho with
    | enqueue he =>
      refine (List.mem_append.mp hx).imp (fun hx => hx) fun hx => ?_
      obtain rfl := List.mem_singleton.mp hx
      obtain ⟨fromAddr, toAddr, m⟩ := p
      cases he with
      | request w command id => exact ⟨id, .inr ⟨rfl, hp⟩⟩
      | forward w command => exact ⟨0, .inl rfl⟩
    | vote he hs =>
      dsimp only at hx
      split at hx <;> exact .inl hx
    | count he hc ht => exact .inl hx
  have hsent {q : Packet P U} (hq : q ∈ s.sent) :
      q ∈ (({ s with network := before ++ behind } : System P U).during p.toAddr r).sent :=
    mem_sent_during.mpr (.inl hq)
  refine Traced.during (s := { s with network := before ++ behind })
    (h.later _ (List.Subset.refl _)) (fun _ h => h) hcounter.ge
    (fun _ => ⟨?_, ?_, ?_, ?_, ?_⟩) ?_ ?_ ?_
  · intro x k hk
    rcases hqueue _ hk with hk | ⟨id, hnone | ⟨hreq, -⟩⟩
    · exact hnode.function x k hk
    · cases hnone
    · cases hreq
  · intro x v id hid
    rcases hqueue _ hid with hid | ⟨id', hnone | ⟨hreq, hp⟩⟩
    · obtain ⟨w, hw⟩ := hnode.request x v id hid
      exact ⟨w, hsent hw⟩
    · cases hnone
    · cases hreq
      exact ⟨_, hsent hp⟩
  · rw [hreply, hcounter]
    exact hnode.old
  · intro id k hid
    rw [hreply] at hid
    obtain ⟨x, hx, hall⟩ := hnode.reply id k hid
    refine ⟨x, hx, fun w y hy => ?_⟩
    rcases mem_sent_during.mp hy with hy | ⟨-, hm⟩
    · exact hall w y hy
    · cases hvotes _ hm
  · rw [hcommit]
    exact hnode.commit
  · exact fun w x id hm => nomatch hvotes _ hm
  · exact fun w id idx term hm => nomatch hvotes _ hm
  · exact fun w id reason hm => nomatch hvotes _ hm

namespace Cluster

theorem Moment.traced (h : c.Moment a s) : s.Traced a := by
  induction h with
  | initial =>
    refine ⟨fun u _ => ⟨?_, ?_, ?_, ?_, ?_⟩, ?_, ?_, ?_⟩
    · exact fun x k hk => nomatch hk
    · exact fun x v id hid => nomatch hid
    · exact fun id k hid => nomatch hid
    · exact fun id k hid => nomatch hid
    · exact fun idx term k hk => nomatch hk
    · exact fun u w x id hp => nomatch hp
    · exact fun w u id idx term hp => nomatch hp
    · exact fun w u id reason hp => nomatch hp
  | lose _ hp ih => exact ih.later _ (List.Subset.refl _)
  | @opening a s p before behind env r h hu hh hp ho ih =>
    refine ih.opening (h.network_sent.subset ?_) hh ho
    rw [hp]
    exact List.mem_append_right _ List.mem_cons_self
  | change _ hu hh he hc ih => exact ih.change hh he hc
  | @broken a s u env r h hu hh hi ih =>
    have hsent : r.sent = [] := hi.sent
    obtain ⟨⟨_, _, _, _, heq, -⟩, -, -⟩ := hi
    refine ih.during (fun _ h => h) ?_ (fun h => nomatch h) ?_ ?_ ?_
    · rw [heq]
    · exact fun w x id hm => nomatch hsent ▸ hm
    · exact fun w id idx term hm => nomatch hsent ▸ hm
    · exact fun w id reason hm => nomatch hsent ▸ hm
  | @submit a s u command function env h hu ih =>
    obtain ⟨⟨hsent, -⟩, hcases⟩ := submit_cases (s.nodes u) command function env
    have hlater := ih.later s.network (List.subset_append_left s.submitted [(u, command, function)])
    obtain ⟨queue, hq⟩ := (s.nodes u).submit_keeps command function env
    refine hlater.during (fun _ h => h) ?_ ?_ ?_ ?_ ?_
    · rw [hq]
    · intro hh
      rw [hq] at hh
      have hknows : (s.nodes u).Knows a (({ s with submitted := s.submitted ++
          [(u, command, function)] } : System P U).during u
          ((s.nodes u).submit command function env)) u :=
        (hlater.node u hh).mono (fun _ h => h) (fun _ h => h)
          (fun _ hp => System.mem_sent_during.mpr (.inl hp)) fun w y id hp =>
            .inl ((System.mem_sent_during.mp hp).resolve_right fun hm => nomatch hsent ▸ hm.2)
      rcases hcases with ⟨hn, -⟩ | ⟨hn, -⟩
      · rw [hn]
        refine ⟨fun x k hk => ?_, fun x v id hid => ?_, hknows.old, hknows.reply, hknows.commit⟩
        · rcases List.mem_append.mp hk with hk | hk
          · exact hknows.function x k hk
          · cases function with
            | none => cases List.mem_singleton.mp hk
            | some k' =>
              cases List.mem_singleton.mp hk
              exact List.mem_append_right _ List.mem_cons_self
        · rcases List.mem_append.mp hid with hid | hid
          · exact hknows.request x v id hid
          · cases function <;> cases List.mem_singleton.mp hid
      · rw [hn]
        exact hknows
    · exact fun w x id hm => nomatch hsent ▸ hm
    · exact fun w id idx term hm => nomatch hsent ▸ hm
    · exact fun w id reason hm => nomatch hsent ▸ hm

/-- The result of a call is that of its own command. -/
theorem Moment.explained (h : c.Moment a s) (hl : s.LoadsTaken) (hs : c.SingleVotes s)
    (hh : (s.nodes u).halted = false) {call : Call P} (hc : (s.nodes u).Explains call)
    (hsuccess : call.reason = .success) :
    ∃ command commands, (u, command, some call.function) ∈ s.submitted ∧
      call.result = some (P.apply command (P.run commands)).1 ∧
      (commands ++ [command]).Subperm (s.submitted.map (·.2.1)) := by
  obtain ⟨entry, command, hnext, hwait, hresult⟩ := hc hsuccess
  obtain ⟨hlogs, happended⟩ := h.grown hl
  obtain ⟨hidx, y, hy⟩ := (hlogs.log u).next happended hnext
  -- the entry of the function's own command has this index and term
  obtain ⟨x, hx, y', hy'⟩ := (h.traced.node u hh).commit _ _ _ hwait
  have heq := (Prod.mk.inj (h.append_unique hs hy hy' rfl rfl)).2
  have hcommand : some command = some x := hnext.2.symm.trans (congrArg Entry.command heq)
  obtain rfl := Option.some_inj.mp hcommand
  obtain ⟨entries, hdata, hentries, hlen, hmem⟩ : Applied a (s.nodes u).data
      (s.nodes u).raftLastApplied := by
    rcases (h.applied hl).2 u with hnode | ⟨hhalted, -⟩
    · exact hnode
    · cases hh.symm.trans hhalted
  refine ⟨command, entries.filterMap Entry.command, hx, hdata ▸ hresult, ?_⟩
  have hcommands : entries.filterMap Entry.command ++ [command] =
      (entries ++ [entry]).filterMap Entry.command := by
    rw [List.filterMap_append, List.filterMap_cons_some hnext.2]
    rfl
  rw [hcommands]
  refine h.subperm (k := entries.length + 1) ?_ ?_
  · rw [List.map_append, hentries, List.range'_concat, List.map_singleton, hidx]
    congr 2
    omega
  · intro z hz
    rcases List.mem_append.mp hz with hz | hz
    · exact hmem z hz
    · rw [List.mem_singleton.mp hz]
      exact ⟨y, hy⟩

theorem Moment.own_result (h : c.Moment a s) (hl : s.LoadsTaken) (hs : c.SingleVotes s) :
    ∀ u, ∀ call : Call P, (u, call) ∈ s.calls → call.reason = .success →
    ∃ command commands, (u, command, some call.function) ∈ s.submitted ∧
      call.result = some (P.apply command (P.run commands)).1 ∧
      (commands ++ [command]).Subperm (s.submitted.map (·.2.1)) := by
  induction h with
  | initial => exact fun u call hc => nomatch hc
  | lose _ hp ih => exact ih hl hs
  | @opening a s p before behind env r _ _ _ _ ho ih =>
    have hcalls : r.calls = [] := by cases ho <;> rfl
    intro u call hc
    rw [System.during, hcalls, List.map_nil, List.append_nil] at hc
    exact ih hl.of_during (hs.of_sent System.sent_during) u call hc
  | @change a s u e env r h hu hh he hc ih =>
    have hsv := hs.of_sent (System.sent_during (s := s))
    intro v call hcall hsuccess
    rcases List.mem_append.mp hcall with hcall | hcall
    · exact ih hl.of_during hsv v call hcall hsuccess
    · obtain ⟨call, hmem, heq⟩ := List.mem_map.mp hcall
      cases heq
      refine h.explained hl.of_during hsv hh (hc.explains ?_ call hmem) hsuccess
      intro w id reason hm hreason
      cases (h.traced.refusal w u id reason (he _ _ hm)).symm.trans hreason
  | @broken a s u env r h hu hh hi ih =>
    have hsv := hs.of_sent (System.sent_during (s := s))
    intro v call hcall hsuccess
    rcases List.mem_append.mp hcall with hcall | hcall
    · exact ih hl.of_during hsv v call hcall hsuccess
    · obtain ⟨call, hmem, heq⟩ := List.mem_map.mp hcall
      cases heq
      obtain ⟨calls, hcalls, -, hexplains⟩ := hi.calls
      rw [List.nil_append] at hcalls
      exact h.explained hl.of_during hsv hh (hexplains call (hcalls ▸ hmem)).1 hsuccess
  | @submit a s u command function env h hu ih =>
    intro v call hcall hsuccess
    rcases List.mem_append.mp hcall with hcall | hcall
    · obtain ⟨x, commands, hx, hresult, hsub⟩ :=
        ih hl.of_during (hs.of_sent System.sent_during) v call hcall hsuccess
      refine ⟨x, commands, List.mem_append_left _ hx, hresult, hsub.trans ?_⟩
      exact ((List.sublist_append_left _ _).map _).subperm
    · obtain ⟨call, hmem, heq⟩ := List.mem_map.mp hcall
      cases heq
      exfalso
      rcases (submit_cases (s.nodes u) command function env).2 with ⟨-, hcalls⟩ | ⟨-, hcalls⟩
      · rw [hcalls] at hmem
        cases hmem
      · rw [hcalls] at hmem
        obtain ⟨k, -, rfl⟩ := List.mem_map.mp hmem
        cases hsuccess

/-! ## Top theorems -/

/-- **A function that is called with success gets the result of its own command**, applied behind
others that were submitted, none of them twice; as long as no node votes for two candidates of a
term and snapshots are loaded only as they were taken. -/
theorem success_own_result (h : c.Reachable s) (hl : s.LoadsTaken) (hs : c.SingleVotes s)
    {call : Call P} (hc : (u, call) ∈ s.calls) (hsuccess : call.reason = .success) :
    ∃ command commands, (u, command, some call.function) ∈ s.submitted ∧
      call.result = some (P.apply command (P.run commands)).1 ∧
      (commands ++ [command]).Subperm (s.submitted.map (·.2.1)) := by
  obtain ⟨a, hm⟩ := h.moment
  exact hm.own_result hl hs u call hc hsuccess

/-- The function waits at a node that has installed a snapshot. -/
theorem success_own_result_catchUp :
    let s := catchUp.foldl trio.play trio.initial
    ∃ (command : ℕ) (commands : List ℕ), (2, command, some 7) ∈ s.submitted ∧
      some (3 : ℕ) = some command ∧
      (commands ++ [command]).Subperm (s.submitted.map (·.2.1)) := by
  intro s
  have h : trio.Reachable s := Reachable.plays .refl catchUp
  have hs : trio.SingleVotes s := by decide +kernel
  have hc : (2, ⟨7, some (3 : ℕ), .success⟩) ∈ s.calls := by decide +kernel
  exact success_own_result h catchUp_loadsTaken hs hc rfl

end Cluster

end Pysyncobj
