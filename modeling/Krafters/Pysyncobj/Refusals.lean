import Krafters.Pysyncobj.CustomServer
import Krafters.Pysyncobj.Replies

/-!
# Refusals

A node refuses a command when its queue is full, when there is no leader, or when the command came
from another node and it does not lead.  It has dropped the command then, so for a function that
is told so

    queues + messages + entries + 1 ≤ submitted

for the command of the function, and from then on: whoever submits it again does not have it
applied twice for that.
-/

namespace Pysyncobj

variable {P : Replicated} {U : Type} [DecidableEq U]

/-! ## Algorithm -/

/-- A submission of the command is in no queue, no message and no entry any more. -/
def System.Gone (s : System P U) (addrs : Finset U)
    (a : List (Entry P.Command × Entry P.Command)) (x : P.Command) : Prop :=
  ∀ q : P.Command → Bool, s.holds addrs a q + (if q x then 1 else 0) ≤ s.submitted.countP (q ·.2.1)

/-- In the turn the node drops a command of its queue. -/
def SyncObj.Drops (n : SyncObj P U) (r : Turn P U) (x : P.Command) : Prop :=
  ∀ q : P.Command → Bool, r.node.commandsQueue.countP (q ·.1) + r.sent.countP (·.2.carries q) +
    (n.appended r.node).countP (·.2.command.any q) + (if q x then 1 else 0) ≤
      n.commandsQueue.countP (q ·.1)

/-- Whoever is told of a refusal has submitted a command that is gone. -/
structure System.Refused (s : System P U) (addrs : Finset U)
    (a : List (Entry P.Command × Entry P.Command)) : Prop where
  response : ∀ w u id reason, ⟨w, u, .applyCommandResponse id (.error reason)⟩ ∈ s.sent →
    ∃ x, (∃ w', ⟨u, w', .applyCommand x (some id)⟩ ∈ s.sent) ∧ s.Gone addrs a x
  call : ∀ u call, (u, call) ∈ s.calls → call.reason.refuses = true →
    ∃ x, (u, x, some call.function) ∈ s.submitted ∧ s.Gone addrs a x

/-! ## Lemmas -/

variable {c : Cluster U} {a a' : List (Entry P.Command × Entry P.Command)} {s : System P U}
  {u v : U} {n : SyncObj P U} {e : Event P U} {env : Environment} {r : Turn P U} {addrs : Finset U}
  {x : P.Command}

omit [DecidableEq U] in
theorem SyncObj.appended_same {n' : SyncObj P U} (h : n'.raftLog = n.raftLog) :
    n.appended n' = [] := by
  unfold SyncObj.appended
  rw [h, List.drop_length]
  split
  · next h => cases h
  · rfl

omit [DecidableEq U] in
theorem SyncObj.drops_head {callback : Callback U} {queue : List (P.Command × Callback U)}
    (hq : n.commandsQueue = (x, callback) :: queue) (hqueue : r.node.commandsQueue = queue)
    (hlog : r.node.raftLog = n.raftLog) (hs : ∀ m ∈ r.sent, ∀ y id, m.2 ≠ .applyCommand y id) :
    n.Drops r x := by
  intro q
  have hsent : r.sent.countP (·.2.carries q) = 0 := by
    rw [List.countP_eq_zero]
    rintro ⟨w, m⟩ hm hcarries
    cases m with
    | applyCommand y id => exact hs _ hm y id rfl
    | _ => cases hcarries
  rw [hqueue, hsent, SyncObj.appended_same hlog, hq, List.countP_cons]
  exact le_rfl

/-- A node that refuses a request drops its command. -/
theorem Change.refusal (h : Change e ⟨n, [], [], [], env⟩ r) {w : U} {id : ℕ} {reason : FailReason}
    (hm : (w, .applyCommandResponse id (.error reason)) ∈ r.sent) :
    ∃ x, (x, .request w id) ∈ n.commandsQueue ∧ n.Drops r x := by
  have other {m : U × Message P} {sent : List (U × Message P)} (hs : sent.Sublist [m])
      (hmem : (w, Message.applyCommandResponse id (.error reason)) ∈ [] ++ sent) :
      (w, .applyCommandResponse id (.error reason)) = m := List.mem_singleton.mp (hs.subset hmem)
  cases h with
  | campaign i t hs =>
    obtain ⟨v, -, heq⟩ := List.mem_map.mp (hs.subset hm)
    cases heq
  | append hl hq hlast hs =>
    cases ‹Callback U› with
    | request v id' => cases other hs hm
    | _ => cases hs.subset hm
  | forward leader hq hs => cases other hs hm
  | forwardQuietly leader hq hs => cases other hs hm
  | refuse hq hs =>
    cases other hs hm
    refine ⟨_, hq ▸ List.mem_cons_self, SyncObj.drops_head hq rfl rfl fun m hm y id => ?_⟩
    rw [List.mem_singleton.mp (hs.subset hm)]
    exact nofun
  | batch ha hl hs => cases other hs hm
  | entries ha h => cases other (.refl _) hm
  | acknowledge addr next reset => cases other (.refl _) hm
  | _ => cases hm

/-- A function is told of a refusal for want of a leader, or by a message. -/
theorem Change.refuses (h : Change e ⟨n, [], [], [], env⟩ r) {call : Call P} (hc : call ∈ r.calls)
    (hr : call.reason.refuses = true) :
    (∃ x, (x, .function call.function) ∈ n.commandsQueue ∧ n.Drops r x) ∨
    ∃ w id, e = .receive w (.applyCommandResponse id (.error call.reason)) ∧
      (id, call.function) ∈ n.commandsWaitingReply := by
  cases h with
  | leaderChanged =>
    obtain ⟨s, -, rfl⟩ := List.mem_map.mp hc
    cases hr
  | missingLeader env hq =>
    rw [List.mem_singleton.mp hc]
    exact .inl ⟨_, hq ▸ List.mem_cons_self, SyncObj.drops_head hq rfl rfl nofun⟩
  | @apply entry command _ h =>
    obtain ⟨s, -, rfl⟩ := List.mem_map.mp hc
    rw [entry.reply_refuses] at hr
    cases hr
  | replied env he h =>
    rw [List.mem_singleton.mp hc]
    exact .inr ⟨_, _, he, List.mem_of_find?_eq_some h⟩
  | _ => cases hc

omit [DecidableEq U] in
theorem System.Gone.mono (h : s.Gone addrs a x) {s' : System P U}
    (hle : ∀ q, s'.holds addrs a' q ≤ s.holds addrs a q) (hsub : s'.submitted = s.submitted) :
    s'.Gone addrs a' x := by
  intro q
  rw [hsub]
  exact (Nat.add_le_add_right (hle q) _).trans (h q)

/-- A turn of node `u`, after packets were lost and commands submitted. -/
theorem System.Refused.during (h : s.Refused addrs a) {network : List (Packet P U)}
    {submitted : List (U × P.Command × Option ℕ)} {s' : System P U}
    (hs' : s' = ({ s with network, submitted } : System P U).during u r)
    (hsub : s.submitted ⊆ submitted) (hgone : ∀ x, s.Gone addrs a x → s'.Gone addrs a' x)
    (hresponse : ∀ w id reason, (w, .applyCommandResponse id (.error reason)) ∈ r.sent →
      ∃ x, (∃ w', ⟨w, w', .applyCommand x (some id)⟩ ∈ s.sent) ∧ s'.Gone addrs a' x)
    (hcall : ∀ call ∈ r.calls, call.reason.refuses = true →
      ∃ x, (u, x, some call.function) ∈ submitted ∧ s'.Gone addrs a' x) :
    s'.Refused addrs a' := by
  subst hs'
  refine ⟨fun w v id reason hp => ?_, fun v call hc hr => ?_⟩
  · have hmono {x : P.Command} (hw : ∃ w', ⟨v, w', .applyCommand x (some id)⟩ ∈ s.sent) :
        ∃ w', ⟨v, w', .applyCommand x (some id)⟩ ∈
          (({ s with network, submitted } : System P U).during u r).sent := by
      obtain ⟨w', hw⟩ := hw
      exact ⟨w', mem_sent_during.mpr (.inl hw)⟩
    rcases mem_sent_during.mp hp with hp | ⟨-, hm⟩
    · obtain ⟨x, hw, hx⟩ := h.response w v id reason hp
      exact ⟨x, hmono hw, hgone x hx⟩
    · obtain ⟨x, hw, hx⟩ := hresponse v id reason hm
      exact ⟨x, hmono hw, hx⟩
  · rcases List.mem_append.mp hc with hc | hc
    · obtain ⟨x, hx, hg⟩ := h.call v call hc hr
      exact ⟨x, hsub hx, hgone x hg⟩
    · obtain ⟨call, hmem, heq⟩ := List.mem_map.mp hc
      cases heq
      exact hcall call hmem hr

namespace Cluster

theorem Moment.refused (h : c.Moment a s) : s.Refused c.addrs a := by
  induction h with
  | initial => exact ⟨fun w u id reason hp => (nomatch hp), fun u call hc => (nomatch hc)⟩
  | @lose a s p before behind _ hp ih =>
    have hgone {x : P.Command} (hx : s.Gone c.addrs a x) :
        ({ s with network := before ++ behind } : System P U).Gone c.addrs a x :=
      hx.mono (fun q => Nat.le.intro (System.holds_lose _ _ hp)) rfl
    refine ⟨fun w u id reason hm => ?_, fun u call hc hr => ?_⟩
    · exact (ih.response w u id reason hm).imp fun x hx => ⟨hx.1, hgone hx.2⟩
    · exact (ih.call u call hc hr).imp fun x hx => ⟨hx.1, hgone hx.2⟩
  | @opening a s p before behind env r _ hu _ hp ho ih =>
    refine ih.during rfl (List.Subset.refl _)
      (fun x hx => hx.mono (fun q => System.holds_opening hu hp ho) rfl) ?_ ?_
    · intro w id reason hm
      cases ho with
      | enqueue he => cases hm
      | vote he hs => cases List.mem_singleton.mp (hs.subset hm)
      | count he hc ht => cases hm
    · intro call hc
      cases ho <;> cases hc
  | @change a s u e env r h hu hh he hc ih =>
    have hknows := h.traced.node u hh
    have hdrops {x : P.Command} (hx : (s.nodes u).Drops r x) :
        (s.during u r).Gone c.addrs (a ++ (s.nodes u).appended r.node) x := fun q =>
      (System.holds_during hu a _ 0 _ (hx q)).trans (h.holds_le q)
    have hgone {x : P.Command} (hx : s.Gone c.addrs a x) :
        (s.during u r).Gone c.addrs (a ++ (s.nodes u).appended r.node) x :=
      hx.mono (fun q => System.holds_change hu hc) rfl
    refine ih.during rfl (List.Subset.refl _) (fun x => hgone) ?_ ?_
    · intro w id reason hm
      obtain ⟨x, hq, hx⟩ := hc.refusal hm
      exact ⟨x, hknows.request x w id hq, hdrops hx⟩
    · intro call hcall hr
      rcases hc.refuses hcall hr with ⟨x, hq, hx⟩ | ⟨w, id, rfl, hid⟩
      · exact ⟨x, hknows.function x _ hq, hdrops hx⟩
      · -- the message tells of the request that took the command of the function
        obtain ⟨x, ⟨w', hw⟩, hx⟩ := ih.response w u id _ (he _ _ rfl)
        obtain ⟨y, hy, hall⟩ := hknows.reply id _ hid
        obtain rfl := hall w' x hw
        exact ⟨x, hy, hgone hx⟩
  | @broken a s u env r h hu hh hi ih =>
    refine ih.during rfl (List.Subset.refl _)
      (fun x hx => hx.mono (fun q => System.holds_broken hu hi) rfl) ?_ ?_
    · intro w id reason hm
      have hsent : r.sent = [] := hi.sent
      cases hsent ▸ hm
    · intro call hc hr
      obtain ⟨calls, hcalls, -, hnot⟩ := hi.calls
      rw [List.nil_append] at hcalls
      cases hr.symm.trans (hnot call (hcalls ▸ hc)).2
  | @submit a s u command function env h hu ih =>
    have hcount (q : P.Command → Bool) : (s.submitted ++ [(u, command, function)]).countP
        (q ·.2.1) = s.submitted.countP (q ·.2.1) + if q command then 1 else 0 := by
      rw [List.countP_append, List.countP_singleton]
    refine ih.during rfl (List.subset_append_left _ _) (fun x hx q => ?_) ?_ ?_
    · have hle := System.holds_submit (s := s) (a := a) (q := q) hu command function env
      have hxq := hx q
      have hq := hcount q
      change _ ≤ (s.submitted ++ [(u, command, function)]).countP _
      omega
    · intro w id reason hm
      rw [(submit_cases (s.nodes u) command function env).1.1] at hm
      cases hm
    · intro call hc hr
      rcases (submit_cases (s.nodes u) command function env).2 with ⟨-, hcalls⟩ | ⟨hn, hcalls⟩
      · rw [hcalls] at hc
        cases hc
      · rw [hcalls] at hc
        obtain ⟨k, hk, rfl⟩ := List.mem_map.mp hc
        obtain rfl : function = some k := Option.mem_toList.mp hk
        refine ⟨command, List.mem_append_right _ List.mem_cons_self, fun q => ?_⟩
        have hsame : ((s.nodes u).submit command (some k) env).node.commandsQueue.countP (q ·.1) +
            ((s.nodes u).submit command (some k) env).sent.countP (·.2.carries q) ≤
            (s.nodes u).commandsQueue.countP (q ·.1) := by
          rw [hn, (submit_cases (s.nodes u) command (some k) env).1.1]
          exact le_rfl
        have hle := System.holds_during (q := q)
          (s := { s with submitted := s.submitted ++ [(u, command, some k)] }) hu a [] 0 0 hsame
        have hheld : ({ s with submitted := s.submitted ++ [(u, command, some k)] } :
            System P U).holds c.addrs a q = s.holds c.addrs a q := rfl
        have hbefore := h.holds_le q
        have hq := hcount q
        rw [List.append_nil] at hle
        change _ ≤ (s.submitted ++ [(u, command, some k)]).countP _
        omega

/-! ## Top theorems -/

/-- **What was refused is not applied**: for a function that is called with a refusal, its command
was submitted once more than it is in the log or in the data of any node, then and later, as long
as snapshots are loaded only as they were taken. -/
theorem refused_not_applied (h : c.Reachable s) (hl : s.LoadsTaken) {call : Call P} (hc : (u, call) ∈ s.calls)
    (hr : call.reason.refuses = true) : ∃ command, (u, command, some call.function) ∈ s.submitted ∧
    ∀ v, (command :: (s.nodes v).raftLog.filterMap Entry.command).Subperm
        (s.submitted.map (·.2.1)) ∧
      ∃ commands, (s.nodes v).data = P.run commands ∧
        (command :: commands).Subperm (s.submitted.map (·.2.1)) := by
  obtain ⟨a, hm⟩ := h.moment
  obtain ⟨command, hsubmitted, hgone⟩ := hm.refused.call u call hc hr
  have hspare (q : P.Command → Bool) : s.holds c.addrs a q + [command].countP q ≤
      s.submitted.countP (q ·.2.1) := by
    rw [List.countP_singleton]
    exact hgone q
  refine ⟨command, hsubmitted, fun v => ⟨?_, ?_⟩⟩
  · obtain ⟨hlogs, happended⟩ := hm.grown hl
    have hlog := hlogs.log v
    refine subperm_of_holds [command] hspare ?_ fun x hx hcommand => ?_
    · have hidx : (s.nodes v).raftLog.Pairwise (·.idx < ·.idx) :=
        (hlog.chain.imp fun x y hxy => by have := (hxy.idx happended).1; omega).pairwise
      exact hidx.imp fun hlt heq => absurd (heq ▸ hlt) (lt_irrefl _)
    · rcases (hlog.entries x hx).2 with rfl | hx
      · cases hcommand
      · exact hx
  · obtain ⟨idx, entries, hdata, hidx, -, hmem⟩ : ∃ idx, Applied a (s.nodes v).data idx := by
      rcases (hm.applied hl).2 v with h | ⟨-, h⟩ <;> exact ⟨_, h⟩
    exact ⟨_, hdata, subperm_of_holds [command] hspare
      (.of_map Entry.idx (hidx ▸ List.nodup_range')) fun x hx _ => hmem x hx⟩

/-- One of two commands finds no room in the queue of a node that has installed a snapshot. -/
theorem refused_not_applied_catchUp :
    let s := catchUp.foldl trio.play trio.initial
    ∃ command : ℕ, (2, command, some 8) ∈ s.submitted ∧
      ∀ v, (command :: (s.nodes v).raftLog.filterMap Entry.command).Subperm
          (s.submitted.map (·.2.1)) ∧
        ∃ commands : List ℕ, (s.nodes v).data = Replicated.run _ commands ∧
          (command :: commands).Subperm (s.submitted.map (·.2.1)) := by
  intro s
  have h : trio.Reachable s := Reachable.plays .refl catchUp
  have hc : (2, ⟨8, none, .queueFull⟩) ∈ s.calls := by decide +kernel
  exact refused_not_applied h catchUp_loadsTaken hc rfl

end Cluster

end Pysyncobj
