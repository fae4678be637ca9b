import Krafters.Pysyncobj.Logs
import Mathlib.Algebra.BigOperators.Group.Finset.Basic
import Mathlib.Data.List.Perm.Subperm

/-!
# Commands

A command that a client submits is in the queue of a node, or in a message to a leader, or in the
entry that a leader made of it, or lost:

    queues + messages + entries ≤ submitted                 (Moment.holds_le)

and a node applies entries in the order of their indices, or loads what another node had.  So in
every run that loads only snapshots as they were taken, with two leaders of a term, too, no
submission has come into the data of a node twice (applied_once).
-/

namespace Pysyncobj

variable {P : Replicated} {U : Type} [DecidableEq U]

/-! ## Algorithm -/

/-- A message that takes a command to a leader. -/
def Message.carries (q : P.Command → Bool) : Message P → Bool
  | .applyCommand command _ => q command
  | _ => false

/-- How many commands of a kind are in queues and in messages. -/
def System.held (s : System P U) (addrs : Finset U) (q : P.Command → Bool) : ℕ :=
  ∑ u ∈ addrs, (s.nodes u).commandsQueue.countP (q ·.1) + s.network.countP (·.message.carries q)

/-- And in entries. -/
def System.holds (s : System P U) (addrs : Finset U)
    (a : List (Entry P.Command × Entry P.Command)) (q : P.Command → Bool) : ℕ :=
  s.held addrs q + a.countP (·.2.command.any q)

/-- The data after commands. -/
def Replicated.run (P : Replicated) (commands : List P.Command) : P.Data :=
  commands.foldl (fun data command => (P.apply command data).2) P.initial

/-- The data after the entries up to an index. -/
def Applied (a : List (Entry P.Command × Entry P.Command)) (data : P.Data) (idx : ℕ) : Prop :=
  ∃ entries : List (Entry P.Command), data = P.run (entries.filterMap Entry.command) ∧
    entries.map Entry.idx = List.range' 2 entries.length ∧ entries.length + 1 = idx ∧
    ∀ x ∈ entries, ∃ y, (y, x) ∈ a

/-! ## Lemmas -/

variable {c : Cluster U} {a : List (Entry P.Command × Entry P.Command)} {s : System P U} {u v : U}
  {n : SyncObj P U} {e : Event P U} {env : Environment} {r : Turn P U} {q : P.Command → Bool}
  {addrs : Finset U}

/-! ### Submissions -/

theorem System.held_during (hu : u ∈ addrs) :
    (s.during u r).held addrs q + (s.nodes u).commandsQueue.countP (q ·.1) =
      s.held addrs q + r.node.commandsQueue.countP (q ·.1) + r.sent.countP (·.2.carries q) := by
  have hsent : (s.during u r).network.countP (·.message.carries q) =
      s.network.countP (·.message.carries q) + r.sent.countP (·.2.carries q) := by
    rw [during, List.countP_append, Turn.packets, List.countP_map]
    rfl
  have hother : ∀ v ∈ addrs.erase u, ((s.during u r).nodes v).commandsQueue.countP (q ·.1) =
      (s.nodes v).commandsQueue.countP (q ·.1) := by
    intro v hv
    rw [during_of_ne (Finset.ne_of_mem_erase hv)]
  unfold held
  rw [hsent, ← Finset.add_sum_erase _ _ hu, ← Finset.add_sum_erase _ _ hu, during_self,
    Finset.sum_congr rfl hother]
  omega

omit [DecidableEq U] in
theorem System.held_lose (addrs : Finset U) {p : Packet P U} {before behind : List (Packet P U)}
    (hp : s.network = before ++ p :: behind) :
    ({ s with network := before ++ behind } : System P U).held addrs q +
      (if p.message.carries q then 1 else 0) = s.held addrs q := by
  have hnetwork : s.network.countP (·.message.carries q) =
      (before ++ behind).countP (·.message.carries q) + if p.message.carries q then 1 else 0 := by
    rw [hp, List.countP_append, List.countP_append, List.countP_cons, Nat.add_assoc]
  unfold held
  rw [hnetwork, Nat.add_assoc]

omit [DecidableEq U] in
theorem System.holds_lose (addrs : Finset U) (a : List (Entry P.Command × Entry P.Command))
    {p : Packet P U} {before behind : List (Packet P U)}
    (hp : s.network = before ++ p :: behind) :
    ({ s with network := before ++ behind } : System P U).holds addrs a q +
      (if p.message.carries q then 1 else 0) = s.holds addrs a q := by
  have hlose := System.held_lose addrs (q := q) hp
  unfold holds
  omega

/-- A node holds no more than it held and got, less what it has dropped. -/
theorem System.holds_during (hu : u ∈ addrs) (a a' : List (Entry P.Command × Entry P.Command))
    (got dropped : ℕ) (h : r.node.commandsQueue.countP (q ·.1) + r.sent.countP (·.2.carries q) +
      a'.countP (·.2.command.any q) + dropped ≤ (s.nodes u).commandsQueue.countP (q ·.1) + got) :
    (s.during u r).holds addrs (a ++ a') q + dropped ≤ s.holds addrs a q + got := by
  have hnode := System.held_during (s := s) (r := r) (q := q) hu
  unfold holds
  rw [List.countP_append]
  omega

/-- A command that leaves the queue goes into one message, or into none. -/
theorem Change.queue_le (h : Change e ⟨n, [], [], [], env⟩ r) :
    r.node.commandsQueue.countP (q ·.1) + r.sent.countP (·.2.carries q) ≤
      n.commandsQueue.countP (q ·.1) := by
  have none {l : List (U × Message P)} (h : ∀ m ∈ l, m.2.carries q = false) :
      l.countP (·.2.carries q) = 0 := by
    rw [List.countP_eq_zero]
    exact fun m hm => Bool.eq_false_iff.mp (h m hm)
  have head {command : P.Command} {callback : Callback U} {queue : List (P.Command × Callback U)}
      (hq : n.commandsQueue = (command, callback) :: queue) : n.commandsQueue.countP (q ·.1) =
      queue.countP (q ·.1) + if q command then 1 else 0 := by
    rw [hq, List.countP_cons]
  have silent {m : U × Message P} {sent : List (U × Message P)} (hs : sent.Sublist [m])
      (hm : m.2.carries q = false) : sent.countP (·.2.carries q) = 0 := by
    refine none fun m' hm' => ?_
    rwa [List.mem_singleton.mp (hs.subset hm')]
  have one {leader : U} {command : P.Command} {id : Option ℕ} {sent : List (U × Message P)}
      (h : sent.Sublist [(leader, .applyCommand command id)]) :
      sent.countP (·.2.carries q) ≤ if q command then 1 else 0 := by
    refine h.countP_le.trans ?_
    rw [List.countP_singleton]
    exact le_rfl
  cases h with
  | campaign i t hs =>
    refine (Nat.add_le_add_left (none fun m hm => ?_).le _)
    obtain ⟨w, -, rfl⟩ := List.mem_map.mp (hs.subset hm)
    rfl
  | append hl hq hlast hs =>
    have hsent := none (l := [] ++ _) fun m hm => by
      cases ‹Callback U› with
      | request w id =>
        rw [List.mem_singleton.mp (hs.subset hm)]
        rfl
      | _ => cases hs.subset hm
    dsimp only
    rw [hsent, head hq]
    omega
  | forward leader hq hs =>
    have hsent := one hs
    dsimp only
    rw [head hq, List.nil_append]
    omega
  | forwardQuietly leader hq hs =>
    have hsent := one hs
    dsimp only
    rw [head hq, List.nil_append]
    omega
  | refuse hq hs =>
    dsimp only
    rw [head hq, List.nil_append, silent hs rfl]
    omega
  | missingLeader env hq =>
    dsimp only
    rw [head hq, List.countP_nil]
    omega
  | batch ha hl hs =>
    dsimp only
    rw [List.nil_append, silent hs rfl]
    exact le_rfl
  | _ => exact le_rfl

/-- The command that a leader appends leaves its queue. -/
theorem Change.commands_le (h : Change e ⟨n, [], [], [], env⟩ r) :
    r.node.commandsQueue.countP (q ·.1) + r.sent.countP (·.2.carries q) +
      (n.appended r.node).countP (·.2.command.any q) ≤ n.commandsQueue.countP (q ·.1) := by
  rcases h.appends with hnone | ⟨last, x, hx, happ⟩
  · rw [hnone]
    exact h.queue_le
  · obtain ⟨command, callback, hq, hcommand, hs, -⟩ := happ.command
    have hsent : r.sent.countP (·.2.carries q) = 0 := by
      rw [List.countP_eq_zero]
      intro m hm
      cases callback with
      | request w id =>
        rw [List.mem_singleton.mp (hs.subset hm)]
        exact Bool.false_ne_true
      | _ => cases hs.subset hm
    have hcount : [(last, x)].countP (·.2.command.any q) = if q command then 1 else 0 := by
      rw [List.countP_singleton, hcommand, Option.any_some]
    rw [hx, hsent, hcount, hq, List.countP_cons, Nat.add_zero]

omit [DecidableEq U] in
/-- The command of a message goes into the queue. -/
theorem Opening.commands_le {p : Packet P U}
    (h : Opening (.receive p.fromAddr p.message) ⟨n, [], [], [], env⟩ r) :
    r.node.commandsQueue.countP (q ·.1) + r.sent.countP (·.2.carries q) ≤
      n.commandsQueue.countP (q ·.1) + if p.message.carries q then 1 else 0 := by
  cases h with
  | @enqueue command callback he =>
    have hm : p.message.carries q = q command := by
      obtain ⟨fromAddr, toAddr, m⟩ := p
      cases he <;> rfl
    dsimp only
    rw [hm, List.countP_append, List.countP_singleton]
    exact le_rfl
  | @vote _ _ _ _ sent he hs =>
    have hsent : ([] ++ sent).countP (fun m : U × Message P => m.2.carries q) = 0 := by
      rw [List.countP_eq_zero]
      intro m hm
      rw [List.mem_singleton.mp (hs.subset hm)]
      exact Bool.false_ne_true
    dsimp only
    rw [hsent]
    split <;> exact Nat.le_add_right _ _
  | count he hc ht => exact Nat.le_add_right _ _

omit [DecidableEq U] in
theorem SyncObj.submit_commands (n : SyncObj P U) (command : P.Command) (function : Option ℕ)
    (env : Environment) : (n.submit command function env).node.commandsQueue.countP (q ·.1) ≤
      n.commandsQueue.countP (q ·.1) + if q command then 1 else 0 := by
  rcases (submit_cases n command function env).2 with ⟨hn, -⟩ | ⟨hn, -⟩
  · rw [hn, List.countP_append, List.countP_singleton]
  · rw [hn]
    exact Nat.le_add_right _ _

theorem System.holds_opening {p : Packet P U} {before behind : List (Packet P U)}
    (hu : p.toAddr ∈ addrs) (hp : s.network = before ++ p :: behind)
    (h : Opening (.receive p.fromAddr p.message) ⟨s.nodes p.toAddr, [], [], [], env⟩ r) :
    (({ s with network := before ++ behind } : System P U).during p.toAddr r).holds addrs a q ≤
      s.holds addrs a q := by
  have hlose := System.holds_lose addrs a (q := q) hp
  have hnode := System.holds_during (s := { s with network := before ++ behind }) hu a [] _ 0
    (h.commands_le (q := q))
  rw [List.append_nil] at hnode
  omega

theorem System.holds_change (hu : u ∈ addrs) (h : Change e ⟨s.nodes u, [], [], [], env⟩ r) :
    (s.during u r).holds addrs (a ++ (s.nodes u).appended r.node) q ≤ s.holds addrs a q :=
  System.holds_during hu a _ 0 0 h.commands_le

theorem System.holds_broken (hu : u ∈ addrs) (h : Interrupted ⟨s.nodes u, [], [], [], env⟩ r) :
    (s.during u { r with node := { r.node with halted := true } }).holds addrs a q ≤
      s.holds addrs a q := by
  obtain ⟨⟨queue, _, _, _, heq, hsuffix, -⟩, hsent, -⟩ := h
  have hle : r.node.commandsQueue.countP (q ·.1) + r.sent.countP (·.2.carries q) ≤
      (s.nodes u).commandsQueue.countP (q ·.1) := by
    rw [heq, hsent]
    exact hsuffix.sublist.countP_le
  have hnode := System.holds_during (q := q) (r := { r with node := { r.node with halted := true } }) hu a []
    0 0 hle
  rwa [List.append_nil] at hnode

theorem System.holds_submit (hu : u ∈ addrs) (command : P.Command) (function : Option ℕ)
    (env : Environment) :
    (({ s with submitted := s.submitted ++ [(u, command, function)] } : System P U).during u
      ((s.nodes u).submit command function env)).holds addrs a q ≤
      s.holds addrs a q + if q command then 1 else 0 := by
  have hle : ((s.nodes u).submit command function env).node.commandsQueue.countP (q ·.1) +
      ((s.nodes u).submit command function env).sent.countP (·.2.carries q) ≤
      (s.nodes u).commandsQueue.countP (q ·.1) + if q command then 1 else 0 := by
    rw [(submit_cases (s.nodes u) command function env).1.1]
    exact (s.nodes u).submit_commands command function env
  have hnode := System.holds_during (q := q)
    (s := { s with submitted := s.submitted ++ [(u, command, function)] }) hu a [] _ 0 hle
  rwa [List.append_nil] at hnode

namespace Cluster

theorem Moment.holds_le (h : c.Moment a s) (q : P.Command → Bool) :
    s.holds c.addrs a q ≤ s.submitted.countP (q ·.2.1) := by
  induction h with
  | initial =>
    have hqueues : ∑ u ∈ c.addrs, ((Cluster.initial c : System P U).nodes u).commandsQueue.countP (q ·.1) =
        0 := Finset.sum_eq_zero fun _ _ => rfl
    unfold System.holds System.held
    rw [hqueues]
    exact le_rfl
  | lose _ hp ih => exact (Nat.le.intro (System.holds_lose _ _ hp)).trans ih
  | opening _ hu _ hp ho ih => exact (System.holds_opening hu hp ho).trans ih
  | change _ hu _ _ hc ih => exact (System.holds_change hu hc).trans ih
  | broken _ hu _ hi ih => exact (System.holds_broken hu hi).trans ih
  | @submit a s u command function env _ hu ih =>
    have hsubmitted : (s.submitted ++ [(u, command, function)]).countP (q ·.2.1) =
        s.submitted.countP (q ·.2.1) + if q command then 1 else 0 := by
      rw [List.countP_append, List.countP_singleton]
    exact ((System.holds_submit hu command function env).trans (Nat.add_le_add_right ih _)).trans
      hsubmitted.ge

end Cluster

/-! ### Data -/

section Applied

variable {a' : List (Entry P.Command × Entry P.Command)} {data : P.Data} {idx : ℕ}

omit [DecidableEq U] in
theorem Applied.mono (h : Applied a data idx) (ha : a ⊆ a') : Applied a' data idx := by
  obtain ⟨entries, hdata, hidx, hlen, hmem⟩ := h
  refine ⟨entries, hdata, hidx, hlen, fun x hx => ?_⟩
  obtain ⟨y, hy⟩ := hmem x hx
  exact ⟨y, ha hy⟩

omit [DecidableEq U] in
theorem Applied.next {x : Entry P.Command} {command : P.Command} (h : Applied a data idx)
    (hx : ∃ y, (y, x) ∈ a) (hidx : x.idx = idx + 1) (hcommand : x.command = some command) :
    Applied a (P.apply command data).2 (idx + 1) := by
  obtain ⟨entries, rfl, hentries, hlen, hmem⟩ := h
  refine ⟨entries ++ [x], ?_, ?_, ?_, ?_⟩
  · rw [List.filterMap_append, List.filterMap_cons_some hcommand, Replicated.run, Replicated.run,
      List.foldl_append]
    rfl
  · rw [List.map_append, hentries, List.length_append, List.length_singleton, List.range'_concat,
      List.map_singleton, hidx]
    congr 2
    omega
  · rw [List.length_append, List.length_singleton, hlen]
  · intro z hz
    rcases List.mem_append.mp hz with hz | hz
    · exact hmem z hz
    · rwa [List.mem_singleton.mp hz]

omit [DecidableEq U] in
/-- The next entry to apply has the next index. -/
theorem Grown.next {term : ℕ} {entry : Entry P.Command} {command : P.Command}
    (h : Grown a term n.raftLog) (ha : ∀ p ∈ a, Appended p) (hnext : n.Next entry command) :
    entry.idx = n.raftLastApplied + 1 ∧ ∃ y, (y, entry) ∈ a := by
  obtain ⟨⟨rest, hrest⟩, hcommand⟩ := hnext
  obtain ⟨first, before, hfirst, hlog, hidx⟩ := SyncObj.entriesFrom_cons.mp hrest
  have hmem : entry ∈ n.raftLog := by
    rw [hlog]
    exact List.mem_append_right _ List.mem_cons_self
  refine ⟨?_, (h.entries entry hmem).2.resolve_left ?_⟩
  · rw [hidx]
    exact Chains.idx_eq (hlog ▸ (Grown.law ha).consecutive h) (hlog ▸ hfirst)
  · rintro rfl
    cases hcommand

omit [DecidableEq U] in
/-- The last entry of a snapshot is the one that was applied last. -/
theorem Grown.last_idx {term : ℕ} {before last : Entry P.Command} {rest : List (Entry P.Command)}
    (h : Grown a term n.raftLog) (ha : ∀ p ∈ a, Appended p) (hpos : 1 ≤ n.raftLastApplied)
    (hl : SyncObj.entriesFrom n.raftLog (n.raftLastApplied - 1) = some (before :: last :: rest)) :
    last.idx = n.raftLastApplied := by
  obtain ⟨first, front, hfirst, hlog, hidx⟩ := SyncObj.entriesFrom_cons.mp hl
  rw [List.append_cons] at hlog
  have := Chains.idx_eq (hlog ▸ (Grown.law ha).consecutive h) (hlog ▸ hfirst)
  rw [List.length_append, List.length_singleton] at this
  omega

end Applied

/-- Data that a node may have: an exception can come between a command and the index of it. -/
def SyncObj.HasApplied (a : List (Entry P.Command × Entry P.Command)) (n : SyncObj P U) : Prop :=
  Applied a n.data n.raftLastApplied ∨ n.halted = true ∧ Applied a n.data (n.raftLastApplied + 1)

namespace Cluster

theorem Moment.applied (h : c.Moment a s) (hl : s.LoadsTaken) :
    (s.Snapshots fun _ d => Applied a d.1 d.2.1.idx) ∧ ∀ u, (s.nodes u).HasApplied a := by
  have other {a : List (Entry P.Command × Entry P.Command)} {s : System P U} {u : U} {r : Turn P U}
      (ih : ∀ u, (s.nodes u).HasApplied a) (hu : r.node.HasApplied a) (v : U) :
      ((s.during u r).nodes v).HasApplied a := by
    by_cases hv : v = u
    · subst hv
      rwa [System.during_self]
    · rw [System.during_of_ne hv]
      exact ih v
  induction h with
  | initial =>
    refine ⟨fun _ _ hd => (nomatch hd), fun u => .inl ⟨[], rfl, rfl, rfl, ?_⟩⟩
    exact fun x hx => nomatch hx
  | lose _ hp ih => exact ih hl
  | @opening a s p before behind env r _ hu hh hp ho ih =>
    obtain ⟨hsnapshots, hdata⟩ := ih hl.of_during
    obtain ⟨-, -, hdumps, hdata', hlast⟩ := ho.spec
    refine ⟨System.Snapshots.keeps (s := { s with network := before ++ behind }) hsnapshots hdumps,
      other (s := { s with network := before ++ behind }) hdata ?_⟩
    unfold SyncObj.HasApplied
    rw [hdata', hlast, ho.keeps.2.2]
    exact hdata _
  | @change a s u e env r h hu hh he hc ih =>
    obtain ⟨hlogs, happended⟩ := h.grown hl.of_during
    obtain ⟨hsnapshots, hdata⟩ := ih hl.of_during
    have hnode : Applied a (s.nodes u).data (s.nodes u).raftLastApplied := by
      rcases hdata u with hnode | ⟨hhalted, -⟩
      · exact hnode
      · cases hh.symm.trans hhalted
    have hpos : 1 ≤ (s.nodes u).raftLastApplied := by
      obtain ⟨entries, -, -, hlen, -⟩ := hnode
      omega
    have hmono : ∀ {data idx}, Applied a data idx →
        Applied (a ++ (s.nodes u).appended r.node) data idx :=
      fun h => h.mono (List.subset_append_left _ _)
    refine ⟨(hsnapshots.imp fun _ _ hd => hmono hd).change hc ?_, other (fun v => ?_) ?_⟩
    · intro before last rest hentries
      rw [(hlogs.log u).last_idx happended hpos hentries]
      exact hmono hnode
    · exact (hdata v).imp hmono fun h => ⟨h.1, hmono h.2⟩
    · cases hc with
      | apply env hnext =>
        obtain ⟨hidx, hmem⟩ := (hlogs.log u).next happended hnext
        exact .inl (hmono (hnode.next hmem hidx hnext.2))
      | load hf hload =>
        obtain ⟨-, -, hgood⟩ := hsnapshots.loads hl rfl hload
        exact .inl (hmono hgood)
      | _ => exact .inl (hmono hnode)
  | @broken a s u env r h hu hh hi ih =>
    obtain ⟨hlogs, happended⟩ := h.grown hl.of_during
    obtain ⟨hsnapshots, hdata⟩ := ih hl.of_during
    have hnode : Applied a (s.nodes u).data (s.nodes u).raftLastApplied := by
      rcases hdata u with hnode | ⟨hhalted, -⟩
      · exact hnode
      · cases hh.symm.trans hhalted
    obtain ⟨⟨_, _, _, data, heq, -, hbroken⟩, -, hdumps, -⟩ := hi
    refine ⟨hsnapshots.keeps hdumps, other hdata ?_⟩
    unfold SyncObj.HasApplied
    rw [heq]
    rcases hbroken with rfl | ⟨entry, command, hnext, rfl⟩
    · exact .inl hnode
    · obtain ⟨hidx, hmem⟩ := (hlogs.log u).next happended hnext
      exact .inr ⟨rfl, hnode.next hmem hidx hnext.2⟩
  | @submit a s u command function env _ hu ih =>
    obtain ⟨hsnapshots, hdata⟩ := ih hl.of_during
    obtain ⟨⟨-, hdumps⟩, -⟩ := submit_cases (s.nodes u) command function env
    obtain ⟨queue, hq⟩ := (s.nodes u).submit_keeps command function env
    refine ⟨System.Snapshots.keeps
      (s := { s with submitted := s.submitted ++ [(u, command, function)] }) hsnapshots hdumps,
      other (s := { s with submitted := s.submitted ++ [(u, command, function)] }) hdata ?_⟩
    rw [hq]
    exact hdata u

omit [DecidableEq U] in
/-- Different entries hold no more commands than were submitted, and some to spare. -/
theorem subperm_of_holds {entries : List (Entry P.Command)} (spare : List P.Command)
    (hholds : ∀ q, s.holds c.addrs a q + spare.countP q ≤ s.submitted.countP (q ·.2.1))
    (hnodup : entries.Nodup) (hmem : ∀ x ∈ entries, x.command.isSome = true → ∃ y, (y, x) ∈ a) :
    (spare ++ entries.filterMap Entry.command).Subperm (s.submitted.map (·.2.1)) := by
  have hsub : (entries.filter (·.command.isSome)).Subperm (a.map (·.2)) := by
    refine (hnodup.filter _).subperm fun x hx => ?_
    obtain ⟨hx, hcommand⟩ := List.mem_filter.mp hx
    obtain ⟨y, hy⟩ := hmem x hx hcommand
    exact List.mem_map.mpr ⟨_, hy, rfl⟩
  classical
  rw [List.subperm_ext_iff]
  intro command _
  have hle := hholds fun x => decide (x = command)
  have hcount := hsub.countP_le fun x => x.command.any fun y => decide (y = command)
  rw [List.countP_map, List.countP_filter] at hcount
  have hentries : (entries.filterMap Entry.command).count command =
      entries.countP fun x => (x.command.any fun y => decide (y = command)) && x.command.isSome := by
    rw [List.count_filterMap]
    congr 1
    funext x
    cases x.command with
    | none => rfl
    | some y => exact (Bool.and_true _).symm
  have hspare : spare.count command = spare.countP fun x => decide (x = command) := by
    rw [List.count]
    congr 1
  have hsubmitted : (s.submitted.map (·.2.1)).count command =
      s.submitted.countP fun p => decide (p.2.1 = command) := by
    rw [List.count, List.countP_map]
    rfl
  rw [List.count_append, hentries, hspare, hsubmitted]
  unfold System.holds at hle
  change _ ≤ a.countP fun p => p.2.command.any fun y => decide (y = command) at hcount
  omega

/-- Entries of different indices hold no more commands than were submitted. -/
theorem Moment.subperm (h : c.Moment a s) {entries : List (Entry P.Command)} {k : ℕ}
    (hidx : entries.map Entry.idx = List.range' 2 k) (hmem : ∀ x ∈ entries, ∃ y, (y, x) ∈ a) :
    (entries.filterMap Entry.command).Subperm (s.submitted.map (·.2.1)) :=
  subperm_of_holds [] h.holds_le (.of_map Entry.idx (hidx ▸ List.nodup_range'))
    fun x hx _ => hmem x hx

/-! ## Top theorems -/

/-- **No update is invented or applied twice**: in every run that loads only snapshots as they were
taken, a node's data is what a list of commands gives of which each was submitted, as often as it is
there. -/
theorem applied_once (h : c.Reachable s) (hl : s.LoadsTaken) (u : U) : ∃ commands : List P.Command,
    (s.nodes u).data = P.run commands ∧ commands.Subperm (s.submitted.map (·.2.1)) := by
  obtain ⟨a, hm⟩ := h.moment
  obtain ⟨idx, entries, hdata, hidx, -, hmem⟩ : ∃ idx, Applied a (s.nodes u).data idx := by
    rcases (hm.applied hl).2 u with h | ⟨-, h⟩ <;> exact ⟨_, h⟩
  exact ⟨_, hdata, hm.subperm hidx hmem⟩

/-- Two of three commands came in a snapshot. -/
theorem applied_once_catchUp :
    let s := catchUp.foldl trio.play trio.initial
    (s.nodes 2).data = (3 : ℕ) ∧ ∃ commands : List ℕ,
      (s.nodes 2).data = Replicated.run _ commands ∧ commands.Subperm (s.submitted.map (·.2.1)) :=
  ⟨by decide +kernel, applied_once (Reachable.plays .refl catchUp) catchUp_loadsTaken 2⟩

end Cluster

end Pysyncobj
