import Krafters.Pysyncobj.Handlers
import Mathlib.Data.Finset.Dedup

/-!
# A cluster of `SyncObj` nodes

A system is the nodes, the packets on the way and a record of the run: what was ever sent, what
clients submitted, which of their functions were called, which snapshots were taken and loaded.  A
packet arrives once, or gets lost; the order is any, which allows more runs than connections do.

    Reachable s → ∃ a, Moment a s                           (Reachable.moment)

takes a run apart into single changes, so an invariant is shown for one change at a time, with
every invariant shown before at hand; `a` are the entries that leaders appended.
-/

namespace Pysyncobj

variable {P : Replicated} {U : Type}

/-! ## Algorithm -/

structure Packet (P : Replicated) (U : Type) where
  fromAddr : U
  toAddr : U
  message : Message P

structure System (P : Replicated) (U : Type) where
  nodes : U → SyncObj P U
  /-- on the way -/
  network : List (Packet P U)
  /-- ever sent -/
  sent : List (Packet P U)
  submitted : List (U × P.Command × Option ℕ)
  calls : List (U × Call P)
  dumps : List (Dump P.Byte)

structure Cluster (U : Type) where
  addrs : Finset U
  otherNodesAddrs : U → List U
  nodup : ∀ u ∈ addrs, (otherNodesAddrs u).Nodup
  mem_other : ∀ u ∈ addrs, ∀ w, w ∈ otherNodesAddrs u ↔ w ∈ addrs ∧ w ≠ u
  conf : U → SyncObjConf

def Turn.packets (r : Turn P U) (u : U) : List (Packet P U) :=
  r.sent.map fun s => ⟨u, s.1, s.2⟩

variable [DecidableEq U]

/-- The system in or after an event of node `u`. -/
def System.during (s : System P U) (u : U) (r : Turn P U) : System P U where
  nodes := Function.update s.nodes u r.node
  network := s.network ++ r.packets u
  sent := s.sent ++ r.packets u
  submitted := s.submitted
  calls := s.calls ++ r.calls.map fun c => (u, c)
  dumps := s.dumps ++ r.dumps

/-- What a node loads are the bytes of a snapshot that a node took before, in that term or an
earlier one.  `setTransmissionData` does not see to that: batches of two snapshots may have come in
a row, and then it is the checksum of the bytes that keeps them from being loaded. -/
def System.LoadsTaken (s : System P U) : Prop :=
  ∀ before behind term bytes, s.dumps = before ++ .loaded term bytes :: behind →
    ∃ t ≤ term, .taken t bytes ∈ before

/-- What a leader has appended to its log in a change, with the entry before it. -/
def SyncObj.appended (n n' : SyncObj P U) : List (Entry P.Command × Entry P.Command) :=
  match n.raftState, n.raftLog.getLast?, n'.raftLog.drop n.raftLog.length with
  | .leader, some last, [x] => [(last, x)]
  | _, _, _ => []

/-- Node `n`, a leader, appends the first command of its queue: entry `x` behind `last`. -/
structure SyncObj.Appends (n : SyncObj P U) (r : Turn P U) (last x : Entry P.Command) : Prop where
  leader : n.raftState = .leader
  getLast : n.raftLog.getLast? = some last
  log : r.node.raftLog = n.raftLog ++ [x]
  idx : x.idx = last.idx + 1
  term : x.term = n.raftCurrentTerm
  command : ∃ command callback, n.commandsQueue = (command, callback) :: r.node.commandsQueue ∧
    x.command = some command ∧ r.sent.Sublist (callback.answers (.ok (x.idx, x.term))) ∧
    r.node.commandsWaitingCommit = n.commandsWaitingCommit ++ callback.waits x.idx x.term

/-- The event is not a packet: those arrive by a step of their own. -/
def Event.Internal : Event P U → Prop
  | .receive _ _ => False
  | _ => True

instance : (e : Event P U) → Decidable e.Internal
  | .receive _ _ => .isFalse id
  | .tick _ | .link _ _ | .rebind | .forceLogCompaction => .isTrue trivial

inductive Move (P : Replicated) (U : Type)
  | event (u : U) (e : Event P U) (env : Environment)
  | deliver (k : ℕ) (env : Environment)
  | lose (k : ℕ)
  | submit (u : U) (command : P.Command) (function : Option ℕ) (env : Environment)

namespace Cluster

variable (c : Cluster U)

def initial : System P U where
  nodes := fun u => .init u (c.otherNodesAddrs u) (c.conf u)
  network := []
  sent := []
  submitted := []
  calls := []
  dumps := []

inductive Step : System P U → System P U → Prop
  | event {s : System P U} {u : U} {e : Event P U} (env : Environment) (hu : u ∈ c.addrs)
      (hh : (s.nodes u).halted = false) (he : e.Internal) :
      Step s (s.during u ((s.nodes u).step e env))
  | deliver {s : System P U} {p : Packet P U} {before behind : List (Packet P U)}
      (env : Environment) (hu : p.toAddr ∈ c.addrs) (hh : (s.nodes p.toAddr).halted = false)
      (hp : s.network = before ++ p :: behind) :
      Step s (({ s with network := before ++ behind } : System P U).during p.toAddr
        ((s.nodes p.toAddr).step (.receive p.fromAddr p.message) env))
  | lose {s : System P U} {p : Packet P U} {before behind : List (Packet P U)}
      (hp : s.network = before ++ p :: behind) :
      Step s { s with network := before ++ behind }
  | submit {s : System P U} {u : U} {command : P.Command} {function : Option ℕ}
      (env : Environment) (hu : u ∈ c.addrs) :
      Step s (({ s with submitted := s.submitted ++ [(u, command, function)] } : System P U).during
        u ((s.nodes u).submit command function env))

def Reachable (s : System P U) : Prop := Relation.ReflTransGen c.Step c.initial s

/-- A step, where it can be taken; packets on the way go by their place. -/
def play (s : System P U) : Move P U → System P U
  | .event u e env =>
    if u ∈ c.addrs ∧ (s.nodes u).halted = false ∧ e.Internal then
      s.during u ((s.nodes u).step e env)
    else s
  | .deliver k env =>
    if h : k < s.network.length then
      let p := s.network[k]
      if p.toAddr ∈ c.addrs ∧ (s.nodes p.toAddr).halted = false then
        ({ s with network := s.network.take k ++ s.network.drop (k + 1) } : System P U).during
          p.toAddr ((s.nodes p.toAddr).step (.receive p.fromAddr p.message) env)
      else s
    else s
  | .lose k => { s with network := s.network.take k ++ s.network.drop (k + 1) }
  | .submit u command function env =>
    if u ∈ c.addrs then
      ({ s with submitted := s.submitted ++ [(u, command, function)] } : System P U).during u
        ((s.nodes u).submit command function env)
    else s

/-- A system in the course of a run, one change after the other, and the entries that leaders have
appended by then, each with the one before it. -/
inductive Moment : List (Entry P.Command × Entry P.Command) → System P U → Prop
  | initial : Moment [] c.initial
  | lose {a : List (Entry P.Command × Entry P.Command)} {s : System P U} {p : Packet P U}
      {before behind : List (Packet P U)} (h : Moment a s)
      (hp : s.network = before ++ p :: behind) : Moment a { s with network := before ++ behind }
  | opening {a : List (Entry P.Command × Entry P.Command)} {s : System P U} {p : Packet P U}
      {before behind : List (Packet P U)} {env : Environment} {r : Turn P U} (h : Moment a s)
      (hu : p.toAddr ∈ c.addrs) (hh : (s.nodes p.toAddr).halted = false)
      (hp : s.network = before ++ p :: behind)
      (ho : Opening (.receive p.fromAddr p.message) ⟨s.nodes p.toAddr, [], [], [], env⟩ r) :
      Moment a (({ s with network := before ++ behind } : System P U).during p.toAddr r)
  | change {a : List (Entry P.Command × Entry P.Command)} {s : System P U} {u : U}
      {e : Event P U} {env : Environment} {r : Turn P U} (h : Moment a s) (hu : u ∈ c.addrs)
      (hh : (s.nodes u).halted = false) (he : ∀ w m, e = .receive w m → ⟨w, u, m⟩ ∈ s.sent)
      (hc : Change e ⟨s.nodes u, [], [], [], env⟩ r) :
      Moment (a ++ (s.nodes u).appended r.node) (s.during u r)
  | broken {a : List (Entry P.Command × Entry P.Command)} {s : System P U} {u : U}
      {env : Environment} {r : Turn P U} (h : Moment a s) (hu : u ∈ c.addrs)
      (hh : (s.nodes u).halted = false) (hi : Interrupted ⟨s.nodes u, [], [], [], env⟩ r) :
      Moment a (s.during u { r with node := { r.node with halted := true } })
  | submit {a : List (Entry P.Command × Entry P.Command)} {s : System P U} {u : U}
      {command : P.Command} {function : Option ℕ} (env : Environment) (h : Moment a s)
      (hu : u ∈ c.addrs) :
      Moment a (({ s with submitted := s.submitted ++ [(u, command, function)] } :
        System P U).during u ((s.nodes u).submit command function env))

end Cluster

/-! ## Lemmas -/

variable {c : Cluster U} {a : List (Entry P.Command × Entry P.Command)} {s : System P U} {u : U}
  {n n' : SyncObj P U} {e : Event P U} {env : Environment} {r r' : Turn P U}

/-- The turn `r`, and behind it what `r'` sends and calls. -/
def Turn.andThen (r r' : Turn P U) : Turn P U :=
  ⟨r'.node, r.sent ++ r'.sent, r.calls ++ r'.calls, r.dumps ++ r'.dumps, r'.env⟩

omit [DecidableEq U] in
theorem SyncObj.appended_eq {last x : Entry P.Command} (hl : n.raftState = .leader)
    (hlast : n.raftLog.getLast? = some last) (hlog : n'.raftLog = n.raftLog ++ [x]) :
    n.appended n' = [(last, x)] := by
  unfold SyncObj.appended
  rw [hl, hlast, hlog, List.drop_left]

/-- A leader has appended an entry, or nothing was appended. -/
theorem Change.appends (h : Change e ⟨n, [], [], [], env⟩ r) :
    n.appended r.node = [] ∨ ∃ last x, n.appended r.node = [(last, x)] ∧ n.Appends r last x := by
  have short {k : SyncObj P U} (hlog : k.raftLog.length ≤ n.raftLog.length) :
      n.appended k = [] := by
    unfold SyncObj.appended
    rw [List.drop_of_length_le hlog]
    split
    · next h => cases h
    · rfl
  have follows {k : SyncObj P U} (hf : n.raftState = .follower) : n.appended k = [] := by
    unfold SyncObj.appended
    rw [hf]
  cases h with
  | append hl hq hlast hs =>
    exact .inr ⟨_, _, SyncObj.appended_eq hl hlast rfl, hl, hlast, rfl, rfl, rfl, _, _, hq, rfl, hs,
      rfl⟩
  | accept he hl hlog hpos ht => exact .inl (follows hl)
  | load hl h => exact .inl (follows hl)
  | take k hf => exact .inl (follows hf)
  | drop k =>
    refine .inl (short ?_)
    rw [List.length_drop]
    exact Nat.sub_le _ _
  | _ => exact .inl (short le_rfl)

/-- A change does not look at what was sent and called before. -/
theorem Change.fresh (h : Change e r r') :
    ∃ r'', Change e ⟨r.node, [], [], [], r.env⟩ r'' ∧ r' = r.andThen r'' := by
  cases h with
  | quiet connected next matched commitIndex force env =>
    exact ⟨_, .quiet connected next matched commitIndex force env,
      by simp only [Turn.andThen, List.append_nil]⟩
  | campaign i t hs => exact ⟨_, .campaign i t hs, by simp [Turn.andThen]⟩
  | leaderChanged => exact ⟨_, .leaderChanged, by simp [Turn.andThen]⟩
  | append hl hq hlast hs => exact ⟨_, .append hl hq hlast hs, by simp [Turn.andThen]⟩
  | forward leader hq hs => exact ⟨_, .forward leader hq hs, by simp [Turn.andThen]⟩
  | forwardQuietly leader hq hs => exact ⟨_, .forwardQuietly leader hq hs, by simp [Turn.andThen]⟩
  | refuse hq hs => exact ⟨_, .refuse hq hs, by simp [Turn.andThen]⟩
  | missingLeader env hq => exact ⟨_, .missingLeader env hq, by simp [Turn.andThen]⟩
  | apply env h => exact ⟨_, .apply env h, by simp [Turn.andThen]⟩
  | take k hf => exact ⟨_, .take k hf, by simp [Turn.andThen]⟩
  | drop k => exact ⟨_, .drop k, by simp [Turn.andThen]⟩
  | checked => exact ⟨_, .checked, by simp [Turn.andThen]⟩
  | serialize h => exact ⟨_, .serialize h, by simp [Turn.andThen]⟩
  | cancel addr => exact ⟨_, .cancel addr, by simp [Turn.andThen]⟩
  | entries ha h => exact ⟨_, .entries ha h, by simp [Turn.andThen]⟩
  | batch ha hl hs => exact ⟨_, .batch ha hl hs, by simp [Turn.andThen]⟩
  | follow he hle => exact ⟨_, .follow he hle, by simp [Turn.andThen]⟩
  | accept he hl hlog hpos ht => exact ⟨_, .accept he hl hlog hpos ht, by simp [Turn.andThen]⟩
  | install he => exact ⟨_, .install he, by simp [Turn.andThen]⟩
  | load hl h => exact ⟨_, .load hl h, by simp [Turn.andThen]⟩
  | acknowledge addr next reset => exact ⟨_, .acknowledge addr next reset, by simp [Turn.andThen]⟩
  | replied env he h => exact ⟨_, .replied env he h, by simp [Turn.andThen]⟩
  | appended he h => exact ⟨_, .appended he h, by simp [Turn.andThen]⟩
  | elect hc hv => exact ⟨_, .elect hc hv, by simp [Turn.andThen]⟩

omit [DecidableEq U] in
theorem Interrupted.fresh (h : Interrupted r r') :
    Interrupted ⟨r.node, [], [], [], r.env⟩
        ⟨r'.node, [], r'.calls.drop r.calls.length, [], r'.env⟩ ∧
      r' = r.andThen ⟨r'.node, [], r'.calls.drop r.calls.length, [], r'.env⟩ := by
  obtain ⟨hnode, hsent, hdumps, calls, hcalls, hsub, hexp⟩ := h
  have hdrop : r'.calls.drop r.calls.length = calls := by rw [hcalls, List.drop_left]
  refine ⟨⟨hnode, rfl, rfl, calls, hdrop, hsub, hexp⟩, ?_⟩
  rw [Turn.andThen, hdrop, ← hcalls, List.append_nil, List.append_nil, ← hsent, ← hdumps]

theorem System.during_during :
    (s.during u r).during u r' = s.during u (r.andThen r') := by
  simp [System.during, Turn.andThen, Turn.packets]

theorem System.during_begin (s : System P U) (u : U) (env : Environment) :
    s.during u ⟨s.nodes u, [], [], [], env⟩ = s := by
  simp [System.during, Turn.packets]

@[simp] theorem System.during_self : (s.during u r).nodes u = r.node := Function.update_self ..

/-- What was loaded by an earlier time of the run. -/
theorem System.LoadsTaken.of_during (h : (s.during u r).LoadsTaken) : s.LoadsTaken := by
  intro before behind term bytes heq
  refine h before (behind ++ r.dumps) term bytes ?_
  rw [System.during, heq, List.append_assoc, List.cons_append]

omit [DecidableEq U] in
theorem System.loadsTaken_once {term : ℕ} {bytes : List P.Byte}
    (h : s.dumps = [.taken term bytes, .loaded term bytes]) : s.LoadsTaken := by
  intro before behind term' bytes' heq
  rw [h] at heq
  rcases before with - | ⟨d, - | ⟨d', before⟩⟩
  · cases heq
  · cases heq
    exact ⟨term, le_rfl, List.mem_cons_self⟩
  · cases before <;> cases heq

theorem System.during_of_ne {w : U} (h : w ≠ u) : (s.during u r).nodes w = s.nodes w :=
  Function.update_of_ne h ..

namespace Cluster

/-- Packets on the way were sent, in this order. -/
theorem Moment.network_sent (h : c.Moment a s) : s.network.Sublist s.sent := by
  have lost {network sent before behind : List (Packet P U)} {p : Packet P U}
      (hp : network = before ++ p :: behind) (ih : network.Sublist sent) :
      (before ++ behind).Sublist sent := by
    refine .trans ?_ ih
    rw [hp]
    exact (List.Sublist.refl before).append (List.sublist_cons_self p behind)
  induction h with
  | initial => exact .refl _
  | lose _ hp ih => exact lost hp ih
  | opening _ _ _ hp _ ih => exact (lost hp ih).append (.refl _)
  | change _ _ _ _ _ ih => exact ih.append (.refl _)
  | broken _ _ _ _ ih => exact ih.append (.refl _)
  | submit _ _ _ ih => exact ih.append (.refl _)

/-- What every change keeps of a node holds of it at every moment. -/
theorem Moment.node (h : c.Moment a s) {I : U → SyncObj P U → Prop}
    (hinit : ∀ u, I u (.init u (c.otherNodesAddrs u) (c.conf u)))
    (hopening : ∀ u {e : Event P U} {r r' : Turn P U}, I u r.node → Opening e r r' → I u r'.node)
    (hchange : ∀ u {e : Event P U} {r r' : Turn P U}, I u r.node → Change e r r' → I u r'.node)
    (hbroken : ∀ u {r r' : Turn P U}, I u r.node → Interrupted r r' →
      I u { r'.node with halted := true })
    (hsubmit : ∀ u n (command : P.Command) function env, I u n →
      I u (n.submit command function env).node) (u : U) : I u (s.nodes u) := by
  have during {nodes : U → SyncObj P U} {w : U} {n : SyncObj P U} (ih : ∀ u, I u (nodes u))
      (hn : I w n) (u : U) : I u (Function.update nodes w n u) := by
    by_cases hu : u = w
    · subst hu
      rwa [Function.update_self]
    · rw [Function.update_of_ne hu]
      exact ih u
  induction h generalizing u with
  | initial => exact hinit u
  | lose _ _ ih => exact ih u
  | opening _ _ _ _ ho ih => exact during ih (hopening _ (ih _) ho) u
  | change _ _ _ _ hc ih => exact during ih (hchange _ (ih _) hc) u
  | broken _ _ _ hi ih => exact during ih (hbroken _ (ih _) hi) u
  | submit env _ _ ih => exact during ih (hsubmit _ _ _ _ env (ih _)) u

/-- One change after the other. -/
theorem Moment.changes (h : ∃ a, c.Moment a (s.during u r)) (hu : u ∈ c.addrs)
    (hh : r.node.halted = false) (he : ∀ w m, e = .receive w m → ⟨w, u, m⟩ ∈ s.sent)
    (hr : Relation.ReflTransGen (Change e) r r') :
    (∃ a, c.Moment a (s.during u r')) ∧ r'.node.halted = false := by
  induction hr with
  | refl => exact ⟨h, hh⟩
  | @tail r₁ r₂ _ hc ih =>
    obtain ⟨⟨a, h⟩, hh⟩ := ih
    refine ⟨?_, hc.keeps.2.2.trans hh⟩
    obtain ⟨r₃, hc', rfl⟩ := hc.fresh
    have hc : Change e ⟨(s.during u r₁).nodes u, [], [], [], r₁.env⟩ r₃ := by rwa [System.during_self]
    rw [← System.during_during]
    exact ⟨_, h.change hu (by rwa [System.during_self])
      (fun w m hm => List.mem_append_left _ (he w m hm)) hc⟩

/-- An event, where what it begins with may be an opening one. -/
theorem Moment.ends (h : ∃ a, c.Moment a (s.during u r)) (hu : u ∈ c.addrs)
    (hh : r.node.halted = false) (he : ∀ w m, e = .receive w m → ⟨w, u, m⟩ ∈ s.sent)
    (ho : ∀ r₁, Opening e r r₁ → ∃ a, c.Moment a (s.during u r₁)) (hr : Ends e r r') :
    ∃ a, c.Moment a (s.during u r') := by
  have reached : ∀ r', Reached e r r' →
      (∃ a, c.Moment a (s.during u r')) ∧ r'.node.halted = false := by
    rintro r' ⟨r₁, rfl | h₁, hr'⟩
    · exact Moment.changes h hu hh he hr'
    · exact Moment.changes (ho r₁ h₁) hu (h₁.keeps.2.2.trans hh) he hr'
  cases hr with
  | done hr => exact (reached _ hr).1
  | halted hr =>
    obtain ⟨r₁, hr, hi⟩ := hr
    obtain ⟨⟨a, h⟩, hh⟩ := reached r₁ hr
    obtain ⟨hi, heq⟩ := hi.fresh
    have hb := h.broken hu (by rwa [System.during_self]) (by rw [System.during_self]; exact hi)
    rw [System.during_during] at hb
    rw [heq]
    exact ⟨a, hb⟩

theorem Reachable.play (h : c.Reachable s) (m : Move P U) : c.Reachable (c.play s m) := by
  have hsplit {k : ℕ} (hk : k < s.network.length) :
      s.network = s.network.take k ++ s.network[k] :: s.network.drop (k + 1) := by
    rw [List.getElem_cons_drop, List.take_append_drop]
  cases m with
  | event u e env =>
    simp only [Cluster.play]
    split
    · next he => exact h.tail (.event env he.1 he.2.1 he.2.2)
    · exact h
  | deliver k env =>
    simp only [Cluster.play]
    split
    · next hk =>
      split
      · next hp => exact h.tail (.deliver env hp.1 hp.2 (hsplit hk))
      · exact h
    · exact h
  | lose k =>
    by_cases hk : k < s.network.length
    · exact h.tail (.lose (hsplit hk))
    · have heq : s.network.take k ++ s.network.drop (k + 1) = s.network := by
        rw [List.take_of_length_le (by omega), List.drop_of_length_le (by omega), List.append_nil]
      simp only [Cluster.play, heq]
      exact h
  | submit u command function env =>
    simp only [Cluster.play]
    split
    · next hu => exact h.tail (.submit env hu)
    · exact h

theorem Reachable.plays (h : c.Reachable s) (moves : List (Move P U)) :
    c.Reachable (moves.foldl c.play s) := by
  induction moves generalizing s with
  | nil => exact h
  | cons m moves ih => exact ih (h.play m)

/-! ## Top theorems -/

/-- **Every run is a sequence of changes.** -/
theorem Reachable.moment (h : c.Reachable s) : ∃ a, c.Moment a s := by
  induction h with
  | refl => exact ⟨_, .initial⟩
  | tail _ hs ih =>
    obtain ⟨a, ih⟩ := ih
    cases hs with
    | event env hu hh he =>
      refine Moment.ends ⟨a, ?_⟩ hu hh ?_ ?_ (step_ends _ _ env)
      · rw [System.during_begin]
        exact ih
      · rintro w m rfl
        exact he.elim
      · intro r₁ ho
        cases ho with
        | enqueue hq => cases hq <;> exact he.elim
        | vote hv =>
          subst hv
          exact he.elim
        | count hv =>
          subst hv
          exact he.elim
    | @deliver p _ _ env hu hh hp =>
      refine Moment.ends ⟨a, ?_⟩ hu hh ?_ (fun r₁ ho => ⟨a, ih.opening hu hh hp ho⟩)
        (step_ends _ _ env)
      · exact (System.during_begin _ p.toAddr env).symm ▸ ih.lose hp
      · rintro w m he
        cases he
        apply ih.network_sent.subset
        rw [hp]
        exact List.mem_append_right _ List.mem_cons_self
    | lose hp => exact ⟨a, ih.lose hp⟩
    | submit env hu => exact ⟨a, ih.submit env hu⟩

end Cluster

end Pysyncobj
