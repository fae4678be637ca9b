import Krafters.Pysyncobj.Logs

/-!
# Log matching

Nothing keeps a node from voting twice in a term, and two leaders of a term may append different
entries of one index.  Where no node happens to vote twice, whoever appended an entry is the only
leader of its term and never goes back behind it; so, if only snapshots are loaded as they were
taken,

    entries of one index and term are the same, and so is what is before them   (log_matching)
-/

namespace Pysyncobj

variable {P : Replicated} {U : Type} [DecidableEq U]

/-! ## Algorithm -/

/-- `v` may have appended the entry: it leads in its term, and its log ends no earlier; or it has
reached a later term. -/
structure Cluster.Owns (c : Cluster U) (s : System P U) (v : U) (x : Entry P.Command) : Prop where
  mem : v ∈ c.addrs
  won : c.Won s v x.term
  passed : x.term < (s.nodes v).raftCurrentTerm ∨
    (s.nodes v).raftState = .leader ∧ x.term = (s.nodes v).raftCurrentTerm ∧
      ∀ last, (s.nodes v).raftLog.getLast? = some last → x.idx ≤ last.idx

/-! ## Lemmas -/

variable {c : Cluster U} {a : List (Entry P.Command × Entry P.Command)} {s s' : System P U}
  {u v w : U} {n : SyncObj P U} {e : Event P U} {env : Environment} {r : Turn P U}

/-- A leader goes on, or follows somebody of its term, or comes to a later term. -/
theorem Change.leader (h : Change e ⟨n, [], [], [], env⟩ r) (hl : n.raftState = .leader) :
    n.raftCurrentTerm < r.node.raftCurrentTerm ∨ (∃ w, e.Leads w n.raftCurrentTerm) ∨
    r.node.raftState = .leader ∧ r.node.raftCurrentTerm = n.raftCurrentTerm ∧
      ∀ last, r.node.raftLog.getLast? = some last →
        ∃ last', n.raftLog.getLast? = some last' ∧ last'.idx ≤ last.idx := by
  have follows {q : Prop} (hf : n.raftState = .follower) : q := by
    rw [hl] at hf
    cases hf
  cases h with
  | campaign i t hs => exact .inl (Nat.lt_succ_self _)
  | @follow w term he hle =>
    rcases Nat.lt_or_eq_of_le hle with hlt | rfl
    · exact .inl hlt
    · exact .inr (.inl ⟨w, he⟩)
  | append _ hq hlast hs =>
    refine .inr (.inr ⟨hl, rfl, fun last h => ⟨_, hlast, ?_⟩⟩)
    rw [List.getLast?_concat] at h
    cases h
    exact Nat.le_succ _
  | drop k =>
    refine .inr (.inr ⟨hl, rfl, fun last h => ⟨last, ?_, le_rfl⟩⟩)
    dsimp only at h
    rw [List.getLast?_drop] at h
    split at h
    · cases h
    · exact h
  | elect hc hv =>
    dsimp only at hc
    rw [hl] at hc
    cases hc
  | take k hf => exact follows hf
  | accept he hf hlog hpos ht => exact follows hf
  | load hf hload => exact follows hf
  | _ => exact .inr (.inr ⟨hl, rfl, fun last h => ⟨last, h, le_rfl⟩⟩)

omit [DecidableEq U] in
theorem Opening.leader (h : Opening e ⟨n, [], [], [], env⟩ r) (hl : n.raftState = .leader) :
    n.raftCurrentTerm < r.node.raftCurrentTerm ∨ r.node.raftState = .leader ∧
      r.node.raftCurrentTerm = n.raftCurrentTerm ∧ r.node.raftLog = n.raftLog := by
  cases h with
  | vote he hs =>
    dsimp only
    split
    · next hlt => exact .inl hlt
    · exact .inr ⟨hl, rfl, rfl⟩
  | _ => exact .inr ⟨hl, rfl, rfl⟩

namespace Cluster

omit [DecidableEq U] in
theorem SingleVotes.of_sent (h : c.SingleVotes s') (hs : s.sent.Sublist s'.sent) :
    c.SingleVotes s := by
  have voted {w u : U} {term : ℕ} (hv : s.VotedFor w u term) : s'.VotedFor w u term := by
    rcases hv with hv | ⟨rfl, x, i, t, hv⟩
    · exact .inl (hs.subset hv)
    · exact .inr ⟨rfl, x, i, t, hs.subset hv⟩
  exact fun w hw u v term hu hv => h w hw u v term (voted hu) (voted hv)

theorem Won.unique (hm : c.Moment a s) (hs : c.SingleVotes s) {term : ℕ} (hu : u ∈ c.addrs)
    (hv : v ∈ c.addrs) (hwu : c.Won s u term) (hwv : c.Won s v term) : u = v := by
  by_contra hne
  obtain ⟨w, hw, hvu, hvv⟩ := Won.shared hm hu hv hne hwu hwv
  exact hne (hs w hw u v term hvu hvv)

/-- Only who won sends messages of a leader. -/
theorem Moment.leads (h : c.Moment a s) : ∀ p ∈ s.sent, ∀ term,
    Event.Leads (.receive p.fromAddr p.message) p.fromAddr term →
    p.fromAddr ∈ c.addrs ∧ p.toAddr ≠ p.fromAddr ∧ c.Won s p.fromAddr term := by
  have during {s : System P U} {u : U} {r : Turn P U}
      (ih : ∀ p ∈ s.sent, ∀ term, Event.Leads (.receive p.fromAddr p.message) p.fromAddr term →
        p.fromAddr ∈ c.addrs ∧ p.toAddr ≠ p.fromAddr ∧ c.Won s p.fromAddr term)
      (hr : ∀ m ∈ r.sent, ∀ term, Event.Leads (.receive u m.2) u term →
        u ∈ c.addrs ∧ m.1 ≠ u ∧ c.Won s u term) :
      ∀ p ∈ (s.during u r).sent, ∀ term,
        Event.Leads (.receive p.fromAddr p.message) p.fromAddr term →
        p.fromAddr ∈ c.addrs ∧ p.toAddr ≠ p.fromAddr ∧ c.Won (s.during u r) p.fromAddr term := by
    intro p hp term hl
    have := System.sent_during (s := s) (u := u) (r := r)
    rcases List.mem_append.mp hp with hp | hp
    · obtain ⟨hmem, hne, hwon⟩ := ih p hp term hl
      exact ⟨hmem, hne, hwon.mono this⟩
    · obtain ⟨m, hm, rfl⟩ := List.mem_map.mp hp
      obtain ⟨hmem, hne, hwon⟩ := hr m hm term hl
      exact ⟨hmem, hne, hwon.mono this⟩
  induction h with
  | initial => exact fun p hp => nomatch hp
  | lose _ hp ih => exact ih
  | opening _ _ _ _ ho ih =>
    refine during ih fun m hm term hl => ?_
    cases ho with
    | vote he hs =>
      rw [List.mem_singleton.mp (hs.subset hm)] at hl
      cases hl
    | _ => cases hm
  | @change a s u e env r h hu _ _ hc ih =>
    refine during ih fun m hm term hl => ?_
    have other : ∀ w ∈ (s.nodes u).nodes, w ≠ u := by
      intro w hw
      rw [(h.keeps u).1] at hw
      exact ((c.mem_other u hu w).mp hw).2
    cases hc.sends m hm with
    | entries hw hr =>
      cases hl
      exact ⟨hu, other _ hw, h.election.won u hu hr.leader⟩
    | batch hw hlead =>
      cases hl
      exact ⟨hu, other _ hw, h.election.won u hu hlead⟩
    | _ => cases hl
  | broken _ _ _ hi ih =>
    refine during ih fun m hm => ?_
    rw [hi.sent] at hm
    cases hm
  | @submit a s u command function env _ hu ih =>
    refine during (s := { s with submitted := s.submitted ++ [(u, command, function)] }) ih
      fun m hm => ?_
    rw [(submit_cases (s.nodes u) command function env).1.1] at hm
    cases hm

/-- Whoever owns an entry still does after a step of a node. -/
theorem Owns.during {x : Entry P.Command} (h : c.Owns s v x)
    (hterm : (s.nodes u).raftCurrentTerm ≤ r.node.raftCurrentTerm)
    (hl : u ∈ c.addrs → c.Won s u (s.nodes u).raftCurrentTerm →
      (s.nodes u).raftState = .leader →
      (s.nodes u).raftCurrentTerm < r.node.raftCurrentTerm ∨ r.node.raftState = .leader ∧
        r.node.raftCurrentTerm = (s.nodes u).raftCurrentTerm ∧
        ∀ last, r.node.raftLog.getLast? = some last →
          ∃ last', (s.nodes u).raftLog.getLast? = some last' ∧ last'.idx ≤ last.idx) :
    c.Owns (s.during u r) v x where
  mem := h.mem
  won := h.won.mono System.sent_during
  passed := by
    by_cases hv : v = u
    · subst hv
      rw [System.during_self]
      rcases h.passed with hlt | ⟨hlead, hx, hreach⟩
      · exact .inl (hlt.trans_le hterm)
      · rcases hl h.mem (hx ▸ h.won) hlead with hlt | ⟨hlead, ht, hlast⟩
        · exact .inl (hx.trans_lt hlt)
        · refine .inr ⟨hlead, hx.trans ht.symm, fun last hs => ?_⟩
          obtain ⟨last', hs', hle⟩ := hlast last hs
          exact (hreach last' hs').trans hle
    · rw [System.during_of_ne hv]
      exact h.passed

/-- A node that won does not get messages of another leader of its term. -/
theorem Moment.notLed (hm : c.Moment a s) (hs : c.SingleVotes s)
    (he : ∀ w m, e = .receive w m → ⟨w, u, m⟩ ∈ s.sent) (hu : u ∈ c.addrs) {term : ℕ}
    (hwon : c.Won s u term) (h : e.Leads w term) : False := by
  have sender {m : Message P} (heq : e = .receive w m) : False := by
    subst heq
    obtain ⟨hw, hne, hwon'⟩ := hm.leads _ (he w m rfl) term h
    exact hne (Won.unique hm hs hu hw hwon hwon')
  cases h with
  | entries _ _ _ _ _ => exact sender rfl
  | serialized _ _ _ _ => exact sender rfl

/-- Entries of leaders have owners, and no two of them one index and term. -/
theorem Moment.owned (h : c.Moment a s) (hs : c.SingleVotes s) :
    (∀ p ∈ a, ∃ v, c.Owns s v p.2) ∧
    a.Pairwise fun p q => ¬ (p.2.idx = q.2.idx ∧ p.2.term = q.2.term) := by
  -- a step that appends nothing
  have keeps {a : List (Entry P.Command × Entry P.Command)} {s s' : System P U}
      (ih : (∀ p ∈ a, ∃ v, c.Owns s v p.2) ∧
        a.Pairwise fun p q => ¬ (p.2.idx = q.2.idx ∧ p.2.term = q.2.term))
      (hstep : ∀ v x, c.Owns s v x → c.Owns s' v x) : (∀ p ∈ a, ∃ v, c.Owns s' v p.2) ∧
        a.Pairwise fun p q => ¬ (p.2.idx = q.2.idx ∧ p.2.term = q.2.term) := by
    refine ⟨fun p hp => ?_, ih.2⟩
    obtain ⟨v, hv⟩ := ih.1 p hp
    exact ⟨v, hstep v _ hv⟩
  induction h with
  | initial => exact ⟨fun p hp => (nomatch hp), .nil⟩
  | lose _ hp ih => exact keeps (ih hs) fun v x h => ⟨h.mem, h.won, h.passed⟩
  | @opening a s p before behind env r hm hu _ hp ho ih =>
    refine keeps (ih (hs.of_sent System.sent_during)) fun v x h => ?_
    refine Owns.during (s := { s with network := before ++ behind }) ⟨h.mem, h.won, h.passed⟩
      ho.spec.1 fun _ _ hl => ?_
    refine (ho.leader hl).imp id fun hsame => ?_
    obtain ⟨hl, ht, hlog⟩ := hsame
    exact ⟨hl, ht, fun last h => ⟨last, hlog ▸ h, le_rfl⟩⟩
  | @change a s u e env r hm hu _ he hc ih =>
    have hsv := hs.of_sent (System.sent_during (s := s))
    obtain ⟨howns, hpair⟩ := ih hsv
    have hstep : ∀ v x, c.Owns s v x → c.Owns (s.during u r) v x := by
      intro v x h
      refine h.during hc.term_le fun hu hwon hl => ?_
      rcases hc.leader hl with hlt | ⟨w, hw⟩ | hsame
      · exact .inl hlt
      · exact (hm.notLed hsv he hu hwon hw).elim
      · exact .inr hsame
    rcases hc.appends with hnone | ⟨last, x, hx, hl, hlast, hlog, hidx, hterm, -⟩
    · rw [hnone, List.append_nil]
      exact keeps ⟨howns, hpair⟩ hstep
    · have hwon : c.Won s u x.term := hterm ▸ hm.election.won u hu hl
      rw [hx]
      refine ⟨fun p hp => ?_, ?_⟩
      · rcases List.mem_append.mp hp with hp | hp
        · obtain ⟨v, hv⟩ := howns p hp
          exact ⟨v, hstep v _ hv⟩
        · obtain rfl := List.mem_singleton.mp hp
          refine ⟨u, hu, hwon.mono System.sent_during, ?_⟩
          rw [System.during_self]
          rcases hc.leader hl with hlt | ⟨w, hw⟩ | ⟨hl, ht, -⟩
          · exact .inl (hterm.trans_lt hlt)
          · exact (hm.notLed hsv he hu (hm.election.won u hu hl) hw).elim
          · refine .inr ⟨hl, hterm.trans ht.symm, fun last' h => ?_⟩
            rw [hlog, List.getLast?_concat] at h
            cases h
            exact le_rfl
      · rw [List.pairwise_append]
        refine ⟨hpair, List.pairwise_singleton _ _, fun p hp q hq => ?_⟩
        obtain rfl := List.mem_singleton.mp hq
        rintro ⟨hi, ht⟩
        -- the owner is the leader that appends, so the old entry is in the reach of its log
        obtain ⟨v, hv⟩ := howns p hp
        obtain rfl := Won.unique hm hsv hv.mem hu hv.won (ht ▸ hwon)
        rcases hv.passed with hlt | ⟨-, -, hreach⟩
        · dsimp only at ht
          omega
        · have := hreach last hlast
          dsimp only at hi
          omega
  | @broken a s u env r _ _ _ hi ih =>
    obtain ⟨⟨_, _, _, _, heq, -⟩, -, -⟩ := hi
    refine keeps (ih (hs.of_sent System.sent_during)) fun v x h => h.during ?_ fun _ _ hl => ?_
    · rw [heq]
    · rw [heq]
      exact .inr ⟨hl, rfl, fun last h => ⟨last, h, le_rfl⟩⟩
  | @submit a s u command function env _ hu ih =>
    obtain ⟨queue, hq⟩ := (s.nodes u).submit_keeps command function env
    refine keeps (ih (hs.of_sent System.sent_during)) fun v x h => Owns.during
      (s := { s with submitted := s.submitted ++ [(u, command, function)] })
      ⟨h.mem, h.won, h.passed⟩ ?_ fun _ _ hl => ?_
    · rw [hq]
    · rw [hq]
      exact .inr ⟨hl, rfl, fun last h => ⟨last, h, le_rfl⟩⟩

theorem Moment.append_unique (h : c.Moment a s) (hs : c.SingleVotes s)
    {p q : Entry P.Command × Entry P.Command} (hp : p ∈ a) (hq : q ∈ a)
    (hidx : p.2.idx = q.2.idx) (hterm : p.2.term = q.2.term) : p = q := by
  have hsymm : Std.Symm fun p q : Entry P.Command × Entry P.Command =>
      ¬ (p.2.idx = q.2.idx ∧ p.2.term = q.2.term) :=
    ⟨fun _ _ hpq heq => hpq ⟨heq.1.symm, heq.2.symm⟩⟩
  by_contra hne
  exact (h.owned hs).2.forall hp hq hne ⟨hidx, hterm⟩

/-- Index and term determine an entry of a log. -/
theorem Moment.entry_unique (h : c.Moment a s) (hl : s.LoadsTaken) (hs : c.SingleVotes s) {x y : Entry P.Command}
    (hx : x = ⟨none, 1, 0⟩ ∨ ∃ x', (x', x) ∈ a) (hy : y = ⟨none, 1, 0⟩ ∨ ∃ y', (y', y) ∈ a)
    (hidx : x.idx = y.idx) (hterm : x.term = y.term) : x = y := by
  have happended := (h.grown hl).2
  have later {x' x : Entry P.Command} (hx : (x', x) ∈ a) : 1 < x.idx := by
    have hidx : x.idx = x'.idx + 1 := (happended _ hx).idx
    have hpos : 1 ≤ x'.idx := (happended _ hx).pos
    omega
  rcases hx with rfl | ⟨x', hx⟩ <;> rcases hy with rfl | ⟨y', hy⟩
  · rfl
  · exact absurd hidx (later hy).ne
  · exact absurd hidx (later hx).ne'
  · exact (Prod.mk.inj (h.append_unique hs hx hy hidx hterm)).2

/-- The entry before one in a log is determined by it. -/
theorem Moment.past_unique (h : c.Moment a s) (hl : s.LoadsTaken) (hs : c.SingleVotes s)
    {x y z : Entry P.Command}
    (hx : x = ⟨none, 1, 0⟩ ∨ ∃ x', (x', x) ∈ a) (hy : y = ⟨none, 1, 0⟩ ∨ ∃ y', (y', y) ∈ a)
    (hxz : Behind a x z) (hyz : Behind a y z) : x = y := by
  obtain ⟨x', hx', hix, htx⟩ := hxz
  obtain ⟨y', hy', hiy, hty⟩ := hyz
  obtain rfl : x' = y' := (Prod.mk.inj (h.append_unique hs hx' hy' rfl rfl)).1
  exact h.entry_unique hl hs hx hy (hix.symm.trans hiy) (htx.symm.trans hty)

/-! ## Top theorems -/

/-- **Log matching**: as long as no node votes for two candidates of a term and snapshots are
loaded only as they were taken, entries of one index and term in two logs are the same, and so are
the entries before them, as far back as both logs reach. -/
theorem log_matching (h : c.Reachable s) (hl : s.LoadsTaken) (hs : c.SingleVotes s)
    {x y : Entry P.Command} {before after before' after' : List (Entry P.Command)}
    (hu : (s.nodes u).raftLog = before ++ x :: after)
    (hv : (s.nodes v).raftLog = before' ++ y :: after')
    (hidx : x.idx = y.idx) (hterm : x.term = y.term) :
    x = y ∧ (before <:+ before' ∨ before' <:+ before) := by
  obtain ⟨a, hm⟩ := h.moment
  obtain ⟨hlogs, -⟩ := hm.grown hl
  have hlogu := hu ▸ hlogs.log u
  have hlogv := hv ▸ hlogs.log v
  have known {z : Entry P.Command} {term : ℕ} {log : List (Entry P.Command)} (h : Grown a term log)
      (hz : z ∈ log) : z = ⟨none, 1, 0⟩ ∨ ∃ z', (z', z) ∈ a := (h.entries z hz).2
  obtain rfl : x = y :=
    hm.entry_unique hl hs (known hlogu (by simp)) (known hlogv (by simp)) hidx hterm
  refine ⟨rfl, ?_⟩
  rw [List.append_cons] at hlogu hlogv
  refine Chains.suffix_or_suffix hlogu.chain.left_of_append hlogv.chain.left_of_append ?_
  intro z hz z' hz' z'' h h'
  exact hm.past_unique hl hs (known hlogu (by simp [hz])) (known hlogv (by simp [hz'])) h h'

/-- A log from the beginning, and one that begins with the two entries of a snapshot. -/
theorem log_matching_catchUp :
    let s := catchUp.foldl trio.play trio.initial
    ∃ x y before before' after, (s.nodes 1).raftLog = before ++ [x] ∧
      (s.nodes 2).raftLog = before' ++ y :: after ∧ x = y ∧
      (before <:+ before' ∨ before' <:+ before) := by
  intro s
  have hu : (s.nodes 1).raftLog =
      [⟨none, 1, 0⟩, ⟨some (1 : ℕ), 2, 1⟩] ++ [⟨some (2 : ℕ), 3, 1⟩] := by decide +kernel
  have hv : (s.nodes 2).raftLog =
      [⟨some (1 : ℕ), 2, 1⟩] ++ [⟨some (2 : ℕ), 3, 1⟩, ⟨some (3 : ℕ), 4, 1⟩] := by decide +kernel
  have h : trio.Reachable s := Reachable.plays .refl catchUp
  have hs : trio.SingleVotes s := by decide +kernel
  exact ⟨_, _, _, _, _, hu, hv, log_matching h catchUp_loadsTaken hs hu hv rfl rfl⟩

end Cluster

end Pysyncobj
