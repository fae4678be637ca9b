import Krafters.Lib.Chains
import Krafters.Pysyncobj.Election

/-!
# Logs and snapshots

Entries come into the world when a leader appends them.  Whatever else a node does with its log
cuts it, or puts into it what another node had: entries behind one of the same index and term, or
the two entries of a snapshot.  So of every log in every run that loads only snapshots as they were
taken

    each entry has the index after the one before it, and no older a term    (logs_consecutive)

`Snapshots` and `Logs` say where entries are: in logs, in messages, and in snapshots.
-/

namespace Pysyncobj

variable {P : Replicated} {U : Type}

/-! ## Algorithm -/

/-- The snapshots that the nodes of a system have taken: good in the term of the node. -/
def System.Snapshots (good : ℕ → P.Snapshot → Prop) (s : System P U) : Prop :=
  ∀ term bytes, .taken term bytes ∈ s.dumps → ∃ d, bytes = P.pickle.dumps d ∧ good term d

/-- The logs in a system, and the entries in messages with the one before them. -/
structure System.Logs (good : ℕ → List (Entry P.Command) → Prop) (s : System P U) : Prop where
  log : ∀ u, good (s.nodes u).raftCurrentTerm (s.nodes u).raftLog
  entries : ∀ p ∈ s.sent, ∀ term commitIndex entries i t,
    p.message = .appendEntries term commitIndex entries (some (i, t)) →
    ∃ x, x.idx = i ∧ x.term = t ∧ good term (x :: entries)
  snapshots : s.Snapshots fun term d => good term [d.2.2, d.2.1]

/-- What nodes do with good logs gives good logs. -/
structure LogLaw {C : Type} (good : ℕ → List (Entry C) → Prop) : Prop where
  later : ∀ {term term' log}, good term log → term ≤ term' → good term' log
  cut : ∀ {term log part}, good term log → part <:+: log → good term part
  join : ∀ {term before x y entries}, good term (before ++ [x]) → good term (y :: entries) →
    y.idx = x.idx → y.term = x.term → good term (before ++ [x] ++ entries)
  consecutive : ∀ {term log}, good term log → log.IsChain fun x y => y.idx = x.idx + 1

/-- `y` was appended behind an entry of the index and term of `x`. -/
def Behind {C : Type} (a : List (Entry C × Entry C)) (x y : Entry C) : Prop :=
  ∃ x', (x', y) ∈ a ∧ x'.idx = x.idx ∧ x'.term = x.term

/-- A log of entries that leaders have appended. -/
structure Grown {C : Type} (a : List (Entry C × Entry C)) (term : ℕ) (log : List (Entry C)) :
    Prop where
  chain : log.IsChain (Behind a)
  entries : ∀ x ∈ log, x.term ≤ term ∧ (x = ⟨none, 1, 0⟩ ∨ ∃ y, (y, x) ∈ a)

/-- An entry and the one that was the last when a leader appended it. -/
structure Appended {C : Type} (p : Entry C × Entry C) : Prop where
  idx : p.2.idx = p.1.idx + 1
  pos : 1 ≤ p.1.idx
  term : p.1.term ≤ p.2.term
  command : p.2.command ≠ none

/-! ## Lemmas -/

variable [DecidableEq U] {c : Cluster U} {a : List (Entry P.Command × Entry P.Command)}
  {s : System P U} {u : U} {n : SyncObj P U} {e : Event P U} {env : Environment}
  {r r' : Turn P U}

/-! ### Snapshots -/

omit [DecidableEq U] in
theorem Opening.spec (h : Opening e r r') :
    r.node.raftCurrentTerm ≤ r'.node.raftCurrentTerm ∧
      r'.node.raftLog = r.node.raftLog ∧ r'.dumps = r.dumps ∧
      r'.node.data = r.node.data ∧ r'.node.raftLastApplied = r.node.raftLastApplied := by
  cases h with
  | vote he hs =>
    dsimp only
    split
    · next hlt => exact ⟨hlt.le, rfl, rfl, rfl, rfl⟩
    · exact ⟨le_rfl, rfl, rfl, rfl, rfl⟩
  | _ => exact ⟨le_rfl, rfl, rfl, rfl, rfl⟩

namespace System

section Snapshots

variable {good good' : ℕ → P.Snapshot → Prop}

omit [DecidableEq U] in
theorem Snapshots.imp (h : s.Snapshots good) (hg : ∀ term d, good term d → good' term d) :
    s.Snapshots good' := by
  intro term bytes hd
  obtain ⟨d, hbytes, hd⟩ := h term bytes hd
  exact ⟨d, hbytes, hg term d hd⟩

/-- A step in which no snapshot is taken or loaded. -/
theorem Snapshots.keeps (h : s.Snapshots good) (hr : r.dumps = []) :
    (s.during u r).Snapshots good := by
  intro term bytes hd
  rw [System.during, hr, List.append_nil] at hd
  exact h term bytes hd

theorem Snapshots.change (h : s.Snapshots good) (hc : Change e ⟨s.nodes u, [], [], [], env⟩ r)
    (hnew : ∀ before last rest, SyncObj.entriesFrom (s.nodes u).raftLog
      ((s.nodes u).raftLastApplied - 1) = some (before :: last :: rest) →
      good (s.nodes u).raftCurrentTerm ((s.nodes u).data, last, before)) :
    (s.during u r).Snapshots good := by
  cases hc with
  | serialize hentries =>
    intro term bytes hd
    rcases List.mem_append.mp hd with hd | hd
    · exact h term bytes hd
    · cases List.mem_singleton.mp hd
      exact ⟨_, rfl, hnew _ _ _ hentries⟩
  | load hl hload =>
    intro term bytes hd
    rcases List.mem_append.mp hd with hd | hd
    · exact h term bytes hd
    · cases List.mem_singleton.mp hd
  | _ => exact h.keeps rfl

/-- What a change loads is good, in some term. -/
theorem Snapshots.loads (h : s.Snapshots good) (hl : (s.during u r).LoadsTaken) {term : ℕ}
    {bytes : List P.Byte} {d : P.Snapshot} (hr : r.dumps = [.loaded term bytes])
    (hload : P.pickle.loads bytes = some d) : ∃ t ≤ term, good t d := by
  have hdumps : (s.during u r).dumps = s.dumps ++ [.loaded term bytes] := by
    rw [System.during, hr]
  obtain ⟨t, hle, ht⟩ := hl _ _ _ _ hdumps
  obtain ⟨d', rfl, hd⟩ := h t bytes ht
  rw [P.pickle.loads_dumps] at hload
  cases hload
  exact ⟨t, hle, hd⟩

end Snapshots

/-! ### Logs -/

section Logs

variable {good good' : ℕ → List (Entry P.Command) → Prop}

omit [DecidableEq U] in
theorem Logs.imp (h : s.Logs good) (hg : ∀ term log, good term log → good' term log) :
    s.Logs good' where
  log u := hg _ _ (h.log u)
  entries p hp term ci entries i t hm := by
    obtain ⟨x, hi, ht, hx⟩ := h.entries p hp term ci entries i t hm
    exact ⟨x, hi, ht, hg _ _ hx⟩
  snapshots := h.snapshots.imp fun _ _ hd => hg _ _ hd

theorem Logs.during (h : s.Logs good) (hn : good r.node.raftCurrentTerm r.node.raftLog)
    (hs : ∀ m ∈ r.sent, ∀ term commitIndex entries i t,
      m.2 = .appendEntries term commitIndex entries (some (i, t)) →
      ∃ x, x.idx = i ∧ x.term = t ∧ good term (x :: entries))
    (hsnapshots : (s.during u r).Snapshots fun term d => good term [d.2.2, d.2.1]) :
    (s.during u r).Logs good where
  log v := by
    by_cases hv : v = u
    · subst hv
      rwa [during_self]
    · rw [during_of_ne hv]
      exact h.log v
  entries p hp := by
    rcases List.mem_append.mp hp with hp | hp
    · exact h.entries p hp
    · obtain ⟨m, hm, rfl⟩ := List.mem_map.mp hp
      exact hs m hm
  snapshots := hsnapshots

omit [DecidableEq U] in
/-- The entries of a message and the one before them stand in the log. -/
theorem Logs.reports (law : LogLaw good) {term i t : ℕ} {entries : List (Entry P.Command)}
    (hn : good term n.raftLog) (h : n.Reports entries (some (i, t))) :
    ∃ x, x.idx = i ∧ x.term = t ∧ good term (x :: entries) := by
  obtain ⟨-, before, after, hlog, hprev⟩ := h
  obtain ⟨first, last, hfirst, hlast, ht, hi⟩ := hprev i t rfl
  obtain ⟨before, rfl⟩ := List.getLast?_eq_some_iff.mp hlast
  have hlog : n.raftLog = before ++ last :: (entries ++ after) := by simpa using hlog
  refine ⟨last, ?_, ht, law.cut hn ⟨before, after, by simpa using hlog.symm⟩⟩
  have := Chains.idx_eq (hlog ▸ law.consecutive hn) (hlog ▸ hfirst)
  rw [List.length_append, List.length_singleton] at hi
  omega

omit [DecidableEq U] in
/-- Entries go behind one of the index and term of the one that they stood behind. -/
theorem Logs.accepts (law : LogLaw good) {term i t : ℕ} {x : Entry P.Command}
    {before after entries : List (Entry P.Command)} (hn : good term n.raftLog)
    (hlog : n.raftLog = before ++ x :: after)
    (hpos : ∀ first, n.raftLog.head? = some first → i = first.idx + before.length)
    (ht : x.term = t) (hm : ∃ y, y.idx = i ∧ y.term = t ∧ good term (y :: entries)) :
    good term (before ++ [x] ++ entries) := by
  obtain ⟨y, hi, hty, hy⟩ := hm
  obtain ⟨first, hfirst⟩ : ∃ first, (before ++ x :: after).head? = some first := by
    cases before <;> exact ⟨_, rfl⟩
  have hx := Chains.idx_eq (hlog ▸ law.consecutive hn) hfirst
  have hi : y.idx = x.idx := hi.trans ((hpos first (hlog ▸ hfirst)).trans hx.symm)
  exact law.join (law.cut hn ⟨[], after, by simp [hlog]⟩) hy hi (hty.trans ht.symm)

theorem Logs.change (law : LogLaw good) (h : s.Logs good) (hl : (s.during u r).LoadsTaken)
    (he : ∀ w m, e = .receive w m → ⟨w, u, m⟩ ∈ s.sent)
    (hc : Change e ⟨s.nodes u, [], [], [], env⟩ r)
    (hnew : ∀ last x, (s.nodes u).raftLog.getLast? = some last →
      (s.nodes u).appended r.node = [(last, x)] →
      good (s.nodes u).raftCurrentTerm ((s.nodes u).raftLog ++ [x])) : (s.during u r).Logs good := by
  have hn := h.log u
  have hsnapshots : (s.during u r).Snapshots fun term d => good term [d.2.2, d.2.1] := by
    refine h.snapshots.change hc fun before last rest hentries => ?_
    obtain ⟨-, front, -, hlog, -⟩ := SyncObj.entriesFrom_cons.mp hentries
    exact law.cut hn ⟨front, rest, by simpa using hlog.symm⟩
  refine h.during ?_ (fun m hm term ci entries i t heq => ?_) hsnapshots
  · cases hc with
    | campaign i t hs => exact law.later hn (Nat.le_succ _)
    | follow he hle => exact law.later hn hle
    | append hs hq hlast => exact hnew _ _ hlast (SyncObj.appended_eq hs hlast rfl)
    | take k => exact law.cut hn (List.take_prefix k _).isInfix
    | drop k => exact law.cut hn (List.drop_suffix k _).isInfix
    | accept he' hf hlog hpos ht =>
      exact accepts law hn hlog hpos ht (h.entries _ (he _ _ he') _ _ _ _ _ rfl)
    | load hf hload =>
      obtain ⟨t, hle, hgood⟩ := h.snapshots.loads hl rfl hload
      exact law.later hgood hle
    | _ => exact hn
  · cases hc.sends m hm with
    | entries hw hr =>
      rw [Message.appendEntries.injEq] at heq
      obtain ⟨rfl, -, rfl, rfl⟩ := heq
      exact Logs.reports law hn hr
    | _ => cases heq

/-- A step that leaves the logs and snapshots alone. -/
theorem Logs.keeps (law : LogLaw good) (h : s.Logs good)
    (hterm : (s.nodes u).raftCurrentTerm ≤ r.node.raftCurrentTerm)
    (hlog : r.node.raftLog = (s.nodes u).raftLog) (hdumps : r.dumps = [])
    (hs : ∀ m ∈ r.sent, m.2.isVote = true) : (s.during u r).Logs good := by
  have other : ∀ m ∈ r.sent, ∀ m', Message.isVote m' = false → m.2 ≠ m' := by
    rintro m hm m' hm' rfl
    cases (hs m hm).symm.trans hm'
  refine h.during ?_ (fun m hm term ci entries i t heq => absurd heq (other m hm _ rfl))
    (h.snapshots.keeps hdumps)
  rw [hlog]
  exact law.later (h.log u) hterm

end Logs

end System

/-! ### Entries of leaders -/

section Grown

variable {C : Type} {b : List (Entry C × Entry C)} {term : ℕ} {log : List (Entry C)}

omit [DecidableEq U] in
theorem Behind.mono {b' : List (Entry C × Entry C)} {x y : Entry C} (h : Behind b x y)
    (hb : b ⊆ b') : Behind b' x y := by
  obtain ⟨x', hx, hkey⟩ := h
  exact ⟨x', hb hx, hkey⟩

omit [DecidableEq U] in
theorem Grown.mono {b' : List (Entry C × Entry C)} (h : Grown b term log) (hb : b ⊆ b') :
    Grown b' term log where
  chain := h.chain.imp fun _ _ hxy => hxy.mono hb
  entries x hx := by
    refine ⟨(h.entries x hx).1, (h.entries x hx).2.imp id ?_⟩
    rintro ⟨y, hy⟩
    exact ⟨y, hb hy⟩

omit [DecidableEq U] in
theorem Behind.idx {x y : Entry C} (h : Behind b x y) (hb : ∀ p ∈ b, Appended p) :
    y.idx = x.idx + 1 ∧ x.term ≤ y.term := by
  obtain ⟨x', hx, hi, ht⟩ := h
  rw [← hi, ← ht]
  exact ⟨(hb _ hx).idx, (hb _ hx).term⟩

omit [DecidableEq U] in
theorem Grown.law (hb : ∀ p ∈ b, Appended p) : LogLaw (Grown b) where
  later h hle := ⟨h.chain, fun x hx => ⟨(h.entries x hx).1.trans hle, (h.entries x hx).2⟩⟩
  cut h hpart := by
    refine ⟨?_, fun x hx => h.entries x (hpart.subset hx)⟩
    obtain ⟨front, back, rfl⟩ := hpart
    exact h.chain.left_of_append.right_of_append
  join {term before x y entries} hx hy hi ht := by
    constructor
    · refine hx.chain.append hy.chain.tail fun x' hx' z hz => ?_
      rw [List.getLast?_concat, Option.mem_some_iff] at hx'
      subst hx'
      obtain ⟨entries, rfl⟩ := List.head?_eq_some_iff.mp hz
      obtain ⟨⟨y', hy', hi', ht'⟩, -⟩ := List.isChain_cons_cons.mp hy.chain
      exact ⟨y', hy', hi'.trans hi, ht'.trans ht⟩
    · intro z hz
      rcases List.mem_append.mp hz with hz | hz
      · exact hx.entries z hz
      · exact hy.entries z (List.mem_cons_of_mem _ hz)
  consecutive h := h.chain.imp fun _ _ hxy => (hxy.idx hb).1

omit [DecidableEq U] in
theorem Grown.append {last x : Entry C} (h : Grown b term log) (hlast : log.getLast? = some last)
    (hx : x.term = term) : Grown (b ++ [(last, x)]) term (log ++ [x]) := by
  have hb := h.mono (List.subset_append_left b [(last, x)])
  constructor
  · refine hb.chain.append (List.isChain_singleton x) fun y hy z hz => ?_
    obtain rfl := Option.some_inj.mp (hlast.symm.trans hy)
    obtain rfl := Option.some_inj.mp hz
    exact ⟨last, List.mem_append_right _ List.mem_cons_self, rfl, rfl⟩
  · intro y hy
    rcases List.mem_append.mp hy with hy | hy
    · exact hb.entries y hy
    · obtain rfl := List.mem_singleton.mp hy
      exact ⟨hx.le, .inr ⟨last, List.mem_append_right _ List.mem_cons_self⟩⟩

omit [DecidableEq U] in
theorem Grown.pos {x : Entry C} (h : Grown b term log) (hb : ∀ p ∈ b, Appended p) (hx : x ∈ log) :
    1 ≤ x.idx ∧ (x.command = none ↔ x.idx = 1) := by
  rcases (h.entries x hx).2 with rfl | ⟨y, hy⟩
  · exact ⟨le_rfl, iff_of_true rfl rfl⟩
  · have hidx : x.idx = y.idx + 1 := (hb _ hy).idx
    have hpos : 1 ≤ y.idx := (hb _ hy).pos
    exact ⟨by omega, iff_of_false (hb _ hy).command (by omega)⟩

end Grown

namespace Cluster

theorem Moment.grown (h : c.Moment a s) (hl : s.LoadsTaken) :
    s.Logs (Grown a) ∧ ∀ p ∈ a, Appended p := by
  induction h with
  | initial =>
    refine ⟨⟨fun u => ⟨List.isChain_singleton _, fun x hx => ?_⟩, fun p hp => (nomatch hp),
      fun _ _ hd => (nomatch hd)⟩, fun p hp => nomatch hp⟩
    obtain rfl := List.mem_singleton.mp hx
    exact ⟨le_rfl, .inl rfl⟩
  | lose _ hp ih =>
    obtain ⟨hlogs, happended⟩ := ih hl
    exact ⟨⟨hlogs.log, hlogs.entries, hlogs.snapshots⟩, happended⟩
  | @opening a s p before behind env r _ hu _ hp ho ih =>
    obtain ⟨hlogs, happended⟩ := ih hl.of_during
    obtain ⟨hterm, hlog, hdumps, -⟩ := ho.spec
    refine ⟨System.Logs.keeps (Grown.law happended) ⟨hlogs.log, hlogs.entries, hlogs.snapshots⟩
      hterm hlog hdumps fun m hm => ?_, happended⟩
    cases ho with
    | vote he hs => rw [List.mem_singleton.mp (hs.subset hm)]; rfl
    | _ => cases hm
  | @change a s u e env r _ hu _ he hc ih =>
    obtain ⟨hlogs, happended⟩ := ih hl.of_during
    rcases hc.appends with hnone | ⟨last, x, hx, -, hlast, -, hidx, hterm, command, _, _, hcommand, -⟩
    · rw [hnone, List.append_nil]
      refine ⟨hlogs.change (Grown.law happended) hl he hc fun last x _ h => ?_, happended⟩
      cases hnone.symm.trans h
    · have hmem : last ∈ (s.nodes u).raftLog := List.mem_of_getLast? hlast
      have happended : ∀ p ∈ a ++ [(last, x)], Appended p := by
        intro p hp
        rcases List.mem_append.mp hp with hp | hp
        · exact happended p hp
        · obtain rfl := List.mem_singleton.mp hp
          exact ⟨hidx, ((hlogs.log u).pos happended hmem).1,
            hterm ▸ ((hlogs.log u).entries last hmem).1, hcommand ▸ Option.some_ne_none command⟩
      rw [hx]
      refine ⟨(hlogs.imp fun term log h => h.mono (List.subset_append_left _ _)).change
        (Grown.law happended) hl he hc fun last' x' hlast' h => ?_, happended⟩
      obtain ⟨rfl, rfl⟩ := Prod.mk.inj (List.singleton_inj.mp (hx.symm.trans h))
      exact (hlogs.log u).append hlast hterm
  | @broken a s u env r _ hu _ hi ih =>
    obtain ⟨hlogs, happended⟩ := ih hl.of_during
    obtain ⟨⟨_, _, _, _, heq, -⟩, hsent, hdumps, -⟩ := hi
    refine ⟨hlogs.keeps (Grown.law happended) ?_ ?_ hdumps ?_, happended⟩
    · rw [heq]
    · rw [heq]
    · rw [hsent]
      exact fun m hm => nomatch hm
  | @submit a s u command function env _ hu ih =>
    obtain ⟨hlogs, happended⟩ := ih hl.of_during
    obtain ⟨⟨hsent, hdumps⟩, -⟩ := submit_cases (s.nodes u) command function env
    obtain ⟨queue, hq⟩ := (s.nodes u).submit_keeps command function env
    refine ⟨System.Logs.keeps (Grown.law happended) ⟨hlogs.log, hlogs.entries, hlogs.snapshots⟩
      ?_ ?_ hdumps ?_, happended⟩
    · rw [hq]
    · rw [hq]
    · rw [hsent]
      exact fun m hm => nomatch hm

/-! ## Top theorems -/

/-- **Logs have no gaps** in a run that loads only snapshots as they were taken; their terms do not
fall and are none that the node has not reached; only the entry 1 has no command; and a look-up by
place finds the entries from an index on. -/
theorem logs_consecutive (h : c.Reachable s) (hl : s.LoadsTaken) (u : U) :
    (s.nodes u).raftLog.IsChain (fun x y => y.idx = x.idx + 1 ∧ x.term ≤ y.term) ∧
    (∀ x ∈ (s.nodes u).raftLog, 1 ≤ x.idx ∧ x.term ≤ (s.nodes u).raftCurrentTerm ∧
      (x.command = none ↔ x.idx = 1)) ∧
    ∀ first i, (s.nodes u).raftLog.head? = some first → first.idx ≤ i →
      SyncObj.entriesFrom (s.nodes u).raftLog i =
        some ((s.nodes u).raftLog.filter (i ≤ ·.idx)) := by
  obtain ⟨a, hm⟩ := h.moment
  obtain ⟨hlogs, happended⟩ := hm.grown hl
  have hlog := hlogs.log u
  refine ⟨hlog.chain.imp fun _ _ hxy => hxy.idx happended, fun x hx => ?_, fun first i hf hle => ?_⟩
  · obtain ⟨hpos, hcommand⟩ := hlog.pos happended hx
    exact ⟨hpos, (hlog.entries x hx).1, hcommand⟩
  · rw [SyncObj.entriesFrom_of_le hf hle,
      Chains.drop_eq_filter ((Grown.law happended).consecutive hlog) hf]

/-- The log that begins with the two entries of a snapshot. -/
theorem logs_consecutive_catchUp :
    let n := (catchUp.foldl trio.play trio.initial).nodes 2
    n.raftLog.map (·.idx) = [2, 3, 4] ∧
    n.raftLog.IsChain (fun x y => y.idx = x.idx + 1 ∧ x.term ≤ y.term) ∧
    (∀ x ∈ n.raftLog, 1 ≤ x.idx ∧ x.term ≤ n.raftCurrentTerm ∧ (x.command = none ↔ x.idx = 1)) ∧
    ∀ first i, n.raftLog.head? = some first → first.idx ≤ i →
      SyncObj.entriesFrom n.raftLog i = some (n.raftLog.filter (i ≤ ·.idx)) :=
  ⟨by decide +kernel, logs_consecutive (Reachable.plays .refl catchUp) catchUp_loadsTaken 2⟩

end Cluster

end Pysyncobj
