import Krafters.Pysyncobj.CustomServer
import Mathlib.Data.Finset.Card
import Mathlib.Data.List.Count

/-!
# Elections

A node answers every candidate of its term whose log is good enough; it does not remember whom it
voted for.  What holds in every run:

    leader u → a majority of the nodes, itself among them, voted for u in its term
    leader u → leader v → same term → somebody voted for both         (leaders_share_voter)

since a candidate asks a node once in a term, a request is answered once, and an answer is
counted once.
-/

namespace Pysyncobj

variable {P : Replicated} {U : Type} [DecidableEq U]

/-! ## Algorithm -/

/-- `v` asks `w` for its vote. -/
def Packet.asks (v w : U) (term : ℕ) (p : Packet P U) : Bool :=
  match p.message with
  | .requestVote t _ _ => decide (p.fromAddr = v ∧ p.toAddr = w ∧ t = term)
  | _ => false

/-- A vote for `v`. -/
def Packet.votes (v : U) (term : ℕ) (p : Packet P U) : Bool :=
  match p.message with
  | .responseVote t => decide (p.toAddr = v ∧ t = term)
  | _ => false

/-- The vote of `w` for `v`. -/
def Packet.votesFrom (w v : U) (term : ℕ) (p : Packet P U) : Bool :=
  p.votes v term && decide (p.fromAddr = w)

/-- The messages of an election. -/
def Message.isVote : Message P → Bool
  | .requestVote _ _ _ => true
  | .responseVote _ => true
  | _ => false

/-- `w` voted for `v`, or is the candidate `v` itself. -/
def System.VotedFor (s : System P U) (w v : U) (term : ℕ) : Prop :=
  ⟨w, v, .responseVote term⟩ ∈ s.sent ∨
    w = v ∧ ∃ x i t, ⟨v, x, .requestVote term i t⟩ ∈ s.sent

/-- Who votes for whom, and in which term. -/
def Packet.vote (p : Packet P U) : Option (U × U × ℕ) :=
  match p.message with
  | .requestVote t _ _ => some (p.fromAddr, p.fromAddr, t)
  | .responseVote t => some (p.fromAddr, p.toAddr, t)
  | _ => none

/-- `v` was sent votes enough to lead in a term, its own included. -/
def Cluster.Won (c : Cluster U) (s : System P U) (v : U) (term : ℕ) : Prop :=
  c.addrs.card / 2 < 1 + s.sent.countP (Packet.votes v term)

/-- No node has voted for two candidates of a term. -/
def Cluster.SingleVotes (c : Cluster U) (s : System P U) : Prop :=
  ∀ w ∈ c.addrs, ∀ u v term, s.VotedFor w u term → s.VotedFor w v term → u = v

structure Cluster.Election (c : Cluster U) (s : System P U) : Prop where
  /-- a candidate asks a node once in a term, and in no later one -/
  once : ∀ v w term, s.sent.countP (Packet.asks v w term) ≤ 1
  past : ∀ v w term, (s.nodes v).raftCurrentTerm < term →
    s.sent.countP (Packet.asks v w term) = 0
  asked : ∀ p ∈ s.sent, ∀ v w term, p.asks v w term → v ∈ c.addrs ∧ w ∈ c.addrs ∧ w ≠ v
  /-- a request is answered once -/
  answered : ∀ v w term, s.sent.countP (Packet.votesFrom w v term) +
    s.network.countP (Packet.asks v w term) ≤ s.sent.countP (Packet.asks v w term)
  /-- a vote is counted once -/
  counted : ∀ v, (s.nodes v).raftState = .candidate →
    (s.nodes v).votesCount + s.network.countP (Packet.votes v (s.nodes v).raftCurrentTerm) ≤
      1 + s.sent.countP (Packet.votes v (s.nodes v).raftCurrentTerm)
  won : ∀ v ∈ c.addrs, (s.nodes v).raftState = .leader → c.Won s v (s.nodes v).raftCurrentTerm

/-! ## Lemmas -/

variable {c : Cluster U} {a : List (Entry P.Command × Entry P.Command)} {s : System P U} {u v w : U} {e : Event P U} {n : SyncObj P U}
  {env : Environment} {r r' : Turn P U}

omit [DecidableEq U] in
theorem System.votedFor_iff {term : ℕ} :
    s.VotedFor w v term ↔ (w, v, term) ∈ s.sent.filterMap Packet.vote := by
  rw [List.mem_filterMap]
  constructor
  · rintro (h | ⟨rfl, x, i, t, h⟩)
    · exact ⟨_, h, rfl⟩
    · exact ⟨_, h, rfl⟩
  · rintro ⟨⟨fromAddr, toAddr, m⟩, hp, hv⟩
    cases m with
    | requestVote t i j =>
      cases hv
      exact .inr ⟨rfl, _, _, _, hp⟩
    | responseVote t =>
      cases hv
      exact .inl hp
    | _ => cases hv

instance (c : Cluster U) (s : System P U) : Decidable (c.SingleVotes s) :=
  decidable_of_iff (∀ p ∈ s.sent.filterMap Packet.vote, ∀ q ∈ s.sent.filterMap Packet.vote,
    p.1 ∈ c.addrs → p.1 = q.1 → p.2.2 = q.2.2 → p.2.1 = q.2.1) <| by
  constructor
  · intro h w hw u v term hu hv
    exact h _ (System.votedFor_iff.mp hu) _ (System.votedFor_iff.mp hv) hw rfl rfl
  · rintro h ⟨w, u, term⟩ hu ⟨w', v, term'⟩ hv hw hww htt
    dsimp only at hww htt
    subst hww htt
    exact h w hw u v term (System.votedFor_iff.mpr hu) (System.votedFor_iff.mpr hv)

omit [DecidableEq U] in
theorem SyncObj.submit_keeps (n : SyncObj P U) (command : P.Command) (function : Option ℕ)
    (env : Environment) : ∃ queue,
      (n.submit command function env).node = { n with commandsQueue := queue } := by
  rcases (submit_cases n command function env).2 with ⟨hn, -⟩ | ⟨hn, -⟩
  · exact ⟨_, hn⟩
  · exact ⟨_, hn⟩

theorem Cluster.Moment.keeps (h : c.Moment a s) (u : U) :
    (s.nodes u).nodes = c.otherNodesAddrs u ∧ (s.nodes u).selfNodeAddr = u := by
  refine h.node (I := fun u n => n.nodes = c.otherNodesAddrs u ∧ n.selfNodeAddr = u)
    (fun u => ⟨rfl, rfl⟩) ?_ ?_ ?_ ?_ u
  · rintro u e r r' hr ho
    rwa [ho.keeps.1, ho.keeps.2.1]
  · rintro u e r r' hr hc
    rwa [hc.keeps.1, hc.keeps.2.1]
  · rintro u r r' hr hi
    dsimp only
    rwa [hi.keeps.1, hi.keeps.2.1]
  · rintro u n command function env hn
    obtain ⟨queue, hq⟩ := n.submit_keeps command function env
    rw [hq]
    exact hn

/-- What a change means for elections. -/
inductive Electoral (r r' : Turn P U) : Prop
  | none (hstate : r'.node.raftState = r.node.raftState)
      (hterm : r'.node.raftCurrentTerm = r.node.raftCurrentTerm)
      (hvotes : r'.node.votesCount = r.node.votesCount)
      (hsent : ∀ m ∈ r'.sent, m.2.isVote = false)
  | follow (hstate : r'.node.raftState = .follower)
      (hterm : r.node.raftCurrentTerm ≤ r'.node.raftCurrentTerm) (hsent : r'.sent = [])
  | elect (hc : r.node.raftState = .candidate) (hstate : r'.node.raftState = .leader)
      (hterm : r'.node.raftCurrentTerm = r.node.raftCurrentTerm)
      (hv : (r.node.nodes.length + 1) / 2 < r.node.votesCount) (hsent : r'.sent = [])
  | campaign (i t : ℕ) (hstate : r'.node.raftState = .candidate)
      (hterm : r'.node.raftCurrentTerm = r.node.raftCurrentTerm + 1)
      (hvotes : r'.node.votesCount = 1)
      (hsent : r'.sent.Sublist (r.node.nodes.map fun addr =>
        (addr, .requestVote (r.node.raftCurrentTerm + 1) i t)))

theorem Change.electoral (h : Change e ⟨n, [], [], [], env⟩ r) : Electoral ⟨n, [], [], [], env⟩ r := by
  have sublist {m : U × Message P} (hm : m.2.isVote = false) {sent : List (U × Message P)}
      (hs : sent.Sublist [m]) : ∀ m ∈ [] ++ sent, m.2.isVote = false := by
    intro m' hm'
    rw [List.mem_singleton.mp (hs.subset hm')]
    exact hm
  cases h with
  | campaign i t hs => exact .campaign i t rfl rfl rfl hs
  | follow he hle => exact .follow rfl hle rfl
  | elect hc hv => exact .elect hc rfl rfl hv rfl
  | append hl hq hlast hs =>
    refine .none rfl rfl rfl fun m hm => ?_
    cases ‹Callback U› with
    | request w id => exact sublist rfl hs m hm
    | _ => cases hs.subset hm
  | forward leader hq hs => exact .none rfl rfl rfl (sublist rfl hs)
  | forwardQuietly leader hq hs => exact .none rfl rfl rfl (sublist rfl hs)
  | refuse hq hs => exact .none rfl rfl rfl (sublist rfl hs)
  | batch ha hl hs => exact .none rfl rfl rfl (sublist rfl hs)
  | entries ha h => exact .none rfl rfl rfl (sublist rfl (.refl _))
  | acknowledge addr next reset => exact .none rfl rfl rfl (sublist rfl (.refl _))
  | _ => exact .none rfl rfl rfl fun m hm => nomatch hm

omit [DecidableEq U] in
theorem countP_packets {q : Packet P U → Bool} (hq : ∀ p, q p = true → p.message.isVote = true)
    (h : ∀ m ∈ r.sent, m.2.isVote = false) : (r.packets u).countP q = 0 := by
  rw [List.countP_eq_zero]
  intro p hp hqp
  obtain ⟨m, hm, rfl⟩ := List.mem_map.mp hp
  cases (h m hm).symm.trans (hq _ hqp)

theorem Packet.asks_isVote {v w : U} {term : ℕ} (p : Packet P U) (h : p.asks v w term = true) :
    p.message.isVote = true := by
  unfold Packet.asks at h
  split at h
  · next hm => rw [hm]; rfl
  · cases h

theorem Packet.votes_isVote {v : U} {term : ℕ} (p : Packet P U) (h : p.votes v term = true) :
    p.message.isVote = true := by
  unfold Packet.votes at h
  split at h
  · next hm => rw [hm]; rfl
  · cases h

theorem Packet.votesFrom_isVote {v w : U} {term : ℕ} (p : Packet P U)
    (h : p.votesFrom w v term = true) : p.message.isVote = true :=
  p.votes_isVote (Bool.and_eq_true_iff.mp h).1

/-- A step in which no vote is asked for, given or counted. -/
structure Calm (c : Cluster U) (s s' : System P U) : Prop where
  sent : ∀ q : Packet P U → Bool, (∀ p, q p = true → p.message.isVote = true) →
    s'.sent.countP q = s.sent.countP q
  network : ∀ q : Packet P U → Bool, (∀ p, q p = true → p.message.isVote = true) →
    s'.network.countP q ≤ s.network.countP q
  term : ∀ v, (s.nodes v).raftCurrentTerm ≤ (s'.nodes v).raftCurrentTerm
  candidate : ∀ v, (s'.nodes v).raftState = .candidate → (s.nodes v).raftState = .candidate ∧
    (s'.nodes v).raftCurrentTerm = (s.nodes v).raftCurrentTerm ∧
    (s'.nodes v).votesCount = (s.nodes v).votesCount
  leader : ∀ v ∈ c.addrs, (s'.nodes v).raftState = .leader →
    (s.nodes v).raftState = .leader ∧
      (s'.nodes v).raftCurrentTerm = (s.nodes v).raftCurrentTerm ∨
    c.Won s v (s'.nodes v).raftCurrentTerm

theorem Cluster.Election.calm {s' : System P U} (h : c.Election s) (hs : Calm c s s') :
    c.Election s' where
  once v w term := by
    rw [hs.sent _ Packet.asks_isVote]
    exact h.once v w term
  past v w term hlt := by
    rw [hs.sent _ Packet.asks_isVote]
    exact h.past v w term ((hs.term v).trans_lt hlt)
  asked p hp v w term hasks := by
    have hpos := List.countP_pos_iff.mpr ⟨p, hp, hasks⟩
    rw [hs.sent _ Packet.asks_isVote] at hpos
    obtain ⟨p', hp', hasks'⟩ := List.countP_pos_iff.mp hpos
    exact h.asked p' hp' v w term hasks'
  answered v w term := by
    rw [hs.sent _ Packet.votesFrom_isVote, hs.sent _ Packet.asks_isVote]
    exact (Nat.add_le_add_left (hs.network _ Packet.asks_isVote) _).trans (h.answered v w term)
  counted v hv := by
    obtain ⟨hc, hterm, hvotes⟩ := hs.candidate v hv
    rw [hterm, hvotes, hs.sent _ Packet.votes_isVote]
    exact (Nat.add_le_add_left (hs.network _ Packet.votes_isVote) _).trans (h.counted v hc)
  won v hv hl := by
    have hwon : c.Won s v (s'.nodes v).raftCurrentTerm := by
      rcases hs.leader v hv hl with ⟨hl', hterm⟩ | hwon
      · rw [hterm]
        exact h.won v hv hl'
      · exact hwon
    unfold Cluster.Won at hwon ⊢
    rwa [hs.sent _ Packet.votes_isVote]

theorem Cluster.Won.mono {s' : System P U} {term : ℕ} (h : c.Won s v term)
    (hs : s.sent.Sublist s'.sent) : c.Won s' v term :=
  lt_of_lt_of_le h (Nat.add_le_add_left hs.countP_le 1)

theorem System.sent_during : s.sent.Sublist (s.during u r).sent := List.sublist_append_left ..

/-- A node's own doing, where it neither asks nor answers. -/
theorem Calm.during (hsent : ∀ m ∈ r.sent, m.2.isVote = false)
    (hterm : (s.nodes u).raftCurrentTerm ≤ r.node.raftCurrentTerm)
    (hcandidate : r.node.raftState = .candidate → (s.nodes u).raftState = .candidate ∧
      r.node.raftCurrentTerm = (s.nodes u).raftCurrentTerm ∧
      r.node.votesCount = (s.nodes u).votesCount)
    (hleader : r.node.raftState = .leader → (s.nodes u).raftState = .leader ∧
      r.node.raftCurrentTerm = (s.nodes u).raftCurrentTerm ∨ c.Won s u r.node.raftCurrentTerm) :
    Calm c s (s.during u r) where
  sent q hq := by
    rw [System.during, List.countP_append, countP_packets hq hsent, Nat.add_zero]
  network q hq := by
    rw [System.during, List.countP_append, countP_packets hq hsent, Nat.add_zero]
  term v := by
    by_cases hv : v = u
    · subst hv
      rwa [System.during_self]
    · rw [System.during_of_ne hv]
  candidate v := by
    by_cases hv : v = u
    · subst hv
      rwa [System.during_self]
    · rw [System.during_of_ne hv]
      exact fun h => ⟨h, rfl, rfl⟩
  leader v _ := by
    by_cases hv : v = u
    · subst hv
      rwa [System.during_self]
    · rw [System.during_of_ne hv]
      exact fun h => .inl ⟨h, rfl⟩

namespace Cluster

variable {p : Packet P U} {before behind : List (Packet P U)}

theorem Election.lose (h : c.Election s) (hp : s.network = before ++ p :: behind) :
    c.Election { s with network := before ++ behind } := by
  refine h.calm ⟨fun _ _ => rfl, fun q _ => ?_, fun _ => le_rfl, fun _ hc => ⟨hc, rfl, rfl⟩,
    fun _ _ hl => .inl ⟨hl, rfl⟩⟩
  rw [hp]
  exact ((List.Sublist.refl before).append (List.sublist_cons_self p behind)).countP_le

theorem card_addrs (hu : u ∈ c.addrs) : (c.otherNodesAddrs u).length + 1 = c.addrs.card := by
  have heq : (c.otherNodesAddrs u).toFinset = c.addrs.erase u := by
    ext w
    rw [List.mem_toFinset, c.mem_other u hu, Finset.mem_erase, and_comm]
  rw [← List.toFinset_card_of_nodup (c.nodup u hu), heq, Finset.card_erase_add_one hu]

/-- A change that has nothing to do with votes, or ends an election. -/
theorem Election.elect (h : c.Election s) (hm : c.Moment a s) (hu : u ∈ c.addrs)
    (hc : (s.nodes u).raftState = .candidate)
    (hv : ((s.nodes u).nodes.length + 1) / 2 < (s.nodes u).votesCount) :
    c.Won s u (s.nodes u).raftCurrentTerm := by
  have hcount := h.counted u hc
  rw [(hm.keeps u).1, card_addrs hu] at hv
  unfold Won
  omega

theorem countP_asks (nodes : List U) (term i t : ℕ) (v w : U) (term' : ℕ) :
    ((nodes.map fun addr => ((addr, .requestVote term i t) : U × Message P)).map fun m =>
      (⟨u, m.1, m.2⟩ : Packet P U)).countP (Packet.asks v w term') =
    if u = v ∧ term = term' then nodes.count w else 0 := by
  rw [List.map_map, List.countP_map]
  split
  · next huv =>
    rw [List.count]
    congr 1
    funext addr
    simp [Packet.asks, huv.1, huv.2, beq_eq_decide]
  · next huv =>
    rw [List.countP_eq_zero]
    intro addr _ hasks
    simp only [Function.comp_apply, Packet.asks, decide_eq_true_eq] at hasks
    exact huv ⟨hasks.1, hasks.2.2⟩

theorem Election.campaign (h : c.Election s) (hm : c.Moment a s) (hu : u ∈ c.addrs) {i t : ℕ}
    (hstate : r.node.raftState = .candidate)
    (hterm : r.node.raftCurrentTerm = (s.nodes u).raftCurrentTerm + 1)
    (hvotes : r.node.votesCount = 1)
    (hs : r.sent.Sublist ((s.nodes u).nodes.map fun addr =>
      (addr, .requestVote ((s.nodes u).raftCurrentTerm + 1) i t))) :
    c.Election (s.during u r) := by
  rw [(hm.keeps u).1] at hs
  have hasks (v w : U) (term : ℕ) : (r.packets u).countP (Packet.asks v w term) ≤
      if u = v ∧ (s.nodes u).raftCurrentTerm + 1 = term then 1 else 0 := by
    refine (hs.map _).countP_le.trans ?_
    rw [countP_asks]
    split
    · exact List.nodup_iff_count_le_one.mp (c.nodup u hu) w
    · exact le_rfl
  have hpackets : ∀ p ∈ r.packets u, p.fromAddr = u ∧ p.toAddr ∈ c.otherNodesAddrs u ∧
      ∃ term i t, p.message = .requestVote term i t := by
    intro p hp
    obtain ⟨m, hm, rfl⟩ := List.mem_map.mp hp
    obtain ⟨addr, haddr, rfl⟩ := List.mem_map.mp (hs.subset hm)
    exact ⟨rfl, haddr, _, _, _, rfl⟩
  have hnovotes (v : U) (term : ℕ) : (r.packets u).countP (Packet.votes v term) = 0 := by
    rw [List.countP_eq_zero]
    intro p hp hv
    obtain ⟨-, -, _, _, _, hmsg⟩ := hpackets p hp
    rw [Packet.votes, hmsg] at hv
    cases hv
  have hnode (v : U) : (s.nodes v).raftCurrentTerm ≤ ((s.during u r).nodes v).raftCurrentTerm := by
    by_cases hv : v = u
    · subst hv
      rw [System.during_self]
      omega
    · rw [System.during_of_ne hv]
  constructor
  · intro v w term
    have hnew := hasks v w term
    rw [System.during, List.countP_append]
    split at hnew
    · next hv =>
      obtain ⟨rfl, rfl⟩ := hv
      have := h.past u w ((s.nodes u).raftCurrentTerm + 1) (Nat.lt_succ_self _)
      omega
    · have := h.once v w term
      omega
  · intro v w term hlt
    have hnew := hasks v w term
    have hold := h.past v w term ((hnode v).trans_lt hlt)
    have hne : ¬ (u = v ∧ (s.nodes u).raftCurrentTerm + 1 = term) := by
      rintro ⟨rfl, rfl⟩
      rw [System.during_self, hterm] at hlt
      exact absurd hlt (Nat.lt_irrefl _)
    rw [if_neg hne] at hnew
    rw [System.during, List.countP_append]
    omega
  · intro p hp v w term hv
    rcases List.mem_append.mp hp with hp | hp
    · exact h.asked p hp v w term hv
    · obtain ⟨rfl, hto, term', i', t', hmsg⟩ := hpackets p hp
      rw [Packet.asks, hmsg, decide_eq_true_eq] at hv
      obtain ⟨rfl, rfl, -⟩ := hv
      obtain ⟨hto, hne⟩ := (c.mem_other _ hu _).mp hto
      exact ⟨hu, hto, hne⟩
  · intro v w term
    have hold := h.answered v w term
    have hfrom : (r.packets u).countP (Packet.votesFrom w v term) = 0 :=
      Nat.eq_zero_of_le_zero <| (hnovotes v term) ▸
        List.countP_mono_left fun p _ hp => (Bool.and_eq_true_iff.mp hp).1
    simp only [System.during, List.countP_append]
    omega
  · intro v hc
    have hsub := (hm.network_sent.countP_le (p := Packet.votes v r.node.raftCurrentTerm))
    by_cases hv : v = u
    · subst hv
      simp only [System.during_self, hvotes]
      simp only [System.during, List.countP_append, hnovotes]
      omega
    · rw [System.during_of_ne hv] at hc ⊢
      simp only [System.during, List.countP_append, hnovotes]
      exact h.counted v hc
  · intro v hv hl
    by_cases hvu : v = u
    · subst hvu
      rw [System.during_self, hstate] at hl
      cases hl
    · rw [System.during_of_ne hvu] at hl ⊢
      exact (h.won v hv hl).mono System.sent_during

/-- A request becomes an answer, or is ignored. -/
theorem Election.vote (h : c.Election s) (hp : s.network = before ++ p :: behind)
    {term i t : ℕ} (hmsg : p.message = .requestVote term i t)
    (hs : r.sent.Sublist [(p.fromAddr, .responseVote term)])
    (hn : r.node.raftState = .follower ∧ (s.nodes p.toAddr).raftCurrentTerm ≤ r.node.raftCurrentTerm
      ∨ r.node = s.nodes p.toAddr) :
    c.Election (({ s with network := before ++ behind } : System P U).during p.toAddr r) := by
  have hpackets : (r.packets p.toAddr).Sublist [⟨p.toAddr, p.fromAddr, .responseVote term⟩] :=
    hs.map _
  have hasks (v w : U) (term' : ℕ) : (r.packets p.toAddr).countP (Packet.asks v w term') = 0 :=
    Nat.eq_zero_of_le_zero (hpackets.countP_le.trans (by simp [Packet.asks]))
  have hnode (v : U) : (((s.during p.toAddr r).nodes v) = s.nodes v) ∨
      ((s.during p.toAddr r).nodes v).raftState = .follower ∧
        (s.nodes v).raftCurrentTerm ≤ ((s.during p.toAddr r).nodes v).raftCurrentTerm := by
    by_cases hv : v = p.toAddr
    · subst hv
      rw [System.during_self]
      exact hn.symm
    · exact .inl (System.during_of_ne hv)
  constructor
  · intro v w term'
    rw [System.during, List.countP_append, hasks]
    exact h.once v w term'
  · intro v w term' hlt
    rw [System.during, List.countP_append, hasks]
    refine h.past v w term' (lt_of_le_of_lt ?_ hlt)
    rcases hnode v with hv | ⟨-, hv⟩
    · exact (congrArg _ hv).ge
    · exact hv
  · intro q hq v w term' hv
    rcases List.mem_append.mp hq with hq | hq
    · exact h.asked q hq v w term' hv
    · cases (List.countP_eq_zero.mp (hasks v w term') q hq) hv
  · intro v w term'
    have hold := h.answered v w term'
    have hone : (r.packets p.toAddr).countP (Packet.votesFrom w v term') ≤
        if p.asks v w term' then 1 else 0 := by
      refine hpackets.countP_le.trans ?_
      rw [List.countP_singleton, Packet.asks, hmsg]
      simp only [Packet.votesFrom, Packet.votes, Bool.and_eq_true, decide_eq_true_eq, and_comm]
      exact (if_congr and_left_comm rfl rfl).le
    simp only [hp, List.countP_append, List.countP_cons] at hold
    simp only [System.during, List.countP_append, hasks]
    omega
  · intro v hc
    rcases hnode v with hv | ⟨hv, -⟩
    · have hold := h.counted v (hv ▸ hc)
      change _ + List.countP (Packet.votes v ((s.during p.toAddr r).nodes v).raftCurrentTerm) _ ≤
        1 + List.countP (Packet.votes v ((s.during p.toAddr r).nodes v).raftCurrentTerm) _
      change ((s.during p.toAddr r).nodes v).votesCount + _ ≤ _
      simp only [hp, List.countP_append, List.countP_cons] at hold
      rw [hv]
      simp only [System.during, List.countP_append]
      omega
    · cases hv.symm.trans hc
  · intro v hv hl
    rcases hnode v with heq | ⟨hf, -⟩
    · have hold := h.won v hv (heq ▸ hl)
      change c.Won _ v ((s.during p.toAddr r).nodes v).raftCurrentTerm
      rw [heq]
      exact hold.mono System.sent_during
    · cases hf.symm.trans hl

/-- A vote is counted. -/
theorem Election.count (h : c.Election s) (hp : s.network = before ++ p :: behind)
    {term : ℕ} (hmsg : p.message = .responseVote term)
    (ht : term = (s.nodes p.toAddr).raftCurrentTerm) (hs : r.sent = [])
    (hn : r.node = { s.nodes p.toAddr with votesCount := (s.nodes p.toAddr).votesCount + 1 }) :
    c.Election (({ s with network := before ++ behind } : System P U).during p.toAddr r) := by
  have hpackets : r.packets p.toAddr = [] := by rw [Turn.packets, hs, List.map_nil]
  have hl := h.lose hp
  have hnode (v : U) : ((s.during p.toAddr r).nodes v).raftState = (s.nodes v).raftState ∧
      ((s.during p.toAddr r).nodes v).raftCurrentTerm = (s.nodes v).raftCurrentTerm := by
    by_cases hv : v = p.toAddr
    · subst hv
      rw [System.during_self, hn]
      exact ⟨rfl, rfl⟩
    · rw [System.during_of_ne hv]
      exact ⟨rfl, rfl⟩
  have hsent : (({ s with network := before ++ behind } : System P U).during p.toAddr r).sent =
      s.sent := by
    change s.sent ++ r.packets p.toAddr = s.sent
    rw [hpackets, List.append_nil]
  have hnetwork : (({ s with network := before ++ behind } : System P U).during p.toAddr r).network
      = before ++ behind := by
    change before ++ behind ++ r.packets p.toAddr = before ++ behind
    rw [hpackets, List.append_nil]
  constructor
  · rw [hsent]
    exact h.once
  · intro v w term' hlt
    rw [hsent]
    exact h.past v w term' ((hnode v).2.ge.trans_lt hlt)
  · rw [hsent]
    exact h.asked
  · rw [hsent, hnetwork]
    exact hl.answered
  · intro v hv
    rw [hsent, hnetwork]
    change ((s.during p.toAddr r).nodes v).votesCount + List.countP (Packet.votes v
      ((s.during p.toAddr r).nodes v).raftCurrentTerm) _ ≤ 1 + List.countP (Packet.votes v
      ((s.during p.toAddr r).nodes v).raftCurrentTerm) _
    rw [(hnode v).2]
    have hold := h.counted v ((hnode v).1 ▸ hv)
    simp only [hp, List.countP_append, List.countP_cons] at hold
    rw [List.countP_append]
    by_cases hvu : v = p.toAddr
    · subst hvu
      have hvote : p.votes p.toAddr (s.nodes p.toAddr).raftCurrentTerm = true := by
        simp [Packet.votes, hmsg, ht]
      rw [hvote, if_pos rfl] at hold
      rw [System.during_self, hn]
      dsimp only
      omega
    · rw [System.during_of_ne hvu]
      omega
  · intro v hv hlead
    change c.Won _ v ((s.during p.toAddr r).nodes v).raftCurrentTerm
    rw [(hnode v).2]
    exact (h.won v hv ((hnode v).1 ▸ hlead)).mono System.sent_during

theorem Election.init : c.Election (c.initial : System P U) where
  once _ _ _ := Nat.zero_le 1
  past _ _ _ _ := rfl
  asked _ hp := nomatch hp
  answered _ _ _ := le_rfl
  counted _ hc := nomatch hc
  won _ _ hl := nomatch hl

theorem Election.opening (h : c.Election s) (hp : s.network = before ++ p :: behind)
    (ho : Opening (.receive p.fromAddr p.message) ⟨s.nodes p.toAddr, [], [], [], env⟩ r) :
    c.Election (({ s with network := before ++ behind } : System P U).during p.toAddr r) := by
  cases ho with
  | enqueue he =>
    exact (h.lose hp).calm (.during (fun m hm => nomatch hm) le_rfl (fun hc => ⟨hc, rfl, rfl⟩)
      fun hl => .inl ⟨hl, rfl⟩)
  | vote he hs =>
    rw [Event.receive.injEq] at he
    obtain ⟨rfl, hmsg⟩ := he
    refine h.vote hp hmsg hs ?_
    dsimp only
    split
    · next hlt => exact .inl ⟨rfl, hlt.le⟩
    · exact .inr rfl
  | count he hc ht =>
    rw [Event.receive.injEq] at he
    exact h.count hp he.2 ht rfl rfl

theorem Election.change (h : c.Election s) (hm : c.Moment a s) (hu : u ∈ c.addrs)
    (hc : Change e ⟨s.nodes u, [], [], [], env⟩ r) : c.Election (s.during u r) := by
  cases hc.electoral with
  | none hstate hterm hvotes hsent =>
    exact h.calm (.during hsent hterm.ge (fun hc => ⟨hstate ▸ hc, hterm, hvotes⟩)
      fun hl => .inl ⟨hstate ▸ hl, hterm⟩)
  | follow hstate hterm hsent =>
    refine h.calm (.during ?_ hterm ?_ ?_)
    · rw [hsent]
      exact fun m hm => nomatch hm
    · exact fun hc => nomatch hstate.symm.trans hc
    · exact fun hl => nomatch hstate.symm.trans hl
  | elect hc hstate hterm hv hsent =>
    refine h.calm (.during ?_ hterm.ge ?_ fun _ => .inr ?_)
    · rw [hsent]
      exact fun m hm => nomatch hm
    · exact fun hc => nomatch hstate.symm.trans hc
    · rw [hterm]
      exact h.elect hm hu hc hv
  | campaign i t hstate hterm hvotes hs => exact h.campaign hm hu hstate hterm hvotes hs

theorem Moment.election (h : c.Moment a s) : c.Election s := by
  induction h with
  | initial => exact .init
  | lose _ hp ih => exact ih.lose hp
  | opening _ _ _ hp ho ih => exact ih.opening hp ho
  | change h hu _ _ hc ih => exact ih.change h hu hc
  | @broken a s u env r _ _ _ hi ih =>
    obtain ⟨⟨_, _, _, _, heq, -⟩, hsent, -⟩ := hi
    refine ih.calm (.during ?_ ?_ ?_ ?_)
    · rw [hsent]
      exact fun m hm => nomatch hm
    · rw [heq]
    · rw [heq]
      exact fun hc => ⟨hc, rfl, rfl⟩
    · rw [heq]
      exact fun hl => .inl ⟨hl, rfl⟩
  | @submit a s u command function env _ hu ih =>
    obtain ⟨⟨hsent, -⟩, hnode⟩ := submit_cases (s.nodes u) command function env
    obtain ⟨queue, hq⟩ := (s.nodes u).submit_keeps command function env
    refine Election.calm (s := { s with submitted := s.submitted ++ [(u, command, function)] })
      ⟨ih.once, ih.past, ih.asked, ih.answered, ih.counted, ih.won⟩ (.during ?_ ?_ ?_ ?_)
    · rw [hsent]
      exact fun m hm => nomatch hm
    · rw [hq]
    · rw [hq]
      exact fun hc => ⟨hc, rfl, rfl⟩
    · rw [hq]
      exact fun hl => .inl ⟨hl, rfl⟩

/-! ### Voters -/

/-- `v`, and who voted for it. -/
def voters (s : System P U) (v : U) (term : ℕ) : Finset U :=
  insert v ((s.sent.filter (Packet.votes v term)).map Packet.fromAddr).toFinset

theorem count_votes (s : System P U) (v w : U) (term : ℕ) :
    ((s.sent.filter (Packet.votes v term)).map Packet.fromAddr).count w =
      s.sent.countP (Packet.votesFrom w v term) := by
  rw [List.count, List.countP_map, List.countP_filter]
  congr 1
  funext p
  rw [Packet.votesFrom, Bool.and_comm, Function.comp_apply, beq_eq_decide]

theorem Election.voted (h : c.Election s) {term : ℕ}
    (hw : w ∈ (s.sent.filter (Packet.votes v term)).map Packet.fromAddr) :
    v ∈ c.addrs ∧ w ∈ c.addrs ∧ w ≠ v ∧ ⟨w, v, .responseVote term⟩ ∈ s.sent ∧
      ∃ x i t, ⟨v, x, .requestVote term i t⟩ ∈ s.sent := by
  have hcount := List.count_pos_iff.mpr hw
  rw [count_votes] at hcount
  obtain ⟨p, hp, hasks⟩ := List.countP_pos_iff.mp
    (lt_of_lt_of_le (hcount.trans_le (Nat.le_add_right _ _)) (h.answered v w term))
  obtain ⟨hv, hw', hne⟩ := h.asked p hp v w term hasks
  refine ⟨hv, hw', hne, ?_, ?_⟩
  · obtain ⟨q, hq, hvote⟩ := List.countP_pos_iff.mp hcount
    simp only [Packet.votesFrom, Packet.votes, Bool.and_eq_true, decide_eq_true_eq] at hvote
    obtain ⟨hvote, rfl⟩ := hvote
    split at hvote
    · next hmsg =>
      obtain ⟨rfl, rfl⟩ := of_decide_eq_true hvote
      exact hmsg ▸ hq
    · cases hvote
  · unfold Packet.asks at hasks
    split at hasks
    · next i t hmsg =>
      obtain ⟨rfl, rfl, rfl⟩ := of_decide_eq_true hasks
      refine ⟨p.toAddr, i, t, ?_⟩
      rw [← hmsg]
      exact hp
    · cases hasks

theorem Election.card_voters (h : c.Election s) {term : ℕ} (hwon : c.Won s v term) :
    c.addrs.card / 2 < (voters s v term).card := by
  have hnodup : ((s.sent.filter (Packet.votes v term)).map Packet.fromAddr).Nodup := by
    rw [List.nodup_iff_count_le_one]
    intro w
    rw [count_votes]
    exact ((Nat.le_add_right _ _).trans (h.answered v w term)).trans (h.once v w term)
  unfold Won at hwon
  rw [voters, Finset.card_insert_of_notMem, List.toFinset_card_of_nodup hnodup, List.length_map,
    ← List.countP_eq_length_filter, Nat.add_comm]
  · exact hwon
  · rw [List.mem_toFinset]
    exact fun hv => (h.voted hv).2.2.1 rfl

theorem Election.voters_subset (h : c.Election s) {term : ℕ} (hv : v ∈ c.addrs) :
    voters s v term ⊆ c.addrs := by
  intro w hw
  rcases Finset.mem_insert.mp hw with rfl | hw
  · exact hv
  · exact (h.voted (List.mem_toFinset.mp hw)).2.1

theorem Election.votedFor (h : c.Election s) {term : ℕ} (hwon : c.Won s v term)
    (hcard : 1 < c.addrs.card) (hw : w ∈ voters s v term) : s.VotedFor w v term := by
  rcases Finset.mem_insert.mp hw with rfl | hw
  · have hcards := h.card_voters hwon
    obtain ⟨x, hx, hne⟩ := Finset.exists_mem_ne (s := voters s w term) (by omega) w
    have hvoted := h.voted (List.mem_toFinset.mp ((Finset.mem_insert.mp hx).resolve_left hne))
    exact .inr ⟨rfl, hvoted.2.2.2.2⟩
  · exact .inl (h.voted (List.mem_toFinset.mp hw)).2.2.2.1

/-! ## Top theorems -/

/-- **Two leaders of one term share a voter**: what keeps two nodes from leading in one term is
only that no node votes for both. -/
theorem Won.shared (hm : c.Moment a s) {term : ℕ} (hu : u ∈ c.addrs) (hv : v ∈ c.addrs)
    (hne : u ≠ v) (hwonu : c.Won s u term) (hwonv : c.Won s v term) :
    ∃ w ∈ c.addrs, s.VotedFor w u term ∧ s.VotedFor w v term := by
  have h := hm.election
  have hcard : 1 < c.addrs.card := Finset.one_lt_card.mpr ⟨u, hu, v, hv, hne⟩
  have hcu := h.card_voters hwonu
  have hcv := h.card_voters hwonv
  have hsu : voters s u term ⊆ c.addrs := h.voters_subset hu
  have hsv : voters s v term ⊆ c.addrs := h.voters_subset hv
  obtain ⟨w, hw⟩ := Finset.inter_nonempty_of_card_lt_card_add_card hsu hsv (by omega)
  obtain ⟨hwu, hwv⟩ := Finset.mem_inter.mp hw
  exact ⟨w, hsu hwu, h.votedFor hwonu hcard hwu, h.votedFor hwonv hcard hwv⟩

theorem leaders_share_voter (h : c.Reachable s) (hu : u ∈ c.addrs) (hv : v ∈ c.addrs)
    (hne : u ≠ v) (hlu : (s.nodes u).raftState = .leader) (hlv : (s.nodes v).raftState = .leader)
    (hterm : (s.nodes u).raftCurrentTerm = (s.nodes v).raftCurrentTerm) :
    ∃ w ∈ c.addrs, s.VotedFor w u (s.nodes u).raftCurrentTerm ∧
      s.VotedFor w v (s.nodes u).raftCurrentTerm := by
  obtain ⟨a, hm⟩ := h.moment
  have hwonv := hm.election.won v hv hlv
  rw [← hterm] at hwonv
  exact Won.shared hm hu hv hne (hm.election.won u hu hlu) hwonv

/-- Two nodes that know of each other start an election at the same time. -/
def rivals : List (Move (TestObjAutoTick 0 numberPickle) Bool) :=
  let env : Environment := ⟨[], [], []⟩
  [.event false (.link true true) env, .event true (.link false true) env,
    .event false (.tick ⟨true, false, false⟩) env, .event true (.tick ⟨true, false, false⟩) env,
    .deliver 0 env, .deliver 0 env, .deliver 0 env, .deliver 0 env]

theorem leaders_share_voter_rivals :
    let s := rivals.foldl pair.play pair.initial
    ∃ w ∈ pair.addrs, s.VotedFor w false 1 ∧ s.VotedFor w true 1 :=
  leaders_share_voter (u := false) (v := true) (Reachable.plays .refl rivals) (by decide)
    (by decide) (by decide) (by decide) (by decide) (by decide)

end Cluster

end Pysyncobj
