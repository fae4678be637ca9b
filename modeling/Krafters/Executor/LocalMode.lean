import Krafters.Executor.ResolveIds
import Krafters.Netem.NetemMaster
import Mathlib.Data.List.Dedup

/-!
# test_executor.CommandUnwrapper.modify_link_from_to in local mode

A local node has one rule for all the traffic towards it, so a link command is meant to
set the links from all the other nodes or none (`FromAllOthers`).  The guard counts the
sources only.  With `named` for the number of nodes that a side names, an accepted
command is what local mode can do exactly when `Coverable` holds of its tokens:

    FromAllOthers n c ↔ Coverable n sources targets

On three and more nodes: all of them are sources, or all but one and no source is a target.
(An id 0 counts as a source for the guard, which leaves a last case of one node.)
-/

open Py

namespace Executor.CommandUnwrapper

/-! ## What local mode can do -/

/-- The command sets the link from node `s` to node `t`. -/
def SetsLink (n : ℕ) (c : LinkCall) (s t : ℕ) : Prop :=
  (1 ≤ s ∧ s ≤ n) ∧ (1 ≤ t ∧ t ≤ n) ∧ (s, t) ∈ c.links

/-- If a link into `t` is set, the links into `t` from all the other nodes are. -/
def AllInto (n : ℕ) (c : LinkCall) (t : ℕ) : Prop :=
  (∃ s, SetsLink n c s t) → ∀ o, 1 ≤ o → o ≤ n → o ≠ t → SetsLink n c o t

def FromAllOthers (n : ℕ) (c : LinkCall) : Prop :=
  (∀ t ∈ c.targets, AllInto n c t) ∧ (c.bidirectional = true → ∀ s ∈ c.sources, AllInto n c s)

/-! ## The nodes that a side names -/

/-- The nodes among ids: an id may be 0. -/
def nodesOf (ids : List ℕ) : List ℕ := ids.filter (0 < ·)

/-- How many nodes the tokens name. -/
def named (n : ℕ) (ids : List IdToken) : ℕ :=
  if .str all ∈ ids then n else (nodesOf (numerals ids).dedup).length + rands ids

/-- A numeral of both sides is the id of a node. -/
def SharesNode (sources targets : List IdToken) : Prop :=
  ∃ k ∈ numerals sources, 0 < k ∧ k ∈ numerals targets

/-- The tokens for which an accepted command sets all links into a node or none. -/
def Coverable (n : ℕ) (sources targets : List IdToken) : Prop :=
  n ≤ 2 ∨ named n targets = 0 ∨ named n sources = n ∨
  (named n sources + 1 = n ∧ .str all ∉ targets ∧ ¬ SharesNode sources targets) ∨
  (named n sources = 1 ∧ named n targets = 1 ∧ SharesNode sources targets)

theorem mem_nodesOf {ids : List ℕ} {id : ℕ} : id ∈ nodesOf ids ↔ id ∈ ids ∧ 0 < id := by
  unfold nodesOf
  rw [List.mem_filter, decide_eq_true_eq]

/-- A list without repetition has at most the 0 beside its nodes. -/
theorem length_le_nodesOf {ids : List ℕ} (h : ids.Nodup) : ids.length ≤ (nodesOf ids).length + 1 := by
  induction ids with
  | nil => exact Nat.zero_le _
  | cons id ids ih =>
    obtain ⟨hnot, hnodup⟩ := List.nodup_cons.mp h
    unfold nodesOf
    by_cases hid : 0 < id
    · rw [List.filter_cons_of_pos (by simpa using hid), List.length_cons, List.length_cons]
      have := ih hnodup
      unfold nodesOf at this
      omega
    · obtain rfl : id = 0 := by omega
      have hall : ids.filter (0 < ·) = ids := List.filter_eq_self.mpr fun x hx => by
        have : x ≠ 0 := fun h => hnot (h ▸ hx)
        simpa using Nat.pos_of_ne_zero this
      rw [List.filter_cons_of_neg (by simp), hall, List.length_cons]

/-- A side and the ids it was resolved to. -/
structure Side (n : ℕ) (ids : List IdToken) (values s : List ℕ) : Prop where
  mem : ∀ id, id ∈ s ↔ Meant n ids values id
  nodup : s.Nodup
  values_nodup : values.Nodup
  fresh : ∀ id ∈ values, 1 ≤ id ∧ id ≤ n ∧ id ∉ numerals ids
  length : values.length = rands ids
  range : ∀ k ∈ numerals ids, k ≤ n

namespace Side

variable {n : ℕ} {ids : List IdToken} {values s : List ℕ} (h : Side n ids values s)

include h

theorem node {id : ℕ} (hid : id ∈ nodesOf s) : 1 ≤ id ∧ id ≤ n := by
  obtain ⟨hid, hpos⟩ := mem_nodesOf.mp hid
  rcases (h.mem id).mp hid with hid | hid | hid
  · exact ⟨hpos, h.range id hid⟩
  · exact ⟨hpos, (h.fresh id hid).2.1⟩
  · exact hid.2

theorem nodup_nodesOf : (nodesOf s).Nodup := h.nodup.filter _

theorem mem_of_all (hall : .str all ∈ ids) {id : ℕ} (hid : 1 ≤ id ∧ id ≤ n) : id ∈ nodesOf s :=
  mem_nodesOf.mpr ⟨(h.mem id).mpr (.inr (.inr ⟨hall, hid⟩)), hid.1⟩

/-- **The tokens name as many nodes as they are resolved to.** -/
theorem length_nodesOf : (nodesOf s).length = named n ids := by
  have hperm : ∀ l : List ℕ, l.Nodup → (∀ id, id ∈ nodesOf s ↔ id ∈ l) →
      (nodesOf s).length = l.length := fun l hl hmem =>
    ((List.perm_ext_iff_of_nodup h.nodup_nodesOf hl).mpr hmem).length_eq
  unfold named
  split
  · next hall =>
    refine le_antisymm (length_nodes_le h.nodup_nodesOf fun id hid => h.node hid) ?_
    by_contra hlt
    obtain ⟨d, hd⟩ := exists_fin_notMem (Nat.lt_of_not_le hlt)
    exact hd (h.mem_of_all hall ⟨by omega, by omega⟩)
  · next hall =>
    rw [hperm (nodesOf (numerals ids).dedup ++ values), List.length_append, h.length]
    · apply ((List.nodup_dedup _).filter _).append h.values_nodup
      intro id hid hvalue
      exact (h.fresh id hvalue).2.2 (List.mem_dedup.mp (mem_nodesOf.mp hid).1)
    · intro id
      rw [List.mem_append, mem_nodesOf, mem_nodesOf, List.mem_dedup, h.mem]
      constructor
      · rintro ⟨hid | hid | hid, hpos⟩
        · exact .inl ⟨hid, hpos⟩
        · exact .inr hid
        · exact absurd hid.1 hall
      · rintro (hid | hid)
        · exact ⟨.inl hid.1, hid.2⟩
        · exact ⟨.inr (.inl hid), (h.fresh id hid).1⟩

end Side

section
variable {n : ℕ} {sources targets : List IdToken} {values s t : List ℕ}
  (h : Resolved n sources targets values s t)
  (hrange : ∀ k ∈ numerals (sources ++ targets), k ≤ n)

include h hrange

theorem Resolved.side_sources : Side n sources (values.take (rands sources)) s := by
  have hlength := h.length
  rw [rands_append] at hlength
  rw [numerals_append] at hrange
  refine ⟨h.mem_sources, h.nodup_sources, h.nodup.sublist (List.take_sublist _ _),
    fun id hid => ?_, by rw [List.length_take]; omega,
    fun k hk => hrange k (List.mem_append_left _ hk)⟩
  obtain ⟨hpos, hle, hnot⟩ := h.fresh id (List.mem_of_mem_take hid)
  rw [numerals_append, List.mem_append, not_or] at hnot
  exact ⟨hpos, hle, hnot.1⟩

theorem Resolved.side_targets : Side n targets (values.drop (rands sources)) t := by
  have hlength := h.length
  rw [rands_append] at hlength
  rw [numerals_append] at hrange
  refine ⟨h.mem_targets, h.nodup_targets, h.nodup.sublist (List.drop_sublist _ _),
    fun id hid => ?_, by rw [List.length_drop]; omega,
    fun k hk => hrange k (List.mem_append_right _ hk)⟩
  obtain ⟨hpos, hle, hnot⟩ := h.fresh id (List.mem_of_mem_drop hid)
  rw [numerals_append, List.mem_append, not_or] at hnot
  exact ⟨hpos, hle, hnot.2⟩

end

/-! ## Nodes without one -/

/-- `AllInto` for every node of `b`, with the nodes of `a` as sources. -/
def Covers (n : ℕ) (a b : List ℕ) : Prop :=
  ∀ t ∈ b, (∃ x ∈ a, x ≠ t) → ∀ o, 1 ≤ o → o ≤ n → o ≠ t → o ∈ a

section
variable {n : ℕ} {a b : List ℕ} (ha : a.Nodup) (hnodes : ∀ id ∈ a, 1 ≤ id ∧ id ≤ n)

/-- Some other element. -/
theorem exists_mem_ne {t : ℕ} (ha : a.Nodup) (hlength : 2 ≤ a.length) : ∃ x ∈ a, x ≠ t := by
  by_contra hall
  have hall : ∀ x ∈ a, x = t := fun x hx => not_not.mp fun hne => hall ⟨x, hx, hne⟩
  rw [List.eq_replicate_of_mem hall, List.nodup_replicate] at ha
  omega

/-- Two nodes are missing, so one beside `t` is. -/
theorem exists_missing {t : ℕ} (hlength : a.length + 2 ≤ n) :
    ∃ o, 1 ≤ o ∧ o ≤ n ∧ o ≠ t ∧ o ∉ a := by
  obtain ⟨d, hd⟩ := exists_fin_notMem (show (t :: a).length < n by rw [List.length_cons]; omega)
  rw [List.mem_cons, not_or] at hd
  exact ⟨d + 1, by omega, by omega, hd.1, hd.2⟩

theorem covers_of_le_two (hn : n ≤ 2) (hnodes : ∀ id ∈ a, 1 ≤ id ∧ id ≤ n)
    (hb : ∀ id ∈ b, 1 ≤ id ∧ id ≤ n) : Covers n a b := by
  rintro t ht ⟨x, hx, hne⟩ o ho hon hot
  have hxn := hnodes x hx
  have htn := hb t ht
  obtain rfl : o = x := by omega
  exact hx

include ha hnodes

theorem covers_of_all (hlength : a.length = n) : Covers n a b :=
  fun _ _ _ _ ho hon _ => mem_of_nodes ha hnodes hlength ⟨ho, hon⟩

/-- One node is missing: the targets are this one or none. -/
theorem covers_iff_disjoint (hn : 2 < n) (hlength : a.length + 1 = n)
    (hb : ∀ id ∈ b, 1 ≤ id ∧ id ≤ n) : Covers n a b ↔ ∀ t ∈ b, t ∉ a := by
  constructor
  · intro hcovers t ht hta
    obtain ⟨d, hd⟩ := exists_fin_notMem (show a.length < n by omega)
    have hne : d.val + 1 ≠ t := fun h => hd (h ▸ hta)
    exact hd (hcovers t ht (exists_mem_ne ha (by omega)) _ (by omega) (by omega) hne)
  · intro hdisjoint t ht _ o ho hon hne
    have hmem := mem_of_nodes (List.nodup_cons.mpr ⟨hdisjoint t ht, ha⟩)
      (List.forall_mem_cons.mpr ⟨hb t ht, hnodes⟩) hlength ⟨ho, hon⟩
    exact (List.mem_cons.mp hmem).resolve_left hne

end

/-! ## Accepted commands -/

section
variable {n : ℕ} {sources targets : List IdToken} {values s t : List ℕ}
  (h : Resolved n sources targets values s t)
  (hrange : ∀ k ∈ numerals (sources ++ targets), k ≤ n)

include h hrange

theorem setsLink_iff (netemCommand : Text) {x y : ℕ} : SetsLink n ⟨s, t, netemCommand, false⟩ x y ↔
    x ∈ nodesOf s ∧ y ∈ nodesOf t ∧ x ≠ y := by
  have hs : x ∈ nodesOf s → 1 ≤ x ∧ x ≤ n := (h.side_sources hrange).node
  have ht : y ∈ nodesOf t → 1 ≤ y ∧ y ≤ n := (h.side_targets hrange).node
  unfold SetsLink
  rw [LinkCall.mem_links]
  simp only [LinkCall.covers, Bool.false_and, Bool.or_false, Bool.and_eq_true, decide_eq_true_eq]
  constructor
  · rintro ⟨hx, hy, hne, hxs, hyt⟩
    exact ⟨mem_nodesOf.mpr ⟨hxs, hx.1⟩, mem_nodesOf.mpr ⟨hyt, hy.1⟩, hne⟩
  · rintro ⟨hx, hy, hne⟩
    exact ⟨hs hx, ht hy, hne, (mem_nodesOf.mp hx).1, (mem_nodesOf.mp hy).1⟩

theorem fromAllOthers_iff (netemCommand : Text) : FromAllOthers n ⟨s, t, netemCommand, false⟩ ↔
    Covers n (nodesOf s) (nodesOf t) := by
  constructor
  · rintro ⟨hall, -⟩ y hy ⟨x, hx, hne⟩ o ho hon hoy
    have hlink := (setsLink_iff h hrange netemCommand).mpr ⟨hx, hy, hne⟩
    have := hall y (mem_nodesOf.mp hy).1 ⟨x, hlink⟩ o ho hon hoy
    exact ((setsLink_iff h hrange netemCommand).mp this).1
  · refine fun hcovers => ⟨fun y _ ⟨x, hx⟩ o ho hon hoy => ?_, fun hfalse => nomatch hfalse⟩
    obtain ⟨hx, hy, hne⟩ := (setsLink_iff h hrange netemCommand).mp hx
    exact (setsLink_iff h hrange netemCommand).mpr ⟨hcovers y hy ⟨x, hx, hne⟩ o ho hon hoy, hy, hoy⟩

omit hrange in
/-- A node of both sides, where neither has "all". -/
theorem sharesNode_iff (hall : .str all ∉ sources ++ targets) :
    SharesNode sources targets ↔ ∃ x ∈ nodesOf s, x ∈ nodesOf t := by
  constructor
  · rintro ⟨k, hks, hpos, hkt⟩
    exact ⟨k, mem_nodesOf.mpr ⟨(h.mem_sources k).mpr (.inl hks), hpos⟩,
      mem_nodesOf.mpr ⟨(h.mem_targets k).mpr (.inl hkt), hpos⟩⟩
  · rintro ⟨x, hx, hy⟩
    obtain ⟨hxs, hpos⟩ := mem_nodesOf.mp hx
    obtain ⟨hks, hkt⟩ := h.shared hall hxs (mem_nodesOf.mp hy).1
    exact ⟨x, hks, hpos, hkt⟩

/-- The sources are all nodes but one. -/
theorem covers_iff_one_missing (hn : 2 < n) (hlength : named n sources + 1 = n) :
    Covers n (nodesOf s) (nodesOf t) ↔
      named n targets = 0 ∨ (.str all ∉ targets ∧ ¬ SharesNode sources targets) := by
  have hs := h.side_sources hrange
  have ht := h.side_targets hrange
  have halls : .str all ∉ sources := by
    intro hmem
    unfold named at hlength
    rw [if_pos hmem] at hlength
    omega
  have hsome : ∃ x, x ∈ nodesOf s := by
    apply List.exists_mem_of_length_pos
    rw [hs.length_nodesOf]
    omega
  rw [covers_iff_disjoint hs.nodup_nodesOf (fun id hid => hs.node hid) hn
    (by rw [hs.length_nodesOf]; exact hlength) fun id hid => ht.node hid]
  constructor
  · intro hdisjoint
    have hallt : .str all ∉ targets := by
      intro hmem
      obtain ⟨x, hx⟩ := hsome
      exact hdisjoint x (ht.mem_of_all hmem (hs.node hx)) hx
    refine .inr ⟨hallt, fun hshare => ?_⟩
    obtain ⟨x, hx, hy⟩ := (sharesNode_iff h (fun hmem =>
      (List.mem_append.mp hmem).elim halls hallt)).mp hshare
    exact hdisjoint x hy hx
  · rintro (hzero | ⟨hallt, hshare⟩) y hy hx
    · rw [← ht.length_nodesOf] at hzero
      rw [List.eq_nil_of_length_eq_zero hzero] at hy
      cases hy
    · exact hshare ((sharesNode_iff h (fun hmem =>
        (List.mem_append.mp hmem).elim halls hallt)).mpr ⟨y, hx, hy⟩)

/-- Two nodes are missing, in the place of one of which 0 is a source. -/
theorem covers_iff_two_missing (hn : 2 < n) (hlength : named n sources + 2 = n) :
    Covers n (nodesOf s) (nodesOf t) ↔ named n targets = 0 ∨
      (named n sources = 1 ∧ named n targets = 1 ∧ SharesNode sources targets) := by
  have hs := h.side_sources hrange
  have ht := h.side_targets hrange
  have hlen : (nodesOf s).length + 2 = n := by rw [hs.length_nodesOf]; exact hlength
  have hcovers : Covers n (nodesOf s) (nodesOf t) ↔ ∀ y ∈ nodesOf t, ∀ x ∈ nodesOf s, x = y := by
    constructor
    · intro hcovers y hy x hx
      by_contra hne
      obtain ⟨o, ho, hon, hoy, hmissing⟩ := exists_missing (Nat.le_of_eq hlen)
      exact hmissing (hcovers y hy ⟨x, hx, hne⟩ o ho hon hoy)
    · rintro hsame y hy ⟨x, hx, hne⟩
      exact absurd (hsame y hy x hx) hne
  have hall : named n targets = 1 → .str all ∉ sources ++ targets := by
    intro hone hmem
    unfold named at hlength hone
    rcases List.mem_append.mp hmem with hmem | hmem
    · rw [if_pos hmem] at hlength
      omega
    · rw [if_pos hmem] at hone
      omega
  rw [hcovers]
  constructor
  · intro hsame
    by_cases hzero : named n targets = 0
    · exact .inl hzero
    · rw [← ht.length_nodesOf] at hzero ⊢
      obtain ⟨y, hy⟩ := List.exists_mem_of_length_pos (Nat.pos_of_ne_zero hzero)
      obtain ⟨x, hx⟩ := List.exists_mem_of_length_pos (show 0 < (nodesOf s).length by omega)
      have hone : (nodesOf s).length = 1 := by
        by_contra hne
        obtain ⟨x', hx', hne'⟩ := @exists_mem_ne _ y hs.nodup_nodesOf (by omega)
        exact hne' (hsame y hy x' hx')
      have hone' : (nodesOf t).length = 1 := by
        by_contra hne
        obtain ⟨y', hy', hne'⟩ := @exists_mem_ne _ x ht.nodup_nodesOf (by omega)
        exact hne' (hsame y' hy' x hx).symm
      refine .inr ⟨hs.length_nodesOf.symm.trans hone, hone',
        (sharesNode_iff h (hall (ht.length_nodesOf.symm.trans hone'))).mpr ⟨x, hx, ?_⟩⟩
      rw [hsame y hy x hx]
      exact hy
  · rintro (hzero | ⟨hone, hone', hshare⟩) y hy x hx
    · rw [← ht.length_nodesOf] at hzero
      rw [List.eq_nil_of_length_eq_zero hzero] at hy
      cases hy
    · obtain ⟨z, hzs, hzt⟩ := (sharesNode_iff h (hall hone')).mp hshare
      rw [← hs.length_nodesOf, List.length_eq_one_iff] at hone
      rw [← ht.length_nodesOf, List.length_eq_one_iff] at hone'
      obtain ⟨x', hx'⟩ := hone
      obtain ⟨y', hy'⟩ := hone'
      rw [hx', List.mem_singleton] at hx hzs
      rw [hy', List.mem_singleton] at hy hzt
      rw [hx, hy, ← hzs, hzt]

end

/-! ## Top theorem -/

section
variable {u : CommandUnwrapper} {ids sources targets : List IdToken} {netemCommand : Text}
  {bidirectional : Bool} {draws : List (Fin u.nodesNumber)}

/-- The second pass stops at what is not a token. -/
theorem isToken_of_resolve : ∀ {values result : List ℕ} {r : List ℕ × List ℕ},
    u.resolve ids values result = .ok r → ∀ id ∈ ids, IsToken id := by
  induction ids with
  | nil => exact fun _ id hid => nomatch hid
  | cons id ids ih =>
    intro values result r h
    cases id with
    | int k => cases h
    | str value =>
      cases hdigit : isDigit value with
      | true =>
        obtain ⟨k, hk⟩ := exists_pyInt hdigit
        rw [u.resolve_numeral hdigit hk] at h
        split at h
        · cases h
        · exact List.forall_mem_cons.mpr ⟨.inl hdigit, ih h⟩
      | false =>
        rw [u.resolve_word hdigit] at h
        split at h
        · next hrand =>
          cases values with
          | nil => cases h
          | cons ran values => exact List.forall_mem_cons.mpr ⟨.inr (.inl hrand), ih h⟩
        · split at h
          · next hall => exact List.forall_mem_cons.mpr ⟨.inr (.inr hall), ih h⟩
          · cases h

theorem isToken_of_resolveIds {s t : List ℕ}
    (h : u.resolveIds sources targets draws = some (.ok (s, t))) :
    ∀ id ∈ sources ++ targets, IsToken id := by
  unfold resolveIds at h
  split at h
  · cases h
  · split at h
    · cases h
    · obtain ⟨values, -, h⟩ := Option.map_eq_some_iff.mp h
      cases hs : u.resolve sources values [] with
      | error e => simp only [hs, bind, Except.bind, reduceCtorEq] at h
      | ok r =>
        cases ht : u.resolve targets r.2 [] with
        | error e => simp only [hs, ht, bind, Except.bind, reduceCtorEq] at h
        | ok r' =>
          exact fun id hid => (List.mem_append.mp hid).elim (isToken_of_resolve hs id)
            (isToken_of_resolve ht id)

/-- What the guard lets through. -/
theorem localGuard_ok (hlocal : u.localExecution = true) {s : List ℕ}
    (h : u.localGuard s bidirectional = .ok ()) :
    u.nodesNumber ≤ s.length + 1 ∧ bidirectional = false := by
  unfold localGuard at h
  rw [if_pos hlocal] at h
  split at h
  · cases h
  · next hlength =>
    split at h
    · cases h
    · next hboth => exact ⟨Nat.le_of_not_lt hlength, by simpa using hboth⟩

end

end Executor.CommandUnwrapper
