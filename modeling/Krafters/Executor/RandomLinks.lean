import Krafters.Executor.ResolveIds
import Krafters.Netem.NetemMaster
import Mathlib.Data.Finset.Prod
import Mathlib.Order.Interval.Finset.Nat

/-!
# test_executor.CommandUnwrapper.modify_random_link: the selection of random connections

`Choice` are the variables of the two nested loops and `Choice.turn` one draw;
`selectLinks` is the loop over the draws (`selectLinks_cases`).  The connections selected so
far (`Choice.connections`) are all different (`Selected`), so that there are at most
`capacity n bidirectional` of them, and a draw can add one as long as there are fewer:

    SelectsLinks u k … ↔ k ≤ capacity u.nodesNumber bidirectional

The two sets of ids are then resolved as if they were texts, so that no command is ever
built for one connection or more:

    AffectsExactly u k … draws ↔ k = 0
-/

open Py

namespace Executor.CommandUnwrapper

/-! ## Algorithm -/

/-- `source`, while a target is drawn, and the other variables of the selection. -/
structure Choice where
  source : Option Nat := none
  selection : Selection := {}
deriving DecidableEq, Repr

namespace Choice

variable {n : Nat} (connectionNumber : Nat) (bidirectional : Bool)

/-- One draw; without a source the outer loop has to go on. -/
def turn (c : Choice) (d : Fin n) : Choice :=
  match c.source with
  | none =>
    if c.selection.nSelected < connectionNumber then { c with source := some (d.val + 1) } else c
  | some source =>
    if d.val + 1 = source then c else ⟨none, c.selection.add bidirectional source (d.val + 1)⟩

def run (c : Choice) (draws : List (Fin n)) : Choice :=
  draws.foldl (turn connectionNumber bidirectional) c

/-- The connection that a draw adds to the selected ones. -/
def added (c : Choice) (d : Fin n) : Option (Nat × Nat) :=
  match c.source with
  | none => none
  | some source =>
    if d.val + 1 = source ∨ linkText source (d.val + 1) ∈ c.selection.selected then none
    else some (source, d.val + 1)

/-- The connections that draws add, in order. -/
def connections (c : Choice) : List (Fin n) → List (Nat × Nat)
  | [] => []
  | d :: draws =>
    (c.added d).toList ++ connections (c.turn connectionNumber bidirectional d) draws

/-- The loops have ended. -/
def Done (c : Choice) : Prop := c.source = none ∧ connectionNumber ≤ c.selection.nSelected

theorem run_of_done {connectionNumber : Nat} {bidirectional : Bool} {c : Choice}
    (h : c.Done connectionNumber) (draws : List (Fin n)) :
    c.run connectionNumber bidirectional draws = c := by
  induction draws with
  | nil => rfl
  | cons d draws ih =>
    have hturn : c.turn connectionNumber bidirectional d = c := by
      unfold turn
      rw [h.1]
      exact if_neg (Nat.not_lt.mpr h.2)
    show (c.turn connectionNumber bidirectional d).run connectionNumber bidirectional draws = c
    rw [hturn, ih]

end Choice

section
variable {n connectionNumber : Nat} {bidirectional : Bool}

/-- `selectLinks` runs until the loops have ended. -/
theorem selectLinks_cases (draws : List (Fin n)) (c : Choice) :
    ((c.run connectionNumber bidirectional draws).Done connectionNumber ∧ ∃ rest,
      selectLinks connectionNumber bidirectional draws c.source c.selection =
        some ((c.run connectionNumber bidirectional draws).selection, rest)) ∨
    (¬ (c.run connectionNumber bidirectional draws).Done connectionNumber ∧
      selectLinks connectionNumber bidirectional draws c.source c.selection = none) := by
  induction draws generalizing c with
  | nil =>
    obtain ⟨_ | source, s⟩ := c
    · by_cases hlt : s.nSelected < connectionNumber
      · exact .inr ⟨fun h => absurd h.2 (Nat.not_le.mpr hlt), if_pos hlt⟩
      · exact .inl ⟨⟨rfl, Nat.le_of_not_lt hlt⟩, [], if_neg hlt⟩
    · refine .inr ⟨fun h => ?_, rfl⟩
      cases h.1
  | cons d draws ih =>
    obtain ⟨_ | source, s⟩ := c
    · by_cases hlt : s.nSelected < connectionNumber
      · have hturn : Choice.turn connectionNumber bidirectional ⟨none, s⟩ d =
            ⟨some (d.val + 1), s⟩ := if_pos hlt
        have hselect : selectLinks connectionNumber bidirectional (d :: draws) none s =
            selectLinks connectionNumber bidirectional draws (some (d.val + 1)) s := if_pos hlt
        rw [hselect]
        simpa only [Choice.run, List.foldl_cons, hturn] using ih ⟨some (d.val + 1), s⟩
      · have hdone : Choice.Done connectionNumber ⟨none, s⟩ := ⟨rfl, Nat.le_of_not_lt hlt⟩
        rw [Choice.run_of_done hdone]
        exact .inl ⟨hdone, d :: draws, if_neg hlt⟩
    · by_cases heq : d.val + 1 = source
      · have hturn : Choice.turn connectionNumber bidirectional ⟨some source, s⟩ d =
            ⟨some source, s⟩ := if_pos heq
        have hselect : selectLinks connectionNumber bidirectional (d :: draws) (some source) s =
            selectLinks connectionNumber bidirectional draws (some source) s := if_pos heq
        rw [hselect]
        simpa only [Choice.run, List.foldl_cons, hturn] using ih ⟨some source, s⟩
      · have hturn : Choice.turn connectionNumber bidirectional ⟨some source, s⟩ d =
            ⟨none, s.add bidirectional source (d.val + 1)⟩ := if_neg heq
        have hselect : selectLinks connectionNumber bidirectional (d :: draws) (some source) s =
            selectLinks connectionNumber bidirectional draws none
              (s.add bidirectional source (d.val + 1)) := if_neg heq
        rw [hselect]
        simpa only [Choice.run, List.foldl_cons, hturn] using
          ih ⟨none, s.add bidirectional source (d.val + 1)⟩

end

/-! ## Connections -/

/-- The links of connections: both directions of each when bidirectional. -/
def directed (bidirectional : Bool) (pairs : List (Nat × Nat)) : List (Nat × Nat) :=
  pairs ++ if bidirectional then pairs.map Prod.swap else []

/-- How many connections there are between `n` nodes. -/
def capacity (n : Nat) (bidirectional : Bool) : Nat := n * (n - 1) / if bidirectional then 2 else 1

section
variable {n : Nat} {bidirectional : Bool} {pairs : List (Nat × Nat)}

theorem mem_directed {s t : Nat} : (s, t) ∈ directed bidirectional pairs ↔
    (s, t) ∈ pairs ∨ bidirectional = true ∧ (t, s) ∈ pairs := by
  unfold directed
  cases bidirectional with
  | false => simp
  | true => simp

theorem length_directed : (directed bidirectional pairs).length =
    pairs.length * if bidirectional then 2 else 1 := by
  unfold directed
  cases bidirectional with
  | false => simp
  | true =>
    rw [if_pos rfl, if_pos rfl, List.length_append, List.length_map]
    omega

/-- One more connection, that was not there in any direction. -/
theorem nodup_directed_append {s t : Nat} (h : (directed bidirectional pairs).Nodup) (hst : s ≠ t)
    (hnew : (s, t) ∉ directed bidirectional pairs) :
    (directed bidirectional (pairs ++ [(s, t)])).Nodup := by
  cases bidirectional with
  | false =>
    have hpairs : ∀ l, directed false l = l := fun l => List.append_nil l
    rw [hpairs] at h hnew ⊢
    exact nodup_append_singleton h hnew
  | true =>
    have hback : (t, s) ∉ directed true pairs := fun hmem =>
      hnew (mem_directed.mpr ((mem_directed.mp hmem).elim (fun h => .inr ⟨rfl, h⟩) fun h => .inl h.2))
    have hperm : (directed true (pairs ++ [(s, t)])).Perm
        ((s, t) :: (t, s) :: directed true pairs) := by
      show (pairs ++ [(s, t)] ++ (pairs ++ [(s, t)]).map Prod.swap).Perm _
      rw [List.map_append, List.append_assoc]
      refine List.perm_middle.trans (.cons _ ?_)
      show (pairs ++ (pairs.map Prod.swap ++ [(t, s)])).Perm _
      rw [← List.append_assoc]
      exact List.perm_append_singleton _ _
    refine hperm.nodup_iff.mpr (List.nodup_cons.mpr ⟨?_, List.nodup_cons.mpr ⟨hback, h⟩⟩)
    rw [List.mem_cons, not_or]
    exact ⟨fun heq => hst (congrArg Prod.fst heq), hnew⟩

/-- The pairs of different nodes. -/
def nodePairs (n : Nat) : Finset (Nat × Nat) := (Finset.Icc 1 n).offDiag

theorem mem_nodePairs {s t : Nat} : (s, t) ∈ nodePairs n ↔ (1 ≤ s ∧ s ≤ n) ∧ (1 ≤ t ∧ t ≤ n) ∧ s ≠ t := by
  unfold nodePairs
  rw [Finset.mem_offDiag, Finset.mem_Icc, Finset.mem_Icc]

theorem card_nodePairs (n : Nat) : (nodePairs n).card = n * (n - 1) := by
  unfold nodePairs
  rw [Finset.offDiag_card, Nat.card_Icc, Nat.add_sub_cancel, Nat.mul_sub_one]

/-- Different connections between different nodes are at most the capacity. -/
theorem length_le_capacity (hnodes : ∀ p ∈ pairs, p ∈ nodePairs n)
    (hnodup : (directed bidirectional pairs).Nodup) : pairs.length ≤ capacity n bidirectional := by
  have hsub : (directed bidirectional pairs).toFinset ⊆ nodePairs n := by
    rintro ⟨s, t⟩ hmem
    rcases mem_directed.mp (List.mem_toFinset.mp hmem) with hmem | ⟨-, hmem⟩
    · exact hnodes _ hmem
    · obtain ⟨ht, hs, hne⟩ := mem_nodePairs.mp (hnodes _ hmem)
      exact mem_nodePairs.mpr ⟨hs, ht, Ne.symm hne⟩
  have hle := Finset.card_le_card hsub
  rw [List.toFinset_card_of_nodup hnodup, card_nodePairs, length_directed] at hle
  exact (Nat.le_div_iff_mul_le (by cases bidirectional <;> decide)).mpr hle

/-- Below the capacity some connection is missing. -/
theorem exists_missing_connection (hroom : pairs.length < capacity n bidirectional) :
    ∃ s t, (s, t) ∈ nodePairs n ∧ (s, t) ∉ directed bidirectional pairs := by
  by_contra hall
  have hsub : nodePairs n ⊆ (directed bidirectional pairs).toFinset := by
    rintro ⟨s, t⟩ hmem
    by_contra hnot
    exact hall ⟨s, t, hmem, fun h => hnot (List.mem_toFinset.mpr h)⟩
  have hle := (Finset.card_le_card hsub).trans (List.toFinset_card_le _)
  rw [card_nodePairs, length_directed] at hle
  rw [Nat.mul_comm pairs.length] at hle
  exact absurd hroom (Nat.not_lt.mpr (Nat.div_le_of_le_mul hle))

end

/-! ## The selection -/

theorem linkText_injective {s t s' t' : Nat} (h : linkText s t = linkText s' t') :
    s = s' ∧ t = t' := by
  have hdash : ∀ id, '-' ∉ natText id := fun id hmem =>
    absurd (isAsciiDigit_of_mem_natText hmem) (by decide)
  have hcut : ∀ s t, (linkText s t).takeWhile (· ≠ '-') = natText s := by
    intro s t
    unfold linkText
    have hletters : ∀ c ∈ natText s, decide (c ≠ '-') = true := fun c hc =>
      decide_eq_true fun h => hdash s (h ▸ hc)
    rw [List.takeWhile_append_of_pos hletters]
    simp
  have hs : natText s = natText s' := by rw [← hcut s t, h, hcut]
  unfold linkText at h
  rw [hs, List.append_cancel_left_eq, List.cons.injEq] at h
  exact ⟨natText_injective hs, natText_injective h.2⟩

/-- The invariant of the loops: `pairs` are the connections selected so far. -/
structure Selected (n : Nat) (bidirectional : Bool) (pairs : List (Nat × Nat)) (c : Choice) :
    Prop where
  source : ∀ s ∈ c.source, 1 ≤ s ∧ s ≤ n
  nodes : ∀ p ∈ pairs, p ∈ nodePairs n
  nSelected : c.selection.nSelected = pairs.length
  selected : ∀ s t, linkText s t ∈ c.selection.selected ↔ (s, t) ∈ directed bidirectional pairs
  nodup : (directed bidirectional pairs).Nodup
  sources : ∀ p ∈ pairs, p.1 ∈ c.selection.sources

section
variable {n connectionNumber : Nat} {bidirectional : Bool} {pairs : List (Nat × Nat)} {c : Choice}

theorem selected_start (n : Nat) (bidirectional : Bool) : Selected n bidirectional [] {} := by
  refine ⟨fun s hs => (nomatch hs), fun p hp => (nomatch hp), rfl, fun s t => ?_, ?_,
    fun p hp => (nomatch hp)⟩
  · apply iff_of_false (fun h => nomatch h)
    intro h
    cases (mem_directed.mp h) with
    | inl h => cases h
    | inr h => cases h.2
  · cases bidirectional <;> exact List.nodup_nil

theorem mem_selected_add {s : Selection} {source target x y : Nat}
    (hnew : linkText source target ∉ s.selected) :
    linkText x y ∈ (s.add bidirectional source target).selected ↔
      (x = source ∧ y = target) ∨ (bidirectional = true ∧ x = target ∧ y = source) ∨
        linkText x y ∈ s.selected := by
  have htext : ∀ a b, linkText x y = linkText a b ↔ x = a ∧ y = b := fun a b =>
    ⟨linkText_injective, fun h => by rw [h.1, h.2]⟩
  unfold Selection.add
  rw [if_neg hnew]
  dsimp only
  rw [mem_setAdd, htext]
  cases bidirectional with
  | true => rw [if_pos rfl, mem_setAdd, htext, eq_self, true_and]
  | false =>
    rw [if_neg Bool.false_ne_true]
    exact or_congr_right (or_iff_right fun h => nomatch h.1).symm

/-- A connection is added. -/
theorem Selected.add {source target : Nat} (h : Selected n bidirectional pairs c)
    (hpair : (source, target) ∈ nodePairs n)
    (hnew : linkText source target ∉ c.selection.selected) :
    Selected n bidirectional (pairs ++ [(source, target)])
      ⟨none, c.selection.add bidirectional source target⟩ := by
  have hmissing : (source, target) ∉ directed bidirectional pairs := fun hmem =>
    hnew ((h.selected _ _).mpr hmem)
  have hadd : c.selection.add bidirectional source target = { c.selection with
      selected := (c.selection.add bidirectional source target).selected
      nSelected := c.selection.nSelected + 1
      sources := setAdd c.selection.sources source
      targets := setAdd c.selection.targets target } := by
    unfold Selection.add
    rw [if_neg hnew]
  refine ⟨fun s hs => (nomatch hs), fun p hp => ?_, ?_, fun x y => ?_,
    nodup_directed_append h.nodup (mem_nodePairs.mp hpair).2.2 hmissing, fun p hp => ?_⟩
  · rcases List.mem_append.mp hp with hp | hp
    · exact h.nodes p hp
    · obtain rfl := List.mem_singleton.mp hp
      exact hpair
  · rw [hadd, List.length_append, List.length_singleton, ← h.nSelected]
  · rw [mem_selected_add hnew, h.selected, mem_directed, mem_directed, List.mem_append,
      List.mem_append, List.mem_singleton, List.mem_singleton, Prod.mk.injEq, Prod.mk.injEq]
    tauto
  · rw [hadd]
    dsimp only
    rw [mem_setAdd]
    rcases List.mem_append.mp hp with hp | hp
    · exact .inr (h.sources p hp)
    · obtain rfl := List.mem_singleton.mp hp
      exact .inl rfl

/-- One draw adds the connection `added` names, if it names one. -/
theorem Selected.turn (h : Selected n bidirectional pairs c) (d : Fin n) :
    Selected n bidirectional (pairs ++ (c.added d).toList)
      (c.turn connectionNumber bidirectional d) := by
  obtain ⟨_ | source, s⟩ := c
  · have hadded : Choice.added ⟨none, s⟩ d = none := rfl
    rw [hadded, Option.toList_none, List.append_nil]
    unfold Choice.turn
    dsimp only
    split
    · refine ⟨fun x hx => ?_, h.nodes, h.nSelected, h.selected, h.nodup, h.sources⟩
      obtain rfl := Option.some.inj hx
      omega
    · exact h
  · have hsource := h.source source rfl
    unfold Choice.turn Choice.added
    dsimp only
    by_cases heq : d.val + 1 = source
    · rw [if_pos heq, if_pos (.inl heq), Option.toList_none, List.append_nil]
      exact h
    · rw [if_neg heq]
      by_cases hmem : linkText source (d.val + 1) ∈ s.selected
      · have hadd : s.add bidirectional source (d.val + 1) = s := if_pos hmem
        rw [if_pos (.inr hmem), Option.toList_none, List.append_nil, hadd]
        exact ⟨fun x hx => (nomatch hx), h.nodes, h.nSelected, h.selected, h.nodup, h.sources⟩
      · rw [if_neg (not_or.mpr ⟨heq, hmem⟩), Option.toList_some]
        exact h.add (mem_nodePairs.mpr ⟨hsource, by omega, Ne.symm heq⟩) hmem

theorem Selected.run (h : Selected n bidirectional pairs c) (draws : List (Fin n)) :
    Selected n bidirectional
      (pairs ++ c.connections connectionNumber bidirectional draws)
      (c.run connectionNumber bidirectional draws) := by
  induction draws generalizing pairs c with
  | nil =>
    show Selected n bidirectional (pairs ++ []) c
    rwa [List.append_nil]
  | cons d draws ih =>
    have := ih (@Selected.turn n connectionNumber bidirectional pairs c h d)
    rwa [List.append_assoc] at this

/-- A run from the start. -/
theorem selected_run (draws : List (Fin n)) : Selected n bidirectional
    (Choice.connections connectionNumber bidirectional {} draws)
    (Choice.run connectionNumber bidirectional {} draws) := (selected_start n bidirectional).run draws

/-- Two draws add a connection that is missing. -/
theorem exists_draws_of_none (h : Selected n bidirectional pairs c) (hsource : c.source = none)
    (hcount : c.selection.nSelected < connectionNumber)
    (hroom : pairs.length < capacity n bidirectional) : ∃ draws : List (Fin n),
      (c.run connectionNumber bidirectional draws).selection.nSelected =
        c.selection.nSelected + 1 := by
  obtain ⟨s, t, hpair, hnew⟩ := exists_missing_connection hroom
  obtain ⟨hs, ht, hst⟩ := mem_nodePairs.mp hpair
  obtain ⟨_, selection⟩ := c
  cases hsource
  refine ⟨[⟨s - 1, by omega⟩, ⟨t - 1, by omega⟩], ?_⟩
  have hfirst : Choice.turn connectionNumber bidirectional ⟨none, selection⟩
      (⟨s - 1, by omega⟩ : Fin n) = ⟨some (s - 1 + 1), selection⟩ := if_pos hcount
  have hsecond : Choice.turn connectionNumber bidirectional ⟨some (s - 1 + 1), selection⟩
      (⟨t - 1, by omega⟩ : Fin n) = ⟨none, selection.add bidirectional (s - 1 + 1) (t - 1 + 1)⟩ :=
    if_neg (by show t - 1 + 1 ≠ s - 1 + 1; omega)
  have hmissing : linkText (s - 1 + 1) (t - 1 + 1) ∉ selection.selected := by
    rw [Nat.sub_add_cancel hs.1, Nat.sub_add_cancel ht.1]
    exact fun hmem => hnew ((h.selected s t).mp hmem)
  simp only [Choice.run, List.foldl_cons, List.foldl_nil, hfirst, hsecond]
  unfold Selection.add
  rw [if_neg hmissing]

/-- **As long as there is room, some draws add a connection.** -/
theorem exists_draws_grow (h : Selected n bidirectional pairs c)
    (hcount : c.selection.nSelected < connectionNumber)
    (hroom : pairs.length < capacity n bidirectional) : ∃ draws : List (Fin n),
      c.selection.nSelected < (c.run connectionNumber bidirectional draws).selection.nSelected := by
  cases hsource : c.source with
  | none =>
    obtain ⟨draws, hdraws⟩ := exists_draws_of_none h hsource hcount hroom
    exact ⟨draws, by omega⟩
  | some source =>
    -- the inner loop is ended first, by a target that may have been selected before
    have hn : 2 ≤ n := by
      by_contra hn
      have hzero : n * (n - 1) = 0 := by
        obtain rfl | rfl : n = 0 ∨ n = 1 := by omega
        · rfl
        · rfl
      unfold capacity at hroom
      rw [hzero, Nat.zero_div] at hroom
      exact absurd hroom (Nat.not_lt_zero _)
    obtain ⟨d, hd⟩ := exists_fin_notMem (show [source].length < n from hn)
    have hne : d.val + 1 ≠ source := fun heq => hd (List.mem_singleton.mpr heq)
    have hturn := @Selected.turn n connectionNumber bidirectional pairs c h d
    have hnone : (c.turn connectionNumber bidirectional d).source = none := by
      unfold Choice.turn
      rw [hsource]
      dsimp only
      rw [if_neg hne]
    have hgrown := hturn.nSelected
    rw [List.length_append, ← h.nSelected] at hgrown
    cases hadded : c.added d with
    | some p =>
      refine ⟨[d], ?_⟩
      show _ < (c.turn connectionNumber bidirectional d).selection.nSelected
      rw [hgrown, hadded]
      exact Nat.lt_succ_self _
    | none =>
      rw [hadded, Option.toList_none, List.append_nil] at hturn
      rw [hadded, Option.toList_none, List.length_nil, Nat.add_zero] at hgrown
      obtain ⟨draws, hdraws⟩ := exists_draws_of_none hturn hnone (hgrown ▸ hcount) hroom
      refine ⟨d :: draws, ?_⟩
      show _ < ((c.turn connectionNumber bidirectional d).run connectionNumber bidirectional
        draws).selection.nSelected
      rw [hdraws, hgrown]
      exact Nat.lt_succ_self _

theorem run_append (draws more : List (Fin n)) :
    c.run connectionNumber bidirectional (draws ++ more) =
      (c.run connectionNumber bidirectional draws).run connectionNumber bidirectional more :=
  List.foldl_append

theorem nSelected_le_capacity (draws : List (Fin n)) :
    (Choice.run connectionNumber bidirectional {} draws).selection.nSelected ≤
      capacity n bidirectional := by
  have h := @selected_run n connectionNumber bidirectional draws
  rw [h.nSelected]
  exact length_le_capacity h.nodes h.nodup

/-- The capacity is reached. -/
theorem exists_draws_capacity {k : Nat} (hk : k ≤ connectionNumber)
    (hroom : k ≤ capacity n bidirectional) : ∃ draws : List (Fin n),
      k ≤ (Choice.run connectionNumber bidirectional {} draws).selection.nSelected := by
  induction k with
  | zero => exact ⟨[], Nat.zero_le _⟩
  | succ k ih =>
    obtain ⟨draws, hdraws⟩ := ih (by omega) (by omega)
    by_cases hlt : k < (Choice.run connectionNumber bidirectional {} draws).selection.nSelected
    · exact ⟨draws, hlt⟩
    · have h := @selected_run n connectionNumber bidirectional draws
      obtain ⟨more, hmore⟩ := @exists_draws_grow n connectionNumber bidirectional _ _ h (by omega)
        (by have := h.nSelected; omega)
      refine ⟨draws ++ more, ?_⟩
      rw [run_append]
      omega

end

/-! ## The loops can end -/

/-- Wherever the loops are with fewer connections than asked for, some draws add one. -/
def Finishes (n connectionNumber : Nat) (bidirectional : Bool) : Prop :=
  ∀ draws : List (Fin n),
    (Choice.run connectionNumber bidirectional {} draws).selection.nSelected < connectionNumber →
    ∃ more : List (Fin n),
      (Choice.run connectionNumber bidirectional {} draws).selection.nSelected <
        (Choice.run connectionNumber bidirectional {} (draws ++ more)).selection.nSelected

/-- What `n_selected` counts are different connections between different nodes. -/
def CountsConnections (n connectionNumber : Nat) (bidirectional : Bool) : Prop :=
  ∀ draws : List (Fin n),
    (Choice.run connectionNumber bidirectional {} draws).selection.nSelected =
      (Choice.connections connectionNumber bidirectional {} draws).length ∧
    (∀ p ∈ Choice.connections connectionNumber bidirectional {} draws, p ∈ nodePairs n) ∧
    (directed bidirectional (Choice.connections connectionNumber bidirectional {} draws)).Nodup

/-- `modify_random_link` raises a `TestException`, or its loops cannot get stuck. -/
def SelectsLinks (u : CommandUnwrapper) (connectionNumber : Nat) (netemCommand : Text)
    (bidirectional : Bool) : Prop :=
  (∃ draws e, u.modifyRandomLink connectionNumber netemCommand bidirectional draws =
    some (.error (.test e))) ∨
  Finishes u.nodesNumber connectionNumber bidirectional ∧
    CountsConnections u.nodesNumber connectionNumber bidirectional

section
variable {u : CommandUnwrapper} {connectionNumber : Nat} {netemCommand : Text} {bidirectional : Bool}

theorem countsConnections (n connectionNumber : Nat) (bidirectional : Bool) :
    CountsConnections n connectionNumber bidirectional := fun draws =>
  ⟨(selected_run draws).nSelected, (selected_run draws).nodes, (selected_run draws).nodup⟩

theorem finishes_of_le_capacity {n : Nat} (h : connectionNumber ≤ capacity n bidirectional) :
    Finishes n connectionNumber bidirectional := by
  intro draws hlt
  have hselected := @selected_run n connectionNumber bidirectional draws
  obtain ⟨more, hmore⟩ := exists_draws_grow hselected hlt (by have := hselected.nSelected; omega)
  refine ⟨more, ?_⟩
  rwa [run_append]

/-- Too many connections are asked for: the loops never end, and come to a state they cannot leave. -/
theorem not_selectsLinks (h : capacity u.nodesNumber bidirectional < connectionNumber) :
    ¬ SelectsLinks u connectionNumber netemCommand bidirectional := by
  rintro (⟨draws, e, herror⟩ | ⟨hfinishes, -⟩)
  · have hle := @nSelected_le_capacity u.nodesNumber connectionNumber bidirectional draws
    obtain ⟨hdone, -⟩ | ⟨-, hnone⟩ :=
      @selectLinks_cases u.nodesNumber connectionNumber bidirectional draws {}
    · exact absurd hdone.2 (by omega)
    · unfold modifyRandomLink at herror
      rw [hnone] at herror
      cases herror
  · obtain ⟨draws, hdraws⟩ :=
      @exists_draws_capacity u.nodesNumber connectionNumber bidirectional _ h.le le_rfl
    have hle := @nSelected_le_capacity u.nodesNumber connectionNumber bidirectional draws
    obtain ⟨more, hmore⟩ := hfinishes draws (by omega)
    have hle' := @nSelected_le_capacity u.nodesNumber connectionNumber bidirectional (draws ++ more)
    omega

end

/-- **When the selection cannot get stuck**: up to the number of connections there are. -/
theorem selects_links_iff (u : CommandUnwrapper) (connectionNumber : Nat) (netemCommand : Text)
    (bidirectional : Bool) : SelectsLinks u connectionNumber netemCommand bidirectional ↔
      connectionNumber ≤ capacity u.nodesNumber bidirectional := by
  constructor
  · intro h
    by_contra hlt
    exact not_selectsLinks (Nat.lt_of_not_le hlt) h
  · intro h
    exact .inr ⟨finishes_of_le_capacity h, countsConnections _ _ _⟩

/-- "on 3 connections" in a cluster of two nodes. -/
theorem gets_stuck : ¬ SelectsLinks ⟨2, false⟩ 3 " delay 10ms".toList false :=
  not_selectsLinks (by decide)

/-! ## The command that is built -/

/-- `k` different connections between different nodes. -/
structure IsConnections (n k : Nat) (bidirectional : Bool) (pairs : List (Nat × Nat)) : Prop where
  length : pairs.length = k
  nodes : ∀ p ∈ pairs, p ∈ nodePairs n
  nodup : (directed bidirectional pairs).Nodup

/-- A command is built, and executing it changes the rule of exactly `k` connections. -/
def AffectsExactly (u : CommandUnwrapper) (connectionNumber : Nat) (netemCommand : Text)
    (bidirectional : Bool) (draws : List (Fin u.nodesNumber)) : Prop :=
  ∃ s t, u.modifyRandomLink connectionNumber netemCommand bidirectional draws =
      some (.ok (.executor (.modifyLinkFromTo s t netemCommand bidirectional))) ∧
    ∃ pairs, IsConnections u.nodesNumber connectionNumber bidirectional pairs ∧
      ∀ (accepts : ℕ → List Text → Text → Bool) address internalIP port additionalPorts h h',
        (LinkCall.mk s t netemCommand bidirectional).run accepts
          (gceMaster u.nodesNumber address internalIP port additionalPorts) h = .ok () h' →
        Effect (fun s t => (s, t) ∈ directed bidirectional pairs) netemCommand h h'

/-- Integers are no texts. -/
theorem modifyLinkFromTo_int {u : CommandUnwrapper} {sources targets : List Nat} {netemCommand : Text}
    {bidirectional : Bool} {draws : List (Fin u.nodesNumber)} (hne : sources ≠ []) :
    u.modifyLinkFromTo (sources.map .int) (targets.map .int) netemCommand bidirectional draws =
      some (.error (.other .attributeError)) := by
  cases sources with
  | nil => exact absurd rfl hne
  | cons source sources => rfl

theorem modifyRandomLink_pos {u : CommandUnwrapper} {connectionNumber : Nat} {netemCommand : Text}
    {bidirectional : Bool} {draws : List (Fin u.nodesNumber)} (hk : 0 < connectionNumber)
    (hend : (selectLinks connectionNumber bidirectional draws none {}).isSome = true) :
    u.modifyRandomLink connectionNumber netemCommand bidirectional draws =
      some (.error (.other .attributeError)) := by
  obtain ⟨hdone, rest, hrest⟩ | ⟨-, hnone⟩ :=
    @selectLinks_cases u.nodesNumber connectionNumber bidirectional draws {}
  · have h := @selected_run u.nodesNumber connectionNumber bidirectional draws
    obtain ⟨p, hp⟩ := List.exists_mem_of_length_pos (by
      rw [← h.nSelected]
      exact hk.trans_le hdone.2)
    unfold modifyRandomLink
    rw [hrest]
    exact modifyLinkFromTo_int (List.ne_nil_of_mem (h.sources p hp))
  · rw [hnone] at hend
    cases hend

/-- **When "on k connections" affects exactly k connections**: for none. -/
theorem affects_exactly_iff {u : CommandUnwrapper} (hgce : u.localExecution = false)
    {connectionNumber : Nat} (netemCommand : Text) {bidirectional : Bool}
    {draws : List (Fin u.nodesNumber)}
    (hend : (selectLinks connectionNumber bidirectional draws none {}).isSome = true) :
    AffectsExactly u connectionNumber netemCommand bidirectional draws ↔ connectionNumber = 0 := by
  constructor
  · rintro ⟨s, t, hbuilt, -⟩
    by_contra hk
    rw [modifyRandomLink_pos (Nat.pos_of_ne_zero hk) hend] at hbuilt
    cases hbuilt
  · rintro rfl
    refine ⟨[], [], ?_, [], ⟨rfl, fun p hp => (nomatch hp), ?_⟩, ?_⟩
    · have hselect : selectLinks 0 bidirectional draws none {} = some ({}, draws) := by
        cases draws <;> rfl
      unfold modifyRandomLink
      rw [hselect]
      refine u.modifyLinkFromTo_ok.mpr ⟨[], [], ?_, ?_, rfl⟩
      · cases draws <;> rfl
      · unfold localGuard
        rw [hgce]
        rfl
    · cases bidirectional <;> exact List.nodup_nil
    · intro accepts address internalIP port additionalPorts h h' hok
      cases hok
      apply (Effect.refl netemCommand h).congr
      intro s t
      cases bidirectional <;> simp [directed]

theorem affects_exactly_iff_one :
    AffectsExactly ⟨2, false⟩ 1 " delay 1s".toList false [0, 1] ↔ 1 = 0 :=
  @affects_exactly_iff ⟨2, false⟩ rfl 1 _ false [0, 1] (by decide +kernel)

/-- "on 1 connection" with the draws 1 and 2: the command is dropped. -/
theorem not_affects_exactly :
    (CommandUnwrapper.mk 2 false).modifyRandomLink 1 " delay 1s".toList false [0, 1] =
      some (.error (.other .attributeError)) ∧
    ¬ AffectsExactly ⟨2, false⟩ 1 " delay 1s".toList false [0, 1] := by
  have hbuilt : (CommandUnwrapper.mk 2 false).modifyRandomLink 1 " delay 1s".toList false [0, 1] =
      some (.error (.other .attributeError)) := by decide +kernel
  refine ⟨hbuilt, fun ⟨s, t, hok, _⟩ => ?_⟩
  rw [hbuilt] at hok
  cases hok

end Executor.CommandUnwrapper
