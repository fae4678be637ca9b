import Krafters.Executor.Unwrapper
import Mathlib.Data.List.Nodup
import Mathlib.Data.List.Perm.Subperm

/-!
# test_executor.CommandUnwrapper.resolve_ids: what the tokens stand for

`Drawing` are the variables of the random loop and `Drawing.turn` one draw; `drawRandom` is
the loop over the draws (`drawRandom_eq`).  As long as the guard holds there is an id that
is not referred to, and the values drawn are ids of nodes, different from each other and
from every numeral (`Fresh`):

    Fresh n ids s → 0 < s.count → ∃ d, d + 1 ∉ s.referredIds            (Fresh.exists_draw)
    u.resolveIds sources targets draws = some (.ok (s, t)) → Resolved …  (resolveIds_ok)
-/

namespace Executor.CommandUnwrapper

open Py

variable (u : CommandUnwrapper)

/-! ## Tokens -/

/-- A numeral, "rand" or "all". -/
def IsToken : IdToken → Prop
  | .str value => isDigit value = true ∨ value = rand ∨ value = all
  | .int _ => False

instance : DecidablePred IsToken := fun
  | .str value => inferInstanceAs (Decidable (isDigit value = true ∨ value = rand ∨ value = all))
  | .int _ => inferInstanceAs (Decidable False)

def numeral : IdToken → Option Nat
  | .str value => if isDigit value then pyInt value else none
  | .int _ => none

/-- The numbers among the tokens. -/
def numerals (ids : List IdToken) : List Nat := ids.filterMap numeral

/-- How often "rand" is among the tokens. -/
def rands (ids : List IdToken) : Nat := ids.count (.str rand)

/-! ## The random loop -/

/-- `random_values_count`, `referred_ids` and `random_values` -/
structure Drawing where
  count : Nat
  referredIds : List Nat
  randomValues : List Nat
deriving DecidableEq, Repr

namespace Drawing

/-- One draw; without values owed the loop has ended. -/
def turn {n : Nat} (s : Drawing) (d : Fin n) : Drawing :=
  if s.count = 0 then s
  else if d.val + 1 ∈ s.referredIds then s
  else ⟨s.count - 1, setAdd s.referredIds (d.val + 1), s.randomValues ++ [d.val + 1]⟩

def run {n : Nat} (s : Drawing) (draws : List (Fin n)) : Drawing := draws.foldl turn s

theorem run_of_done {n : Nat} {s : Drawing} (h : s.count = 0) (draws : List (Fin n)) :
    s.run draws = s := by
  induction draws with
  | nil => rfl
  | cons d draws ih =>
    have hturn : s.turn d = s := if_pos h
    show (s.turn d).run draws = s
    rw [hturn, ih]

end Drawing

theorem drawRandom_eq {n : Nat} (draws : List (Fin n)) (s : Drawing) :
    drawRandom s.count s.referredIds s.randomValues draws =
      if (s.run draws).count = 0 then some (s.run draws).randomValues else none := by
  induction draws generalizing s with
  | nil =>
    obtain ⟨count, referredIds, randomValues⟩ := s
    cases count <;> rfl
  | cons d draws ih =>
    obtain ⟨count, referredIds, randomValues⟩ := s
    cases count with
    | zero =>
      rw [Drawing.run_of_done rfl]
      rfl
    | succ count =>
      have hrun : ∀ s' : Drawing, Drawing.turn ⟨count + 1, referredIds, randomValues⟩ d = s' →
          Drawing.run ⟨count + 1, referredIds, randomValues⟩ (d :: draws) = s'.run draws := by
        rintro s' rfl
        rfl
      unfold drawRandom
      dsimp only
      split
      · next hmem =>
        rw [hrun ⟨count + 1, referredIds, randomValues⟩ ?_]
        · exact ih ⟨count + 1, referredIds, randomValues⟩
        · simp [Drawing.turn, hmem]
      · next hmem =>
        rw [hrun ⟨count, setAdd referredIds (d.val + 1), randomValues ++ [d.val + 1]⟩ ?_]
        · exact ih ⟨count, setAdd referredIds (d.val + 1), randomValues ++ [d.val + 1]⟩
        · simp [Drawing.turn, hmem]

/-! ## Sets of ids -/

theorem mem_setAdd {α : Type} [DecidableEq α] {s : List α} {x y : α} :
    y ∈ setAdd s x ↔ y = x ∨ y ∈ s := by
  unfold setAdd
  split
  · next h => exact ⟨.inr, fun hy => hy.elim (fun hy => hy ▸ h) id⟩
  · rw [List.mem_append, List.mem_singleton, or_comm]

theorem nodup_append_singleton {α : Type} {s : List α} {x : α} (h : s.Nodup) (hx : x ∉ s) :
    (s ++ [x]).Nodup := by
  rw [← List.concat_eq_append]
  exact h.concat hx

theorem nodup_setAdd {α : Type} [DecidableEq α] {s : List α} (h : s.Nodup) (x : α) :
    (setAdd s x).Nodup := by
  unfold setAdd
  split
  · exact h
  · next hx => exact nodup_append_singleton h hx

theorem length_setAdd_of_notMem {α : Type} [DecidableEq α] {s : List α} {x : α} (h : x ∉ s) :
    (setAdd s x).length = s.length + 1 := by
  rw [setAdd, if_neg h, List.length_append, List.length_singleton]

/-- Some node is missing in a set with fewer ids than nodes. -/
theorem exists_fin_notMem {n : Nat} {s : List Nat} (h : s.length < n) :
    ∃ d : Fin n, d.val + 1 ∉ s := by
  by_contra hall
  rw [not_exists] at hall
  have hsub : (List.range n).map (· + 1) ⊆ s := by
    intro id hid
    obtain ⟨i, hi, rfl⟩ := List.mem_map.mp hid
    exact not_not.mp (hall ⟨i, List.mem_range.mp hi⟩)
  have hnodup : ((List.range n).map (· + 1)).Nodup :=
    List.Nodup.map (fun i j hij => Nat.succ.inj hij) List.nodup_range
  have hle := (hnodup.subperm hsub).length_le
  rw [List.length_map, List.length_range] at hle
  omega

section
variable {n : Nat} {l : List Nat} (hnodup : l.Nodup) (hnodes : ∀ id ∈ l, 1 ≤ id ∧ id ≤ n)

include hnodup hnodes

theorem length_nodes_le : l.length ≤ n := by
  have hsub : l ⊆ (List.range n).map (· + 1) := fun id hid =>
    List.mem_map.mpr ⟨id - 1, List.mem_range.mpr (by have := hnodes id hid; omega), by
      have := hnodes id hid; omega⟩
  have hle := (hnodup.subperm hsub).length_le
  rwa [List.length_map, List.length_range] at hle

/-- As many ids as nodes are all the nodes. -/
theorem mem_of_nodes (hlength : l.length = n) {id : Nat} (hid : 1 ≤ id ∧ id ≤ n) : id ∈ l := by
  by_contra hnot
  have hle : (id :: l).length ≤ n := length_nodes_le (List.nodup_cons.mpr ⟨hnot, hnodup⟩)
    (List.forall_mem_cons.mpr ⟨hid, hnodes⟩)
  rw [List.length_cons] at hle
  omega

end

/-! ## The values drawn -/

/-- The invariant of the random loop: the ids referred to are the numerals `ids` and the values
drawn so far, which are nodes of the cluster and all different. -/
structure Fresh (n : Nat) (ids : List Nat) (s : Drawing) : Prop where
  nodup : s.referredIds.Nodup
  room : s.referredIds.length + s.count ≤ n
  referred : ∀ id, id ∈ s.referredIds ↔ id ∈ ids ∨ id ∈ s.randomValues
  values_nodup : s.randomValues.Nodup
  values : ∀ id ∈ s.randomValues, 1 ≤ id ∧ id ≤ n ∧ id ∉ ids

section
variable {n : Nat} {ids : List Nat} {s : Drawing}

theorem Fresh.turn (h : Fresh n ids s) (d : Fin n) : Fresh n ids (s.turn d) := by
  unfold Drawing.turn
  split
  · exact h
  · next hcount =>
    split
    · exact h
    · next hmem =>
      have hnew := not_or.mp fun hor => hmem ((h.referred _).mpr hor)
      refine ⟨nodup_setAdd h.nodup _, ?_, fun id => ?_, ?_, fun id hid => ?_⟩
      · have := h.room
        rw [length_setAdd_of_notMem hmem]
        dsimp only
        omega
      · rw [mem_setAdd, h.referred, List.mem_append, List.mem_singleton]
        tauto
      · exact nodup_append_singleton h.values_nodup hnew.2
      · rcases List.mem_append.mp hid with hid | hid
        · exact h.values id hid
        · obtain rfl := List.mem_singleton.mp hid
          exact ⟨by omega, by omega, hnew.1⟩

theorem Fresh.run (h : Fresh n ids s) (draws : List (Fin n)) : Fresh n ids (s.run draws) := by
  induction draws generalizing s with
  | nil => exact h
  | cons d draws ih => exact ih (h.turn d)

/-- While a value is owed, some draw gives it. -/
theorem Fresh.exists_draw (h : Fresh n ids s) (hcount : 0 < s.count) :
    ∃ d : Fin n, d.val + 1 ∉ s.referredIds := exists_fin_notMem (by have := h.room; omega)

theorem turn_count (hcount : 0 < s.count) {d : Fin n} (hd : d.val + 1 ∉ s.referredIds) :
    (s.turn d).count + 1 = s.count := by
  unfold Drawing.turn
  rw [if_neg (by omega), if_neg hd]
  show s.count - 1 + 1 = s.count
  omega

theorem turn_length (d : Fin n) :
    (s.turn d).randomValues.length + (s.turn d).count = s.randomValues.length + s.count := by
  unfold Drawing.turn
  split
  · rfl
  · split
    · rfl
    · simp only [List.length_append, List.length_singleton]
      omega

theorem run_length (draws : List (Fin n)) :
    (s.run draws).randomValues.length + (s.run draws).count =
      s.randomValues.length + s.count := by
  induction draws generalizing s with
  | nil => rfl
  | cons d draws ih => exact (ih (s := s.turn d)).trans (turn_length d)

/-- The loop can be ended from everywhere. -/
theorem Fresh.exists_draws (h : Fresh n ids s) : ∃ draws : List (Fin n), (s.run draws).count = 0 := by
  induction hc : s.count generalizing s with
  | zero => exact ⟨[], hc⟩
  | succ k ih =>
    obtain ⟨d, hd⟩ := h.exists_draw (by omega)
    have := turn_count (by omega) hd
    obtain ⟨draws, hdraws⟩ := ih (h.turn d) (by omega)
    exact ⟨d :: draws, hdraws⟩

end

/-! ## The two passes over the tokens -/

theorem isDigit_rand : isDigit rand = false := by decide

theorem isDigit_all : isDigit all = false := by decide

theorem rand_ne_all : rand ≠ all := by decide

theorem mem_foldl_setAdd {f : Nat → Nat} {l : List Nat} {y : Nat} {s : List Nat} :
    y ∈ l.foldl (fun s i => setAdd s (f i)) s ↔ y ∈ s ∨ ∃ i ∈ l, y = f i := by
  induction l generalizing s with
  | nil => simp
  | cons i l ih =>
    rw [List.foldl_cons, ih, mem_setAdd]
    simp only [List.mem_cons, exists_eq_or_imp]
    tauto

theorem nodup_foldl_setAdd {f : Nat → Nat} {l : List Nat} {s : List Nat} (h : s.Nodup) :
    (l.foldl (fun s i => setAdd s (f i)) s).Nodup := by
  induction l generalizing s with
  | nil => exact h
  | cons i l ih => exact ih (nodup_setAdd h _)

/-- A token of one of the three kinds, with what the counts say of it. -/
inductive TokenCases (id : IdToken) (ids : List IdToken) : Prop
  | numeral (value : Text) (k : Nat) (hid : id = .str value) (hdigit : isDigit value = true)
    (hk : pyInt value = some k) (hnumerals : numerals (id :: ids) = k :: numerals ids)
    (hrands : rands (id :: ids) = rands ids) (hall : .str all ∈ id :: ids ↔ .str all ∈ ids)
  | rand (hid : id = .str rand) (hnumerals : numerals (id :: ids) = numerals ids)
    (hrands : rands (id :: ids) = rands ids + 1) (hall : .str all ∈ id :: ids ↔ .str all ∈ ids)
  | all (hid : id = .str all) (hnumerals : numerals (id :: ids) = numerals ids)
    (hrands : rands (id :: ids) = rands ids) (hall : .str all ∈ id :: ids)

theorem tokenCases {id : IdToken} (h : IsToken id) (ids : List IdToken) : TokenCases id ids := by
  cases id with
  | int n => cases h
  | str value =>
    rcases h with hdigit | rfl | rfl
    · obtain ⟨k, hk⟩ := exists_pyInt hdigit
      have hne : ∀ word, isDigit word = false → value ≠ word := by
        rintro word hword rfl
        rw [hdigit] at hword
        cases hword
      refine .numeral value k rfl hdigit hk ?_ ?_ ?_
      · exact List.filterMap_cons_some (by rw [numeral, if_pos hdigit, hk])
      · exact List.count_cons_of_ne fun h => hne _ isDigit_rand (IdToken.str.inj h)
      · rw [List.mem_cons, or_iff_right fun h => hne _ isDigit_all (IdToken.str.inj h).symm]
    · refine .rand rfl (List.filterMap_cons_none (by rw [numeral, isDigit_rand]; rfl))
        List.count_cons_self ?_
      rw [List.mem_cons, or_iff_right fun h => rand_ne_all (IdToken.str.inj h).symm]
    · exact .all rfl (List.filterMap_cons_none (by rw [numeral, isDigit_all]; rfl))
        (List.count_cons_of_ne fun h => rand_ne_all (IdToken.str.inj h).symm) List.mem_cons_self

/-- The first loop: the numerals and the number of "rand". -/
theorem referred_eq {ids : List IdToken} (htok : ∀ id ∈ ids, IsToken id) :
    ∀ (referredIds : List Nat) (count : Nat), referred ids referredIds count =
      .ok ((numerals ids).foldl (fun s i => setAdd s i) referredIds, count + rands ids) := by
  induction ids with
  | nil => exact fun _ _ => rfl
  | cons id ids ih =>
    intro referredIds count
    have ih := ih fun id' hid' => htok id' (List.mem_cons_of_mem id hid')
    cases tokenCases (htok id List.mem_cons_self) ids with
    | numeral value k hid hdigit hk hnumerals hrands =>
      subst hid
      rw [hnumerals, hrands, referred, if_pos hdigit, hk]
      exact ih _ _
    | rand hid hnumerals hrands =>
      subst hid
      rw [hnumerals, hrands, referred, if_neg (by rw [isDigit_rand]; decide), if_pos rfl, ih]
      congr 2
      omega
    | all hid hnumerals hrands =>
      subst hid
      rw [hnumerals, hrands, referred, if_neg (by rw [isDigit_all]; decide),
        if_neg (Ne.symm rand_ne_all), ih]

/-- The ids a side stands for, its "rand" tokens replaced by `values`. -/
def Meant (n : Nat) (ids : List IdToken) (values : List Nat) (id : Nat) : Prop :=
  id ∈ numerals ids ∨ id ∈ values ∨ .str all ∈ ids ∧ 1 ≤ id ∧ id ≤ n

section
variable {ids : List IdToken} {values result : List Nat}

theorem resolve_numeral {value : Text} {k : Nat} (hdigit : isDigit value = true)
    (hk : pyInt value = some k) :
    u.resolve (.str value :: ids) values result =
      if u.nodesNumber < k then .error (idError ("Id ".toList ++ value ++ " out of range ".toList))
      else u.resolve ids values (setAdd result k) := by
  rw [resolve.eq_def]
  dsimp only
  rw [if_pos hdigit, hk]

theorem resolve_word {value : Text} (hdigit : isDigit value = false) :
    u.resolve (.str value :: ids) values result =
      if value = rand then
        match values with
        | [] => .error (.other .indexError)
        | ran :: values => u.resolve ids values (setAdd result ran)
      else if value = all then
        u.resolve ids values
          ((List.range u.nodesNumber).foldl (fun result i => setAdd result (i + 1)) result)
      else .error (idError ("Id ".toList ++ value ++ " is not valid".toList)) := by
  rw [resolve.eq_def]
  dsimp only
  have hword : ¬ isDigit value = true := by rw [hdigit]; exact Bool.false_ne_true
  exact (if_neg hword).trans (by cases values <;> rfl)

theorem resolve_rand (ran : Nat) : u.resolve (.str rand :: ids) (ran :: values) result =
    u.resolve ids values (setAdd result ran) := by
  rw [u.resolve_word isDigit_rand, if_pos rfl]

theorem resolve_all_cons : u.resolve (.str all :: ids) values result =
    u.resolve ids values
      ((List.range u.nodesNumber).foldl (fun result i => setAdd result (i + 1)) result) := by
  rw [u.resolve_word isDigit_all, if_neg (Ne.symm rand_ne_all), if_pos rfl]

end

section
variable {a b c d e f : Prop}

theorem or_numeral : (a ∨ b) ∨ c ∨ d ∨ e ↔ b ∨ (a ∨ c) ∨ d ∨ e := by tauto

theorem or_rand : (a ∨ b) ∨ c ∨ d ∨ e ↔ b ∨ c ∨ (a ∨ d) ∨ e := by tauto

theorem or_all (hf : f) : (b ∨ a) ∨ c ∨ d ∨ e ∧ a ↔ b ∨ c ∨ d ∨ f ∧ a := by tauto

end

theorem resolve_ok {ids : List IdToken} (htok : ∀ id ∈ ids, IsToken id)
    (hrange : ∀ k ∈ numerals ids, k ≤ u.nodesNumber) :
    ∀ (values result : List Nat), rands ids ≤ values.length → ∃ result',
      u.resolve ids values result = .ok (result', values.drop (rands ids)) ∧
      (∀ id, id ∈ result' ↔
        id ∈ result ∨ Meant u.nodesNumber ids (values.take (rands ids)) id) ∧
      (result.Nodup → result'.Nodup) := by
  induction ids with
  | nil =>
    intro values result _
    exact ⟨result, rfl, by simp [Meant, numerals, rands], fun h => h⟩
  | cons id ids ih =>
    intro values result hvalues
    have htok' : ∀ id' ∈ ids, IsToken id' := fun id' hid' => htok id' (List.mem_cons_of_mem id hid')
    cases tokenCases (htok id List.mem_cons_self) ids with
    | numeral value k hid hdigit hk hnumerals hrands hall =>
      subst hid
      rw [hnumerals] at hrange
      rw [hrands] at hvalues
      obtain ⟨hkn, hrange⟩ := List.forall_mem_cons.mp hrange
      obtain ⟨result', hresolve, hmem, hnodup⟩ := ih htok' hrange values (setAdd result k) hvalues
      refine ⟨result', ?_, fun y => ?_, fun h => hnodup (nodup_setAdd h k)⟩
      · rw [u.resolve_numeral hdigit hk, if_neg (by omega), hresolve, hrands]
      · unfold Meant at hmem ⊢
        rw [hmem, mem_setAdd, hnumerals, hrands, hall, List.mem_cons]
        exact or_numeral
    | rand hid hnumerals hrands hall =>
      subst hid
      rw [hnumerals] at hrange
      rw [hrands] at hvalues
      cases values with
      | nil => cases hvalues
      | cons ran values =>
        obtain ⟨result', hresolve, hmem, hnodup⟩ := ih htok' hrange values (setAdd result ran)
          (Nat.le_of_succ_le_succ hvalues)
        refine ⟨result', ?_, fun y => ?_, fun h => hnodup (nodup_setAdd h ran)⟩
        · rw [u.resolve_rand, hresolve, hrands, List.drop_succ_cons]
        · unfold Meant at hmem ⊢
          rw [hmem, mem_setAdd, hnumerals, hrands, hall, List.take_succ_cons, List.mem_cons]
          exact or_rand
    | all hid hnumerals hrands hall =>
      subst hid
      rw [hnumerals] at hrange
      rw [hrands] at hvalues
      obtain ⟨result', hresolve, hmem, hnodup⟩ := ih htok' hrange values
        ((List.range u.nodesNumber).foldl (fun result i => setAdd result (i + 1)) result) hvalues
      refine ⟨result', ?_, fun y => ?_, fun h => hnodup (nodup_foldl_setAdd h)⟩
      · rw [u.resolve_all_cons, hresolve, hrands]
      · have hrange' : (∃ i ∈ List.range u.nodesNumber, y = i + 1) ↔
            1 ≤ y ∧ y ≤ u.nodesNumber := by
          constructor
          · rintro ⟨i, hi, rfl⟩
            have := List.mem_range.mp hi
            omega
          · exact fun h => ⟨y - 1, List.mem_range.mpr (by omega), by omega⟩
        unfold Meant at hmem ⊢
        rw [hmem, mem_foldl_setAdd, hrange', hnumerals, hrands]
        exact or_all hall

/-- A numeral above the number of nodes. -/
theorem resolve_error {ids : List IdToken} (htok : ∀ id ∈ ids, IsToken id)
    (hrange : ∃ k ∈ numerals ids, u.nodesNumber < k) :
    ∀ (values result : List Nat), rands ids ≤ values.length →
      ∃ message, u.resolve ids values result = .error (idError message) := by
  induction ids with
  | nil => obtain ⟨k, hk, -⟩ := hrange; cases hk
  | cons id ids ih =>
    intro values result hvalues
    have htok' : ∀ id' ∈ ids, IsToken id' := fun id' hid' => htok id' (List.mem_cons_of_mem id hid')
    cases tokenCases (htok id List.mem_cons_self) ids with
    | numeral value k hid hdigit hk hnumerals hrands hall =>
      subst hid
      rw [hrands] at hvalues
      rw [u.resolve_numeral hdigit hk]
      by_cases hkn : u.nodesNumber < k
      · exact ⟨_, if_pos hkn⟩
      · have hrange' : ∃ k ∈ numerals ids, u.nodesNumber < k := by
          obtain ⟨k', hk', hlt⟩ := hrange
          rw [hnumerals] at hk'
          rcases List.mem_cons.mp hk' with rfl | hk'
          · exact absurd hlt hkn
          · exact ⟨k', hk', hlt⟩
        rw [if_neg hkn]
        exact ih htok' hrange' values (setAdd result k) hvalues
    | rand hid hnumerals hrands hall =>
      subst hid
      rw [hnumerals] at hrange
      rw [hrands] at hvalues
      cases values with
      | nil => cases hvalues
      | cons ran values =>
        rw [u.resolve_rand]
        exact ih htok' hrange values (setAdd result ran) (Nat.le_of_succ_le_succ hvalues)
    | all hid hnumerals hrands hall =>
      subst hid
      rw [hnumerals] at hrange
      rw [hrands] at hvalues
      rw [u.resolve_all_cons]
      exact ih htok' hrange values _ hvalues

/-! ## `resolve_ids` -/

theorem numerals_append (ids ids' : List IdToken) :
    numerals (ids ++ ids') = numerals ids ++ numerals ids' := List.filterMap_append

theorem rands_append (ids ids' : List IdToken) : rands (ids ++ ids') = rands ids + rands ids' :=
  List.count_append

/-- The random loop starts here. -/
def start (sources targets : List IdToken) : Drawing where
  count := rands (sources ++ targets)
  referredIds := (numerals (sources ++ targets)).foldl (fun s i => setAdd s i) []
  randomValues := []

/-- The guard of `resolve_ids`. -/
def Room (n : Nat) (sources targets : List IdToken) : Prop :=
  (start sources targets).referredIds.length + (start sources targets).count ≤ n

/-- The sides with their "rand" tokens replaced, in order, by values that are nodes, different
from each other and from every numeral. -/
structure Resolved (n : Nat) (sources targets : List IdToken) (values s t : List Nat) : Prop where
  length : values.length = rands (sources ++ targets)
  nodup : values.Nodup
  fresh : ∀ id ∈ values, 1 ≤ id ∧ id ≤ n ∧ id ∉ numerals (sources ++ targets)
  mem_sources : ∀ id, id ∈ s ↔ Meant n sources (values.take (rands sources)) id
  mem_targets : ∀ id, id ∈ t ↔ Meant n targets (values.drop (rands sources)) id
  nodup_sources : s.Nodup
  nodup_targets : t.Nodup

section
variable {u : CommandUnwrapper} {sources targets : List IdToken}
  (htok : ∀ id ∈ sources ++ targets, IsToken id)

theorem mem_start {id : Nat} :
    id ∈ (start sources targets).referredIds ↔ id ∈ numerals (sources ++ targets) := by
  unfold start
  dsimp only
  rw [mem_foldl_setAdd]
  simp

theorem fresh_start {n : Nat} (h : Room n sources targets) :
    Fresh n (numerals (sources ++ targets)) (start sources targets) := by
  refine ⟨nodup_foldl_setAdd List.nodup_nil, h, fun id => ?_, List.nodup_nil, fun id hid => ?_⟩
  · rw [mem_start]
    exact (or_iff_left fun h => nomatch h).symm
  · cases hid

/-- As many values are drawn as are owed. -/
theorem length_values {n : Nat} {draws : List (Fin n)}
    (hrun : ((start sources targets).run draws).count = 0) :
    ((start sources targets).run draws).randomValues.length = rands (sources ++ targets) := by
  have := run_length (s := start sources targets) draws
  rw [hrun] at this
  simpa [start] using this

include htok

/-- `resolve_ids` on tokens: the guard, the random loop, and one pass over each side. -/
theorem resolveIds_eq (draws : List (Fin u.nodesNumber)) :
    u.resolveIds sources targets draws =
      if u.nodesNumber < (start sources targets).referredIds.length +
          (start sources targets).count then
        some (.error (idError "'Rand' keyword has been used too many times!".toList))
      else if ((start sources targets).run draws).count = 0 then
        some (do
          let (rSources, values) ←
            u.resolve sources ((start sources targets).run draws).randomValues []
          let (rTargets, _) ← u.resolve targets values []
          return (rSources, rTargets))
      else none := by
  have hdraw := drawRandom_eq draws (start sources targets)
  have hreferred : referred (sources ++ targets) [] 0 =
      .ok ((start sources targets).referredIds, (start sources targets).count) := by
    rw [referred_eq htok, Nat.zero_add]
    rfl
  have hvalues : (start sources targets).randomValues = [] := rfl
  rw [hvalues] at hdraw
  unfold resolveIds
  rw [hreferred]
  dsimp only
  rw [hdraw]
  split
  · rfl
  · split <;> rfl

/-- The guard raises. -/
theorem resolveIds_noRoom (h : ¬ Room u.nodesNumber sources targets)
    (draws : List (Fin u.nodesNumber)) :
    ∃ message, u.resolveIds sources targets draws = some (.error (idError message)) := by
  rw [resolveIds_eq htok, if_pos (Nat.lt_of_not_le h)]
  exact ⟨_, rfl⟩

theorem resolveIds_running (h : Room u.nodesNumber sources targets)
    {draws : List (Fin u.nodesNumber)} (hrun : ((start sources targets).run draws).count ≠ 0) :
    u.resolveIds sources targets draws = none := by
  rw [resolveIds_eq htok, if_neg (Nat.not_lt.mpr h), if_neg hrun]

theorem resolveIds_resolved (h : Room u.nodesNumber sources targets)
    (hrange : ∀ k ∈ numerals (sources ++ targets), k ≤ u.nodesNumber)
    {draws : List (Fin u.nodesNumber)} (hrun : ((start sources targets).run draws).count = 0) :
    ∃ s t, u.resolveIds sources targets draws = some (.ok (s, t)) ∧
      Resolved u.nodesNumber sources targets
        ((start sources targets).run draws).randomValues s t := by
  obtain ⟨-, -, -, hnodup, hfresh⟩ := (fresh_start h).run draws
  have hlength := length_values hrun
  rw [numerals_append] at hrange
  rw [resolveIds_eq htok, if_neg (Nat.not_lt.mpr h), if_pos hrun]
  generalize (Drawing.run (start sources targets) draws).randomValues = values at *
  have hlen : values.length = rands sources + rands targets := by rw [hlength, rands_append]
  obtain ⟨s, hs, hmems, hnodups⟩ := u.resolve_ok
    (fun id hid => htok id (List.mem_append_left _ hid))
    (fun k hk => hrange k (List.mem_append_left _ hk)) values [] (by omega)
  obtain ⟨t, ht, hmemt, hnodupt⟩ := u.resolve_ok
    (fun id hid => htok id (List.mem_append_right _ hid))
    (fun k hk => hrange k (List.mem_append_right _ hk)) (values.drop (rands sources)) []
    (by rw [List.length_drop]; omega)
  refine ⟨s, t, ?_, hlength, hnodup, hfresh, fun id => ?_, fun id => ?_,
    hnodups List.nodup_nil, hnodupt List.nodup_nil⟩
  · simp only [hs, ht, bind, Except.bind, pure, Except.pure]
  · rw [hmems]
    exact or_iff_right fun h => nomatch h
  · rw [hmemt, List.take_of_length_le (by rw [List.length_drop]; omega)]
    exact or_iff_right fun h => nomatch h

/-- A numeral above the number of nodes raises, when the random loop has ended. -/
theorem resolveIds_outOfRange (h : Room u.nodesNumber sources targets)
    (hrange : ∃ k ∈ numerals (sources ++ targets), u.nodesNumber < k)
    {draws : List (Fin u.nodesNumber)} (hrun : ((start sources targets).run draws).count = 0) :
    ∃ message, u.resolveIds sources targets draws = some (.error (idError message)) := by
  have hlength := length_values hrun
  rw [rands_append] at hlength
  rw [resolveIds_eq htok, if_neg (Nat.not_lt.mpr h), if_pos hrun]
  generalize (Drawing.run (start sources targets) draws).randomValues = values at *
  have htoks : ∀ id ∈ sources, IsToken id := fun id hid => htok id (List.mem_append_left _ hid)
  have htokt : ∀ id ∈ targets, IsToken id := fun id hid => htok id (List.mem_append_right _ hid)
  by_cases hs : ∃ k ∈ numerals sources, u.nodesNumber < k
  · obtain ⟨message, hs⟩ := u.resolve_error htoks hs values [] (by omega)
    exact ⟨message, by simp only [hs, bind, Except.bind]⟩
  · have hs' : ∀ k ∈ numerals sources, k ≤ u.nodesNumber := fun k hk =>
      Nat.le_of_not_lt fun hlt => hs ⟨k, hk, hlt⟩
    have ht : ∃ k ∈ numerals targets, u.nodesNumber < k := by
      obtain ⟨k, hk, hlt⟩ := hrange
      rw [numerals_append] at hk
      rcases List.mem_append.mp hk with hk | hk
      · exact absurd ⟨k, hk, hlt⟩ hs
      · exact ⟨k, hk, hlt⟩
    obtain ⟨s, hsok, -⟩ := u.resolve_ok htoks hs' values [] (by omega)
    obtain ⟨message, ht⟩ := u.resolve_error htokt ht (values.drop (rands sources)) []
      (by rw [List.length_drop]; omega)
    exact ⟨message, by simp only [hsok, ht, bind, Except.bind]⟩

/-- Behind the guard the loop runs, or a numeral is above the number of nodes, or all is well. -/
theorem resolveIds_cases (h : Room u.nodesNumber sources targets)
    (draws : List (Fin u.nodesNumber)) :
    (0 < ((start sources targets).run draws).count ∧ u.resolveIds sources targets draws = none) ∨
    (((start sources targets).run draws).count = 0 ∧
      (∃ k ∈ numerals (sources ++ targets), u.nodesNumber < k) ∧
      ∃ message, u.resolveIds sources targets draws = some (.error (idError message))) ∨
    (((start sources targets).run draws).count = 0 ∧
      (∀ k ∈ numerals (sources ++ targets), k ≤ u.nodesNumber) ∧
      ∃ s t, u.resolveIds sources targets draws = some (.ok (s, t)) ∧
        Resolved u.nodesNumber sources targets
          ((start sources targets).run draws).randomValues s t) := by
  by_cases hrun : ((start sources targets).run draws).count = 0
  · by_cases hrange : ∃ k ∈ numerals (sources ++ targets), u.nodesNumber < k
    · exact .inr (.inl ⟨hrun, hrange, resolveIds_outOfRange htok h hrange hrun⟩)
    · have hrange' : ∀ k ∈ numerals (sources ++ targets), k ≤ u.nodesNumber :=
        fun k hk => Nat.le_of_not_lt fun hlt => hrange ⟨k, hk, hlt⟩
      exact .inr (.inr ⟨hrun, hrange', resolveIds_resolved htok h hrange' hrun⟩)
  · exact .inl ⟨Nat.pos_of_ne_zero hrun, resolveIds_running htok h hrun⟩

/-- What `resolve_ids` returns. -/
theorem resolveIds_ok {draws : List (Fin u.nodesNumber)} {s t : List Nat}
    (hok : u.resolveIds sources targets draws = some (.ok (s, t))) :
    Room u.nodesNumber sources targets ∧
    (∀ k ∈ numerals (sources ++ targets), k ≤ u.nodesNumber) ∧
    Resolved u.nodesNumber sources targets
      ((start sources targets).run draws).randomValues s t := by
  by_cases hroom : Room u.nodesNumber sources targets
  · rcases resolveIds_cases htok hroom draws with
      ⟨-, hnone⟩ | ⟨-, -, message, herror⟩ | ⟨-, hrange, s', t', hok', hresolved⟩
    · cases hnone.symm.trans hok
    · cases herror.symm.trans hok
    · cases hok'.symm.trans hok
      exact ⟨hroom, hrange, hresolved⟩
  · obtain ⟨message, herror⟩ := resolveIds_noRoom htok hroom draws
    cases herror.symm.trans hok

omit htok in
/-- What both sides stand for, without "all", is a numeral of both. -/
theorem Resolved.shared {n : Nat} {values s t : List Nat}
    (h : Resolved n sources targets values s t) (hall : .str all ∉ sources ++ targets) {id : Nat}
    (hs : id ∈ s) (ht : id ∈ t) : id ∈ numerals sources ∧ id ∈ numerals targets := by
  have hnotNumeral : ∀ id ∈ values, id ∉ numerals sources ∧ id ∉ numerals targets := by
    intro id hid
    have := (h.fresh id hid).2.2
    rw [numerals_append, List.mem_append, not_or] at this
    exact this
  have halls : .str all ∉ sources := fun h => hall (List.mem_append_left _ h)
  have hallt : .str all ∉ targets := fun h => hall (List.mem_append_right _ h)
  obtain hs | hs | ⟨hs, -⟩ := (h.mem_sources id).mp hs <;>
    rcases (h.mem_targets id).mp ht with ht | ht | ⟨ht, -⟩
  · exact ⟨hs, ht⟩
  · exact absurd hs (hnotNumeral id (List.mem_of_mem_drop ht)).1
  · exact absurd ht hallt
  · exact absurd ht (hnotNumeral id (List.mem_of_mem_take hs)).2
  · have hnodup := h.nodup
    rw [← List.take_append_drop (rands sources) values] at hnodup
    exact absurd rfl ((List.nodup_append.mp hnodup).2.2 id hs id ht)
  · exact absurd ht hallt
  · exact absurd hs halls
  · exact absurd hs halls
  · exact absurd hs halls

omit htok in
theorem Resolved.disjoint {n : Nat} {values s t : List Nat}
    (h : Resolved n sources targets values s t) (hall : .str all ∉ sources ++ targets)
    (hnumerals : ∀ k ∈ numerals sources, k ∉ numerals targets) : ∀ id ∈ s, id ∉ t :=
  fun id hs ht => hnumerals id (h.shared hall hs ht).1 (h.shared hall hs ht).2

omit htok in
/-- As many values as nodes are all the nodes. -/
theorem Resolved.covers {n : Nat} {values s t : List Nat}
    (h : Resolved n sources targets values s t) (hrands : rands (sources ++ targets) = n) {id : Nat}
    (hid : 1 ≤ id ∧ id ≤ n) : id ∈ s ∨ id ∈ t := by
  have hmem : id ∈ values := mem_of_nodes h.nodup
    (fun x hx => ⟨(h.fresh x hx).1, (h.fresh x hx).2.1⟩) (h.length.trans hrands) hid
  rw [← List.take_append_drop (rands sources) values] at hmem
  exact (List.mem_append.mp hmem).imp (fun hs => (h.mem_sources id).mpr (.inr (.inl hs)))
    fun ht => (h.mem_targets id).mpr (.inr (.inl ht))

omit htok in
/-- With as many "rand" as nodes there is no room for a numeral. -/
theorem Room.numerals_eq_nil {n : Nat} (h : Room n sources targets)
    (hrands : rands (sources ++ targets) = n) : numerals (sources ++ targets) = [] := by
  have hle : (start sources targets).referredIds.length + rands (sources ++ targets) ≤ n := h
  have hnil : (start sources targets).referredIds = [] :=
    List.eq_nil_of_length_eq_zero (by omega)
  apply List.eq_nil_iff_forall_not_mem.mpr
  intro id hid
  have hmem := mem_start.mpr hid
  rw [hnil] at hmem
  cases hmem

omit htok in
/-- With as many "rand" as nodes, and no "all", the two sides are parts of the nodes. -/
theorem Resolved.partition {n : Nat} {values s t : List Nat}
    (h : Resolved n sources targets values s t) (hroom : Room n sources targets)
    (hall : .str all ∉ sources ++ targets) (hrands : rands (sources ++ targets) = n) :
    (∀ id, 1 ≤ id ∧ id ≤ n ↔ id ∈ s ∨ id ∈ t) ∧ ∀ id ∈ s, id ∉ t := by
  have hnumerals := hroom.numerals_eq_nil hrands
  rw [numerals_append, List.append_eq_nil_iff] at hnumerals
  obtain ⟨hsources, htargets⟩ := hnumerals
  refine ⟨fun id => ⟨h.covers hrands, fun hid => ?_⟩, h.disjoint hall fun k hk => ?_⟩
  · refine (h.fresh id ?_).imp_right fun h => h.1
    rw [List.mem_append, not_or] at hall
    rcases hid with hid | hid
    · rcases (h.mem_sources id).mp hid with hid | hid | hid
      · rw [hsources] at hid
        cases hid
      · exact List.mem_of_mem_take hid
      · exact absurd hid.1 hall.1
    · rcases (h.mem_targets id).mp hid with hid | hid | hid
      · rw [htargets] at hid
        cases hid
      · exact List.mem_of_mem_drop hid
      · exact absurd hid.1 hall.2
  · rw [hsources] at hk
    cases hk

end

/-! ## Top theorem -/

/-- **What "rand" resolves to**, once the guard is passed with the ids `referredIds` and `count`
values owed: `s` are the variables of the random loop after the draws. -/
structure RandFresh (u : CommandUnwrapper) (sources targets : List IdToken)
    (draws : List (Fin u.nodesNumber)) (s : Drawing) : Prop where
  /-- while values are owed the loop runs, and some draw makes progress -/
  running : u.resolveIds sources targets draws = none ↔ 0 < s.count
  progress : 0 < s.count → ∃ d : Fin u.nodesNumber, d.val + 1 ∉ s.referredIds ∧
    (s.turn d).count + 1 = s.count
  /-- some draws end the loop; then a numeral above the number of nodes raises, nothing else -/
  ends : ∃ draws' : List (Fin u.nodesNumber), (s.run draws').count = 0
  returns : s.count = 0 → ((∃ rSources rTargets,
      u.resolveIds sources targets draws = some (.ok (rSources, rTargets))) ↔
    ∀ k ∈ numerals (sources ++ targets), k ≤ u.nodesNumber)
  out_of_range : s.count = 0 → (∃ k ∈ numerals (sources ++ targets), u.nodesNumber < k) →
    ∃ message, u.resolveIds sources targets draws = some (.error (idError message))
  /-- one value is drawn for each "rand", and no pass finds the list of values empty -/
  drawn : s.count = 0 → s.randomValues.length = rands (sources ++ targets)
  never_pops : ∀ e, u.resolveIds sources targets draws ≠ some (.error (.other e))
  /-- the values replace the "rand" tokens of the two sides in order -/
  replaced : ∀ rSources rTargets,
    u.resolveIds sources targets draws = some (.ok (rSources, rTargets)) →
    Resolved u.nodesNumber sources targets s.randomValues rSources rTargets
  disjoint : ∀ rSources rTargets,
    u.resolveIds sources targets draws = some (.ok (rSources, rTargets)) →
    .str all ∉ sources ++ targets → (∀ k ∈ numerals sources, k ∉ numerals targets) →
    ∀ id ∈ rSources, id ∉ rTargets
  partition : ∀ rSources rTargets,
    u.resolveIds sources targets draws = some (.ok (rSources, rTargets)) →
    .str all ∉ sources ++ targets → rands (sources ++ targets) = u.nodesNumber →
    (∀ id, 1 ≤ id ∧ id ≤ u.nodesNumber ↔ id ∈ rSources ∨ id ∈ rTargets) ∧
    ∀ id ∈ rSources, id ∉ rTargets

theorem randFresh_start {u : CommandUnwrapper} {sources targets : List IdToken}
    (htok : ∀ id ∈ sources ++ targets, IsToken id) (hroom : Room u.nodesNumber sources targets)
    (draws : List (Fin u.nodesNumber)) :
    RandFresh u sources targets draws ((start sources targets).run draws) where
  running := by
    rcases resolveIds_cases htok hroom draws with
      ⟨hrun, h⟩ | ⟨hrun, -, message, h⟩ | ⟨hrun, -, s, t, h, -⟩
    · exact iff_of_true h hrun
    · exact iff_of_false (by rw [h]; exact fun h => nomatch h) (by omega)
    · exact iff_of_false (by rw [h]; exact fun h => nomatch h) (by omega)
  progress hcount := by
    obtain ⟨d, hd⟩ := ((fresh_start hroom).run draws).exists_draw hcount
    exact ⟨d, hd, turn_count hcount hd⟩
  ends := ((fresh_start hroom).run draws).exists_draws
  returns hrun := by
    constructor
    · rintro ⟨s, t, hok⟩
      exact (resolveIds_ok htok hok).2.1
    · intro hrange
      obtain ⟨s, t, hok, -⟩ := resolveIds_resolved htok hroom hrange hrun
      exact ⟨s, t, hok⟩
  out_of_range hrun hrange := resolveIds_outOfRange htok hroom hrange hrun
  drawn := length_values
  never_pops e he := by
    rcases resolveIds_cases htok hroom draws with
      ⟨-, h⟩ | ⟨-, -, message, h⟩ | ⟨-, -, s, t, h, -⟩ <;> cases h.symm.trans he
  replaced _ _ hok := (resolveIds_ok htok hok).2.2
  disjoint _ _ hok := (resolveIds_ok htok hok).2.2.disjoint
  partition _ _ hok := (resolveIds_ok htok hok).2.2.partition hroom

theorem rand_fresh {u : CommandUnwrapper} {sources targets : List IdToken}
    (htok : ∀ id ∈ sources ++ targets, IsToken id) {referredIds : List Nat} {count : Nat}
    (hreferred : referred (sources ++ targets) [] 0 = .ok (referredIds, count))
    (hguard : referredIds.length + count ≤ u.nodesNumber) (draws : List (Fin u.nodesNumber)) :
    RandFresh u sources targets draws (Drawing.run ⟨count, referredIds, []⟩ draws) := by
  rw [referred_eq htok, Nat.zero_add] at hreferred
  cases hreferred
  exact randFresh_start htok hguard draws

/-- "from rand to rand 3" on four nodes. -/
theorem rand_fresh_four : RandFresh ⟨4, false⟩ [.str rand] [.str rand, .str "3".toList] [2, 0, 0, 1]
    ⟨0, [3, 1, 2], [1, 2]⟩ :=
  @rand_fresh ⟨4, false⟩ [.str rand] [.str rand, .str "3".toList] (by decide) [3] 2 (by decide)
    (by decide) [2, 0, 0, 1]

end Executor.CommandUnwrapper
