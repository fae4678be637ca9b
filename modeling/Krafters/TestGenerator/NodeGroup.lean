import Krafters.TestGenerator.Test
import Mathlib.Data.List.Basic

/-!
# test_generator.NodeGroup: the list of the class and the lists of the objects

`nodes = []` in the class body is one list for all groups.  A group constructed with nodes has
an attribute of its own; one constructed empty has none, and `add` appends to the list of the
class.  `Follows` says what a run leaves in the store:

    a group constructed with nodes:  these nodes and what was added to the group
    a group constructed empty:       what was added to any of these groups

The groups are independent if at most one of them was constructed empty, and else only as long
as the list of the class has an empty text.
-/

namespace TestGenerator

open Py

variable {ν : Type}

/-! ## Algorithm -/

/-- What a program does with groups, which are numbered as they are constructed: `NodeGroup()` or
`NodeGroup(nodes)` with a new list, and `group.add(node)`. -/
inductive GroupCall (ν : Type)
  | construct (nodes : List ν)
  | add (group : ℕ) (node : ν)
deriving DecidableEq, Repr

/-- `NodeGroup.nodes`, and the attribute `nodes` of every object that has one. -/
structure GroupStore (ν : Type) where
  classNodes : List ν := []
  objects : List (Option (List ν)) := []
deriving DecidableEq, Repr

/-- `__str__` of a group with these nodes. -/
def groupText (str : ν → Text) (nodes : List ν) : Text :=
  let result := nodes.foldl (fun result node => result ++ (str node ++ " ".toList)) []
  if 0 < result.length then result.dropLast else result

namespace GroupStore

/-- `self.nodes` is assigned only `if nodes`. -/
def construct (s : GroupStore ν) (nodes : List ν) : GroupStore ν :=
  { s with objects := s.objects ++ [if nodes.isEmpty then none else some nodes] }

/-- `self.nodes.append(node)`; there is no object if the program has not constructed it. -/
def add (s : GroupStore ν) (group : ℕ) (node : ν) : Option (GroupStore ν) :=
  s.objects[group]?.map fun own =>
    match own with
    | none => { s with classNodes := s.classNodes ++ [node] }
    | some nodes => { s with objects := s.objects.set group (some (nodes ++ [node])) }

def step (s : GroupStore ν) : GroupCall ν → Option (GroupStore ν)
  | .construct nodes => some (s.construct nodes)
  | .add group node => s.add group node

def run (calls : List (GroupCall ν)) : Option (GroupStore ν) := calls.foldlM step {}

/-- `str(group)` -/
def text (str : ν → Text) (s : GroupStore ν) (group : ℕ) : Option Text :=
  s.objects[group]?.map fun own => groupText str (own.getD s.classNodes)

end GroupStore

/-! ## Specification -/

section Calls

variable (calls : List (GroupCall ν))

/-- The nodes that the groups were constructed with. -/
def constructed : List (List ν) :=
  calls.filterMap fun call =>
    match call with
    | .construct nodes => some nodes
    | .add .. => none

def adds : List (ℕ × ν) :=
  calls.filterMap fun call =>
    match call with
    | .construct _ => none
    | .add group node => some (group, node)

/-- The nodes added to a group. -/
def addedTo (group : ℕ) : List ν := ((adds calls).filter (·.1 = group)).map Prod.snd

/-- The text that a group is expected to have. -/
def expected (str : ν → Text) (group : ℕ) : Option Text :=
  (constructed calls)[group]?.map fun nodes => groupText str (nodes ++ addedTo calls group)

def isEmptyGroup (group : ℕ) : Bool := (constructed calls)[group]?.any List.isEmpty

/-- The nodes added to groups that were constructed empty. -/
def addedToEmpty : List ν := ((adds calls).filter fun p => isEmptyGroup calls p.1).map Prod.snd

/-- In every state of the run, each group (also one constructed after additions to others) has the
text of the nodes it was constructed with and of those added to it, and an addition leaves the
texts of the other groups as they are. -/
structure Independent (str : ν → Text) : Prop where
  texts : ∀ before, before <+: calls → ∀ s, GroupStore.run before = some s →
    ∀ group, s.text str group = expected before str group
  frame : ∀ before group node, before ++ [.add group node] <+: calls →
    ∀ s s', GroupStore.run before = some s → s.add group node = some s' →
      ∀ other, other ≠ group → s'.text str other = s.text str other

end Calls

/-! ## Lemmas: calls -/

section Calls

variable {calls : List (GroupCall ν)}

theorem constructed_construct (nodes : List ν) :
    constructed (calls ++ [.construct nodes]) = constructed calls ++ [nodes] := by
  unfold constructed
  rw [List.filterMap_append]
  rfl

theorem constructed_add (group : ℕ) (node : ν) :
    constructed (calls ++ [.add group node]) = constructed calls := by
  unfold constructed
  rw [List.filterMap_append]
  exact List.append_nil _

theorem adds_construct (nodes : List ν) : adds (calls ++ [.construct nodes]) = adds calls := by
  unfold adds
  rw [List.filterMap_append]
  exact List.append_nil _

theorem adds_add (group : ℕ) (node : ν) :
    adds (calls ++ [.add group node]) = adds calls ++ [(group, node)] := by
  unfold adds
  rw [List.filterMap_append]
  rfl

theorem addedTo_construct (nodes : List ν) (group : ℕ) :
    addedTo (calls ++ [.construct nodes]) group = addedTo calls group := by
  unfold addedTo
  rw [adds_construct]

theorem addedTo_add_self (group : ℕ) (node : ν) :
    addedTo (calls ++ [.add group node]) group = addedTo calls group ++ [node] := by
  unfold addedTo
  rw [adds_add, List.filter_append, List.map_append, List.filter_cons_of_pos (by simp)]
  rfl

theorem addedTo_add_other {group other : ℕ} (h : other ≠ group) (node : ν) :
    addedTo (calls ++ [.add group node]) other = addedTo calls other := by
  have hnone : [(group, node)].filter (fun p => p.1 = other) = [] := by
    simpa using Ne.symm h
  unfold addedTo
  rw [adds_add, List.filter_append, hnone, List.append_nil]

theorem isEmptyGroup_add (group : ℕ) (node : ν) :
    isEmptyGroup (calls ++ [.add group node]) = isEmptyGroup calls := by
  funext other
  unfold isEmptyGroup
  rw [constructed_add]

theorem isEmptyGroup_construct (nodes : List ν) {group : ℕ}
    (h : group < (constructed calls).length) :
    isEmptyGroup (calls ++ [.construct nodes]) group = isEmptyGroup calls group := by
  unfold isEmptyGroup
  rw [constructed_construct, List.getElem?_append_left h]

theorem isEmptyGroup_eq {group : ℕ} {nodes : List ν}
    (h : (constructed calls)[group]? = some nodes) : isEmptyGroup calls group = nodes.isEmpty := by
  unfold isEmptyGroup
  rw [h]
  rfl

theorem addedToEmpty_add (group : ℕ) (node : ν) : addedToEmpty (calls ++ [.add group node]) =
    addedToEmpty calls ++ if isEmptyGroup calls group then [node] else [] := by
  unfold addedToEmpty
  rw [isEmptyGroup_add, adds_add, List.filter_append, List.map_append]
  congr 1
  cases h : isEmptyGroup calls group with
  | true =>
    rw [List.filter_cons_of_pos (by simpa using h)]
    rfl
  | false =>
    rw [List.filter_cons_of_neg (by simpa using h)]
    rfl

/-! ## Lemmas: the store follows the calls -/

/-- What is in the store after the calls. -/
structure Follows (calls : List (GroupCall ν)) (s : GroupStore ν) : Prop where
  bound : ∀ p ∈ adds calls, p.1 < (constructed calls).length
  objects : ∀ group, s.objects[group]? = (constructed calls)[group]?.map fun nodes =>
    if nodes.isEmpty then none else some (nodes ++ addedTo calls group)
  classNodes : s.classNodes = addedToEmpty calls

namespace Follows

variable {s s' : GroupStore ν} (h : Follows calls s)

include h

theorem length : s.objects.length = (constructed calls).length := by
  have hnone : ∀ group, s.objects.length ≤ group ↔ (constructed calls).length ≤ group := by
    intro group
    rw [← List.getElem?_eq_none_iff, ← List.getElem?_eq_none_iff, h.objects, Option.map_eq_none_iff]
  exact le_antisymm ((hnone _).mpr le_rfl) ((hnone _).mp le_rfl)

theorem construct (nodes : List ν) : Follows (calls ++ [.construct nodes]) (s.construct nodes) where
  bound p hp := by
    rw [adds_construct] at hp
    rw [constructed_construct, List.length_append, List.length_singleton]
    exact Nat.lt_succ_of_lt (h.bound p hp)
  objects group := by
    rw [constructed_construct, addedTo_construct]
    show (s.objects ++ [_])[group]? = _
    have hlength := h.length
    by_cases hlt : group < (constructed calls).length
    · rw [List.getElem?_append_left hlt, List.getElem?_append_left (by omega), h.objects]
    · rw [List.getElem?_append_right (by omega), List.getElem?_append_right (by omega), hlength]
      -- nothing was added to the new group yet
      have hnone : addedTo calls group = [] := by
        unfold addedTo
        rw [List.filter_eq_nil_iff.mpr, List.map_nil]
        intro p hp
        have := h.bound p hp
        simpa using (by omega : p.1 ≠ group)
      rw [hnone]
      cases group - (constructed calls).length with
      | zero => simp
      | succ k => rfl
  classNodes := by
    show s.classNodes = _
    rw [h.classNodes]
    unfold addedToEmpty
    rw [adds_construct]
    congr 1
    exact List.filter_congr fun p hp => (isEmptyGroup_construct nodes (h.bound p hp)).symm

theorem add {group : ℕ} {node : ν} (hadd : s.add group node = some s') :
    Follows (calls ++ [.add group node]) s' := by
  obtain ⟨own, hown, rfl⟩ := Option.map_eq_some_iff.mp hadd
  have hobject := h.objects group
  rw [hown] at hobject
  obtain ⟨nodes, hnodes, hcase⟩ := Option.map_eq_some_iff.mp hobject.symm
  have hempty := isEmptyGroup_eq hnodes
  have hlt : group < (constructed calls).length := (List.getElem?_eq_some_iff.mp hnodes).1
  have hbound : ∀ p ∈ adds (calls ++ [.add group node]),
      p.1 < (constructed (calls ++ [.add group node])).length := by
    intro p hp
    rw [constructed_add]
    rw [adds_add] at hp
    rcases List.mem_append.mp hp with hp | hp
    · exact h.bound p hp
    · obtain rfl := List.mem_singleton.mp hp
      exact hlt
  cases hnil : nodes.isEmpty with
  | true =>
    rw [hnil, if_pos rfl] at hcase
    subst hcase
    refine ⟨hbound, fun other => ?_, ?_⟩
    · rw [constructed_add]
      by_cases hother : other = group
      · subst hother
        rw [hnodes, Option.map_some, if_pos hnil]
        exact hown
      · rw [addedTo_add_other hother]
        exact h.objects other
    · rw [addedToEmpty_add, hempty, hnil, if_pos rfl, ← h.classNodes]
  | false =>
    rw [hnil, if_neg Bool.false_ne_true] at hcase
    subst hcase
    refine ⟨hbound, fun other => ?_, ?_⟩
    · rw [constructed_add]
      show (s.objects.set group _)[other]? = _
      by_cases hother : other = group
      · subst hother
        rw [List.getElem?_set_self (by rw [h.length]; exact hlt), hnodes, Option.map_some,
          if_neg (by rw [hnil]; exact Bool.false_ne_true), addedTo_add_self, List.append_assoc]
      · rw [List.getElem?_set_ne (Ne.symm hother), addedTo_add_other hother]
        exact h.objects other
    · rw [addedToEmpty_add, hempty, hnil, if_neg Bool.false_ne_true, List.append_nil]
      exact h.classNodes

theorem text (str : ν → Text) (group : ℕ) : s.text str group =
    (constructed calls)[group]?.map fun nodes =>
      groupText str (if nodes.isEmpty then addedToEmpty calls else nodes ++ addedTo calls group) := by
  unfold GroupStore.text
  rw [h.objects, Option.map_map, h.classNodes]
  congr 1
  funext nodes
  show groupText str (Option.getD (if _ then _ else _) _) = _
  split <;> rfl

end Follows

theorem run_append (calls : List (GroupCall ν)) (call : GroupCall ν) :
    GroupStore.run (calls ++ [call]) = (GroupStore.run calls).bind fun s => s.step call := by
  unfold GroupStore.run
  rw [List.foldlM_append]
  cases calls.foldlM GroupStore.step ({} : GroupStore ν) with
  | none => rfl
  | some s => cases h : s.step call <;> simp [h]

/-- **Every run** leaves a store that follows its calls. -/
theorem follows_run {s : GroupStore ν} (h : GroupStore.run calls = some s) : Follows calls s := by
  induction calls using List.reverseRecOn generalizing s with
  | nil =>
    cases h
    exact ⟨(fun p hp => nomatch hp), fun _ => rfl, rfl⟩
  | append_singleton calls call ih =>
    rw [run_append] at h
    obtain ⟨s₀, h₀, hstep⟩ := Option.bind_eq_some_iff.mp h
    cases call with
    | construct nodes =>
      cases hstep
      exact (ih h₀).construct nodes
    | add group node => exact (ih h₀).add hstep

/-! ## Lemmas: texts -/

section Text

variable (str : ν → Text)

/-- The letters of the nodes, with a blank behind each. -/
def weight : List ν → ℕ
  | [] => 0
  | node :: nodes => (str node).length + 1 + weight nodes

theorem length_foldl (nodes : List ν) (result : Text) :
    (nodes.foldl (fun result node => result ++ (str node ++ " ".toList)) result).length =
      result.length + weight str nodes := by
  induction nodes generalizing result with
  | nil => rfl
  | cons node nodes ih =>
    have hblank : " ".toList.length = 1 := by decide
    rw [List.foldl_cons, ih, List.length_append, List.length_append, hblank, weight]
    omega

theorem length_groupText (nodes : List ν) :
    (groupText str nodes).length = weight str nodes - 1 := by
  have hlength := length_foldl str nodes []
  rw [List.length_nil, Nat.zero_add] at hlength
  unfold groupText
  dsimp only
  split
  · rw [List.length_dropLast, hlength]
  · omega

theorem weight_sublist {part whole : List ν} (h : part.Sublist whole) :
    weight str part + whole.length ≤ weight str whole + part.length := by
  induction h with
  | slnil => exact le_rfl
  | cons node _ ih =>
    rw [weight, List.length_cons]
    omega
  | cons_cons node _ ih =>
    rw [weight, weight, List.length_cons, List.length_cons]
    omega

/-- A part of a list has the text of the list only if it is the list, or there is no text. -/
theorem eq_of_groupText {part whole : List ν} (h : part.Sublist whole)
    (htext : groupText str whole = groupText str part) (hne : groupText str whole ≠ []) :
    part = whole := by
  have hlength := congrArg List.length htext
  have hpos := List.length_pos_iff.mpr hne
  rw [length_groupText, length_groupText] at hlength
  rw [length_groupText] at hpos
  have hweight := weight_sublist str h
  exact h.eq_of_length_le (by omega)

theorem groupText_nil_of_sublist {part whole : List ν} (h : part.Sublist whole)
    (hnil : groupText str whole = []) : groupText str part = [] := by
  have hlength := congrArg List.length hnil
  have hweight := weight_sublist str h
  have hlonger := h.length_le
  rw [length_groupText, List.length_nil] at hlength
  apply List.length_eq_zero_iff.mp
  rw [length_groupText]
  omega

end Text

/-! ## Top theorem -/

/-- The group was constructed with no nodes. -/
def EmptyGroup (calls : List (GroupCall ν)) (group : ℕ) : Prop :=
  (constructed calls)[group]? = some []

/-- At most one group was constructed empty, or the nodes added to such groups have no text. -/
def Apart (str : ν → Text) (calls : List (GroupCall ν)) : Prop :=
  (∀ group other, EmptyGroup calls group → EmptyGroup calls other → group = other) ∨
    groupText str (addedToEmpty calls) = []

theorem isEmptyGroup_iff {group : ℕ} :
    isEmptyGroup calls group = true ↔ EmptyGroup calls group := by
  unfold isEmptyGroup EmptyGroup
  cases (constructed calls)[group]? with
  | none => exact iff_of_false Bool.false_ne_true fun h => nomatch h
  | some nodes =>
    rw [Option.any_some, List.isEmpty_iff, Option.some.injEq]

theorem filter_sublist {group : ℕ} (h : EmptyGroup calls group) :
    ((adds calls).filter (·.1 = group)).Sublist
      ((adds calls).filter fun p => isEmptyGroup calls p.1) := by
  apply List.monotone_filter_right
  intro p hp
  have heq : p.1 = group := by simpa using hp
  rw [heq]
  exact isEmptyGroup_iff.mpr h

theorem addedTo_sublist {group : ℕ} (h : EmptyGroup calls group) :
    (addedTo calls group).Sublist (addedToEmpty calls) := (filter_sublist h).map _

/-- If one group got all that was added to the empty ones, nothing was added to another. -/
theorem eq_of_addedTo {group : ℕ} (h : EmptyGroup calls group)
    (heq : addedTo calls group = addedToEmpty calls) {p : ℕ × ν} (hp : p ∈ adds calls)
    (hempty : isEmptyGroup calls p.1 = true) : p.1 = group := by
  have hlength := congrArg List.length heq
  unfold addedTo addedToEmpty at hlength
  rw [List.length_map, List.length_map] at hlength
  have hmem : p ∈ (adds calls).filter fun p => isEmptyGroup calls p.1 :=
    List.mem_filter.mpr ⟨hp, hempty⟩
  rw [← (filter_sublist h).eq_of_length hlength] at hmem
  exact of_decide_eq_true (List.mem_filter.mp hmem).2

theorem addedToEmpty_eq {group : ℕ} (h : EmptyGroup calls group)
    (hone : ∀ other, EmptyGroup calls other → other = group) :
    addedToEmpty calls = addedTo calls group := by
  unfold addedToEmpty addedTo
  congr 1
  apply List.filter_congr
  intro p _
  by_cases heq : p.1 = group
  · rw [heq, isEmptyGroup_iff.mpr h]
    exact (decide_eq_true rfl).symm
  · rw [decide_eq_false heq, ← Bool.not_eq_true, isEmptyGroup_iff]
    exact fun hempty => heq (hone _ hempty)

/-- **The texts of one state** are as expected exactly if the groups are kept apart. -/
theorem texts_iff (str : ν → Text) {s : GroupStore ν} (h : GroupStore.run calls = some s) :
    (∀ group, s.text str group = expected calls str group) ↔ Apart str calls := by
  have hfollows := follows_run h
  have hgroup : ∀ group, s.text str group = expected calls str group ↔
      (EmptyGroup calls group →
        groupText str (addedToEmpty calls) = groupText str (addedTo calls group)) := by
    intro group
    rw [hfollows.text]
    unfold expected EmptyGroup
    cases (constructed calls)[group]? with
    | none => exact iff_of_true rfl fun h => nomatch h
    | some nodes =>
      cases nodes with
      | nil => simp
      | cons node nodes => exact iff_of_true rfl fun h => nomatch h
  simp only [hgroup]
  constructor
  · intro htexts
    by_cases hnil : groupText str (addedToEmpty calls) = []
    · exact .inr hnil
    left
    intro group other hg ho
    -- all that was added to the empty groups was added to each of them
    have hall : ∀ group, EmptyGroup calls group → addedTo calls group = addedToEmpty calls :=
      fun group hg => eq_of_groupText str (addedTo_sublist hg) (htexts group hg) hnil
    have hadded : addedToEmpty calls ≠ [] := by
      intro hempty
      rw [hempty] at hnil
      exact hnil rfl
    obtain ⟨p, hp⟩ := List.exists_mem_of_ne_nil _ fun h => hadded (List.map_eq_nil_iff.mpr h)
    obtain ⟨hadd, hempty⟩ := List.mem_filter.mp hp
    exact (eq_of_addedTo hg (hall group hg) hadd hempty).symm.trans
      (eq_of_addedTo ho (hall other ho) hadd hempty)
  · rintro (hone | hnil) group hg
    · rw [addedToEmpty_eq hg fun other ho => hone other group ho hg]
    · rw [hnil, groupText_nil_of_sublist str (addedTo_sublist hg) hnil]

/-- The groups of a part of a run are kept apart too. -/
theorem Apart.before {str : ν → Text} (h : Apart str calls) {before : List (GroupCall ν)}
    (hbefore : before <+: calls) {s : GroupStore ν} (hrun : GroupStore.run before = some s) :
    Apart str before := by
  have hconstructed : constructed before <+: constructed calls := hbefore.filterMap _
  have hgroup : ∀ group < (constructed before).length,
      (constructed calls)[group]? = (constructed before)[group]? := by
    intro group hlt
    obtain ⟨more, hmore⟩ := hconstructed
    rw [← hmore, List.getElem?_append_left hlt]
  rcases h with hone | hnil
  · have hempty : ∀ group, EmptyGroup before group → EmptyGroup calls group := by
      intro group hg
      exact (hgroup group (List.getElem?_eq_some_iff.mp hg).1).trans hg
    exact .inl fun group other hg ho => hone group other (hempty group hg) (hempty other ho)
  · refine .inr (groupText_nil_of_sublist str ?_ hnil)
    unfold addedToEmpty
    have hadds : adds before <+: adds calls := hbefore.filterMap _
    have hfilter : (adds before).filter (fun p => isEmptyGroup before p.1) =
        (adds before).filter fun p => isEmptyGroup calls p.1 := by
      apply List.filter_congr
      intro p hp
      unfold isEmptyGroup
      rw [hgroup p.1 ((follows_run hrun).bound p hp)]
    rw [hfilter]
    exact (hadds.sublist.filter _).map _

theorem expected_add_other (str : ν → Text) {group other : ℕ} (h : other ≠ group) (node : ν) :
    expected (calls ++ [.add group node]) str other = expected calls str other := by
  unfold expected
  rw [constructed_add, addedTo_add_other h]

/-- **Node groups are independent** in every state of a run exactly if at most one of them was
constructed empty, or what was added to such groups has no text. -/
theorem independent_iff (str : ν → Text) {s : GroupStore ν} (h : GroupStore.run calls = some s) :
    Independent calls str ↔ Apart str calls := by
  constructor
  · exact fun hindependent => (texts_iff str h).mp (hindependent.texts calls List.prefix_rfl s h)
  · intro hapart
    have htexts : ∀ before, before <+: calls → ∀ s, GroupStore.run before = some s →
        ∀ group, s.text str group = expected before str group :=
      fun before hbefore s hs => (texts_iff str hs).mpr (hapart.before hbefore hs)
    refine ⟨htexts, fun before group node hbefore s s' hs hadd other hother => ?_⟩
    have hs' : GroupStore.run (before ++ [.add group node]) = some s' := by
      rw [run_append, hs]
      exact hadd
    rw [htexts _ hbefore s' hs', expected_add_other str hother,
      htexts before ((List.prefix_append _ _).trans hbefore) s hs]

end Calls

/-- A group with nodes and an empty one, and a node added to each. -/
theorem independent_two : Independent [.construct [1], .construct [], .add 1 2, .add 0 3] natText :=
  (independent_iff natText rfl).mpr (.inl (by
    have hempty : ∀ group, EmptyGroup [.construct [1], .construct [], .add 1 2, .add 0 3] group →
        group = 1 := by
      intro group h
      rcases group with _ | _ | group
      · cases h
      · rfl
      · cases h
    exact fun group other hg ho => (hempty group hg).trans (hempty other ho).symm))

/-- What is added to one empty group is in the text of the other. -/
theorem not_independent : ∃ s : GroupStore ℕ,
    GroupStore.run [.construct [], .construct [], .add 0 2] = some s ∧
    s.text natText 1 = some "2".toList ∧
    ¬ Independent [.construct [], .construct [], .add 0 2] natText := by
  refine ⟨_, rfl, by decide, fun h => ?_⟩
  have htext := h.texts _ List.prefix_rfl _ rfl 1
  revert htext
  decide

end TestGenerator
