import Krafters.Paxos.Appends
import Mathlib.Data.List.Perm.Subperm

/-!
# No update is invented or repeated

The values that go to the callback of a node are those of calls of `paxos_append`, one call for
each update:

    made.Subperm calls,  made.map value = updates.map value        (updates_appended)

A value is only ever proposed in the instance in which it was appended, and a node goes through
ever later instances, so no call can make two updates of one node.
-/

namespace Paxos

variable {U V : Type} [LinearOrder U]

/-! ## Lemmas -/

/-- The update of a node that a call makes: the one that ends the instance of the call. -/
def Call.Makes (call : Call U V) (x : Update V) : Prop :=
  call.instanceNumber + 1 = x.instanceNumber ∧ call.value = x.value

omit [LinearOrder U] in
/-- Updates of ever later instances, each made by a call, are made by calls of their own. -/
theorem exists_made {calls : List (Call U V)} {updates : List (Update V)}
    (hlater : updates.Pairwise fun x y => x.instanceNumber < y.instanceNumber)
    (hmade : ∀ x ∈ updates, ∃ call ∈ calls, call.Makes x) :
    ∃ made : List (Call U V), made.Subperm calls ∧
      made.map (·.instanceNumber + 1) = updates.map (·.instanceNumber) ∧
      made.map (·.value) = updates.map (·.value) := by
  obtain ⟨made, hsub, hinstance, hvalue⟩ : ∃ made : List (Call U V), made ⊆ calls ∧
      made.map (·.instanceNumber + 1) = updates.map (·.instanceNumber) ∧
      made.map (·.value) = updates.map (·.value) := by
    clear hlater
    induction updates with
    | nil => exact ⟨[], List.nil_subset _, rfl, rfl⟩
    | cons x updates ih =>
      obtain ⟨call, hmem, hinstance, hvalue⟩ := hmade x List.mem_cons_self
      obtain ⟨made, hsub, hinstances, hvalues⟩ :=
        ih fun y hy => hmade y (List.mem_cons_of_mem x hy)
      refine ⟨call :: made, List.cons_subset.mpr ⟨hmem, hsub⟩, ?_, ?_⟩
      · rw [List.map_cons, List.map_cons, hinstance, hinstances]
      · rw [List.map_cons, List.map_cons, hvalue, hvalues]
  have hnodup : (made.map (·.instanceNumber + 1)).Nodup := by
    rw [hinstance]
    exact (List.pairwise_map.mpr hlater).imp ne_of_lt
  exact ⟨made, hnodup.of_map.subperm hsub, hinstance, hvalue⟩

variable [DecidableEq V] {c : Cluster U V} {s : System U V} {calls : List (Call U V)} {u : U}

/-- A value adopted for an instance was appended in it. -/
theorem Cluster.Logged.made (h : c.Logged s calls) (hu : u ∈ c.ids) {x : Update V}
    (hx : x ∈ (s.nodes u).updates) : ∃ call ∈ calls, call.Makes x := by
  obtain ⟨-, -, -, hupdates⟩ := c.agreement h.reachable
  obtain ⟨k, v, hk, hv, p, Q, hQ, hsaid⟩ := (hupdates u hu).2 x hx
  -- any acceptor of the quorum will do
  obtain ⟨a, ha⟩ := hQ.meet hQ
  rw [Finset.inter_self] at ha
  have hsent : AcceptSent s.net k p v := h.reachable.inv.net.ok (hsaid a ha)
  obtain ⟨call, hmem, hinstance, hvalue⟩ := h.recorded.sent hsent
  exact ⟨call, hmem, by omega, hvalue.trans hv.symm⟩

/-! ## Top theorems -/

/-- **No update is invented or repeated**: each value that went to the callback of a node is that
of a call of its own, made on some node in the instance that it ended. -/
theorem Cluster.updates_appended (c : Cluster U V) {s : System U V} {calls : List (Call U V)}
    (h : c.Logged s calls) {u : U} (hu : u ∈ c.ids) : ∃ made : List (Call U V),
    made.Subperm calls ∧
    made.map (·.instanceNumber + 1) = (s.nodes u).updates.map (·.instanceNumber) ∧
    made.map (·.value) = (s.nodes u).updates.map (·.value) := by
  obtain ⟨-, -, -, hupdates⟩ := c.agreement h.reachable
  exact exists_made (hupdates u hu).1 fun x hx => h.made hu hx

/-- Node 1 leads with 7 in instance 0, then node 2 with 8 in instance 1. -/
def twoUpdates : System ℕ ℕ × List (Call ℕ ℕ) := threeNodes.record (threeNodes.initial, [])
  [.append 1 (some 7), .deliver 0, .deliver 1, .deliver 3, .deliver 4, .deliver 5, .deliver 6,
    .deliver 8, .deliver 11, .deliver 9, .deliver 12,
    .append 2 (some 8), .deliver 14, .deliver 15, .deliver 17, .deliver 18, .deliver 19,
    .deliver 20, .deliver 23, .deliver 26]

theorem updates_appended_two :
    (twoUpdates.1.nodes 2).updates.map (·.value) = [some 7, some 8] ∧
    ∃ made : List (Call ℕ ℕ), made.Subperm twoUpdates.2 ∧
      made.map (·.instanceNumber + 1) = (twoUpdates.1.nodes 2).updates.map (·.instanceNumber) ∧
      made.map (·.value) = (twoUpdates.1.nodes 2).updates.map (·.value) := by
  have h : threeNodes.Logged twoUpdates.1 twoUpdates.2 := Cluster.Logged.initial.record _
  have hmem : 2 ∈ threeNodes.ids := by decide
  have hvalues : (twoUpdates.1.nodes 2).updates.map (·.value) = [some 7, some 8] := by
    decide +kernel
  exact ⟨hvalues, threeNodes.updates_appended h hmem⟩

end Paxos
