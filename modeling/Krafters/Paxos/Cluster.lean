import Krafters.Paxos.Handlers
import Mathlib.Data.Finset.Dedup
import Mathlib.Logic.Relation

/-!
# A cluster of replicated values: agreement on the multi-paxos chain

A system is the nodes and every datagram sent so far.  A step is one event of one node;
a datagram may be delivered at any time after it was sent, never, or many times, and any
write may raise.  `Reachable.inv` is the invariant of every run, `Cluster.agreement` what
follows for the values that the nodes adopt.
-/

namespace Paxos

open Hoare

variable {U V : Type} [LinearOrder U] [DecidableEq V]

/-! ## Algorithm -/

structure Cluster (U V : Type) where
  ids : Finset U
  peers : U → List U
  nodup : ∀ u ∈ ids, (peers u).Nodup
  /-- the peers of a node are all nodes, itself included -/
  mem_peers : ∀ u ∈ ids, ∀ w, w ∈ peers u ↔ w ∈ ids

structure System (U V : Type) where
  nodes : U → ReplicatedValue U V
  net : Net U V

namespace Cluster

variable (c : Cluster U V)

def initial : System U V := ⟨fun u => .fresh u (c.peers u), []⟩

/-- The system after an event of node `u`, with callbacks that return normally. -/
def after (s : System U V) (u : U) (e : Event U V) (writes : List Bool) : System U V :=
  let r := (s.nodes u).step e writes false
  ⟨Function.update s.nodes u r.node, r.network s.net u⟩

/-- Only datagrams that were sent to the node arrive. -/
def Enabled (s : System U V) (u : U) : Event U V → Prop
  | .datagram fromUid m => ⟨fromUid, u, m⟩ ∈ s.net
  | _ => True

inductive Step : System U V → System U V → Prop
  | event {s : System U V} {u : U} {e : Event U V} (writes : List Bool) (hu : u ∈ c.ids)
      (he : Enabled s u e) : Step s (after s u e writes)

def Reachable (s : System U V) : Prop := Relation.ReflTransGen c.Step c.initial s

/-- A step by choice of an event: the datagram sent as number `k`, or one of a node's own. -/
inductive Move (U V : Type)
  | deliver (k : ℕ)
  | append (u : U) (value : Option V)
  | retransmit (u : U)
  | drive (u : U)
  | sync (u peer : U)

def move (s : System U V) : Move U V → Option (U × Event U V)
  | .deliver k => s.net[k]?.map fun p => (p.toUid, .datagram p.fromUid p.message)
  | .append u value => some (u, .append value)
  | .retransmit u => some (u, .retransmit)
  | .drive u => some (u, .drive)
  | .sync u peer => some (u, .sync peer)

/-- A run in which every write works; moves that are not there are skipped. -/
def play (s : System U V) (l : List (Move U V)) : System U V :=
  l.foldl (fun s m => match move s m with
    | some (u, e) => if u ∈ c.ids then after s u e [] else s
    | none => s) s

end Cluster

/-! ## Lemmas -/

variable {c : Cluster U V} {s : System U V}

omit [DecidableEq V] in
theorem Cluster.peers_length {u : U} (hu : u ∈ c.ids) : (c.peers u).length = c.ids.card := by
  have hset : (c.peers u).toFinset = c.ids := by
    ext w
    rw [List.mem_toFinset, c.mem_peers u hu]
  rw [← hset, List.toFinset_card_of_nodup (c.nodup u hu)]

omit [LinearOrder U] [DecidableEq V] in
theorem Cluster.enabled_of_move {u : U} {e : Event U V} {m : Move U V}
    (h : move s m = some (u, e)) : Enabled s u e := by
  cases m with
  | deliver k =>
    obtain ⟨p, hp, hpe⟩ := Option.map_eq_some_iff.mp h
    cases hpe
    exact List.mem_of_getElem? hp
  | _ =>
    cases h
    trivial

theorem Cluster.Reachable.play (hs : c.Reachable s) (l : List (Move U V)) :
    c.Reachable (c.play s l) := by
  induction l generalizing s with
  | nil => exact hs
  | cons m l ih =>
    apply ih
    dsimp only
    split
    · next u e hm =>
      split
      · next hu => exact hs.tail (.event [] hu (enabled_of_move hm))
      · exact hs
    · exact hs

/-- The invariant of a run. -/
structure System.Inv (ids : Finset U) (s : System U V) : Prop where
  net : NetInv ids s.net
  node : ∀ u ∈ ids, NodeInv ids s.net u (s.nodes u) ∧ Idle (s.nodes u)

omit [DecidableEq V] in
theorem Cluster.inv_initial : c.initial.Inv c.ids := by
  have hno : ∀ {w : U} {m : Message U V}, ¬ Says ([] : Net U V) w m := by
    rintro w m ⟨toUid, h⟩
    cases h
  refine ⟨⟨fun h => absurd h hno, fun h => absurd h hno, fun h => absurd h hno,
    fun h => absurd h hno⟩, fun u hu => ⟨?_, ?_, rfl⟩⟩
  · have hq : (c.peers u).length / 2 + 1 = c.ids.card / 2 + 1 := by rw [Cluster.peers_length hu]
    refine ⟨hu, rfl, Cluster.peers_length hu, fun h => absurd h hno, ?_, .init fun h => absurd h hno,
      ?_, ?_, List.Pairwise.nil, ?_⟩
    · show ProposerInv c.ids [] u 0 (.init u ((c.peers u).length / 2 + 1))
      rw [hq]
      exact .init fun h => absurd h hno
    · show LearnerInv c.ids [] 0 (.init u ((c.peers u).length / 2 + 1))
      rw [hq]
      exact .init u 0
    · intro k hk
      cases hk
    · intro x hx
      cases hx
  · rintro p v ⟨⟩

omit [LinearOrder U] [DecidableEq V] in
theorem says_network {base : Net U V} {u w : U} {r : Run U V} {m : Message U V}
    (h : Says (r.network base u) w m) : Says base w m ∨ w = u := by
  obtain ⟨toUid, hmem⟩ := h
  rcases List.mem_append.mp hmem with hmem | hmem
  · exact .inl ⟨toUid, hmem⟩
  · obtain ⟨s, -, hs⟩ := List.mem_map.mp hmem
    exact .inr (congrArg Packet.fromUid hs).symm

theorem System.Inv.step (h : s.Inv c.ids) {s' : System U V} (hstep : c.Step s s') :
    s'.Inv c.ids := by
  obtain ⟨writes, hu, he⟩ := hstep
  next u e =>
  have hsent : e.Sent s.net := by
    cases e with
    | datagram fromUid m => exact ⟨u, he⟩
    | _ => trivial
  have hsettled : Settled c.ids u s.net ((s.nodes u).step e writes false) := by
    have hstart : Settled c.ids u s.net ⟨s.nodes u, [], writes, false⟩ :=
      ⟨⟨by simpa [Run.network] using h.net, by simpa [Run.network] using (h.node u hu).1, rfl⟩,
        (h.node u hu).2⟩
    exact step_settled hsent hstart
  refine ⟨hsettled.net, fun w hw => ?_⟩
  by_cases hwu : w = u
  · subst hwu
    simp only [Cluster.after, Function.update_self]
    exact ⟨hsettled.node, hsettled.idle⟩
  · simp only [Cluster.after, Function.update_of_ne hwu]
    refine ⟨(h.node w hw).1.grow (List.subset_append_left _ _) fun hm => .inl ?_, (h.node w hw).2⟩
    exact (says_network hm).resolve_right hwu

theorem Cluster.Reachable.inv (hs : c.Reachable s) : s.Inv c.ids := by
  induction hs with
  | refl => exact c.inv_initial
  | tail _ hstep ih => exact ih.step hstep

/-! ## Top theorems -/

/-- **Agreement on the chain.**  In every reachable state at most one value is decided in an
instance; nodes that resolved one instance by themselves adopted one value for it; the current
value of a node is the one decided in the instance before; and the values given to the callback
are those of ever later instances of this chain. -/
theorem Cluster.agreement (c : Cluster U V) {s : System U V} (hs : c.Reachable s) :
    (∀ i v v', Decided c.ids s.net i v → Decided c.ids s.net i v' → v = v') ∧
    (∀ u ∈ c.ids, ∀ w ∈ c.ids, ∀ x ∈ (s.nodes u).updates, ∀ y ∈ (s.nodes w).updates,
      x.catchup = false → y.catchup = false → x.instanceNumber = y.instanceNumber →
      x.value = y.value) ∧
    (∀ u ∈ c.ids, ∀ k, (s.nodes u).instanceNumber = k + 1 →
      ∃ v, (s.nodes u).currentValue = some v ∧ Decided c.ids s.net k v) ∧
    ∀ u ∈ c.ids,
      ((s.nodes u).updates.Pairwise fun x y => x.instanceNumber < y.instanceNumber) ∧
      ∀ x ∈ (s.nodes u).updates, ∃ k v,
        x.instanceNumber = k + 1 ∧ x.value = some v ∧ Decided c.ids s.net k v := by
  have hinv := hs.inv
  have adopted : ∀ u ∈ c.ids, ∀ x ∈ (s.nodes u).updates, ∃ k v,
      x.instanceNumber = k + 1 ∧ x.value = some v ∧ Decided c.ids s.net k v := by
    intro u hu x hx
    obtain ⟨hpos, -, hheld⟩ := (hinv.node u hu).1.update x hx
    obtain ⟨k, hk⟩ : ∃ k, x.instanceNumber = k + 1 := ⟨x.instanceNumber - 1, by omega⟩
    obtain ⟨v, hv, hd⟩ := hheld k hk
    exact ⟨k, v, hk, hv, hd⟩
  refine ⟨fun i v v' hv hv' => hinv.net.decided_unique hv hv', ?_, ?_, ?_⟩
  · intro u hu w hw x hx y hy _ _ hxy
    obtain ⟨k, v, hk, hv, hd⟩ := adopted u hu x hx
    obtain ⟨k', v', hk', hv', hd'⟩ := adopted w hw y hy
    obtain rfl : k = k' := by omega
    rw [hv, hv', hinv.net.decided_unique hd hd']
  · intro u hu k hk
    exact (hinv.node u hu).1.held k hk
  · exact fun u hu => ⟨(hinv.node u hu).1.updates, adopted u hu⟩

def threeNodes : Cluster ℕ ℕ where
  ids := {1, 2, 3}
  peers := fun _ => [1, 2, 3]
  nodup := by decide
  mem_peers := by simp

/-- Node 1 drives instance 0; nodes 1 and 2 resolve it, node 3 catches up. -/
def resolved : System ℕ ℕ := threeNodes.play threeNodes.initial
  [.append 1 (some 7), .deliver 0, .deliver 1, .deliver 3, .deliver 4, .deliver 5, .deliver 6,
    .deliver 8, .deliver 11, .deliver 9, .deliver 12, .sync 3 1, .deliver 14, .deliver 15]

theorem resolved_reachable : threeNodes.Reachable resolved := by
  unfold resolved
  exact Cluster.Reachable.play Relation.ReflTransGen.refl _

theorem agreement_resolved : ∃ v, (resolved.nodes 3).currentValue = some v ∧
    Decided threeNodes.ids resolved.net 0 v := by
  have hnumber : (resolved.nodes 3).instanceNumber = 0 + 1 := by decide +kernel
  exact (threeNodes.agreement resolved_reachable).2.2.1 3 (by decide) 0 hnumber

end Paxos
