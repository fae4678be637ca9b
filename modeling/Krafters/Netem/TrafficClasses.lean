import Krafters.Netem.NetemMaster

/-!
# The traffic classes of a cluster

The ids of a class and its qdisc are the numerals of the host and of the peer, one behind the
other with nothing between them.  On an interface of one host they tell the peers apart; the
local nodes share an interface, where the hosts have to be told apart as well:

    natText s ++ natText t = natText s' ++ natText t' → s = s' ∧ t = t'    (s, s' ≤ 10)

and 1, 11 and 11, 1 are written alike.  The two loops of `NetemMaster.__init__` clean and create
all roots before the first class, and what the second one does to an interface is to append
(`Grown`): classes and qdiscs for the pairs of the interface, in their order.
-/

namespace Executor

open Py Netem Hoare

/-! ## Deployments -/

/-- The cluster that `provide_local_cluster` builds: the ids are 1 to `n`. -/
def localCluster (n : ℕ) (port : ℕ → ℕ) : List ClusterNode :=
  (List.range n).map fun i =>
    { id := i + 1, address := "127.0.0.1".toList, internalIP := "127.0.0.1".toList
      port := port i, interface := "lo".toList }

/-- A manager for each node, all on the machine of the provisioner. -/
def localNodes (cluster : List ClusterNode) : List (Text × Server) :=
  cluster.map fun node => (natText node.id, ⟨0, getNodeConfig cluster node true []⟩)

/-- The modes of the provisioner, with what it finds out about the nodes. -/
inductive Deployment
  | gce (address internalIP : ℕ → Text) (port : ℕ) (additionalPorts : List ℕ)
  | localhost (port : ℕ → ℕ)

namespace Deployment

def nodes (n : ℕ) : Deployment → List (Text × Server)
  | .gce address internalIP port additionalPorts =>
    gceNodes (gceCluster n address internalIP port) additionalPorts
  | .localhost port => localNodes (localCluster n port)

/-- The nodes share one interface. -/
def shared : Deployment → Bool
  | .gce .. => false
  | .localhost _ => true

/-- The machine whose interface a node has. -/
def machine : Deployment → ℕ → ℕ
  | .gce .., s => s
  | .localhost _, _ => 0

end Deployment

/-! ## The loops of the initialisation -/

section Loops

variable (accepts : ℕ → List Text → Text → Bool)

/-- A turn of the first loop. -/
def cleanNode (node : Text × Server) : EStateM PyExc Hosts Unit := do
  discard (node.2.call accepts node.2.manager.cleanAllQdisc)
  discard (node.2.call accepts node.2.manager.createRootQdisc)

/-- A turn of the second loop. -/
def initNode (node : Text × Server) : EStateM PyExc Hosts Unit := do
  if !(← node.2.call accepts node.2.manager.initQdisc) then throw (.other .exception)

theorem init_eq (nodes : List (Text × Server)) : NetemMaster.init accepts nodes =
    (do nodes.forM (cleanNode accepts); nodes.forM (initNode accepts); return ⟨nodes⟩) := rfl

end Loops

/-- The pairs for which a manager creates qdiscs. -/
def pairsOf (m : NetemManager) : List (ℕ × ℕ) := m.peers.map fun peer => (m.hostId, peer.id)

/-- The pairs of a machine's interface, in the order of the second loop. -/
def pairsOn (k : ℕ) (nodes : List (Text × Server)) : List (ℕ × ℕ) :=
  nodes.flatMap fun node => if node.2.machine = k then pairsOf node.2.manager else []

/-- Values of items were appended: of all items, or up to some item. -/
def Appended {α β : Type} (f : α → β) (items : List α) (all : Bool) (l l' : List β) : Prop :=
  ∃ added, added <+: items ∧ (all = true → added = items) ∧ l' = l ++ added.map f

/-- The classes and the qdiscs of pairs were created, and none was deleted. -/
structure Grown (pairs : List (ℕ × ℕ)) (all : Bool) (k k' : Interface) : Prop where
  classes : Appended (fun p => classId p.1 p.2) pairs all k.classes k'.classes
  qdiscs : Appended (fun p => peerQdisc p.1 p.2) pairs all k.qdiscs k'.qdiscs

/-- No class and no qdisc was deleted. -/
def NoneDeleted (h h' : Hosts) : Prop := ∀ k, (h k).interface.classes <+: (h' k).interface.classes ∧
  (h k).interface.qdiscs <+: (h' k).interface.qdiscs

/-- `modify_outgoing_connection` sets the rule of its own pair, or nothing. -/
def SetsOnly (pairs : List (ℕ × ℕ)) (m : NetemManager) (peerId : ℕ) : Prop :=
  ∀ accepts netemCommand host,
    let r := m.modifyOutgoingConnection accepts (natText peerId) netemCommand host
    (r.2 = true → r.1.interface.ruleAt (classId m.hostId peerId) = some (words netemCommand)) ∧
    (r.2 = false → r.1.interface = host.interface) ∧
    ∀ p ∈ pairs, p ≠ (m.hostId, peerId) →
      r.1.interface.ruleAt (classId p.1 p.2) = host.interface.ruleAt (classId p.1 p.2)

/-! ## Lemmas: appending -/

namespace Appended

variable {α β : Type} {f : α → β} {items items' : List α} {all : Bool} {l l₁ l₂ : List β}

theorem nil (l : List β) : Appended f [] all l l :=
  ⟨[], List.prefix_rfl, fun _ => rfl, (List.append_nil l).symm⟩

theorem none (items : List α) (l : List β) : Appended f items false l l :=
  ⟨[], List.nil_prefix, (fun h => nomatch h), (List.append_nil l).symm⟩

theorem singleton (a : α) (l : List β) : Appended f [a] all l (l ++ [f a]) :=
  ⟨[a], List.prefix_rfl, fun _ => rfl, rfl⟩

theorem trans (h : Appended f items true l l₁) (h' : Appended f items' all l₁ l₂) :
    Appended f (items ++ items') all l l₂ := by
  obtain ⟨added, -, hall, rfl⟩ := h
  obtain ⟨added', hprefix, hall', rfl⟩ := h'
  obtain rfl := hall rfl
  refine ⟨added ++ added', (List.prefix_append_right_inj added).mpr hprefix, fun h => ?_, ?_⟩
  · rw [hall' h]
  · rw [List.map_append, List.append_assoc]

/-- After an item that was not reached there is no other. -/
theorem stop (h : Appended f items false l l₁) (items' : List α) :
    Appended f (items ++ items') false l l₁ := by
  obtain ⟨added, hprefix, -, rfl⟩ := h
  exact ⟨added, hprefix.trans (List.prefix_append _ _), (fun h => nomatch h), rfl⟩

theorem isPrefix (h : Appended f items all l l₁) : l <+: l₁ := by
  obtain ⟨added, -, -, rfl⟩ := h
  exact List.prefix_append _ _

end Appended

namespace Grown

variable {pairs pairs' : List (ℕ × ℕ)} {all : Bool} {k k₁ k₂ : Interface}

theorem nil (k : Interface) : Grown [] all k k := ⟨.nil _, .nil _⟩

theorem trans (h : Grown pairs true k k₁) (h' : Grown pairs' all k₁ k₂) :
    Grown (pairs ++ pairs') all k k₂ := ⟨h.classes.trans h'.classes, h.qdiscs.trans h'.qdiscs⟩

theorem stop (h : Grown pairs false k k₁) (pairs' : List (ℕ × ℕ)) :
    Grown (pairs ++ pairs') false k k₁ := ⟨h.classes.stop pairs', h.qdiscs.stop pairs'⟩

end Grown

/-! ## Lemmas: what the second loop creates -/

theorem createPeerQdisc_grown {m : NetemManager} (hi : Word m.interface) (hi' : '%' ∉ m.interface)
    (accepts : List Text → Text → Bool) (peer : Peer) (h : Host) :
    Grown [(m.hostId, peer.id)] (m.createPeerQdisc accepts peer h).2 h.interface
      (m.createPeerQdisc accepts peer h).1.interface := by
  rcases createPeerQdisc_cases accepts hi hi' peer h with ⟨hfalse, hk⟩ | ⟨hfalse, hk⟩ | ⟨-, hk⟩
  · rw [hfalse, hk]
    exact ⟨.none _ _, .none _ _⟩
  · rw [hfalse, hk]
    exact ⟨.singleton _ _, .none _ _⟩
  · rw [hk]
    exact ⟨.singleton _ _, .singleton _ _⟩

theorem initQdisc_grown {m : NetemManager} (hi : Word m.interface) (hi' : '%' ∉ m.interface)
    (accepts : List Text → Text → Bool) (h : Host) :
    Grown (pairsOf m) (m.initQdisc accepts h).2 h.interface
      (m.initQdisc accepts h).1.interface := by
  unfold pairsOf NetemManager.initQdisc
  generalize m.peers = peers
  induction peers generalizing h with
  | nil => exact .nil _
  | cons peer peers ih =>
    have hpeer := createPeerQdisc_grown hi hi' accepts peer h
    simp only [untilFalse]
    generalize m.createPeerQdisc accepts peer h = r at hpeer ⊢
    obtain ⟨h₁, _ | _⟩ := r
    · exact hpeer.stop _
    · exact hpeer.trans (ih h₁)

/-- The interface names of the nodes can stand in a command. -/
def Named (nodes : List (Text × Server)) : Prop :=
  ∀ node ∈ nodes, Word node.2.manager.interface ∧ '%' ∉ node.2.manager.interface

variable {accepts : ℕ → List Text → Text → Bool}

theorem initNode_grown (accepts : ℕ → List Text → Text → Bool) {node : Text × Server}
    (hi : Word node.2.manager.interface) (hi' : '%' ∉ node.2.manager.interface) (h : Hosts) :
    Triple (· = h) (initNode accepts node)
      (fun _ h' => ∀ k, Grown (if node.2.machine = k then pairsOf node.2.manager else []) true
        (h k).interface (h' k).interface)
      (fun h' => ∀ k, Grown (if node.2.machine = k then pairsOf node.2.manager else []) false
        (h k).interface (h' k).interface) := by
  have hnode := initQdisc_grown hi hi' (accepts node.2.machine) (h node.2.machine)
  have hat : ∀ (b : Bool) (r : Host), Grown (pairsOf node.2.manager) b
      (h node.2.machine).interface r.interface →
      ∀ k, Grown (if node.2.machine = k then pairsOf node.2.manager else []) b (h k).interface
        (Function.update h node.2.machine r k).interface := by
    intro b r hr k
    by_cases hk : node.2.machine = k
    · subst hk
      rw [if_pos rfl, Function.update_self]
      exact hr
    · rw [if_neg hk, Function.update_of_ne (Ne.symm hk)]
      exact .nil _
  rintro _ rfl
  unfold initNode
  rw [bind_of_ok (Server.call_eq node.2 _ _)]
  generalize node.2.manager.initQdisc (accepts node.2.machine) _ = r at hnode ⊢
  obtain ⟨h₁, _ | _⟩ := r
  · exact hat false h₁ hnode
  · exact hat true h₁ hnode

theorem initNode_keeps {node : Text × Server} (hi : Word node.2.manager.interface)
    (hi' : '%' ∉ node.2.manager.interface) (h : Hosts) :
    Keeps (NoneDeleted h) (initNode accepts node) := by
  intro h₁ hkept
  have hafter : ∀ all h₂, (∀ k, Grown (if node.2.machine = k then pairsOf node.2.manager else [])
      all (h₁ k).interface (h₂ k).interface) → NoneDeleted h h₂ := by
    intro all h₂ hgrown k
    obtain ⟨hclasses, hqdiscs⟩ := hkept k
    exact ⟨hclasses.trans (hgrown k).classes.isPrefix, hqdiscs.trans (hgrown k).qdiscs.isPrefix⟩
  exact (initNode_grown accepts hi hi' h₁).conseq (fun _ hs => hs)
    (fun _ => hafter true) (hafter false) h₁ rfl

theorem initNodes_grown {nodes : List (Text × Server)} (hnamed : Named nodes) (h : Hosts) :
    Triple (· = h) (nodes.forM (initNode accepts))
      (fun _ h' => ∀ k, Grown (pairsOn k nodes) true (h k).interface (h' k).interface)
      (fun h' => ∀ k, Grown (pairsOn k nodes) false (h k).interface (h' k).interface) := by
  induction nodes generalizing h with
  | nil => exact Triple.pure () fun _ hs k => by rw [hs]; exact .nil _
  | cons node nodes ih =>
    obtain ⟨hi, hi'⟩ := hnamed node List.mem_cons_self
    have hnode := (initNode_grown accepts hi hi' h).conseq (fun _ hs => hs)
      (fun _ _ hs => hs) fun _ hs k => (hs k).stop (pairsOn k nodes)
    apply hnode.bind
    intro _ h₁ hgrown
    exact (ih (fun n hn => hnamed n (List.mem_cons_of_mem _ hn)) h₁).conseq (fun _ hs => hs)
      (fun _ _ hs k => (hgrown k).trans (hs k)) (fun _ hs k => (hgrown k).trans (hs k)) h₁ rfl

/-- The first loop never raises. -/
theorem cleanNodes_ok (accepts : ℕ → List Text → Text → Bool) (nodes : List (Text × Server))
    (h : Hosts) :
    ∃ h₁, nodes.forM (cleanNode accepts) h = .ok () h₁ := by
  induction nodes generalizing h with
  | nil => exact ⟨h, rfl⟩
  | cons node nodes ih =>
    obtain ⟨h₁, hnode⟩ : ∃ h₁, cleanNode accepts node h = .ok () h₁ := ⟨_, rfl⟩
    obtain ⟨h₂, hnodes⟩ := ih h₁
    exact ⟨h₂, forM_ok.mpr ⟨h₁, hnode, hnodes⟩⟩

/-- **The whole initialisation**: roots first, then the classes and qdiscs of all pairs, or up to
the one that failed. -/
theorem init_grown {nodes : List (Text × Server)} (hnamed : Named nodes) (h : Hosts) :
    ∃ h₁, nodes.forM (cleanNode accepts) h = .ok () h₁ ∧
      Triple (· = h) (NetemMaster.init accepts nodes)
        (fun _ h' => ∀ k, Grown (pairsOn k nodes) true (h₁ k).interface (h' k).interface)
        (fun h' => ∀ k, Grown (pairsOn k nodes) false (h₁ k).interface (h' k).interface) := by
  obtain ⟨h₁, hclean⟩ := cleanNodes_ok accepts nodes h
  refine ⟨h₁, hclean, ?_⟩
  rintro _ rfl
  rw [init_eq, bind_of_ok hclean]
  exact (initNodes_grown hnamed h₁).bind (fun _ => Triple.pure _ fun _ hs => hs) h₁ rfl

/-! ## Lemmas: ids -/

theorem natText_small {s : ℕ} (h : s < 10) : ∃ c, natText s = [c] :=
  ⟨s.digitChar, Nat.toDigits_of_lt_base h⟩

theorem natText_ten : natText 10 = ['1', '0'] := by decide

/-- No numeral of two digits or more starts with 0. -/
theorem natText_ne_zero_cons (t t' : ℕ) : natText t ≠ '0' :: natText t' := by
  intro h
  have hvalue := congrArg (fun l => Nat.ofDigitChars 10 l 0) h
  have hzero : Nat.ofDigitChars 10 ('0' :: natText t') 0 = Nat.ofDigitChars 10 (natText t') 0 :=
    Nat.ofDigitChars_cons
  unfold natText at hvalue hzero
  rw [hzero, Nat.ofDigitChars_toDigits (by decide) (by decide),
    Nat.ofDigitChars_toDigits (by decide) (by decide)] at hvalue
  rw [hvalue] at h
  have := congrArg List.length h
  rw [List.length_cons] at this
  omega

theorem natText_small_append_ne {s : ℕ} (hs : s < 10) (t t' : ℕ) :
    natText s ++ natText t ≠ natText 10 ++ natText t' := by
  obtain ⟨c, hc⟩ := natText_small hs
  rw [hc, natText_ten]
  intro h
  exact natText_ne_zero_cons t t' (List.cons_eq_cons.mp h).2

/-- Two numerals with nothing between them are told apart if the first ones are at most 10. -/
theorem natText_append_inj {s s' t t' : ℕ} (hs : s ≤ 10) (hs' : s' ≤ 10)
    (h : natText s ++ natText t = natText s' ++ natText t') : s = s' ∧ t = t' := by
  have hlength : (natText s).length = (natText s').length := by
    by_cases h10 : s < 10
    · by_cases h10' : s' < 10
      · obtain ⟨c, hc⟩ := natText_small h10
        obtain ⟨c', hc'⟩ := natText_small h10'
        rw [hc, hc']
        rfl
      · obtain rfl : s' = 10 := by omega
        exact absurd h (natText_small_append_ne h10 t t')
    · obtain rfl : s = 10 := by omega
      by_cases h10' : s' < 10
      · exact absurd h.symm (natText_small_append_ne h10' t' t)
      · obtain rfl : s' = 10 := by omega
        rfl
  obtain ⟨hst, htt⟩ := List.append_inj h hlength
  exact ⟨natText_injective hst, natText_injective htt⟩

theorem classId_eq_iff {s t s' t' : ℕ} :
    classId s t = classId s' t' ↔ natText s ++ natText t = natText s' ++ natText t' := by
  unfold classId parentId
  constructor
  · intro h
    have := List.append_cancel_right (String.ofList_injective h)
    rw [List.append_assoc, List.append_assoc] at this
    exact List.append_cancel_left this
  · intro h
    rw [List.append_assoc _ (natText s), List.append_assoc _ (natText s'), h]

theorem handle_eq_iff {s t s' t' : ℕ} : (peerQdisc s t).handle = (peerQdisc s' t').handle ↔
    natText s ++ natText t = natText s' ++ natText t' := by
  unfold peerQdisc
  constructor
  · exact fun h => List.append_cancel_right (List.append_cancel_right (String.ofList_injective h))
  · intro h
    dsimp only
    rw [h]

/-! ## Lemmas: the pairs of a deployment -/

theorem pairsOf_getNodeConfig (cluster : List ClusterNode) (node : ClusterNode) (localMode : Bool)
    (additionalPorts : List ℕ) : pairsOf (getNodeConfig cluster node localMode additionalPorts) =
      ((cluster.map ClusterNode.id).filter (· ≠ node.id)).map fun t => (node.id, t) := by
  unfold pairsOf getNodeConfig
  rw [List.filter_map, List.map_map, List.map_map]
  rfl

theorem pairsOn_map (k : ℕ) (cluster : List ClusterNode) (machine : ℕ → ℕ) (localMode : Bool)
    (additionalPorts : List ℕ) : pairsOn k (cluster.map fun node => (natText node.id,
      ⟨machine node.id, getNodeConfig cluster node localMode additionalPorts⟩)) =
    (cluster.map ClusterNode.id).flatMap fun s => if machine s = k then
      ((cluster.map ClusterNode.id).filter (· ≠ s)).map fun t => (s, t) else [] := by
  unfold pairsOn
  rw [List.flatMap_map, List.flatMap_map]
  congr 1
  funext node
  rw [pairsOf_getNodeConfig]

namespace Deployment

theorem pairsOn_nodes (d : Deployment) (n k : ℕ) : pairsOn k (d.nodes n) =
    (nodeIds n).flatMap fun s => if d.machine s = k then
      ((nodeIds n).filter (· ≠ s)).map fun t => (s, t) else [] := by
  cases d with
  | gce address internalIP port additionalPorts =>
    have hids : (gceCluster n address internalIP port).map ClusterNode.id = nodeIds n := by
      unfold gceCluster nodeIds
      rw [List.map_map]
      rfl
    have := pairsOn_map k (gceCluster n address internalIP port) (fun s => s) false additionalPorts
    rwa [hids] at this
  | localhost port =>
    have hids : (localCluster n port).map ClusterNode.id = nodeIds n := by
      unfold localCluster nodeIds
      rw [List.map_map]
      rfl
    have := pairsOn_map k (localCluster n port) (fun _ => 0) true []
    rwa [hids] at this

theorem mem_pairsOn {d : Deployment} {n k s t : ℕ} : (s, t) ∈ pairsOn k (d.nodes n) ↔
    s ∈ nodeIds n ∧ t ∈ nodeIds n ∧ s ≠ t ∧ d.machine s = k := by
  rw [d.pairsOn_nodes, List.mem_flatMap]
  constructor
  · rintro ⟨s', hs', hmem⟩
    split at hmem
    · next hk =>
      obtain ⟨t', ht', heq⟩ := List.mem_map.mp hmem
      obtain ⟨rfl, rfl⟩ := Prod.mk.inj heq
      obtain ⟨ht', hne⟩ := List.mem_filter.mp ht'
      exact ⟨hs', ht', Ne.symm (of_decide_eq_true hne), hk⟩
    · cases hmem
  · rintro ⟨hs, ht, hne, hk⟩
    refine ⟨s, hs, ?_⟩
    rw [if_pos hk]
    exact List.mem_map.mpr ⟨t, List.mem_filter.mpr ⟨ht, decide_eq_true (Ne.symm hne)⟩, rfl⟩

theorem nodup_pairsOn (d : Deployment) (n k : ℕ) : (pairsOn k (d.nodes n)).Nodup := by
  have hids : (nodeIds n).Nodup := nodup_range_succ n
  rw [d.pairsOn_nodes, List.nodup_flatMap]
  constructor
  · intro s _
    split
    · have hinj : Function.Injective fun t : ℕ => (s, t) := fun t t' h => (Prod.mk.inj h).2
      exact (hids.filter _).map hinj
    · exact List.nodup_nil
  · -- the pairs of two hosts differ in the host
    have hfirst : ∀ s p, p ∈ (if d.machine s = k then
        ((nodeIds n).filter (· ≠ s)).map fun t => (s, t) else []) → p.1 = s := by
      intro s p hp
      split at hp
      · obtain ⟨t, -, rfl⟩ := List.mem_map.mp hp
        rfl
      · cases hp
    refine List.Pairwise.imp (fun hne p hp hp' => hne ?_) hids
    rw [← hfirst _ p hp, ← hfirst _ p hp']

/-- **Texts of pairs on one interface.** -/
theorem eq_of_texts {d : Deployment} {n k : ℕ} (hn : d.shared = true → n ≤ 10) {p q : ℕ × ℕ}
    (hp : p ∈ pairsOn k (d.nodes n)) (hq : q ∈ pairsOn k (d.nodes n))
    (h : natText p.1 ++ natText p.2 = natText q.1 ++ natText q.2) : p = q := by
  obtain ⟨s, t⟩ := p
  obtain ⟨s', t'⟩ := q
  obtain ⟨hs, -, -, hk⟩ := mem_pairsOn.mp hp
  obtain ⟨hs', -, -, hk'⟩ := mem_pairsOn.mp hq
  cases d with
  | gce address internalIP port additionalPorts =>
    obtain rfl : s = s' := hk.trans hk'.symm
    have ht : t = t' := natText_injective (List.append_cancel_left h)
    rw [ht]
  | localhost port =>
    have hn := hn rfl
    have hle := (mem_nodeIds.mp hs).2
    have hle' := (mem_nodeIds.mp hs').2
    obtain ⟨rfl, rfl⟩ := natText_append_inj (by omega) (by omega) h
    rfl

theorem named (d : Deployment) (n : ℕ) : Named (d.nodes n) := by
  intro node hnode
  cases d with
  | gce address internalIP port additionalPorts =>
    obtain ⟨hword, hpercent, -⟩ := gceNodes_word hnode
    exact ⟨hword, hpercent⟩
  | localhost port =>
    obtain ⟨node', hnode', rfl⟩ := List.mem_map.mp hnode
    obtain ⟨i, -, rfl⟩ := List.mem_map.mp hnode'
    exact ⟨(by decide : Word "lo".toList), (by decide : '%' ∉ "lo".toList)⟩

end Deployment

/-! ## Lemmas: changing a rule -/

theorem run_change {m : NetemManager} (hi : Word m.interface) (hi' : '%' ∉ m.interface)
    (accepts : List Text → Text → Bool) (peerId : ℕ) (netemCommand : Text) (host : Host) :
    ((m.modifyOutgoingConnection accepts (natText peerId) netemCommand host).2 = true ∧
      (∃ q ∈ host.interface.qdiscs, q.parent = classId m.hostId peerId) ∧
      (m.modifyOutgoingConnection accepts (natText peerId) netemCommand host).1.interface =
        host.interface.change (classId m.hostId peerId) (words netemCommand)) ∨
    ((m.modifyOutgoingConnection accepts (natText peerId) netemCommand host).2 = false ∧
      (m.modifyOutgoingConnection accepts (natText peerId) netemCommand host).1.interface =
        host.interface) := by
  rw [modifyOutgoingConnection_eq hi']
  obtain ⟨htrue, hshell⟩ | hfalse :=
    run_interface accepts (changeCommand m peerId netemCommand) host
  · rw [shell_change _ hi] at hshell
    split at hshell
    · next hq => exact .inl ⟨htrue, hq, (Option.some.inj hshell).symm⟩
    · cases hshell
  · exact .inr hfalse

/-- A manager that is told apart from the others on its interface sets its own pair's rule. -/
theorem setsOnly {m : NetemManager} (hi : Word m.interface) (hi' : '%' ∉ m.interface) {peerId : ℕ}
    {pairs : List (ℕ × ℕ)} (hpairs : ∀ p ∈ pairs,
      natText p.1 ++ natText p.2 = natText m.hostId ++ natText peerId → p = (m.hostId, peerId)) :
    SetsOnly pairs m peerId := by
  intro accepts netemCommand host
  dsimp only
  obtain ⟨htrue, ⟨q, hq, hparent⟩, hk⟩ | ⟨hfalse, hk⟩ :=
    run_change hi hi' accepts peerId netemCommand host
  · refine ⟨fun _ => ?_, fun hfalse => ?_, fun p hp hne => ?_⟩
    · have hfind : ∃ rule, host.interface.ruleAt (classId m.hostId peerId) = some rule := by
        unfold Interface.ruleAt
        have hsome : (host.interface.qdiscs.find? fun q =>
            q.parent = classId m.hostId peerId).isSome = true :=
          List.find?_isSome.mpr ⟨q, hq, decide_eq_true hparent⟩
        obtain ⟨q', hq'⟩ := Option.isSome_iff_exists.mp hsome
        exact ⟨q'.rule, by rw [hq']; rfl⟩
      obtain ⟨rule, hrule⟩ := hfind
      rw [hk, Interface.ruleAt_change, if_pos rfl, hrule]
      rfl
    · rw [htrue] at hfalse
      cases hfalse
    · rw [hk, Interface.ruleAt_change, if_neg fun h => hne (hpairs p hp (classId_eq_iff.mp h))]
  · refine ⟨fun htrue => ?_, fun _ => hk, fun p _ _ => by rw [hk]⟩
    rw [hfalse] at htrue
    cases htrue

/-! ## Top theorem -/

/-- **Traffic classes do not collide**: in gce mode, and on up to 10 local nodes.  The ids of the
pairs on an interface are distinct; the initialisation creates the classes and qdiscs of these
pairs behind what the first loop left, and no turn deletes one; a manager sets the rule of the
pair it is asked for and of no other. -/
theorem traffic_classes_distinct (d : Deployment) (n : ℕ) (hn : d.shared = true → n ≤ 10)
    (accepts : ℕ → List Text → Text → Bool) (h₀ : Hosts) :
    (∀ k, (∀ s t, (s, t) ∈ pairsOn k (d.nodes n) ↔
        s ∈ nodeIds n ∧ t ∈ nodeIds n ∧ s ≠ t ∧ d.machine s = k) ∧
      ((pairsOn k (d.nodes n)).map fun p => classId p.1 p.2).Nodup ∧
      ((pairsOn k (d.nodes n)).map fun p => (peerQdisc p.1 p.2).handle).Nodup) ∧
    (∃ h₁, (d.nodes n).forM (cleanNode accepts) h₀ = .ok () h₁ ∧
      Triple (· = h₀) (NetemMaster.init accepts (d.nodes n))
        (fun _ h => ∀ k, Grown (pairsOn k (d.nodes n)) true (h₁ k).interface (h k).interface)
        (fun h => ∀ k, Grown (pairsOn k (d.nodes n)) false (h₁ k).interface (h k).interface)) ∧
    (∀ node ∈ d.nodes n, ∀ h, Keeps (NoneDeleted h) (initNode accepts node)) ∧
    ∀ node ∈ d.nodes n, ∀ peer ∈ node.2.manager.peers,
      SetsOnly (pairsOn node.2.machine (d.nodes n)) node.2.manager peer.id := by
  have hnamed := d.named n
  refine ⟨fun k => ⟨fun s t => Deployment.mem_pairsOn, ?_, ?_⟩, init_grown hnamed h₀,
    fun node hnode h => initNode_keeps (hnamed node hnode).1 (hnamed node hnode).2 h,
    fun node hnode peer hpeer => ?_⟩
  · exact (d.nodup_pairsOn n k).map_on fun p hp q hq h =>
      Deployment.eq_of_texts hn hp hq (classId_eq_iff.mp h)
  · exact (d.nodup_pairsOn n k).map_on fun p hp q hq h =>
      Deployment.eq_of_texts hn hp hq (handle_eq_iff.mp h)
  · apply setsOnly (hnamed node hnode).1 (hnamed node hnode).2
    intro p hp h
    have hown : (node.2.manager.hostId, peer.id) ∈ pairsOn node.2.machine (d.nodes n) := by
      refine List.mem_flatMap.mpr ⟨node, hnode, ?_⟩
      rw [if_pos rfl]
      exact List.mem_map.mpr ⟨peer, hpeer, rfl⟩
    exact Deployment.eq_of_texts hn hp hown h

/-- The largest cluster that the provisioner deploys. -/
theorem traffic_classes_distinct_eight :
    ((pairsOn 0 ((Deployment.localhost (· + 50000)).nodes 8)).map
      fun p => classId p.1 p.2).Nodup :=
  ((traffic_classes_distinct (.localhost (· + 50000)) 8 (fun _ => by decide) (fun _ _ _ => true)
    fun _ => ⟨{}, []⟩).1 0).2.1

/-- With 11 local nodes, the classes of 1, 11 and of 11, 1 have the same id. -/
theorem traffic_classes_collide :
    (1, 11) ∈ pairsOn 0 ((Deployment.localhost (· + 50000)).nodes 11) ∧
    (11, 1) ∈ pairsOn 0 ((Deployment.localhost (· + 50000)).nodes 11) ∧
    ¬ ((pairsOn 0 ((Deployment.localhost (· + 50000)).nodes 11)).map
      fun p => classId p.1 p.2).Nodup := by
  have hmem : ∀ s t, 1 ≤ s → s ≤ 11 → 1 ≤ t → t ≤ 11 → s ≠ t →
      (s, t) ∈ pairsOn 0 ((Deployment.localhost (· + 50000)).nodes 11) :=
    fun s t hs hs' ht ht' hne =>
      Deployment.mem_pairsOn.mpr ⟨mem_nodeIds.mpr ⟨hs, hs'⟩, mem_nodeIds.mpr ⟨ht, ht'⟩, hne, rfl⟩
  have h := hmem 1 11 (by decide) (by decide) (by decide) (by decide) (by decide)
  have h' := hmem 11 1 (by decide) (by decide) (by decide) (by decide) (by decide)
  refine ⟨h, h', fun hnodup => ?_⟩
  have heq := List.inj_on_of_nodup_map hnodup h h'
    (classId_eq_iff.mpr (by decide : natText 1 ++ natText 11 = natText 11 ++ natText 1))
  exact absurd (congrArg Prod.fst heq) (by decide)

end Executor
