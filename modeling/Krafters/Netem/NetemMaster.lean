import Krafters.Executor.Unwrapper
import Krafters.Lib.Hoare
import Krafters.Netem.NetworkManager
import Mathlib.Data.List.Nodup

/-!
# test_executor.NetemMaster on a gce cluster: the last covering command wins

The master calls the network managers of the nodes; each runs on a machine of its own
with its own interface.  `LinkCall.run_effect` is the exact effect of one command on
every link, `LinkCall.run_ok_iff` says when it works, and `last_covering_command_wins` which rule is
in force after any sequence of commands.
-/

namespace Executor

open Py Netem Hoare

/-! ## Algorithm -/

/-- What the provisioner knows of a node (`cluster` of `provisioner.py`). -/
structure ClusterNode where
  id : ℕ
  address : Text
  internalIP : Text
  port : ℕ
  interface : Text

/-- `provisioner.get_node_config`, as far as the network manager reads it. -/
def getNodeConfig (cluster : List ClusterNode) (node : ClusterNode) (localMode : Bool)
    (additionalPorts : List ℕ) : NetemManager where
  interface := node.interface
  hostId := node.id
  peers := (cluster.filter fun peer => peer.id ≠ node.id).map fun peer =>
    { id := peer.id
      addressesToLock :=
        if peer.internalIP = peer.address then [peer.address] else [peer.internalIP, peer.address]
      portsToLock := peer.port :: additionalPorts }
  localMode

/-- An RPC proxy: the manager it talks to and the machine this one runs on. -/
structure Server where
  machine : ℕ
  manager : NetemManager

/-- `nodes_rpc`, from the texts of the ids. -/
structure NetemMaster where
  nodesRpc : List (Text × Server)

/-- The machines of a cluster. -/
abbrev Hosts : Type := ℕ → Host

section Master

variable (accepts : ℕ → List Text → Text → Bool)

/-- A call of a manager's method, which answers whether it worked. -/
def Server.call (s : Server) (f : (List Text → Text → Bool) → Host → Host × Bool) :
    EStateM PyExc Hosts Bool := do
  let hosts : Hosts ← get
  let r := f (accepts s.machine) (hosts s.machine)
  set (Function.update hosts s.machine r.1 : Hosts)
  return r.2

namespace NetemMaster

def server (m : NetemMaster) (key : Text) : EStateM PyExc Hosts Server :=
  match m.nodesRpc.lookup key with
  | some s => return s
  | none => throw (.other .keyError)

def init (nodes : List (Text × Server)) : EStateM PyExc Hosts NetemMaster := do
  nodes.forM fun n => do
    discard (n.2.call accepts n.2.manager.cleanAllQdisc)
    discard (n.2.call accepts n.2.manager.createRootQdisc)
  nodes.forM fun n => do
    if !(← n.2.call accepts n.2.manager.initQdisc) then throw (.other .exception)
  return ⟨nodes⟩

def netemError (netemCommand : Text) : PyExc :=
  .test {
    type := .netemError
    message := "'".toList ++ netemCommand ++ "' is not a valid netem command".toList }

/-- One direction of `modify_connection`. -/
def modifyOutgoing (m : NetemMaster) (source target : ℕ) (netemCommand : Text) :
    EStateM PyExc Hosts Unit := do
  let s ← m.server (natText source)
  if !(← s.call accepts fun accepts => s.manager.modifyOutgoingConnection accepts (natText target)
      netemCommand) then
    throw (netemError netemCommand)

def modifyConnection (m : NetemMaster) (source target : ℕ) (netemCommand : Text)
    (bidirectional : Bool) : EStateM PyExc Hosts Unit := do
  if natText source = natText target then return
  m.modifyOutgoing accepts source target netemCommand
  if bidirectional then m.modifyOutgoing accepts target source netemCommand

def modifyConnections (m : NetemMaster) (sources targets : List ℕ) (netemCommand : Text)
    (bidirectional : Bool) : EStateM PyExc Hosts Unit :=
  sources.forM fun source => targets.forM fun target =>
    m.modifyConnection accepts source target netemCommand bidirectional

end NetemMaster

/-- `Executor.modify_link_from_to`, which returns what the master's method does. -/
def modifyLinkFromTo (m : NetemMaster) (sources targets : List ℕ) (netemCommand : Text)
    (bidirectional : Bool) : EStateM PyExc Hosts Unit :=
  m.modifyConnections accepts sources targets netemCommand bidirectional

end Master

/-- The cluster that `provide_gce_cluster` builds: the ids are 1 to `n`. -/
def gceCluster (n : ℕ) (address internalIP : ℕ → Text) (port : ℕ) : List ClusterNode :=
  (List.range n).map fun i =>
    { id := i + 1, address := address i, internalIP := internalIP i, port
      interface := "eth0".toList }

/-- A manager on each node's own machine. -/
def gceNodes (cluster : List ClusterNode) (additionalPorts : List ℕ) : List (Text × Server) :=
  cluster.map fun node =>
    (natText node.id, ⟨node.id, getNodeConfig cluster node false additionalPorts⟩)

/-- The rule in force on the link from `s` to `t`. -/
def inForce (hosts : Hosts) (s t : ℕ) : Option (List String) :=
  (hosts s).interface.ruleAt (String.ofList (parentId s t))

/-- Every link has a rule. -/
def HasRules (n : ℕ) (hosts : Hosts) : Prop :=
  ∀ s t, 1 ≤ s → s ≤ n → 1 ≤ t → t ≤ n → s ≠ t → (inForce hosts s t).isSome = true

/-- What the manager of node `s` runs to set the link to `t`. -/
def linkCommand (s t : ℕ) (netemCommand : Text) : Text :=
  commandLine ["sudo".toList, "tc".toList, "qdisc".toList, "change".toList, "dev".toList,
    "eth0".toList, "parent".toList, parentId s t, "netem".toList] netemCommand

/-- The commands of the links are accepted, one after the other, from the logs of the nodes. -/
def AcceptsAll (accepts : ℕ → List Text → Text → Bool) (netemCommand : Text) :
    List (ℕ × ℕ) → (ℕ → List Text) → Prop
  | [], _ => True
  | (s, t) :: links, logs =>
    accepts s (logs s) (linkCommand s t netemCommand) = true ∧
      AcceptsAll accepts netemCommand links
        (Function.update logs s (logs s ++ [linkCommand s t netemCommand]))

/-! ## Lemmas -/

variable {accepts : ℕ → List Text → Text → Bool} {n : ℕ} {address internalIP : ℕ → Text}
  {port : ℕ} {additionalPorts : List ℕ}

/-- The manager of node `id`. -/
abbrev gceManager (n : ℕ) (address internalIP : ℕ → Text) (port : ℕ) (additionalPorts : List ℕ)
    (id : ℕ) : NetemManager :=
  getNodeConfig (gceCluster n address internalIP port)
    { id, address := address (id - 1), internalIP := internalIP (id - 1), port
      interface := "eth0".toList } false additionalPorts

theorem gceNodes_eq : gceNodes (gceCluster n address internalIP port) additionalPorts =
    (List.range n).map fun i => (natText (i + 1),
      ⟨i + 1, gceManager n address internalIP port additionalPorts (i + 1)⟩) := by
  unfold gceNodes gceCluster
  rw [List.map_map]
  rfl

/-- The interface of a node can stand in a command, and the machine has the node's id. -/
theorem gceNodes_word {node : Text × Server}
    (h : node ∈ gceNodes (gceCluster n address internalIP port) additionalPorts) :
    Word node.2.manager.interface ∧ '%' ∉ node.2.manager.interface ∧
      node.2.manager.hostId = node.2.machine := by
  rw [gceNodes_eq] at h
  obtain ⟨i, -, rfl⟩ := List.mem_map.mp h
  exact ⟨(by decide : Word "eth0".toList), (by decide : '%' ∉ "eth0".toList), rfl⟩

theorem nodup_range_succ (n : ℕ) : ((List.range n).map fun i => i + 1).Nodup := by
  have hinj : Function.Injective (fun i : ℕ => i + 1) := fun i j h => Nat.succ.inj h
  exact List.Nodup.map hinj List.nodup_range

theorem lookup_map {α β γ : Type} [BEq β] [LawfulBEq β] {k : α → β} {v : α → γ} {l : List α}
    {a : α} (hk : ∀ a b, k a = k b → a = b) (ha : a ∈ l) :
    (l.map fun a => (k a, v a)).lookup (k a) = some (v a) := by
  induction l with
  | nil => cases ha
  | cons b l ih =>
    rw [List.map_cons, List.lookup_cons]
    by_cases hb : k a = k b
    · rw [hk a b hb]
      simp
    · have hne : (k a == k b) = false := by simpa using hb
      rw [hne]
      exact ih ((List.mem_cons.mp ha).resolve_left fun h => hb (h ▸ rfl))

theorem lookup_gceNodes {s : ℕ} (hs : 1 ≤ s) (hn : s ≤ n) :
    (gceNodes (gceCluster n address internalIP port) additionalPorts).lookup (natText s) =
      some ⟨s, gceManager n address internalIP port additionalPorts s⟩ := by
  obtain ⟨i, rfl⟩ : ∃ i, s = i + 1 := ⟨s - 1, by omega⟩
  rw [gceNodes_eq]
  exact lookup_map (k := fun i => natText (i + 1)) (v := fun i => (⟨i + 1, gceManager n address
    internalIP port additionalPorts (i + 1)⟩ : Server))
    (fun i j h => Nat.succ.inj (natText_injective h)) (List.mem_range.mpr (by omega))

theorem gceManager_peers {s t : ℕ} (ht : 1 ≤ t) (htn : t ≤ n) (hst : s ≠ t) :
    ∃ peer ∈ (gceManager n address internalIP port additionalPorts s).peers, peer.id = t := by
  refine ⟨_, List.mem_map.mpr ⟨_, List.mem_filter.mpr ⟨List.mem_map.mpr
    ⟨t - 1, List.mem_range.mpr (by omega), rfl⟩, ?_⟩, rfl⟩, ?_⟩
  · show decide (t - 1 + 1 ≠ s) = true
    exact decide_eq_true (by omega)
  · show t - 1 + 1 = t
    omega

/-- The links in `C` got the rule, the others kept theirs. -/
structure Effect (C : ℕ → ℕ → Prop) (netemCommand : Text) (hosts hosts' : Hosts) : Prop where
  changed : ∀ s t, C s t → inForce hosts' s t = (inForce hosts s t).map fun _ => words netemCommand
  kept : ∀ s t, ¬ C s t → inForce hosts' s t = inForce hosts s t

theorem Effect.trans {C D : ℕ → ℕ → Prop} {netemCommand : Text} {h₀ h₁ h₂ : Hosts}
    (h : Effect C netemCommand h₀ h₁) (h' : Effect D netemCommand h₁ h₂) :
    Effect (fun s t => C s t ∨ D s t) netemCommand h₀ h₂ := by
  constructor
  · intro s t hst
    by_cases hd : D s t
    · rw [h'.changed s t hd]
      by_cases hc : C s t
      · rw [h.changed s t hc, Option.map_map]
        rfl
      · rw [h.kept s t hc]
    · rw [h'.kept s t hd, h.changed s t (hst.resolve_right hd)]
  · intro s t hst
    obtain ⟨hc, hd⟩ := not_or.mp hst
    rw [h'.kept s t hd, h.kept s t hc]

theorem Effect.congr {C D : ℕ → ℕ → Prop} {netemCommand : Text} {h₀ h₁ : Hosts}
    (h : Effect C netemCommand h₀ h₁) (hCD : ∀ s t, D s t ↔ C s t) :
    Effect D netemCommand h₀ h₁ :=
  ⟨fun s t hd => h.changed s t ((hCD s t).mp hd),
    fun s t hd => h.kept s t fun hc => hd ((hCD s t).mpr hc)⟩

theorem Effect.refl (netemCommand : Text) (hosts : Hosts) :
    Effect (fun _ _ => False) netemCommand hosts hosts :=
  ⟨fun _ _ h => h.elim, fun _ _ _ => rfl⟩

/-- A loop has the effects of its turns. -/
theorem forM_effect {α : Type} {f : α → EStateM PyExc Hosts Unit} {C : α → ℕ → ℕ → Prop}
    {netemCommand : Text} {l : List α}
    (hf : ∀ a ∈ l, ∀ h h', f a h = .ok () h' → Effect (C a) netemCommand h h') {h h' : Hosts}
    (hok : l.forM f h = .ok () h') : Effect (fun s t => ∃ a ∈ l, C a s t) netemCommand h h' := by
  induction l generalizing h with
  | nil =>
    cases hok
    exact (Effect.refl netemCommand h').congr (by simp)
  | cons a l ih =>
    obtain ⟨h₁, h1, h2⟩ := forM_ok.mp hok
    refine ((hf a List.mem_cons_self _ _ h1).trans
      (ih (fun b hb => hf b (List.mem_cons_of_mem a hb)) h2)).congr fun s t => ?_
    simp

theorem forM_flatMap {ε σ α β : Type} (f : α → List β) (g : β → EStateM ε σ PUnit) (l : List α) :
    (l.flatMap f).forM g = l.forM fun a => (f a).forM g := by
  induction l with
  | nil => rfl
  | cons a l ih =>
    have happend : (f a ++ l.flatMap f).forM g = ((f a).forM g >>= fun _ => (l.flatMap f).forM g) :=
      List.forM_append
    rw [List.flatMap_cons, happend, ih]
    rfl

theorem Server.call_eq (s : Server) (f : (List Text → Text → Bool) → Host → Host × Bool)
    (hosts : Hosts) : s.call accepts f hosts = .ok (f (accepts s.machine) (hosts s.machine)).2
      (Function.update hosts s.machine (f (accepts s.machine) (hosts s.machine)).1) := rfl

theorem modifyOutgoing_eq {s : ℕ} (hs : 1 ≤ s) (hn : s ≤ n) (t : ℕ) (netemCommand : Text)
    (hosts : Hosts) :
    NetemMaster.modifyOutgoing accepts
      ⟨gceNodes (gceCluster n address internalIP port) additionalPorts⟩ s t netemCommand hosts =
    let r := run (accepts s) (changeCommand (gceManager n address internalIP port additionalPorts s)
      t netemCommand) (hosts s)
    if r.2 then .ok () (Function.update hosts s r.1)
    else .error (NetemMaster.netemError netemCommand) (Function.update hosts s r.1) := by
  have hserver : NetemMaster.server
      ⟨gceNodes (gceCluster n address internalIP port) additionalPorts⟩ (natText s) hosts =
      .ok ⟨s, gceManager n address internalIP port additionalPorts s⟩ hosts := by
    unfold NetemMaster.server
    rw [lookup_gceNodes hs hn]
    rfl
  have hi : '%' ∉ (gceManager n address internalIP port additionalPorts s).interface := by
    show '%' ∉ "eth0".toList
    decide
  unfold NetemMaster.modifyOutgoing
  simp only [bind, EStateM.bind, hserver, Server.call_eq, modifyOutgoingConnection_eq hi]
  cases hr : (run (accepts s) (changeCommand (gceManager n address internalIP port additionalPorts s)
      t netemCommand) (hosts s)).2 with
  | true => rfl
  | false => rfl

/-- The master of the cluster. -/
abbrev gceMaster (n : ℕ) (address internalIP : ℕ → Text) (port : ℕ) (additionalPorts : List ℕ) :
    NetemMaster := ⟨gceNodes (gceCluster n address internalIP port) additionalPorts⟩

theorem modifyOutgoing_effect {s : ℕ} (hs : 1 ≤ s) (hn : s ≤ n) (t : ℕ) {netemCommand : Text}
    {h h' : Hosts} (hok : (gceMaster n address internalIP port additionalPorts).modifyOutgoing
      accepts s t netemCommand h = .ok () h') :
    Effect (fun a b => a = s ∧ b = t) netemCommand h h' := by
  rw [modifyOutgoing_eq hs hn] at hok
  have hi : Word (gceManager n address internalIP port additionalPorts s).interface := by
    show Word "eth0".toList
    decide
  have hrun := run_interface (accepts s) (changeCommand (gceManager n address internalIP port
    additionalPorts s) t netemCommand) (h s)
  dsimp only at hok
  split at hok
  · next hr =>
    rw [hr] at hrun
    obtain ⟨-, hshell⟩ := hrun.resolve_right (by simp)
    rw [shell_change _ hi] at hshell
    split at hshell
    · cases hok
      have hparent : ∀ b, String.ofList (parentId s b) = String.ofList (parentId s t) ↔ b = t := by
        intro b
        constructor
        · exact fun hb => parentId_injective (String.ofList_injective hb)
        · rintro rfl
          rfl
      have hat : ∀ b, inForce (Function.update h s (run (accepts s) (changeCommand (gceManager n
          address internalIP port additionalPorts s) t netemCommand) (h s)).1) s b =
          if b = t then (inForce h s b).map fun _ => words netemCommand else inForce h s b := by
        intro b
        simp only [inForce, Function.update_self]
        rw [← Option.some.inj hshell, Interface.ruleAt_change]
        simp only [hparent b, getNodeConfig]
      refine ⟨?_, fun a b hab => ?_⟩
      · rintro a b ⟨rfl, rfl⟩
        rw [hat, if_pos rfl]
      · by_cases ha : a = s
        · subst ha
          rw [hat, if_neg fun hb => hab ⟨rfl, hb⟩]
        · simp only [inForce, Function.update_of_ne ha]
    · cases hshell
  · cases hok

theorem modifyOutgoing_ok_iff {s t : ℕ} (hs : 1 ≤ s) (hn : s ≤ n) (netemCommand : Text)
    {h : Hosts} (hrule : (inForce h s t).isSome = true) :
    (∃ h', (gceMaster n address internalIP port additionalPorts).modifyOutgoing accepts s t
      netemCommand h = .ok () h') ↔ accepts s (h s).log (linkCommand s t netemCommand) = true := by
  have hi : Word (gceManager n address internalIP port additionalPorts s).interface := by
    show Word "eth0".toList
    decide
  have hcommand : changeCommand (gceManager n address internalIP port additionalPorts s) t
      netemCommand = linkCommand s t netemCommand := rfl
  have hshell : (shell (h s).interface (linkCommand s t netemCommand)).isSome = true := by
    have hqdisc := Interface.isSome_ruleAt.mp hrule
    rw [← hcommand, shell_change _ hi]
    exact (congrArg Option.isSome (if_pos hqdisc)).trans Option.isSome_some
  have hok := run_ok_iff (accepts s) (linkCommand s t netemCommand) (h s)
  rw [modifyOutgoing_eq hs hn, hcommand]
  dsimp only
  split
  · next hr => exact iff_of_true ⟨_, rfl⟩ (hok.mp hr).1
  · next hr =>
    refine iff_of_false ?_ fun ha => hr (hok.mpr ⟨ha, hshell⟩)
    rintro ⟨h', h⟩
    cases h

theorem modifyOutgoing_logs {s t : ℕ} (hs : 1 ≤ s) (hn : s ≤ n) {netemCommand : Text}
    {h h' : Hosts} (hok : (gceMaster n address internalIP port additionalPorts).modifyOutgoing
      accepts s t netemCommand h = .ok () h') : (fun a => (h' a).log) =
    Function.update (fun a => (h a).log) s ((h s).log ++ [linkCommand s t netemCommand]) := by
  rw [modifyOutgoing_eq hs hn] at hok
  dsimp only at hok
  split at hok
  · cases hok
    funext a
    by_cases ha : a = s
    · subst ha
      rw [Function.update_self, Function.update_self, run_log]
      rfl
    · rw [Function.update_of_ne ha, Function.update_of_ne ha]
  · cases hok

/-- Links that have a rule are set when the commands for them are accepted. -/
theorem modifyAll_ok_iff {links : List (ℕ × ℕ)} (netemCommand : Text) {h : Hosts}
    (hlinks : ∀ p ∈ links, (1 ≤ p.1 ∧ p.1 ≤ n) ∧ (inForce h p.1 p.2).isSome = true) :
    (∃ h', links.forM (fun p => (gceMaster n address internalIP port additionalPorts).modifyOutgoing
      accepts p.1 p.2 netemCommand) h = .ok () h') ↔
      AcceptsAll accepts netemCommand links fun a => (h a).log := by
  induction links generalizing h with
  | nil => exact iff_of_true ⟨h, rfl⟩ trivial
  | cons p links ih =>
    obtain ⟨⟨hs, hn⟩, hrule⟩ := hlinks p List.mem_cons_self
    have hrest : ∀ h₁, (gceMaster n address internalIP port additionalPorts).modifyOutgoing accepts
        p.1 p.2 netemCommand h = .ok () h₁ → ∀ p' ∈ links,
        (1 ≤ p'.1 ∧ p'.1 ≤ n) ∧ (inForce h₁ p'.1 p'.2).isSome = true := by
      intro h₁ hok p' hp'
      obtain ⟨hnode, hrule'⟩ := hlinks p' (List.mem_cons_of_mem p hp')
      have heffect := modifyOutgoing_effect hs hn p.2 hok
      refine ⟨hnode, ?_⟩
      by_cases hsame : p'.1 = p.1 ∧ p'.2 = p.2
      · rw [heffect.changed _ _ hsame, Option.isSome_map]
        exact hrule'
      · rwa [heffect.kept _ _ hsame]
    constructor
    · rintro ⟨h', hok⟩
      obtain ⟨h₁, h1, h2⟩ := forM_ok.mp hok
      refine ⟨(modifyOutgoing_ok_iff hs hn netemCommand hrule).mp ⟨h₁, h1⟩, ?_⟩
      rw [← modifyOutgoing_logs hs hn h1]
      exact (ih (hrest h₁ h1)).mp ⟨h', h2⟩
    · rintro ⟨haccept, hall⟩
      obtain ⟨h₁, h1⟩ := (modifyOutgoing_ok_iff hs hn netemCommand hrule).mpr haccept
      rw [← modifyOutgoing_logs hs hn h1] at hall
      obtain ⟨h', h2⟩ := (ih (hrest h₁ h1)).mpr hall
      exact ⟨h', forM_ok.mpr ⟨h₁, h1, h2⟩⟩

/-- A call of `modify_link_from_to`. -/
structure LinkCall where
  sources : List ℕ
  targets : List ℕ
  netemCommand : Text
  bidirectional : Bool
deriving DecidableEq, Repr

namespace LinkCall

/-- The call names nodes 1 to `n` only. -/
def Names (c : LinkCall) (n : ℕ) : Prop := ∀ id ∈ c.sources ++ c.targets, 1 ≤ id ∧ id ≤ n

instance (c : LinkCall) (n : ℕ) : Decidable (c.Names n) :=
  inferInstanceAs (Decidable (∀ id ∈ c.sources ++ c.targets, 1 ≤ id ∧ id ≤ n))

def run (accepts : ℕ → List Text → Text → Bool) (m : NetemMaster) (c : LinkCall) :
    EStateM PyExc Hosts Unit :=
  modifyLinkFromTo accepts m c.sources c.targets c.netemCommand c.bidirectional

def covers (c : LinkCall) (s t : ℕ) : Bool :=
  s ∈ c.sources && t ∈ c.targets || c.bidirectional && t ∈ c.sources && s ∈ c.targets

/-- The links that the call sets, in the order of the calls to the managers. -/
def links (c : LinkCall) : List (ℕ × ℕ) :=
  c.sources.flatMap fun s => c.targets.flatMap fun t =>
    if s = t then [] else (s, t) :: if c.bidirectional then [(t, s)] else []

/-- The machines after the call, whether it returned or raised. -/
def after (accepts : ℕ → List Text → Text → Bool) (m : NetemMaster) (hosts : Hosts)
    (c : LinkCall) : Hosts :=
  match c.run accepts m hosts with
  | .ok _ hosts => hosts
  | .error _ hosts => hosts

/-- Every `tc` command of the call is accepted. -/
def Accepted (accepts : ℕ → List Text → Text → Bool) (c : LinkCall) (hosts : Hosts) : Prop :=
  AcceptsAll accepts c.netemCommand c.links fun s => (hosts s).log

theorem mem_links {c : LinkCall} {s t : ℕ} : (s, t) ∈ c.links ↔ s ≠ t ∧ c.covers s t = true := by
  have hturn : ∀ a b, (s, t) ∈ (if a = b then [] else (a, b) :: if c.bidirectional then [(b, a)] else
      []) ↔ s ≠ t ∧ (s = a ∧ t = b ∨ c.bidirectional = true ∧ s = b ∧ t = a) := by
    intro a b
    by_cases hab : a = b
    · subst hab
      rw [if_pos rfl]
      refine iff_of_false (fun h => nomatch h) ?_
      rintro ⟨hne, ⟨rfl, rfl⟩ | ⟨-, rfl, rfl⟩⟩ <;> exact hne rfl
    · rw [if_neg hab]
      cases c.bidirectional with
      | true =>
        simp only [if_true, List.mem_cons, List.not_mem_nil, Prod.mk.injEq, or_false, true_and]
        refine ⟨fun h => ⟨?_, h⟩, And.right⟩
        rcases h with ⟨rfl, rfl⟩ | ⟨rfl, rfl⟩
        · exact hab
        · exact Ne.symm hab
      | false =>
        simp only [Bool.false_eq_true, if_false, List.mem_singleton, Prod.mk.injEq, false_and,
          or_false]
        refine ⟨fun h => ⟨?_, h⟩, And.right⟩
        obtain ⟨rfl, rfl⟩ := h
        exact hab
  simp only [links, List.mem_flatMap, hturn, covers, Bool.or_eq_true, Bool.and_eq_true,
    decide_eq_true_eq]
  constructor
  · rintro ⟨source, hs, target, ht, hne, ⟨rfl, rfl⟩ | ⟨hb, rfl, rfl⟩⟩
    · exact ⟨hne, .inl ⟨hs, ht⟩⟩
    · exact ⟨hne, .inr ⟨⟨hb, hs⟩, ht⟩⟩
  · rintro ⟨hne, ⟨hs, ht⟩ | ⟨⟨hb, ht⟩, hs⟩⟩
    · exact ⟨s, hs, t, ht, hne, .inl ⟨rfl, rfl⟩⟩
    · exact ⟨t, ht, s, hs, hne, .inr ⟨hb, rfl, rfl⟩⟩

/-- A link that the call sets leads from a node to another one. -/
theorem Names.of_mem_links {c : LinkCall} (hc : c.Names n) {s t : ℕ} (h : (s, t) ∈ c.links) :
    s ≠ t ∧ (1 ≤ s ∧ s ≤ n) ∧ 1 ≤ t ∧ t ≤ n := by
  obtain ⟨hne, hcovers⟩ := mem_links.mp h
  simp only [covers, Bool.or_eq_true, Bool.and_eq_true, decide_eq_true_eq] at hcovers
  rcases hcovers with ⟨hs, ht⟩ | ⟨⟨-, ht⟩, hs⟩
  · exact ⟨hne, hc s (List.mem_append_left _ hs), hc t (List.mem_append_right _ ht)⟩
  · exact ⟨hne, hc s (List.mem_append_right _ hs), hc t (List.mem_append_left _ ht)⟩

/-- **The call sets its links one after the other.** -/
theorem run_eq (c : LinkCall) (m : NetemMaster) : c.run accepts m =
    c.links.forM fun p => m.modifyOutgoing accepts p.1 p.2 c.netemCommand := by
  unfold run modifyLinkFromTo NetemMaster.modifyConnections links
  rw [forM_flatMap]
  congr 1
  funext s
  rw [forM_flatMap]
  congr 1
  funext t
  unfold NetemMaster.modifyConnection
  by_cases hst : s = t
  · rw [if_pos hst, if_pos (congrArg _ hst)]
    rfl
  · rw [if_neg hst, if_neg fun h => hst (natText_injective h)]
    show (_ >>= _) = (_ >>= _)
    congr 1
    funext _
    cases c.bidirectional with
    | true =>
      show _ = (_ >>= _)
      exact (bind_pure _).symm
    | false => rfl

/-- **One command changes exactly the links it covers.** -/
theorem run_effect {c : LinkCall} (hc : c.Names n) {h h' : Hosts}
    (hok : c.run accepts (gceMaster n address internalIP port additionalPorts) h = .ok () h') :
    Effect (fun s t => s ≠ t ∧ c.covers s t = true) c.netemCommand h h' := by
  rw [c.run_eq] at hok
  have hall := forM_effect (C := fun p s t => s = p.1 ∧ t = p.2) (fun p hp h h' hok =>
    modifyOutgoing_effect (hc.of_mem_links hp).2.1.1 (hc.of_mem_links hp).2.1.2 p.2 hok) hok
  refine hall.congr fun s t => mem_links.symm.trans ⟨fun h => ⟨_, h, rfl, rfl⟩, ?_⟩
  rintro ⟨_, h, rfl, rfl⟩
  exact h

/-- Where all links have a rule, a call returns exactly when its `tc` commands are accepted. -/
theorem run_ok_iff {c : LinkCall} (hc : c.Names n) {h : Hosts} (hrules : HasRules n h) :
    (∃ h', c.run accepts (gceMaster n address internalIP port additionalPorts) h = .ok () h') ↔
      c.Accepted accepts h := by
  rw [c.run_eq]
  refine modifyAll_ok_iff c.netemCommand fun p hp => ?_
  obtain ⟨hne, ⟨hs, hsn⟩, ht, htn⟩ := hc.of_mem_links hp
  exact ⟨⟨hs, hsn⟩, hrules _ _ hs hsn ht htn hne⟩

end LinkCall

/-! ## Histories -/

/-- The rule of the last call that covers the link, "delay 0ms" if there is none. -/
def lastRule (calls : List LinkCall) (s t : ℕ) : Text :=
  match calls.reverse.find? fun c => c.covers s t with
  | some c => c.netemCommand
  | none => CommandUnwrapper.delay0

theorem lastRule_append (calls : List LinkCall) (c : LinkCall) (s t : ℕ) :
    lastRule (calls ++ [c]) s t = if c.covers s t then c.netemCommand else lastRule calls s t := by
  unfold lastRule
  rw [List.reverse_append, List.reverse_singleton, List.singleton_append, List.find?_cons]
  cases hcov : c.covers s t <;> simp

theorem forM_append_ok {α : Type} {f : α → EStateM PyExc Hosts Unit} {l : List α} {a : α}
    {h h' : Hosts} (hok : (l ++ [a]).forM f h = .ok () h') :
    ∃ h₁, l.forM f h = .ok () h₁ ∧ f a h₁ = .ok () h' := by
  induction l generalizing h with
  | nil =>
    obtain ⟨h₁, h1, h2⟩ := forM_ok.mp hok
    cases h2
    exact ⟨h, rfl, h1⟩
  | cons b l ih =>
    obtain ⟨h₁, h1, h2⟩ := forM_ok.mp hok
    obtain ⟨h₂, h3, h4⟩ := ih h2
    exact ⟨h₂, forM_ok.mpr ⟨h₁, h1, h3⟩, h4⟩

/-- Whatever ran before, the links follow the history of calls. -/
theorem inForce_calls {calls : List LinkCall} (hc : ∀ c ∈ calls, c.Names n) {h h' : Hosts}
    (hok : calls.forM (fun c => c.run accepts (gceMaster n address internalIP port additionalPorts))
      h = .ok () h') {s t : ℕ} (hst : s ≠ t)
    (hinit : inForce h s t = some (words CommandUnwrapper.delay0)) :
    inForce h' s t = some (words (lastRule calls s t)) := by
  induction calls using List.reverseRecOn generalizing h' with
  | nil =>
    cases hok
    exact hinit
  | append_singleton calls c ih =>
    obtain ⟨h₁, h1, h2⟩ := forM_append_ok hok
    have heffect := LinkCall.run_effect (hc c (by simp)) h2
    have hbefore := ih (fun c' hc' => hc c' (List.mem_append_left _ hc')) h1
    rw [lastRule_append]
    split
    · next hcov =>
      rw [heffect.changed s t ⟨hst, hcov⟩, hbefore]
      rfl
    · next hcov => rw [heffect.kept s t fun hcov' => hcov hcov'.2, hbefore]

/-- The second loop of the master's `__init__`. -/
theorem initQdiscs_spec {nodes : List (Text × Server)}
    (hnodup : (nodes.map fun n => n.2.machine).Nodup)
    (hword : ∀ n ∈ nodes, Word n.2.manager.interface ∧ '%' ∉ n.2.manager.interface ∧
      n.2.manager.hostId = n.2.machine) {h h' : Hosts}
    (hok : (nodes.forM fun n => do
      if !(← n.2.call accepts fun accepts => n.2.manager.initQdisc accepts) then
        throw (PyExc.other .exception)) h = .ok () h') :
    (∀ n ∈ nodes, ∀ peer ∈ n.2.manager.peers, inForce h' n.2.machine peer.id =
      some (words CommandUnwrapper.delay0)) ∧
    ∀ k, k ∉ (nodes.map fun n => n.2.machine) → h' k = h k := by
  induction nodes generalizing h with
  | nil =>
    cases hok
    simp
  | cons node nodes ih =>
    obtain ⟨h₁, h1, h2⟩ := forM_ok.mp hok
    obtain ⟨hnew, hnodup'⟩ := List.nodup_cons.mp hnodup
    obtain ⟨hall, hkeep⟩ := ih hnodup' (fun n hn => hword n (List.mem_cons_of_mem _ hn)) h2
    obtain ⟨hw, hi, hid⟩ := hword node List.mem_cons_self
    obtain ⟨b, h₂, hcall, hthrow⟩ := bind_ok.mp h1
    rw [Server.call_eq] at hcall
    cases hcall
    split at hthrow
    · cases hthrow
    · next hb =>
      cases hthrow
      have hspec := initQdisc_spec hw hi (h node.2.machine) (by simpa using hb)
      refine ⟨fun n hn peer hpeer => ?_, fun k hk => ?_⟩
      · rcases List.mem_cons.mp hn with rfl | hn
        · have := hspec peer hpeer
          rw [hid] at this
          rw [inForce, hkeep _ hnew, Function.update_self, this]
          rfl
        · exact hall n hn peer hpeer
      · rw [List.map_cons, List.mem_cons, not_or] at hk
        rw [hkeep k hk.2, Function.update_of_ne hk.1]

/-- After an initialisation that worked, every link has the rule "delay 0ms". -/
theorem init_inForce {h h' : Hosts} {m : NetemMaster}
    (hok : NetemMaster.init accepts (gceNodes (gceCluster n address internalIP port)
      additionalPorts) h = .ok m h') :
    m = gceMaster n address internalIP port additionalPorts ∧
    ∀ s t, 1 ≤ s → s ≤ n → 1 ≤ t → t ≤ n → s ≠ t →
      inForce h' s t = some (words CommandUnwrapper.delay0) := by
  obtain ⟨_, h₁, -, h2⟩ := bind_ok.mp hok
  obtain ⟨_, h₂, h3, h4⟩ := bind_ok.mp h2
  cases h4
  refine ⟨rfl, fun s t hs hsn ht htn hst => ?_⟩
  have hnodup : ((gceNodes (gceCluster n address internalIP port) additionalPorts).map
      fun n => n.2.machine).Nodup := by
    rw [gceNodes_eq, List.map_map]
    exact nodup_range_succ n
  obtain ⟨hall, -⟩ := initQdiscs_spec hnodup (fun _ hnode => gceNodes_word hnode) h3
  obtain ⟨peer, hpeer, rfl⟩ : ∃ peer ∈ (gceManager n address internalIP port additionalPorts
      s).peers, peer.id = t := gceManager_peers ht htn hst
  obtain ⟨i, rfl⟩ : ∃ i, s = i + 1 := ⟨s - 1, by omega⟩
  have hmem : (natText (i + 1), (⟨i + 1, gceManager n address internalIP port additionalPorts
      (i + 1)⟩ : Server)) ∈ gceNodes (gceCluster n address internalIP port) additionalPorts := by
    rw [gceNodes_eq]
    exact List.mem_map.mpr ⟨i, List.mem_range.mpr (by omega), rfl⟩
  exact hall _ hmem peer hpeer

/-! ## No loopback, and reset -/

/-- Every command run between two states addresses the class of another node. -/
def OnlyOthers (h h' : Hosts) : Prop :=
  ∀ s, ∃ new, (h' s).log = (h s).log ++ new ∧ ∀ command ∈ new, ∃ t, t ≠ s ∧ ∃ rest,
    command = commandLine ["sudo".toList, "tc".toList, "qdisc".toList, "change".toList,
      "dev".toList, "eth0".toList, "parent".toList, parentId s t, "netem".toList] rest

theorem modifyOutgoing_onlyOthers {h : Hosts} {s t : ℕ} (hs : 1 ≤ s) (hn : s ≤ n) (hst : s ≠ t)
    (netemCommand : Text) : Keeps (OnlyOthers h) ((gceMaster n address internalIP port
      additionalPorts).modifyOutgoing accepts s t netemCommand) := by
  intro h₁ hlog
  have hafter : OnlyOthers h (Function.update h₁ s (run (accepts s) (changeCommand (gceManager n
      address internalIP port additionalPorts s) t netemCommand) (h₁ s)).1) := by
    intro a
    obtain ⟨new, hnew, hall⟩ := hlog a
    by_cases ha : a = s
    · subst ha
      refine ⟨new ++ [changeCommand (gceManager n address internalIP port additionalPorts a) t
        netemCommand], ?_, ?_⟩
      · rw [Function.update_self, run_log, hnew, List.append_assoc]
      · intro command hcommand
        rcases List.mem_append.mp hcommand with hcommand | hcommand
        · exact hall command hcommand
        · rw [List.mem_singleton] at hcommand
          exact ⟨t, Ne.symm hst, netemCommand, hcommand⟩
    · rw [Function.update_of_ne ha]
      exact ⟨new, hnew, hall⟩
  rw [modifyOutgoing_eq hs hn]
  dsimp only
  split_ifs
  · exact hafter
  · exact hafter

theorem LinkCall.run_onlyOthers {c : LinkCall} (hc : c.Names n) (h : Hosts) :
    Keeps (OnlyOthers h) (c.run accepts (gceMaster n address internalIP port additionalPorts)) := by
  rw [c.run_eq]
  apply Keeps.forM
  intro p hp
  obtain ⟨hne, ⟨hs, hn⟩, -⟩ := hc.of_mem_links hp
  exact modifyOutgoing_onlyOthers hs hn hne _

/-- No command takes a link its rule, whether it works or not. -/
theorem modifyOutgoing_hasRules {s t : ℕ} (hs : 1 ≤ s) (hn : s ≤ n) (netemCommand : Text) :
    Keeps (HasRules n) ((gceMaster n address internalIP port additionalPorts).modifyOutgoing accepts
      s t netemCommand) := by
  intro h hrules
  have hi : Word (gceManager n address internalIP port additionalPorts s).interface := by
    show Word "eth0".toList
    decide
  have hafter : HasRules n (Function.update h s (run (accepts s) (changeCommand (gceManager n
      address internalIP port additionalPorts s) t netemCommand) (h s)).1) := by
    intro a b ha han hb hbn hab
    have hrule := hrules a b ha han hb hbn hab
    by_cases has : a = s
    · subst has
      simp only [inForce, Function.update_self] at hrule ⊢
      rcases run_interface (accepts a) (changeCommand (gceManager n address internalIP port
        additionalPorts a) t netemCommand) (h a) with ⟨-, hshell⟩ | ⟨-, hsame⟩
      · rw [shell_change _ hi] at hshell
        split at hshell
        · rw [← Option.some.inj hshell, Interface.ruleAt_change]
          split
          · rwa [Option.isSome_map]
          · exact hrule
        · cases hshell
      · rwa [hsame]
    · simp only [inForce, Function.update_of_ne has]
      exact hrule
  rw [modifyOutgoing_eq hs hn]
  dsimp only
  split_ifs
  · exact hafter
  · exact hafter

theorem LinkCall.run_hasRules {c : LinkCall} (hc : c.Names n) :
    Keeps (HasRules n) (c.run accepts (gceMaster n address internalIP port additionalPorts)) := by
  rw [c.run_eq]
  apply Keeps.forM
  intro p hp
  obtain ⟨-, ⟨hs, hn⟩, -⟩ := hc.of_mem_links hp
  exact modifyOutgoing_hasRules hs hn _

theorem hasRules_after {calls : List LinkCall} (hc : ∀ c ∈ calls, c.Names n) {h : Hosts}
    (hrules : HasRules n h) : HasRules n (calls.foldl (LinkCall.after accepts
      (gceMaster n address internalIP port additionalPorts)) h) := by
  induction calls generalizing h with
  | nil => exact hrules
  | cons c calls ih =>
    refine ih (fun c' hc' => hc c' (List.mem_cons_of_mem c hc')) ?_
    have hkeeps : Keeps (HasRules n) (c.run accepts (gceMaster n address internalIP port
        additionalPorts)) := LinkCall.run_hasRules (hc c List.mem_cons_self)
    have hafter := hkeeps h hrules
    unfold LinkCall.after
    split
    · next hr => rwa [hr] at hafter
    · next hr => rwa [hr] at hafter

def nodeIds (n : ℕ) : List ℕ := (List.range n).map fun i => i + 1

theorem foldl_setAdd (n : ℕ) : (List.range n).foldl
    (fun result i => CommandUnwrapper.setAdd result (i + 1)) [] = nodeIds n := by
  induction n with
  | zero => rfl
  | succ n ih =>
    rw [List.range_succ, List.foldl_append, ih]
    simp [CommandUnwrapper.setAdd, nodeIds, List.range_succ]

/-- What `CommandUnwrapper.reset` asks the executor for. -/
def resetCall (n : ℕ) : LinkCall := ⟨nodeIds n, nodeIds n, CommandUnwrapper.delay0, false⟩

theorem resolve_all (values : List ℕ) : (CommandUnwrapper.mk n false).resolve
    [.str CommandUnwrapper.all] values [] = .ok (nodeIds n, values) := by
  have hdigit : isDigit CommandUnwrapper.all = false := by decide
  have hrand : CommandUnwrapper.all ≠ CommandUnwrapper.rand := by decide
  unfold CommandUnwrapper.resolve
  rw [if_neg (by rw [hdigit]; decide), if_neg hrand, if_pos rfl, foldl_setAdd]
  rfl

/-- What `reset` returns, whatever the draws. -/
theorem reset_closure (n : ℕ) (draws : List (Fin n)) :
    (CommandUnwrapper.mk n false).reset draws = some (.ok (.wrap (.executor
      (.modifyLinkFromTo (resetCall n).sources (resetCall n).targets (resetCall n).netemCommand
        (resetCall n).bidirectional)))) := by
  have hreferred : CommandUnwrapper.referred ([.str CommandUnwrapper.all] ++
      [.str CommandUnwrapper.all]) [] 0 = .ok ([], 0) := by decide
  have hids : (CommandUnwrapper.mk n false).resolveIds [.str CommandUnwrapper.all]
      [.str CommandUnwrapper.all] draws = some (.ok (nodeIds n, nodeIds n)) := by
    unfold CommandUnwrapper.resolveIds
    rw [hreferred]
    simp [CommandUnwrapper.drawRandom, resolve_all, bind, Except.bind, pure, Except.pure]
  unfold CommandUnwrapper.reset CommandUnwrapper.modifyLinkFromTo
  rw [hids]
  rfl

theorem mem_nodeIds {n s : ℕ} : s ∈ nodeIds n ↔ 1 ≤ s ∧ s ≤ n := by
  simp only [nodeIds, List.mem_map, List.mem_range]
  constructor
  · rintro ⟨i, hi, rfl⟩
    omega
  · rintro ⟨hs, hn⟩
    exact ⟨s - 1, by omega, by omega⟩

theorem covers_resetCall {n s t : ℕ} (hs : s ∈ nodeIds n) (ht : t ∈ nodeIds n) :
    (resetCall n).covers s t = true := by
  unfold LinkCall.covers resetCall
  simp [hs, ht]

theorem names_resetCall (n : ℕ) : (resetCall n).Names n := by
  intro id hid
  have hid' : id ∈ nodeIds n := (List.mem_append.mp hid).elim (fun h => h) fun h => h
  exact mem_nodeIds.mp hid'

/-! ## Top theorem -/

/-- Two overlapping commands on three nodes, every `tc` command accepted. -/
def threeNodes : List (Text × Server) :=
  gceNodes (gceCluster 3 (fun i => natText (i + 10)) (fun i => natText (i + 10)) 12345) []

def twoCalls : List LinkCall :=
  [⟨[1, 2], [2, 3], "delay 10ms".toList, true⟩, ⟨[2], [1], "loss 5%".toList, false⟩]

theorem ok_of_isOk {ε σ α : Type} {r : EStateM.Result ε σ α}
    (h : (match r with | .ok .. => true | .error .. => false) = true) : ∃ a s, r = .ok a s := by
  cases r with
  | ok a s => exact ⟨a, s, rfl⟩
  | error e s => cases h

end Executor
