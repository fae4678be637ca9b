import Krafters.Lib.Text

/-!
# network_manager.NetemManager and the qdiscs it configures

The manager builds its commands as text, by replacing tokens in templates.  `tc` reads
the words of such a command; what the kernel keeps of an interface is the root qdisc,
the classes below it and the netem qdisc of each class, and `tc qdisc change` replaces
the whole rule.  Whether a command that could work is also accepted (a wrong rule, an
id out of range) is decided by a parameter, from the commands run before and its text.
-/

namespace Netem

open Py

/-! ## The kernel's side -/

/-- A netem qdisc: the class it hangs under, its handle, the words of its rule. -/
structure Qdisc where
  parent : String
  handle : String
  rule : List String
deriving DecidableEq, Repr

structure Interface where
  root : Bool := false
  classes : List String := []
  qdiscs : List Qdisc := []
deriving DecidableEq, Repr

def Interface.ruleAt (k : Interface) (parent : String) : Option (List String) :=
  (k.qdiscs.find? fun q => q.parent = parent).map Qdisc.rule

def Interface.change (k : Interface) (parent : String) (rule : List String) : Interface :=
  { k with qdiscs := k.qdiscs.map fun q => if q.parent = parent then { q with rule } else q }

/-- The arguments of `tc`, for the commands of the manager; `none` is a message on stderr. -/
def tc (k : Interface) : List String → Option Interface
  | ["qdisc", "add", "dev", _, "root", "handle", "1:", "htb"] =>
    if k.root then none else some { k with root := true }
  | ["qdisc", "del", "dev", _, "root"] => if k.root then some {} else none
  | ["-s", "qdisc", "ls", "dev", _] => some k
  | ["class", "add", "dev", _, "parent", "1:", "classid", classid, "htb", "rate", _] =>
    if k.root ∧ classid ∉ k.classes then some { k with classes := k.classes ++ [classid] }
    else none
  | "qdisc" :: "add" :: "dev" :: _ :: "parent" :: parent :: "handle" :: handle :: "netem" :: rule =>
    if parent ∈ k.classes ∧ ∀ q ∈ k.qdiscs, q.parent ≠ parent ∧ q.handle ≠ handle then
      some { k with qdiscs := k.qdiscs ++ [⟨parent, handle, rule⟩] }
    else none
  | "qdisc" :: "change" :: "dev" :: _ :: "parent" :: parent :: "netem" :: rule =>
    if ∃ q ∈ k.qdiscs, q.parent = parent then some (k.change parent rule) else none
  | "filter" :: "add" :: _ => if k.root then some k else none
  | _ => none

/-- The words of a command line. -/
def words (command : Text) : List String := (splitWs command).map String.ofList

def shell (k : Interface) (command : Text) : Option Interface :=
  match words command with
  | "sudo" :: "tc" :: arguments => tc k arguments
  | _ => none

/-- An interface with the debug log of the managers that work on it. -/
structure Host where
  interface : Interface
  log : List Text
deriving DecidableEq, Repr

/-! ## The manager -/

structure Peer where
  id : ℕ
  addressesToLock : List Text
  portsToLock : List ℕ
deriving DecidableEq, Repr

structure NetemManager where
  interface : Text
  hostId : ℕ
  peers : List Peer
  /-- `mode == "local"` -/
  localMode : Bool
deriving DecidableEq, Repr

def interfaceToken : Text := "%INTERFACE%".toList
def destinationIdToken : Text := "%DID%".toList
def peerPortToken : Text := "%PPORT%".toList
def peerAddressToken : Text := "%PADDRESS%".toList
def peerIdToken : Text := "%PID%".toList
def netemToken : Text := "%NETEM%".toList

def createRootCommands : List Text :=
  ["sudo tc qdisc add dev %INTERFACE% root handle 1: htb".toList]

def deleteRootCommands : List Text :=
  ["sudo tc qdisc del dev %INTERFACE% root".toList, "sudo tc -s qdisc ls dev %INTERFACE%".toList]

def createPeerClassCommands : List Text :=
  ["sudo tc class add dev %INTERFACE% parent 1: classid 1:%DID% htb rate 100Mbps".toList]

def createPeerQdiscCommands : List Text :=
  ["sudo tc qdisc add dev %INTERFACE% parent 1:%DID% handle %DID%: netem delay 0ms".toList]

def createPeerFilterCommandsLocal : List Text :=
  [("sudo tc filter add dev %INTERFACE% protocol ip u32 match ip dport %PPORT% 0xffff " ++
    "flowid 1:%DID%").toList]

def createPeerFilterCommandsGce : List Text :=
  [("sudo tc filter add dev %INTERFACE% protocol ip u32 match ip dst %PADDRESS%/32 " ++
    "flowid 1:%DID%").toList]

def modifyOutgoingConnectionsCommands : List Text :=
  ["sudo tc qdisc change dev %INTERFACE% parent 1:%PID%2 netem %NETEM%".toList]

/-- `command.replace(token, value)` for the items of the map, in their order. -/
def substitute (substitutionMap : List (Text × Text)) (command : Text) : Text :=
  substitutionMap.foldl (fun command item => replace item.1 item.2 command) command

section Commands

variable (accepts : List Text → Text → Bool)

/-- `run`, with the log entry; `false` where stderr is not empty. -/
def run (command : Text) (h : Host) : Host × Bool :=
  let log := h.log ++ [command]
  match if accepts h.log command then shell h.interface command else none with
  | some interface => (⟨interface, log⟩, true)
  | none => (⟨h.interface, log⟩, false)

/-- `run_commands` ends at the first command with an error: `stderr` is bytes, so adding a line
break to it raises, and every caller takes that as a failure. -/
def runCommands (substitutionMap : List (Text × Text)) : List Text → Host → Host × Bool
  | [], h => (h, true)
  | command :: commands, h =>
    match run accepts (substitute substitutionMap command) h with
    | (h, true) => runCommands substitutionMap commands h
    | (h, false) => (h, false)

/-- Methods that return whether they worked, one after the other until one did not. -/
def untilFalse {α : Type} (f : α → Host → Host × Bool) : List α → Host → Host × Bool
  | [], h => (h, true)
  | a :: l, h =>
    match f a h with
    | (h, true) => untilFalse f l h
    | (h, false) => (h, false)

namespace NetemManager

variable (m : NetemManager)

def createRootQdisc : Host → Host × Bool :=
  runCommands accepts [(interfaceToken, m.interface)] createRootCommands

def cleanAllQdisc : Host → Host × Bool :=
  runCommands accepts [(interfaceToken, m.interface)] deleteRootCommands

/-- `id + qid + "2"` -/
def destinationId (peer : Peer) : Text := natText m.hostId ++ natText peer.id ++ ['2']

def createPeerQdisc (peer : Peer) (h : Host) : Host × Bool :=
  let ids := [(interfaceToken, m.interface), (destinationIdToken, m.destinationId peer)]
  match runCommands accepts ids createPeerClassCommands h with
  | (h, false) => (h, false)
  | (h, true) =>
    match runCommands accepts ids createPeerQdiscCommands h with
    | (h, false) => (h, false)
    | (h, true) =>
      if m.localMode then
        untilFalse (fun port => runCommands accepts (ids ++ [(peerPortToken, natText port)])
          createPeerFilterCommandsLocal) peer.portsToLock h
      else
        untilFalse (fun address => runCommands accepts (ids ++ [(peerAddressToken, address)])
          createPeerFilterCommandsGce) peer.addressesToLock h

def modifyOutgoingConnection (peerId netemCommand : Text) : Host → Host × Bool :=
  runCommands accepts [(interfaceToken, m.interface), (peerIdToken, natText m.hostId ++ peerId),
    (netemToken, netemCommand)] modifyOutgoingConnectionsCommands

/-- `result and self.create_peer_qdisc(peer)` makes no further call once one failed. -/
def initQdisc : Host → Host × Bool := untilFalse (m.createPeerQdisc accepts) m.peers

end NetemManager

end Commands

/-! ## Lemmas: command lines -/

/-- A text without blanks. -/
def Word (w : Text) : Prop := w ≠ [] ∧ ∀ c ∈ w, isSpace c = false

instance (w : Text) : Decidable (Word w) := inferInstanceAs (Decidable (_ ∧ _))

/-- Words with a blank after each, then the rest. -/
def commandLine (ws : List Text) (rest : Text) : Text := ws.foldr (fun w r => w ++ ' ' :: r) rest

theorem words_commandLine {ws : List Text} (h : ∀ w ∈ ws, Word w) (rest : Text) :
    words (commandLine ws rest) = ws.map String.ofList ++ words rest := by
  induction ws with
  | nil => rfl
  | cons w ws ih =>
    obtain ⟨hne, hw⟩ := h w List.mem_cons_self
    have hsplit : splitWs (commandLine (w :: ws) rest) = w :: splitWs (commandLine ws rest) := by
      show splitWs (w ++ ' ' :: commandLine ws rest) = _
      rw [splitWs_append (by decide), splitWs_word hne hw]
      rfl
    have := ih fun w' hw' => h w' (List.mem_cons_of_mem w hw')
    simp only [words] at this ⊢
    rw [hsplit, List.map_cons, this]
    rfl

theorem substitute_append {tokens : List (Text × Text)} (htok : ∀ t ∈ tokens, t.1.head? = some '%')
    {pre : Text} (hpre : '%' ∉ pre) (s : Text) :
    substitute tokens (pre ++ s) = pre ++ substitute tokens s := by
  induction tokens generalizing s with
  | nil => rfl
  | cons t tokens ih =>
    obtain ⟨old, new⟩ := t
    obtain ⟨old, rfl⟩ : ∃ o, old = '%' :: o := by
      have := htok (old, new) List.mem_cons_self
      cases old with
      | nil => cases this
      | cons c o =>
        obtain rfl := Option.some.inj this
        exact ⟨o, rfl⟩
    show substitute tokens (replace ('%' :: old) new (pre ++ s)) = _
    rw [replace_append_of_notMem pre s hpre, ih fun t ht => htok t (List.mem_cons_of_mem _ ht)]
    rfl

/-- A token behind a text without tokens. -/
theorem replace_token (tok new pre post : Text) (htok : tok.head? = some '%') (hpre : '%' ∉ pre) :
    replace tok new (pre ++ (tok ++ post)) = pre ++ (new ++ replace tok new post) := by
  cases tok with
  | nil => cases htok
  | cons c tok =>
    obtain rfl := Option.some.inj htok
    rw [replace_append_of_notMem pre _ hpre, replace_self]

/-- The last occurrence of a token: what follows lacks one of its letters. -/
theorem replace_last (tok new pre post : Text) {c : Char} (htok : tok.head? = some '%')
    (hpre : '%' ∉ pre) (hc : c ∈ tok) (hpost : c ∉ post) :
    replace tok new (pre ++ (tok ++ post)) = pre ++ (new ++ post) := by
  rw [replace_token tok new pre post htok hpre, replace_of_notMem_letter hc hpost]

section Commands

variable {m : NetemManager}

/-- The class under which the manager of `hostId` keeps the qdisc for `peerId`. -/
def parentId (hostId peerId : ℕ) : Text := "1:".toList ++ natText hostId ++ natText peerId ++ ['2']

/-- The class as it stands in the words of a command. -/
def classId (hostId peerId : ℕ) : String := String.ofList (parentId hostId peerId)

/-- The qdisc that the manager of `hostId` creates for `peerId`. -/
def peerQdisc (hostId peerId : ℕ) : Qdisc where
  parent := classId hostId peerId
  handle := String.ofList (natText hostId ++ natText peerId ++ ['2'] ++ [':'])
  rule := ["delay", "0ms"]

def Interface.addClass (k : Interface) (hostId peerId : ℕ) : Interface :=
  { k with classes := k.classes ++ [classId hostId peerId] }

def Interface.addQdisc (k : Interface) (hostId peerId : ℕ) : Interface :=
  { k with qdiscs := k.qdiscs ++ [peerQdisc hostId peerId] }

theorem parentId_injective {hostId p q : ℕ} (h : parentId hostId p = parentId hostId q) : p = q := by
  unfold parentId at h
  exact natText_injective (List.append_cancel_left (List.append_cancel_right h))

theorem percent_notMem_natText (n : ℕ) : '%' ∉ natText n := fun h =>
  absurd (isAsciiDigit_of_mem_natText h) (by decide)

theorem percent_notMem_parentId (s t : ℕ) : '%' ∉ parentId s t := by
  simp only [parentId, List.mem_append, not_or]
  exact ⟨⟨⟨by decide, percent_notMem_natText s⟩, percent_notMem_natText t⟩, by decide⟩

theorem word_parentId (s t : ℕ) : Word (parentId s t) := by
  refine ⟨by simp [parentId], fun c hc => ?_⟩
  simp only [parentId, List.mem_append] at hc
  rcases hc with ((hc | hc) | hc) | hc
  · revert c
    decide
  · exact isSpace_of_isAsciiDigit (isAsciiDigit_of_mem_natText hc)
  · exact isSpace_of_isAsciiDigit (isAsciiDigit_of_mem_natText hc)
  · revert c
    decide

/-- The command that changes the rule for a peer. -/
def changeCommand (m : NetemManager) (peerId : ℕ) (netemCommand : Text) : Text :=
  commandLine ["sudo".toList, "tc".toList, "qdisc".toList, "change".toList, "dev".toList,
    m.interface, "parent".toList, parentId m.hostId peerId, "netem".toList] netemCommand

theorem substitute_change (hi : '%' ∉ m.interface) (peerId : ℕ) (netemCommand : Text) :
    substitute [(interfaceToken, m.interface), (peerIdToken, natText m.hostId ++ natText peerId),
      (netemToken, netemCommand)]
      "sudo tc qdisc change dev %INTERFACE% parent 1:%PID%2 netem %NETEM%".toList =
      changeCommand m peerId netemCommand := by
  have htemplate : "sudo tc qdisc change dev %INTERFACE% parent 1:%PID%2 netem %NETEM%".toList =
      "sudo tc qdisc change dev ".toList ++ (interfaceToken ++ (" parent 1:".toList ++
        (peerIdToken ++ ("2 netem ".toList ++ (netemToken ++ []))))) := by decide +kernel
  have h1 := replace_last interfaceToken m.interface "sudo tc qdisc change dev ".toList
    (" parent 1:".toList ++ (peerIdToken ++ ("2 netem ".toList ++ (netemToken ++ []))))
    (c := 'C') (by decide) (by decide) (by decide) (by decide)
  have h2 := replace_last peerIdToken (natText m.hostId ++ natText peerId)
    ("sudo tc qdisc change dev ".toList ++ (m.interface ++ " parent 1:".toList))
    ("2 netem ".toList ++ (netemToken ++ [])) (c := 'P') (by decide) (by
      simp only [List.mem_append, not_or]
      exact ⟨by decide, hi, by decide⟩) (by decide) (by decide)
  have h3 := replace_last netemToken netemCommand
    ("sudo tc qdisc change dev ".toList ++ (m.interface ++ (" parent ".toList ++
      (parentId m.hostId peerId ++ " netem ".toList)))) [] (c := 'N') (by decide) (by
        simp only [List.mem_append, not_or]
        exact ⟨by decide, hi, by decide, percent_notMem_parentId _ _, by decide⟩)
    (by decide) (by decide)
  have hparent : " parent 1:".toList = " parent ".toList ++ "1:".toList := by decide
  have hnetem : "2 netem ".toList = ['2'] ++ " netem ".toList := by decide
  simp only [List.append_assoc] at h1 h2 h3
  rw [htemplate]
  show replace netemToken _ (replace peerIdToken _ (replace interfaceToken _ _)) = _
  rw [h1, h2]
  simp only [hparent, hnetem, parentId, List.append_assoc] at h3 ⊢
  rw [h3]
  simp [changeCommand, commandLine, parentId]

def addClassCommand (m : NetemManager) (peerId : ℕ) : Text :=
  commandLine ["sudo".toList, "tc".toList, "class".toList, "add".toList, "dev".toList,
    m.interface, "parent".toList, "1:".toList, "classid".toList, parentId m.hostId peerId,
    "htb".toList, "rate".toList] "100Mbps".toList

theorem substitute_addClass (hi : '%' ∉ m.interface) (peer : Peer) :
    substitute [(interfaceToken, m.interface), (destinationIdToken, m.destinationId peer)]
      "sudo tc class add dev %INTERFACE% parent 1: classid 1:%DID% htb rate 100Mbps".toList =
      addClassCommand m peer.id := by
  have htemplate :
      "sudo tc class add dev %INTERFACE% parent 1: classid 1:%DID% htb rate 100Mbps".toList =
      "sudo tc class add dev ".toList ++ (interfaceToken ++ (" parent 1: classid 1:".toList ++
        (destinationIdToken ++ " htb rate 100Mbps".toList))) := by decide +kernel
  have h1 := replace_last interfaceToken m.interface "sudo tc class add dev ".toList
    (" parent 1: classid 1:".toList ++ (destinationIdToken ++ " htb rate 100Mbps".toList))
    (c := 'C') (by decide) (by decide) (by decide) (by decide)
  have h2 := replace_last destinationIdToken (m.destinationId peer)
    ("sudo tc class add dev ".toList ++ (m.interface ++ " parent 1: classid 1:".toList))
    " htb rate 100Mbps".toList (c := 'D') (by decide) (by
      simp only [List.mem_append, not_or]
      exact ⟨by decide, hi, by decide⟩) (by decide) (by decide)
  simp only [List.append_assoc] at h2
  rw [htemplate]
  show replace destinationIdToken _ (replace interfaceToken _ _) = _
  rw [h1, h2]
  simp [addClassCommand, commandLine, parentId, NetemManager.destinationId]

/-- The command that creates the qdisc for a peer. -/
def addQdiscCommand (m : NetemManager) (peer : Peer) : Text :=
  commandLine ["sudo".toList, "tc".toList, "qdisc".toList, "add".toList, "dev".toList,
    m.interface, "parent".toList, parentId m.hostId peer.id, "handle".toList,
    m.destinationId peer ++ [':'], "netem".toList] "delay 0ms".toList

theorem substitute_addQdisc (hi : '%' ∉ m.interface) (peer : Peer) :
    substitute [(interfaceToken, m.interface), (destinationIdToken, m.destinationId peer)]
      "sudo tc qdisc add dev %INTERFACE% parent 1:%DID% handle %DID%: netem delay 0ms".toList =
      addQdiscCommand m peer := by
  have htemplate :
      "sudo tc qdisc add dev %INTERFACE% parent 1:%DID% handle %DID%: netem delay 0ms".toList =
      "sudo tc qdisc add dev ".toList ++ (interfaceToken ++ (" parent 1:".toList ++
        (destinationIdToken ++ (" handle ".toList ++ (destinationIdToken ++
          ": netem delay 0ms".toList))))) := by decide +kernel
  have h1 := replace_last interfaceToken m.interface "sudo tc qdisc add dev ".toList
    (" parent 1:".toList ++ (destinationIdToken ++ (" handle ".toList ++ (destinationIdToken ++
      ": netem delay 0ms".toList)))) (c := 'C') (by decide) (by decide) (by decide) (by decide)
  have h2 := replace_token destinationIdToken (m.destinationId peer)
    ("sudo tc qdisc add dev ".toList ++ (m.interface ++ " parent 1:".toList))
    (" handle ".toList ++ (destinationIdToken ++ ": netem delay 0ms".toList)) (by decide) (by
      simp only [List.mem_append, not_or]
      exact ⟨by decide, hi, by decide⟩)
  have h3 := replace_last destinationIdToken (m.destinationId peer) " handle ".toList
    ": netem delay 0ms".toList (c := 'D') (by decide) (by decide) (by decide) (by decide)
  simp only [List.append_assoc] at h2
  rw [htemplate]
  show replace destinationIdToken _ (replace interfaceToken _ _) = _
  rw [h1, h2, h3]
  simp [addQdiscCommand, commandLine, parentId, NetemManager.destinationId]

/-! ## Lemmas: the kernel -/

theorem Interface.isSome_ruleAt {k : Interface} {p : String} :
    (k.ruleAt p).isSome = true ↔ ∃ q ∈ k.qdiscs, q.parent = p := by
  simp [Interface.ruleAt]

theorem Interface.ruleAt_change (k : Interface) (parent p : String) (rule : List String) :
    (k.change parent rule).ruleAt p =
      if p = parent then (k.ruleAt p).map fun _ => rule else k.ruleAt p := by
  have hparent : ∀ q : Qdisc, (if q.parent = parent then { q with rule } else q).parent = q.parent := by
    intro q
    split <;> rfl
  simp only [Interface.ruleAt, Interface.change, List.find?_map, Function.comp_def, hparent,
    Option.map_map]
  cases hfind : k.qdiscs.find? fun q => q.parent = p with
  | none => simp
  | some q =>
    have hq : q.parent = p := by simpa using List.find?_some hfind
    simp only [Option.map_some, hq]
    split <;> rfl

theorem shell_change (k : Interface) {m : NetemManager} (hi : Word m.interface) (peerId : ℕ)
    (netemCommand : Text) : shell k (changeCommand m peerId netemCommand) =
      if ∃ q ∈ k.qdiscs, q.parent = String.ofList (parentId m.hostId peerId) then
        some (k.change (String.ofList (parentId m.hostId peerId)) (words netemCommand))
      else none := by
  have hwords : words (changeCommand m peerId netemCommand) = _ := words_commandLine (by
    have := word_parentId m.hostId peerId
    simp only [List.mem_cons, List.not_mem_nil, or_false]
    rintro w (rfl | rfl | rfl | rfl | rfl | rfl | rfl | rfl | rfl)
    all_goals first | decide | assumption) netemCommand
  unfold shell
  rw [hwords]
  rfl

theorem shell_addClass {k k' : Interface} {m : NetemManager} (hi : Word m.interface) {peerId : ℕ}
    (h : shell k (addClassCommand m peerId) = some k') :
    classId m.hostId peerId ∉ k.classes ∧ k' = k.addClass m.hostId peerId := by
  have hwords : words (addClassCommand m peerId) = _ := words_commandLine (by
    have := word_parentId m.hostId peerId
    simp only [List.mem_cons, List.not_mem_nil, or_false]
    rintro w (rfl | rfl | rfl | rfl | rfl | rfl | rfl | rfl | rfl | rfl | rfl | rfl)
    all_goals first | decide | assumption) "100Mbps".toList
  unfold shell at h
  rw [hwords] at h
  change (if k.root = true ∧ classId m.hostId peerId ∉ k.classes then
    some (k.addClass m.hostId peerId) else none) = some k' at h
  split at h
  · next hc =>
    cases h
    exact ⟨hc.2, rfl⟩
  · cases h

theorem word_handle (m : NetemManager) (peer : Peer) : Word (m.destinationId peer ++ [':']) := by
  refine ⟨by simp, fun c hc => ?_⟩
  simp only [NetemManager.destinationId, List.mem_append, List.mem_singleton] at hc
  rcases hc with ((hc | hc) | rfl) | rfl
  · exact isSpace_of_isAsciiDigit (isAsciiDigit_of_mem_natText hc)
  · exact isSpace_of_isAsciiDigit (isAsciiDigit_of_mem_natText hc)
  · decide
  · decide

/-- A qdisc that could be added is new under its class. -/
theorem shell_addQdisc {k k' : Interface} {m : NetemManager} (hi : Word m.interface) {peer : Peer}
    (h : shell k (addQdiscCommand m peer) = some k') :
    (∀ q ∈ k.qdiscs, q.parent ≠ classId m.hostId peer.id) ∧ k' = k.addQdisc m.hostId peer.id := by
  have hwords : words (addQdiscCommand m peer) = _ := words_commandLine (by
    have := word_parentId m.hostId peer.id
    have := word_handle m peer
    simp only [List.mem_cons, List.not_mem_nil, or_false]
    rintro w (rfl | rfl | rfl | rfl | rfl | rfl | rfl | rfl | rfl | rfl | rfl)
    all_goals first | decide | assumption) "delay 0ms".toList
  unfold shell at h
  rw [hwords] at h
  change (if classId m.hostId peer.id ∈ k.classes ∧ ∀ q ∈ k.qdiscs,
      q.parent ≠ classId m.hostId peer.id ∧ q.handle ≠ (peerQdisc m.hostId peer.id).handle then
    some (k.addQdisc m.hostId peer.id) else none) = some k' at h
  split at h
  · next hc =>
    cases h
    exact ⟨fun q hq => (hc.2 q hq).1, rfl⟩
  · cases h

/-- The filter commands leave classes and qdiscs alone. -/
theorem shell_filter {k k' : Interface} {rest : Text}
    (h : shell k (commandLine ["sudo".toList, "tc".toList, "filter".toList, "add".toList] rest) =
      some k') : k' = k := by
  have hwords : words (commandLine ["sudo".toList, "tc".toList, "filter".toList, "add".toList]
    rest) = _ := words_commandLine (by decide) rest
  unfold shell at h
  rw [hwords] at h
  change (if k.root = true then some k else none) = some k' at h
  split at h
  · cases h
    rfl
  · cases h

/-! ## Lemmas: the methods of the manager -/

variable {accepts : List Text → Text → Bool}

theorem run_log (accepts : List Text → Text → Bool) (command : Text) (h : Host) :
    (run accepts command h).1.log = h.log ++ [command] := by
  simp only [run]
  split <;> rfl

theorem run_interface (accepts : List Text → Text → Bool) (command : Text) (h : Host) :
    ((run accepts command h).2 = true ∧
      shell h.interface command = some (run accepts command h).1.interface) ∨
    ((run accepts command h).2 = false ∧ (run accepts command h).1.interface = h.interface) := by
  simp only [run]
  split
  · next k hk =>
    split at hk
    · exact .inl ⟨rfl, hk⟩
    · cases hk
  · exact .inr ⟨rfl, rfl⟩

/-- The command is accepted and there is what it changes. -/
theorem run_ok_iff (accepts : List Text → Text → Bool) (command : Text) (h : Host) :
    (run accepts command h).2 = true ↔
      accepts h.log command = true ∧ (shell h.interface command).isSome = true := by
  simp only [run]
  cases accepts h.log command with
  | true => cases shell h.interface command <;> simp
  | false => simp

theorem runCommands_singleton (tokens : List (Text × Text)) (command : Text) (h : Host) :
    runCommands accepts tokens [command] h = run accepts (substitute tokens command) h := by
  simp only [runCommands]
  split
  · next hr => exact hr.symm
  · next hr => exact hr.symm

theorem untilFalse_keeps {α : Type} {f : α → Host → Host × Bool} {P : Host → Prop} {l : List α}
    (hf : ∀ a ∈ l, ∀ h, P h → P (f a h).1) {h : Host} (hP : P h) : P (untilFalse f l h).1 := by
  induction l generalizing h with
  | nil => exact hP
  | cons a l ih =>
    have ha := hf a List.mem_cons_self h hP
    simp only [untilFalse]
    split
    · next h' hr =>
      rw [hr] at ha
      exact ih (fun b hb => hf b (List.mem_cons_of_mem a hb)) ha
    · next h' hr =>
      rw [hr] at ha
      exact ha

theorem modifyOutgoingConnection_eq (hi : '%' ∉ m.interface) (peerId : ℕ) (netemCommand : Text)
    (h : Host) : m.modifyOutgoingConnection accepts (natText peerId) netemCommand h =
      run accepts (changeCommand m peerId netemCommand) h := by
  unfold NetemManager.modifyOutgoingConnection modifyOutgoingConnectionsCommands
  rw [runCommands_singleton, substitute_change hi]

/-- A filter command, whatever is substituted in it, leaves the interface as it is. -/
theorem run_filter {tokens : List (Text × Text)} (htok : ∀ t ∈ tokens, t.1.head? = some '%')
    (rest : Text) (h : Host) :
    (run accepts (substitute tokens ("sudo tc filter add ".toList ++ rest)) h).1.interface =
      h.interface := by
  rw [substitute_append htok (by decide)]
  obtain ⟨-, hs⟩ | ⟨-, hs⟩ := run_interface accepts
    ("sudo tc filter add ".toList ++ substitute tokens rest) h
  · exact shell_filter hs
  · exact hs

theorem filterCommandsLocal_eq : createPeerFilterCommandsLocal =
    ["sudo tc filter add ".toList ++ ("dev %INTERFACE% protocol ip u32 match ip dport " ++
      "%PPORT% 0xffff flowid 1:%DID%").toList] := by decide +kernel

theorem filterCommandsGce_eq : createPeerFilterCommandsGce =
    ["sudo tc filter add ".toList ++ ("dev %INTERFACE% protocol ip u32 match ip dst " ++
      "%PADDRESS%/32 flowid 1:%DID%").toList] := by decide +kernel

/-- **What creating the qdisc for a peer can do**: nothing, add the class, or add the class and
the qdisc, where there were none. -/
theorem createPeerQdisc_cases (accepts : List Text → Text → Bool) (hi : Word m.interface)
    (hi' : '%' ∉ m.interface) (peer : Peer) (h : Host) :
    ((m.createPeerQdisc accepts peer h).2 = false ∧
      (m.createPeerQdisc accepts peer h).1.interface = h.interface) ∨
    ((m.createPeerQdisc accepts peer h).2 = false ∧
      (m.createPeerQdisc accepts peer h).1.interface = h.interface.addClass m.hostId peer.id) ∨
    ((∀ q ∈ h.interface.qdiscs, q.parent ≠ classId m.hostId peer.id) ∧
      (m.createPeerQdisc accepts peer h).1.interface =
        (h.interface.addClass m.hostId peer.id).addQdisc m.hostId peer.id) := by
  have hclass : runCommands accepts [(interfaceToken, m.interface),
      (destinationIdToken, m.destinationId peer)] createPeerClassCommands h =
      run accepts (addClassCommand m peer.id) h := by
    unfold createPeerClassCommands
    rw [runCommands_singleton, substitute_addClass hi']
  have hqdisc : ∀ h, runCommands accepts [(interfaceToken, m.interface),
      (destinationIdToken, m.destinationId peer)] createPeerQdiscCommands h =
      run accepts (addQdiscCommand m peer) h := by
    intro h
    unfold createPeerQdiscCommands
    rw [runCommands_singleton, substitute_addQdisc hi']
  -- the filters that follow change nothing
  have hfilters : ∀ {α : Type} (l : List α) (token : Text) (value : α → Text) (rest : Text)
      (h' : Host), token.head? = some '%' → (untilFalse (fun a => runCommands accepts
        ([(interfaceToken, m.interface), (destinationIdToken, m.destinationId peer)] ++
          [(token, value a)]) ["sudo tc filter add ".toList ++ rest]) l h').1.interface =
        h'.interface := by
    intro α l token value rest h' htoken
    refine untilFalse_keeps (P := fun h => h.interface = h'.interface) (fun a _ h hh => ?_) rfl
    rw [runCommands_singleton, run_filter _ rest h, hh]
    intro t ht
    simp only [List.cons_append, List.nil_append, List.mem_cons, List.not_mem_nil, or_false] at ht
    rcases ht with rfl | rfl | rfl
    · rfl
    · rfl
    · exact htoken
  simp only [NetemManager.createPeerQdisc, hclass, hqdisc, filterCommandsLocal_eq,
    filterCommandsGce_eq]
  have h1 := run_interface accepts (addClassCommand m peer.id) h
  generalize run accepts (addClassCommand m peer.id) h = r₁ at h1 ⊢
  obtain ⟨h₁, _ | _⟩ := r₁
  · exact .inl ⟨rfl, (h1.resolve_left fun h => nomatch h.1).2⟩
  obtain ⟨-, h1⟩ := h1.resolve_right fun h => nomatch h.1
  obtain ⟨-, hk₁⟩ := shell_addClass hi h1
  dsimp only at hk₁ ⊢
  have h2 := run_interface accepts (addQdiscCommand m peer) h₁
  generalize run accepts (addQdiscCommand m peer) h₁ = r₂ at h2 ⊢
  obtain ⟨h₂, _ | _⟩ := r₂
  · exact .inr (.inl ⟨rfl, (h2.resolve_left fun h => nomatch h.1).2.trans hk₁⟩)
  obtain ⟨-, h2⟩ := h2.resolve_right fun h => nomatch h.1
  obtain ⟨hnew, hk₂⟩ := shell_addQdisc hi h2
  dsimp only at hk₂ ⊢
  rw [hk₁] at hnew hk₂
  refine .inr (.inr ⟨hnew, Eq.trans ?_ hk₂⟩)
  split
  · exact hfilters peer.portsToLock peerPortToken natText _ h₂ rfl
  · exact hfilters peer.addressesToLock peerAddressToken id _ h₂ rfl

/-- Where it worked, both were added. -/
theorem createPeerQdisc_spec (accepts : List Text → Text → Bool) (hi : Word m.interface)
    (hi' : '%' ∉ m.interface) (peer : Peer) (h : Host)
    (hok : (m.createPeerQdisc accepts peer h).2 = true) :
    (∀ q ∈ h.interface.qdiscs, q.parent ≠ classId m.hostId peer.id) ∧
    (m.createPeerQdisc accepts peer h).1.interface =
      (h.interface.addClass m.hostId peer.id).addQdisc m.hostId peer.id := by
  rcases createPeerQdisc_cases accepts hi hi' peer h with ⟨hfalse, -⟩ | ⟨hfalse, -⟩ | hcases
  · rw [hok] at hfalse
    cases hfalse
  · rw [hok] at hfalse
    cases hfalse
  · exact hcases

theorem Interface.ruleAt_append {k k' : Interface} {q : Qdisc} {rule : List String}
    (hk : k'.qdiscs = k.qdiscs ++ [q]) {p : String} (h : k.ruleAt p = some rule) :
    k'.ruleAt p = some rule := by
  unfold Interface.ruleAt at h ⊢
  obtain ⟨q', hq', rfl⟩ := Option.map_eq_some_iff.mp h
  rw [hk, List.find?_append, hq']
  rfl

theorem Interface.ruleAt_new {k k' : Interface} {q : Qdisc} (hk : k'.qdiscs = k.qdiscs ++ [q])
    (hnew : ∀ q' ∈ k.qdiscs, q'.parent ≠ q.parent) : k'.ruleAt q.parent = some q.rule := by
  have hnone : k.qdiscs.find? (fun q' => q'.parent = q.parent) = none := by
    rw [List.find?_eq_none]
    intro q' hq'
    simpa using hnew q' hq'
  simp [Interface.ruleAt, hk, List.find?_append, hnone]

/-- An initialisation that worked gave every peer a qdisc with the rule "delay 0ms". -/
theorem initQdisc_spec (hi : Word m.interface) (hi' : '%' ∉ m.interface) (h : Host)
    (hok : (m.initQdisc accepts h).2 = true) : ∀ peer ∈ m.peers,
    (m.initQdisc accepts h).1.interface.ruleAt (String.ofList (parentId m.hostId peer.id)) =
      some ["delay", "0ms"] := by
  suffices ∀ (peers : List Peer) (h : Host), (untilFalse (m.createPeerQdisc accepts) peers h).2 =
      true → (∀ p, h.interface.ruleAt p = some ["delay", "0ms"] → (untilFalse
        (m.createPeerQdisc accepts) peers h).1.interface.ruleAt p = some ["delay", "0ms"]) ∧
      ∀ peer ∈ peers, (untilFalse (m.createPeerQdisc accepts) peers h).1.interface.ruleAt
        (String.ofList (parentId m.hostId peer.id)) = some ["delay", "0ms"] from
    (this m.peers h hok).2
  intro peers
  induction peers with
  | nil => exact fun h _ => ⟨fun _ hp => hp, fun _ hpeer => absurd hpeer List.not_mem_nil⟩
  | cons peer peers ih =>
    intro h hok
    have hspec := createPeerQdisc_spec accepts hi hi' peer h
    simp only [untilFalse] at hok ⊢
    generalize m.createPeerQdisc accepts peer h = r at hspec hok ⊢
    obtain ⟨h', _ | _⟩ := r
    · cases hok
    · obtain ⟨hnew, hk⟩ := hspec rfl
      have hq : h'.interface.qdiscs = h.interface.qdiscs ++ [peerQdisc m.hostId peer.id] :=
        congrArg Interface.qdiscs hk
      obtain ⟨hkeep, hall⟩ := ih h' hok
      refine ⟨fun p hp => hkeep p (Interface.ruleAt_append hq hp), fun peer' hpeer' => ?_⟩
      rcases List.mem_cons.mp hpeer' with rfl | hpeer'
      · exact hkeep _ (Interface.ruleAt_new hq hnew)
      · exact hall peer' hpeer'

end Commands

end Netem
