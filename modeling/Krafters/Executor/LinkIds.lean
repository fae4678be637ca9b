import Krafters.Executor.MainStages
import Krafters.Executor.ParserLines
import Krafters.Executor.ResolveIds
import Krafters.Netem.NetemMaster

/-!
# The ids of a link command, from its line to the calls of the network managers

The line gives tokens (`isToken_of_lineKind`), `resolve_ids` turns them into ids, and the
master looks each id up (`LinkCall.run_never_keyError`).  The check of a numeral has an
upper bound only, so 0 passes it:

    LinksNameNodes u sources targets … ↔ ¬ ZeroPasses u.nodesNumber sources targets

with `LinksNameNodes` for what the checks are there for, and `ZeroPasses` for a line
that names 0 and that no other check stops.
-/

open Py Executor.Parser Executor.CommandUnwrapper Hoare

namespace Executor

/-! ## The lookups of an execution -/

variable {accepts : ℕ → List Text → Text → Bool} {n : ℕ} {m : NetemMaster}

/-- The master has a server for each of the nodes 1 to `n`. -/
def HasNodes (m : NetemMaster) (n : ℕ) : Prop :=
  ∀ id, 1 ≤ id → id ≤ n → ∃ s, m.nodesRpc.lookup (natText id) = some s

theorem modifyOutgoing_never_keyError (hm : HasNodes m n) {s : ℕ} (hs : 1 ≤ s) (hn : s ≤ n) (t : ℕ)
    (netemCommand : Text) :
    Never (.other .keyError) (m.modifyOutgoing accepts s t netemCommand) := by
  obtain ⟨server, hserver⟩ := hm s hs hn
  unfold NetemMaster.modifyOutgoing NetemMaster.server
  rw [hserver]
  refine Never.bind (fun h h' herror => nomatch herror) ?_
  intro server
  refine Never.bind (fun h h' herror => nomatch herror) ?_
  intro worked
  cases worked with
  | true => exact fun h h' herror => nomatch herror
  | false => exact fun h h' herror => nomatch herror

/-- **No lookup of a call fails** when all its ids are nodes. -/
theorem LinkCall.run_never_keyError (hm : HasNodes m n) {c : LinkCall} (hc : c.Names n) :
    Never (.other .keyError) (c.run accepts m) := by
  rw [c.run_eq]
  apply Never.forM
  intro p hp
  obtain ⟨-, ⟨hs, hn⟩, -⟩ := hc.of_mem_links hp
  exact modifyOutgoing_never_keyError hm hs hn _ _

/-! ## The tokens of a line -/

theorem isToken_of_isIds {ids : List Text} (h : IsIds ids) : ∀ id ∈ ids.map IdToken.str, IsToken id := by
  intro id hid
  obtain ⟨value, hvalue, rfl⟩ := List.mem_map.mp hid
  rcases h with rfl | ⟨-, hmembers⟩
  · obtain rfl := List.mem_singleton.mp hvalue
    exact .inr (.inr rfl)
  · rcases hmembers value hvalue with rfl | ⟨hne, hdigits⟩
    · exact .inr (.inl rfl)
    · exact .inl (isDigit_of_digits hne hdigits)

section
variable {line : Text} {sources targets : List Text} {netemCommand : Text} {bidirectional : Bool}

/-- The ids of a line that the parser takes for a link command. -/
theorem isToken_of_lineKind
    (h : lineKind line = .command (.modifyLinkFromTo sources targets netemCommand bidirectional)) :
    ∀ id ∈ sources.map IdToken.str ++ targets.map IdToken.str, IsToken id := by
  obtain ⟨l, -, -, rfl, rfl, -⟩ := exists_linkLine_of_lineKind h
  exact fun id hid => (List.mem_append.mp hid).elim (isToken_of_isIds l.sources.isIds id)
    (isToken_of_isIds l.targets.isIds id)

end

/-! ## What the checks are there for -/

/-- A numeral that is not the id of a node. -/
def NamesOther (n : ℕ) (sources targets : List Text) : Prop :=
  ∃ k ∈ numerals (sources.map .str ++ targets.map .str), ¬ (1 ≤ k ∧ k ≤ n)

/-- A link command is accepted with ids of nodes only, on which no lookup fails, or rejected. -/
structure LinksNameNodes (u : CommandUnwrapper) (sources targets : List Text) (netemCommand : Text)
    (bidirectional : Bool) : Prop where
  accepted : ∀ draws f,
    u.invoke (.modifyLinkFromTo sources targets netemCommand bidirectional) draws = some (.ok f) →
    ∃ s t, f = .executor (.modifyLinkFromTo s t netemCommand bidirectional) ∧
      (∀ id ∈ s ++ t, 1 ≤ id ∧ id ≤ u.nodesNumber) ∧
      ∀ (accepts : ℕ → List Text → Text → Bool) m, HasNodes m u.nodesNumber →
        Never (.other .keyError) (modifyLinkFromTo accepts m s t netemCommand bidirectional)
  rejected : NamesOther u.nodesNumber sources targets → ∀ draws r,
    u.invoke (.modifyLinkFromTo sources targets netemCommand bidirectional) draws = some r →
    ∃ message, r = .error (idError message)
  /-- `main` executes nothing of a program with a command that names another id -/
  before_execution : NamesOther u.nodesNumber sources targets →
    ∀ (testFile : List Text) commands (B : (commands : List Command) → Behaviour u commands) j line
      draws, Ends testFile (.ok commands) →
    commands[j]? = some ⟨.modifyLinkFromTo sources targets netemCommand bidirectional, line⟩ →
    u.invoke (.modifyLinkFromTo sources targets netemCommand bidirectional) draws =
      some ((B commands).check j) →
    ∃ r, (∃ N, ∀ fuel, N ≤ fuel → main u testFile B fuel = some r) ∧ executions r.2 = [] ∧
      r.1 ≠ .ok ()

/-- The line names 0, and passes the guard and the check of the numerals. -/
def ZeroPasses (n : ℕ) (sources targets : List Text) : Prop :=
  0 ∈ numerals (sources.map .str ++ targets.map .str) ∧
  (∀ k ∈ numerals (sources.map .str ++ targets.map .str), k ≤ n) ∧
  Room n (sources.map .str) (targets.map .str)

/-! ## Accepted and rejected commands -/

section
variable {u : CommandUnwrapper} {sources targets : List Text} {netemCommand : Text}
  {bidirectional : Bool}

theorem invoke_link (draws : List (Fin u.nodesNumber)) :
    u.invoke (.modifyLinkFromTo sources targets netemCommand bidirectional) draws =
      u.modifyLinkFromTo (sources.map .str) (targets.map .str) netemCommand bidirectional draws := rfl

/-- A program with a command whose validation raises is not executed. -/
theorem main_not_executed {testFile : List Text} {commands : List Command}
    (hends : Ends testFile (.ok commands)) (B : (commands : List Command) → Behaviour u commands)
    {j : ℕ} (hj : j < commands.length) (hraised : (raised ((B commands).check j)).isSome = true) :
    ∃ r, (∃ N, ∀ fuel, N ≤ fuel → main u testFile B fuel = some r) ∧ executions r.2 = [] ∧
      r.1 ≠ .ok () :=
  ⟨_, main_eq_twoPhase hends B, (twoPhase_orderly (B commands)).raised_check ⟨j, hj, hraised⟩,
    (twoPhase_error_iff (B commands)).mpr ⟨j, hj, .inl hraised⟩⟩

/-- The guard of local mode raises no id error. -/
theorem localGuard_ne_idError (s : List ℕ) (message : Text) :
    u.localGuard s bidirectional ≠ .error (idError message) := by
  unfold localGuard
  split
  · split
    · intro h
      cases h
    · split
      · intro h
        cases h
      · intro h
        cases h
  · intro h
    cases h

variable (htok : ∀ id ∈ sources.map IdToken.str ++ targets.map IdToken.str, IsToken id)

include htok

/-- What is accepted. -/
theorem accepted_ids (hzero : ¬ ZeroPasses u.nodesNumber sources targets)
    {draws : List (Fin u.nodesNumber)} {s t : List ℕ}
    (h : u.resolveIds (sources.map .str) (targets.map .str) draws = some (.ok (s, t))) :
    ∀ id ∈ s ++ t, 1 ≤ id ∧ id ≤ u.nodesNumber := by
  obtain ⟨hroom, hrange, hresolved⟩ := resolveIds_ok htok h
  have hnumeral : ∀ id ∈ numerals (sources.map .str ++ targets.map .str),
      1 ≤ id ∧ id ≤ u.nodesNumber := by
    refine fun id hid => ⟨?_, hrange id hid⟩
    by_contra hlt
    obtain rfl : id = 0 := by omega
    exact hzero ⟨hid, hrange, hroom⟩
  rw [numerals_append] at hnumeral
  intro id hid
  rcases List.mem_append.mp hid with hid | hid
  · rcases (hresolved.mem_sources id).mp hid with hid | hid | hid
    · exact hnumeral id (List.mem_append_left _ hid)
    · have := hresolved.fresh id (List.mem_of_mem_take hid)
      exact ⟨this.1, this.2.1⟩
    · exact hid.2
  · rcases (hresolved.mem_targets id).mp hid with hid | hid | hid
    · exact hnumeral id (List.mem_append_right _ hid)
    · have := hresolved.fresh id (List.mem_of_mem_drop hid)
      exact ⟨this.1, this.2.1⟩
    · exact hid.2

/-- What is rejected. -/
theorem rejected_ids (hzero : ¬ ZeroPasses u.nodesNumber sources targets)
    (hother : NamesOther u.nodesNumber sources targets) {draws : List (Fin u.nodesNumber)}
    {r : Except PyExc Closure} (h : u.invoke (.modifyLinkFromTo sources targets netemCommand
      bidirectional) draws = some r) : ∃ message, r = .error (idError message) := by
  have herror : ∀ message, u.resolveIds (sources.map .str) (targets.map .str) draws =
      some (.error (idError message)) → r = .error (idError message) := by
    intro message hresolve
    rw [invoke_link, CommandUnwrapper.modifyLinkFromTo, hresolve] at h
    exact (Option.some.inj h).symm
  by_cases hroom : Room u.nodesNumber (sources.map .str) (targets.map .str)
  · have hrun : ((start (sources.map .str) (targets.map .str)).run draws).count = 0 := by
      by_contra hrun
      rw [invoke_link, CommandUnwrapper.modifyLinkFromTo, resolveIds_running htok hroom hrun] at h
      cases h
    have hout : ∃ k ∈ numerals (sources.map .str ++ targets.map .str), u.nodesNumber < k := by
      by_contra hle
      have hrange : ∀ k ∈ numerals (sources.map .str ++ targets.map .str), k ≤ u.nodesNumber :=
        fun k hk => Nat.le_of_not_lt fun hlt => hle ⟨k, hk, hlt⟩
      obtain ⟨k, hk, hnot⟩ := hother
      have hkn := hrange k hk
      obtain rfl : k = 0 := by omega
      exact hzero ⟨hk, hrange, hroom⟩
    obtain ⟨message, hresolve⟩ := resolveIds_outOfRange htok hroom hout hrun
    exact ⟨message, herror message hresolve⟩
  · obtain ⟨message, hresolve⟩ := resolveIds_noRoom htok hroom draws
    exact ⟨message, herror message hresolve⟩

/-- A 0 that passes is not rejected, whatever local mode says of the command. -/
theorem exists_draws_of_zero (hzero : ZeroPasses u.nodesNumber sources targets) :
    ∃ draws r, u.invoke (.modifyLinkFromTo sources targets netemCommand bidirectional) draws =
      some r ∧ ∀ message, r ≠ .error (idError message) := by
  obtain ⟨-, hrange, hroom⟩ := hzero
  obtain ⟨draws, hrun⟩ := (fresh_start hroom).exists_draws
  obtain ⟨s, t, hresolve, -⟩ := resolveIds_resolved htok hroom hrange hrun
  refine ⟨draws, _, by rw [invoke_link, CommandUnwrapper.modifyLinkFromTo, hresolve]; rfl, ?_⟩
  intro message h
  cases hguard : u.localGuard s bidirectional with
  | error e =>
    simp only [bind, Except.bind, hguard, Except.error.injEq] at h
    exact localGuard_ne_idError s message (h ▸ hguard)
  | ok _ =>
    simp only [bind, Except.bind, hguard, pure, Except.pure] at h
    cases h

end

/-! ## Top theorem -/

/-- **When the checks do what they are there for**: on every line of a link command but those in
which a 0 passes. -/
theorem links_name_nodes_iff {line : Text} {sources targets : List Text} {netemCommand : Text}
    {bidirectional : Bool}
    (h : lineKind line = .command (.modifyLinkFromTo sources targets netemCommand bidirectional))
    (u : CommandUnwrapper) : LinksNameNodes u sources targets netemCommand bidirectional ↔
      ¬ ZeroPasses u.nodesNumber sources targets := by
  have htok := isToken_of_lineKind h
  constructor
  · intro hlinks hzero
    obtain ⟨draws, r, hr, hne⟩ := exists_draws_of_zero htok hzero
    obtain ⟨message, herror⟩ := hlinks.rejected ⟨0, hzero.1, by omega⟩ draws r hr
    exact hne message herror
  · intro hzero
    refine ⟨fun draws f hf => ?_, fun hother draws r hr => rejected_ids htok hzero hother hr,
      fun hother testFile commands B j line draws hends hj hcheck => ?_⟩
    · obtain ⟨s, t, hresolve, -, rfl⟩ := u.modifyLinkFromTo_ok.mp hf
      have hids := accepted_ids htok hzero hresolve
      refine ⟨s, t, rfl, hids, fun accepts m hm => ?_⟩
      exact LinkCall.run_never_keyError hm (c := ⟨s, t, netemCommand, bidirectional⟩) hids
    · obtain ⟨message, herror⟩ := rejected_ids htok hzero hother hcheck
      refine main_not_executed hends B (List.getElem?_eq_some_iff.mp hj).1 ?_
      rw [herror]
      rfl

theorem links_name_nodes_iff_four : LinksNameNodes ⟨3, false⟩ ["4".toList] ["1".toList]
    " delay 10ms".toList false ↔ ¬ ZeroPasses 3 ["4".toList] ["1".toList] :=
  @links_name_nodes_iff "from 4 to 1 set delay 10ms".toList _ _ _ _ (by decide +kernel) ⟨3, false⟩

/-- A link from node 0 is validated, and its execution fails at the lookup. -/
theorem links_not_name_nodes :
    lineKind "from 0 to 1 set delay 10ms".toList = .command
      (.modifyLinkFromTo ["0".toList] ["1".toList] " delay 10ms".toList false) ∧
    (∀ hosts : Hosts, modifyLinkFromTo (fun _ _ _ => true) ⟨threeNodes⟩ [0] [1]
      " delay 10ms".toList false hosts = .error (.other .keyError) hosts) ∧
    ¬ LinksNameNodes ⟨3, false⟩ ["0".toList] ["1".toList] " delay 10ms".toList false := by
  refine ⟨by decide +kernel, fun hosts => rfl, fun h => ?_⟩
  obtain ⟨s, t, hf, hids, -⟩ := h.accepted [] (.executor (.modifyLinkFromTo [0] [1]
    " delay 10ms".toList false)) (by decide +kernel)
  cases hf
  exact absurd (hids 0 (by decide)) (by decide)

end Executor
