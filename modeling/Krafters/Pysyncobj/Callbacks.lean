import Krafters.Pysyncobj.CustomServer
import Mathlib.Data.List.Perm.Subperm

/-!
# Callbacks

A function that a client gave with a command is in one place of its node, the commands queue, the
commands that wait for a reply, or those that wait for a commit, until it is called:

    called ++ pending  ~  submitted                         (callbacks_accounted)

While the tick thread runs no function is lost, and none is ever called twice.
-/

namespace Pysyncobj

variable {P : Replicated} {U : Type} [DecidableEq U]

/-! ## Algorithm -/

/-- The functions that node `u` has called. -/
def System.called (s : System P U) (u : U) : List ℕ :=
  s.calls.filterMap fun c => if c.1 = u then some c.2.function else none

/-- The functions that clients of node `u` have submitted. -/
def System.functions (s : System P U) (u : U) : List ℕ :=
  s.submitted.filterMap fun c => if c.1 = u then c.2.2 else none

/-! ## Lemmas -/

variable {c : Cluster U} {a : List (Entry P.Command × Entry P.Command)} {s : System P U} {u v : U}
  {n : SyncObj P U} {e : Event P U} {env : Environment} {r : Turn P U}

omit [DecidableEq U] in
/-- What is found first goes first. -/
theorem perm_eraseP {α : Type} {l : List α} {x : α} {q : α → Bool} (h : l.find? q = some x) :
    l.Perm (x :: l.eraseP q) := by
  obtain ⟨hx, before, after, rfl, hbefore⟩ := List.find?_eq_some_iff_append.mp h
  rw [List.eraseP_append_right _ (fun y hy => by simpa using hbefore y hy),
    List.eraseP_cons_of_pos hx]
  exact List.perm_middle

theorem Change.pending (h : Change e ⟨n, [], [], [], env⟩ r) :
    (r.calls.map Call.function ++ r.node.pending).Perm n.pending := by
  rw [List.perm_iff_count]
  intro k
  simp only [SyncObj.pending, List.count_append]
  cases h with
  | leaderChanged =>
    simp [Function.comp_def]
    omega
  | append hl hq hlast hs =>
    dsimp only at hq
    cases ‹Callback U› <;> simp [hq, List.filterMap_cons, Callback.waits, List.count_cons]
    omega
  | forward leader hq hs =>
    dsimp only at hq
    simp [hq, List.count_cons]
    omega
  | forwardQuietly leader hq hs =>
    dsimp only at hq
    simp [hq, List.filterMap_cons]
  | refuse hq hs =>
    dsimp only at hq
    simp [hq, List.filterMap_cons]
  | missingLeader env hq =>
    dsimp only at hq
    simp [hq, List.count_cons]
    omega
  | @apply entry command _ h =>
    have hfunctions : (n.replies entry (P.apply command n.data).1).map Call.function =
        (n.commandsWaitingCommit.filter (·.1 = entry.idx)).map (·.2.2) := by
      rw [SyncObj.replies, List.map_map]
      exact List.map_congr_left fun s _ => entry.reply_function _ s
    have hsplit := ((List.filter_append_perm (fun s : ℕ × ℕ × ℕ => decide (s.1 = entry.idx))
      n.commandsWaitingCommit).map (·.2.2)).count_eq k
    rw [List.map_append, List.count_append] at hsplit
    simp only [List.nil_append, hfunctions]
    simp only [decide_not] at *
    omega
  | replied env he h =>
    have := ((perm_eraseP h).map (·.2)).count_eq k
    simp [List.count_cons] at this ⊢
    omega
  | appended he h =>
    have := ((perm_eraseP h).map (·.2)).count_eq k
    simp [List.count_cons] at this ⊢
    omega
  | _ => simp

omit [DecidableEq U] in
theorem Opening.pending (h : Opening e ⟨n, [], [], [], env⟩ r) :
    r.calls = [] ∧ r.node.pending = n.pending := by
  cases h with
  | enqueue he =>
    refine ⟨rfl, ?_⟩
    cases he <;> simp [SyncObj.pending, List.filterMap_cons]
  | vote he hs =>
    refine ⟨rfl, ?_⟩
    dsimp only
    split <;> rfl
  | count he hc ht => exact ⟨rfl, rfl⟩

omit [DecidableEq U] in
theorem Interrupted.pending (h : Interrupted ⟨n, [], [], [], env⟩ r) :
    (r.calls.map Call.function).Subperm n.pending := by
  obtain ⟨calls, heq, hsub, -⟩ := h.calls
  rwa [heq, List.nil_append]

namespace SyncObj

variable (n : SyncObj P U) (command : P.Command) (function : Option ℕ) (env : Environment)

omit [DecidableEq U] in
theorem submit_called :
    ((n.submit command function env).calls.map Call.function).Sublist function.toList := by
  rcases (submit_cases n command function env).2 with ⟨-, hcalls⟩ | ⟨-, hcalls⟩
  · rw [hcalls]
    exact List.nil_sublist _
  · rw [hcalls, List.map_map]
    cases function <;> exact .refl _

omit [DecidableEq U] in
theorem submit_pending : (n.submit command function env).node.halted = n.halted ∧
    ((n.submit command function env).calls.map Call.function ++
      (n.submit command function env).node.pending).Perm (n.pending ++ function.toList) := by
  rcases (submit_cases n command function env).2 with ⟨hn, hcalls⟩ | ⟨hn, hcalls⟩
  · rw [hn, hcalls]
    refine ⟨rfl, ?_⟩
    rw [List.perm_iff_count]
    intro k
    cases function <;>
      simp [pending, List.filterMap_append, List.filterMap_cons, List.count_append, List.count_cons]
    omega
  · rw [hn, hcalls, List.map_map]
    refine ⟨rfl, ?_⟩
    cases function
    · rw [Option.toList_none, List.append_nil]
      exact .refl _
    · exact List.perm_append_comm

end SyncObj

namespace System

theorem called_during_self : (s.during u r).called u = s.called u ++ r.calls.map Call.function := by
  simp [called, during, List.filterMap_append, List.filterMap_map]

theorem called_during_of_ne (h : v ≠ u) : (s.during u r).called v = s.called v := by
  simp [called, during, List.filterMap_append, List.filterMap_map, h.symm]

end System

/-- What holds of the functions of a node, as long as it runs and after it. -/
structure Accounted (s : System P U) (u : U) : Prop where
  called : (s.called u).Subperm (s.functions u)
  pending : (s.nodes u).halted = false →
    (s.called u ++ (s.nodes u).pending).Perm (s.functions u)

/-- An event of one node, which is accounted in it. -/
theorem Accounted.during (h : ∀ v, v ≠ u → Accounted s v)
    (hcalled : (s.called u ++ r.calls.map Call.function).Subperm (s.functions u))
    (hpending : r.node.halted = false →
      (s.called u ++ r.calls.map Call.function ++ r.node.pending).Perm (s.functions u)) (v : U) :
    Accounted (s.during u r) v := by
  by_cases hv : v = u
  · subst hv
    refine ⟨?_, ?_⟩
    · rw [System.called_during_self]
      exact hcalled
    · rw [System.called_during_self, System.during_self]
      exact hpending
  · refine ⟨?_, ?_⟩
    · rw [System.called_during_of_ne hv]
      exact (h v hv).called
    · rw [System.called_during_of_ne hv, System.during_of_ne hv]
      exact (h v hv).pending

/-- Some of the pending functions are called. -/
theorem Accounted.calls (h : Accounted s u) (hh : (s.nodes u).halted = false)
    (hr : (r.calls.map Call.function ++ r.node.pending).Perm (s.nodes u).pending) :
    (s.called u ++ r.calls.map Call.function).Subperm (s.functions u) ∧
      (s.called u ++ r.calls.map Call.function ++ r.node.pending).Perm (s.functions u) := by
  have hperm := (hr.append_left (s.called u)).trans (h.pending hh)
  rw [← List.append_assoc] at hperm
  exact ⟨(List.sublist_append_left _ _).subperm.trans hperm.subperm, hperm⟩

namespace Cluster

theorem Moment.accounted (h : c.Moment a s) : ∀ u, Accounted s u := by
  induction h with
  | initial => exact fun u => ⟨List.nil_subperm, fun _ => .refl _⟩
  | lose _ hp ih => exact fun u => ⟨(ih u).called, (ih u).pending⟩
  | @opening a s p before behind env r _ hu hh hp ho ih =>
    obtain ⟨hcalls, hpending⟩ := ho.pending
    have hself := (ih p.toAddr).calls (r := r) hh (by rw [hcalls, hpending]; exact .refl _)
    exact Accounted.during (s := { s with network := before ++ behind })
      (fun v _ => ⟨(ih v).called, (ih v).pending⟩) hself.1 fun _ => hself.2
  | @change a s u e env r _ _ hh _ hc ih =>
    have hself := (ih u).calls hh hc.pending
    exact Accounted.during (fun v _ => ih v) hself.1 fun _ => hself.2
  | @broken a s u env r _ hu hh hi ih =>
    refine Accounted.during (fun v _ => ih v) ?_ fun h => nomatch h
    exact ((List.subperm_append_left (s.called u)).mpr hi.pending).trans
      ((ih u).pending hh).subperm
  | @submit a s u command function env _ hu ih =>
    have hfunctions : ({ s with submitted := s.submitted ++ [(u, command, function)] } :
        System P U).functions u = s.functions u ++ function.toList := by
      cases function <;> simp [System.functions, List.filterMap_append]
    have hother : ∀ v ≠ u, ({ s with submitted := s.submitted ++ [(u, command, function)] } :
        System P U).functions v = s.functions v := by
      intro v hv
      simp [System.functions, List.filterMap_append, hv.symm]
    refine Accounted.during (s := { s with submitted := s.submitted ++ [(u, command, function)] })
      (fun v hv => ⟨?_, ?_⟩) ?_ ?_
    · rw [hother v hv]
      exact (ih v).called
    · rw [hother v hv]
      exact (ih v).pending
    · rw [hfunctions]
      exact ((List.subperm_append_left _).mpr
        ((s.nodes u).submit_called command function env).subperm).trans
          ((List.subperm_append_right _).mpr (ih u).called)
    · obtain ⟨hhalted, hperm⟩ := (s.nodes u).submit_pending command function env
      intro hh
      rw [hfunctions, List.append_assoc]
      refine (hperm.append_left _).trans ?_
      rw [← List.append_assoc]
      exact ((ih u).pending (hhalted ▸ hh)).append_right _

/-! ## Top theorems -/

/-- **No callback is lost or called twice**: at every time the functions that a node has called are
among those that its clients submitted, each as often at most; and while its tick thread runs, the
others are still pending. -/
theorem callbacks_accounted (h : c.Reachable s) (u : U) :
    (s.called u).Subperm (s.functions u) ∧ ((s.nodes u).halted = false →
      (s.called u ++ (s.nodes u).pending).Perm (s.functions u)) := by
  obtain ⟨a, hm⟩ := h.moment
  exact ⟨(hm.accounted u).called, (hm.accounted u).pending⟩

theorem callbacks_accounted_oneCommand :
    let s := oneCommand.foldl pair.play pair.initial
    s.called true = [9] ∧ (s.nodes true).halted = false ∧ (s.called true).Subperm (s.functions true) ∧
      ((s.nodes true).halted = false →
        (s.called true ++ (s.nodes true).pending).Perm (s.functions true)) :=
  ⟨by decide +kernel, by decide +kernel, callbacks_accounted (Reachable.plays .refl oneCommand) true⟩

end Cluster

end Pysyncobj
