import Mathlib.Data.Int.Notation
import Mathlib.Logic.Function.Basic
import Mathlib.Tactic.Common

/-!
# test_daemon.cluster_append_entry against a cluster node, step by step

The daemon calls `append_entry`, spins on `CLUSTER_ACK`, reads and clears it; the node
accepts values and calls `cluster_append_complete` later, each in steps of its own that
interleave freely.  A call may raise at any moment, whatever the node has done or will
still do with it.

`CLUSTER_ACK` names no append.  `acknowledgements_match`: it is always the one in progress,
as long as no completion of an append whose call raises gets through.

Appends are numbered in the order of their calls; the numbers are not in the program.
-/

namespace TestDaemon.ClusterAck

/-! ## Algorithm -/

/-- A call of `cluster_append_complete`, for the append it is about. -/
structure Completion where
  append : ℕ
  time : ℕ
deriving DecidableEq, Repr

/-- An element of `results`: the append whose start was subtracted, and the acknowledgement it was
subtracted from. -/
structure Entry where
  append : ℕ
  start : ℕ
  ack : Completion
deriving DecidableEq, Repr

/-- `CLUSTER_ACK - res` -/
def Entry.time (e : Entry) : ℤ := e.ack.time - e.start

/-- Where `TestManager.run` is, with the local variables of `cluster_append_entry`. -/
inductive Pc
  /-- `while len(results) < times` -/
  | loop
  /-- `res = cluster_rpc_client.append_entry(DEFAULT_VALUE)` -/
  | calling (i : ℕ)
  /-- `while CLUSTER_ACK is None` -/
  | spinning (i res : ℕ)
  /-- `time = CLUSTER_ACK - res` -/
  | reading (i res : ℕ)
  /-- `CLUSTER_ACK = None`, then the entry is appended -/
  | clearing (i res : ℕ) (ack : Completion)
  | returned
deriving DecidableEq, Repr

/-- The append in progress. -/
def Pc.append : Pc → Option ℕ
  | .loop | .returned => none
  | .calling i | .spinning i _ | .reading i _ | .clearing i _ _ => some i

/-- What the node has done about an append: `start` is the `t` of `paxos_append` and `time` the
`t` of `onUpdateFunction`. -/
inductive Phase
  | idle
  | requested
  | lost
  | accepted (start : ℕ)
  | completed (start time : ℕ)
  | delivered (start time : ℕ)
deriving DecidableEq, Repr

/-- What `append_entry` returns, once the value is accepted. -/
def Phase.start : Phase → Option ℕ
  | .idle | .requested | .lost => none
  | .accepted start | .completed start _ | .delivered start _ => some start

structure State where
  pc : Pc := .loop
  clusterAck : Option Completion := none
  results : List Entry := []
  calls : ℕ := 0
  phase : ℕ → Phase := fun _ => .idle
  clock : ℕ := 0
  /-- The appends whose call raised. -/
  raised : List ℕ := []
  /-- The completions that left `CLUSTER_ACK`, each with the append that took or overwrote it. -/
  removed : List (ℕ × ℕ) := []

inductive Event
  | tick
  | next
  | lose (i : ℕ)
  | accept (i : ℕ)
  | complete (i : ℕ)
  | deliver (i : ℕ)
  | reply
  | fail
  | spin
  | read
  | clear
deriving DecidableEq, Repr

/-- `CLUSTER_ACK` is assigned for the append `i`. -/
def State.assign (s : State) (ack : Option Completion) (i : ℕ) : State :=
  { s with
    clusterAck := ack
    removed := s.removed ++ s.clusterAck.toList.map fun c => (c.append, i) }

def State.setPhase (s : State) (i : ℕ) (p : Phase) : State :=
  { s with phase := Function.update s.phase i p }

/-- One step, or `none` where it cannot be taken. -/
def step (times : ℕ) (s : State) : Event → Option State
  | .tick => some { s with clock := s.clock + 1 }
  | .next =>
    match s.pc with
    | .loop =>
      if s.results.length < times then
        some { s.setPhase s.calls .requested with pc := .calling s.calls, calls := s.calls + 1 }
      else some { s with pc := .returned }
    | _ => none
  | .lose i =>
    match s.phase i with
    | .requested => some (s.setPhase i .lost)
    | _ => none
  | .accept i =>
    match s.phase i with
    | .requested => some (s.setPhase i (.accepted s.clock))
    | _ => none
  | .complete i =>
    match s.phase i with
    | .accepted start => some (s.setPhase i (.completed start s.clock))
    | _ => none
  | .deliver i =>
    match s.phase i with
    | .completed start time => some ((s.setPhase i (.delivered start time)).assign (some ⟨i, time⟩) i)
    | _ => none
  | .reply =>
    match s.pc with
    | .calling i => (s.phase i).start.map fun res => { s with pc := .spinning i res }
    | _ => none
  | .fail =>
    match s.pc with
    | .calling i => some { s with pc := .loop, raised := s.raised ++ [i] }
    | _ => none
  | .spin =>
    match s.pc, s.clusterAck with
    | .spinning i res, some _ => some { s with pc := .reading i res }
    | _, _ => none
  | .read =>
    match s.pc, s.clusterAck with
    | .reading i res, some ack => some { s with pc := .clearing i res ack }
    -- `None - res` is a `TypeError`, which `run` logs
    | .reading i _, none => some { s with pc := .loop, raised := s.raised ++ [i] }
    | _, _ => none
  | .clear =>
    match s.pc with
    | .clearing i res ack =>
      some { s.assign none i with pc := .loop, results := s.results ++ [⟨i, res, ack⟩] }
    | _ => none

/-- A run: its steps, one after the other. -/
def exec (times : ℕ) : State → List Event → Option State
  | s, [] => some s
  | s, e :: events => (step times s e).bind fun s' => exec times s' events

/-! ## Specification -/

/-- Every entry subtracts the start of an append from the completion time of the same append, and
no completion left `CLUSTER_ACK` at the hands of another append. -/
structure Matched (s : State) : Prop where
  entries : ∀ e ∈ s.results, e.ack.append = e.append ∧
    s.phase e.append = .delivered e.start e.ack.time ∧ 0 ≤ e.time
  removed : ∀ p ∈ s.removed, p.1 = p.2

/-- The step gets no completion through for an append whose call has raised, and raises no call
whose completion is through. -/
def InTime (s : State) : Event → Prop
  | .deliver i => i ∉ s.raised
  | .fail => s.clusterAck = none
  | _ => True

instance (s : State) (e : Event) : Decidable (InTime s e) := by
  unfold InTime
  cases e <;> infer_instance

/-- All steps of the run are in time. -/
def AllInTime (times : ℕ) : State → List Event → Prop
  | _, [] => True
  | s, e :: events => InTime s e ∧ ∀ s' ∈ step times s e, AllInTime times s' events

instance decidableAllInTime (times : ℕ) :
    (s : State) → (events : List Event) → Decidable (AllInTime times s events)
  | _, [] => isTrue trivial
  | s, e :: events =>
    have := fun s' => decidableAllInTime times s' events
    inferInstanceAs (Decidable (InTime s e ∧ ∀ s' ∈ step times s e, AllInTime times s' events))

/-! ## Lemmas -/

/-- Whose acknowledgement is where. -/
structure Inv (s : State) : Prop where
  fresh : ∀ i, s.calls ≤ i → s.phase i = .idle ∧ i ∉ s.raised
  current : ∀ i, s.pc.append = some i → i < s.calls ∧ i ∉ s.raised
  others : ∀ i, i ∉ s.raised → s.pc.append ≠ some i →
    s.phase i = .idle ∨ ∃ start time, s.phase i = .delivered start time
  slot : ∀ c, s.clusterAck = some c → s.pc.append = some c.append ∧
    ∃ start, s.phase c.append = .delivered start c.time
  spinning : ∀ i res, s.pc = .spinning i res → (s.phase i).start = some res
  reading : ∀ i res, s.pc = .reading i res → (s.phase i).start = some res ∧ s.clusterAck ≠ none
  clearing : ∀ i res ack, s.pc = .clearing i res ack →
    (s.phase i).start = some res ∧ s.clusterAck = some ack
  accepted : ∀ i start, s.phase i = .accepted start → start ≤ s.clock
  completed : ∀ i start time, s.phase i = .completed start time → start ≤ time
  delivered : ∀ i start time, s.phase i = .delivered start time → start ≤ time
  entries : ∀ e ∈ s.results, e.ack.append = e.append ∧
    s.phase e.append = .delivered e.start e.ack.time
  removed : ∀ p ∈ s.removed, p.1 = p.2

theorem inv_init : Inv {} := by
  constructor <;> simp [Pc.append]

@[simp] theorem setPhase_phase (s : State) (i : ℕ) (p : Phase) :
    (s.setPhase i p).phase = Function.update s.phase i p := rfl

theorem update_of {f : ℕ → Phase} {i j : ℕ} {p : Phase} {Q : Phase → Prop} (hp : Q p)
    (hj : Q (f j)) : Q (Function.update f i p j) := by
  by_cases hji : j = i
  · rw [hji, Function.update_self]
    exact hp
  · rw [Function.update_of_ne hji]
    exact hj

/-- An append that the node is busy with is the one in progress, unless its call raised. -/
theorem Inv.busy {s : State} (h : Inv s) {i : ℕ} (hraised : i ∉ s.raised)
    (hidle : s.phase i ≠ .idle) (hdelivered : ∀ start time, s.phase i ≠ .delivered start time) :
    s.pc.append = some i := by
  by_contra hne
  rcases h.others i hraised hne with hi | ⟨start, time, hi⟩
  · exact hidle hi
  · exact hdelivered start time hi

/-- The node goes on with an append. -/
theorem Inv.setPhase {s : State} (h : Inv s) {i : ℕ} {old p : Phase} (hold : s.phase i = old)
    (hidle : old ≠ .idle) (hdelivered : ∀ start time, old ≠ .delivered start time)
    (hstart : ∀ res, old.start = some res → p.start = some res)
    (haccepted : ∀ start, p = .accepted start → start ≤ s.clock)
    (hcompleted : ∀ start time, p = .completed start time → start ≤ time)
    (hdone : ∀ start time, p = .delivered start time → start ≤ time) : Inv (s.setPhase i p) := by
  subst hold
  have hne : ∀ j, s.phase j = .idle ∨ (∃ start time, s.phase j = .delivered start time) → j ≠ i := by
    rintro j (hj | ⟨start, time, hj⟩) rfl
    · exact hidle hj
    · exact hdelivered start time hj
  have hkeep : ∀ j res, (s.phase j).start = some res →
      (Function.update s.phase i p j).start = some res := by
    intro j res hj
    by_cases hji : j = i
    · subst hji
      rw [Function.update_self]
      exact hstart res hj
    · rw [Function.update_of_ne hji]
      exact hj
  refine ⟨?_, h.current, ?_, ?_, ?_, ?_, ?_, ?_, ?_, ?_, ?_, h.removed⟩
  · intro j hj
    obtain ⟨hphase, hraised⟩ := h.fresh j hj
    refine ⟨?_, hraised⟩
    rw [setPhase_phase, Function.update_of_ne (hne j (.inl hphase))]
    exact hphase
  · intro j hraised hpc
    have hj := h.others j hraised hpc
    rw [setPhase_phase, Function.update_of_ne (hne j hj)]
    exact hj
  · intro c hc
    obtain ⟨hpc, start, hphase⟩ := h.slot c hc
    refine ⟨hpc, start, ?_⟩
    rw [setPhase_phase, Function.update_of_ne (hne _ (.inr ⟨start, c.time, hphase⟩))]
    exact hphase
  · intro j res hpc
    exact hkeep j res (h.spinning j res hpc)
  · intro j res hpc
    obtain ⟨hphase, hack⟩ := h.reading j res hpc
    exact ⟨hkeep j res hphase, hack⟩
  · intro j res ack hpc
    obtain ⟨hphase, hack⟩ := h.clearing j res ack hpc
    exact ⟨hkeep j res hphase, hack⟩
  · intro j
    exact update_of (Q := fun q => ∀ start, q = .accepted start → start ≤ s.clock) haccepted
      (h.accepted j)
  · intro j
    exact update_of (Q := fun q => ∀ start time, q = .completed start time → start ≤ time)
      hcompleted (h.completed j)
  · intro j
    exact update_of (Q := fun q => ∀ start time, q = .delivered start time → start ≤ time) hdone
      (h.delivered j)
  · intro e he
    obtain ⟨happend, hphase⟩ := h.entries e he
    refine ⟨happend, ?_⟩
    rw [setPhase_phase, Function.update_of_ne (hne _ (.inr ⟨_, _, hphase⟩))]
    exact hphase

theorem inv_tick {s : State} (h : Inv s) : Inv { s with clock := s.clock + 1 } :=
  { h with accepted := fun i start hi => Nat.le_succ_of_le (h.accepted i start hi) }

theorem inv_next {s : State} (h : Inv s) (hpc : s.pc = .loop) :
    Inv { s.setPhase s.calls .requested with pc := .calling s.calls, calls := s.calls + 1 } := by
  have hnone : ∀ c, s.clusterAck ≠ some c := by
    intro c hc
    have hslot := (h.slot c hc).1
    rw [hpc] at hslot
    cases hslot
  obtain ⟨hidle, hraised⟩ := h.fresh s.calls (Nat.le_refl _)
  have hne : ∀ j start time, s.phase j = .delivered start time → j ≠ s.calls := by
    rintro j start time hj rfl
    rw [hidle] at hj
    cases hj
  refine ⟨?_, ?_, ?_, ?_, ?_, ?_, ?_, ?_, ?_, ?_, ?_, h.removed⟩
  · intro j (hj : s.calls + 1 ≤ j)
    obtain ⟨hphase, hj'⟩ := h.fresh j (by omega)
    refine ⟨?_, hj'⟩
    show Function.update s.phase s.calls .requested j = .idle
    rw [Function.update_of_ne (by omega)]
    exact hphase
  · intro j hj
    obtain rfl : s.calls = j := Option.some.inj hj
    exact ⟨Nat.lt_succ_self _, hraised⟩
  · intro j hj hcurrent
    have hj' : j ≠ s.calls := fun heq => hcurrent (heq ▸ rfl)
    have hold := h.others j hj (by rw [hpc]; exact fun hloop => nomatch hloop)
    show Function.update s.phase s.calls .requested j = .idle ∨
      ∃ start time, Function.update s.phase s.calls .requested j = .delivered start time
    rw [Function.update_of_ne hj']
    exact hold
  · intro c hc
    exact absurd hc (hnone c)
  · intro j res hj
    cases hj
  · intro j res hj
    cases hj
  · intro j res ack hj
    cases hj
  · intro j
    exact update_of (Q := fun q => ∀ start, q = .accepted start → start ≤ s.clock) (by simp)
      (h.accepted j)
  · intro j
    exact update_of (Q := fun q => ∀ start time, q = .completed start time → start ≤ time)
      (by simp) (h.completed j)
  · intro j
    exact update_of (Q := fun q => ∀ start time, q = .delivered start time → start ≤ time)
      (by simp) (h.delivered j)
  · intro e he
    obtain ⟨happend, hphase⟩ := h.entries e he
    refine ⟨happend, ?_⟩
    show Function.update s.phase s.calls .requested e.append = _
    rw [Function.update_of_ne (hne _ _ _ hphase)]
    exact hphase

/-- The completion of the append in progress reaches `CLUSTER_ACK`. -/
theorem inv_deliver {s : State} (h : Inv s) {i start time : ℕ}
    (hphase : s.phase i = .completed start time) (hraised : i ∉ s.raised) :
    Inv ((s.setPhase i (.delivered start time)).assign (some ⟨i, time⟩) i) := by
  have hcurrent : s.pc.append = some i := by
    apply h.busy hraised
    · rw [hphase]
      exact fun hidle => nomatch hidle
    · intro start' time' hdelivered
      rw [hphase] at hdelivered
      cases hdelivered
  -- one completion for each append: nothing of it can be in the slot yet
  have hempty : s.clusterAck = none := by
    cases hack : s.clusterAck with
    | none => rfl
    | some c =>
      obtain ⟨hc, start', hdelivered⟩ := h.slot c hack
      rw [hcurrent] at hc
      obtain rfl := Option.some.inj hc
      rw [hphase] at hdelivered
      cases hdelivered
  have hphases : Inv (s.setPhase i (.delivered start time)) := by
    have hle := h.completed i start time hphase
    refine h.setPhase hphase (by simp) (by simp) (fun res hres => hres) (by simp) (by simp) ?_
    intro start' time' hstart
    cases hstart
    exact hle
  refine { hphases with slot := ?_, reading := ?_, clearing := ?_, removed := ?_ }
  · intro c hc
    obtain rfl := Option.some.inj hc
    refine ⟨hcurrent, start, ?_⟩
    show Function.update s.phase i (.delivered start time) i = _
    rw [Function.update_self]
  · intro j res hpc
    exact ⟨(hphases.reading j res hpc).1, fun hnone => nomatch hnone⟩
  · intro j res ack hpc
    have hack := (h.clearing j res ack hpc).2
    rw [hempty] at hack
    cases hack
  · show ∀ p ∈ s.removed ++ s.clusterAck.toList.map fun c => (c.append, i), p.1 = p.2
    rw [hempty]
    simpa using h.removed

theorem inv_fail {s : State} (h : Inv s) {i : ℕ} (hcurrent : s.pc.append = some i)
    (hack : s.clusterAck = none) :
    Inv { s with pc := .loop, raised := s.raised ++ [i] } := by
  obtain ⟨hlt, -⟩ := h.current i hcurrent
  refine ⟨?_, ?_, ?_, ?_, ?_, ?_, ?_, h.accepted, h.completed, h.delivered, h.entries, h.removed⟩
  · intro j hj
    obtain ⟨hphase, hraised⟩ := h.fresh j hj
    refine ⟨hphase, ?_⟩
    rw [List.mem_append, List.mem_singleton, not_or]
    exact ⟨hraised, by show ¬ j = i; have : s.calls ≤ j := hj; omega⟩
  · intro j hj
    cases hj
  · intro j hj _
    rw [List.mem_append, List.mem_singleton, not_or] at hj
    refine h.others j hj.1 fun hpc => hj.2 ?_
    rw [hcurrent] at hpc
    exact (Option.some.inj hpc).symm
  · intro c hc
    rw [hack] at hc
    cases hc
  · intro j res hj
    cases hj
  · intro j res hj
    cases hj
  · intro j res ack hj
    cases hj

/-- The loop ends with the entry of the append in progress. -/
theorem inv_clear {s : State} (h : Inv s) {i res : ℕ} {ack : Completion}
    (hpc : s.pc = .clearing i res ack) :
    Inv { s.assign none i with pc := .loop, results := s.results ++ [⟨i, res, ack⟩] } := by
  obtain ⟨hres, hack⟩ := h.clearing i res ack hpc
  obtain ⟨hcurrent, start, hphase⟩ := h.slot ack hack
  obtain rfl : i = ack.append := by
    rw [hpc] at hcurrent
    exact Option.some.inj hcurrent
  obtain rfl : start = res := by
    rw [hphase] at hres
    exact Option.some.inj hres
  refine ⟨h.fresh, ?_, ?_, ?_, ?_, ?_, ?_, h.accepted, h.completed, h.delivered, ?_, ?_⟩
  · intro j hj
    cases hj
  · intro j hj _
    by_cases hji : j = ack.append
    · subst hji
      exact .inr ⟨start, ack.time, hphase⟩
    · refine h.others j hj fun hpc' => hji ?_
      rw [hcurrent] at hpc'
      exact (Option.some.inj hpc').symm
  · intro c hc
    cases hc
  · intro j res' hj
    cases hj
  · intro j res' hj
    cases hj
  · intro j res' ack' hj
    cases hj
  · intro e he
    rcases List.mem_append.mp he with he | he
    · exact h.entries e he
    · obtain rfl := List.mem_singleton.mp he
      exact ⟨rfl, hphase⟩
  · intro p (hp : p ∈ s.removed ++ s.clusterAck.toList.map fun c => (c.append, ack.append))
    rw [hack] at hp
    rcases List.mem_append.mp hp with hp | hp
    · exact h.removed p hp
    · obtain rfl := List.mem_singleton.mp hp
      rfl

/-- The daemon goes on with the same append. -/
theorem Inv.setPc {s : State} (h : Inv s) {pc : Pc} (hsame : pc.append = s.pc.append)
    (hspinning : ∀ i res, pc = .spinning i res → (s.phase i).start = some res)
    (hreading : ∀ i res, pc = .reading i res →
      (s.phase i).start = some res ∧ s.clusterAck ≠ none)
    (hclearing : ∀ i res ack, pc = .clearing i res ack →
      (s.phase i).start = some res ∧ s.clusterAck = some ack) : Inv { s with pc } := by
  refine ⟨h.fresh, ?_, ?_, ?_, hspinning, hreading, hclearing, h.accepted, h.completed,
    h.delivered, h.entries, h.removed⟩
  · show ∀ i, pc.append = some i → i < s.calls ∧ i ∉ s.raised
    rw [hsame]
    exact h.current
  · show ∀ i, i ∉ s.raised → pc.append ≠ some i → _
    rw [hsame]
    exact h.others
  · show ∀ c, s.clusterAck = some c → pc.append = some c.append ∧ _
    rw [hsame]
    exact h.slot

theorem inv_reply {s : State} (h : Inv s) {i res : ℕ} (hpc : s.pc = .calling i)
    (hres : (s.phase i).start = some res) : Inv { s with pc := .spinning i res } := by
  apply h.setPc (by rw [hpc]; rfl)
  · intro j res' hj
    cases hj
    exact hres
  · intro j res' hj
    cases hj
  · intro j res' ack' hj
    cases hj

theorem inv_spin {s : State} (h : Inv s) {i res : ℕ} {ack : Completion}
    (hpc : s.pc = .spinning i res) (hack : s.clusterAck = some ack) :
    Inv { s with pc := .reading i res } := by
  apply h.setPc (by rw [hpc]; rfl)
  · intro j res' hj
    cases hj
  · intro j res' hj
    cases hj
    refine ⟨h.spinning i res hpc, ?_⟩
    rw [hack]
    exact fun hnone => nomatch hnone
  · intro j res' ack' hj
    cases hj

theorem inv_read {s : State} (h : Inv s) {i res : ℕ} {ack : Completion}
    (hpc : s.pc = .reading i res) (hack : s.clusterAck = some ack) :
    Inv { s with pc := .clearing i res ack } := by
  apply h.setPc (by rw [hpc]; rfl)
  · intro j res' hj
    cases hj
  · intro j res' hj
    cases hj
  · intro j res' ack' hj
    cases hj
    exact ⟨(h.reading i res hpc).1, hack⟩

theorem inv_returned {s : State} (h : Inv s) (hpc : s.pc = .loop) :
    Inv { s with pc := .returned } := by
  apply h.setPc (by rw [hpc]; rfl)
  · intro j res' hj
    cases hj
  · intro j res' hj
    cases hj
  · intro j res' ack' hj
    cases hj

theorem inv_accept {s : State} (h : Inv s) {i : ℕ} (hphase : s.phase i = .requested) :
    Inv (s.setPhase i (.accepted s.clock)) := by
  refine h.setPhase hphase (by simp) (by simp) (by simp [Phase.start]) ?_ (by simp) (by simp)
  intro start hstart
  cases hstart
  exact Nat.le_refl _

theorem inv_lose {s : State} (h : Inv s) {i : ℕ} (hphase : s.phase i = .requested) :
    Inv (s.setPhase i .lost) :=
  h.setPhase hphase (by simp) (by simp) (by simp [Phase.start]) (by simp) (by simp) (by simp)

theorem inv_complete {s : State} (h : Inv s) {i start : ℕ} (hphase : s.phase i = .accepted start) :
    Inv (s.setPhase i (.completed start s.clock)) := by
  have hclock := h.accepted i start hphase
  refine h.setPhase hphase (by simp) (by simp) (fun res hres => hres) (by simp) ?_ (by simp)
  intro start' time hstart
  cases hstart
  exact hclock

/-- **One step in time keeps every acknowledgement with its append.** -/
theorem step_inv {times : ℕ} {s s' : State} {e : Event} (h : Inv s) (he : InTime s e)
    (hstep : step times s e = some s') : Inv s' := by
  cases e with
  | tick =>
    cases hstep
    exact inv_tick h
  | next =>
    unfold step at hstep
    dsimp only at hstep
    split at hstep
    · next hpc =>
      split at hstep
      · cases hstep
        exact inv_next h hpc
      · cases hstep
        exact inv_returned h hpc
    · cases hstep
  | lose i =>
    unfold step at hstep
    dsimp only at hstep
    split at hstep
    · next hphase =>
      cases hstep
      exact inv_lose h hphase
    · cases hstep
  | accept i =>
    unfold step at hstep
    dsimp only at hstep
    split at hstep
    · next hphase =>
      cases hstep
      exact inv_accept h hphase
    · cases hstep
  | complete i =>
    unfold step at hstep
    dsimp only at hstep
    split at hstep
    · next start hphase =>
      cases hstep
      exact inv_complete h hphase
    · cases hstep
  | deliver i =>
    unfold step at hstep
    dsimp only at hstep
    split at hstep
    · next start time hphase =>
      cases hstep
      exact inv_deliver h hphase he
    · cases hstep
  | reply =>
    unfold step at hstep
    dsimp only at hstep
    split at hstep
    · next i hpc =>
      obtain ⟨res, hres, rfl⟩ := Option.map_eq_some_iff.mp hstep
      exact inv_reply h hpc hres
    · cases hstep
  | fail =>
    unfold step at hstep
    dsimp only at hstep
    split at hstep
    · next i hpc =>
      cases hstep
      exact inv_fail h (by rw [hpc]; rfl) he
    · cases hstep
  | spin =>
    unfold step at hstep
    dsimp only at hstep
    split at hstep
    · next i res ack hpc hack =>
      cases hstep
      exact inv_spin h hpc hack
    · cases hstep
  | read =>
    unfold step at hstep
    dsimp only at hstep
    split at hstep
    · next i res ack hpc hack =>
      cases hstep
      exact inv_read h hpc hack
    · next i res hpc hack => exact absurd hack (h.reading i res hpc).2
    · cases hstep
  | clear =>
    unfold step at hstep
    dsimp only at hstep
    split at hstep
    · next i res ack hpc =>
      cases hstep
      exact inv_clear h hpc
    · cases hstep

theorem exec_inv {times : ℕ} {s s' : State} {events : List Event} (h : Inv s)
    (htime : AllInTime times s events) (hexec : exec times s events = some s') : Inv s' := by
  induction events generalizing s with
  | nil =>
    cases hexec
    exact h
  | cons e events ih =>
    obtain ⟨he, hrest⟩ := htime
    obtain ⟨s₁, hstep, hexec'⟩ := Option.bind_eq_some_iff.mp hexec
    exact ih (step_inv h he hstep) (hrest s₁ hstep) hexec'

theorem Inv.matched {s : State} (h : Inv s) : Matched s := by
  refine ⟨fun e he => ?_, h.removed⟩
  obtain ⟨happend, hphase⟩ := h.entries e he
  have hle := h.delivered _ _ _ hphase
  refine ⟨happend, hphase, ?_⟩
  unfold Entry.time
  omega

/-! ## Top theorem -/

/-- **Acknowledgements match their own append** in every state of every run in which no completion
of an append whose call raises gets through. -/
theorem acknowledgements_match {times : ℕ} {events : List Event} {s : State}
    (htime : AllInTime times {} events) (hexec : exec times {} events = some s) : Matched s :=
  (exec_inv inv_init htime hexec).matched

/-- The first call raises before the node has seen it, the second is measured. -/
def retried : List Event :=
  [.next, .lose 0, .fail, .tick, .next, .accept 1, .tick, .complete 1, .reply, .deliver 1, .spin,
    .read, .clear, .next]

theorem acknowledgements_match_retried :
    ∃ s, exec 1 {} retried = some s ∧ s.results = [⟨1, 1, ⟨1, 2⟩⟩] ∧ Matched s := by
  obtain ⟨s, hs⟩ := Option.isSome_iff_exists.mp (by decide : (exec 1 {} retried).isSome = true)
  have hresults : (exec 1 {} retried).map State.results = some [⟨1, 1, ⟨1, 2⟩⟩] := by decide
  rw [hs] at hresults
  exact ⟨s, hs, Option.some.inj hresults, acknowledgements_match (by decide) hs⟩

/-- The call raises after the node has accepted the value; its completion, read before the second
append starts, is taken for the second one. -/
def shifted : List Event :=
  [.next, .accept 0, .fail, .complete 0, .tick, .next, .accept 1, .reply, .deliver 0, .spin, .read,
    .clear]

theorem acknowledgement_of_another_append : ∃ s e, exec 1 {} shifted = some s ∧
    e ∈ s.results ∧ e.ack.append ≠ e.append ∧ e.time < 0 ∧ ¬ Matched s := by
  obtain ⟨s, hs⟩ := Option.isSome_iff_exists.mp (by decide : (exec 1 {} shifted).isSome = true)
  have hresults : (exec 1 {} shifted).map State.results = some [⟨1, 1, ⟨0, 0⟩⟩] := by decide
  rw [hs] at hresults
  have hmem : (⟨1, 1, ⟨0, 0⟩⟩ : Entry) ∈ s.results := by
    rw [Option.some.inj hresults]
    exact List.mem_cons_self
  refine ⟨s, ⟨1, 1, ⟨0, 0⟩⟩, hs, hmem, by decide, by decide, fun hmatched => ?_⟩
  exact absurd (hmatched.entries _ hmem).1 (by decide)

end TestDaemon.ClusterAck
