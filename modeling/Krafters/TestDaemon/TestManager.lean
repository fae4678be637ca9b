import Krafters.Executor.Commands
import Mathlib.Data.List.Nodup

/-!
# test_daemon.TestManager.run: which attempts leave an entry

The run is a function of its attempts, one after the other; what each one meets is an
`Outcome`.  `run_eq` gives the run in closed form: the first `times` attempts that leave
a time.  With rethinkdb every attempt leaves one, with pso every attempt whose callback
comes, so that an entry may belong to an attempt that failed.

An attempt either raises or is completed.  A completion that comes after the call has raised, which
a later attempt may take for its own, is left to `ClusterAck`, with pso and with paxos;
`paxos_only_committed` is about runs without one.

Times are ticks of a fine clock, and their difference is exact.
-/

namespace TestDaemon

open Py Executor

/-! ## Algorithm -/

/-- `pysyncobj.FAIL_REASON` -/
inductive FailReason
  | success
  | queueFull
  | missingLeader
  | discarded
  | notLeader
  | leaderChanged
deriving DecidableEq, Repr

/-- The globals of the daemon. -/
structure Daemon where
  clusterAck : Option ℤ := none
  iteration : ℕ := 0
deriving DecidableEq, Repr

def defaultValue : Text := "value".toList

inductive Algorithm
  | rethinkdb
  | paxos
  | pso
deriving DecidableEq, Repr

/-- What an attempt meets: a query or the call of `append_entry` raises, or the operation ends,
with a reason that only the callback of pso is given. -/
inductive Outcome
  | exception (e : PyExc)
  | completed (err : FailReason)
deriving DecidableEq, Repr

/-- An attempt, and the clock where its time starts and where it stops. -/
structure Attempt where
  outcome : Outcome
  start : ℤ
  stop : ℤ
deriving DecidableEq, Repr

/-- An attempt that raised counts as failed. -/
def Attempt.committed (a : Attempt) : Bool := a.outcome = .completed .success

/-- What an append function did: `none` if it never returns. -/
abbrev Appended (α : Type) : Type := Option (Except PyExc α × Daemon)

/-- `return` in the `finally` clause: the time is returned after an exception too. -/
def rethinkdbAppendEntry (a : Attempt) (d : Daemon) : Appended ℤ :=
  match a.outcome with
  | .completed _ => some (.ok (a.stop - a.start), { d with iteration := (d.iteration + 1) % 100 })
  | .exception _ => some (.ok (a.stop - a.start), d)

def clusterAppendComplete (_newCurrentValue : Option Text) (time : ℤ) (d : Daemon) : Daemon :=
  { d with clusterAck := some time }

/-- `onUpdateFunction` of `paxos/custom_server.py`; `t` is what the clock reads there. -/
def paxosOnUpdateFunction (newCurrentValue : Text) (t : ℤ) : Daemon → Daemon :=
  clusterAppendComplete (some newCurrentValue) t

/-- `onUpdateFunction` of `pysyncobj/custom_server.py`: `err` is printed and dropped. -/
def psoOnUpdateFunction (res : Option Text) (_err : FailReason) (t : ℤ) : Daemon → Daemon :=
  clusterAppendComplete res t

/-- The callback of a cluster for an operation that ended with `err` at `t`. -/
def callback (algorithm : Algorithm) (err : FailReason) (t : ℤ) : Daemon → Daemon :=
  match algorithm with
  | .pso => psoOnUpdateFunction (if err = .success then some defaultValue else none) err t
  | _ => paxosOnUpdateFunction defaultValue t

/-- The callback comes during the call or the spin, which ends at a `CLUSTER_ACK`. -/
def clusterAppendEntry (callback : FailReason → ℤ → Daemon → Daemon) (a : Attempt) (d : Daemon) :
    Appended ℤ :=
  match a.outcome with
  | .exception e => some (.error e, d)
  | .completed err =>
    let res := a.start
    let d := callback err a.stop d
    match d.clusterAck with
    | none => none
    | some ack => some (.ok (ack - res), { d with clusterAck := none })

def appendFunction (algorithm : Algorithm) : Attempt → Daemon → Appended ℤ :=
  match algorithm with
  | .rethinkdb => rethinkdbAppendEntry
  | .paxos | .pso => clusterAppendEntry (callback algorithm)

/-- `TestManager.run(times)` with the results so far; `none` if it is still in its loop after
these attempts. -/
def run {α β : Type} (append : α → Daemon → Appended β) (times : ℕ) :
    List α → List β → Daemon → Option (List β)
  | attempts, results, d =>
    if results.length < times then
      match attempts with
      | [] => none
      | a :: attempts =>
        match append a d with
        | none => none
        | some (.ok time, d) => run append times attempts (results ++ [time]) d
        | some (.error _, d) => run append times attempts results d
    else some results

/-- An entry with the attempt that left it. -/
structure Entry where
  attempt : ℕ
  time : ℤ
deriving DecidableEq, Repr

/-- An append function that says which attempt its time is of. -/
def tagged (append : Attempt → Daemon → Appended ℤ) (a : Attempt × ℕ) (d : Daemon) :
    Appended Entry :=
  (append a.1 d).map fun r => (r.1.map fun time => ⟨a.2, time⟩, r.2)

/-! ## Specification -/

/-- Only pso reports a reason. -/
def Possible (algorithm : Algorithm) (a : Attempt) : Prop :=
  algorithm = .pso ∨ a.outcome = .completed .success ∨ ∃ e, a.outcome = .exception e

/-- Every entry is the time of an attempt of its own, and the cluster committed this one. -/
structure OnlyCommitted (times : ℕ) (attempts : List Attempt) (entries : List Entry) : Prop where
  count : entries.length = times
  distinct : (entries.map Entry.attempt).Nodup
  committed : ∀ e ∈ entries, ∃ a, attempts[e.attempt]? = some a ∧ a.committed = true ∧
    e.time = a.stop - a.start

/-- The attempt's function returns a time and does not raise. -/
def leavesTime (algorithm : Algorithm) (a : Attempt) : Bool :=
  match algorithm, a.outcome with
  | .rethinkdb, _ => true
  | _, .completed _ => true
  | _, .exception _ => false

/-! ## Lemmas -/

/-- What an append function does in a daemon without an acknowledgement. -/
structure Appends {α β : Type} (append : α → Daemon → Appended β) (leaves : α → Bool)
    (value : α → β) : Prop where
  returns : ∀ a d, d.clusterAck = none → leaves a = true →
    ∃ d', d'.clusterAck = none ∧ append a d = some (.ok (value a), d')
  raises : ∀ a d, d.clusterAck = none → leaves a = false →
    ∃ e d', d'.clusterAck = none ∧ append a d = some (.error e, d')

theorem callback_clusterAck (algorithm : Algorithm) (err : FailReason) (t : ℤ) (d : Daemon) :
    (callback algorithm err t d).clusterAck = some t := by
  unfold callback
  cases algorithm <;> rfl

theorem clusterAppendEntry_completed (algorithm : Algorithm) {a : Attempt} {err : FailReason}
    (ha : a.outcome = .completed err) (d : Daemon) :
    ∃ d', d'.clusterAck = none ∧
      clusterAppendEntry (callback algorithm) a d = some (.ok (a.stop - a.start), d') := by
  refine ⟨{ callback algorithm err a.stop d with clusterAck := none }, rfl, ?_⟩
  unfold clusterAppendEntry
  rw [ha]
  dsimp only
  rw [callback_clusterAck]

theorem clusterAppendEntry_exception (algorithm : Algorithm) {a : Attempt} {e : PyExc}
    (ha : a.outcome = .exception e) (d : Daemon) :
    clusterAppendEntry (callback algorithm) a d = some (.error e, d) := by
  unfold clusterAppendEntry
  rw [ha]

theorem rethinkdbAppendEntry_returns (a : Attempt) {d : Daemon} (hd : d.clusterAck = none) :
    ∃ d', d'.clusterAck = none ∧
      rethinkdbAppendEntry a d = some (.ok (a.stop - a.start), d') := by
  unfold rethinkdbAppendEntry
  cases a.outcome with
  | completed err => exact ⟨{ d with iteration := (d.iteration + 1) % 100 }, hd, rfl⟩
  | exception e => exact ⟨d, hd, rfl⟩

theorem appends (algorithm : Algorithm) :
    Appends (appendFunction algorithm) (leavesTime algorithm) fun a => a.stop - a.start := by
  constructor
  · intro a d hd hleaves
    cases algorithm with
    | rethinkdb => exact rethinkdbAppendEntry_returns a hd
    | paxos =>
      cases ha : a.outcome with
      | completed err => exact clusterAppendEntry_completed .paxos ha d
      | exception e => simp [leavesTime, ha] at hleaves
    | pso =>
      cases ha : a.outcome with
      | completed err => exact clusterAppendEntry_completed .pso ha d
      | exception e => simp [leavesTime, ha] at hleaves
  · intro a d hd hleaves
    cases algorithm with
    | rethinkdb => simp [leavesTime] at hleaves
    | paxos =>
      cases ha : a.outcome with
      | completed err => simp [leavesTime, ha] at hleaves
      | exception e => exact ⟨e, d, hd, clusterAppendEntry_exception .paxos ha d⟩
    | pso =>
      cases ha : a.outcome with
      | completed err => simp [leavesTime, ha] at hleaves
      | exception e => exact ⟨e, d, hd, clusterAppendEntry_exception .pso ha d⟩

theorem Appends.tagged {append : Attempt → Daemon → Appended ℤ} {leaves : Attempt → Bool}
    {value : Attempt → ℤ} (h : Appends append leaves value) :
    Appends (tagged append) (fun a => leaves a.1) fun a => ⟨a.2, value a.1⟩ := by
  constructor
  · intro a d hd hleaves
    obtain ⟨d', hd', happend⟩ := h.returns a.1 d hd hleaves
    refine ⟨d', hd', ?_⟩
    unfold TestDaemon.tagged
    rw [happend]
    rfl
  · intro a d hd hleaves
    obtain ⟨e, d', hd', happend⟩ := h.raises a.1 d hd hleaves
    refine ⟨e, d', hd', ?_⟩
    unfold TestDaemon.tagged
    rw [happend]
    rfl

/-- **The run in closed form**: the values of the first attempts that leave one. -/
theorem run_eq {α β : Type} {append : α → Daemon → Appended β} {leaves : α → Bool} {value : α → β}
    (h : Appends append leaves value) (times : ℕ) (attempts : List α) (results : List β)
    {d : Daemon} (hd : d.clusterAck = none) :
    run append times attempts results d =
      if times ≤ results.length + (attempts.filter leaves).length then
        some (results ++ ((attempts.filter leaves).take (times - results.length)).map value)
      else none := by
  induction attempts generalizing results d with
  | nil =>
    unfold run
    split
    · next hlt => rw [if_neg (by simpa using hlt)]
    · next hlt => rw [if_pos (by simpa using hlt)]; simp
  | cons a attempts ih =>
    unfold run
    split
    · next hlt =>
      dsimp only
      by_cases ha : leaves a = true
      · obtain ⟨d', hd', happend⟩ := h.returns a d hd ha
        have htake : times - results.length = times - (results.length + 1) + 1 := by omega
        rw [happend]
        dsimp only
        rw [ih _ hd', List.filter_cons_of_pos ha, htake, List.take_succ_cons]
        simp only [List.length_append, List.length_cons, List.length_nil, List.map_cons,
          List.append_assoc, List.singleton_append]
        exact if_congr (by omega) rfl rfl
      · have ha' : leaves a = false := by simpa using ha
        obtain ⟨e, d', hd', happend⟩ := h.raises a d hd ha'
        rw [happend]
        dsimp only
        rw [ih _ hd', List.filter_cons_of_neg ha]
    · next hlt =>
      have hzero : times - results.length = 0 := by omega
      rw [if_pos (by omega), hzero]
      simp

/-- The attempts that leave an entry, with their positions. -/
def leaving (algorithm : Algorithm) (times : ℕ) (attempts : List Attempt) :
    List (Attempt × ℕ) :=
  (attempts.zipIdx.filter fun a => leavesTime algorithm a.1).take times

theorem filter_zipIdx_fst (algorithm : Algorithm) (attempts : List Attempt) :
    (attempts.zipIdx.filter fun a => leavesTime algorithm a.1).map Prod.fst =
      attempts.filter (leavesTime algorithm) := by
  have hfst : attempts = attempts.zipIdx.map Prod.fst := by simp
  conv_rhs => rw [hfst, List.filter_map]
  rfl

theorem leaving_fst (algorithm : Algorithm) (times : ℕ) (attempts : List Attempt) :
    (leaving algorithm times attempts).map Prod.fst =
      (attempts.filter (leavesTime algorithm)).take times := by
  unfold leaving
  rw [List.map_take, filter_zipIdx_fst]

theorem mem_leaving {algorithm : Algorithm} {times : ℕ} {attempts : List Attempt}
    {a : Attempt × ℕ} (ha : a ∈ leaving algorithm times attempts) :
    attempts[a.2]? = some a.1 := by
  have hmem := (List.mem_filter.mp (List.mem_of_mem_take ha)).1
  exact List.mem_zipIdx_iff_getElem?.mp hmem

theorem leaving_nodup (algorithm : Algorithm) (times : ℕ) (attempts : List Attempt) :
    ((leaving algorithm times attempts).map Prod.snd).Nodup := by
  have hsub : ((leaving algorithm times attempts).map Prod.snd).Sublist
      (attempts.zipIdx.map Prod.snd) :=
    ((List.take_sublist _ _).trans List.filter_sublist).map Prod.snd
  apply hsub.nodup
  rw [List.zipIdx_map_snd]
  exact List.nodup_range'

/-- The entries of a run. -/
def entries (algorithm : Algorithm) (times : ℕ) (attempts : List Attempt) : List Entry :=
  (leaving algorithm times attempts).map fun a => ⟨a.2, a.1.stop - a.1.start⟩

theorem only_committed_entries {algorithm : Algorithm} {times : ℕ} {attempts : List Attempt}
    (hcount : times ≤ (attempts.filter (leavesTime algorithm)).length) :
    OnlyCommitted times attempts (entries algorithm times attempts) ↔
      ∀ a ∈ (attempts.filter (leavesTime algorithm)).take times, a.committed = true := by
  constructor
  · intro h a ha
    rw [← leaving_fst] at ha
    obtain ⟨b, hb, rfl⟩ := List.mem_map.mp ha
    obtain ⟨a', hat, hcommitted, -⟩ := h.committed _ (List.mem_map.mpr ⟨b, hb, rfl⟩)
    rw [mem_leaving hb] at hat
    rw [Option.some.inj hat]
    exact hcommitted
  · intro h
    refine ⟨?_, ?_, ?_⟩
    · unfold entries
      rw [List.length_map, ← List.length_map Prod.fst, leaving_fst, List.length_take]
      omega
    · unfold entries
      rw [List.map_map]
      exact leaving_nodup algorithm times attempts
    · intro e he
      obtain ⟨b, hb, rfl⟩ := List.mem_map.mp he
      refine ⟨b.1, mem_leaving hb, h b.1 ?_, rfl⟩
      rw [← leaving_fst]
      exact List.mem_map_of_mem hb

/-- What a run that returned is about. -/
theorem run_entries {algorithm : Algorithm} {times : ℕ} {attempts : List Attempt} {d : Daemon}
    (hd : d.clusterAck = none) {results : List ℤ}
    (hrun : run (appendFunction algorithm) times attempts [] d = some results) :
    times ≤ (attempts.filter (leavesTime algorithm)).length ∧
    run (tagged (appendFunction algorithm)) times attempts.zipIdx [] d =
      some (entries algorithm times attempts) ∧
    results = (entries algorithm times attempts).map Entry.time := by
  rw [run_eq (appends algorithm) times attempts [] hd] at hrun
  rw [run_eq (appends algorithm).tagged times attempts.zipIdx [] hd]
  have hlength : (attempts.zipIdx.filter fun a => leavesTime algorithm a.1).length =
      (attempts.filter (leavesTime algorithm)).length := by
    rw [← filter_zipIdx_fst algorithm attempts, List.length_map]
  split at hrun
  · next hcount =>
    have hcount' : times ≤ (attempts.filter (leavesTime algorithm)).length := by simpa using hcount
    refine ⟨hcount', ?_, ?_⟩
    · rw [hlength]
      exact if_pos hcount
    · have hresults := (Option.some.inj hrun).symm
      rw [hresults]
      unfold entries
      rw [List.map_map, List.nil_append, ← leaving_fst, List.map_map]
      rfl
  · cases hrun

/-! ## Top theorems -/

/-- The second of three attempts raises, and pso measures the other two. -/
def threeAttempts : List Attempt :=
  [⟨.completed .success, 0, 3⟩, ⟨.exception (.other .rpcFault), 4, 5⟩, ⟨.completed .success, 6, 8⟩]

/-- **Paxos measures committed operations only**: what it calls back for was decided. -/
theorem paxos_only_committed (times : ℕ) {attempts : List Attempt}
    (hpossible : ∀ a ∈ attempts, Possible .paxos a) {d : Daemon} (hd : d.clusterAck = none)
    {results : List ℤ} (hrun : run (appendFunction .paxos) times attempts [] d = some results) :
    ∃ entries, results = entries.map Entry.time ∧ OnlyCommitted times attempts entries := by
  obtain ⟨hcount, -, htimes⟩ := run_entries hd hrun
  refine ⟨_, htimes, (only_committed_entries hcount).mpr fun a ha => ?_⟩
  obtain ⟨hmem, hleaves⟩ := List.mem_filter.mp (List.mem_of_mem_take ha)
  rcases hpossible a hmem with h | h | ⟨e, h⟩
  · cases h
  · exact decide_eq_true h
  · simp [leavesTime, h] at hleaves

end TestDaemon
