import Krafters.Pysyncobj.Cluster

/-!
# pysyncobj/custom_server.py: the cluster under test

Every node is a `TestObjAutoTick` with one item, which `setValue` sets and returns; its peers are
the nodes of the cluster with another address, as `get_node_config` writes them.  `numberPickle`
stands for `cPickle` and `zlib` where the items are numbers.
-/

namespace Pysyncobj

/-- `TestObjAutoTick`, with the first value of its item. -/
abbrev TestObjAutoTick {V Byte : Type} (item : V) (pickle : Pickle (V × Entry V × Entry V) Byte) :
    Replicated where
  Command := V
  Data := V
  Result := V
  Byte := Byte
  initial := item
  -- `setValue`
  apply := fun value _ => (value, value)
  pickle := pickle

def TestObjAutoTick.conf : SyncObjConf where
  commandsQueueSize := 10000
  appendEntriesUseBatch := false

variable {U : Type} [DecidableEq U]

/-- The nodes of a cluster configuration. -/
def Cluster.ofNodes (addrs : List U) (h : addrs.Nodup) : Cluster U where
  addrs := ⟨addrs, Multiset.coe_nodup.mpr h⟩
  otherNodesAddrs u := addrs.filter (· ≠ u)
  nodup _ _ := h.filter _
  mem_other u _ w := by simp
  conf _ := TestObjAutoTick.conf

/-! ## Numbers as items -/

def Entry.numbers (x : Entry ℕ) : List ℕ := [x.command.elim 0 (· + 1), x.idx, x.term]

def Entry.ofNumbers (command idx term : ℕ) : Entry ℕ :=
  ⟨if command = 0 then none else some (command - 1), idx, term⟩

theorem Entry.ofNumbers_eq (x : Entry ℕ) :
    Entry.ofNumbers (x.command.elim 0 (· + 1)) x.idx x.term = x := by
  obtain ⟨command, idx, term⟩ := x
  cases command <;> rfl

/-- Snapshots in two letters, as lists of seven numbers. -/
def numberPickle : Pickle (ℕ × Entry ℕ × Entry ℕ) UInt8 :=
  (Pickle.unary 0 1 (by decide)).via (fun d => d.1 :: (d.2.1.numbers ++ d.2.2.numbers))
    (fun
      | [item, command, idx, term, command', idx', term'] =>
        some (item, .ofNumbers command idx term, .ofNumbers command' idx' term')
      | _ => none)
    fun d => by
      show some (d.1, Entry.ofNumbers _ _ _, Entry.ofNumbers _ _ _) = _
      rw [Entry.ofNumbers_eq, Entry.ofNumbers_eq]

namespace Cluster

def pair : Cluster Bool := .ofNodes [false, true] (by decide)

/-- One node is elected, the other one submits a command, and both apply it. -/
def oneCommand : List (Move (TestObjAutoTick 0 numberPickle) Bool) :=
  let env : Environment := ⟨[], [], []⟩
  [.event false (.link true true) env, .event true (.link false true) env,
    .event false (.tick ⟨true, true, false⟩) env,
    .deliver 0 env, .deliver 0 env, .deliver 0 env, .deliver 0 env,
    .submit true (5 : ℕ) (some 9) env, .event true (.tick ⟨false, true, false⟩) env,
    .deliver 0 env, .event false (.tick ⟨false, true, false⟩) env,
    .deliver 0 env, .deliver 0 env, .deliver 0 env, .deliver 0 env, .deliver 0 env, .deliver 0 env,
    .event false (.tick ⟨false, true, false⟩) env,
    .deliver 0 env, .deliver 0 env, .event true (.tick ⟨false, true, false⟩) env]

example : (oneCommand.foldl pair.play pair.initial).calls.map (fun c => (c.1, c.2.function,
    c.2.result, c.2.reason)) = [(true, 9, some 5, .success)] := by decide +kernel

/-- Three nodes with room for one command in their queues, and for eleven bytes in a batch. -/
def trio : Cluster (Fin 3) :=
  { Cluster.ofNodes [0, 1, 2] (by decide) with
    conf := fun _ =>
      { TestObjAutoTick.conf with commandsQueueSize := 1, logCompactionBatchSize := 11 } }

/-- Two nodes apply two commands, the leader compacts its log and sends the third node a snapshot
in two batches.  Then that node has room for one of two commands, which all goes well with. -/
def catchUp : List (Move (TestObjAutoTick 0 numberPickle) (Fin 3)) :=
  let env : Environment := ⟨[], [], []⟩
  let tick (u : Fin 3) : Move (TestObjAutoTick 0 numberPickle) (Fin 3) :=
    .event u (.tick ⟨false, true, false⟩) env
  let next : Move (TestObjAutoTick 0 numberPickle) (Fin 3) := .deliver 0 env
  [.event 0 (.link 1 true) env, .event 1 (.link 0 true) env,
    .event 0 (.tick ⟨true, true, false⟩) env, next, next, .lose 0,
    .submit 0 (1 : ℕ) none env, tick 0, .submit 0 (2 : ℕ) none env, tick 0,
    next, next, next, next, next, next, next, next,
    .event 0 (.tick ⟨false, false, true⟩) env, .event 0 (.tick ⟨false, false, false⟩) env,
    -- the third node
    .event 0 (.link 1 false) env, .event 0 (.link 2 true) env, .event 2 (.link 0 true) env,
    .event 0 (.tick ⟨false, true, false⟩) ⟨[], [5], []⟩, next, next, next, next,
    .submit 2 (3 : ℕ) (some 7) env, .submit 2 (4 : ℕ) (some 8) env, tick 2,
    next, next, next, next, next, next,
    tick 0, next, next, next, next, next, tick 0, next, tick 2]

example : (catchUp.foldl trio.play trio.initial).calls.map (fun c => (c.1, c.2.function,
    c.2.result, c.2.reason)) = [(2, 8, none, .queueFull), (2, 7, some 3, .success)] := by
  decide +kernel

theorem catchUp_loadsTaken : (catchUp.foldl trio.play trio.initial).LoadsTaken := by
  have hdumps : (catchUp.foldl trio.play trio.initial).dumps =
      [.taken 1 (numberPickle.dumps (2, ⟨some 2, 3, 1⟩, ⟨some 1, 2, 1⟩)),
        .loaded 1 (numberPickle.dumps (2, ⟨some 2, 3, 1⟩, ⟨some 1, 2, 1⟩))] := by decide +kernel
  exact System.loadsTaken_once hdumps

end Cluster

end Pysyncobj
