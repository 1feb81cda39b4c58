import TreeOps.Proofs.Memory.EitherOrder
import TreeOps.Proofs.Memory.History

/-!
# Independent targets

Deletes and prunes below roots that lie apart do not disturb one another, whatever failures are
scripted and however they end: each gives what it gives on its own, and the nodes and the failures
that are left are the same in either order. So targets can be worked through in any order.
-/

namespace TreeOps

/-- A delete or a prune with all that it is given. -/
inductive Clearing where
  | delete (opts : DeleteOptions) (root : Path)
  | prune (opts : PruneOptions) (root : Path)

namespace Clearing

/-- What is given back on success: a prune lists the removed paths. -/
@[reducible] def Result : Clearing → Type
  | delete .. => Unit
  | prune .. => List Path

/-- The directory that is deleted or pruned. -/
def root : Clearing → Path
  | delete _ root | prune _ root => root

/-- What is done. -/
def operation (levels : Nat) : (x : Clearing) → Operation x.Result
  | delete opts root => deleteDirectory levels opts root
  | prune opts root => pruneEmpty levels opts root

/-- What is done once the root is resolved. -/
def resolved (levels : Nat) : (x : Clearing) → Operation x.Result
  | delete opts root => do
    Operation.note (.deletingDirectory root opts.recursive)
    Removal.deleteResolved levels opts root
  | prune opts root => Removal.pruneResolved levels opts root

/-- Whatever is asked for lies at or below the root. -/
theorem exists_asks_resolved (levels : Nat) (x : Clearing) :
    ∃ tx, Operation.Asks (Request.Removes tx x.root.components) (x.resolved levels) := by
  cases x with
  | delete opts root =>
    exact ⟨_, Operation.asks_seq (Operation.asks_note trivial)
      (Removal.asks_deleteResolved levels root)⟩
  | prune opts root => exact ⟨_, Removal.asks_pruneResolved levels root⟩

end Clearing

namespace Memory

/-- In memory a root is resolved to itself. -/
theorem run_clearing (m : Memory) (listener : Listener) (levels : Nat) (x : Clearing) :
    (m.runs listener (x.operation levels)).result =
        ((x.resolved levels).run.run (fileSystem.handler listener) m).1 ∧
      (m.runs listener (x.operation levels)).memory =
        ((x.resolved levels).run.run (fileSystem.handler listener) m).2 := by
  rw [runs_eq]
  cases x with
  | delete opts root => exact ⟨rfl, rfl⟩
  | prune opts root => exact ⟨rfl, rfl⟩

/-- Two deletes or prunes at roots of which neither is at or below the other have the same results
and leave the same nodes and the same failures in one order and in the other. -/
theorem clearings_in_either_order (m : Memory) (listener listener' : Listener)
    (levels levels' : Nat) (x y : Clearing) (hroots : Apart x.root.components y.root.components) :
    let first := m.runs listener (x.operation levels)
    let second := first.memory.runs listener' (y.operation levels')
    let first' := m.runs listener' (y.operation levels')
    let second' := first'.memory.runs listener (x.operation levels)
    first.result = second'.result ∧ second.result = first'.result ∧
      second.memory.nodes = second'.memory.nodes ∧
      second.memory.failures = second'.memory.failures := by
  intro first second first' second'
  obtain ⟨tx, hx⟩ := x.exists_asks_resolved levels
  obtain ⟨tx', hy⟩ := y.exists_asks_resolved levels'
  have horder := Program.eitherOrder_runs (sees_handler listener) (sees_handler listener')
    (fun r r' => eitherOrder_of_removes listener listener' hroots) hx hy
  have hstate := remains_eq_iff.mp (horder.state m)
  simp only [first, second, first', second', run_clearing]
  exact ⟨(horder.first m).symm, horder.second m, hstate⟩

/-- A delete that fails once and tries again, and a prune that a failure ends. -/
theorem clearings_in_either_order_failing :
    let m := (((new.addFile "/a/x/f" 1).addDirectory "/b/y/z").addFailure
      ⟨.removeDirectory, "/a/x", .directoryNotEmpty, some 2⟩).addFailure
      ⟨.list, "/b/y/z", .accessDenied, none⟩
    let x := Clearing.delete { recursive := true } "/a"
    let y := Clearing.prune {} "/b"
    let first := m.runs {} (x.operation 4)
    let second := first.memory.runs {} (y.operation 4)
    let first' := m.runs {} (y.operation 4)
    let second' := first'.memory.runs {} (x.operation 4)
    first.result = second'.result ∧ second.result = first'.result ∧
      second.memory.nodes = second'.memory.nodes ∧
      second.memory.failures = second'.memory.failures :=
  clearings_in_either_order _ _ _ _ _ (.delete { recursive := true } "/a") (.prune {} "/b")
    (by decide)

end Memory

end TreeOps
