import Dsn.VM.Frame

/-!
# The snapshots of an execution

How many snapshots an execution takes and gives back.
-/

namespace Dsn

open Go InMemoryState

structure Execution where
  vm : VM
  tx : ContractTx
  height : UInt64
  timestamp : UInt64
  txIndex : UInt32
  state : InMemoryState

namespace Execution

variable [Crypto]

def after (x : Execution) : InMemoryState :=
  finalState (x.vm.execute x.tx x.height x.timestamp x.txIndex x.state)

def undone (x : Execution) : Bool :=
  match executeTx x.vm x.tx x.height x.timestamp x.txIndex x.state.saved with
  | .ok (result, err) _ => err.isSome || result.reverted
  | .error e _ => !e.isPanic

def copy (x : Execution) : StateSnapshot := ⟨x.state.accounts, x.state.kvstore⟩

def leaves (x : Execution) : List StateSnapshot := if x.undone then [] else [x.copy]

theorem after_snapshots (x : Execution) :
    x.after.snapshots = x.state.snapshots ++ x.leaves := by
  have hframe := executeTx_frame x.vm x.tx x.height x.timestamp x.txIndex x.state.saved
  unfold after leaves undone
  rcases x.vm.execute_cases x.tx x.height x.timestamp x.txIndex x.state with
    ⟨e, t, hr, he, hx⟩ | ⟨e, t, hr, he, hx⟩ | ⟨result, err, t, hr, hf, hx⟩ |
      ⟨result, err, t, hr, hf, hx⟩ <;> rw [hx, hr] <;> rw [hr] at hframe
  · rw [if_neg (by simp [he])]
    exact hframe.snapshots
  · simp [he, finalState]
  · simp [hf, finalState]
  · rw [if_neg (by simpa using hf)]
    exact hframe.snapshots

theorem leaves_eq_nil {x : Execution} : x.leaves = [] ↔ x.undone = true := by
  unfold leaves
  split_ifs with h <;> simp [h]

end Execution

end Dsn
