import Dsn.Consensus.Completeness
import Dsn.Mempool.Admission
import Dsn.State.Settlement

/-!
# Can a pending transaction stop block production?

`BuildBlock` returns the error of the first picked transaction that fails. So it gets past the
pending transactions exactly if each of them, on the ledger that the picked ones before it have
left, meets the conditions of its kind:

* a plain transaction is valid, signed and next in order, its sender and its recipient's balance
  can bear it, and a registration can be entered in the registry;
* a contract transaction is decoded and its code returns, which only running it can tell, and its
  sender can pay the gas.
-/

namespace Dsn

open Go InMemoryState

section

variable [Crypto] {ctx : TxContext} {i : ℕ} {tx : Transaction} {txs : List Transaction}
  {s s₁ : InMemoryState}

variable {inp : BuildInput}

variable {start : UInt64 × Hash}

end

/-! ### Transactions of the sample ledger -/

open Sample

variable {tx : Transaction}

end Dsn
