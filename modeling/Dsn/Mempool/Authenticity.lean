import Dsn.Lib.Guarded
import Dsn.Mempool.Contents

/-!
# Are the listed transactions authentic?

`Submit` verifies a signature only for registrations and for senders with a known next nonce.
-/

namespace Dsn

open Go InMemoryState

section

variable [Crypto] {s : InMemoryState} {mp : Mempool} {tx : Transaction}

structure Vouched (s : InMemoryState) (mp : Mempool) (tx : Transaction) : Prop where
  intent : tx.intentID = tx.computeIntentID
  signature : tx.txType = txTypeValidatorRegistration ∨ (mp.nextNonce[tx.sender]?).getD 0 ≠ 0 →
    ∃ acc, s.accounts[tx.sender]? = some acc ∧
      ed25519Verify acc.publicKey tx.intentID.bytes tx.signature = true

theorem Accepts.authorizes_iff {now expected : UInt64} (h : Accepts s now mp tx expected) :
    Authorizes tx tx.sender s ↔ Vouched s mp tx := by
  refine ⟨fun hauth => ⟨hauth.1, fun _ => hauth.2⟩, fun hv => ⟨hv.intent, ?_⟩⟩
  by_cases hopen : tx.txType = txTypeValidatorRegistration ∨ (mp.nextNonce[tx.sender]?).getD 0 ≠ 0
  · exact hv.signature hopen
  · rw [not_or, not_not] at hopen
    obtain ⟨acc, hacc, -, hsig, -⟩ := h.follows.unknown hopen.2
    rw [Mempool.signatureValid, if_neg hopen.1] at hsig
    exact ⟨acc, hacc, hsig⟩

/-- What the call admits is vouched for. -/
def PoolCall.Vouched (s : InMemoryState) : PoolCall → Mempool → Prop
  | .submit clock dbErr (some tx), mp => (∃ expected, Accepts s clock.now mp tx expected) →
      Persists dbErr tx mp → Dsn.Vouched s mp tx
  | .submit _ _ none, _ | .remove _ _, _ | .pendingTxs _ _, _ => True

/-! ### The transactions of the pool -/

def HoldsAuthentic (s : InMemoryState) (mp : Mempool) : Prop :=
  ∀ (id : Hash) (pt : PendingTx), mp.txs[id]? = some pt → Authorizes pt.tx pt.tx.sender s

theorem listed_authentic_iff (h : Consistent mp) :
    (∀ now later, ∀ tx ∈ (mp.pendingTxs now later).1, Authorizes tx tx.sender s) ↔
      HoldsAuthentic s mp := by
  constructor
  · intro hlisted id pt hget
    have hid := h.keyed id pt hget
    -- at this time nothing is too old yet
    refine hlisted (fun _ => pt.submitted + mp.ttl) (fun _ => pt.submitted + mp.ttl) pt.tx ?_
    refine (mem_pendingTxs_iff h _ _).2 ⟨pt, by rw [hid]; exact hget, rfl, ?_, ?_⟩ <;> omega
  · intro hheld now later tx htx
    obtain ⟨pt, hget, rfl, -⟩ := (mem_pendingTxs_iff h now later).1 htx
    exact hheld _ pt hget

theorem HoldsAuthentic.of_subset {mp' : Mempool} (h : HoldsAuthentic s mp)
    (hsub : ∀ (id : Hash) (pt : PendingTx), mp'.txs[id]? = some pt → mp.txs[id]? = some pt) :
    HoldsAuthentic s mp' := fun id pt hget => h id pt (hsub id pt hget)

omit [Crypto] in
theorem drop_txs_subset {id a : Hash} {pt : PendingTx} (h : (mp.drop id).txs[a]? = some pt) :
    mp.txs[a]? = some pt :=
  (Map.get_erase_eq_some.1 h).2

theorem holdsAuthentic_add_iff (h : HoldsAuthentic s mp) (submitted : ℤ) :
    HoldsAuthentic s ((mp.add tx submitted).written tx) ↔ Authorizes tx tx.sender s := by
  have hget (id : Hash) : ((mp.add tx submitted).written tx).txs[id]? =
      if tx.intentID = id then some ⟨tx, submitted⟩ else mp.txs[id]? := by
    rw [written_txs]
    exact Map.get_insert _ _ _ _
  constructor
  · intro hadd
    exact hadd tx.intentID ⟨tx, submitted⟩ (by rw [hget, if_pos rfl])
  · intro hauth id pt hpt
    rw [hget] at hpt
    split_ifs at hpt
    · cases hpt
      exact hauth
    · exact h id pt hpt

theorem PoolCall.holdsAuthentic_iff (h : HoldsAuthentic s mp) (c : PoolCall) :
    HoldsAuthentic s (c.run s mp) ↔ c.Vouched s mp := by
  cases c with
  | submit clock dbErr tx? =>
    cases tx? with
    | none => exact iff_of_true h trivial
    | some tx =>
      rcases submit_cases s clock dbErr tx mp with
        ⟨hno, hrun⟩ | ⟨expected, hacc, ⟨hdb, hrun⟩ | ⟨hdb, hrun⟩⟩
      · rw [hrun]
        exact iff_of_true h fun hacc => absurd hacc hno
      · rw [hrun, holdsAuthentic_add_iff h, hacc.authorizes_iff]
        exact ⟨fun hv _ _ => hv, fun hv => hv ⟨expected, hacc⟩ hdb⟩
      · rw [hrun]
        refine iff_of_true (h.of_subset fun id pt hget => ?_) fun _ hdb' => absurd hdb' hdb
        rwa [drop_add_txs hacc.fresh] at hget
  | remove dbOk id =>
    refine iff_of_true (h.of_subset fun a pt hget => ?_) trivial
    change (mp.remove dbOk id).txs[a]? = some pt at hget
    unfold Mempool.remove at hget
    split_ifs at hget <;> exact drop_txs_subset hget
  | pendingTxs now later =>
    refine iff_of_true (h.of_subset fun id pt hget => ?_) trivial
    exact ((get_expire now mp id pt).1 hget).1

/-- What is listed is authentic exactly when what is taken in is vouched for. -/
theorem pool_authentic_iff (s : InMemoryState) (maxSize ttl : ℤ) (db : Option (Map Hash Bytes))
    (calls : List PoolCall) :
    (∀ pre post, calls = pre ++ post → ∀ now later, ∀ tx ∈ ((runPool s pre
        (Mempool.newWithPersistence maxSize ttl db)).pendingTxs now later).1,
          Authorizes tx tx.sender s) ↔
      Guarded.Runs (PoolCall.Vouched s) (PoolCall.run s)
        (Mempool.newWithPersistence maxSize ttl db) calls := by
  have hnew : HoldsAuthentic s (Mempool.newWithPersistence maxSize ttl db) := by
    intro id pt hget
    have hnone : (∅ : Map Hash PendingTx)[id]? = none := rfl
    cases hnone.symm.trans hget
  rw [← Guarded.forall_after_iff Consistent (HoldsAuthentic s)
    (fun c _ mp h => PoolCall.consistent h c) (fun c _ mp _ h => PoolCall.holdsAuthentic_iff h c)
    (new_consistent maxSize ttl db) hnew]
  refine forall₃_congr fun pre post _ => listed_authentic_iff ?_
  exact runPool_consistent (new_consistent maxSize ttl db) pre

end

@[reducible] def onlyZeroVerifies : Crypto :=
  ⟨fun b => FixedBytes.copy 32 (b.drop 16), fun _ _ sig => sig == List.replicate 64 0⟩

def forgedPayment : Transaction :=
  { samplePayment with
    nonce := 2
    intentID := FixedBytes.copy 32 [2]
    signature := List.replicate 64 1 }

theorem forged_payment_listed : ¬ ∀ (_ : Crypto) (s : InMemoryState) (maxSize ttl : ℤ)
    (db : Option (Map Hash Bytes)) (calls : List PoolCall) (now later : Hash → ℤ),
      ∀ tx ∈ ((runPool s calls (Mempool.newWithPersistence maxSize ttl db)).pendingTxs now later).1,
        Authorizes tx tx.sender s := by
  intro h
  have hlisted : forgedPayment ∈ ((@runPool onlyZeroVerifies
      { newInMemoryState with accounts := sampleAccounts }
      [.submit ⟨0, 0⟩ none (some samplePayment), .submit ⟨0, 0⟩ none (some forgedPayment)]
      (Mempool.newWithPersistence 2 0 none)).pendingTxs (fun _ => 0) fun _ => 0).1 := by
    decide +kernel
  obtain ⟨-, acc, hacc, hsig⟩ := h onlyZeroVerifies _ _ _ _ _ _ _ _ hlisted
  have hverify : @ed25519Verify onlyZeroVerifies acc.publicKey forgedPayment.intentID.bytes
      forgedPayment.signature = false := rfl
  cases hsig

end Dsn
