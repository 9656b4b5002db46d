import Dsn.Mempool.Contents

/-!
# The order of the pending transactions

The list is sorted by fee, then time, then ID, and has at most the configured length.
-/

namespace Dsn

open Go InMemoryState

variable {mp : Mempool}

/-! ### Fee, timestamp, ID -/

/-- Higher fee first, then the older one, then by intent ID. -/
def Precedes (a b : Transaction) : Prop :=
  b.maxFee < a.maxFee ∨ a.maxFee = b.maxFee ∧ (a.timestamp < b.timestamp ∨
    a.timestamp = b.timestamp ∧ compare a.intentID b.intentID = .lt)

def feeOrder : Transaction → Transaction → Ordering :=
  compareLex (fun a b => compareOn Transaction.maxFee b a)
    (compareLex (compareOn Transaction.timestamp) (compareOn Transaction.intentID))

instance : Std.TransCmp feeOrder :=
  have : Std.TransCmp fun a b => compareOn Transaction.maxFee b a := Std.TransCmp.opposite
  inferInstanceAs (Std.TransCmp (compareLex _ _))

theorem feeOrder_eq_lt {a b : Transaction} : feeOrder a b = .lt ↔ Precedes a b := by
  unfold feeOrder compareLex compareOn Precedes
  rw [Ordering.then_eq_lt, Ordering.then_eq_lt, Std.compare_eq_lt, Std.compare_eq_lt,
    Std.compare_eq_iff_eq, Std.compare_eq_iff_eq, eq_comm (a := b.maxFee)]

theorem intentID_eq_of_feeOrder {a b : Transaction} (h : feeOrder a b = .eq) :
    a.intentID = b.intentID := by
  unfold feeOrder compareLex at h
  rw [Ordering.then_eq_eq, Ordering.then_eq_eq] at h
  exact Std.compare_eq_iff_eq.1 h.2.2

theorem feeLess_eq (a b : Transaction) : Mempool.feeLess a b = (feeOrder a b).isLT := by
  have hiff : Mempool.feeLess a b = true ↔ Precedes a b := by
    unfold Mempool.feeLess Precedes
    split_ifs with hfee htime
    · simp [hfee]
    · simp [not_not.1 hfee, htime]
    · simp [not_not.1 hfee, not_not.1 htime]
  rw [Bool.eq_iff_iff, hiff, Ordering.isLT_iff_eq_lt, feeOrder_eq_lt]

theorem pairwise_sorted {entries : List Transaction}
    (h : (entries.map Transaction.intentID).Nodup) :
    (Mempool.sorted entries).Pairwise Precedes := by
  have hnodup : ((Mempool.sorted entries).map Transaction.intentID).Nodup :=
    (((sortSlice_perm _ entries).map _).nodup_iff).2 h
  have hless : Mempool.feeLess = fun a b => (feeOrder a b).isLT := by
    funext a b
    exact feeLess_eq a b
  have hsorted := pairwise_sortSlice_cmp feeOrder entries
  rw [← hless] at hsorted
  refine (hsorted.and (List.pairwise_map.1 hnodup)).imp fun {a b} hab => ?_
  obtain ⟨hle, hne⟩ := hab
  rw [cmp_isLT_eq_false_iff] at hle
  rw [← feeOrder_eq_lt]
  cases hcmp : feeOrder a b with
  | lt => rfl
  | eq => exact absurd (intentID_eq_of_feeOrder hcmp) hne
  | gt =>
    rw [hcmp] at hle
    cases hle

/-! ### Size -/

structure Mempool.Within (maxSize ttl : ℤ) (mp : Mempool) : Prop where
  maxSize_eq : mp.maxSize = maxSize
  ttl_eq : mp.ttl = ttl
  size_le : (mp.txs.size : ℤ) ≤ maxSize

namespace Mempool.Within

variable {maxSize ttl : ℤ}

theorem drop (h : mp.Within maxSize ttl) (id : Hash) : (mp.drop id).Within maxSize ttl where
  maxSize_eq := h.maxSize_eq
  ttl_eq := h.ttl_eq
  size_le := by
    have hle : (mp.txs.erase id).size ≤ mp.txs.size := Std.ExtTreeMap.size_erase_le
    exact (Int.ofNat_le.2 hle).trans h.size_le

theorem add {tx : Transaction} (h : mp.Within maxSize ttl)
    (hroom : (mp.txs.size : ℤ) < mp.maxSize) (submitted : ℤ) :
    (mp.add tx submitted).Within maxSize ttl where
  maxSize_eq := h.maxSize_eq
  ttl_eq := h.ttl_eq
  size_le := by
    have hle : (mp.txs.insert tx.intentID ⟨tx, submitted⟩).size ≤ mp.txs.size + 1 :=
      Std.ExtTreeMap.size_insert_le
    have hroom := h.maxSize_eq ▸ hroom
    show (((mp.txs.insert tx.intentID ⟨tx, submitted⟩).size : ℕ) : ℤ) ≤ maxSize
    omega

end Mempool.Within

section

variable [Crypto]

theorem PoolCall.within {s : InMemoryState} {maxSize ttl : ℤ} (h : mp.Within maxSize ttl)
    (c : PoolCall) : (c.run s mp).Within maxSize ttl :=
  c.preserves (fun _ _ _ _ _ hacc h' => h'.add hacc.room _) (fun _ id h' => h'.drop id)
    (fun _ _ h' => ⟨h'.maxSize_eq, h'.ttl_eq, h'.size_le⟩) h

/-! ### Runs -/

theorem runOver_induction (p : Mempool → Prop) (hstep : ∀ s c mp, p mp → p (PoolCall.run s c mp))
    (h : p mp) (calls : List (InMemoryState × PoolCall)) : p (runOver calls mp) := by
  exact List.foldlRecOn calls _ h fun mp' h' e _ => hstep e.1 e.2 mp' h'

/-- List and map of the pool agree, and what is pending is in strict order. -/
theorem pool_representation (maxSize ttl : ℤ) (db : Option (Map Hash Bytes)) (hsize : 0 ≤ maxSize)
    (calls : List (InMemoryState × PoolCall)) (mp : Mempool)
    (hmp : runOver calls (Mempool.newWithPersistence maxSize ttl db) = mp) :
    mp.index.Perm (mp.txs.toList.map fun e => e.2.tx) ∧
    (mp.index.map Transaction.intentID).Nodup ∧
    (mp.txs.size : ℤ) ≤ maxSize ∧
    (∀ (id : Hash) (pt : PendingTx), mp.txs[id]? = some pt → pt.tx.intentID = id) ∧
    ∀ now later : Hash → ℤ,
      (∀ tx, tx ∈ (mp.pendingTxs now later).1 ↔ ∃ pt, mp.txs[tx.intentID]? = some pt ∧ pt.tx = tx ∧
        now tx.intentID - pt.submitted ≤ ttl ∧ later tx.intentID - pt.submitted ≤ ttl) ∧
      (mp.pendingTxs now later).1.Pairwise Precedes := by
  have hcons : Consistent mp := by
    rw [← hmp]
    exact runOver_induction Consistent (fun _ c _ h => PoolCall.consistent h c)
      (new_consistent _ _ _) calls
  have hwithin : mp.Within maxSize ttl := by
    rw [← hmp]
    refine runOver_induction (Mempool.Within maxSize ttl) (fun _ c _ h => PoolCall.within h c) ?_
      calls
    exact ⟨rfl, rfl, hsize⟩
  refine ⟨hcons.indexed, hcons.nodup_index, hwithin.size_le, hcons.keyed, fun now later => ⟨?_, ?_⟩⟩
  · intro tx
    rw [mem_pendingTxs_iff hcons, hwithin.ttl_eq]
  · exact (pairwise_sorted (hcons.expire now).nodup_index).filter _

end

open Sample

theorem sample_pool_pending :
    let mp := runOver (paymentThen (.pendingTxs (fun _ => 0) fun _ => 0))
      (Mempool.newWithPersistence 1 0 none)
    (mp.txs.size : ℤ) ≤ 1 ∧ samplePayment ∈ (mp.pendingTxs (fun _ => 0) fun _ => 0).1 := by
  intro mp
  obtain ⟨-, -, hsize, -, hpending⟩ := pool_representation 1 0 none (by decide)
    (paymentThen (.pendingTxs (fun _ => 0) fun _ => 0)) mp rfl
  refine ⟨hsize, ((hpending (fun _ => 0) fun _ => 0).1 samplePayment).2 ⟨⟨samplePayment, 0⟩, ?_⟩⟩
  decide +kernel

end Dsn
