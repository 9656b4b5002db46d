import Dsn.Lib.Guarded
import Dsn.Mempool.Contents

/-!
# Does the database mirror the pool?

Expiry removes entries from memory only.
-/

namespace Dsn

open Go InMemoryState

variable {mp : Mempool} {tx : Transaction} {bucket : Map Hash Bytes}

/-- The bucket holds just the pooled transactions. -/
def Mirrors (mp : Mempool) : Prop := mp.loadPersistent.Perm (mp.txs.toList.map fun e => e.2.tx)

instance (mp : Mempool) : Decidable (Mirrors mp) := inferInstanceAs (Decidable (List.Perm _ _))

def PoolCall.DbSucceeds : PoolCall → Prop
  | .submit _ dbErr _ => dbErr = none
  | .remove dbOk _ => dbOk = true
  | .pendingTxs _ _ => True

def PoolCall.FindsNoneExpired : PoolCall → Mempool → Prop
  | .pendingTxs now _, mp => ∀ (id : Hash) (pt : PendingTx), mp.txs[id]? = some pt →
      now id - pt.submitted ≤ mp.ttl
  | .submit _ _ _, _ | .remove _ _, _ => True

/-! ### The bucket -/

variable {bytes : Bytes}

theorem decode_of_encode (h : tx.encode [] = .ok () bytes) :
    (decodeFrom Transaction.decode bytes).toOption = some tx := by
  obtain ⟨b, rfl, hreads⟩ := Transaction.transmits tx [] () bytes h
  rw [decodeFrom_of_reads hreads]
  rfl

structure Backed (bucket : Map Hash Bytes) (mp : Mempool) : Prop where
  consistent : Consistent mp
  db_eq : mp.db = some bucket
  entries : ∀ (id : Hash) (bytes : Bytes), bucket[id]? = some bytes →
    ∃ tx : Transaction, tx.intentID = id ∧ tx.encode [] = .ok () bytes
  held : ∀ (id : Hash) (pt : PendingTx), mp.txs[id]? = some pt →
    ∃ bytes, pt.tx.encode [] = .ok () bytes ∧ bucket[id]? = some bytes

def Covers (mp : Mempool) (bucket : Map Hash Bytes) : Prop :=
  ∀ (id : Hash) (bytes : Bytes), bucket[id]? = some bytes → ∃ pt, mp.txs[id]? = some pt

section

variable (h : Backed bucket mp)
include h

theorem Backed.mem_loadPersistent_iff :
    tx ∈ mp.loadPersistent ↔ ∃ bytes, bucket[tx.intentID]? = some bytes ∧
      tx.encode [] = .ok () bytes := by
  unfold Mempool.loadPersistent
  rw [h.db_eq]
  rw [List.mem_filterMap]
  constructor
  · rintro ⟨⟨id, bytes⟩, hmem, hdecode⟩
    rw [Std.ExtTreeMap.mem_toList_iff_getElem?_eq_some] at hmem
    obtain ⟨tx', rfl, hencode⟩ := h.entries id bytes hmem
    cases (decode_of_encode hencode).symm.trans hdecode
    exact ⟨bytes, hmem, hencode⟩
  · rintro ⟨bytes, hget, hencode⟩
    exact ⟨(tx.intentID, bytes), Std.ExtTreeMap.mem_toList_iff_getElem?_eq_some.2 hget,
      decode_of_encode hencode⟩

theorem Backed.loadPersistent_ids :
    mp.loadPersistent.map Transaction.intentID = bucket.toList.map Prod.fst := by
  unfold Mempool.loadPersistent
  rw [h.db_eq]
  dsimp only
  have hentries : ∀ e ∈ bucket.toList, ∃ tx : Transaction, tx.intentID = e.1 ∧
      (decodeFrom Transaction.decode e.2).toOption = some tx := by
    intro e he
    obtain ⟨tx, hid, hencode⟩ := h.entries e.1 e.2
      (Std.ExtTreeMap.mem_toList_iff_getElem?_eq_some.1 he)
    exact ⟨tx, hid, decode_of_encode hencode⟩
  generalize bucket.toList = l at hentries
  induction l with
  | nil => rfl
  | cons e l ih =>
    obtain ⟨tx, hid, hdecode⟩ := hentries e List.mem_cons_self
    simp only [List.filterMap_cons, hdecode, List.map_cons, hid,
      ih fun e he => hentries e (List.mem_cons_of_mem _ he)]

theorem Backed.mirrors_iff : Mirrors mp ↔ Covers mp bucket := by
  have hheld : (mp.txs.toList.map fun e => e.2.tx).Perm mp.index := h.consistent.indexed.symm
  constructor
  · intro hmirrors id bytes hget
    obtain ⟨tx, rfl, hencode⟩ := h.entries id bytes hget
    have hmem := hmirrors.mem_iff.1 (h.mem_loadPersistent_iff.2 ⟨bytes, hget, hencode⟩)
    obtain ⟨pt, hpt, -⟩ := h.consistent.mem_index_iff.1 (hheld.mem_iff.1 hmem)
    exact ⟨pt, hpt⟩
  · intro hcovers
    have hnodup : mp.loadPersistent.Nodup := by
      refine List.Nodup.of_map Transaction.intentID ?_
      rw [h.loadPersistent_ids]
      exact Map.nodup_keys _
    refine List.Perm.trans ?_ hheld.symm
    refine (List.perm_ext_iff_of_nodup hnodup h.consistent.nodup_index.of_map).2 fun tx => ?_
    rw [h.mem_loadPersistent_iff, h.consistent.mem_index_iff]
    constructor
    · rintro ⟨bytes, hget, hencode⟩
      obtain ⟨pt, hpt⟩ := hcovers _ _ hget
      obtain ⟨bytes', hencode', hget'⟩ := h.held _ _ hpt
      cases hget.symm.trans hget'
      have hsame := (decode_of_encode hencode').symm.trans (decode_of_encode hencode)
      exact ⟨pt, hpt, Option.some.inj hsame⟩
    · rintro ⟨pt, hpt, rfl⟩
      obtain ⟨bytes, hencode, hget⟩ := h.held _ _ hpt
      exact ⟨bytes, hget, hencode⟩

/-! ### The calls -/

theorem Backed.add (hfresh : mp.txs[tx.intentID]? = none) (hencode : tx.encode [] = .ok () bytes)
    (submitted : ℤ) :
    Backed (bucket.insert tx.intentID bytes) ((mp.add tx submitted).written tx) := by
  have hwritten : (mp.add tx submitted).written tx =
      { mp.add tx submitted with db := some (bucket.insert tx.intentID bytes) } := by
    unfold Mempool.written
    rw [show (mp.add tx submitted).db = some bucket from h.db_eq, hencode]
  refine ⟨(h.consistent.add hfresh submitted).of_eq written_txs written_index, by rw [hwritten],
    fun id bytes' hget => ?_, fun id pt hget => ?_⟩
  · rw [Map.get_insert] at hget
    split_ifs at hget with hid
    · cases hget
      exact ⟨tx, hid, hencode⟩
    · exact h.entries id bytes' hget
  · rw [written_txs] at hget
    change (mp.txs.insert tx.intentID ⟨tx, submitted⟩)[id]? = some pt at hget
    rw [Map.get_insert] at hget ⊢
    split_ifs at hget ⊢
    · cases hget
      exact ⟨bytes, hencode, rfl⟩
    · exact h.held id pt hget

end

theorem Covers.add (h : Covers mp bucket) (submitted : ℤ) :
    Covers ((mp.add tx submitted).written tx) (bucket.insert tx.intentID bytes) := by
  intro id bytes' hget
  rw [written_txs]
  show ∃ pt, (mp.txs.insert tx.intentID ⟨tx, submitted⟩)[id]? = some pt
  rw [Map.get_insert] at hget ⊢
  split_ifs at hget ⊢
  · exact ⟨_, rfl⟩
  · exact h id bytes' hget

theorem Backed.remove (h : Backed bucket mp) (id : Hash) :
    Backed (bucket.erase id) (mp.remove true id) := by
  refine ⟨(h.consistent.drop id).of_eq rfl rfl, ?_, fun a bytes hget => ?_, fun a pt hget => ?_⟩
  · show mp.db.map _ = _
    rw [h.db_eq]
    rfl
  · exact h.entries a bytes (Map.get_erase_eq_some.1 hget).2
  · obtain ⟨ha, hold⟩ := Map.get_erase_eq_some.1 hget
    rw [Map.get_erase_of_ne _ ha]
    exact h.held a pt hold

theorem Covers.remove (h : Covers mp bucket) (id : Hash) :
    Covers (mp.remove true id) (bucket.erase id) := by
  intro a bytes hget
  obtain ⟨ha, hold⟩ := Map.get_erase_eq_some.1 hget
  obtain ⟨pt, hpt⟩ := h a bytes hold
  exact ⟨pt, Map.get_erase_eq_some.2 ⟨ha, hpt⟩⟩

theorem Backed.expire (h : Backed bucket mp) (now : Hash → ℤ) : Backed bucket (mp.expire now) :=
  ⟨h.consistent.expire now, (expire_rest now mp).2.2.trans h.db_eq, h.entries,
    fun id pt hget => h.held id pt ((get_expire now mp id pt).1 hget).1⟩

theorem Backed.covers_expire_iff (h : Backed bucket mp) (hcovers : Covers mp bucket)
    (now : Hash → ℤ) : Covers (mp.expire now) bucket ↔
      ∀ (id : Hash) (pt : PendingTx), mp.txs[id]? = some pt → now id - pt.submitted ≤ mp.ttl := by
  constructor
  · intro hafter id pt hget
    obtain ⟨bytes, -, hbytes⟩ := h.held id pt hget
    obtain ⟨pt', hget'⟩ := hafter id bytes hbytes
    obtain ⟨hold, hage⟩ := (get_expire now mp id pt').1 hget'
    cases hget.symm.trans hold
    exact hage
  · intro hage id bytes hbytes
    obtain ⟨pt, hget⟩ := hcovers id bytes hbytes
    exact ⟨pt, (get_expire now mp id pt).2 ⟨hget, hage id pt hget⟩⟩

section

variable [Crypto] {s : InMemoryState}

theorem PoolCall.backed {c : PoolCall} (hdb : c.DbSucceeds) (h : Backed bucket mp) :
    ∃ bucket', Backed bucket' (c.run s mp) ∧
      (Covers mp bucket → (Covers (c.run s mp) bucket' ↔ c.FindsNoneExpired mp)) := by
  cases c with
  | submit clock dbErr tx? =>
    cases tx? with
    | none => exact ⟨bucket, h, fun hcovers => iff_of_true hcovers trivial⟩
    | some tx =>
      rcases submit_cases s clock dbErr tx mp with
        ⟨-, hrun⟩ | ⟨expected, hacc, ⟨hpersists, hrun⟩ | ⟨-, hrun⟩⟩
      · rw [hrun]
        exact ⟨bucket, h, fun hcovers => iff_of_true hcovers trivial⟩
      · obtain ⟨-, bytes, hencode⟩ := hpersists bucket h.db_eq
        rw [hrun]
        exact ⟨_, h.add hacc.fresh hencode _, fun hcovers => iff_of_true (hcovers.add _) trivial⟩
      · -- taken in and dropped: map and bucket are as before
        have htxs := drop_add_txs hacc.fresh clock.submitted
        rw [hrun]
        refine ⟨bucket, ⟨(h.consistent.add hacc.fresh _).drop _, h.db_eq, h.entries, ?_⟩, ?_⟩
        · rw [htxs]
          exact h.held
        · intro hcovers
          refine iff_of_true (fun id bytes hget => ?_) trivial
          rw [htxs]
          exact hcovers id bytes hget
  | remove dbOk id =>
    obtain rfl : dbOk = true := hdb
    exact ⟨_, h.remove id, fun hcovers => iff_of_true (hcovers.remove id) trivial⟩
  | pendingTxs now later =>
    exact ⟨bucket, h.expire now, fun hcovers => h.covers_expire_iff hcovers now⟩

/-- The database mirrors the pool exactly when no transaction is found expired. -/
theorem persistence_mirrors_iff (maxSize ttl : ℤ) (calls : List (InMemoryState × PoolCall))
    (hdb : ∀ e ∈ calls, e.2.DbSucceeds) :
    (∀ pre post, calls = pre ++ post →
        Mirrors (runOver pre (Mempool.newWithPersistence maxSize ttl (some ∅)))) ↔
      Guarded.Runs (fun e mp => e.2.FindsNoneExpired mp) stepOver
        (Mempool.newWithPersistence maxSize ttl (some ∅)) calls := by
  have hnone (id : Hash) : (∅ : Map Hash Bytes)[id]? = none := rfl
  have hnew : Backed ∅ (Mempool.newWithPersistence maxSize ttl (some ∅)) := by
    refine ⟨new_consistent _ _ _, rfl, fun id bytes hget => ?_, fun id pt hget => ?_⟩
    · cases (hnone id).symm.trans hget
    · have hempty : (∅ : Map Hash PendingTx)[id]? = none := rfl
      cases hempty.symm.trans hget
  refine Guarded.forall_after_iff (fun mp => ∃ bucket, Backed bucket mp) Mirrors ?_ ?_ ⟨∅, hnew⟩
    (List.Perm.refl [])
  · rintro ⟨s, c⟩ he mp ⟨bucket, h⟩
    obtain ⟨bucket', h', -⟩ := PoolCall.backed (s := s) (hdb _ he) h
    exact ⟨bucket', h'⟩
  · rintro ⟨s, c⟩ he mp ⟨bucket, h⟩ hmirrors
    obtain ⟨bucket', h', hiff⟩ := PoolCall.backed (s := s) (hdb _ he) h
    exact h'.mirrors_iff.trans (hiff (h.mirrors_iff.1 hmirrors))

end

open Sample

theorem paymentThen_dbSucceeds {c : PoolCall} (h : c.DbSucceeds) :
    ∀ e ∈ paymentThen c, e.2.DbSucceeds := by
  intro e he
  rcases List.mem_cons.1 he with rfl | he
  · rfl
  · rw [List.mem_singleton.1 he]
    exact h

theorem persistence_mirrors_sample :
    Mirrors (runOver (paymentThen (.remove true samplePayment.intentID))
      (Mempool.newWithPersistence 2 0 (some ∅))) := by
  have hruns : Guarded.Runs (fun e mp => e.2.FindsNoneExpired mp) stepOver
      (Mempool.newWithPersistence 2 0 (some ∅))
        (paymentThen (.remove true samplePayment.intentID)) := ⟨trivial, trivial, trivial⟩
  have hdb : (PoolCall.remove true samplePayment.intentID).DbSucceeds := rfl
  exact (persistence_mirrors_iff 2 0 _ (paymentThen_dbSucceeds hdb)).2 hruns _ []
    (List.append_nil _).symm

theorem expired_payment_loaded : ¬ ∀ (_ : Crypto) (maxSize ttl : ℤ)
    (calls : List (InMemoryState × PoolCall)), (∀ e ∈ calls, e.2.DbSucceeds) →
      Mirrors (runOver calls (Mempool.newWithPersistence maxSize ttl (some ∅))) := by
  intro h
  have hmirrors := h sampleCrypto 2 0 (paymentThen (.pendingTxs (fun _ => 1) fun _ => 1))
    (paymentThen_dbSucceeds trivial)
  exact absurd hmirrors (by decide +kernel)

end Dsn
