import Dsn.Mempool.Admission

/-!
# What the pool holds

The map and the list hold the same transactions, call after call.
-/

namespace Dsn

open Go InMemoryState

/-! ### The database -/

def Persists (dbErr : Option Error) (tx : Transaction) (mp : Mempool) : Prop :=
  ∀ bucket, mp.db = some bucket → dbErr = none ∧ ∃ bytes, tx.encode [] = .ok () bytes

def Mempool.written (tx : Transaction) (mp : Mempool) : Mempool :=
  match mp.db, tx.encode [] with
  | some bucket, .ok _ bytes => { mp with db := some (bucket.insert tx.intentID bytes) }
  | _, _ => mp

variable {tx : Transaction} {mp : Mempool} {dbErr : Option Error}

theorem persist_of_persists (h : Persists dbErr tx mp) :
    Mempool.persist dbErr tx mp = .ok () (mp.written tx) := by
  unfold Mempool.persist Mempool.written
  rw [get_bind]
  cases hdb : mp.db with
  | none => rfl
  | some bucket =>
    obtain ⟨rfl, bytes, hencode⟩ := h bucket hdb
    simp only [hencode]
    rfl

theorem persist_of_not_persists (h : ¬ Persists dbErr tx mp) :
    ∃ e, Mempool.persist dbErr tx mp = .error e (mp.drop tx.intentID) := by
  unfold Mempool.persist
  rw [get_bind]
  cases hdb : mp.db with
  | none =>
    refine absurd (fun bucket hb => ?_) h
    cases hdb.symm.trans hb
  | some bucket =>
    cases hencode : tx.encode [] with
    | error e _ => exact ⟨_, rfl⟩
    | ok u bytes =>
      cases dbErr with
      | some e => exact ⟨_, rfl⟩
      | none => exact absurd (fun _ _ => ⟨rfl, bytes, hencode⟩) h

@[simp] theorem written_txs : (mp.written tx).txs = mp.txs := by
  unfold Mempool.written
  split <;> rfl

@[simp] theorem written_index : (mp.written tx).index = mp.index := by
  unfold Mempool.written
  split <;> rfl

@[simp] theorem written_nextNonce : (mp.written tx).nextNonce = mp.nextNonce := by
  unfold Mempool.written
  split <;> rfl

section

variable [Crypto] {s : InMemoryState} {clock : Mempool.SubmitClock} {expected : UInt64}

theorem submit_of_persists (h : Accepts s clock.now mp tx expected) (hdb : Persists dbErr tx mp) :
    Mempool.submit s clock dbErr (some tx) mp =
      .ok () ((mp.add tx clock.submitted).written tx) := by
  rw [submit_of_accepts h]
  exact persist_of_persists hdb

theorem submit_of_not_persists (h : Accepts s clock.now mp tx expected)
    (hdb : ¬ Persists dbErr tx mp) : ∃ e, Mempool.submit s clock dbErr (some tx) mp =
      .error e ((mp.add tx clock.submitted).drop tx.intentID) := by
  rw [submit_of_accepts h]
  exact persist_of_not_persists hdb

theorem submit_eq_ok_iff : (∃ mp', Mempool.submit s clock dbErr (some tx) mp = .ok () mp') ↔
    (∃ expected, Accepts s clock.now mp tx expected) ∧ Persists dbErr tx mp := by
  by_cases h : ∃ expected, Accepts s clock.now mp tx expected
  · obtain ⟨expected, hacc⟩ := h
    by_cases hdb : Persists dbErr tx mp
    · exact iff_of_true ⟨_, submit_of_persists hacc hdb⟩ ⟨⟨expected, hacc⟩, hdb⟩
    · obtain ⟨e, he⟩ := submit_of_not_persists hacc hdb
      refine iff_of_false ?_ fun h => hdb h.2
      rintro ⟨mp', hok⟩
      cases he.symm.trans hok
  · obtain ⟨e, he⟩ := submit_of_not_accepts dbErr h
    refine iff_of_false ?_ fun h' => h h'.1
    rintro ⟨mp', hok⟩
    cases he.symm.trans hok

theorem submit_cases (s : InMemoryState) (clock : Mempool.SubmitClock) (dbErr : Option Error)
    (tx : Transaction) (mp : Mempool) :
    ((¬ ∃ expected, Accepts s clock.now mp tx expected) ∧
      (PoolCall.submit clock dbErr (some tx)).run s mp = mp) ∨
    ∃ expected, Accepts s clock.now mp tx expected ∧
      ((Persists dbErr tx mp ∧ (PoolCall.submit clock dbErr (some tx)).run s mp =
        (mp.add tx clock.submitted).written tx) ∨
      (¬ Persists dbErr tx mp ∧ (PoolCall.submit clock dbErr (some tx)).run s mp =
        (mp.add tx clock.submitted).drop tx.intentID)) := by
  by_cases h : ∃ expected, Accepts s clock.now mp tx expected
  · obtain ⟨expected, hacc⟩ := h
    refine .inr ⟨expected, hacc, ?_⟩
    by_cases hdb : Persists dbErr tx mp
    · exact .inl ⟨hdb, congrArg finalState (submit_of_persists hacc hdb)⟩
    · obtain ⟨e, he⟩ := submit_of_not_persists hacc hdb
      exact .inr ⟨hdb, congrArg finalState he⟩
  · obtain ⟨e, he⟩ := submit_of_not_accepts dbErr h
    exact .inl ⟨h, congrArg finalState he⟩

end

/-! ### Map and list -/

structure Consistent (mp : Mempool) : Prop where
  keyed : ∀ (id : Hash) (pt : PendingTx), mp.txs[id]? = some pt → pt.tx.intentID = id
  indexed : mp.index.Perm (mp.txs.toList.map fun e => e.2.tx)

theorem new_consistent (maxSize ttl : ℤ) (db : Option (Map Hash Bytes)) :
    Consistent (Mempool.newWithPersistence maxSize ttl db) where
  keyed id pt h := by
    have hnone : (∅ : Map Hash PendingTx)[id]? = none := rfl
    cases hnone.symm.trans h
  indexed := List.Perm.refl []

section

variable (h : Consistent mp)
include h

theorem Consistent.of_eq {mp' : Mempool} (htxs : mp'.txs = mp.txs) (hindex : mp'.index = mp.index) :
    Consistent mp' :=
  ⟨htxs ▸ h.keyed, by rw [htxs, hindex]; exact h.indexed⟩

theorem Consistent.mem_index_iff :
    tx ∈ mp.index ↔ ∃ pt, mp.txs[tx.intentID]? = some pt ∧ pt.tx = tx := by
  rw [h.indexed.mem_iff, List.mem_map]
  constructor
  · rintro ⟨⟨id, pt⟩, hmem, rfl⟩
    rw [Std.ExtTreeMap.mem_toList_iff_getElem?_eq_some] at hmem
    refine ⟨pt, ?_, rfl⟩
    rwa [h.keyed id pt hmem]
  · rintro ⟨pt, hget, rfl⟩
    exact ⟨(pt.tx.intentID, pt), Std.ExtTreeMap.mem_toList_iff_getElem?_eq_some.2 hget, rfl⟩

theorem Consistent.nodup_index : (mp.index.map Transaction.intentID).Nodup := by
  refine ((h.indexed.map Transaction.intentID).nodup_iff).2 ?_
  have hkeys : (mp.txs.toList.map fun e => e.2.tx).map Transaction.intentID =
      mp.txs.toList.map Prod.fst := by
    rw [List.map_map]
    refine List.map_congr_left fun e he => ?_
    exact h.keyed e.1 e.2 (Std.ExtTreeMap.mem_toList_iff_getElem?_eq_some.1 he)
  rw [hkeys]
  exact Map.nodup_keys _

theorem Consistent.add (hfresh : mp.txs[tx.intentID]? = none) (submitted : ℤ) :
    Consistent (mp.add tx submitted) where
  keyed id pt hget := by
    change (mp.txs.insert tx.intentID ⟨tx, submitted⟩)[id]? = some pt at hget
    rw [Map.get_insert] at hget
    split_ifs at hget with hid
    · cases hget
      exact hid
    · exact h.keyed id pt hget
  indexed := by
    refine List.Perm.trans ?_ ((Map.toList_insert_perm_of_none hfresh _).map _).symm
    refine (h.indexed.append_right [tx]).trans ?_
    exact List.perm_append_singleton tx _

end

theorem indexRemove_eq_filter {id : Hash} {entries : List Transaction}
    (h : (entries.map Transaction.intentID).Nodup) :
    Mempool.indexRemove id entries = entries.filter fun e => e.intentID ≠ id := by
  unfold Mempool.indexRemove
  induction entries with
  | nil => rfl
  | cons e rest ih =>
    obtain ⟨hnew, hrest⟩ := List.nodup_cons.1 h
    by_cases hid : e.intentID = id
    · have hkeep : rest.filter (fun e => e.intentID ≠ id) = rest := by
        refine List.filter_eq_self.2 fun r hr => decide_eq_true ?_
        rintro hr'
        exact hnew (hid.trans hr'.symm ▸ List.mem_map_of_mem hr)
      rw [List.eraseP_cons_of_pos (by simpa using hid),
        List.filter_cons_of_neg (by simpa using hid),
        hkeep]
    · rw [List.eraseP_cons_of_neg (by simpa using hid),
        List.filter_cons_of_pos (by simpa using hid),
        ih hrest]

theorem Consistent.drop (h : Consistent mp) (id : Hash) : Consistent (mp.drop id) where
  keyed a pt hget := h.keyed a pt (Map.get_erase_eq_some.1 hget).2
  indexed := by
    show (Mempool.indexRemove id mp.index).Perm ((mp.txs.erase id).toList.map fun e => e.2.tx)
    rw [indexRemove_eq_filter h.nodup_index]
    refine (h.indexed.filter _).trans ?_
    refine List.Perm.trans ?_ ((Map.toList_erase_perm mp.txs id).map _).symm
    rw [List.filter_map]
    have hsame : mp.txs.toList.filter ((fun e => decide (e.intentID ≠ id)) ∘ fun e => e.2.tx) =
        mp.txs.toList.filter fun e => e.1 ≠ id := by
      refine List.filter_congr fun e he => ?_
      have hget := Std.ExtTreeMap.mem_toList_iff_getElem?_eq_some.1 he
      rw [Function.comp_apply, h.keyed e.1 e.2 hget]
    rw [hsame]

theorem drop_add_txs (hfresh : mp.txs[tx.intentID]? = none) (submitted : ℤ) :
    ((mp.add tx submitted).drop tx.intentID).txs = mp.txs :=
  Map.erase_insert_of_none hfresh _

/-! ### Expiry -/

theorem get_foldl_drop {p : Hash × PendingTx → Prop} [DecidablePred p] (id : Hash)
    (l : List (Hash × PendingTx)) (mp : Mempool) :
    (l.foldl (fun mp' e => if p e then mp'.drop e.1 else mp') mp).txs[id]? =
      if l.any (fun e => e.1 = id ∧ p e) then none else mp.txs[id]? := by
  induction l generalizing mp with
  | nil => rfl
  | cons e l ih =>
    rw [List.foldl_cons, ih, List.any_cons]
    by_cases h : e.1 = id ∧ p e
    · obtain ⟨rfl, hp⟩ := h
      simp [hp, Mempool.drop]
    · have hkeep : (if p e then mp.drop e.1 else mp).txs[id]? = mp.txs[id]? := by
        split_ifs with hp
        · exact Map.get_erase_of_ne _ fun hid => h ⟨hid, hp⟩
        · rfl
      rw [hkeep, decide_eq_false h, Bool.false_or]

theorem get_expire (now : Hash → ℤ) (mp : Mempool) (id : Hash) (pt : PendingTx) :
    (mp.expire now).txs[id]? = some pt ↔
      mp.txs[id]? = some pt ∧ now id - pt.submitted ≤ mp.ttl := by
  unfold Mempool.expire
  rw [get_foldl_drop]
  have hany : (mp.txs.toList.any fun e => e.1 = id ∧ now e.1 - e.2.submitted > mp.ttl) = true ↔
      ∃ pt, mp.txs[id]? = some pt ∧ mp.ttl < now id - pt.submitted := by
    rw [List.any_eq_true]
    constructor
    · rintro ⟨⟨a, pt⟩, hmem, h⟩
      obtain ⟨rfl, hold⟩ := of_decide_eq_true h
      exact ⟨pt, Std.ExtTreeMap.mem_toList_iff_getElem?_eq_some.1 hmem, hold⟩
    · rintro ⟨pt, hget, hold⟩
      exact ⟨(id, pt), Std.ExtTreeMap.mem_toList_iff_getElem?_eq_some.2 hget,
        decide_eq_true ⟨rfl, hold⟩⟩
  split_ifs with h
  · obtain ⟨pt', hget, hold⟩ := hany.1 h
    refine iff_of_false nofun ?_
    rintro ⟨hget', hyoung⟩
    cases hget.symm.trans hget'
    omega
  · refine ⟨fun hget => ⟨hget, ?_⟩, And.left⟩
    by_contra hold
    exact h (hany.2 ⟨pt, hget, not_le.1 hold⟩)

variable {p : Mempool → Prop}

theorem expire_preserves (hdrop : ∀ mp id, p mp → p (mp.drop id)) (h : p mp)
    (now : Hash → ℤ) : p (mp.expire now) := by
  refine List.foldlRecOn mp.txs.toList _ h fun mp' h' e _ => ?_
  split_ifs
  · exact hdrop mp' _ h'
  · exact h'

theorem Consistent.expire (h : Consistent mp) (now : Hash → ℤ) : Consistent (mp.expire now) :=
  expire_preserves (fun _ id h' => h'.drop id) h now

theorem expire_rest (now : Hash → ℤ) (mp : Mempool) : (mp.expire now).ttl = mp.ttl ∧
    (mp.expire now).nextNonce = mp.nextNonce ∧ (mp.expire now).db = mp.db := by
  refine List.foldlRecOn (motive := fun mp' : Mempool => mp'.ttl = mp.ttl ∧
    mp'.nextNonce = mp.nextNonce ∧ mp'.db = mp.db) mp.txs.toList _ ⟨rfl, rfl, rfl⟩
    fun mp' h e _ => ?_
  split_ifs
  · exact h
  · exact h

theorem mem_pendingTxs_iff (h : Consistent mp) (now later : Hash → ℤ) :
    tx ∈ (mp.pendingTxs now later).1 ↔ ∃ pt, mp.txs[tx.intentID]? = some pt ∧ pt.tx = tx ∧
      now tx.intentID - pt.submitted ≤ mp.ttl ∧ later tx.intentID - pt.submitted ≤ mp.ttl := by
  unfold Mempool.pendingTxs Mempool.sorted
  simp only [List.mem_filter, (sortSlice_perm _ _).mem_iff, (h.expire now).mem_index_iff,
    (expire_rest now mp).1]
  constructor
  · rintro ⟨⟨pt, hget, htx⟩, hlater⟩
    rw [hget] at hlater
    obtain ⟨hold, hnow⟩ := (get_expire now mp _ _).1 hget
    exact ⟨pt, hold, htx, hnow, of_decide_eq_true hlater⟩
  · rintro ⟨pt, hget, htx, hnow, hlater⟩
    have hleft := (get_expire now mp _ _).2 ⟨hget, hnow⟩
    refine ⟨⟨pt, hleft, htx⟩, ?_⟩
    rw [hleft]
    exact decide_eq_true hlater

/-! ### Every call keeps them together -/

variable {s : InMemoryState}

theorem PoolCall.preserves [Crypto]
    (hadd : ∀ mp tx now expected submitted, Accepts s now mp tx expected → p mp →
      p (mp.add tx submitted))
    (hdrop : ∀ mp id, p mp → p (mp.drop id)) (hdb : ∀ mp db, p mp → p { mp with db := db })
    (h : p mp) (c : PoolCall) : p (c.run s mp) := by
  cases c with
  | submit clock dbErr tx? =>
    cases tx? with
    | none => exact h
    | some tx =>
      rcases submit_cases s clock dbErr tx mp with
        ⟨-, hrun⟩ | ⟨expected, hacc, ⟨-, hrun⟩ | ⟨-, hrun⟩⟩
      · rw [hrun]
        exact h
      · have hadded := hadd mp tx clock.now expected clock.submitted hacc h
        rw [hrun]
        unfold Mempool.written
        split
        · exact hdb _ _ hadded
        · exact hadded
      · rw [hrun]
        exact hdrop _ _ (hadd mp tx clock.now expected clock.submitted hacc h)
  | remove dbOk id =>
    show p (mp.remove dbOk id)
    unfold Mempool.remove
    dsimp only
    split_ifs
    · exact hdb _ _ (hdrop mp id h)
    · exact hdrop mp id h
  | pendingTxs now later => exact expire_preserves hdrop h now

theorem PoolCall.consistent [Crypto] (h : Consistent mp) (c : PoolCall) : Consistent (c.run s mp) :=
  c.preserves (fun _ _ _ _ _ hacc h' => h'.add hacc.fresh _) (fun _ id h' => h'.drop id)
    (fun _ _ h' => ⟨h'.keyed, h'.indexed⟩) h

theorem runPool_consistent [Crypto] (h : Consistent mp)
    (calls : List PoolCall) : Consistent (runPool s calls mp) := by
  induction calls generalizing mp with
  | nil => exact h
  | cons c calls ih => exact ih (PoolCall.consistent h c)

/-! ### Runs over a state that changes -/

def stepOver [Crypto] (e : InMemoryState × PoolCall) (mp : Mempool) : Mempool := e.2.run e.1 mp

def runOver [Crypto] (calls : List (InMemoryState × PoolCall)) (mp : Mempool) : Mempool :=
  calls.foldl (fun mp e => stepOver e mp) mp

def paymentThen (c : PoolCall) : List (InMemoryState × PoolCall) :=
  [({ newInMemoryState with accounts := sampleAccounts }, .submit ⟨0, 0⟩ none (some samplePayment)),
    (newInMemoryState, c)]

end Dsn
