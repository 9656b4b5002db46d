import Dsn.Consensus.Persist
import Dsn.Go.Cursor
import Dsn.State.History
import Dsn.Types.Evidence

/-!
# `consensus/persist.go`: evidence in the database

Items lie under a key of height and hash, and a cursor reads them back through the decoder, whose
limits the encoder does not share.
-/

namespace Dsn

open Go

variable {stored : List Evidence}

def evidenceBucket : Bytes := str "evidence"

def evidenceIndex : Bytes := str "evidence/all/"

def indexKey (hash : Hash) : Bytes := evidenceIndex ++ hex hash.bytes

def evidenceKey (height : UInt64) (hash : Hash) : Bytes :=
  str "evidence/" ++ (decimal height.toNat ++ (str "/" ++ hex (hash.bytes.take 8)))

def storeEvidence [Crypto] (ev : Evidence) : Exec PersistentState Unit :=
  PersistentState.updateDB do
    Bolt.createBucketIfNotExists evidenceBucket
    let b ← Bolt.bucket evidenceBucket
    let hash := ev.evidenceHash
    failIf (indexKey hash ∈ b) errDuplicateEvidence
    Bolt.put evidenceBucket (evidenceKey ev.height hash) (encodeEvidence ev)
    Bolt.put evidenceBucket (indexKey hash) (encodeEvidence ev)

def indexEntries (b : Bolt.Bucket) : List (Bytes × Bytes) :=
  (Bolt.seek b evidenceIndex).filter fun e => ¬ e.1.length ≤ evidenceIndex.length

def decodeIndexed (e : Bytes × Bytes) : Except Error Evidence :=
  (decodeFrom decodeEvidence e.2).mapError (·.within "failed to decode evidence")

def loadAllEvidence (ps : PersistentState) : Except Error (List Evidence) :=
  match ps.db[evidenceBucket]? with
  | none => .ok []
  | some b => do
    let evidence ← (indexEntries b).mapM decodeIndexed
    return sortSlice (fun x y => x.height > y.height) evidence

def storeEvidences [Crypto] : List Evidence → PersistentState → List Evidence × PersistentState
  | [], ps => ([], ps)
  | ev :: calls, ps =>
    match storeEvidence ev ps with
    | .ok _ ps' => (ev :: (storeEvidences calls ps').1, (storeEvidences calls ps').2)
    | .error _ ps' => storeEvidences calls ps'

/-! ### Keys -/

theorem evidenceKey_lt (height : UInt64) (hash : Hash) :
    (compare (evidenceKey height hash) evidenceIndex).isLT := by
  unfold evidenceKey
  obtain ⟨x, s, hx⟩ := List.exists_cons_of_ne_nil (decimal_ne_nil height.toNat)
  have hdigit : x.toNat ≤ 57 := (mem_decimal (hx ▸ List.mem_cons_self)).2
  have hlt : x < 97 := UInt8.lt_iff_toNat_lt.2 (hdigit.trans_lt (by decide))
  rw [hx, List.cons_append, show evidenceIndex = str "evidence/" ++ 97 :: str "ll/" from rfl,
    compare_append_cons_lt _ _ _ hlt]
  rfl

theorem indexKey_not_lt (hash : Hash) : (compare (indexKey hash) evidenceIndex).isLT = false :=
  not_lt_of_beginsWith (List.prefix_append _ _)

theorem evidenceKey_ne_indexKey (height : UInt64) (hash hash' : Hash) :
    evidenceKey height hash ≠ indexKey hash' := by
  intro h
  have hlt := evidenceKey_lt height hash
  rw [h, indexKey_not_lt] at hlt
  cases hlt

theorem length_indexKey (hash : Hash) : (indexKey hash).length = 77 := by
  rw [indexKey, List.length_append, length_hex, hash.length_eq]
  rfl

variable {value : Bytes}

theorem storable_evidence (height : UInt64) (hash : Hash)
    (h : value.length ≤ Bolt.maxValueSize) : Bolt.Storable (evidenceKey height hash) value := by
  have hdecimal : (decimal height.toNat).length ≤ 20 :=
    length_decimal_le (height.toNat_lt.trans (by norm_num))
  have hslash : (str "/").length = 1 := rfl
  refine ⟨List.cons_ne_nil _ _, ?_, h⟩
  · unfold evidenceKey Bolt.maxKeySize
    rw [List.length_append, List.length_append, List.length_append, length_hex, List.length_take,
      show (str "evidence/").length = 9 from rfl]
    omega

theorem storable_index (hash : Hash) (h : value.length ≤ Bolt.maxValueSize) :
    Bolt.Storable (indexKey hash) value := by
  have hlen := length_indexKey hash
  refine ⟨fun hnil => ?_, ?_, h⟩
  · rw [hnil] at hlen
    cases hlen
  · rw [hlen]
    decide

/-! ### Storing -/

section

variable [Crypto] {ps ps' : PersistentState} {ev : Evidence}

theorem storeEvidence_eq_ok {u : Unit} : storeEvidence ev ps = .ok u ps' ↔
    indexKey ev.evidenceHash ∉ Bolt.contents ps.db evidenceBucket ∧
      (encodeEvidence ev).length ≤ Bolt.maxValueSize ∧ ps' = { ps with
        db := Bolt.putIn evidenceBucket (indexKey ev.evidenceHash) (encodeEvidence ev)
          (Bolt.putIn evidenceBucket (evidenceKey ev.height ev.evidenceHash) (encodeEvidence ev)
            ps.db) } := by
  have hput {value : Bytes} (h : value.length ≤ Bolt.maxValueSize) :=
    @Bolt.put_created_run evidenceBucket _ value
      (storable_evidence ev.height ev.evidenceHash h) ps.db
  have hindex {key value : Bytes} (h : value.length ≤ Bolt.maxValueSize) :=
    @Bolt.put_run_putIn evidenceBucket _ value (Bolt.putIn evidenceBucket key value ps.db)
      Std.ExtTreeMap.mem_insert_self (storable_index ev.evidenceHash h)
  unfold storeEvidence
  rw [PersistentState.updateDB_eq_ok,
    bind_eq_ok_of (Bolt.createBucketIfNotExists_run evidenceBucket ps.db),
    bind_eq_ok_of (Bolt.bucket_run (Map.get_insert_self _ _ _))]
  simp only [↓failIf_bind_eq_ok, bind_eq_ok]
  constructor
  · rintro ⟨db, ⟨hfresh, _, db1, h1, h2⟩, rfl⟩
    obtain ⟨_, -, hst, -⟩ := Bolt.put_eq_ok.1 h1
    rw [hput hst.value_le] at h1
    cases h1
    rw [hindex hst.value_le] at h2
    cases h2
    exact ⟨hfresh, hst.value_le, rfl⟩
  · rintro ⟨hfresh, hlen, rfl⟩
    exact ⟨_, ⟨hfresh, (), _, hput hlen, hindex hlen⟩, rfl⟩

def indexEntry (ev : Evidence) : Bytes × Bytes := (indexKey ev.evidenceHash, encodeEvidence ev)

def Indexes (ps : PersistentState) (stored : List Evidence) : Prop :=
  (Bolt.seek (Bolt.contents ps.db evidenceBucket) evidenceIndex).Perm (stored.map indexEntry)

theorem Indexes.storeEvidence {u : Unit} (hinv : Indexes ps stored)
    (h : storeEvidence ev ps = .ok u ps') : Indexes ps' (ev :: stored) := by
  obtain ⟨hfresh, -, rfl⟩ := storeEvidence_eq_ok.1 h
  unfold Indexes
  rw [Bolt.contents_putIn, Bolt.contents_putIn, List.map_cons]
  have hfresh' : ((Bolt.contents ps.db evidenceBucket).insert
      (evidenceKey ev.height ev.evidenceHash) (encodeEvidence ev))[indexKey ev.evidenceHash]? =
      none := by
    rw [Map.get_insert_of_ne _ (evidenceKey_ne_indexKey _ _ _)]
    exact Std.ExtTreeMap.getElem?_eq_none hfresh
  refine (Bolt.seek_insert_perm (indexKey_not_lt _) hfresh' _).trans (.cons _ ?_)
  exact (Bolt.seek_insert_of_lt (evidenceKey_lt _ _) _).trans hinv

theorem Indexes.storeEvidences (hinv : Indexes ps stored) (calls : List Evidence) :
    Indexes (storeEvidences calls ps).2 ((storeEvidences calls ps).1 ++ stored) := by
  induction calls generalizing ps stored with
  | nil => exact hinv
  | cons ev calls ih =>
    unfold Dsn.storeEvidences
    cases hstore : Dsn.storeEvidence ev ps with
    | ok u ps' =>
      refine (ih (hinv.storeEvidence hstore)).trans (.map _ ?_)
      exact List.perm_middle
    | error e ps' =>
      obtain rfl := PersistentState.updateDB_atomic _ _ _ _ hstore
      exact ih hinv

theorem indexes_of_empty (h : Bolt.contents ps.db evidenceBucket = ∅) : Indexes ps [] := by
  unfold Indexes
  rw [h]
  exact .nil

/-! ### Loading -/

theorem indexEntries_perm (h : Indexes ps stored) :
    (indexEntries (Bolt.contents ps.db evidenceBucket)).Perm (stored.map indexEntry) := by
  have hkeep : indexEntries (Bolt.contents ps.db evidenceBucket) =
      Bolt.seek (Bolt.contents ps.db evidenceBucket) evidenceIndex := by
    refine List.filter_eq_self.2 fun e he => decide_eq_true ?_
    obtain ⟨ev, -, rfl⟩ := List.mem_map.1 (h.mem_iff.1 he)
    have hlen : (indexEntry ev).1.length = 77 := length_indexKey _
    rw [hlen]
    decide
  rw [hkeep]
  exact h

omit [Crypto] in
theorem loadAllEvidence_eq (ps : PersistentState) : loadAllEvidence ps = do
    let evidence ← (indexEntries (Bolt.contents ps.db evidenceBucket)).mapM decodeIndexed
    return sortSlice (fun x y => x.height > y.height) evidence := by
  unfold loadAllEvidence Bolt.contents
  cases ps.db[evidenceBucket]? with
  | none => rfl
  | some b => rfl

omit [Crypto] in
theorem pairwise_height (l : List Evidence) :
    (sortSlice (fun x y : Evidence => x.height > y.height) l).Pairwise
      fun x y => y.height ≤ x.height := by
  have hless {x y : Evidence} : decide (y.height > x.height) = false ↔ y.height ≤ x.height := by
    rw [decide_eq_false_iff_not]
    exact UInt64.not_lt
  refine (pairwise_sortSlice_of (fun x y => ?_) (fun x y z hxy hyz => ?_) l).imp hless.1
  · rw [hless, hless]
    exact UInt64.le_total _ _
  · rw [hless] at hxy hyz ⊢
    exact UInt64.le_trans hyz hxy

theorem loadAllEvidence_iff (h : Indexes ps stored) :
    (∃ loaded, loadAllEvidence ps = .ok loaded ∧ loaded.Perm stored ∧
      loaded.Pairwise fun x y => y.height ≤ x.height) ↔ ∀ ev ∈ stored, ev.Decodable := by
  rw [loadAllEvidence_eq]
  simp only [except_bind_eq_ok]
  constructor
  · rintro ⟨loaded, ⟨evidence, hdecode, hsort⟩, hperm, -⟩ ev hev
    cases hsort
    have hev' := (sortSlice_perm _ _).mem_iff.1 (hperm.mem_iff.2 hev)
    obtain ⟨e, he⟩ := exists_of_mapM hdecode hev'
    obtain ⟨rest, hrun⟩ := decodeFrom_eq_ok.1 (mapError_eq_ok.1 he)
    exact returns_decodeEvidence _ _ _ hrun
  · intro hdecodable
    have hread : ∀ ev ∈ stored, decodeIndexed (indexEntry ev) = .ok ev := fun ev hev =>
      mapError_eq_ok.2 (decodeFrom_of_reads (reads_evidence (hdecodable ev hev)))
    obtain ⟨evidence, hdecode, hperm⟩ := mapM_of_perm (indexEntries_perm h) hread
    exact ⟨_, ⟨evidence, hdecode, rfl⟩, (sortSlice_perm _ _).trans hperm, pairwise_height _⟩

/-- All stored evidence is loaded exactly when it is within the limits of the decoder. -/
theorem evidence_store_iff (h : Bolt.contents ps.db evidenceBucket = ∅) (calls : List Evidence) :
    (∃ loaded, loadAllEvidence (storeEvidences calls ps).2 = .ok loaded ∧
      loaded.Perm (storeEvidences calls ps).1 ∧
      loaded.Pairwise fun x y => y.height ≤ x.height) ↔
        ∀ ev ∈ (storeEvidences calls ps).1, ev.Decodable := by
  have hinv := (indexes_of_empty h).storeEvidences calls
  rw [List.append_nil] at hinv
  exact loadAllEvidence_iff hinv

end

/-! ### One item -/

attribute [local instance] constantCrypto

def unusedStore : PersistentState := ⟨∅, ∅, ∅, zeroHash⟩

theorem contents_unusedStore (name : Bytes) : Bolt.contents unusedStore.db name = ∅ := by
  unfold Bolt.contents unusedStore
  rfl

theorem storeEvidences_unsignedEvidence {n : ℕ} (h : n ≤ 2000) :
    (storeEvidences [unsignedEvidence n] unusedStore).1 = [unsignedEvidence n] := by
  have hlen : (encodeEvidence (unsignedEvidence n)).length = 75 + n := by
    rw [encodeEvidence, List.length_cons]
    simp only [unsignedEvidence, Evidence.encode, List.length_append, List.length_replicate,
      length_beBytes]
    rw [show unsignedVote.encode.length = 69 from rfl, List.length_singleton]
    omega
  have hle : (encodeEvidence (unsignedEvidence n)).length ≤ Bolt.maxValueSize := by
    unfold Bolt.maxValueSize
    omega
  have hfresh : indexKey (unsignedEvidence n).evidenceHash ∉
      Bolt.contents unusedStore.db evidenceBucket := by
    exact Std.ExtTreeMap.not_mem_empty
  have hstore := (storeEvidence_eq_ok (u := ())).2 ⟨hfresh, hle, rfl⟩
  unfold storeEvidences
  rw [hstore]
  rfl

theorem evidence_store_unsigned : Bolt.contents unusedStore.db evidenceBucket = ∅ ∧
    ∃ loaded, loadAllEvidence (storeEvidences [unsignedEvidence 1] unusedStore).2 = .ok loaded ∧
      loaded.Perm [unsignedEvidence 1] := by
  have hempty := contents_unusedStore evidenceBucket
  have hstored := storeEvidences_unsignedEvidence (n := 1) (by norm_num)
  obtain ⟨loaded, hload, hperm, -⟩ := (evidence_store_iff hempty [unsignedEvidence 1]).2 (by
    exact List.forall_mem_singleton.2 ⟨Nat.zero_le 1024, by decide⟩)
  exact ⟨hempty, loaded, hload, hperm⟩

theorem stored_evidence_unreadable : ¬ ∀ (_ : Crypto) (ps : PersistentState)
    (calls : List Evidence), Bolt.contents ps.db evidenceBucket = ∅ →
    CollisionFree (calls.map Evidence.content) →
      ∃ loaded, loadAllEvidence (storeEvidences calls ps).2 = .ok loaded ∧
        loaded.Perm (storeEvidences calls ps).1 ∧
        loaded.Pairwise fun x y => y.height ≤ x.height := by
  intro h
  have hfree : CollisionFree ([unsignedEvidence 1025].map Evidence.content) :=
    .of_forall_eq (show FixedBytes.copy 32 [1] ≠ zeroHash by decide) fun _ => List.mem_singleton.1
  obtain ⟨loaded, hload⟩ := h constantCrypto unusedStore [unsignedEvidence 1025]
    (contents_unusedStore _) hfree
  have hinv := (indexes_of_empty (contents_unusedStore _)).storeEvidences [unsignedEvidence 1025]
  rw [List.append_nil] at hinv
  have hdecodable := (loadAllEvidence_iff hinv).1 ⟨loaded, hload⟩
  rw [storeEvidences_unsignedEvidence (by norm_num)] at hdecodable
  have hle : (List.replicate 1025 (120 : UInt8)).length ≤ 1024 :=
    (hdecodable _ List.mem_cons_self).2
  rw [List.length_replicate] at hle
  omega

end Dsn
