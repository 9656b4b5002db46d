import Dsn.Consensus.EvidenceStore

/-!
# `consensus/persist.go`: votes in the database

The key of a vote has height, type and validator but no round.
-/

namespace Dsn

open Go

def votesBucket : Bytes := str "votes"

def voteKey (v : Vote) : Bytes := putUint64 v.height ++ v.voteType :: v.validator.bytes

def storeVote (vote : Vote) : Exec PersistentState Unit :=
  PersistentState.updateDB do
    Bolt.createBucketIfNotExists votesBucket
    Bolt.put votesBucket (voteKey vote) vote.encode

def heightEntries (b : Bolt.Bucket) (height : UInt64) : List (Bytes × Bytes) :=
  (Bolt.seek b (putUint64 height)).takeWhile fun e =>
    ¬ (e.1.length < 8 ∨ beNat (e.1.take 8) ≠ height.toNat)

def voteEntries (b : Bolt.Bucket) (height : UInt64) (voteType : VoteType) :
    List (Bytes × Bytes) :=
  (heightEntries b height).filter fun e =>
    ¬ (voteType ≠ 0 ∧ e.1.length ≥ 9 ∧ e.1[8]? ≠ some voteType)

def decodeVoteEntry (e : Bytes × Bytes) : Except Error Vote := decodeFrom Vote.decode e.2

def loadVotes (ps : PersistentState) (height : UInt64) (voteType : VoteType) :
    Except Error (List Vote) :=
  match ps.db[votesBucket]? with
  | none => .ok []
  | some b => (voteEntries b height voteType).mapM decodeVoteEntry

def Vote.Wanted (height : UInt64) (voteType : VoteType) (v : Vote) : Prop :=
  v.height = height ∧ (voteType = 0 ∨ v.voteType = voteType)

instance (height : UInt64) (voteType : VoteType) : DecidablePred (Vote.Wanted height voteType) :=
  fun v => inferInstanceAs (Decidable (v.height = height ∧ (voteType = 0 ∨ v.voteType = voteType)))

/-! ### Keys -/

theorem length_putUint64 (n : UInt64) : (putUint64 n).length = 8 := length_beBytes 8 _

theorem length_voteKey (v : Vote) : (voteKey v).length = 29 := by
  rw [voteKey, List.length_append, length_putUint64, List.length_cons, v.validator.length_eq]

theorem beNat_putUint64 (n : UInt64) : beNat (putUint64 n) = n.toNat :=
  beNat_beBytes n.toNat_lt

theorem voteKey_eq_iff {v w : Vote} : voteKey v = voteKey w ↔
    v.height = w.height ∧ v.voteType = w.voteType ∧ v.validator = w.validator := by
  constructor
  · intro h
    obtain ⟨hheight, hrest⟩ := List.append_inj h (by rw [length_putUint64, length_putUint64])
    obtain ⟨htype, hvalidator⟩ := List.cons.inj hrest
    refine ⟨UInt64.toNat_inj.1 ?_, htype, FixedBytes.ext hvalidator⟩
    rw [← beNat_putUint64, hheight, beNat_putUint64]
  · rintro ⟨hheight, htype, hvalidator⟩
    rw [voteKey, voteKey, hheight, htype, hvalidator]

variable {height : UInt64}

theorem atHeight_iff {key : Bytes} :
    ¬ (key.length < 8 ∨ beNat (key.take 8) ≠ height.toNat) ↔ putUint64 height <+: key := by
  rw [List.prefix_iff_eq_take, length_putUint64, not_or, not_lt, not_not]
  constructor
  · rintro ⟨hlen, hheight⟩
    refine beNat_inj ?_ ((beNat_putUint64 height).trans hheight.symm)
    rw [length_putUint64, List.length_take, min_eq_left hlen]
  · intro h
    have hlen := congrArg List.length h
    rw [length_putUint64, List.length_take] at hlen
    exact ⟨by omega, by rw [← h, beNat_putUint64]⟩

theorem heightEntries_eq (b : Bolt.Bucket) (height : UInt64) : heightEntries b height =
    b.toList.filter fun e => ¬ (e.1.length < 8 ∨ beNat (e.1.take 8) ≠ height.toNat) := by
  have hpred : (fun e : Bytes × Bytes => decide (¬ (e.1.length < 8 ∨
      beNat (e.1.take 8) ≠ height.toNat))) = fun e => (putUint64 height).isPrefixOf e.1 := by
    funext e
    rw [Bool.eq_iff_iff, decide_eq_true_iff, atHeight_iff, List.isPrefixOf_iff_prefix]
  unfold heightEntries
  rw [hpred]
  exact Bolt.scan_eq_filter b (putUint64 height)

/-! ### Entries -/

theorem voteEntries_sublist (b : Bolt.Bucket) (height : UInt64) (voteType : VoteType) :
    (voteEntries b height voteType).Sublist b.toList :=
  List.filter_sublist.trans ((List.takeWhile_sublist _).trans (List.dropWhile_sublist _))

def voteEntry (v : Vote) : Bytes × Bytes := (voteKey v, v.encode)

variable {v : Vote}

theorem voteEntry_mem_iff {b : Bolt.Bucket} {voteType : VoteType} :
    voteEntry v ∈ voteEntries b height voteType ↔
      voteEntry v ∈ b.toList ∧ v.Wanted height voteType := by
  have hlen : (voteEntry v).1.length = 29 := length_voteKey v
  have htake : (voteEntry v).1.take 8 = putUint64 v.height :=
    List.take_left' (length_putUint64 v.height)
  have hget : (voteEntry v).1[8]? = some v.voteType := by
    refine (List.getElem?_append_right (length_putUint64 v.height).le).trans ?_
    rfl
  have hheight : ¬ ((voteEntry v).1.length < 8 ∨ beNat ((voteEntry v).1.take 8) ≠ height.toNat) ↔
      v.height = height := by
    rw [hlen, htake, beNat_putUint64, Ne, UInt64.toNat_inj, not_or, not_not]
    exact and_iff_right (by norm_num)
  have htype : ¬ (voteType ≠ 0 ∧ (voteEntry v).1.length ≥ 9 ∧
      (voteEntry v).1[8]? ≠ some voteType) ↔ voteType = 0 ∨ v.voteType = voteType := by
    rw [hlen, hget, Ne, Ne, Option.some.injEq, and_iff_right (by norm_num : 29 ≥ 9), not_and_or,
      not_not, not_not]
  unfold voteEntries Vote.Wanted
  rw [heightEntries_eq, List.mem_filter, List.mem_filter, decide_eq_true_iff, decide_eq_true_iff,
    hheight, htype, and_assoc]

variable {votes : List Vote}

theorem exists_of_mem_insertAll {e : Bytes × Bytes}
    (h : e ∈ (Map.insertAll ∅ (votes.map voteEntry) : Bolt.Bucket).toList) :
    ∃ v ∈ votes, e = voteEntry v := by
  rw [Std.ExtTreeMap.mem_toList_iff_getElem?_eq_some, Map.get_insertAll,
    Std.ExtTreeMap.getElem?_empty, Option.or_none, Option.map_eq_some_iff] at h
  obtain ⟨e', hfind, hvalue⟩ := h
  obtain ⟨v, hv, rfl⟩ := List.mem_map.1 (List.mem_reverse.1 (List.mem_of_find?_eq_some hfind))
  have hkey := List.find?_some hfind
  exact ⟨v, hv, Prod.ext (of_decide_eq_true hkey).symm hvalue.symm⟩

theorem exists_stored_vote (hv : v ∈ votes) : ∃ w ∈ votes, voteKey w = voteKey v ∧
      voteEntry w ∈ (Map.insertAll ∅ (votes.map voteEntry) : Bolt.Bucket).toList := by
  have hsome : ((votes.map voteEntry).reverse.find? fun e => e.1 = voteKey v).isSome := by
    rw [List.find?_isSome]
    exact ⟨voteEntry v, List.mem_reverse.2 (List.mem_map_of_mem hv), decide_eq_true rfl⟩
  obtain ⟨e, hfind⟩ := Option.isSome_iff_exists.1 hsome
  have hfound := List.find?_some hfind
  have hkey : e.1 = voteKey v := of_decide_eq_true hfound
  have hget : (Map.insertAll ∅ (votes.map voteEntry) : Bolt.Bucket)[e.1]? = some e.2 := by
    rw [Map.get_insertAll, hkey, hfind]
    rfl
  have hmem : e ∈ (Map.insertAll ∅ (votes.map voteEntry) : Bolt.Bucket).toList :=
    Std.ExtTreeMap.mem_toList_iff_getElem?_eq_some.2 hget
  obtain ⟨w, hw, rfl⟩ := exists_of_mem_insertAll hmem
  exact ⟨w, hw, hkey, hmem⟩

/-! ### Storing -/

theorem storable_vote (h : v.signature.length ≤ 512) : Bolt.Storable (voteKey v) v.encode := by
  have hkey := length_voteKey v
  refine ⟨fun hnil => ?_, ?_, ?_⟩
  · rw [hnil] at hkey
    cases hkey
  · rw [hkey]
    decide
  · unfold Vote.encode Vote.content Bolt.maxValueSize
    simp only [List.length_append, List.length_singleton, length_putUint64, length_beBytes,
      FixedBytes.length_eq]
    omega

theorem storeVotes_run (h : ∀ v ∈ votes, v.signature.length ≤ 512)
    (ps : PersistentState) : ∃ ps', votes.forM storeVote ps = .ok () ps' ∧
      Bolt.contents ps'.db votesBucket =
        Map.insertAll (Bolt.contents ps.db votesBucket) (votes.map voteEntry) := by
  induction votes generalizing ps with
  | nil => exact ⟨ps, rfl, rfl⟩
  | cons v votes ih =>
    obtain ⟨hv, hvotes⟩ := List.forall_mem_cons.1 h
    have hstore : storeVote v ps =
        .ok () { ps with db := Bolt.putIn votesBucket (voteKey v) v.encode ps.db } :=
      PersistentState.updateDB_eq_ok.2 ⟨_, Bolt.create_put_end (storable_vote hv) ps.db, rfl⟩
    obtain ⟨ps', hrun, hcontents⟩ := ih hvotes
      { ps with db := Bolt.putIn votesBucket (voteKey v) v.encode ps.db }
    refine ⟨ps', (bind_eq_ok_of hstore).trans hrun, ?_⟩
    rw [hcontents, Bolt.contents_putIn]
    rfl

/-! ### Loading -/

theorem loadVotes_eq (ps : PersistentState) (height : UInt64) (voteType : VoteType) :
    loadVotes ps height voteType =
      (voteEntries (Bolt.contents ps.db votesBucket) height voteType).mapM decodeVoteEntry := by
  unfold loadVotes Bolt.contents
  cases ps.db[votesBucket]? with
  | none => rfl
  | some b => rfl

section

variable {votes : List Vote} {height : UInt64} {voteType : VoteType}

theorem nodup_voteKeys_iff :
    ((votes.filter fun v => v.Wanted height voteType).map voteKey).Nodup ↔
      (votes.filter fun v => v.Wanted height voteType).Pairwise fun v w =>
        (v.voteType, v.validator) ≠ (w.voteType, w.validator) := by
  have hheight {v : Vote} (hv : v ∈ votes.filter fun v => v.Wanted height voteType) :
      v.height = height := (of_decide_eq_true (List.mem_filter.1 hv).2).1
  refine List.pairwise_map.trans (List.Pairwise.iff_of_mem fun {v w} hv hw => ?_)
  rw [Ne, voteKey_eq_iff, hheight hv, hheight hw, Ne, Prod.mk.injEq, and_iff_right rfl]

theorem voteEntries_perm
    (h : ((votes.filter fun v => v.Wanted height voteType).map voteKey).Nodup) :
    (voteEntries (Map.insertAll ∅ (votes.map voteEntry)) height voteType).Perm
      ((votes.filter fun v => v.Wanted height voteType).map voteEntry) := by
  have hnodup : (voteEntries (Map.insertAll ∅ (votes.map voteEntry)) height voteType).Nodup :=
    (Map.nodup_toList _).sublist (voteEntries_sublist _ _ _)
  have hnodup' : ((votes.filter fun v => v.Wanted height voteType).map voteEntry).Nodup := by
    refine List.Nodup.of_map Prod.fst ?_
    rwa [List.map_map]
  refine (List.perm_ext_iff_of_nodup hnodup hnodup').2 fun e => ?_
  constructor
  · intro he
    obtain ⟨v, hv, rfl⟩ := exists_of_mem_insertAll ((voteEntries_sublist _ _ _).subset he)
    refine List.mem_map_of_mem (List.mem_filter.2 ⟨hv, decide_eq_true ?_⟩)
    exact (voteEntry_mem_iff.1 he).2
  · intro he
    obtain ⟨v, hv, rfl⟩ := List.mem_map.1 he
    have hwanted : v.Wanted height voteType := of_decide_eq_true (List.mem_filter.1 hv).2
    obtain ⟨w, hw, hkey, hmem⟩ := exists_stored_vote (List.mem_filter.1 hv).1
    -- the vote that was kept under the key is wanted as well, so it is this one
    obtain ⟨hheight, htype, -⟩ := voteKey_eq_iff.1 hkey
    have hw' : w ∈ votes.filter fun v => v.Wanted height voteType := by
      refine List.mem_filter.2 ⟨hw, decide_eq_true ?_⟩
      unfold Vote.Wanted
      rwa [hheight, htype]
    obtain rfl := List.inj_on_of_nodup_map h hw' hv hkey
    exact voteEntry_mem_iff.2 ⟨hmem, hwanted⟩

theorem loadVotes_iff {ps : PersistentState} (hsig : ∀ v ∈ votes, v.signature.length ≤ 512)
    (hempty : Bolt.contents ps.db votesBucket = ∅) :
    (∃ ps' loaded, votes.forM storeVote ps = .ok () ps' ∧
      loadVotes ps' height voteType = .ok loaded ∧
      loaded.Perm (votes.filter fun v => v.Wanted height voteType)) ↔
    ((votes.filter fun v => v.Wanted height voteType).map voteKey).Nodup := by
  have hread {v : Vote} (hv : v ∈ votes) : decodeVoteEntry (voteEntry v) = .ok v :=
    decodeFrom_of_reads (Vote.reads ((hsig v hv).trans (by norm_num)))
  obtain ⟨ps1, hrun, hcontents⟩ := storeVotes_run hsig ps
  rw [hempty] at hcontents
  constructor
  · rintro ⟨ps', loaded, hrun', hload, hperm⟩
    cases hrun.symm.trans hrun'
    rw [loadVotes_eq, hcontents] at hload
    have hkeys : loaded.map voteKey =
        (voteEntries (Map.insertAll ∅ (votes.map voteEntry)) height voteType).map Prod.fst := by
      refine map_of_mapM hload fun e he v hv => ?_
      obtain ⟨w, hw, rfl⟩ := exists_of_mem_insertAll ((voteEntries_sublist _ _ _).subset he)
      cases hv.symm.trans (hread hw)
      rfl
    rw [← (hperm.map voteKey).nodup_iff, hkeys]
    exact (Map.nodup_keys _).sublist ((voteEntries_sublist _ _ _).map _)
  · intro hnodup
    obtain ⟨loaded, hload, hperm⟩ := mapM_of_perm (voteEntries_perm hnodup)
      fun v hv => hread (List.mem_filter.1 hv).1
    refine ⟨ps1, loaded, hrun, ?_, hperm⟩
    rw [loadVotes_eq, hcontents]
    exact hload

/-- All votes are loaded exactly when no two of one type are by one validator. -/
theorem stored_votes_iff {ps : PersistentState} (hsig : ∀ v ∈ votes, v.signature.length ≤ 512)
    (hempty : Bolt.contents ps.db votesBucket = ∅) (height : UInt64) (voteType : VoteType) :
    (∃ ps' loaded, votes.forM storeVote ps = .ok () ps' ∧
      loadVotes ps' height voteType = .ok loaded ∧
      loaded.Perm (votes.filter fun v => v.Wanted height voteType)) ↔
    (votes.filter fun v => v.Wanted height voteType).Pairwise fun v w =>
      (v.voteType, v.validator) ≠ (w.voteType, w.validator) :=
  (loadVotes_iff hsig hempty).trans nodup_voteKeys_iff

end

theorem stored_votes_unsigned : (∀ v ∈ [unsignedVote], v.signature.length ≤ 512) ∧
    Bolt.contents unusedStore.db votesBucket = ∅ ∧
    ∃ ps' loaded, [unsignedVote].forM storeVote unusedStore = .ok () ps' ∧
      loadVotes ps' 1 0 = .ok loaded ∧
      loaded.Perm ([unsignedVote].filter fun v => v.Wanted 1 0) := by
  have hsig : ∀ v ∈ [unsignedVote], v.signature.length ≤ 512 := by decide
  have hempty := contents_unusedStore votesBucket
  exact ⟨hsig, hempty, (stored_votes_iff hsig hempty 1 0).2 (by decide)⟩

theorem earlier_round_lost : ¬ ∀ (votes : List Vote) (ps : PersistentState) (height : UInt64)
    (voteType : VoteType), (∀ v ∈ votes, v.signature.length ≤ 512) →
    (votes.Pairwise fun v w => (v.height, v.round, v.voteType, v.validator) ≠
      (w.height, w.round, w.voteType, w.validator)) →
    Bolt.contents ps.db votesBucket = ∅ →
      ∃ ps' loaded, votes.forM storeVote ps = .ok () ps' ∧
        loadVotes ps' height voteType = .ok loaded ∧
        loaded.Perm (votes.filter fun v => v.Wanted height voteType) := by
  intro h
  have hsig : ∀ v ∈ [unsignedVote, { unsignedVote with round := 1 }],
      v.signature.length ≤ 512 := by decide
  have hload := h _ unusedStore 1 0 hsig (by decide) (contents_unusedStore _)
  have hnodup := (loadVotes_iff hsig (contents_unusedStore _)).1 hload
  exact absurd (nodup_voteKeys_iff.1 hnodup) (by decide)

end Dsn
