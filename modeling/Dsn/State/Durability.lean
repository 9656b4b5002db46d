import Dsn.State.Persistent

/-!
# What survives closing and reopening

Commits only add to the database, so what was deleted in between is there after reopening.
-/

namespace Dsn

open Go

/-- A call that changes the cache. -/
inductive CacheCall
  | setAccount (addr : Address) (acc : Account)
  | deleteAccount (addr : Address)
  | setBytes (key value : Bytes)
  | deleteBytes (key : Bytes)

def CacheCall.run : CacheCall → PersistentState → PersistentState
  | .setAccount addr acc => PersistentState.setAccount addr acc
  | .deleteAccount addr => PersistentState.deleteAccount addr
  | .setBytes key value => PersistentState.setBytes key value
  | .deleteBytes key => PersistentState.deleteBytes key

structure CommitRecord where
  contents : StateSnapshot
  root : Hash

section

variable [Crypto]

/-- A run on a new database, with what each commit wrote. -/
inductive History : List CommitRecord → PersistentState → Prop
  | fresh {s : PersistentState} {db : Bolt.DB} :
      newPersistentState ∅ = .ok s db → History [] s
  | call {past : List CommitRecord} {s : PersistentState} (op : CacheCall) :
      History past s → History past (op.run s)
  | commit {past : List CommitRecord} {s s' : PersistentState} {root : Hash} :
      History past s → PersistentState.commit s = .ok root s' →
        History (⟨s.contents, root⟩ :: past) s'

/-- Reopening gives the contents of the last commit. -/
def Reopens (s : PersistentState) (last : CommitRecord) : Prop :=
  ∃ t db t', newPersistentState s.db = .ok t db ∧ t.contents = last.contents ∧
    PersistentState.commit t = .ok last.root t'

def durable : List CommitRecord → StateSnapshot
  | [] => emptyContents
  | last :: past => (durable past).overlay last.contents

def lastRoot : List CommitRecord → Hash
  | [] => zeroHash
  | last :: _ => last.root

variable {past : List CommitRecord} {last : CommitRecord} {s : PersistentState}

omit [Crypto] in
@[simp] theorem CacheCall.run_db (op : CacheCall) (s : PersistentState) : (op.run s).db = s.db := by
  cases op <;> rfl

omit [Crypto] in
theorem keysIn_durable {c : StateSnapshot} :
    (durable past).KeysIn c ↔ ∀ d ∈ past, d.contents.KeysIn c := by
  induction past with
  | nil => exact ⟨fun _ _ h => absurd h List.not_mem_nil, fun _ => StateSnapshot.keysIn_empty c⟩
  | cons last past ih =>
    rw [durable, StateSnapshot.keysIn_overlay, ih, List.forall_mem_cons, and_comm]

theorem History.stored (h : History past s) : Stored s.db (durable past) (lastRoot past) := by
  induction h with
  | fresh hnew =>
    cases hnew
    exact stored_opened_empty
  | call op _ ih =>
    rw [op.run_db]
    exact ih
  | commit _ hc ih =>
    obtain ⟨rfl, -, -⟩ := PersistentState.commit_contents hc
    exact (PersistentState.commits_of_commit ih hc).stored

theorem History.last_commit (h : History (last :: past) s) : last.root = last.contents.root ∧
    ∀ e ∈ last.contents.kvstore.toList, Bolt.Storable e.1 e.2 := by
  generalize hpast : last :: past = all at h
  induction h generalizing last past with
  | fresh _ => cases hpast
  | call op _ ih => exact ih hpast
  | commit hprev hc ih =>
    cases hpast
    exact ⟨(PersistentState.commit_contents hc).1,
      (PersistentState.commits_of_commit hprev.stored hc).storable⟩

theorem History.reopens_iff_loaded (h : History (last :: past) s) :
    Reopens s last ↔ loaded (durable (last :: past)) last.root = last.contents := by
  obtain ⟨hroot, hst⟩ := h.last_commit
  unfold Reopens
  rw [h.stored.reopen]
  constructor
  · rintro ⟨t, db, t', ht, hcontents, -⟩
    cases ht
    exact hcontents
  · intro hloaded
    set t : PersistentState := ⟨s.db, (loaded (durable (last :: past)) last.root).accounts,
      (loaded (durable (last :: past)) last.root).kvstore, last.root⟩
    have hcontents : t.contents = last.contents := hloaded
    have hfits : t.Storable := by
      intro e he
      refine hst e ?_
      rwa [← hcontents]
    obtain ⟨t', ht'⟩ := PersistentState.commit_run (s := t) h.stored.isOpened hfits
    rw [hcontents, ← hroot] at ht'
    exact ⟨t, s.db, t', rfl, hcontents, ht'⟩

/-- When reopening gives what was present at the last `Commit`. -/
theorem reopens_iff (h : History (last :: past) s) : Reopens s last ↔
    last.contents = emptyContents ∨
      last.contents.root ≠ zeroHash ∧ ∀ d ∈ past, d.contents.KeysIn last.contents := by
  obtain ⟨hroot, -⟩ := h.last_commit
  rw [h.reopens_iff_loaded, hroot]
  unfold loaded
  by_cases hzero : last.contents.root = zeroHash
  · simp [hzero, eq_comm]
  · rw [if_neg hzero, durable, StateSnapshot.overlay_eq_iff, keysIn_durable]
    constructor
    · exact fun hkeys => .inr ⟨hzero, hkeys⟩
    · rintro (hempty | ⟨-, hkeys⟩)
      · rw [hempty] at hzero
        exact absurd root_emptyContents hzero
      · exact hkeys

/-! ### One key after another -/

def singleEntry (key value : Bytes) : StateSnapshot := ⟨∅, (∅ : Map Bytes Bytes).insert key value⟩

omit [Crypto] in
theorem mem_singleEntry {key value a : Bytes} :
    a ∈ (singleEntry key value).kvstore ↔ a = key := by
  unfold singleEntry
  rw [Std.ExtTreeMap.mem_insert, Std.LawfulEqCmp.compare_eq_iff_eq, eq_comm]
  simp

theorem History.exists_fresh : ∃ s, History [] s ∧ s.contents = emptyContents := by
  have hloaded : loaded emptyContents zeroHash = emptyContents := if_pos rfl
  exact ⟨_, .fresh (newPersistentState_of_stored stored_opened_empty), hloaded⟩

theorem History.commit_entry (h : History past s) (hs : s.contents = emptyContents)
    {key value : Bytes} (hfits : Bolt.Storable key value) :
    ∃ s', History (⟨singleEntry key value, (singleEntry key value).root⟩ :: past) s' ∧
      s'.contents = singleEntry key value := by
  obtain ⟨hcache, hkvstore⟩ := StateSnapshot.ext_iff_maps.1 hs
  have hcache : s.cache = ∅ := hcache
  have hkvstore : s.kvstore = ∅ := hkvstore
  have hset : ((CacheCall.setBytes key value).run s).contents = singleEntry key value := by
    show (⟨s.cache, s.kvstore.insert key value⟩ : StateSnapshot) = _
    rw [hcache, hkvstore]
    rfl
  have hstorable : ((CacheCall.setBytes key value).run s).Storable := by
    rintro ⟨a, v⟩ he
    have hget := Std.ExtTreeMap.mem_toList_iff_getElem?_eq_some.1 he
    change (s.kvstore.insert key value)[a]? = some v at hget
    rw [hkvstore, Map.get_insert] at hget
    split_ifs at hget with ha
    · cases hget
      cases ha
      exact hfits
    · simp at hget
  have hcall := h.call (.setBytes key value)
  obtain ⟨s', hc⟩ := PersistentState.commit_run hcall.stored.isOpened hstorable
  have hnext := hcall.commit hc
  obtain ⟨-, hcontents, -⟩ := PersistentState.commit_contents hc
  rw [hset] at hnext hcontents
  exact ⟨s', hnext, hcontents⟩

theorem History.exists_replaced (key key' value : Bytes) (hfits : Bolt.Storable key value)
    (hfits' : Bolt.Storable key' value) :
    ∃ s, History [⟨singleEntry key' value, (singleEntry key' value).root⟩,
      ⟨singleEntry key value, (singleEntry key value).root⟩] s := by
  obtain ⟨s0, h0, hs0⟩ := History.exists_fresh
  obtain ⟨s1, h1, hs1⟩ := h0.commit_entry hs0 hfits
  have hs2 : ((CacheCall.deleteBytes key).run s1).contents = emptyContents := by
    obtain ⟨hcache, hkvstore⟩ := StateSnapshot.ext_iff_maps.1 hs1
    have hcache : s1.cache = ∅ := hcache
    have hkvstore : s1.kvstore = (∅ : Map Bytes Bytes).insert key value := hkvstore
    have herase : s1.kvstore.erase key = ∅ := by
      refine Std.ExtTreeMap.ext_getElem? fun a => ?_
      rw [Std.ExtTreeMap.getElem?_empty]
      by_cases ha : key = a
      · rw [← ha, Map.get_erase_self]
      · rw [Map.get_erase_of_ne _ ha, hkvstore, Map.get_insert_of_ne _ ha,
          Std.ExtTreeMap.getElem?_empty]
    show (⟨s1.cache, s1.kvstore.erase key⟩ : StateSnapshot) = _
    rw [hcache, herase]
    rfl
  obtain ⟨s3, h3, -⟩ := (h1.call (.deleteBytes key)).commit_entry hs2 hfits'
  exact ⟨s3, h3⟩

end

section

open Sample

theorem deleted_key_returns : ∃ (s : PersistentState) (last : CommitRecord)
    (past : List CommitRecord), History (last :: past) s ∧ ¬ Reopens s last := by
  obtain ⟨s, h⟩ := History.exists_replaced (str "a") (str "b") [1]
    (by decide) (by decide)
  refine ⟨s, _, _, h, fun hreopens => ?_⟩
  have hloaded := h.reopens_iff_loaded.1 hreopens
  unfold loaded at hloaded
  split_ifs at hloaded with hzero
  · have hmem : str "b" ∈ emptyContents.kvstore := by
      rw [hloaded]
      exact mem_singleEntry.2 rfl
    exact Std.ExtTreeMap.not_mem_empty hmem
  · have hkeys := keysIn_durable.1 (StateSnapshot.overlay_eq_iff.1 hloaded) _ List.mem_cons_self
    have hmem := mem_singleEntry.1 (hkeys.kvstore (str "a") (mem_singleEntry.2 rfl))
    exact absurd hmem (by decide)

end

attribute [local instance] constantCrypto

theorem reopens_single_entry : ∃ s root, History [⟨singleEntry (str "a") [1], root⟩] s ∧
    Reopens s ⟨singleEntry (str "a") [1], root⟩ := by
  obtain ⟨s₀, h₀, hs₀⟩ := History.exists_fresh
  have hfits : Bolt.Storable (str "a") [1] := by decide
  obtain ⟨s, h, -⟩ := h₀.commit_entry hs₀ hfits
  have hne : singleEntry (str "a") [1] ≠ emptyContents := by
    intro heq
    have hmem : str "a" ∈ (singleEntry (str "a") [1]).kvstore := mem_singleEntry.2 rfl
    rw [heq] at hmem
    exact Std.ExtTreeMap.not_mem_empty hmem
  obtain ⟨b, hb⟩ := exists_root_contents hne
  have hroot : (singleEntry (str "a") [1]).root ≠ zeroHash := by
    rw [hb]
    show FixedBytes.copy 32 [1] ≠ zeroHash
    decide
  refine ⟨s, _, h, (reopens_iff h).2 (.inr ⟨hroot, ?_⟩)⟩
  exact fun d hd => absurd hd List.not_mem_nil

end Dsn
