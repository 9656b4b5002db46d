import Dsn.Node.Commit
import Dsn.State.Durability

/-!
# Fast sync

The restored entries are copied over memory, which keeps what it had besides.
-/

namespace Dsn

open Go

namespace Node

variable [Crypto] {n n' : Node} {ps : PersistentState}

theorem loadFromPersistent_run (h : n.persistent = some ps) : loadFromPersistent n =
    .ok () { n with state := committed (n.state.copyFrom ps.contents) } := by
  cases n
  cases h
  rfl

omit [Crypto] in
theorem persistent_root_run (h : n.persistent = some ps) :
    onPersistent (asks fun ps => .ok ps.root) n = .ok ps.root n := by
  cases n
  cases h
  rfl

def synced (cp : Checkpoint) (ps : PersistentState) (n : Node) : Node :=
  { n with
    state := committed (n.state.copyFrom ps.contents)
    persistent := some { ps with
      db := Bolt.putIn chainBucket tipKey (encodeHeader (checkpointTip cp)) ps.db }
    currentHeight := cp.height
    currentTipHash := cp.blockHash }

theorem fastSync_eq_ok {cp : Checkpoint} {snapData : Bytes} {targetHeight : UInt64}
    (htarget : targetHeight ≤ cp.height) :
    fastSyncFromCheckpoint cp snapData targetHeight n = .ok () n' ↔ ∃ ps ps',
      n.persistent = some ps ∧ snapshotHash snapData = cp.snapshotHash ∧
      restoreFromSnapshot snapData cp.snapshotHash ps = .ok () ps' ∧ ps'.root = cp.stateRoot ∧
      n' = synced cp ps' n := by
  have hnot : ¬ targetHeight > cp.height := UInt64.not_lt.2 htarget
  unfold fastSyncFromCheckpoint
  rw [get_bind]
  cases hps : n.persistent with
  | none =>
    constructor
    · intro h
      exact absurd rfl (failIf_bind_eq_ok.1 h).1
    · rintro ⟨_, _, hsome, -⟩
      cases hsome
  | some ps =>
    rw [failIf_bind (by exact Bool.false_ne_true)]
    constructor
    · intro h
      obtain ⟨hsame, h⟩ := failIf_bind_eq_ok.1 h
      obtain ⟨_, n1, hrestore, h⟩ := bind_eq_ok.1 h
      obtain ⟨ps', hps', rfl⟩ := (onPersistent_eq_ok hps).1 (wrapErr_eq_ok.1 hrestore)
      rw [bind_eq_ok_of (loadFromPersistent_run rfl)] at h
      rw [bind_eq_ok_of (persistent_root_run rfl)] at h
      obtain ⟨hroot, h⟩ := failIf_bind_eq_ok.1 h
      rw [modify_bind, wrapErr_bind (onPersistent_of_ok rfl (storeTip_run _ _)), if_neg hnot] at h
      cases h
      exact ⟨ps, ps', rfl, not_not.1 hsame, hps', not_not.1 hroot, rfl⟩
    · rintro ⟨_, ps', hsome, hhash, hrestore, hroot, rfl⟩
      cases hsome
      rw [failIf_bind (not_not.2 hhash), wrapErr_bind (onPersistent_of_ok hps hrestore),
        bind_eq_ok_of (loadFromPersistent_run rfl), bind_eq_ok_of (persistent_root_run rfl),
        failIf_bind (not_not.2 hroot), modify_bind,
        wrapErr_bind (onPersistent_of_ok rfl (storeTip_run _ _)), if_neg hnot]
      rfl

end Node

section

variable [Crypto] {n n' : Node} {cp : Checkpoint} {snapData : Bytes} {targetHeight : UInt64}

/-- The ledger is the snapshot, with the root of the checkpoint. -/
def SyncedExactly (cp : Checkpoint) (snapData : Bytes) (n : Node) : Prop :=
  ∃ snap, deserializeSnapshot maxAlloc snapData = .ok snap ∧
    (∀ e ∈ snap.accounts, (decodeFrom Account.decode e.data).isOk) ∧
    n.state.contents = snap.loadedContents ∧ n.state.smt.root = cp.stateRoot

/-- Memory is the snapshot exactly when nothing else was in it before. -/
theorem fast_sync_exact_iff (htarget : targetHeight ≤ cp.height)
    (h : Node.fastSyncFromCheckpoint cp snapData targetHeight n = .ok () n') :
    SyncedExactly cp snapData n' ↔ ∃ snap, deserializeSnapshot maxAlloc snapData = .ok snap ∧
      n.state.contents.KeysIn snap.loadedContents := by
  obtain ⟨ps, ps', -, -, hrestore, hroot, rfl⟩ := (Node.fastSync_eq_ok htarget).1 h
  obtain ⟨snap, hrestores⟩ := restores_of_restore hrestore
  obtain ⟨-, hsnap, -⟩ := checkSnapshot_eq_ok.1 hrestores.checked
  have hmemory : (Node.synced cp ps' n).state.contents =
      n.state.contents.overlay snap.loadedContents := by
    rw [← hrestores.contents]
    rfl
  constructor
  · rintro ⟨snap', hsnap', -, hcontents, -⟩
    cases hsnap.symm.trans hsnap'
    exact ⟨snap, hsnap, StateSnapshot.overlay_eq_iff.1 (hmemory.symm.trans hcontents)⟩
  · rintro ⟨snap', hsnap', hkeys⟩
    cases hsnap.symm.trans hsnap'
    have hcontents := hmemory.trans (StateSnapshot.overlay_eq_iff.2 hkeys)
    refine ⟨snap, hsnap, hrestores.decodes, hcontents, ?_⟩
    calc (Node.synced cp ps' n).state.smt.root
        = (Node.synced cp ps' n).state.contents.root := rfl
      _ = snap.stateRoot := by rw [hcontents, hrestores.root_eq]
      _ = cp.stateRoot := hrestores.root.symm.trans hroot

theorem exists_fastSync {ps : PersistentState} {c : StateSnapshot} (hps : n.persistent = some ps)
    (hopen : Opened ps.db) (hfits : c.FitsSnapshot) (hkeys : ∀ key ∈ c.kvstore, key ≠ [])
    (hroot : c.root ≠ zeroHash) (height epoch : UInt64) (blockHash valSetHash : Hash)
    (timestamp : UInt64) : ∃ cp snap n', cp.height = height ∧ cp.blockHash = blockHash ∧
      Node.fastSyncFromCheckpoint cp (serializeSnapshot snap) height n = .ok () n' ∧
      deserializeSnapshot maxAlloc (serializeSnapshot snap) = .ok snap ∧ snap.loadedContents = c ∧
      ∃ ps', n' = Node.synced cp ps' n ∧ Stored ps'.db c c.root ∧
        ps'.db[checkpointsBucket]? = ps.db[checkpointsBucket]? := by
  let snap := c.toSnapshot c.root height epoch valSetHash timestamp
  let cp : Checkpoint := ⟨height, blockHash, c.root, snapshotHash (serializeSnapshot snap),
    valSetHash, epoch, timestamp⟩
  have hexpected : cp.snapshotHash = zeroHash ∨ sha256 (serializeSnapshot snap) = cp.snapshotHash :=
    .inr rfl
  obtain ⟨ps', hrestore, -, hps', hstored, hother⟩ :=
    restore_toSnapshot hfits hkeys hroot hopen hexpected
  refine ⟨cp, snap, _, rfl, rfl,
    (Node.fastSync_eq_ok (UInt64.le_refl _)).2 ⟨ps, ps', hps, rfl, hrestore, hps', rfl⟩,
    deserializeSnapshot_serializeSnapshot hfits.wellFormed, loadedContents_toSnapshot, ps', rfl,
    hstored, hother _ (by decide)⟩

end

/-! ### A key that stays in memory -/

theorem singleEntry_ne (key value : Bytes) : singleEntry key value ≠ emptyContents := by
  intro heq
  have hmem : key ∈ (singleEntry key value).kvstore := mem_singleEntry.2 rfl
  rw [heq] at hmem
  exact Std.ExtTreeMap.not_mem_empty hmem

attribute [local instance] constantCrypto

theorem root_constantCrypto_ne {c : StateSnapshot} (h : c ≠ emptyContents) :
    c.root ≠ zeroHash := by
  obtain ⟨b, hb⟩ := exists_root_contents h
  rw [hb]
  show FixedBytes.copy 32 [1] ≠ zeroHash
  decide

def sampleTarget : StateSnapshot := singleEntry (str "b") [1]

theorem fits_sampleTarget : sampleTarget.FitsSnapshot := by
  have hlist : sampleTarget.kvstore.toList = [(str "b", [1])] := by decide
  refine ⟨by decide, by decide, ?_⟩
  decide

theorem exists_sync_sampleTarget {n : Node} {ps : PersistentState} (hps : n.persistent = some ps)
    (hopen : Opened ps.db) (blockHash : Hash) : ∃ cp snap n', cp.height = 1 ∧
      cp.blockHash = blockHash ∧
      Node.fastSyncFromCheckpoint cp (serializeSnapshot snap) 1 n = .ok () n' ∧
      deserializeSnapshot maxAlloc (serializeSnapshot snap) = .ok snap ∧
      snap.loadedContents = sampleTarget ∧ ∃ ps', n' = Node.synced cp ps' n ∧
        Stored ps'.db sampleTarget sampleTarget.root ∧
        ps'.db[checkpointsBucket]? = ps.db[checkpointsBucket]? := by
  have hkeys : ∀ key ∈ sampleTarget.kvstore, key ≠ [] := by
    intro key hkey
    rw [mem_singleEntry.1 hkey]
    decide
  exact exists_fastSync hps hopen fits_sampleTarget hkeys
    (root_constantCrypto_ne (singleEntry_ne _ _)) 1 0 blockHash zeroHash 0

def sampleUnsynced (kvstore : Map Bytes Bytes) : Node :=
  { Node.initial sampleConfig none freshPersistent with
    state := { newInMemoryState with kvstore := kvstore } }

theorem opened_freshPersistent : Opened freshPersistent.db := stored_opened_empty.isOpened

theorem fast_sync_keeps_key : ∃ (cp : Checkpoint) (snapData : Bytes) (n n' : Node),
    Node.fastSyncFromCheckpoint cp snapData cp.height n = .ok () n' ∧
      ¬ SyncedExactly cp snapData n' := by
  obtain ⟨cp, snap, n', hheight, -, hsync, hsnap, hloaded, -⟩ := exists_sync_sampleTarget
    (n := sampleUnsynced (singleEntry (str "a") [1]).kvstore) rfl opened_freshPersistent zeroHash
  obtain ⟨_, ps', -, -, -, -, rfl⟩ := (Node.fastSync_eq_ok (by rw [hheight]; decide)).1 hsync
  rw [← hheight] at hsync
  refine ⟨cp, _, _, _, hsync, ?_⟩
  rintro ⟨snap', hsnap', -, hcontents, -⟩
  cases hsnap.symm.trans hsnap'
  -- the copy only adds keys
  have hmem : str "a" ∈ snap.loadedContents.kvstore := by
    rw [← hcontents]
    exact Map.mem_insertAll_toList.2 (.inl (mem_singleEntry.2 rfl))
  rw [hloaded] at hmem
  exact absurd (mem_singleEntry.1 hmem) (by decide)

/-- An older value of the key is replaced. -/
theorem fast_sync_exact_stale : ∃ (cp : Checkpoint) (snapData : Bytes) (n' : Node),
    Node.fastSyncFromCheckpoint cp snapData 1 (sampleUnsynced (singleEntry (str "b") [2]).kvstore) =
      .ok () n' ∧ SyncedExactly cp snapData n' := by
  obtain ⟨cp, snap, n', hheight, -, hsync, hsnap, hloaded, -⟩ := exists_sync_sampleTarget
    (n := sampleUnsynced (singleEntry (str "b") [2]).kvstore) rfl opened_freshPersistent zeroHash
  refine ⟨cp, _, n', hsync, (fast_sync_exact_iff (by rw [hheight]; decide) hsync).2
    ⟨snap, hsnap, ⟨fun addr haddr => ?_, fun key hkey => ?_⟩⟩⟩
  · exact absurd haddr Std.ExtTreeMap.not_mem_empty
  · rw [hloaded]
    exact mem_singleEntry.2 (mem_singleEntry.1 hkey)

end Dsn
