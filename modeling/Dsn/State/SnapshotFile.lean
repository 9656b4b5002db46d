import Dsn.Go.Slice
import Dsn.State.Persistent

/-!
# `state`: snapshot files

The binary file of a snapshot and its round trip.
-/

namespace Dsn

open Go

def snapshotMagic : Bytes := str "DSNS"
def snapshotVersion : ℕ := 1
def snapshotHeaderSize : ℕ := 144
def hashSize : ℕ := 32
def maxSnapshotEntrySize : ℕ := 1024 * 1024
def maxSnapshotKVKeyLength : ℕ := 256
def maxSnapshotKVValLength : ℕ := 1024 * 1024

structure AccountEntry where
  address : Address
  data : Bytes

structure KVEntry where
  key : Bytes
  value : Bytes

def accountEntrySize : ℕ := 48
def kvEntrySize : ℕ := 40

structure Snapshot where
  height : UInt64
  epoch : UInt64
  stateRoot : Hash
  validatorSetHash : Hash
  timestamp : UInt64
  accounts : List AccountEntry
  kvStore : List KVEntry

/-! ### Taking a snapshot -/

def StateSnapshot.toSnapshot (c : StateSnapshot) (stateRoot : Hash) (height epoch : UInt64)
    (valSetHash : Hash) (timestamp : UInt64) : Snapshot where
  height := height
  epoch := epoch
  stateRoot := stateRoot
  validatorSetHash := valSetHash
  timestamp := timestamp
  accounts := c.accounts.toList.map fun e => ⟨e.1, e.2.encode⟩
  kvStore := c.kvstore.toList.map fun e => ⟨e.1, e.2⟩

def takeSnapshot {σ : Type} (c : StateSnapshot) (stateRoot : Hash) (height epoch : UInt64)
    (valSetHash : Hash) (timestamp : UInt64) : Exec σ Snapshot := do
  makeSlice maxAlloc accountEntrySize c.accounts.size
  makeSlice maxAlloc kvEntrySize c.kvstore.size
  return c.toSnapshot stateRoot height epoch valSetHash timestamp

def InMemoryState.createSnapshot (height epoch : UInt64) (valSetHash : Hash)
    (timestamp : UInt64) : Exec InMemoryState Snapshot := do
  let s ← get
  takeSnapshot s.contents s.smt.root height epoch valSetHash timestamp

/-! ### The file -/

def AccountEntry.bytes (e : AccountEntry) : Bytes :=
  e.address.bytes ++ (beBytes 4 e.data.length ++ e.data)

def KVEntry.bytes (e : KVEntry) : Bytes :=
  beBytes 4 e.key.length ++ (e.key ++ (beBytes 4 e.value.length ++ e.value))

def Snapshot.body (snap : Snapshot) : Bytes :=
  let sortedAccounts := sortSlice (fun a b => (compare a.address b.address).isLT) snap.accounts
  let sortedKVs := sortSlice (fun a b => (compare a.key b.key).isLT) snap.kvStore
  snapshotMagic ++ (beBytes 4 snapshotVersion ++ (putUint64 snap.height ++ (putUint64 snap.epoch ++
    (snap.stateRoot.bytes ++ (snap.validatorSetHash.bytes ++ (putUint64 snap.timestamp ++
    (beBytes 8 snap.accounts.length ++ (beBytes 8 snap.kvStore.length ++
    (List.replicate 32 0 ++ (sortedAccounts.flatMap AccountEntry.bytes ++
    sortedKVs.flatMap KVEntry.bytes))))))))))

def serializeSnapshot [Crypto] (snap : Snapshot) : Bytes := snap.body ++ (sha256 snap.body).bytes

def readAccountEntry (i : ℕ) (prev : AccountEntry) : Reader AccountEntry := do
  let address ← wrapErr "failed to read account address" (readFixed 20)
  failIf (i > 0 ∧ (compare address prev.address).isLE)
    (.new s!"accounts not in ascending order at index {i}")
  let dataLen ← wrapErr "failed to read account data length" (readBE 4)
  failIf (dataLen > maxSnapshotEntrySize)
    (.new s!"account data too large: {dataLen} > {maxSnapshotEntrySize}")
  let data ← wrapErr "failed to read account data" (readFull dataLen)
  return { address, data }

def readKVEntry (i : ℕ) (prev : KVEntry) : Reader KVEntry := do
  let keyLen ← wrapErr "failed to read kv key length" (readBE 4)
  failIf (keyLen > maxSnapshotKVKeyLength)
    (.new s!"kv key too long: {keyLen} > {maxSnapshotKVKeyLength}")
  let key ← wrapErr "failed to read kv key" (readFull keyLen)
  failIf (i > 0 ∧ (compare key prev.key).isLE)
    (.new s!"kv entries not in ascending order at index {i}")
  let valLen ← wrapErr "failed to read kv value length" (readBE 4)
  failIf (valLen > maxSnapshotKVValLength)
    (.new s!"kv value too large: {valLen} > {maxSnapshotKVValLength}")
  let value ← wrapErr "failed to read kv value" (readFull valLen)
  return { key, value }

def readSnapshot (limit : ℕ) (checksum : Bool) : Reader Snapshot := do
  let magic ← wrapErr "failed to read magic" (readFull 4)
  failIf (magic ≠ snapshotMagic)
    (.new s!"invalid magic: got {text magic}, expected {text snapshotMagic}")
  let version ← wrapErr "failed to read version" (readBE 4)
  failIf (version ≠ snapshotVersion)
    (.new s!"unsupported version: got {version}, expected {snapshotVersion}")
  let height ← wrapErr "failed to read height" readUint64
  let epoch ← wrapErr "failed to read epoch" readUint64
  let stateRoot ← wrapErr "failed to read state root" (readFixed 32)
  let validatorSetHash ← wrapErr "failed to read validator set hash" (readFixed 32)
  let timestamp ← wrapErr "failed to read timestamp" readUint64
  let accountCount ← wrapErr "failed to read account count" (readBE 8)
  let kvCount ← wrapErr "failed to read kv count" (readBE 8)
  -- the reserved bytes are skipped by moving the position
  modify (List.drop 32)
  failIf (checksum = false) (.new "checksum mismatch")
  makeSlice limit accountEntrySize accountCount
  let accounts ← readAfter readAccountEntry 0 ⟨zeroAddress, []⟩ accountCount
  makeSlice limit kvEntrySize kvCount
  let kvStore ← readAfter readKVEntry 0 ⟨[], []⟩ kvCount
  return { height, epoch, stateRoot, validatorSetHash, timestamp, accounts, kvStore }

def deserializeSnapshot [Crypto] (limit : ℕ) (data : Bytes) : Except Error Snapshot := do
  let minLen := snapshotHeaderSize + hashSize
  check (data.length < minLen)
    (.new s!"snapshot data too short: got {data.length}, expected at least {minLen}")
  let body := data.take (data.length - hashSize)
  decodeFrom (readSnapshot limit ((sha256 body).bytes = data.drop (data.length - hashSize))) body

def snapshotHash [Crypto] (data : Bytes) : Hash := sha256 data

/-! ### The round trip -/

structure Snapshot.WellFormed (snap : Snapshot) : Prop where
  accounts : snap.accounts.Pairwise fun a b => (compare a.address b.address).isLT
  data : ∀ e ∈ snap.accounts, e.data.length ≤ maxSnapshotEntrySize
  accountCount : accountEntrySize * snap.accounts.length ≤ maxAlloc
  kvStore : snap.kvStore.Pairwise fun a b => (compare a.key b.key).isLT
  lengths : ∀ e ∈ snap.kvStore,
    e.key.length ≤ maxSnapshotKVKeyLength ∧ e.value.length ≤ maxSnapshotKVValLength
  kvCount : kvEntrySize * snap.kvStore.length ≤ maxAlloc

variable {i : ℕ}

theorem ascends_iff {K : Type} [Ord K] [Std.OrientedOrd K] {a b : K} :
    ¬ (i > 0 ∧ (compare b a).isLE) ↔ i = 0 ∨ (compare a b).isLT := by
  rw [Std.OrientedOrd.eq_swap (a := b), not_and_or, Nat.not_lt, Nat.le_zero]
  cases compare a b <;> simp

theorem sortSlice_of_pairwise {α K : Type} [Ord K] [Std.TransOrd K] (key : α → K) {l : List α}
    (h : l.Pairwise fun a b => (compare (key a) (key b)).isLT) :
    sortSlice (fun a b => (compare (key a) (key b)).isLT) l = l := by
  refine List.Pairwise.insertionSort_eq (h.imp fun {a b} hab => ?_)
  rw [isLT_eq_false_iff]
  exact Ordering.isLE_of_eq_lt (Ordering.isLT_iff_eq_lt.1 hab)

theorem reads_accountEntry {prev e : AccountEntry} (hlen : e.data.length ≤ maxSnapshotEntrySize)
    (horder : i = 0 ∨ (compare prev.address e.address).isLT) :
    Reads (readAccountEntry i prev) e.bytes e := by
  have hlt : e.data.length < 256 ^ 4 := hlen.trans_lt (by decide)
  refine ((Reads.readFixed e.address).wrapErr _).bind ?_
  refine (Reads.failIf _ (ascends_iff.2 horder)).nil_bind ?_
  refine ((Reads.readBE hlt).wrapErr _).bind ?_
  refine (Reads.failIf _ (Nat.not_lt.2 hlen)).nil_bind ?_
  exact ((Reads.readFull e.data).wrapErr _).bind_pure (Reads.pure e)

theorem reads_kvEntry {prev e : KVEntry}
    (hlen : e.key.length ≤ maxSnapshotKVKeyLength ∧ e.value.length ≤ maxSnapshotKVValLength)
    (horder : i = 0 ∨ (compare prev.key e.key).isLT) : Reads (readKVEntry i prev) e.bytes e := by
  obtain ⟨hkey, hvalue⟩ := hlen
  have hkeyLen : e.key.length < 256 ^ 4 := hkey.trans_lt (by decide)
  have hvalLen : e.value.length < 256 ^ 4 := hvalue.trans_lt (by decide)
  refine ((Reads.readBE hkeyLen).wrapErr _).bind ?_
  refine (Reads.failIf _ (Nat.not_lt.2 hkey)).nil_bind ?_
  refine ((Reads.readFull e.key).wrapErr _).bind ?_
  refine (Reads.failIf _ (ascends_iff.2 horder)).nil_bind ?_
  refine ((Reads.readBE hvalLen).wrapErr _).bind ?_
  refine (Reads.failIf _ (Nat.not_lt.2 hvalue)).nil_bind ?_
  exact ((Reads.readFull e.value).wrapErr _).bind_pure (Reads.pure e)

theorem Reads.drop (n : ℕ) : Reads (modify (List.drop n)) (List.replicate n 0) PUnit.unit := by
  intro rest
  simp

theorem Reads.makeSlice {limit size n : ℕ} (h : size * n ≤ limit) :
    Reads (makeSlice limit size n) [] () :=
  Reads.failIf _ (Nat.not_lt.2 h)

namespace Snapshot.WellFormed

variable {snap : Snapshot}

theorem reads_body (h : snap.WellFormed) : Reads (readSnapshot maxAlloc true) snap.body snap := by
  have hversion : snapshotVersion < 256 ^ 4 := by decide
  have haccountCount : snap.accounts.length < 256 ^ 8 := by
    have := h.accountCount
    unfold accountEntrySize maxAlloc at this
    omega
  have hkvCount : snap.kvStore.length < 256 ^ 8 := by
    have := h.kvCount
    unfold kvEntrySize maxAlloc at this
    omega
  have haccounts : Reads (readAfter readAccountEntry 0 ⟨zeroAddress, []⟩ snap.accounts.length)
      (snap.accounts.flatMap AccountEntry.bytes) snap.accounts :=
    Reads.readAfter (x := readAccountEntry) (fun _ _ _ => reads_accountEntry) h.data h.accounts
      (.inl rfl)
  have hkvs : Reads (readAfter readKVEntry 0 ⟨[], []⟩ snap.kvStore.length)
      (snap.kvStore.flatMap KVEntry.bytes) snap.kvStore :=
    Reads.readAfter (x := readKVEntry) (fun _ _ _ => reads_kvEntry) h.lengths h.kvStore (.inl rfl)
  have hmagic : Reads (readFull 4) snapshotMagic snapshotMagic := Reads.readFull snapshotMagic
  unfold body
  rw [sortSlice_of_pairwise AccountEntry.address h.accounts,
    sortSlice_of_pairwise KVEntry.key h.kvStore]
  refine (hmagic.wrapErr _).bind ?_
  refine (Reads.failIf _ (not_not.2 rfl)).nil_bind ?_
  refine ((Reads.readBE hversion).wrapErr _).bind ?_
  refine (Reads.failIf _ (not_not.2 rfl)).nil_bind ?_
  refine ((Reads.readUint64 _).wrapErr _).bind ?_
  refine ((Reads.readUint64 _).wrapErr _).bind ?_
  refine ((Reads.readFixed _).wrapErr _).bind ?_
  refine ((Reads.readFixed _).wrapErr _).bind ?_
  refine ((Reads.readUint64 _).wrapErr _).bind ?_
  refine ((Reads.readBE haccountCount).wrapErr _).bind ?_
  refine ((Reads.readBE hkvCount).wrapErr _).bind ?_
  refine (Reads.drop 32).bind ?_
  refine (Reads.failIf _ Bool.true_eq_false_eq_False).nil_bind ?_
  refine (Reads.makeSlice h.accountCount).nil_bind ?_
  refine haccounts.bind ?_
  refine (Reads.makeSlice h.kvCount).nil_bind ?_
  exact hkvs.bind_pure (Reads.pure snap)

end Snapshot.WellFormed

theorem length_body (snap : Snapshot) : snapshotHeaderSize ≤ snap.body.length := by
  unfold Snapshot.body snapshotHeaderSize
  have hmagic : snapshotMagic.length = 4 := by decide
  simp only [List.length_append, length_beBytes, putUint64, FixedBytes.length_eq,
    List.length_replicate]
  omega

theorem deserializeSnapshot_serializeSnapshot [Crypto] {snap : Snapshot} (h : snap.WellFormed) :
    deserializeSnapshot maxAlloc (serializeSnapshot snap) = .ok snap := by
  have hlen : (serializeSnapshot snap).length = snap.body.length + hashSize := by
    unfold serializeSnapshot
    rw [List.length_append, FixedBytes.length_eq]
    rfl
  have hshort : ¬ (serializeSnapshot snap).length < snapshotHeaderSize + hashSize := by
    have := length_body snap
    omega
  have hbody : (serializeSnapshot snap).take ((serializeSnapshot snap).length - hashSize) =
      snap.body := by
    rw [hlen]
    exact List.take_left
  have hsum : (serializeSnapshot snap).drop ((serializeSnapshot snap).length - hashSize) =
      (sha256 snap.body).bytes := by
    rw [hlen]
    exact List.drop_left
  refine except_bind_eq_ok.2 ⟨(), check_eq_ok.2 hshort, ?_⟩
  rw [hbody, hsum]
  dsimp only
  rw [decide_eq_true rfl]
  exact decodeFrom_of_reads h.reads_body

/-! ### Snapshots of states -/

structure StateSnapshot.FitsSnapshot (c : StateSnapshot) : Prop where
  accountCount : accountEntrySize * c.accounts.size ≤ maxAlloc
  kvCount : kvEntrySize * c.kvstore.size ≤ maxAlloc
  lengths : ∀ e ∈ c.kvstore.toList,
    e.1.length ≤ maxSnapshotKVKeyLength ∧ e.2.length ≤ maxSnapshotKVValLength

namespace StateSnapshot.FitsSnapshot

variable {c : StateSnapshot} {stateRoot valSetHash : Hash} {height epoch timestamp : UInt64}

theorem takeSnapshot_run {σ : Type} (h : c.FitsSnapshot) (s : σ) :
    takeSnapshot c stateRoot height epoch valSetHash timestamp s =
      .ok (c.toSnapshot stateRoot height epoch valSetHash timestamp) s := by
  unfold takeSnapshot makeSlice
  rw [failIf_bind (Nat.not_lt.2 h.accountCount), failIf_bind (Nat.not_lt.2 h.kvCount)]
  rfl

theorem wellFormed (h : c.FitsSnapshot) :
    (c.toSnapshot stateRoot height epoch valSetHash timestamp).WellFormed where
  accounts := by
    refine List.pairwise_map.2 (Std.ExtTreeMap.ordered_keys_toList.imp fun hlt => ?_)
    exact Ordering.isLT_iff_eq_lt.2 hlt
  data := by
    intro e he
    obtain ⟨⟨addr, acc⟩, -, rfl⟩ := List.mem_map.1 he
    rw [acc.length_encode]
    decide
  accountCount := by
    show accountEntrySize * (List.map _ _).length ≤ maxAlloc
    rw [List.length_map, Std.ExtTreeMap.length_toList]
    exact h.accountCount
  kvStore := by
    refine List.pairwise_map.2 (Std.ExtTreeMap.ordered_keys_toList.imp fun hlt => ?_)
    exact Ordering.isLT_iff_eq_lt.2 hlt
  lengths := by
    intro e he
    obtain ⟨e, hmem, rfl⟩ := List.mem_map.1 he
    exact h.lengths e hmem
  kvCount := by
    show kvEntrySize * (List.map _ _).length ≤ maxAlloc
    rw [List.length_map, Std.ExtTreeMap.length_toList]
    exact h.kvCount

end StateSnapshot.FitsSnapshot

end Dsn
