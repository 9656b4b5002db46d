import Dsn.State.SnapshotFile

/-!
# `state`: checkpoints

Checkpoints and the snapshot files that belong to them.
-/

namespace Dsn

open Go

structure Checkpoint where
  height : UInt64
  blockHash : Hash
  stateRoot : Hash
  snapshotHash : Hash
  validatorSetHash : Hash
  epoch : UInt64
  timestamp : UInt64

def checkpointsBucket : Bytes := str "checkpoints"
def snapshotsBucket : Bytes := str "snapshots"
def latestCheckpointKey : Bytes := str "latest"

def encodeCheckpoint (cp : Checkpoint) : Bytes :=
  putUint64 cp.height ++ (cp.blockHash.bytes ++ (cp.stateRoot.bytes ++ (cp.snapshotHash.bytes ++
    (cp.validatorSetHash.bytes ++ (putUint64 cp.epoch ++ putUint64 cp.timestamp)))))

def readCheckpoint : Reader Checkpoint := do
  let height ← readUint64
  let blockHash ← readFixed 32
  let stateRoot ← readFixed 32
  let snapshotHash ← readFixed 32
  let validatorSetHash ← readFixed 32
  let epoch ← readUint64
  let timestamp ← readUint64
  return { height, blockHash, stateRoot, snapshotHash, validatorSetHash, epoch, timestamp }

def decodeCheckpoint (data : Bytes) : Option Checkpoint :=
  if data.length ≠ 152 then none else (decodeFrom readCheckpoint data).toOption

def heightKey (height : UInt64) : Bytes := putUint64 height

def storeCheckpoint (cp : Checkpoint) : Exec PersistentState Unit :=
  PersistentState.updateDB do
    wrapErr "failed to create checkpoints bucket" (Bolt.createBucketIfNotExists checkpointsBucket)
    wrapErr s!"failed to store checkpoint at height {cp.height}"
      (Bolt.put checkpointsBucket (heightKey cp.height) (encodeCheckpoint cp))
    wrapErr "failed to update latest checkpoint"
      (Bolt.put checkpointsBucket latestCheckpointKey (encodeCheckpoint cp))

def latestCheckpoint (ps : PersistentState) : Except Error Checkpoint :=
  match Bolt.lookup ps.db checkpointsBucket latestCheckpointKey with
  | none => .error (.new "checkpoint not found")
  | some data => match decodeCheckpoint data with
    | some cp => .ok cp
    | none => .error (.new "corrupt latest checkpoint data")

def snapshotExists (ps : PersistentState) (height : UInt64) : Bool :=
  (Bolt.lookup ps.db snapshotsBucket (heightKey height)).isSome

def storeSnapshot (height : UInt64) (data : Bytes) : Exec PersistentState Unit :=
  PersistentState.updateDB do
    wrapErr "failed to create snapshots bucket" (Bolt.createBucketIfNotExists snapshotsBucket)
    wrapErr s!"failed to store snapshot at height {height}"
      (Bolt.put snapshotsBucket (heightKey height) data)

def loadSnapshotData (ps : PersistentState) (height : UInt64) : Except Error Bytes :=
  match Bolt.lookup ps.db snapshotsBucket (heightKey height) with
  | none => .error (.new s!"snapshot not found at height {height}")
  | some data => .ok data

/-! ### What is stored -/

theorem heightKey_injective : Function.Injective heightKey := by
  intro a b h
  have hread (v : UInt64) := decodeFrom_of_reads (Reads.readUint64 v)
  have ha := hread a
  rw [show putUint64 a = putUint64 b from h, hread b] at ha
  exact (Except.ok.inj ha).symm

theorem storable_height (height : UInt64) {value : Bytes}
    (h : value.length ≤ Bolt.maxValueSize) : Bolt.Storable (heightKey height) value := by
  have hkey : (heightKey height).length = 8 := length_beBytes 8 _
  refine ⟨fun hnil => ?_, ?_, h⟩
  · rw [hnil] at hkey
    cases hkey
  · rw [hkey]
    decide

end Dsn
