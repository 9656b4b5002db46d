import Dsn.Staking.Registry

/-!
# `staking`: validator snapshots

Snapshots of the active set and their codec.
-/

namespace Dsn

open Go InMemoryState

structure ValidatorSnapshot where
  epoch : UInt64
  validators : List Validator
  totalPower : UInt64
  setHash : Hash
  deriving DecidableEq

variable {snap : ValidatorSnapshot} {epoch : UInt64} {s : InMemoryState}

def computeValidatorSetHash [Crypto] (validators : List Validator) : Hash :=
  if validators.length = 0 then zeroHash else sha256 (validators.flatMap Validator.encode)

namespace ValidatorSnapshot

def buildIndexes (snap : ValidatorSnapshot) : Map Address Validator :=
  snap.validators.foldl (fun byID v => byID.insert v.consensusID v) ∅

def validatorByID [Crypto] (snap : ValidatorSnapshot) (consensusID : Address) :
    Except Error Validator :=
  match snap.buildIndexes[consensusID]? with
  | some v => .ok v
  | none => .error (.new
      s!"validator {addressString consensusID} not found in snapshot epoch {snap.epoch}")

def marshalBinary (snap : ValidatorSnapshot) : Bytes :=
  putUint64 snap.epoch ++ (beBytes 8 snap.validators.length ++
    (snap.validators.flatMap Validator.encode ++ (putUint64 snap.totalPower ++ snap.setHash.bytes)))

/-- A count that `make` cannot allocate is not told from one beyond the data. -/
def unmarshalBinary : Reader ValidatorSnapshot := do
  let epoch ← readUint64
  let count ← readBE 8
  let validators ← readMany (fun i => wrapErr s!"validator {i}" Validator.decode) 0 count
  let totalPower ← readUint64
  let setHash ← readSome 32
  return { epoch, validators, totalPower, setHash }

theorem unmarshal_marshal (snap : ValidatorSnapshot) (h : snap.validators.length < 2 ^ 64) :
    Reads unmarshalBinary snap.marshalBinary snap := by
  have hlen : snap.validators.length < 256 ^ 8 := by norm_num at h ⊢; exact h
  refine (Reads.readUint64 snap.epoch).bind ?_
  refine (Reads.readBE hlen).bind ?_
  refine (Reads.readMany (fun i v => (Validator.decode_encode v).wrapErr _)
    snap.validators 0).bind ?_
  refine (Reads.readUint64 snap.totalPower).bind ?_
  exact (Reads.readSome snap.setHash).bind_pure (Reads.pure snap)

theorem buildIndexes_get (snap : ValidatorSnapshot) (id : Address) :
    snap.buildIndexes[id]? = snap.validators.reverse.find? fun v => v.consensusID = id := by
  unfold buildIndexes
  induction snap.validators using List.reverseRecOn with
  | nil => rfl
  | append_singleton l v ih =>
    rw [List.foldl_append, List.foldl_cons, List.foldl_nil, Map.get_insert, ih, List.reverse_append,
      List.reverse_singleton, List.singleton_append]
    by_cases h : v.consensusID = id <;> simp [h]

variable {id : Address} {v : Validator}

theorem validatorByID_mem [Crypto]
    (h : snap.validatorByID id = .ok v) : v ∈ snap.validators ∧ v.consensusID = id := by
  unfold validatorByID at h
  rw [buildIndexes_get] at h
  cases hf : snap.validators.reverse.find? fun v => decide (v.consensusID = id) with
  | none => rw [hf] at h; cases h
  | some w =>
    rw [hf] at h
    obtain rfl : w = v := by simpa using h
    exact ⟨List.mem_reverse.1 (List.mem_of_find?_eq_some hf), by simpa using List.find?_some hf⟩

theorem validatorByID_eq_ok [Crypto]
    (hinj : ∀ v ∈ snap.validators, ∀ w ∈ snap.validators, v.consensusID = w.consensusID → v = w) :
    snap.validatorByID id = .ok v ↔ v ∈ snap.validators ∧ v.consensusID = id := by
  refine ⟨validatorByID_mem, fun ⟨hmem, hid⟩ => ?_⟩
  cases hfound : snap.validatorByID id with
  | ok w =>
    obtain ⟨hw, hwid⟩ := validatorByID_mem hfound
    rw [hinj w hw v hmem (hwid.trans hid.symm)]
  | error e =>
    unfold validatorByID at hfound
    rw [buildIndexes_get] at hfound
    cases hf : snap.validators.reverse.find? fun v => decide (v.consensusID = id) with
    | none =>
      have hno := List.find?_eq_none.1 hf v (List.mem_reverse.2 hmem)
      exact absurd (decide_eq_true hid) hno
    | some w => rw [hf] at hfound; cases hfound

end ValidatorSnapshot

/-! ### The stored snapshots -/

def latestSnapshotEpoch (s : InMemoryState) : Except Error UInt64 := readCounter keyLatestEpoch 0 s

def setLatestSnapshotEpoch (epoch : UInt64) : Exec InMemoryState Unit := do
  let current ← asks latestSnapshotEpoch
  if epoch ≤ current then pure ()
  else modify (setBytes keyLatestEpoch (putUint64 epoch))

variable [Crypto]

def snapshotOf (epoch : UInt64) (active : List Validator) : ValidatorSnapshot where
  epoch := epoch
  validators := active
  totalPower := sumUint64 Validator.votingPower active
  setHash := computeValidatorSetHash active

def createSnapshot (epoch : UInt64) : Exec InMemoryState ValidatorSnapshot := do
  let active ← wrapErr "get active validators" (asks getActiveValidators)
  let snap := snapshotOf epoch active
  modify (setBytes (snapshotKey epoch) snap.marshalBinary)
  wrapErr "update latest epoch" (setLatestSnapshotEpoch epoch)
  return snap

variable {s' : InMemoryState}

theorem createSnapshot_eq_ok :
    createSnapshot epoch s = .ok snap s' ↔ ∃ active, getActiveValidators s = .ok active ∧
      snap = snapshotOf epoch active ∧
      setLatestSnapshotEpoch epoch (s.setBytes (snapshotKey epoch) snap.marshalBinary) =
        .ok () s' := by
  unfold createSnapshot
  simp only [wrapErr_bind_eq_ok, asks_bind_eq_ok, modify_bind]
  simp only [bind_eq_ok, pure_eq_ok]
  constructor
  · rintro ⟨active, hactive, _, _, hlatest, rfl, rfl⟩
    exact ⟨active, hactive, rfl, hlatest⟩
  · rintro ⟨active, hactive, rfl, hlatest⟩
    exact ⟨active, hactive, (), s', hlatest, rfl, rfl⟩

def getSnapshot (epoch : UInt64) (s : InMemoryState) : Except Error (Option ValidatorSnapshot) :=
  match s.getBytes (snapshotKey epoch) with
  | none => .ok none
  | some data =>
    match decodeFrom ValidatorSnapshot.unmarshalBinary data with
    | .ok snap => .ok (some snap)
    | .error e => .error (e.within s!"unmarshal snapshot for epoch {epoch}")

section

omit [Crypto]

theorem getSnapshot_congr {k : UInt64}
    (h : s'.getBytes (snapshotKey k) = s.getBytes (snapshotKey k)) :
    getSnapshot k s' = getSnapshot k s := by
  unfold getSnapshot
  rw [h]

theorem getSnapshot_of_getBytes (hlen : snap.validators.length < 2 ^ 64)
    (h : s.getBytes (snapshotKey epoch) = some snap.marshalBinary) :
    getSnapshot epoch s = .ok (some snap) := by
  have hread := decodeFrom_of_reads (snap.unmarshal_marshal hlen)
  unfold getSnapshot
  simp only [h, hread]

theorem getSnapshot_setBytes (s : InMemoryState) (hlen : snap.validators.length < 2 ^ 64) :
    getSnapshot epoch (s.setBytes (snapshotKey epoch) snap.marshalBinary) = .ok (some snap) :=
  getSnapshot_of_getBytes hlen (getBytes_setBytes_self _ _ _)

end

end Dsn
