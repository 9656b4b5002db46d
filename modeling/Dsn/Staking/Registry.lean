import Dsn.Go.Slice
import Dsn.State.Memory

/-!
# `staking`: the validator registry

Records, counters and indexes of the validators.
-/

namespace Dsn

open Go InMemoryState

variable {s s' : InMemoryState}

/-! ### Validators -/

abbrev ValidatorStatus := UInt8

def validatorPending : ValidatorStatus := 0
def validatorActive : ValidatorStatus := 1
def validatorJailed : ValidatorStatus := 2
def validatorUnstaking : ValidatorStatus := 3
def validatorRemoved : ValidatorStatus := 4

def statusString (s : ValidatorStatus) : String :=
  if s = validatorPending then "pending"
  else if s = validatorActive then "active"
  else if s = validatorJailed then "jailed"
  else if s = validatorUnstaking then "unstaking"
  else if s = validatorRemoved then "removed"
  else s!"unknown({s})"

def allowedTransitions (from' : ValidatorStatus) : List ValidatorStatus :=
  if from' = validatorPending then [validatorActive]
  else if from' = validatorActive then [validatorJailed, validatorUnstaking]
  else if from' = validatorJailed then [validatorActive]
  else if from' = validatorUnstaking then [validatorRemoved]
  else []

def isValidTransition (from' to' : ValidatorStatus) : Bool :=
  (allowedTransitions from').contains to'

def errInvalidTransition : Error := .new "invalid validator status transition"
def errValidatorNotFound : Error := .new "validator not found"
def errValidatorJailed : Error := .new "validator is jailed"
def errValidatorNotPending : Error := .new "validator is not pending"
def errValidatorNotUnstaking : Error := .new "validator is not unstaking"

structure Validator where
  consensusID : Address
  publicKey : PublicKey
  operatorAddress : Address
  rewardAddress : Address
  bondedStake : Amount
  status : ValidatorStatus
  commissionRate : UInt16
  votingPower : UInt64
  jailedUntil : UInt64
  activationEpoch : UInt64
  unstakeEpoch : UInt64
  deriving DecidableEq

namespace Validator

def transitionTo (v : Validator) (newStatus : ValidatorStatus) : Except Error Validator :=
  if isValidTransition v.status newStatus then .ok { v with status := newStatus }
  else .error (.detail errInvalidTransition
    s!"{statusString v.status} -> {statusString newStatus}")

def encode (v : Validator) : Bytes :=
  v.consensusID.bytes ++ (v.publicKey.bytes ++ (v.operatorAddress.bytes ++
    (v.rewardAddress.bytes ++ (v.bondedStake.bytes16 ++ ([v.status] ++
    (beBytes 2 v.commissionRate.toNat ++ (putUint64 v.votingPower ++ (putUint64 v.jailedUntil ++
    (putUint64 v.activationEpoch ++ putUint64 v.unstakeEpoch)))))))))

def decode : Reader Validator := do
  let consensusID ← readFixed 20
  let publicKey ← readFixed 32
  let operatorAddress ← readFixed 20
  let rewardAddress ← readFixed 20
  let stakeBuf ← readFull 16
  let bondedStake ← ofResult (Amount.unmarshalBinary stakeBuf)
  let status ← readBE 1
  let commissionRate ← readBE 2
  let votingPower ← readUint64
  let jailedUntil ← readUint64
  let activationEpoch ← readUint64
  let unstakeEpoch ← readUint64
  return {
    consensusID, publicKey, operatorAddress, rewardAddress, bondedStake
    status := UInt8.ofNat status
    commissionRate := UInt16.ofNat commissionRate
    votingPower, jailedUntil, activationEpoch, unstakeEpoch }

theorem decode_encode (v : Validator) : Reads decode v.encode v := by
  have hc : v.commissionRate.toNat < 256 ^ 2 := v.commissionRate.toNat_lt
  refine (Reads.readFixed v.consensusID).bind ?_
  refine (Reads.readFixed v.publicKey).bind ?_
  refine (Reads.readFixed v.operatorAddress).bind ?_
  refine (Reads.readFixed v.rewardAddress).bind ?_
  refine v.bondedStake.reads_bytes16.bind ?_
  rw [Amount.unmarshalBinary_bytes16]
  refine (Reads.pure v.bondedStake).nil_bind ?_
  refine (Reads.byte v.status).bind ?_
  refine (Reads.readBE hc).bind ?_
  refine (Reads.readUint64 v.votingPower).bind ?_
  refine (Reads.readUint64 v.jailedUntil).bind ?_
  refine (Reads.readUint64 v.activationEpoch).bind ?_
  refine (Reads.readUint64 v.unstakeEpoch).bind_pure ?_
  rw [UInt8.ofNat_toNat, UInt16.ofNat_toNat]
  exact Reads.pure v

end Validator

/-! ### Counters -/

def readCounter (key : Bytes) (default : UInt64) (s : InMemoryState) : Except Error UInt64 :=
  match s.getBytes key with
  | none => .ok default
  | some val => getUint64 val

def validatorCount (s : InMemoryState) : Except Error UInt64 := readCounter keyValidatorCount 0 s

def currentEpoch (s : InMemoryState) : Except Error UInt64 := readCounter keyCurrentEpoch 0 s

theorem readCounter_congr {key : Bytes} (h : s'.getBytes key = s.getBytes key) (d : UInt64) :
    readCounter key d s' = readCounter key d s := by
  unfold readCounter
  rw [h]

theorem validatorCount_congr (h : s'.getBytes keyValidatorCount = s.getBytes keyValidatorCount) :
    validatorCount s' = validatorCount s :=
  readCounter_congr h 0

theorem currentEpoch_congr (h : s'.getBytes keyCurrentEpoch = s.getBytes keyCurrentEpoch) :
    currentEpoch s' = currentEpoch s :=
  readCounter_congr h 0

def setCurrentEpoch (epoch : UInt64) : Exec InMemoryState Unit :=
  modify (setBytes keyCurrentEpoch (putUint64 epoch))

def totalBonded (s : InMemoryState) : Except Error Amount :=
  match s.getBytes keyTotalBonded with
  | none => .ok (.ofUInt64 0)
  | some val => Amount.unmarshalBinary val

def setTotalBonded (amt : Amount) : Exec InMemoryState Unit :=
  modify (setBytes keyTotalBonded amt.marshalBinary)

/-! ### Records -/

section

variable [Crypto]

def getValidator (consensusID : Address) (s : InMemoryState) : Except Error Validator :=
  match s.getBytes (validatorKey consensusID) with
  | none => .error (.detail errValidatorNotFound s!"consensus ID {addressString consensusID}")
  | some val => decodeFrom Validator.decode val

def stakeToUint64 (stake : Amount) : UInt64 :=
  let data := stake.marshalBinary
  let data := if data.length > 8 then data.drop (data.length - 8) else data
  data.foldl (fun val b => (val <<< 8) ||| b.toUInt64) 0

section

omit [Crypto]

theorem shiftByte_toNat (v : UInt64) (b : UInt8) :
    ((v <<< 8) ||| b.toUInt64).toNat = (v.toNat * 256 + b.toNat) % 2 ^ 64 := by
  have hb : b.toNat < 2 ^ 8 := b.toNat_lt
  have hmod : b.toNat % 2 ^ 64 = b.toNat := Nat.mod_eq_of_lt (hb.trans (by norm_num))
  have hor : (v.toNat <<< 8 ||| b.toNat) % 2 ^ 64 = v.toNat <<< 8 % 2 ^ 64 ||| b.toNat := by
    rw [Nat.or_mod_two_pow, hmod]
  show v.toNat <<< 8 % 2 ^ 64 ||| b.toNat = _
  rw [← hor, ← Nat.shiftLeft_add_eq_or_of_lt hb, Nat.shiftLeft_eq]

theorem foldl_shiftByte_toNat (data : Bytes) {v : UInt64} {n : ℕ} (h : v.toNat = n % 2 ^ 64) :
    (data.foldl (fun (val : UInt64) b => (val <<< 8) ||| b.toUInt64) v).toNat =
      data.foldl (fun a x => a * 256 + x.toNat) n % 2 ^ 64 := by
  induction data generalizing v n with
  | nil => exact h
  | cons b data ih =>
    refine ih ?_
    rw [shiftByte_toNat, h]
    show _ = (n * 256 + b.toNat) % 2 ^ 64
    omega

theorem stakeToUint64_toNat (stake : Amount) :
    (stakeToUint64 stake).toNat = stake.val % 2 ^ 64 := by
  have hlow (data : Bytes) : beNat (if data.length > 8 then data.drop (data.length - 8) else data) %
      2 ^ 64 = beNat data % 2 ^ 64 := by
    split_ifs with h
    · have hlen : (data.drop (data.length - 8)).length = 8 := by
        rw [List.length_drop]
        omega
      have hsplit := beNat_append (data.take (data.length - 8)) (data.drop (data.length - 8))
      rw [List.take_append_drop, hlen] at hsplit
      rw [hsplit]
      norm_num [Nat.add_mod, Nat.mul_mod]
    · rfl
  unfold stakeToUint64
  rw [foldl_shiftByte_toNat (n := 0) _ rfl]
  refine (hlow _).trans ?_
  rw [Amount.beNat_marshalBinary]

omit [Crypto] in
theorem stakeToUint64_ofUInt64 (v : UInt64) : stakeToUint64 (.ofUInt64 v) = v := by
  apply UInt64.toNat_inj.1
  rw [stakeToUint64_toNat, Amount.ofUInt64_val, Nat.mod_eq_of_lt v.toNat_lt]

end

def updateValidator (v : Validator) : Exec InMemoryState Unit :=
  let v := { v with
    votingPower := if v.status = validatorActive then stakeToUint64 v.bondedStake else 0 }
  modify (setBytes (validatorKey v.consensusID) v.encode)

/-! ### The active set -/

def getValidatorIDBySeq (seq : UInt64) (s : InMemoryState) : Except Error Address :=
  match s.getBytes (validatorBySeqKey seq) with
  | none => .error (.detail errValidatorNotFound s!"sequence {seq}")
  | some idBytes => .ok (FixedBytes.copy 20 idBytes)

def sequence (count : UInt64) : List UInt64 :=
  (List.range count.toNat).map fun i => UInt64.ofNat (i + 1)

def validatorAt (s : InMemoryState) (seq : UInt64) : Option (Address × Validator) :=
  match getValidatorIDBySeq seq s with
  | .error _ => none
  | .ok consensusID =>
    match getValidator consensusID s with
    | .error _ => none
    | .ok v => some (consensusID, v)

def validatorLess (a b : Validator) : Bool :=
  if a.votingPower ≠ b.votingPower then decide (a.votingPower > b.votingPower)
  else (compare a.consensusID b.consensusID).isLT

def getActiveValidators (s : InMemoryState) : Except Error (List Validator) := do
  let count ← validatorCount s
  let active := (sequence count).filterMap fun seq =>
    match validatorAt s seq with
    | some (_, v) => if v.status = validatorActive then some v else none
    | none => none
  return sortSlice validatorLess active

section

variable (h : ∀ key, str "validator/" <+: key → s'.getBytes key = s.getBytes key)
include h

theorem validatorAt_congr (seq : UInt64) : validatorAt s' seq = validatorAt s seq := by
  have hseq : s'.getBytes (validatorBySeqKey seq) = s.getBytes (validatorBySeqKey seq) :=
    h _ ((by decide : str "validator/" <+: str "validator/by-seq/").trans (List.prefix_append _ _))
  have hval (id : Address) : getValidator id s' = getValidator id s := by
    unfold getValidator
    rw [h (validatorKey id) (List.prefix_append _ _)]
  unfold validatorAt getValidatorIDBySeq
  simp only [hseq, hval]

theorem getActiveValidators_congr : getActiveValidators s' = getActiveValidators s := by
  have hcount : validatorCount s' = validatorCount s := by
    unfold validatorCount readCounter
    rw [h _ (by decide)]
  unfold getActiveValidators
  simp only [hcount, validatorAt_congr h]

end

theorem getActiveValidators_setBytes {key : Bytes} (h : ¬ str "validator/" <+: key) (value : Bytes)
    (s : InMemoryState) : getActiveValidators (s.setBytes key value) = getActiveValidators s := by
  refine getActiveValidators_congr fun a ha => getBytes_setBytes_of_ne ?_ value s
  rintro rfl
  exact h ha

/-! ### Status changes -/

def activateValidator (consensusID : Address) (epoch : UInt64) : Exec InMemoryState Unit := do
  let v ← asks (getValidator consensusID)
  failIf (v.status ≠ validatorPending) (.detail errValidatorNotPending
    s!"validator {addressString consensusID} is {statusString v.status}")
  let v ← ofResult (v.transitionTo validatorActive)
  updateValidator { v with activationEpoch := epoch }

def unjailValidator (consensusID : Address) : Exec InMemoryState Unit := do
  let v ← asks (getValidator consensusID)
  failIf (v.status ≠ validatorJailed) (.detail errValidatorJailed
    s!"validator {addressString consensusID} is not jailed")
  let v ← ofResult (v.transitionTo validatorActive)
  updateValidator { v with jailedUntil := 0 }

def removeValidator (consensusID : Address) : Exec InMemoryState Unit := do
  let v ← asks (getValidator consensusID)
  failIf (v.status ≠ validatorUnstaking) (.detail errValidatorNotUnstaking
    s!"validator {addressString consensusID} is {statusString v.status}")
  let v ← ofResult (v.transitionTo validatorRemoved)
  let total ← asks totalBonded
  let newTotal ← ofResult (total.sub v.bondedStake)
  setTotalBonded newTotal
  modify (deleteBytes (validatorPubkeyKey v.publicKey))
  modify (deleteBytes (validatorOperatorKey v.operatorAddress))
  updateValidator v

def releaseStake (consensusID : Address) : Exec InMemoryState Unit := do
  let v ← asks (getValidator consensusID)
  failIf (v.status ≠ validatorUnstaking) (.detail errValidatorNotUnstaking
    s!"validator {addressString consensusID} is {statusString v.status}")
  let _ ← wrapErr "validator account not found" (asks (getAccount v.operatorAddress))
  addBalance v.operatorAddress v.bondedStake
  removeValidator consensusID

end

/-! ### A registry with one validator -/

def singleRegistry (v : Validator) : InMemoryState :=
  ((newInMemoryState.setBytes keyValidatorCount (putUint64 1)).setBytes (validatorBySeqKey 1)
    v.consensusID.bytes).setBytes (validatorKey v.consensusID) v.encode

theorem validatorKey_length (id : Address) : (validatorKey id).length = 50 := by
  simp [validatorKey, show (str "validator/").length = 10 by decide]

theorem getActiveValidators_singleRegistry [Crypto] (v : Validator)
    (hv : v.status = validatorActive) : getActiveValidators (singleRegistry v) = .ok [v] := by
  have hne1 : validatorKey v.consensusID ≠ keyValidatorCount := fun h => by
    have := congrArg List.length h
    rw [validatorKey_length] at this
    exact absurd this (by decide)
  have hne2 : validatorKey v.consensusID ≠ validatorBySeqKey 1 := fun h => by
    have := congrArg List.length h
    rw [validatorKey_length] at this
    exact absurd this (by decide)
  have hcount : validatorCount (singleRegistry v) = .ok 1 := by
    have hget : (singleRegistry v).getBytes keyValidatorCount = some (putUint64 1) := by
      unfold singleRegistry
      rw [getBytes_setBytes_of_ne hne1, getBytes_setBytes_of_ne (by decide), getBytes_setBytes_self]
    unfold validatorCount readCounter
    rw [hget]
    exact getUint64_putUint64 1
  have hid : getValidatorIDBySeq 1 (singleRegistry v) = .ok v.consensusID := by
    unfold getValidatorIDBySeq singleRegistry
    rw [getBytes_setBytes_of_ne hne2]
    simp
  have hval : getValidator v.consensusID (singleRegistry v) = .ok v := by
    unfold getValidator singleRegistry
    rw [getBytes_setBytes_self]
    exact decodeFrom_of_reads v.decode_encode
  have hat : validatorAt (singleRegistry v) 1 = some (v.consensusID, v) := by
    simp [validatorAt, hid, hval]
  have hseq : sequence 1 = [1] := by decide
  simp [getActiveValidators, hcount, hseq, hat, hv, sortSlice]

def sampleValidator : Validator where
  consensusID := zeroAddress
  publicKey := FixedBytes.zero 32
  operatorAddress := zeroAddress
  rewardAddress := zeroAddress
  bondedStake := .ofUInt64 1
  status := validatorActive
  commissionRate := 0
  votingPower := 1
  jailedUntil := 0
  activationEpoch := 1
  unstakeEpoch := 0

end Dsn
