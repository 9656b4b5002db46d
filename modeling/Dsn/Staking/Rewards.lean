import Dsn.Staking.Snapshot

/-!
# `staking`: fees, inflation and rewards

Splitting of fees and of the issuance of an epoch.
-/

namespace Dsn

open Go InMemoryState

/-! ### Proportional shares -/

def splitRewards (amount totalPower : UInt64) (validators : List Validator) : List UInt64 :=
  let portions := validators.map fun v => amount * v.votingPower / totalPower
  -- wraps when the floor shares come to more than the amount, after an overflow
  let remainder := amount - sumUint64 id portions
  match portions with
  | [] => []
  | top :: rest => (if remainder > 0 then top + remainder else top) :: rest

def payReward (addr : Address) (reward : UInt64) : Exec InMemoryState Unit :=
  if reward = 0 then pure () else credit addr (.ofUInt64 reward)

/-! ### Fees -/

def amountFraction (amount : Amount) (numerator denominator : UInt64) : Amount :=
  .ofUInt64 (stakeToUint64 amount * numerator / denominator)

section

variable [Crypto]

def distributeRewards (totalFees : Amount) : Exec InMemoryState (Amount × Amount × Amount) := do
  let validatorShare := amountFraction totalFees 70 100
  let burnShare := amountFraction totalFees 20 100
  let treasuryShare := amountFraction totalFees 10 100
  if totalFees.isZero then
    return (.ofUInt64 0, .ofUInt64 0, .ofUInt64 0)
  let active ← asks getActiveValidators
  if active.length = 0 ∨ validatorShare.isZero then
    return (validatorShare, burnShare, treasuryShare)
  let totalPower := sumUint64 Validator.votingPower active
  if totalPower = 0 then
    return (validatorShare, burnShare, treasuryShare)
  let rewards := splitRewards (stakeToUint64 validatorShare) totalPower active
  (active.zip rewards).forM fun (v, reward) => payReward v.operatorAddress reward
  return (validatorShare, burnShare, treasuryShare)

end

/-! ### Inflation -/

def readUint64Key (key : Bytes) (s : InMemoryState) : UInt64 :=
  match s.getBytes key with
  | none => 0
  | some val => if val.length < 8 then 0 else UInt64.ofNat (beNat (val.take 8))

def writeUint64Key (key : Bytes) (val : UInt64) : Exec InMemoryState Unit :=
  modify (setBytes key (putUint64 val))

def secondsPerYear : UInt64 := 31536000

def epochsPerYear (blockTimeSec blocksPerEpoch : UInt64) : Except Error UInt64 :=
  quo secondsPerYear (blockTimeSec * blocksPerEpoch)

def perEpochIssuance (totalSupply blockTimeSec blocksPerEpoch : UInt64) : Except Error UInt64 := do
  let epochs ← epochsPerYear blockTimeSec blocksPerEpoch
  if epochs = 0 then return 0
  let denom := (epochs * 10000).toNat
  if denom = 0 then throw (.panic "division by zero")
  let result := totalSupply.toNat * 500 / denom
  return if result < 2 ^ 64 then UInt64.ofNat result else 0

def treasuryAddress : Address := zeroAddress

def creditTreasury [Crypto] (amount : UInt64) : Exec InMemoryState Unit := do
  if amount = 0 then pure () else
    let s ← get
    writeUint64Key keyTreasurySupply (readUint64Key keyTreasurySupply s + amount)
    wrapErr "add treasury balance" (credit treasuryAddress (.ofUInt64 amount))

def issueEpochTokens [Crypto] (epoch blockTimeSec blocksPerEpoch : UInt64) :
    Exec InMemoryState UInt64 := do
  let totalSupply := readUint64Key keyTotalSupply (← get)
  let issuance ← ofResult (perEpochIssuance totalSupply blockTimeSec blocksPerEpoch)
  if issuance = 0 then return 0
  let treasuryAmount := issuance * 10 / 100
  let validatorAmount := issuance * 90 / 100
  wrapErr "credit treasury" (creditTreasury treasuryAmount)
  writeUint64Key keyTotalSupply (totalSupply + issuance)
  writeUint64Key keyIssuedSupply (readUint64Key keyIssuedSupply (← get) + issuance)
  writeUint64Key (epochIssuanceKey epoch) issuance
  writeUint64Key (epochValidatorPoolKey epoch) validatorAmount
  return issuance

def rewardDestination (v : Validator) : Address :=
  if v.rewardAddress = zeroAddress then v.operatorAddress else v.rewardAddress

def distributeValidatorRewards [Crypto] (epoch : UInt64) : Exec InMemoryState Unit := do
  let amount := readUint64Key (epochValidatorPoolKey epoch) (← get)
  if amount = 0 then return
  let snapshotEpoch := epoch - 1
  if snapshotEpoch = 0 then return
  match ← wrapErr s!"get snapshot for epoch {snapshotEpoch}" (asks (getSnapshot snapshotEpoch)) with
  | none => return
  | some snap =>
    if snap.validators.length = 0 ∨ snap.totalPower = 0 then return
    let rewards := splitRewards amount snap.totalPower snap.validators
    (snap.validators.zip rewards).forM fun (v, reward) =>
      wrapErr s!"reward to {addressString (rewardDestination v)}"
        (payReward (rewardDestination v) reward)

/-! ### Where rewards are written -/

theorem payReward_keys {texts : List Bytes} (addr : Address) (reward : UInt64) :
    Steps (SameOutside texts) (payReward addr reward) :=
  Steps.ite (Steps.pure _) (credit_keys _ _)

theorem issueEpochTokens_keys [Crypto] (epoch blockTimeSec blocksPerEpoch : UInt64) :
    Steps (SameOutside [str "economics/"])
      (issueEpochTokens epoch blockTimeSec blocksPerEpoch) := by
  have hkey : str "economics/" ∈ [str "economics/"] := List.mem_singleton_self _
  have hwrite {key : Bytes} (h : str "economics/" <+: key) (val : UInt64) :
      Steps (SameOutside [str "economics/"]) (writeUint64Key key val) :=
    setBytes_keys ⟨_, hkey, h⟩ _
  refine Steps.get.bind fun s => (Steps.ofResult _).bind fun issuance => ?_
  refine Steps.ite (Steps.pure _) (Steps.bind ?_ fun _ => ?_)
  · refine Steps.wrapErr _ (Steps.ite (Steps.pure _) (Steps.get.bind fun s => ?_))
    exact (hwrite (by decide) _).bind fun _ => (credit_keys _ _).wrapErr _
  refine (hwrite (by decide) _).bind fun _ => Steps.get.bind fun s => ?_
  refine (hwrite (by decide) _).bind fun _ => ?_
  refine (hwrite ?_ _).bind fun _ => (hwrite ?_ _).bind fun _ => Steps.pure _
  · exact (by decide : str "economics/" <+: str "economics/epoch_issuance/").trans
      (List.prefix_append _ _)
  · exact (by decide : str "economics/" <+: str "economics/epoch_validator_pool/").trans
      (List.prefix_append _ _)

theorem distributeValidatorRewards_keys [Crypto] {texts : List Bytes} (epoch : UInt64) :
    Steps (SameOutside texts) (distributeValidatorRewards epoch) := by
  refine Steps.get.bind fun s => Steps.ite (Steps.pure _) (Steps.ite (Steps.pure _) ?_)
  refine ((Steps.asks _).wrapErr _).bind fun snap => ?_
  cases snap with
  | none => exact Steps.pure _
  | some snap =>
    exact Steps.ite (Steps.pure _) (Steps.forM (fun _ => (payReward_keys _ _).wrapErr _) _)

end Dsn
