import Dsn.Staking.Rewards

/-!
# `staking`: epochs and slashing

Epoch transitions and `ApplySlash`, with the parameters read from the state.
-/

namespace Dsn

open Go InMemoryState

/-! ### The epoch clock -/

def blocksPerEpoch (s : InMemoryState) : Except Error UInt64 := readCounter keyBlocksPerEpoch 100 s

def epochAtHeight (height : UInt64) (s : InMemoryState) : Except Error UInt64 := do
  if height = 0 then return 0
  let bpe ← blocksPerEpoch s
  return (← quo (height - 1) bpe) + 1

def isEpochBoundary (height : UInt64) (s : InMemoryState) : Except Error Bool := do
  if height = 0 then return false
  let bpe ← blocksPerEpoch s
  return (← rem height bpe) = 0

variable [Crypto]

def forEachValidator (count : UInt64) (p : Validator → Bool)
    (act : Address → Exec InMemoryState Unit) : Exec InMemoryState Unit :=
  (sequence count).forM fun seq => do
    let s ← get
    match validatorAt s seq with
    | none => pure ()
    | some (consensusID, v) => if p v then act consensusID else pure ()

def processEpochTransition (height : UInt64) : Exec InMemoryState Unit := do
  let epoch ← asks currentEpoch
  let nextEpoch := epoch + 1
  let expectedEpoch ← asks (epochAtHeight height)
  failIf (expectedEpoch ≠ nextEpoch) (.new
    s!"epoch mismatch: height {height} is at epoch {expectedEpoch}, expected next epoch {nextEpoch}")
  let count ← asks validatorCount
  forEachValidator count
    (fun v => decide (v.status = validatorPending ∧ v.activationEpoch = nextEpoch))
    (fun id => wrapErr s!"activate validator {addressString id}" (activateValidator id nextEpoch))
  forEachValidator count
    (fun v => decide (v.status = validatorUnstaking ∧ v.unstakeEpoch ≤ nextEpoch))
    (fun id => wrapErr s!"release validator {addressString id}" (releaseStake id))
  forEachValidator count
    (fun v => decide (v.status = validatorJailed ∧ v.jailedUntil ≤ nextEpoch))
    (fun id => wrapErr s!"auto-unjail validator {addressString id}" (unjailValidator id))
  setCurrentEpoch nextEpoch

/-! ### Slashing -/

structure SlashParams where
  percentDoublePrevote : UInt64
  percentDoublePrecommit : UInt64
  percentInvalidCommit : UInt64
  jailEpochs : UInt64

def defaultSlashParams : SlashParams := ⟨500, 1000, 2000, 10⟩

def getSlashParams (s : InMemoryState) : SlashParams :=
  match s.getBytes keySlashParams with
  | none => defaultSlashParams
  | some val =>
    if val.length < 32 then defaultSlashParams
    else
      let word := fun i => UInt64.ofNat (beNat ((val.drop (8 * i)).take 8))
      ⟨word 0, word 1, word 2, word 3⟩

/-- Offences with a penalty. -/
inductive SlashOffense
  | doublePrevote
  | doublePrecommit
  | invalidCommit

def offenseFromEvidence : Evidence → Except Error SlashOffense
  | .doubleSign e =>
    if e.voteA.voteType = votePrevote then .ok .doublePrevote
    else if e.voteA.voteType = votePrecommit then .ok .doublePrecommit
    else .error (.new
      s!"unsupported vote type in double sign: {voteTypeString e.voteA.voteType}")
  | .invalidCommit _ => .ok .invalidCommit
  | .malformedVote _ => .error (.new "malformed vote evidence is not slashable")

def slashAmount (slashPercent : UInt64) (stake : Amount) : Except Error Amount :=
  if slashPercent > 10000 then
    .error (.new s!"slash percent {slashPercent} exceeds max 10000")
  else .ok (.ofUInt64 (stakeToUint64 stake * slashPercent / 10000))

def applySlash (consensusID : Address) (slashPercent jailEpochs : UInt64) :
    Exec InMemoryState Unit := do
  let v ← asks (getValidator consensusID)
  failIf (v.status = validatorRemoved)
    (.new s!"cannot slash removed validator {addressString consensusID}")
  let amount ← ofResult (slashAmount slashPercent v.bondedStake)
  if amount.isZero then return
  let newStake ← wrapErr "slash underflow" (ofResult (v.bondedStake.sub amount))
  let v := { v with bondedStake := newStake }
  let total ← asks totalBonded
  let newTotal ← wrapErr "update total bonded" (ofResult (total.sub amount))
  setTotalBonded newTotal
  if v.status = validatorActive then
    let epoch ← asks currentEpoch
    let v ← wrapErr "jail validator" (ofResult (v.transitionTo validatorJailed))
    updateValidator { v with jailedUntil := epoch + jailEpochs }
  else
    updateValidator v

def slashValidator (consensusID : Address) (ev : Evidence) : Exec InMemoryState Unit := do
  let offense ← ofResult (offenseFromEvidence ev)
  let params := getSlashParams (← get)
  let slashPercent := match offense with
    | .doublePrevote => params.percentDoublePrevote
    | .doublePrecommit => params.percentDoublePrecommit
    | .invalidCommit => params.percentInvalidCommit
  applySlash consensusID slashPercent params.jailEpochs

end Dsn
