import Dsn.Consensus.CommitProof
import Dsn.Consensus.System
import Dsn.State.Applier
import Dsn.VM.VM

/-!
# `consensus`: building and validating blocks

`BuildBlock` and `ValidateBlock`, check by check and with the texts of their errors.
-/

namespace Dsn

open Go InMemoryState

variable [Crypto]

def errEventsRootMismatch : Error := .new "events root mismatch"
def errWrongHeight : Error := .new "block height does not follow parent"
def errWrongPreviousHash : Error := .new "previous hash mismatch"
def errWrongProposer : Error := .new "wrong proposer for this height"
def errInvalidSignature : Error := .new "block signature is invalid"
def errWrongValidatorRoot : Error := .new "validator root mismatch"
def errStateRootMismatch : Error := .new "state root mismatch"
def errTxRootMismatch : Error := .new "transaction root mismatch"
def errFeeSummaryMismatch : Error := .new "fee summary mismatch"
def errWrongEpoch : Error := .new "epoch mismatch"

/-! ### Transactions -/

def chargeGas (sender : Address) (gasUsed : UInt64) : Exec InMemoryState Unit := do
  let gasCost := Amount.ofUInt64 gasUsed
  let acc ← wrapErr "get sender account" (asks (getAccount sender))
  failIf (acc.balance.val < gasCost.val)
    (.new s!"insufficient balance for gas: have {acc.balance.val}, need {gasCost.val}")
  subBalance sender gasCost

def chargeGasForValidate (sender : Address) (gasUsed : UInt64) : Exec InMemoryState Unit :=
  chargeGas sender gasUsed

structure ContractCall where
  vm : VM
  kind : String
  decoded : Except Error ContractTx

def contractCall (vm : Option VM) (tx : Transaction) : Option ContractCall :=
  match vm with
  | none => none
  | some vm =>
    if tx.txType = txTypeDeployContract then some ⟨vm, "deploy", tx.deployContract.map .deploy⟩
    else if tx.txType = txTypeCallContract then some ⟨vm, "call", tx.callContract.map .call⟩
    else none

def runContract (c : ContractCall) (height timestamp : UInt64) (txIndex : UInt32) :
    Exec InMemoryState ExecutionResult := do
  let contractTx ← wrapErr s!"decode {c.kind} contract" (ofResult c.decoded)
  wrapErr s!"vm execute {c.kind}" do
    let (result, err) ← c.vm.execute contractTx height timestamp txIndex
    match err with
    | some e => throw e
    | none => return result

def keptEvents (result : ExecutionResult) : List Event :=
  if result.reverted then [] else result.events

/-! ### Roots -/

def computeTxRoot (txs : List Transaction) : Hash :=
  if txs.length = 0 then zeroHash
  else sha256 (txs.flatMap fun tx => (sha256 (written tx.encode)).bytes)

def computeHashesRoot (hashes : List Hash) : Hash :=
  if hashes.length = 0 then zeroHash else sha256 (hashes.flatMap FixedBytes.bytes)

/-! ### Building -/

/-- What the builder accumulates. -/
structure BuildAcc where
  totalFees : UInt64
  receipts : List Hash
  blockEvents : List Event

def buildStep (vm : Option VM) (height blockTimestamp now : UInt64) (i : ℕ) (tx : Transaction)
    (acc : BuildAcc) : Exec InMemoryState BuildAcc :=
  match contractCall vm tx with
  | some c => do
    let result ← runContract c height blockTimestamp (UInt32.ofNat i)
    wrapErr "charge gas" (chargeGas tx.sender result.gasUsed)
    return ⟨acc.totalFees + tx.maxFee, acc.receipts ++ [tx.intentID],
      acc.blockEvents ++ keptEvents result⟩
  | none => do
    let receipt ← applyTransaction now tx
    return ⟨acc.totalFees + tx.maxFee, acc.receipts ++ [receipt], acc.blockEvents⟩

def buildLoop (vm : Option VM) (height blockTimestamp : UInt64) (now : ℕ → UInt64) (i : ℕ)
    (acc : BuildAcc) : List Transaction → Exec InMemoryState BuildAcc
  | [] => pure acc
  | tx :: rest => do
    let acc ← buildStep vm height blockTimestamp (now i) i tx acc
    buildLoop vm height blockTimestamp now (i + 1) acc rest

def takeTxs (pending : List Transaction) (maxTxs : ℤ) : Except Error (List Transaction) :=
  if (pending.length : ℤ) > maxTxs then
    if maxTxs < 0 then .error (.panic "slice bounds out of range")
    else .ok (pending.take maxTxs.toNat)
  else .ok pending

def txLess (a b : Transaction) : Bool :=
  if a.sender ≠ b.sender then (compare a.sender b.sender).isLT else decide (a.nonce < b.nonce)

/-- The clock readings of `BuildBlock`. -/
structure BuildClock where
  execTime : UInt64
  txTime : ℕ → UInt64
  headerTime : UInt64

structure BuildInput where
  vm : Option VM
  pending : List Transaction
  height : UInt64
  prevHash : Hash
  proposer : Address
  sign : Hash → Except Error Bytes
  maxTxs : ℤ
  evidence : List Evidence
  clock : BuildClock

def consensusIDs (vals : List Validator) : List Address := vals.map Validator.consensusID

def buildBlock (inp : BuildInput) : Exec InMemoryState Block := do
  processBlockEvidence inp.evidence inp.height
  let (epoch, valSetHash) ← wrapErr "begin block" (beginBlock inp.height)
  let txs ← ofResult (takeTxs inp.pending inp.maxTxs)
  let txList := sortSlice txLess txs
  -- contracts see this reading of the clock, the header gets a later one
  let acc ← buildLoop inp.vm inp.height inp.clock.execTime inp.clock.txTime 0 ⟨0, [], []⟩ txList
  wrapErr "finalize block" (finalizeBlock (newFeeSummary acc.totalFees))
  let stateRoot ← commit
  -- the active set after the transactions; the validator checks the one before them
  let activeVals ← wrapErr "get active validators" (asks getActiveValidators)
  let header : BlockHeader := {
    version := 1
    height := inp.height
    previousHash := inp.prevHash
    stateRoot := stateRoot
    txRoot := computeTxRoot txList
    receiptRoot := computeHashesRoot acc.receipts
    validatorRoot := validatorRoot (consensusIDs activeVals)
    validatorSetHash := valSetHash
    epoch := epoch
    timestamp := inp.clock.headerTime
    proposer := inp.proposer
    eventsRoot := zeroHash }
  let sig ← ofResult (inp.sign header.headerHash)
  return {
    header := header
    transactions := txList
    feeSummary := newFeeSummary acc.totalFees
    signature := sig
    commitProof := none
    events := acc.blockEvents
    evidence := inp.evidence }

/-! ### Validating -/

/-- What the validator accumulates. -/
structure ValidateAcc where
  totalFees : UInt64
  allEvents : List Event

def validateStep (vm : Option VM) (height blockTimestamp now : UInt64) (i : ℕ) (tx : Transaction)
    (acc : ValidateAcc) : Exec InMemoryState ValidateAcc :=
  match contractCall vm tx with
  | some c => do
    let result ← runContract c height blockTimestamp (UInt32.ofNat i)
    let allEvents := acc.allEvents ++ keptEvents result
    wrapErr "charge gas" (chargeGasForValidate tx.sender result.gasUsed)
    return ⟨acc.totalFees + tx.maxFee, allEvents⟩
  | none => do
    let _ ← wrapErr s!"tx {hexText tx.intentID}" (applyTransaction now tx)
    return ⟨acc.totalFees + tx.maxFee, acc.allEvents⟩

def validateLoop (vm : Option VM) (height blockTimestamp : UInt64) (now : ℕ → UInt64) (i : ℕ)
    (acc : ValidateAcc) : List Transaction → Exec InMemoryState ValidateAcc
  | [] => pure acc
  | tx :: rest => do
    let acc ← validateStep vm height blockTimestamp (now i) i tx acc
    validateLoop vm height blockTimestamp now (i + 1) acc rest

def verifyHeader (block : Block) (s : InMemoryState) : Except Error UInt64 := do
  let activeVals ← (getActiveValidators s).mapError (Error.within "get active validators")
  -- the error is dropped in the source, but the function only ever panics
  let expectedEpoch ← currentEpoch s
  check (block.header.epoch ≠ expectedEpoch)
    (.detail errWrongEpoch s!"expected {expectedEpoch}, got {block.header.epoch}")
  -- a snapshot that cannot be read counts as missing
  match getSnapshot expectedEpoch s with
  | .ok (some snap) =>
    check (block.header.validatorSetHash ≠ snap.setHash)
      (.detail errWrongValidatorSetHash
        s!"expected {hexText snap.setHash}, got {hexText block.header.validatorSetHash}")
    if activeVals.length > 0 then
      let expectedProposer ← weightedProposerAtHeight block.header.height activeVals
      check (block.header.proposer ≠ expectedProposer)
        (.detail errWrongProposer
          s!"expected {hexText expectedProposer}, got {hexText block.header.proposer}")
      let expectedValRoot := validatorRoot (consensusIDs activeVals)
      check (block.header.validatorRoot ≠ expectedValRoot)
        (.detail errWrongValidatorRoot
          s!"expected {hexText expectedValRoot}, got {hexText block.header.validatorRoot}")
      check (block.signature.length = 0) errInvalidSignature
      return expectedEpoch
    else throw (.detail errWrongProposer "no active validators in state")
  | _ => throw (.new s!"no snapshot for epoch {expectedEpoch}")

def executeBlock (block : Block) (vm : Option VM) (now : ℕ → UInt64) :
    Exec InMemoryState (UInt64 × ValidateAcc) := do
  processBlockEvidence block.evidence block.header.height
  let _ ← wrapErr "begin block" (beginBlock block.header.height)
  let expectedEpoch ← asks (verifyHeader block)
  let acc ← validateLoop vm block.header.height block.header.timestamp now 0 ⟨0, []⟩
    block.transactions
  wrapErr "finalize block" (finalizeBlock (newFeeSummary acc.totalFees))
  return (expectedEpoch, acc)

/-- The checks of `ValidateBlock` that follow the execution. -/
def checkOutcome (block : Block) (expectedEpoch : UInt64) (acc : ValidateAcc) :
    Exec InMemoryState Unit := do
  let computedEventsRoot := computeEventsRoot acc.allEvents
  failIf (computedEventsRoot ≠ block.header.eventsRoot) (.detail errEventsRootMismatch
    s!"computed {hexText computedEventsRoot}, block has {hexText block.header.eventsRoot}")
  let stateRoot ← commit
  failIf (stateRoot ≠ block.header.stateRoot) (.detail errStateRootMismatch
    s!"computed {hexText stateRoot}, block has {hexText block.header.stateRoot}")
  let txRoot := computeTxRoot block.transactions
  failIf (txRoot ≠ block.header.txRoot) (.detail errTxRootMismatch
    s!"computed {hexText txRoot}, block has {hexText block.header.txRoot}")
  let expectedFees := newFeeSummary acc.totalFees
  failIf (expectedFees ≠ block.feeSummary) (.detail errFeeSummaryMismatch
    s!"computed TotalFees={expectedFees.totalFees}, block has {block.feeSummary.totalFees}")
  wrapErr "commit proof" (asks fun s => validateCommitProof block s expectedEpoch)

/-- It works on the state in place: a refused block leaves its writes. -/
def validateBlock (block : Block) (parentHeader : BlockHeader) (expectedPrevHash : Hash)
    (vm : Option VM) (now : ℕ → UInt64) : Exec InMemoryState Unit := do
  failIf (block.header.height ≠ parentHeader.height + 1) (.detail errWrongHeight
    s!"expected {parentHeader.height + 1}, got {block.header.height}")
  failIf (block.header.height > 0 ∧ block.header.previousHash ≠ expectedPrevHash)
    (.detail errWrongPreviousHash
      s!"expected {hexText expectedPrevHash}, got {hexText block.header.previousHash}")
  let (expectedEpoch, acc) ← executeBlock block vm now
  checkOutcome block expectedEpoch acc

end Dsn
