import Dsn.Consensus.Sealing

/-!
# Does an accepted block commit to its execution?

Of ten fields eight are checked. The receipt root and the list of events are never read, and of the
signature only whether it is empty.
-/

namespace Dsn

open Go InMemoryState

variable {block : Block} {parentHeader : BlockHeader} {expectedPrevHash : Hash} {vm : Option VM}
  {now : ℕ → UInt64} {s : InMemoryState}

section

variable [Crypto]

/-! ### The outcome of an execution -/

/-- What a block says about its execution. -/
structure Outcome where
  stateRoot : Hash
  txRoot : Hash
  receiptRoot : Hash
  validatorRoot : Hash
  validatorSetHash : Hash
  epoch : UInt64
  proposer : Address
  eventsRoot : Hash
  feeSummary : FeeSummary
  events : List Event

def epochSetHash (epoch : UInt64) (s : InMemoryState) : Except Error Hash := do
  match ← getSnapshot epoch s with
  | some snap => return snap.setHash
  | none => throw (.new s!"no snapshot for epoch {epoch}")

def outcome (ctx : TxContext) (evidence : List Evidence) (txs : List Transaction) :
    Exec InMemoryState Outcome := do
  let _ ← startBlock evidence ctx.height
  let epoch ← asks currentEpoch
  let setHash ← asks (epochSetHash epoch)
  let active ← asks getActiveValidators
  let proposer ← ofResult (weightedProposerAtHeight ctx.height active)
  let acc ← buildLoop ctx.vm ctx.height ctx.timestamp ctx.now 0 ⟨0, [], []⟩ txs
  finalizeBlock (newFeeSummary acc.totalFees)
  let stateRoot ← commit
  return {
    stateRoot := stateRoot
    txRoot := computeTxRoot txs
    receiptRoot := computeHashesRoot acc.receipts
    validatorRoot := validatorRoot (consensusIDs active)
    validatorSetHash := setHash
    epoch := epoch
    proposer := proposer
    eventsRoot := computeEventsRoot acc.blockEvents
    feeSummary := newFeeSummary acc.totalFees
    events := acc.blockEvents }

def Block.stated (block : Block) : Outcome where
  stateRoot := block.header.stateRoot
  txRoot := block.header.txRoot
  receiptRoot := block.header.receiptRoot
  validatorRoot := block.header.validatorRoot
  validatorSetHash := block.header.validatorSetHash
  epoch := block.header.epoch
  proposer := block.header.proposer
  eventsRoot := block.header.eventsRoot
  feeSummary := block.feeSummary
  events := block.events

variable {start : UInt64 × Hash} {epoch : UInt64} {rs : List TxResult}

theorem AcceptedBlock.outcome_eq {s1 s2 s3 : InMemoryState}
    (h : AcceptedBlock block parentHeader expectedPrevHash vm now s s1 s2 s3 start epoch rs) :
    outcome (block.context vm now) block.evidence block.transactions s = .ok { block.stated with
      receiptRoot := computeHashesRoot (block.transactions.map Transaction.intentID)
      events := emitted rs } (committed s3) := by
  obtain ⟨active, snap, hcheck⟩ := verifyHeader_eq_ok.1 h.header
  have hset : epochSetHash epoch s1 = .ok snap.setHash := by
    unfold epochSetHash
    rw [hcheck.snapshot_eq]
    rfl
  have hproposer : weightedProposerAtHeight (block.context vm now).height active =
      .ok block.header.proposer := hcheck.proposer_eq
  have hloop := (@buildLoop_eq_ok _ _ _ _ _ _ ⟨0, [], []⟩ _).2 ⟨rs, h.executed.loop, rfl⟩
  unfold outcome
  rw [bind_eq_ok_of h.executed.start_eq, asks_bind hcheck.epoch_eq, asks_bind hset,
    asks_bind hcheck.active_eq, ofResult_bind hproposer, bind_eq_ok_of hloop,
    bind_eq_ok_of h.executed.finish, bind_eq_ok_of (commit_eq_ok.2 ⟨rfl, rfl⟩)]
  refine pure_eq_ok.2 ⟨?_, rfl⟩
  rw [Block.stated, hcheck.headerEpoch_eq, hcheck.setHash_eq, hcheck.validatorRoot_eq,
    ← h.stateRoot_eq, ← h.txRoot_eq, ← h.eventsRoot_eq, ← h.fees_eq]
  rfl

def Block.emittedOn (block : Block) (vm : Option VM) (now : ℕ → UInt64) (s : InMemoryState) :
    List Event :=
  (block.steps vm now s).flatMap fun st => st.result.events

theorem AcceptedBlock.emittedOn_eq {s1 s2 s3 : InMemoryState}
    (h : AcceptedBlock block parentHeader expectedPrevHash vm now s s1 s2 s3 start epoch rs) :
    block.emittedOn vm now s = emitted rs := by
  unfold Block.emittedOn Block.steps emitted
  rw [h.executed.stepsOf_eq, ← (trace_of_runLoop h.executed.loop).2, List.flatMap_map]

/-- When the execution of an accepted block yields what the block states. -/
theorem accepted_block_outcome_iff {block : Block} {parentHeader : BlockHeader}
    {expectedPrevHash : Hash} {vm : Option VM} {now : ℕ → UInt64} {s s' : InMemoryState}
    (h : validateBlock block parentHeader expectedPrevHash vm now s = .ok () s') :
    outcome (block.context vm now) block.evidence block.transactions s = .ok block.stated s' ↔
      block.header.receiptRoot = computeHashesRoot (block.transactions.map Transaction.intentID) ∧
        block.events = block.emittedOn vm now s := by
  obtain ⟨s₁, s₂, s₃, start, epoch, rs, ha, rfl⟩ := validateBlock_eq_ok.1 h
  rw [ha.outcome_eq, ha.emittedOn_eq]
  constructor
  · intro heq
    have hout := (EStateM.Result.ok.inj heq).1
    exact ⟨(congrArg Outcome.receiptRoot hout).symm, (congrArg Outcome.events hout).symm⟩
  · rintro ⟨hreceipts, hevents⟩
    rw [← hreceipts, ← hevents]
    rfl

/-! ### The signature -/

def Block.withSignature (block : Block) (signature : Bytes) : Block :=
  { block with signature := signature }

/-- The signature is that of the active validator named as proposer. -/
def ProposerSigned (block : Block) (s : InMemoryState) : Prop :=
  ∃ start s₁ active v, startBlock block.evidence block.header.height s = .ok start s₁ ∧
    getActiveValidators s₁ = .ok active ∧ v ∈ active ∧ v.consensusID = block.header.proposer ∧
    ed25519Verify v.publicKey block.headerHash.bytes block.signature = true

theorem validateBlock_withSignature {t : InMemoryState} {signature signature' : Bytes}
    (hne : signature' ≠ [])
    (h : validateBlock (block.withSignature signature) parentHeader expectedPrevHash vm now s = .ok
      () t) :
    validateBlock (block.withSignature signature') parentHeader expectedPrevHash vm now s =
      .ok () t := by
  obtain ⟨s1, s2, s3, start, epoch, rs, ha, rfl⟩ := validateBlock_eq_ok.1 h
  obtain ⟨active, snap, hc⟩ := verifyHeader_eq_ok.1 ha.header
  have hheader : verifyHeader (block.withSignature signature') s1 = .ok epoch :=
    verifyHeader_eq_ok.2 ⟨active, snap, hc.active_eq, hc.epoch_eq, hc.headerEpoch_eq,
      hc.snapshot_eq, hc.setHash_eq, hc.proposer_eq, hc.validatorRoot_eq, hne⟩
  exact validateBlock_eq_ok.2 ⟨s1, s2, s3, start, epoch, rs, ⟨ha.height_eq, ha.previousHash_eq,
    ha.executed, hheader, ha.eventsRoot_eq, ha.stateRoot_eq, ha.txRoot_eq, ha.fees_eq, ha.proof⟩,
    rfl⟩

theorem not_proposerSigned_byte (block : Block) (b : UInt8) (s : InMemoryState) :
    ¬ ProposerSigned (block.withSignature [b]) s := by
  rintro ⟨-, -, -, v, -, -, -, -, hver⟩
  have hlen := of_decide_eq_true (Bool.and_eq_true_iff.1 hver).1
  exact absurd hlen (show ¬ 1 = signatureSize by decide)

/-- Accepted signatures are all the proposer's exactly when none is accepted. -/
theorem proposer_authenticated_iff {block : Block} {parentHeader : BlockHeader}
    {expectedPrevHash : Hash} {vm : Option VM} {now : ℕ → UInt64} {s : InMemoryState} :
    (∀ signature t, validateBlock (block.withSignature signature) parentHeader expectedPrevHash vm
        now s = .ok () t → ProposerSigned (block.withSignature signature) s) ↔
      ∀ t, validateBlock (block.withSignature [0]) parentHeader expectedPrevHash vm now s ≠
        .ok () t := by
  constructor
  · intro h t hval
    exact not_proposerSigned_byte block 0 s (h [0] t hval)
  · intro h signature t hval
    -- with any other signature the same contents are accepted as well
    exact absurd (validateBlock_withSignature (by decide) hval) (h t)

end

open Sample

def emptyBlock (receiptRoot : Hash) (signature : Bytes) : Block :=
  firstBlock (sampleSeal receiptRoot signature []) sampleContext [] [] (sampleLedgerBegun ∅)

theorem emptyBlock_accepted (receiptRoot : Hash) (signature : Bytes) (h : signature ≠ []) :
    validateBlock (emptyBlock receiptRoot signature) sampleParent hashA (some sampleVM) (fun _ => 0)
      (sampleLedger ∅) = .ok () (committed (sampleLedgerBegun ∅)) :=
  firstBlock_accepted receiptRoot signature [] rfl h rfl rfl

theorem accepted_block_outcome_call : ∃ block s', block.transactions = [sampleCall] ∧
    block.events ≠ [] ∧ validateBlock block sampleParent hashA sampleContext.vm sampleContext.now
      (sampleLedger sampleAccounts) = .ok () s' ∧
    outcome sampleContext [] [sampleCall] (sampleLedger sampleAccounts) = .ok block.stated s' := by
  obtain ⟨r, s₂, hrun, -, hroot⟩ := runTx_sampleCall
  have hloop := runLoop_singleton hrun
  have hval := firstBlock_accepted (computeHashesRoot [sampleCall.intentID]) [0] (emitted [r]) rfl
    (by decide) hloop rfl
  refine ⟨_, _, rfl, fun hnone => ?_, hval, (accepted_block_outcome_iff hval).2 ⟨rfl, ?_⟩⟩
  · exact hroot (by rw [show emitted [r] = [] from hnone]; rfl)
  · have hexec : Executed sampleContext [] [sampleCall] (sampleLedger sampleAccounts) _ s₂ s₂ _
        [r] := ⟨startBlock_sampleLedger sampleAccounts, hloop, rfl⟩
    show emitted [r] = (stepsOf sampleContext [] [sampleCall] _).flatMap _
    rw [hexec.stepsOf_eq, ← List.flatMap_map, (trace_of_runLoop hloop).2]
    rfl

theorem accepted_block_with_wrong_receipts : ¬ ∀ (_ : Crypto) (block : Block)
    (parentHeader : BlockHeader) (expectedPrevHash : Hash) (vm : Option VM) (now : ℕ → UInt64)
    (s s' : InMemoryState), validateBlock block parentHeader expectedPrevHash vm now s = .ok () s' →
    outcome (block.context vm now) block.evidence block.transactions s = .ok block.stated s' := by
  intro h
  have hwrong := h sampleCrypto _ _ _ _ _ _ _ (emptyBlock_accepted hashA [0]
    (by decide))
  have hright := (validateBlock_eq_ok.1 (emptyBlock_accepted hashA [0] (by decide)))
  obtain ⟨s₁, s₂, s₃, start, epoch, rs, ha, -⟩ := hright
  have hout := (EStateM.Result.ok.inj (ha.outcome_eq.symm.trans hwrong)).1
  have hroot : computeHashesRoot [] = hashA := congrArg Outcome.receiptRoot hout
  exact absurd hroot (by decide)

theorem accepted_block_not_signed : ¬ ∀ (_ : Crypto) (block : Block) (parentHeader : BlockHeader)
    (expectedPrevHash : Hash) (vm : Option VM) (now : ℕ → UInt64) (s s' : InMemoryState),
    validateBlock block parentHeader expectedPrevHash vm now s = .ok () s' →
      ProposerSigned block s := by
  intro h
  exact not_proposerSigned_byte (emptyBlock zeroHash [0]) 0 (sampleLedger ∅)
    (h sampleCrypto _ _ _ _ _ _ _ (emptyBlock_accepted zeroHash [0] (by decide)))

end Dsn
