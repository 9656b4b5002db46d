import Dsn.Consensus.Frame
import Dsn.Consensus.Threshold

/-!
# Sealing an execution into a block

Given an execution, the block whose header states its outcome is accepted. The sample blocks are
made in this way.
-/

namespace Dsn

open Go InMemoryState

section

variable [Crypto]

structure Seal where
  previousHash : Hash
  proposer : Address
  receiptRoot : Hash
  signature : Bytes
  events : List Event
  proof : CommitProof

def sealBlock (z : Seal) (ctx : TxContext) (evidence : List Evidence) (txs : List Transaction)
    (start : UInt64 × Hash) (active : List Validator) (rs : List TxResult) (s₃ : InMemoryState) :
    Block where
  header := {
    version := 1
    height := ctx.height
    previousHash := z.previousHash
    stateRoot := s₃.stateRoot
    txRoot := computeTxRoot txs
    receiptRoot := z.receiptRoot
    validatorRoot := validatorRoot (consensusIDs active)
    validatorSetHash := start.2
    epoch := start.1
    timestamp := ctx.timestamp
    proposer := z.proposer
    eventsRoot := computeEventsRoot (emitted rs) }
  transactions := txs
  feeSummary := newFeeSummary (feesFrom 0 txs)
  signature := z.signature
  commitProof := some z.proof
  events := z.events
  evidence := evidence

variable {active : List Validator}

theorem sealBlock_accepted {z : Seal} {ctx : TxContext} {evidence : List Evidence}
    {txs : List Transaction} {s s1 s2 s3 : InMemoryState} {start : UInt64 × Hash}
    {rs : List TxResult} {parentHeader : BlockHeader}
    (hexec : Executed ctx evidence txs s s1 s2 s3 start rs) (hheight : ctx.height ≠ 0)
    (hparent : ctx.height = parentHeader.height + 1) (hactive : getActiveValidators s1 = .ok active)
    (hproposer : weightedProposerAtHeight ctx.height active = .ok z.proposer)
    (hsig : z.signature ≠ [])
    (hproof : validateCommitProof (sealBlock z ctx evidence txs start active rs s3) (committed s3)
      start.1 = .ok ()) :
    validateBlock (sealBlock z ctx evidence txs start active rs s3) parentHeader z.previousHash
      ctx.vm ctx.now s = .ok () (committed s3) := by
  obtain ⟨_, t, -, hbegin⟩ := bind_eq_ok.1 hexec.start_eq
  obtain ⟨hepoch, snap, hsnap, hset⟩ := beginBlock_eq_ok hheight hbegin
  refine validateBlock_eq_ok.2 ⟨s1, s2, s3, start, start.1, rs, ⟨hparent, fun _ => rfl, hexec, ?_,
    rfl, rfl, rfl, rfl, hproof⟩, rfl⟩
  exact verifyHeader_eq_ok.2 ⟨active, snap, hactive, hepoch, rfl, hsnap, hset.symm, hproposer, rfl,
    hsig⟩

/-! ### The first block -/

theorem startBlock_first {height : UInt64} {s : InMemoryState}
    (hinside : height % 100 ≠ 0) (hbpe : s.getBytes keyBlocksPerEpoch = none)
    (hepoch : s.getBytes keyCurrentEpoch = none) (hlatest : s.getBytes keyLatestEpoch = none)
    (hsnap : s.getBytes (snapshotKey 0) = none) (hactive : getActiveValidators s = .ok active) :
    startBlock [] height s = .ok (0, computeValidatorSetHash active)
      (s.setBytes (snapshotKey 0) (snapshotOf 0 active).marshalBinary) :=
  bind_eq_ok.2 ⟨(), s, rfl, beginBlock_first hinside hbpe hepoch hlatest hsnap hactive⟩

def sampleLedger (accounts : Map Address Account) : InMemoryState :=
  ({ singleRegistry sampleValidator with accounts := accounts }.setContractMeta zeroHash
    ⟨zeroHash, zeroHash, zeroAddress, 0⟩).setCode zeroHash []

def sampleLedgerBegun (accounts : Map Address Account) : InMemoryState :=
  (sampleLedger accounts).setBytes (snapshotKey 0) (snapshotOf 0 [sampleValidator]).marshalBinary

variable (accounts : Map Address Account)
include accounts

theorem getActiveValidators_sampleLedger :
    getActiveValidators (sampleLedger accounts) = .ok [sampleValidator] := by
  unfold sampleLedger setCode setContractMeta
  exact (getActiveValidators_congr fun _ _ => rfl).trans
    (getActiveValidators_singleRegistry sampleValidator rfl)

theorem getActiveValidators_sampleLedgerBegun :
    getActiveValidators (sampleLedgerBegun accounts) = .ok [sampleValidator] :=
  (getActiveValidators_setBytes (by decide +kernel) _ _).trans
    (getActiveValidators_sampleLedger accounts)

theorem startBlock_sampleLedger :
    startBlock [] 1 (sampleLedger accounts) =
      .ok (0, computeValidatorSetHash [sampleValidator]) (sampleLedgerBegun accounts) := by
  refine startBlock_first (by decide) ?_ ?_ ?_ ?_ (getActiveValidators_sampleLedger accounts)
  all_goals
    show (sampleLedger ∅).getBytes _ = none
    decide +kernel

end

/-! ### Blocks on the sample ledger -/

def sampleVM : VM where
  compile _ := .ok {
    imports := [(str "env", str "emit_event")]
    exports := [str "run"]
    linkError := none
    memory := some (List.replicate 1056 0)
    start := .ret ⟨fun _ _ _ => .call (.emitEvent 0 0 0 0) [] fun _ _ => .ret [0] []⟩ [] }

def sampleCall : Transaction where
  version := 1
  chainID := 1
  intentID := zeroHash
  sender := zeroAddress
  nonce := 0
  payload := List.replicate 60 0 ++ (beBytes 4 3 ++ str "run") ++ beBytes 4 0 ++ putUint64 0 ++
    putUint64 100 ++ [0]
  constraints := []
  maxFee := 0
  gasLimit := 0
  timestamp := 0
  signature := []
  txType := txTypeCallContract

def sampleContext : TxContext := ⟨some sampleVM, 1, 0, fun _ => 0⟩

open Sample

theorem headerHash_sampleCrypto (h : BlockHeader) : h.headerHash = h.previousHash := by
  apply FixedBytes.ext
  have hlen : (putUint64 h.version ++ putUint64 h.height).length = 16 := by
    simp [putUint64]
  simp only [BlockHeader.headerHash, sha256, List.append_assoc]
  rw [← List.append_assoc, ← hlen]
  simp [FixedBytes.copy]

def sampleCommit : CommitProof :=
  { roundProof 0 hashA with setHash := computeValidatorSetHash [sampleValidator] }

theorem sampleCommit_accepted {block : Block} {s : InMemoryState} {epoch : UInt64}
    (hheight : block.header.height = 1) (hprev : block.header.previousHash = hashA)
    (hproof : block.commitProof = some sampleCommit)
    (hsnap : getSnapshot epoch s = .ok (some (snapshotOf 0 [sampleValidator]))) :
    validateCommitProof block s epoch = .ok () := by
  refine (validateCommitProof_eq_ok (by rw [hheight]; decide)).2 ⟨_, _, hproof, hsnap, ?_⟩
  rw [Block.headerHash, headerHash_sampleCrypto, hheight, hprev, ← checkProof_eq_ok (u := ())]
  decide +kernel

theorem getSnapshot_sampleLedgerBegun (accounts : Map Address Account) :
    getSnapshot 0 (sampleLedgerBegun accounts) = .ok (some (snapshotOf 0 [sampleValidator])) :=
  getSnapshot_setBytes _ (show [sampleValidator].length < 2 ^ 64 by decide)

theorem weightedProposer_sample :
    weightedProposerAtHeight 1 [sampleValidator] = .ok zeroAddress := by
  decide +kernel

def sampleSeal (receiptRoot : Hash) (signature : Bytes) (events : List Event) : Seal :=
  ⟨hashA, zeroAddress, receiptRoot, signature, events, sampleCommit⟩

def sampleParent : BlockHeader := (sampleBlock 0 zeroHash (sampleProof 0 zeroHash [])).header

def firstBlock (z : Seal) (ctx : TxContext) (txs : List Transaction) (rs : List TxResult)
    (s₃ : InMemoryState) : Block :=
  sealBlock z ctx [] txs (0, computeValidatorSetHash [sampleValidator]) [sampleValidator] rs s₃

theorem firstBlock_accepted (receiptRoot : Hash) (signature : Bytes) (events : List Event)
    {ctx : TxContext} {txs : List Transaction} {accounts : Map Address Account}
    {s2 s3 : InMemoryState} {rs : List TxResult} (hheight : ctx.height = 1) (hsig : signature ≠ [])
    (hloop : runLoop ctx 0 txs (sampleLedgerBegun accounts) = .ok rs s2)
    (hfin : finalizeBlock (newFeeSummary (feesFrom 0 txs)) s2 = .ok () s3) :
    validateBlock (firstBlock (sampleSeal receiptRoot signature events) ctx txs rs s3) sampleParent
      hashA ctx.vm ctx.now (sampleLedger accounts) = .ok () (committed s3) := by
  have hexec : Executed ctx [] txs (sampleLedger accounts) (sampleLedgerBegun accounts) s2 s3
      (0, computeValidatorSetHash [sampleValidator]) rs :=
    ⟨hheight ▸ startBlock_sampleLedger accounts, hloop, hfin⟩
  refine sealBlock_accepted hexec (by rw [hheight]; decide) (by rw [hheight]; decide)
    (getActiveValidators_sampleLedgerBegun accounts)
    (by rw [hheight]; exact weightedProposer_sample) hsig ?_
  refine sampleCommit_accepted hheight rfl rfl ?_
  rw [hexec.getSnapshot_eq, getSnapshot_sampleLedgerBegun]

theorem runTx_sampleCall : ∃ r s2,
    runTx sampleContext 0 sampleCall (sampleLedgerBegun sampleAccounts) = .ok r s2 ∧
      r.gas = some 30 ∧ computeEventsRoot (emitted [r]) ≠ zeroHash := by
  have h : succeedsWith (fun r _ => decide (r.gas = some 30 ∧
      computeEventsRoot (emitted [r]) ≠ zeroHash))
    (runTx sampleContext 0 sampleCall (sampleLedgerBegun sampleAccounts)) = true := by
    decide +kernel
  obtain ⟨r, s2, hrun, hr⟩ := exists_of_succeedsWith h
  exact ⟨r, s2, hrun, of_decide_eq_true hr⟩

theorem runTx_samplePayment : ∃ r s2 s3,
    runTx sampleContext 0 samplePayment (sampleLedgerBegun sampleAccounts) = .ok r s2 ∧
      finalizeBlock (newFeeSummary (feesFrom 0 [samplePayment])) s2 = .ok () s3 ∧
      s3.accounts.total (fun acc => acc.balance.val) = 970 ∧ r.events = [] ∧
      getActiveValidators s3 = .ok [sampleValidator] := by
  have h : succeedsWith (fun r s2 => succeedsWith (fun _ s3 => decide
      (s3.accounts.total (fun acc => acc.balance.val) = 970 ∧ r.events = [] ∧
        getActiveValidators s3 = .ok [sampleValidator]))
      (finalizeBlock (newFeeSummary (feesFrom 0 [samplePayment])) s2))
    (runTx sampleContext 0 samplePayment (sampleLedgerBegun sampleAccounts)) = true := by
    decide +kernel
  obtain ⟨r, s2, hrun, hr⟩ := exists_of_succeedsWith h
  obtain ⟨u, s3, hfin, hs3⟩ := exists_of_succeedsWith hr
  exact ⟨r, s2, s3, hrun, hfin, of_decide_eq_true hs3⟩

end Dsn
