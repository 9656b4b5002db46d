import Dsn.Consensus.Sealing

/-!
# Does the validator accept what the builder builds?

The builder runs the transactions at one reading of the clock and dates the header with a later
one, and it leaves the events root of the header zero.
-/

namespace Dsn

open Go InMemoryState

variable {txs : List Transaction} {rs rs' : List TxResult} {s s' : InMemoryState} {now : ℕ → UInt64}
  {proof : CommitProof}

section

variable [Crypto]

/-! ### The clock and the time -/

variable {ctx : TxContext}

theorem runLoop_timestamps {i : ℕ} (h : runLoop ctx i txs s = .ok rs s') {j : ℕ}
    {tx : Transaction} (hj : txs[j]? = some tx) (hc : contractCall ctx.vm tx = none) :
    validateTimestamp (ctx.now (i + j)) tx.timestamp = .ok () := by
  induction txs generalizing i j rs s with
  | nil => cases hj
  | cons tx' rest ih =>
    obtain ⟨r, s₁, rs', hr, hrs, -⟩ := runLoop_cons_eq_ok.1 h
    cases j with
    | zero =>
      obtain rfl : tx' = tx := by simpa using hj
      obtain ⟨-, sender, t1, t2, happ⟩ := (runTx_plain hc).1 hr
      exact (Transaction.validate_eq_ok.1 happ.valid).2.2.1
    | succ j =>
      have := ih hrs (j := j) (by simpa using hj)
      rwa [show i + 1 + j = i + (j + 1) by omega] at this

theorem runLoop_clock {i : ℕ} (h : runLoop ctx i txs s = .ok rs s')
    (hnow : ∀ j tx, txs[j]? = some tx → contractCall ctx.vm tx = none → validateTimestamp (now (i +
      j)) tx.timestamp = .ok ()) :
    runLoop { ctx with now := now } i txs s = .ok rs s' := by
  induction txs generalizing i rs s with
  | nil => exact h
  | cons tx rest ih =>
    obtain ⟨r, s₁, rs', hr, hrs, rfl⟩ := runLoop_cons_eq_ok.1 h
    refine runLoop_cons_eq_ok.2 ⟨r, s₁, rs', ?_, ih hrs fun j tx' hj hc => ?_, rfl⟩
    · cases hc : contractCall ctx.vm tx with
      | none =>
        obtain ⟨rfl, sender, t1, t2, happ⟩ := (runTx_plain hc).1 hr
        -- only the check of the timestamp reads the clock
        obtain ⟨h1, h2, -, h4⟩ := Transaction.validate_eq_ok.1 happ.valid
        have h3 := hnow 0 tx rfl hc
        have hvalid : tx.validate (now i) = .ok () :=
          Transaction.validate_eq_ok.2 ⟨h1, h2, h3, h4⟩
        refine (@runTx_plain _ { ctx with now := now } _ _ _ _ _ hc).2 ?_
        exact ⟨rfl, sender, t1, t2, { happ with valid := hvalid }⟩
      | some c =>
        unfold runTx at hr ⊢
        rw [hc] at hr ⊢
        exact hr
    · rw [show i + 1 + j = i + (j + 1) by omega]
      exact hnow (j + 1) tx' (by simpa using hj) hc

/-- What was in time for the builder is so for the validator. -/
def StillInWindow (txTime now : ℕ → UInt64) (txs : List Transaction) : Prop :=
  ∀ i tx, txs[i]? = some tx → validateTimestamp (txTime i) tx.timestamp = .ok () →
    validateTimestamp (now i) tx.timestamp = .ok ()

def BuildInput.execAt (inp : BuildInput) (time : UInt64) (txs : List Transaction) :
    Exec InMemoryState (List TxResult) := do
  let rs ← runLoop { inp.context with timestamp := time } 0 txs
  finalizeBlock (newFeeSummary (feesFrom 0 txs))
  return rs

theorem execAt_eq_ok {inp : BuildInput} {time : UInt64} : inp.execAt time txs s = .ok rs s' ↔
      ∃ s₂, runLoop { inp.context with timestamp := time } 0 txs s = .ok rs s₂ ∧
        finalizeBlock (newFeeSummary (feesFrom 0 txs)) s₂ = .ok () s' := by
  unfold BuildInput.execAt
  simp only [bind_eq_ok, pure_eq_ok]
  constructor
  · rintro ⟨_, s₂, hrun, _, _, hfin, rfl, rfl⟩
    exact ⟨s₂, hrun, hfin⟩
  · rintro ⟨s₂, hrun, hfin⟩
    exact ⟨rs, s₂, hrun, (), s', hfin, rfl, rfl⟩

def activeRoot (s : InMemoryState) : Except Error Hash :=
  (getActiveValidators s).map fun active => validatorRoot (consensusIDs active)

/-- At the header's time the block leaves the same root and set and no events. -/
def Replayable (inp : BuildInput) (txs : List Transaction) (s : InMemoryState) : Prop :=
  ∃ rs rs' t t', inp.execAt inp.clock.execTime txs s = .ok rs t ∧
    inp.execAt inp.clock.headerTime txs s = .ok rs' t' ∧ t'.stateRoot = t.stateRoot ∧
    activeRoot t = activeRoot s ∧ computeEventsRoot (emitted rs') = zeroHash

/-! ### Built blocks -/

def Block.withProof (block : Block) (proof : CommitProof) : Block :=
  { block with commitProof := some proof }

theorem validateCommitProof_congr {block : Block} {epoch : UInt64}
    (h : getSnapshot epoch s' = getSnapshot epoch s) :
    validateCommitProof block s' epoch = validateCommitProof block s epoch := by
  unfold validateCommitProof
  rw [h]

section

variable {inp : BuildInput} {block : Block} {s s₁ s₂ s₃ : InMemoryState} {start : UInt64 × Hash}
  {rs : List TxResult} {active : List Validator}
  (h : BuiltBlock inp block s s₁ s₂ s₃ start rs active)
include h

theorem BuiltBlock.execAt_execTime :
    inp.execAt inp.clock.execTime block.transactions s₁ = .ok rs s₃ :=
  execAt_eq_ok.2 ⟨s₂, h.executed.loop, h.executed.finish⟩

variable {active1 : List Validator}

theorem BuiltBlock.checkedHeader (hheight : inp.height ≠ 0)
    (hactive : getActiveValidators s₁ = .ok active1)
    (hproposer : weightedProposerAtHeight inp.height active1 = .ok inp.proposer)
    (hroot : activeRoot s₃ = activeRoot s₁) (hsig : block.signature ≠ []) (proof : CommitProof) :
    ∃ snap, CheckedHeader (block.withProof proof) s₁ start.1 active1 snap := by
  obtain ⟨_, t, -, hbegin⟩ := bind_eq_ok.1 h.executed.start_eq
  obtain ⟨hepoch, snap, hsnap, hset⟩ := beginBlock_eq_ok hheight hbegin
  have hactive3 : getActiveValidators s₃ = .ok active := h.active_eq
  have hroots : validatorRoot (consensusIDs active) = validatorRoot (consensusIDs active1) := by
    unfold activeRoot at hroot
    rw [hactive, hactive3] at hroot
    exact Except.ok.inj hroot
  refine ⟨snap, hactive, hepoch, ?_, hsnap, ?_, ?_, ?_, hsig⟩
  all_goals rw [Block.withProof, h.header_eq]
  · rfl
  · exact hset.symm
  · exact hproposer
  · exact hroots

theorem BuiltBlock.context_eq (proof : CommitProof) (now : ℕ → UInt64) :
    (block.withProof proof).context inp.vm now =
      ⟨inp.vm, inp.height, inp.clock.headerTime, now⟩ := by
  rw [Block.withProof, h.header_eq]
  rfl

variable (hnow : StillInWindow inp.clock.txTime now block.transactions)
include hnow

theorem BuiltBlock.runLoop_iff {time : UInt64} {t : InMemoryState} :
    runLoop ⟨inp.vm, inp.height, time, now⟩ 0 block.transactions s₁ = .ok rs' t ↔
      runLoop { inp.context with timestamp := time } 0 block.transactions s₁ = .ok rs' t := by
  have hbuilt : ∀ j tx, block.transactions[j]? = some tx → contractCall inp.vm tx = none →
      validateTimestamp (inp.clock.txTime (0 + j)) tx.timestamp = .ok () :=
    fun j tx hj hc => runLoop_timestamps h.executed.loop hj hc
  constructor
  · intro hrun
    exact runLoop_clock hrun hbuilt
  · intro hrun
    refine runLoop_clock hrun fun j tx hj hc => ?_
    have hj' := hbuilt j tx hj hc
    rw [Nat.zero_add] at hj' ⊢
    exact hnow j tx hj hj'

variable {start' : UInt64 × Hash}

theorem BuiltBlock.executed_iff {t1 t2 t3 : InMemoryState} :
    Executed ((block.withProof proof).context inp.vm now) block.evidence block.transactions
        s t1 t2 t3 start' rs' ↔ (t1 = s₁ ∧ start' = start) ∧
      runLoop { inp.context with timestamp := inp.clock.headerTime } 0 block.transactions s₁ =
        .ok rs' t2 ∧ finalizeBlock (newFeeSummary (feesFrom 0 block.transactions)) t2 =
        .ok () t3 := by
  have hstart : startBlock block.evidence inp.height s = .ok start s₁ :=
    (congrArg (startBlock · inp.height s) h.evidence_eq).trans h.executed.start_eq
  rw [h.context_eq]
  constructor
  · rintro ⟨hstart', hloop, hfin⟩
    cases hstart.symm.trans hstart'
    exact ⟨⟨rfl, rfl⟩, (h.runLoop_iff hnow).1 hloop, hfin⟩
  · rintro ⟨⟨rfl, rfl⟩, hloop, hfin⟩
    exact ⟨hstart, (h.runLoop_iff hnow).2 hloop, hfin⟩

variable {parentHeader : BlockHeader}

theorem BuiltBlock.replayable {t1 t2 t3 : InMemoryState} {epoch : UInt64}
    (ha : AcceptedBlock (block.withProof proof) parentHeader inp.prevHash inp.vm now s t1 t2 t3
      start' epoch rs') : block.signature ≠ [] ∧ Replayable inp block.transactions s₁ := by
  obtain ⟨⟨rfl, rfl⟩, hloop, hfin⟩ := (h.executed_iff hnow).1 ha.executed
  obtain ⟨active1, snap, hcheck⟩ := verifyHeader_eq_ok.1 ha.header
  have hroot : block.header.stateRoot = s₃.stateRoot := by rw [h.header_eq]; rfl
  have hevents : block.header.eventsRoot = zeroHash := by rw [h.header_eq]; rfl
  refine ⟨hcheck.signature_ne, rs, rs', s₃, t3, h.execAt_execTime,
    execAt_eq_ok.2 ⟨t2, hloop, hfin⟩, ha.stateRoot_eq.trans hroot, ?_,
    ha.eventsRoot_eq.trans hevents⟩
  -- the header carries the validator root after the transactions and was checked against the one
  -- before them
  have hactive3 : getActiveValidators s₃ = .ok active := h.active_eq
  have hval : block.header.validatorRoot = validatorRoot (consensusIDs active1) :=
    hcheck.validatorRoot_eq
  rw [h.header_eq] at hval
  unfold activeRoot
  rw [hactive3, hcheck.active_eq]
  exact congrArg Except.ok hval

theorem BuiltBlock.accepted (hheight : inp.height ≠ 0)
    (hactive : getActiveValidators s₁ = .ok active1)
    (hproposer : weightedProposerAtHeight inp.height active1 = .ok inp.proposer)
    (hproof : validateCommitProof (block.withProof proof) (committed s₃) block.header.epoch = .ok
      ()) (hparent : parentHeader.height + 1 = inp.height) (hsig : block.signature ≠ [])
    (hreplay : Replayable inp block.transactions s₁) :
    ∃ t, validateBlock (block.withProof proof) parentHeader inp.prevHash inp.vm now s =
      .ok () t := by
  obtain ⟨rs1, rs', t, t', hexec, hexec', hroots, hactives, hevents⟩ := hreplay
  cases h.execAt_execTime.symm.trans hexec
  obtain ⟨t2, hloop, hfin⟩ := execAt_eq_ok.1 hexec'
  obtain ⟨snap, hcheck⟩ := h.checkedHeader hheight hactive hproposer hactives hsig proof
  have hexecuted : Executed ((block.withProof proof).context inp.vm now) block.evidence
      block.transactions s s₁ t2 t' start rs' :=
    (h.executed_iff hnow).2 ⟨⟨rfl, rfl⟩, hloop, hfin⟩
  -- the proof was accepted on the builder's state, which has the validator's snapshots
  have hsnaps : getSnapshot start.1 (committed t') = getSnapshot start.1 (committed s₃) :=
    (hexecuted.getSnapshot_eq _).trans (h.executed.getSnapshot_eq _).symm
  refine ⟨_, validateBlock_eq_ok.2 ⟨s₁, t2, t', start, start.1, rs', ?_, rfl⟩⟩
  refine ⟨?_, ?_, hexecuted, verifyHeader_eq_ok.2 ⟨active1, snap, hcheck⟩, ?_, ?_, ?_,
    h.fees_eq.symm, ?_⟩
  · rw [hparent, Block.withProof, h.header_eq]; rfl
  · rw [Block.withProof, h.header_eq]; exact fun _ => rfl
  · rw [hevents, Block.withProof, h.header_eq]; rfl
  · rw [hroots, Block.withProof, h.header_eq]; rfl
  · rw [Block.withProof, h.header_eq]; rfl
  · have hepoch : block.header.epoch = start.1 := by rw [h.header_eq]; rfl
    rw [validateCommitProof_congr hsnaps, ← hepoch]
    exact hproof

end

/-- A built block is accepted exactly when it is signed and replays at its own time. -/
theorem built_block_accepted_iff {inp : BuildInput} {block : Block} {s s' s₁ : InMemoryState}
    {start : UInt64 × Hash} {active : List Validator} {proof : CommitProof}
    {parentHeader : BlockHeader} {now : ℕ → UInt64} (hheight : inp.height > 0)
    (hbuild : buildBlock inp s = .ok block s')
    (hstart : startBlock inp.evidence inp.height s = .ok start s₁)
    (hactive : getActiveValidators s₁ = .ok active)
    (hproposer : weightedProposerAtHeight inp.height active = .ok inp.proposer)
    (hproof : validateCommitProof (block.withProof proof) s' block.header.epoch = .ok ())
    (hparent : parentHeader.height + 1 = inp.height)
    (hnow : StillInWindow inp.clock.txTime now block.transactions) :
    (∃ t, validateBlock (block.withProof proof) parentHeader inp.prevHash inp.vm now s = .ok () t) ↔
      block.signature ≠ [] ∧ Replayable inp block.transactions s₁ := by
  have hne : inp.height ≠ 0 := fun h => by rw [h] at hheight; exact absurd hheight (by decide)
  obtain ⟨u₁, s₂, s₃, start', rs, active', hb, rfl⟩ := buildBlock_eq_ok.1 hbuild
  cases hb.executed.start_eq.symm.trans hstart
  constructor
  · rintro ⟨t, hval⟩
    obtain ⟨t₁, t₂, t₃, start', epoch, rs', ha, -⟩ := validateBlock_eq_ok.1 hval
    exact hb.replayable hnow ha
  · rintro ⟨hsig, hreplay⟩
    exact hb.accepted hnow hne hactive hproposer hproof hparent hsig hreplay

end

/-! ### Building on the sample ledger -/

def sampleInput (pending : List Transaction) : BuildInput where
  vm := some sampleVM
  pending := pending
  height := 1
  prevHash := hashA
  proposer := zeroAddress
  sign := fun _ => .ok [0]
  maxTxs := 1
  evidence := []
  clock := ⟨0, fun _ => 0, 0⟩

open Sample

def sampleBuilt (pending : List Transaction) (rs : List TxResult) (s : InMemoryState) : Block where
  header := (sampleInput pending).header pending (0, computeValidatorSetHash [sampleValidator])
    s.stateRoot [sampleValidator]
  transactions := pending
  feeSummary := newFeeSummary (feesFrom 0 pending)
  signature := [0]
  commitProof := none
  events := emitted rs
  evidence := []

section

variable {pending : List Transaction} {accounts : Map Address Account} {rs : List TxResult}
  {s₂ s₃ : InMemoryState}

theorem buildBlock_sampleInput (hpicks : (sampleInput pending).Picks pending)
    (hloop : runLoop sampleContext 0 pending (sampleLedgerBegun accounts) = .ok rs s₂)
    (hfin : finalizeBlock (newFeeSummary (feesFrom 0 pending)) s₂ = .ok () s₃)
    (hactive : getActiveValidators s₃ = .ok [sampleValidator]) :
    buildBlock (sampleInput pending) (sampleLedger accounts) =
      .ok (sampleBuilt pending rs s₃) (committed s₃) :=
  buildBlock_eq_ok.2 ⟨_, s₂, s₃, _, rs, [sampleValidator], ⟨hpicks,
    ⟨startBlock_sampleLedger accounts, hloop, hfin⟩, hactive, rfl, rfl, rfl, rfl, rfl, rfl⟩, rfl⟩

theorem sampleBuilt_proof
    (hloop : runLoop sampleContext 0 pending (sampleLedgerBegun accounts) = .ok rs s₂)
    (hfin : finalizeBlock (newFeeSummary (feesFrom 0 pending)) s₂ = .ok () s₃) :
    validateCommitProof ((sampleBuilt pending rs s₃).withProof sampleCommit) (committed s₃) 0 =
      .ok () := by
  refine sampleCommit_accepted rfl rfl rfl ?_
  have hexec : Executed sampleContext [] pending (sampleLedger accounts)
      (sampleLedgerBegun accounts) s₂ s₃ _ rs := ⟨startBlock_sampleLedger accounts, hloop, hfin⟩
  rw [hexec.getSnapshot_eq, getSnapshot_sampleLedgerBegun]

end

theorem built_block_accepted_payment : ∃ block s',
    buildBlock (sampleInput [samplePayment]) (sampleLedger sampleAccounts) = .ok block s' ∧
      ∃ t, validateBlock (block.withProof sampleCommit) sampleParent hashA (some sampleVM)
        (fun _ => 0) (sampleLedger sampleAccounts) = .ok () t := by
  obtain ⟨r, s₂, s₃, hrun, hfin, -, hevents, hactive⟩ := runTx_samplePayment
  have hloop := runLoop_singleton hrun
  have hbefore := getActiveValidators_sampleLedgerBegun sampleAccounts
  have hbuild := buildBlock_sampleInput ⟨[samplePayment], rfl, rfl⟩ hloop hfin hactive
  refine ⟨_, _, hbuild, (built_block_accepted_iff (by decide) hbuild
    (startBlock_sampleLedger sampleAccounts) hbefore weightedProposer_sample
    (sampleBuilt_proof hloop hfin) (by decide) fun _ _ _ h => h).2 ?_⟩
  have hexec : (sampleInput [samplePayment]).execAt 0 [samplePayment]
      (sampleLedgerBegun sampleAccounts) = .ok [r] s₃ := execAt_eq_ok.2 ⟨s₂, hloop, hfin⟩
  refine ⟨List.cons_ne_nil _ _, [r], [r], s₃, s₃, hexec, hexec, rfl, ?_, ?_⟩
  · rw [activeRoot, activeRoot, hactive, hbefore]
  · simp [emitted, hevents, computeEventsRoot]

theorem built_block_with_event_rejected : ¬ ∀ (_ : Crypto) (inp : BuildInput) (block : Block)
    (s s' s₁ : InMemoryState) (start : UInt64 × Hash) (active : List Validator)
    (proof : CommitProof) (parentHeader : BlockHeader) (now : ℕ → UInt64), inp.height > 0 →
    buildBlock inp s = .ok block s' → startBlock inp.evidence inp.height s = .ok start s₁ →
    getActiveValidators s₁ = .ok active →
    weightedProposerAtHeight inp.height active = .ok inp.proposer →
    validateCommitProof (block.withProof proof) s' block.header.epoch = .ok () →
    parentHeader.height + 1 = inp.height → StillInWindow inp.clock.txTime now block.transactions →
    ∃ t, validateBlock (block.withProof proof) parentHeader inp.prevHash inp.vm now s =
      .ok () t := by
  intro h
  obtain ⟨r, s₂, hrun, -, hroot⟩ := runTx_sampleCall
  have hloop := runLoop_singleton hrun
  have hstart := startBlock_sampleLedger sampleAccounts
  have hactive := getActiveValidators_sampleLedgerBegun sampleAccounts
  have hactive₂ := (runTx_contract_active rfl hrun).trans hactive
  have hbuild := buildBlock_sampleInput ⟨[sampleCall], rfl, rfl⟩ hloop rfl hactive₂
  obtain ⟨t, hval⟩ := h sampleCrypto (sampleInput [sampleCall]) _ _ _ _ _ _ sampleCommit
    sampleParent (fun _ => 0) (by decide) hbuild hstart hactive weightedProposer_sample
    (sampleBuilt_proof hloop rfl) (by decide) (fun _ _ _ h => h)
  obtain ⟨t₁, t₂, t₃, start, epoch, rs, ha, -⟩ := validateBlock_eq_ok.1 hval
  -- the validator's execution is the builder's, so its events are the ones without a root
  obtain ⟨hstart', hloop', -⟩ := ha.executed
  cases hstart.symm.trans hstart'
  cases hloop.symm.trans hloop'
  exact hroot ha.eventsRoot_eq

end Dsn
