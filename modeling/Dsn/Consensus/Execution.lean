import Dsn.Consensus.Block

/-!
# The execution of a block

Builder and validator run the same loop; `runLoop` is that loop without their accumulators.
`Executed` and `AcceptedBlock` say what a block that went through has passed.
-/

namespace Dsn

open Go InMemoryState

variable [Crypto]

/-! ### One transaction -/

/-- What a transaction sees of its block. -/
structure TxContext where
  vm : Option VM
  height : UInt64
  timestamp : UInt64
  now : ℕ → UInt64

structure TxResult where
  gas : Option UInt64
  events : List Event

def runTx (ctx : TxContext) (i : ℕ) (tx : Transaction) : Exec InMemoryState TxResult :=
  match contractCall ctx.vm tx with
  | some c => do
    let result ← runContract c ctx.height ctx.timestamp (UInt32.ofNat i)
    chargeGas tx.sender result.gasUsed
    return ⟨some result.gasUsed, keptEvents result⟩
  | none => do
    let _ ← applyTransaction (ctx.now i) tx
    return ⟨none, []⟩

def ContractCall.gasUsed (c : ContractCall) (ctx : TxContext) (i : ℕ) (s : InMemoryState) :
    UInt64 :=
  match runContract c ctx.height ctx.timestamp (UInt32.ofNat i) s with
  | .ok result _ => result.gasUsed
  | .error _ _ => 0

/-- What builder and validator do with the transactions. -/
def runLoop (ctx : TxContext) (i : ℕ) : List Transaction → Exec InMemoryState (List TxResult)
  | [] => pure []
  | tx :: rest => do
    let r ← runTx ctx i tx
    let rs ← runLoop ctx (i + 1) rest
    return r :: rs

variable {ctx : TxContext} {i : ℕ} {s s' : InMemoryState} {tx : Transaction}

theorem validateStep_eq_ok {acc acc' : ValidateAcc} :
    validateStep ctx.vm ctx.height ctx.timestamp (ctx.now i) i tx acc s = .ok acc' s' ↔
      ∃ r, runTx ctx i tx s = .ok r s' ∧
        acc' = ⟨acc.totalFees + tx.maxFee, acc.allEvents ++ r.events⟩ := by
  unfold validateStep runTx chargeGasForValidate
  cases contractCall ctx.vm tx with
  | none =>
    simp only [bind_eq_ok, wrapErr_eq_ok, pure_eq_ok]
    constructor
    · rintro ⟨h, _, happ, rfl, rfl⟩
      exact ⟨_, ⟨h, _, happ, rfl, rfl⟩, by simp⟩
    · rintro ⟨_, ⟨h, _, happ, rfl, rfl⟩, rfl⟩
      exact ⟨h, _, happ, by simp, rfl⟩
  | some c =>
    simp only [bind_eq_ok, wrapErr_eq_ok, pure_eq_ok]
    constructor
    · rintro ⟨res, _, hrun, _, _, hgas, rfl, rfl⟩
      exact ⟨_, ⟨res, _, hrun, _, _, hgas, rfl, rfl⟩, rfl⟩
    · rintro ⟨_, ⟨res, _, hrun, _, _, hgas, rfl, rfl⟩, rfl⟩
      exact ⟨res, _, hrun, (), _, hgas, rfl, rfl⟩

theorem buildStep_eq_ok {acc acc' : BuildAcc} :
    buildStep ctx.vm ctx.height ctx.timestamp (ctx.now i) i tx acc s = .ok acc' s' ↔
      ∃ r, runTx ctx i tx s = .ok r s' ∧ acc' = ⟨acc.totalFees + tx.maxFee,
        acc.receipts ++ [tx.intentID], acc.blockEvents ++ r.events⟩ := by
  unfold buildStep runTx
  cases contractCall ctx.vm tx with
  | none =>
    simp only [bind_eq_ok, pure_eq_ok, applyTransaction_eq_ok]
    constructor
    · rintro ⟨_, _, ⟨rfl, happ⟩, rfl, rfl⟩
      exact ⟨_, ⟨_, _, ⟨rfl, happ⟩, rfl, rfl⟩, by simp⟩
    · rintro ⟨_, ⟨_, _, ⟨rfl, happ⟩, rfl, rfl⟩, rfl⟩
      exact ⟨_, _, ⟨rfl, happ⟩, by simp, rfl⟩
  | some c =>
    simp only [bind_eq_ok, wrapErr_eq_ok, pure_eq_ok]
    constructor
    · rintro ⟨res, _, hrun, _, _, hgas, rfl, rfl⟩
      exact ⟨_, ⟨res, _, hrun, _, _, hgas, rfl, rfl⟩, rfl⟩
    · rintro ⟨_, ⟨res, _, hrun, _, _, hgas, rfl, rfl⟩, rfl⟩
      exact ⟨res, _, hrun, (), _, hgas, rfl, rfl⟩

/-! ### The loops -/

def feesFrom (fees : UInt64) (txs : List Transaction) : UInt64 :=
  txs.foldl (fun total tx => total + tx.maxFee) fees

def emitted (rs : List TxResult) : List Event := rs.flatMap TxResult.events

variable {rs : List TxResult}

theorem runLoop_cons_eq_ok {rest : List Transaction} :
    runLoop ctx i (tx :: rest) s = .ok rs s' ↔ ∃ r s1 rs', runTx ctx i tx s = .ok r s1 ∧
      runLoop ctx (i + 1) rest s1 = .ok rs' s' ∧ rs = r :: rs' := by
  rw [runLoop]
  simp only [bind_eq_ok, pure_eq_ok]
  constructor
  · rintro ⟨r, s1, hr, rs', _, hrs, rfl, rfl⟩
    exact ⟨r, s1, rs', hr, hrs, rfl⟩
  · rintro ⟨r, s1, rs', hr, hrs, rfl⟩
    exact ⟨r, s1, hr, rs', s', hrs, rfl, rfl⟩

theorem runLoop_singleton {r : TxResult} (h : runTx ctx i tx s = .ok r s') :
    runLoop ctx i [tx] s = .ok [r] s' :=
  runLoop_cons_eq_ok.2 ⟨r, s', [], h, rfl, rfl⟩

variable {txs : List Transaction}

theorem validateLoop_eq_ok {acc acc' : ValidateAcc} :
    validateLoop ctx.vm ctx.height ctx.timestamp ctx.now i acc txs s = .ok acc' s' ↔
      ∃ rs, runLoop ctx i txs s = .ok rs s' ∧
        acc' = ⟨feesFrom acc.totalFees txs, acc.allEvents ++ emitted rs⟩ := by
  induction txs generalizing i acc s with
  | nil =>
    simp only [validateLoop, runLoop, pure_eq_ok]
    constructor
    · rintro ⟨rfl, rfl⟩
      exact ⟨[], ⟨rfl, rfl⟩, by simp [feesFrom, emitted]⟩
    · rintro ⟨rs, ⟨rfl, rfl⟩, rfl⟩
      exact ⟨by simp [feesFrom, emitted], rfl⟩
  | cons tx rest ih =>
    rw [validateLoop]
    simp only [bind_eq_ok, validateStep_eq_ok, runLoop_cons_eq_ok]
    constructor
    · rintro ⟨_, s1, ⟨r, hr, rfl⟩, h⟩
      obtain ⟨rs, hrs, rfl⟩ := ih.1 h
      exact ⟨r :: rs, ⟨r, s1, rs, hr, hrs, rfl⟩, by simp [feesFrom, emitted]⟩
    · rintro ⟨_, ⟨r, s1, rs, hr, hrs, rfl⟩, rfl⟩
      exact ⟨_, s1, ⟨r, hr, rfl⟩, ih.2 ⟨rs, hrs, by simp [feesFrom, emitted]⟩⟩

theorem buildLoop_eq_ok {acc acc' : BuildAcc} :
    buildLoop ctx.vm ctx.height ctx.timestamp ctx.now i acc txs s = .ok acc' s' ↔
      ∃ rs, runLoop ctx i txs s = .ok rs s' ∧ acc' = ⟨feesFrom acc.totalFees txs,
        acc.receipts ++ txs.map Transaction.intentID, acc.blockEvents ++ emitted rs⟩ := by
  induction txs generalizing i acc s with
  | nil =>
    simp only [buildLoop, runLoop, pure_eq_ok]
    constructor
    · rintro ⟨rfl, rfl⟩
      exact ⟨[], ⟨rfl, rfl⟩, by simp [feesFrom, emitted]⟩
    · rintro ⟨rs, ⟨rfl, rfl⟩, rfl⟩
      exact ⟨by simp [feesFrom, emitted], rfl⟩
  | cons tx rest ih =>
    rw [buildLoop]
    simp only [bind_eq_ok, buildStep_eq_ok, runLoop_cons_eq_ok]
    constructor
    · rintro ⟨_, s1, ⟨r, hr, rfl⟩, h⟩
      obtain ⟨rs, hrs, rfl⟩ := ih.1 h
      exact ⟨r :: rs, ⟨r, s1, rs, hr, hrs, rfl⟩, by simp [feesFrom, emitted]⟩
    · rintro ⟨_, ⟨r, s1, rs, hr, hrs, rfl⟩, rfl⟩
      exact ⟨_, s1, ⟨r, hr, rfl⟩, ih.2 ⟨rs, hrs, by simp [feesFrom, emitted]⟩⟩

/-! ### The phases of a block -/

def startBlock (evidence : List Evidence) (height : UInt64) :
    Exec InMemoryState (UInt64 × Hash) := do
  processBlockEvidence evidence height
  beginBlock height

structure Executed (ctx : TxContext) (evidence : List Evidence) (txs : List Transaction)
    (s s₁ s₂ s₃ : InMemoryState) (start : UInt64 × Hash) (rs : List TxResult) : Prop where
  start_eq : startBlock evidence ctx.height s = .ok start s₁
  loop : runLoop ctx 0 txs s₁ = .ok rs s₂
  finish : finalizeBlock (newFeeSummary (feesFrom 0 txs)) s₂ = .ok () s₃

def Block.context (block : Block) (vm : Option VM) (now : ℕ → UInt64) : TxContext :=
  ⟨vm, block.header.height, block.header.timestamp, now⟩

def committed (s : InMemoryState) : InMemoryState := { s with smt := s.rebuildSMT }

@[simp] theorem commit_eq_ok {root : Hash} :
    commit s = .ok root s' ↔ s.stateRoot = root ∧ committed s = s' := by
  unfold commit committed
  simp

structure AcceptedBlock (block : Block) (parentHeader : BlockHeader) (expectedPrevHash : Hash)
    (vm : Option VM) (now : ℕ → UInt64) (s s₁ s₂ s₃ : InMemoryState) (start : UInt64 × Hash)
    (epoch : UInt64) (rs : List TxResult) : Prop where
  height_eq : block.header.height = parentHeader.height + 1
  previousHash_eq : block.header.height > 0 → block.header.previousHash = expectedPrevHash
  executed : Executed (block.context vm now) block.evidence block.transactions s s₁ s₂ s₃ start rs
  header : verifyHeader block s₁ = .ok epoch
  eventsRoot_eq : computeEventsRoot (emitted rs) = block.header.eventsRoot
  stateRoot_eq : s₃.stateRoot = block.header.stateRoot
  txRoot_eq : computeTxRoot block.transactions = block.header.txRoot
  fees_eq : newFeeSummary (feesFrom 0 block.transactions) = block.feeSummary
  proof : validateCommitProof block (committed s₃) epoch = .ok ()

variable {block : Block}

theorem executeBlock_eq_ok {vm : Option VM} {now : ℕ → UInt64} {epoch : UInt64}
    {acc : ValidateAcc} {s s3 : InMemoryState} :
    executeBlock block vm now s = .ok (epoch, acc) s3 ↔ ∃ s1 s2 start rs,
      Executed (block.context vm now) block.evidence block.transactions s s1 s2 s3 start rs ∧
        verifyHeader block s1 = .ok epoch ∧
        acc = ⟨feesFrom 0 block.transactions, emitted rs⟩ := by
  have hloop {acc s s'} :=
    @validateLoop_eq_ok _ (block.context vm now) 0 s s' block.transactions ⟨0, []⟩ acc
  simp only [Block.context, List.nil_append] at hloop
  unfold executeBlock
  simp only [↓asks_bind_eq_ok, bind_eq_ok, wrapErr_eq_ok, pure_eq_ok, hloop]
  constructor
  · rintro ⟨_, s0, hev, start, s1, hbegin, _, hhead, _, s2, ⟨rs, hrun, rfl⟩, _, _, hfin, h, rfl⟩
    cases h
    exact ⟨s1, s2, start, rs, ⟨bind_eq_ok.2 ⟨_, s0, hev, hbegin⟩, hrun, hfin⟩, hhead, rfl⟩
  · rintro ⟨s1, s2, start, rs, ⟨hstart, hrun, hfin⟩, hhead, rfl⟩
    obtain ⟨u, s0, hev, hbegin⟩ := bind_eq_ok.1 hstart
    exact ⟨u, s0, hev, start, s1, hbegin, epoch, hhead, _, s2, ⟨rs, hrun, rfl⟩, (), s3, hfin, rfl,
      rfl⟩

theorem validateBlock_eq_ok {parentHeader : BlockHeader} {expectedPrevHash : Hash}
    {vm : Option VM} {now : ℕ → UInt64} {u : Unit} :
    validateBlock block parentHeader expectedPrevHash vm now s = .ok u s' ↔
      ∃ s1 s2 s3 start epoch rs, AcceptedBlock block parentHeader expectedPrevHash vm now s
        s1 s2 s3 start epoch rs ∧ s' = committed s3 := by
  unfold validateBlock checkOutcome
  simp only [↓failIf_bind_eq_ok, bind_eq_ok, commit_eq_ok, wrapErr_eq_ok, asks_eq_ok, not_not,
    not_and]
  constructor
  · rintro ⟨hheight, hprev, ⟨epoch, acc⟩, s3, hexec, hevents, _, _, ⟨rfl, rfl⟩, hroot, htx, hfees,
      hproof, rfl⟩
    obtain ⟨s1, s2, start, rs, hrun, hhead, rfl⟩ := executeBlock_eq_ok.1 hexec
    exact ⟨s1, s2, s3, start, epoch, rs,
      ⟨hheight, hprev, hrun, hhead, hevents, hroot, htx, hfees, hproof⟩, rfl⟩
  · rintro ⟨s1, s2, s3, start, epoch, rs, h, rfl⟩
    exact ⟨h.height_eq, h.previousHash_eq, (epoch, _), s3,
      executeBlock_eq_ok.2 ⟨s1, s2, start, rs, h.executed, h.header, rfl⟩, h.eventsRoot_eq, _, _,
      ⟨rfl, rfl⟩, h.stateRoot_eq, h.txRoot_eq, h.fees_eq, h.proof, rfl⟩

structure CheckedHeader (block : Block) (s : InMemoryState) (epoch : UInt64)
    (active : List Validator) (snap : ValidatorSnapshot) : Prop where
  active_eq : getActiveValidators s = .ok active
  epoch_eq : currentEpoch s = .ok epoch
  headerEpoch_eq : block.header.epoch = epoch
  snapshot_eq : getSnapshot epoch s = .ok (some snap)
  setHash_eq : block.header.validatorSetHash = snap.setHash
  proposer_eq : weightedProposerAtHeight block.header.height active = .ok block.header.proposer
  validatorRoot_eq : block.header.validatorRoot = validatorRoot (consensusIDs active)
  signature_ne : block.signature ≠ []

theorem verifyHeader_eq_ok {s : InMemoryState} {epoch : UInt64} :
    verifyHeader block s = .ok epoch ↔ ∃ active snap, CheckedHeader block s epoch active snap := by
  unfold verifyHeader
  simp only [except_bind_eq_ok, mapError_eq_ok, check_eq_ok, not_not]
  constructor
  · rintro ⟨active, hactive, e, hepoch, _, he, h⟩
    rcases hs : getSnapshot e s with err | (_ | snap)
    · rw [hs] at h; cases h
    · rw [hs] at h; cases h
    · rw [hs] at h
      simp only [except_bind_eq_ok, check_eq_ok, not_not] at h
      obtain ⟨_, hset, h⟩ := h
      split_ifs at h with hpos
      simp only [except_bind_eq_ok, check_eq_ok, not_not] at h
      obtain ⟨p, hp, _, rfl, _, hroot, _, hsig, h⟩ := h
      cases h
      exact ⟨active, snap, hactive, hepoch, he, hs, hset, hp, hroot,
        fun h => hsig (by rw [h]; rfl)⟩
  · rintro ⟨active, snap, h⟩
    refine ⟨active, h.active_eq, epoch, h.epoch_eq, (), h.headerEpoch_eq, ?_⟩
    have hpos : active.length > 0 := by
      rcases active with _ | ⟨v, rest⟩
      · have := h.proposer_eq
        cases this
      · exact Nat.succ_pos _
    have hsig : ¬ block.signature.length = 0 :=
      fun h' => h.signature_ne (List.length_eq_zero_iff.1 h')
    rw [h.snapshot_eq]
    simp only [except_bind_eq_ok, check_eq_ok, not_not]
    refine ⟨(), h.setHash_eq, ?_⟩
    rw [if_pos hpos]
    simp only [except_bind_eq_ok, check_eq_ok, not_not]
    exact ⟨_, h.proposer_eq, (), rfl, (), h.validatorRoot_eq, (), hsig, rfl⟩

def BuildInput.context (inp : BuildInput) : TxContext :=
  ⟨inp.vm, inp.height, inp.clock.execTime, inp.clock.txTime⟩

def BuildInput.Picks (inp : BuildInput) (txs : List Transaction) : Prop :=
  ∃ taken, takeTxs inp.pending inp.maxTxs = .ok taken ∧ txs = sortSlice txLess taken

def BuildInput.header (inp : BuildInput) (txs : List Transaction) (start : UInt64 × Hash)
    (stateRoot : Hash) (active : List Validator) : BlockHeader where
  version := 1
  height := inp.height
  previousHash := inp.prevHash
  stateRoot := stateRoot
  txRoot := computeTxRoot txs
  receiptRoot := computeHashesRoot (txs.map Transaction.intentID)
  validatorRoot := validatorRoot (consensusIDs active)
  validatorSetHash := start.2
  epoch := start.1
  timestamp := inp.clock.headerTime
  proposer := inp.proposer
  eventsRoot := zeroHash

structure BuiltBlock (inp : BuildInput) (block : Block) (s s₁ s₂ s₃ : InMemoryState)
    (start : UInt64 × Hash) (rs : List TxResult) (active : List Validator) : Prop where
  picks : inp.Picks block.transactions
  executed : Executed inp.context inp.evidence block.transactions s s₁ s₂ s₃ start rs
  active_eq : getActiveValidators (committed s₃) = .ok active
  header_eq : block.header = inp.header block.transactions start s₃.stateRoot active
  signed : inp.sign block.header.headerHash = .ok block.signature
  fees_eq : block.feeSummary = newFeeSummary (feesFrom 0 block.transactions)
  proof_eq : block.commitProof = none
  events_eq : block.events = emitted rs
  evidence_eq : block.evidence = inp.evidence

theorem buildBlock_eq_ok {inp : BuildInput} :
    buildBlock inp s = .ok block s' ↔ ∃ s1 s2 s3 start rs active,
      BuiltBlock inp block s s1 s2 s3 start rs active ∧ s' = committed s3 := by
  have hloop {txs acc s s'} := @buildLoop_eq_ok _ inp.context 0 s s' txs ⟨0, [], []⟩ acc
  simp only [BuildInput.context, List.nil_append] at hloop
  unfold buildBlock
  simp only [↓wrapErr_bind_eq_ok, ↓asks_bind_eq_ok, ↓ofResult_bind_eq_ok, bind_eq_ok, pure_eq_ok,
    commit_eq_ok, hloop]
  constructor
  · rintro ⟨_, s0, hev, start, s1, hbegin, taken, htake, _, s2, ⟨rs, hrun, rfl⟩, _, s3, hfin, _, _,
      ⟨rfl, rfl⟩, active, hactive, sig, hsign, rfl, rfl⟩
    exact ⟨s1, s2, s3, start, rs, active, ⟨⟨taken, htake, rfl⟩,
      ⟨bind_eq_ok.2 ⟨_, s0, hev, hbegin⟩, hrun, hfin⟩, hactive, rfl, hsign, rfl, rfl, rfl, rfl⟩,
      rfl⟩
  · rintro ⟨s1, s2, s3, start, rs, active, h, rfl⟩
    obtain ⟨taken, htake, htxs⟩ := h.picks
    obtain ⟨u, s0, hev, hbegin⟩ := bind_eq_ok.1 h.executed.start_eq
    have hsign := h.signed
    rw [h.header_eq] at hsign
    refine ⟨u, s0, hev, start, s1, hbegin, taken, htake, _, s2,
      ⟨rs, htxs ▸ h.executed.loop, rfl⟩, (), s3, htxs ▸ h.executed.finish, _, _, ⟨rfl, rfl⟩, active,
      h.active_eq, block.signature, htxs ▸ hsign, ?_, rfl⟩
    have hheader := h.header_eq
    have hfees := h.fees_eq
    rw [← htxs]
    obtain ⟨header, txs, fees, signature, proof, events, evidence⟩ := block
    dsimp only at hheader hfees
    subst hheader hfees
    obtain rfl := h.proof_eq
    obtain rfl := h.events_eq
    obtain rfl := h.evidence_eq
    rfl

/-! ### Steps -/

structure TxStep where
  index : ℕ
  tx : Transaction
  before : InMemoryState
  result : TxResult
  after : InMemoryState

def trace (ctx : TxContext) (i : ℕ) : List Transaction → InMemoryState → List TxStep
  | [], _ => []
  | tx :: rest, s =>
    match runTx ctx i tx s with
    | .ok r s' => ⟨i, tx, s, r, s'⟩ :: trace ctx (i + 1) rest s'
    | .error _ _ => []

theorem trace_cons {r : TxResult} (h : runTx ctx i tx s = .ok r s') (rest : List Transaction) :
    trace ctx i (tx :: rest) s = ⟨i, tx, s, r, s'⟩ :: trace ctx (i + 1) rest s' := by
  rw [trace, h]

theorem mem_trace {s : InMemoryState} {st : TxStep} (h : st ∈ trace ctx i txs s) :
    runTx ctx st.index st.tx st.before = .ok st.result st.after := by
  induction txs generalizing i s with
  | nil => cases h
  | cons tx rest ih =>
    rw [trace] at h
    cases hr : runTx ctx i tx s with
    | error e s' => rw [hr] at h; cases h
    | ok r s' =>
      rw [hr] at h
      rcases List.mem_cons.1 h with rfl | h
      · exact hr
      · exact ih h

theorem trace_of_runLoop (h : runLoop ctx i txs s = .ok rs s') :
    (trace ctx i txs s).map TxStep.tx = txs ∧ (trace ctx i txs s).map TxStep.result = rs := by
  induction txs generalizing i rs s with
  | nil =>
    rw [runLoop, pure_eq_ok] at h
    exact ⟨rfl, h.1⟩
  | cons tx rest ih =>
    obtain ⟨r, s1, rs', hr, hrs, rfl⟩ := runLoop_cons_eq_ok.1 h
    obtain ⟨htx, hres⟩ := ih hrs
    rw [trace_cons hr]
    exact ⟨by rw [List.map_cons, htx], by rw [List.map_cons, hres]⟩

def stepsOf (ctx : TxContext) (evidence : List Evidence) (txs : List Transaction)
    (s : InMemoryState) : List TxStep :=
  match startBlock evidence ctx.height s with
  | .ok _ s₁ => trace ctx 0 txs s₁
  | .error _ _ => []

def Block.steps (block : Block) (vm : Option VM) (now : ℕ → UInt64) (s : InMemoryState) :
    List TxStep :=
  stepsOf (block.context vm now) block.evidence block.transactions s

theorem Executed.stepsOf_eq {evidence : List Evidence}
    {s s1 s2 s3 : InMemoryState} {start : UInt64 × Hash}
    (h : Executed ctx evidence txs s s1 s2 s3 start rs) :
    stepsOf ctx evidence txs s = trace ctx 0 txs s1 := by
  unfold stepsOf
  rw [h.start_eq]

end Dsn
