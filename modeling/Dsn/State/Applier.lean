import Dsn.State.Memory

/-!
# `state`: applying a transaction

`ApplyTransaction` and the facts that a successful one leaves behind (`Applied`).
-/

namespace Dsn

open Go InMemoryState

variable {tx : Transaction} {s s' : InMemoryState} {sender : Account}

variable [Crypto]

def transferPayload (payload : Bytes) : Address × UInt64 :=
  (FixedBytes.copy 20 (payload.take 20), UInt64.ofNat (beNat ((payload.drop 20).take 8)))

def applyTransfer (tx : Transaction) (sender : Account) (feeAmount : Amount) :
    Exec InMemoryState Unit := do
  if tx.payload.length ≥ 28 then
    let transferAmt := Amount.ofUInt64 (transferPayload tx.payload).2
    let totalCost ← wrapErr "total cost overflow" (ofResult (feeAmount.add transferAmt))
    failIf (sender.balance.val < totalCost.val) (.new
      s!"insufficient balance for transfer + fee: have {sender.balance.val}, need {totalCost.val}")
    wrapErr "failed to credit recipient" (credit (transferPayload tx.payload).1 transferAmt)
    subBalance tx.sender transferAmt

def getCurrentEpoch (s : InMemoryState) : Except Error UInt64 :=
  match s.getBytes keyCurrentEpoch with
  | none => .ok 0
  | some epochBytes => getUint64 epochBytes

def registrationRecord (tx : Transaction) (regMsg : ValidatorRegistrationMsg)
    (activationEpoch : UInt64) : Bytes :=
  let stakeBytes := (Amount.ofUInt64 regMsg.stake).marshalBinary
  regMsg.pubKey.bytes ++ tx.sender.bytes ++ stakeBytes ++
    List.replicate (16 - stakeBytes.length) 0 ++ beBytes 2 regMsg.commission.toNat ++ [0] ++
    putUint64 activationEpoch

def nextValidatorCount (s : InMemoryState) : Except Error UInt64 :=
  match s.getBytes keyValidatorCount with
  | none => .ok 1
  | some countBytes => do return (← getUint64 countBytes) + 1

def nextTotalBonded (stakeAmt : Amount) (s : InMemoryState) : Except Error Amount :=
  let totalBonded := match s.getBytes keyTotalBonded with
    | none => Amount.ofUInt64 0
    | some b => match Amount.unmarshalBinary b with
      | .ok a => a
      | .error _ => Amount.ofUInt64 0
  match totalBonded.add stakeAmt with
  | .ok a => .ok a
  | .error _ => .error (.panic "nil pointer dereference")

def applyRegistration (tx : Transaction) (sender : Account) (feeAmount : Amount) :
    Exec InMemoryState Unit := do
  let regMsg ← wrapErr "invalid validator registration" (ofResult tx.validatorRegistration)
  failIf (regMsg.address ≠ tx.sender) (.new "sender address does not match registration address")
  failIf (regMsg.stake.toNat < 100000)
    (.new s!"stake amount {regMsg.stake} below minimum 100000")
  failIf (regMsg.commission.toNat > 10000)
    (.new s!"commission rate {regMsg.commission} exceeds max 10000")
  let stakeAmt := Amount.ofUInt64 regMsg.stake
  let totalCost ← wrapErr "total cost overflow" (ofResult (feeAmount.add stakeAmt))
  failIf (sender.balance.val < totalCost.val) (.new
    s!"insufficient balance for stake + fee: have {sender.balance.val}, need {totalCost.val}")
  wrapErr "deduct stake" (subBalance tx.sender stakeAmt)
  let consensusID := deriveConsensusID regMsg.pubKey.bytes
  let s ← get
  failIf ((s.getBytes (validatorKey consensusID)).isSome) (.new "validator already registered")
  let currentEpoch ← asks getCurrentEpoch
  modify (setBytes (validatorKey consensusID) (registrationRecord tx regMsg (currentEpoch + 1)))
  modify (setBytes (validatorPubkeyKey regMsg.pubKey) consensusID.bytes)
  modify (setBytes (validatorOperatorKey tx.sender) consensusID.bytes)
  -- the key by sequence number, which the registry is read through, is not written
  let count ← asks nextValidatorCount
  modify (setBytes keyValidatorCount (putUint64 count))
  let newTotalBonded ← asks (nextTotalBonded stakeAmt)
  modify (setBytes keyTotalBonded newTotalBonded.marshalBinary)

def applyPayload (tx : Transaction) (sender : Account) (feeAmount : Amount) :
    Exec InMemoryState Unit :=
  if tx.txType = txTypeStandard then applyTransfer tx sender feeAmount
  else if tx.txType = txTypeValidatorRegistration then applyRegistration tx sender feeAmount
  else pure ()

def applyTransaction (now : UInt64) (tx : Transaction) : Exec InMemoryState Hash := do
  wrapErr "tx validation" (ofResult (tx.validate now))
  let sender ← wrapErr "sender" (asks (getAccount tx.sender))
  failIf (ed25519Verify sender.publicKey tx.intentID.bytes tx.signature = false)
    (.new "invalid signature")
  failIf (tx.nonce ≠ sender.nonce + 1)
    (.new s!"nonce mismatch: got {tx.nonce}, expected {sender.nonce + 1}")
  let feeAmount := Amount.ofUInt64 tx.maxFee
  failIf (sender.balance.val < feeAmount.val) (.new
    s!"insufficient balance for fee: have {sender.balance.val}, need {feeAmount.val}")
  applyPayload tx sender feeAmount
  subBalance tx.sender feeAmount
  incrementNonce tx.sender
  return tx.intentID

/-! ### What a successful transaction did -/

structure Applied (now : UInt64) (tx : Transaction) (s s' : InMemoryState) (sender : Account)
    (s₁ s₂ : InMemoryState) : Prop where
  valid : tx.validate now = .ok ()
  found : s.accounts[tx.sender]? = some sender
  verified : ed25519Verify sender.publicKey tx.intentID.bytes tx.signature = true
  nonce_eq : tx.nonce = sender.nonce + 1
  fee_le : tx.maxFee.toNat ≤ sender.balance.val
  payload : applyPayload tx sender (.ofUInt64 tx.maxFee) s = .ok () s₁
  fee : subBalance tx.sender (.ofUInt64 tx.maxFee) s₁ = .ok () s₂
  bump : incrementNonce tx.sender s₂ = .ok () s'

variable {now : UInt64}

theorem applyTransaction_eq_ok {receipt : Hash} : applyTransaction now tx s = .ok receipt s' ↔
      receipt = tx.intentID ∧ ∃ sender s1 s2, Applied now tx s s' sender s1 s2 := by
  unfold applyTransaction
  simp only [wrapErr_bind_eq_ok, ofResult_bind_eq_ok, asks_bind_eq_ok, failIf_bind_eq_ok,
    getAccount_eq_ok, Bool.not_eq_false, not_not, not_lt]
  simp only [bind_eq_ok, pure_eq_ok]
  constructor
  · rintro ⟨_, h1, sender, h2, h3, h4, h5, _, s1, h6, _, s2, h7, _, _, h8, rfl, rfl⟩
    exact ⟨rfl, sender, s1, s2, h1, h2, h3, h4, h5, h6, h7, h8⟩
  · rintro ⟨rfl, sender, s1, s2, h⟩
    exact ⟨(), h.valid, sender, h.found, h.verified, h.nonce_eq, h.fee_le, (), s1, h.payload, (),
      s2, h.fee, (), s', h.bump, rfl, rfl⟩

theorem Applied.nonce_toNat {s1 s2 : InMemoryState} (h : Applied now tx s s' sender s1 s2) :
    tx.nonce.toNat = sender.nonce.toNat + 1 := by
  have hne := (Transaction.validate_eq_ok.1 h.valid).1
  rw [h.nonce_eq] at hne ⊢
  exact uint64_toNat_succ hne

structure PaysStake (tx : Transaction) (m : ValidatorRegistrationMsg) (sender : Account) :
    Prop where
  decoded : tx.validatorRegistration = .ok m
  address_eq : m.address = tx.sender
  stake_ge : 100000 ≤ m.stake.toNat
  commission_le : m.commission.toNat ≤ 10000
  cost_le : tx.maxFee.toNat + m.stake.toNat ≤ sender.balance.val

def storeRegistration (tx : Transaction) (m : ValidatorRegistrationMsg) (activationEpoch : UInt64)
    (s : InMemoryState) : InMemoryState :=
  let consensusID := deriveConsensusID m.pubKey.bytes
  ((s.setBytes (validatorKey consensusID) (registrationRecord tx m activationEpoch)).setBytes
    (validatorPubkeyKey m.pubKey) consensusID.bytes).setBytes
      (validatorOperatorKey tx.sender) consensusID.bytes

structure Registered (tx : Transaction) (sender : Account) (s s' : InMemoryState)
    (m : ValidatorRegistrationMsg) (epoch count : UInt64) (total : Amount)
    (s₁ s₂ : InMemoryState) : Prop where
  pays : PaysStake tx m sender
  stake : subBalance tx.sender (.ofUInt64 m.stake) s = .ok () s₁
  free : (s₁.getBytes (validatorKey (deriveConsensusID m.pubKey.bytes))).isSome = false
  epoch_eq : getCurrentEpoch s₁ = .ok epoch
  stored : s₂ = storeRegistration tx m (epoch + 1) s₁
  count_eq : nextValidatorCount s₂ = .ok count
  total_eq : nextTotalBonded (.ofUInt64 m.stake) (s₂.setBytes keyValidatorCount (putUint64 count)) =
    .ok total
  after : s' = (s₂.setBytes keyValidatorCount (putUint64 count)).setBytes keyTotalBonded
    total.marshalBinary

omit [Crypto] in
theorem paysStake_of_checks {m : ValidatorRegistrationMsg} {cost : Amount}
    (hm : tx.validatorRegistration = .ok m) (haddr : ¬ m.address ≠ tx.sender)
    (hstake : ¬ m.stake.toNat < 100000) (hcomm : ¬ m.commission.toNat > 10000)
    (hcost : (Amount.ofUInt64 tx.maxFee).add (.ofUInt64 m.stake) = .ok cost)
    (hle : ¬ sender.balance.val < cost.val) : PaysStake tx m sender := by
  have hsum : tx.maxFee.toNat + m.stake.toNat = cost.val := Amount.add_eq_ok.1 hcost
  exact ⟨hm, not_not.1 haddr, not_lt.1 hstake, not_lt.1 hcomm, by omega⟩

theorem applyRegistration_eq_ok {u : Unit}
    (h : applyRegistration tx sender (.ofUInt64 tx.maxFee) s = .ok u s') :
    ∃ m epoch count total s1 s2, Registered tx sender s s' m epoch count total s1 s2 := by
  obtain ⟨m, hm, h⟩ := ofResult_bind_eq_ok.1 (wrapErr_bind_eq_ok.1 h)
  obtain ⟨haddr, h⟩ := failIf_bind_eq_ok.1 h
  obtain ⟨hstake, h⟩ := failIf_bind_eq_ok.1 h
  obtain ⟨hcomm, h⟩ := failIf_bind_eq_ok.1 h
  obtain ⟨cost, hcost, h⟩ := ofResult_bind_eq_ok.1 (wrapErr_bind_eq_ok.1 h)
  obtain ⟨hle, h⟩ := failIf_bind_eq_ok.1 h
  obtain ⟨_, s1, hsub, h⟩ := bind_eq_ok.1 h
  -- the stake is deducted: the rest reads the state it left
  rw [get_bind] at h
  obtain ⟨hfree, h⟩ := failIf_bind_eq_ok.1 h
  obtain ⟨epoch, hepoch, h⟩ := asks_bind_eq_ok.1 h
  simp only [modify_bind, asks_bind_eq_ok, modify_eq_ok] at h
  obtain ⟨count, hcount, total, htotal, rfl⟩ := h
  exact ⟨m, epoch, count, total, s1, _, paysStake_of_checks hm haddr hstake hcomm hcost hle,
    wrapErr_eq_ok.1 hsub, by simpa using hfree, hepoch, rfl, hcount, htotal, rfl⟩

/-! ### The keys a transaction writes -/

section Rules

variable {R : InMemoryState → InMemoryState → Prop} [Std.Refl R] [IsTrans InMemoryState R]
  (hcredit : ∀ addr amount, Steps R (credit addr amount))
  (hsub : ∀ amount, Steps R (subBalance tx.sender amount))
  (hset : ∀ key, StartsWith registryTexts key → ∀ value,
    Steps R (modify (setBytes key value) : Exec InMemoryState PUnit))
include hcredit hsub hset

theorem applyPayload_steps (sender : Account) (fee : Amount) :
    Steps R (applyPayload tx sender fee) := by
  refine Steps.ite ?_ (Steps.ite ?_ (Steps.pure _))
  · refine Steps.ite ?_ (Steps.pure _)
    refine ((Steps.ofResult _).wrapErr _).bind fun _ => (Steps.failIf _ _).bind fun _ => ?_
    exact ((hcredit _ _).wrapErr _).bind fun _ => hsub _
  · have hwrite {key : Bytes} (hkey : str "validator/" <+: key) := hset key ⟨_, by decide, hkey⟩
    refine ((Steps.ofResult _).wrapErr _).bind fun _ => (Steps.failIf _ _).bind fun _ => ?_
    refine (Steps.failIf _ _).bind fun _ => (Steps.failIf _ _).bind fun _ => ?_
    refine ((Steps.ofResult _).wrapErr _).bind fun _ => (Steps.failIf _ _).bind fun _ => ?_
    refine ((hsub _).wrapErr _).bind fun _ => Steps.get.bind fun _ => ?_
    refine (Steps.failIf _ _).bind fun _ => (Steps.asks _).bind fun _ => ?_
    refine (hwrite (validatorKey_starts _) _).bind fun _ => ?_
    refine (hwrite (validatorPubkeyKey_starts _) _).bind fun _ => ?_
    refine (hwrite (validatorOperatorKey_starts _) _).bind fun _ => (Steps.asks _).bind fun _ => ?_
    refine (hwrite (by decide) _).bind fun _ => (Steps.asks _).bind fun _ => ?_
    exact hset _ startsWith_keyTotalBonded _

theorem applyTransaction_steps (hnonce : Steps R (incrementNonce tx.sender)) (now : UInt64) :
    Steps R (applyTransaction now tx) := by
  refine ((Steps.ofResult _).wrapErr _).bind fun _ => ((Steps.asks _).wrapErr _).bind fun _ => ?_
  refine (Steps.failIf _ _).bind fun _ => (Steps.failIf _ _).bind fun _ => ?_
  refine (Steps.failIf _ _).bind fun _ => ?_
  refine (applyPayload_steps hcredit hsub hset _ _).bind fun _ => ?_
  exact (hsub _).bind fun _ => hnonce.bind fun _ => Steps.pure _

end Rules

theorem applyTransaction_keys (now : UInt64) (tx : Transaction) :
    Steps (SameOutside transactionTexts) (applyTransaction now tx) :=
  applyTransaction_steps credit_keys (subBalance_keys _)
    (fun _ hkey => setBytes_keys (hkey.mono (List.subset_append_right contractTexts _)))
    (incrementNonce_keys _) now

/-! ### Acting for an account -/

/-- The intent ID is the right one, signed by the key of `addr`. -/
def Authorizes (tx : Transaction) (addr : Address) (s : InMemoryState) : Prop :=
  tx.intentID = tx.computeIntentID ∧ ∃ acc, s.accounts[addr]? = some acc ∧
    ed25519Verify acc.publicKey tx.intentID.bytes tx.signature = true

/-! ### A sample payment -/

def samplePayment : Transaction where
  version := 1
  chainID := 1
  intentID := FixedBytes.copy 32 (List.replicate 11 0 ++ [1])
  sender := zeroAddress
  nonce := 1
  payload := []
  constraints := []
  maxFee := 100
  gasLimit := 0
  timestamp := 0
  signature := List.replicate 64 0
  txType := txTypeStandard

def sampleAccounts : Map Address Account :=
  (∅ : Map Address Account).insert zeroAddress
    { newAccount zeroAddress (FixedBytes.zero 32) with balance := .ofUInt64 1000 }

end Dsn
