import Dsn.Staking.Records
import Dsn.State.Atomicity

/-!
# Two ways to register a validator

A registration by transaction stores a record that `GetValidator` cannot read.
-/

namespace Dsn

open Go InMemoryState

def errValidatorExists : Error := .new "validator already registered"
def errInsufficientStake : Error := .new "insufficient stake for validator"

def minimumValidatorStake : UInt64 := 100000

def commissionRateMaxBasisPoints : UInt16 := 10000

def validateCommissionRate (rate : UInt16) : Except Error Unit :=
  check (rate > commissionRateMaxBasisPoints)
    (.new s!"commission rate {rate} exceeds max {commissionRateMaxBasisPoints}")

def newValidator (consensusID : Address) (pubKey : PublicKey) (operatorAddr : Address)
    (stake : Amount) (commission : UInt16) (currentEpoch : UInt64) : Except Error Validator := do
  check (stake.val < (Amount.ofUInt64 minimumValidatorStake).val) (.detail errInsufficientStake
    s!"got {stake.val}, need at least {minimumValidatorStake}")
  validateCommissionRate commission
  return {
    consensusID := consensusID
    publicKey := pubKey
    operatorAddress := operatorAddr
    rewardAddress := operatorAddr
    bondedStake := stake
    status := validatorPending
    commissionRate := commission
    votingPower := 0
    jailedUntil := 0
    activationEpoch := currentEpoch + 1
    unstakeEpoch := 0 }

def setValidatorCount (count : UInt64) : Exec InMemoryState Unit :=
  modify (setBytes keyValidatorCount (putUint64 count))

section

variable [Crypto]

def registerValidator (pubKey : PublicKey) (operatorAddr : Address) (stake : Amount)
    (commission : UInt16) (currentEpoch : UInt64) : Exec InMemoryState Address := do
  let consensusID := deriveConsensusID pubKey.bytes
  failIf (((← get).getBytes (validatorKey consensusID)).isSome)
    (.detail errValidatorExists s!"consensus ID {addressString consensusID}")
  failIf (((← get).getBytes (validatorPubkeyKey pubKey)).isSome)
    (.detail errValidatorExists "public key already registered")
  failIf (((← get).getBytes (validatorOperatorKey operatorAddr)).isSome)
    (.detail errValidatorExists s!"operator address {addressString operatorAddr}")
  let count ← asks validatorCount
  let v ← ofResult (newValidator consensusID pubKey operatorAddr stake commission currentEpoch)
  modify (setBytes (validatorKey consensusID) v.encode)
  modify (setBytes (validatorPubkeyKey pubKey) consensusID.bytes)
  modify (setBytes (validatorOperatorKey operatorAddr) consensusID.bytes)
  let nextSeq := count + 1
  modify (setBytes (validatorBySeqKey nextSeq) consensusID.bytes)
  setValidatorCount nextSeq
  let total ← asks totalBonded
  let newTotal ← ofResult (total.add stake)
  setTotalBonded newTotal
  return consensusID

/-! ### What `RegisterValidator` stores -/

omit [Crypto] in
theorem Validator.length_encode (v : Validator) : v.encode.length = 143 := by
  simp [Validator.encode, Amount.bytes16, putUint64]

variable {s s' : InMemoryState}

variable {id : Address}

theorem registerValidator_record {pubKey : PublicKey} {operatorAddr : Address} {stake : Amount}
    {commission : UInt16} {epoch : UInt64}
    (h : registerValidator pubKey operatorAddr stake commission epoch s = .ok id s') :
    id = deriveConsensusID pubKey.bytes ∧ ∃ v, newValidator id pubKey operatorAddr stake commission
      epoch = .ok v ∧ s'.getBytes (validatorKey id) = some v.encode := by
  obtain ⟨_, _, hx, h⟩ := bind_eq_ok.1 h
  obtain ⟨_, _, hx, h⟩ := bind_eq_ok.1 h
  obtain ⟨_, _, hx, h⟩ := bind_eq_ok.1 h
  obtain ⟨_, _, hx, h⟩ := bind_eq_ok.1 h
  obtain ⟨_, _, hx, h⟩ := bind_eq_ok.1 h
  obtain ⟨_, _, hx, h⟩ := bind_eq_ok.1 h
  obtain ⟨count, _, hx, h⟩ := bind_eq_ok.1 h
  obtain ⟨v, hv, h⟩ := ofResult_bind_eq_ok.1 h
  unfold setValidatorCount setTotalBonded at h
  simp only [modify_bind, asks_bind_eq_ok, ofResult_bind_eq_ok, pure_eq_ok] at h
  obtain ⟨total, -, newTotal, -, rfl, rfl⟩ := h
  refine ⟨rfl, v, hv, ?_⟩
  -- the later writes go to other keys
  rw [getBytes_setBytes_of_ne (validatorKey_ne_totalBonded _).symm,
    getBytes_setBytes_of_ne (validatorKey_ne_count _).symm,
    getBytes_setBytes_of_ne (validatorKey_ne_bySeq _ _).symm,
    getBytes_setBytes_of_ne (validatorKey_ne_operator _ _).symm,
    getBytes_setBytes_of_ne (validatorKey_ne_pubkey _ _).symm, getBytes_setBytes_self]

/-! ### What a transaction stores -/

omit [Crypto] in
theorem length_registrationRecord (tx : Transaction) (m : ValidatorRegistrationMsg)
    (epoch : UInt64) : (registrationRecord tx m epoch).length = 79 := by
  have hlen := Amount.length_marshalBinary_ofUInt64 m.stake
  simp only [registrationRecord, putUint64, List.length_append, List.length_replicate,
    FixedBytes.length_eq, length_beBytes, List.length_singleton]
  omega

variable {tx : Transaction} {sender : Account} {m : ValidatorRegistrationMsg}
  {epoch count : UInt64} {total : Amount} {s₁ s₂ : InMemoryState}

theorem Registered.record (h : Registered tx sender s s' m epoch count total s₁ s₂) :
    s'.getBytes (validatorKey (deriveConsensusID m.pubKey.bytes)) =
      some (registrationRecord tx m (epoch + 1)) := by
  rw [h.after, h.stored, getBytes_setBytes_of_ne (validatorKey_ne_totalBonded _).symm,
    getBytes_setBytes_of_ne (validatorKey_ne_count _).symm]
  unfold storeRegistration
  rw [getBytes_setBytes_of_ne (validatorKey_ne_operator _ _).symm,
    getBytes_setBytes_of_ne (validatorKey_ne_pubkey _ _).symm, getBytes_setBytes_self]

omit [Crypto] in
theorem Validator.decode_consumes : Consumes 143 Validator.decode :=
  (Consumes.readFixed 20).bind fun _ => (Consumes.readFixed 32).bind fun _ =>
    (Consumes.readFixed 20).bind fun _ => (Consumes.readFixed 20).bind fun _ =>
    (Consumes.readFull 16).bind fun _ => (Consumes.ofResult _).bind fun _ =>
    (Consumes.readBE 1).bind fun _ => (Consumes.readBE 2).bind fun _ =>
    Consumes.readUint64.bind fun _ => Consumes.readUint64.bind fun _ =>
    Consumes.readUint64.bind fun _ => Consumes.readUint64.bind fun _ => Consumes.pure _

theorem getValidator_ne_ok {b : Bytes} (h : s.getBytes (validatorKey id) = some b)
    (hlen : b.length < 143) (v : Validator) : getValidator id s ≠ .ok v := by
  intro hv
  unfold getValidator at hv
  rw [h] at hv
  obtain ⟨r, hr⟩ := decodeFrom_eq_ok.1 hv
  have := Validator.decode_consumes b v r hr
  omega

theorem Registered.unreadable (h : Registered tx sender s s' m epoch count total s₁ s₂)
    (v : Validator) : getValidator (deriveConsensusID m.pubKey.bytes) s' ≠ .ok v :=
  getValidator_ne_ok h.record (by rw [length_registrationRecord]; decide) v

/-! ### The two never agree -/

def AgreesWithRegister (tx : Transaction) (m : ValidatorRegistrationMsg) (epoch : UInt64)
    (s s' : InMemoryState) : Prop :=
  ∃ t, registerValidator m.pubKey tx.sender (.ofUInt64 m.stake) (UInt16.ofNat m.commission.toNat)
      epoch s = .ok (deriveConsensusID m.pubKey.bytes) t ∧
    ∀ key, StartsWith [str "validator/", str "staking/"] key → s'.getBytes key = t.getBytes key

section

variable (h : Registered tx sender s s' m epoch count total s₁ s₂)
include h

theorem Registered.not_agrees (e : UInt64) : ¬ AgreesWithRegister tx m e s s' := by
  rintro ⟨t, hreg, hsame⟩
  obtain ⟨-, v, -, hget⟩ := registerValidator_record hreg
  have hrec := hsame _ (startsWith_append (by decide : str "validator/" ∈
    [str "validator/", str "staking/"]) (hex (deriveConsensusID m.pubKey.bytes).bytes))
  have hlen : (registrationRecord tx m (epoch + 1)).length = v.encode.length :=
    congrArg List.length (Option.some.inj (h.record.symm.trans (hrec.trans hget)))
  rw [length_registrationRecord, Validator.length_encode] at hlen
  cases hlen

theorem Registered.filed (hfiled : Filed s) : Filed s' := by
  intro id v hv
  by_cases hid : id = deriveConsensusID m.pubKey.bytes
  · subst hid
    exact absurd hv (h.unreadable v)
  obtain ⟨acc, bal, -, -, rfl⟩ := subBalance_eq_ok.1 h.stake
  have hne : validatorKey (deriveConsensusID m.pubKey.bytes) ≠ validatorKey id :=
    fun heq => hid (validatorKey_injective heq).symm
  rw [h.after, h.stored, getValidator_setBytes_of_ne (validatorKey_ne_totalBonded _).symm,
    getValidator_setBytes_of_ne (validatorKey_ne_count _).symm] at hv
  unfold storeRegistration at hv
  rw [getValidator_setBytes_of_ne (validatorKey_ne_operator _ _).symm,
    getValidator_setBytes_of_ne (validatorKey_ne_pubkey _ _).symm,
    getValidator_setBytes_of_ne hne] at hv
  exact hfiled id v hv

end

theorem not_active_of_unreadable {height : UInt64} {u : Unit}
    {active : List Validator} (hfiled : Filed s) (h : ∀ v, getValidator id s ≠ .ok v)
    (htrans : processEpochTransition height s = .ok u s')
    (hactive : getActiveValidators s' = .ok active) : ∀ v ∈ active, v.consensusID ≠ id := by
  obtain ⟨e, hepoch, -⟩ := asks_bind_eq_ok.1 htrans
  have hrec := @processEpochTransition_records _ s AnyChange _ _ e height hepoch
    (fun _ _ => trivial) (fun _ _ => trivial) fun _ _ _ => trivial
  rw [htrans] at hrec
  obtain ⟨hfiled', hback⟩ := hrec hfiled
  intro v hv hid
  obtain ⟨a, hget, -⟩ := mem_getActiveValidators hactive hv
  rw [hfiled' a v hget] at hid
  subst hid
  obtain ⟨w, hw, -⟩ := hback _ v hget
  exact h w hw

theorem Applied.registered {now : UInt64} (h : Applied now tx s s' sender s₁ s₂)
    (htype : tx.txType = txTypeValidatorRegistration) :
    ∃ m epoch count total t1 t2, Registered tx sender s s₁ m epoch count total t1 t2 ∧
      s'.kvstore = s₁.kvstore := by
  have hpay := h.payload
  rw [applyPayload, if_neg (by rw [htype]; decide), if_pos htype] at hpay
  obtain ⟨m, epoch, count, total, t1, t2, hreg⟩ := applyRegistration_eq_ok hpay
  obtain ⟨_, _, -, -, -, -, hkv⟩ := h.charged
  exact ⟨m, epoch, count, total, t1, t2, hreg, hkv⟩

/-- A registration by transaction is not one by `RegisterValidator`. -/
theorem registration_never_agrees {now : UInt64} {receipt : Hash}
    (htype : tx.txType = txTypeValidatorRegistration)
    (h : applyTransaction now tx s = .ok receipt s') :
    ∃ m, tx.validatorRegistration = .ok m ∧ (∀ epoch, ¬ AgreesWithRegister tx m epoch s s') ∧
      (∀ v, getValidator (deriveConsensusID m.pubKey.bytes) s' ≠ .ok v) ∧
      (Filed s → ∀ height t active, processEpochTransition height s' = .ok () t →
        getActiveValidators t = .ok active →
          ∀ v ∈ active, v.consensusID ≠ deriveConsensusID m.pubKey.bytes) := by
  obtain ⟨-, sender, s₁, s₂, happ⟩ := applyTransaction_eq_ok.1 h
  obtain ⟨m, epoch, count, total, t₁, t₂, hreg, hkv⟩ := happ.registered htype
  have hget (key : Bytes) : s'.getBytes key = s₁.getBytes key := by
    unfold getBytes
    rw [hkv]
  have hval (id : Address) : getValidator id s' = getValidator id s₁ := getValidator_congr (hget _)
  have hunread (v : Validator) : getValidator (deriveConsensusID m.pubKey.bytes) s' ≠ .ok v := by
    rw [hval]
    exact hreg.unreadable v
  refine ⟨m, hreg.pays.decoded, fun e hagree => ?_, hunread, fun hfiled height t active ht ha => ?_⟩
  · obtain ⟨t, ht, hsame⟩ := hagree
    exact hreg.not_agrees e ⟨t, ht, fun key hkey => (hget key).symm.trans (hsame key hkey)⟩
  · refine not_active_of_unreadable (fun id v hv => ?_) hunread ht ha
    exact hreg.filed hfiled id v ((hval id).symm.trans hv)

end

/-! ### A sample registration that is accepted -/

open Sample

theorem sampleRegistration_accepted : ∃ receipt s', applyTransaction 0 sampleRegistration
    (newInMemoryState.setAccount zeroAddress sampleStaker) = .ok receipt s' := by
  obtain ⟨receipt, s', h, -⟩ := exists_of_succeedsWith (show succeedsWith (fun _ _ => true)
    (applyTransaction 0 sampleRegistration
      (newInMemoryState.setAccount zeroAddress sampleStaker)) = true by decide +kernel)
  exact ⟨receipt, s', h⟩

theorem registration_never_agrees_sample : ∃ receipt s', applyTransaction 0 sampleRegistration
      (newInMemoryState.setAccount zeroAddress sampleStaker) = .ok receipt s' ∧
    ∃ m, sampleRegistration.validatorRegistration = .ok m ∧
      ∀ v, getValidator (deriveConsensusID m.pubKey.bytes) s' ≠ .ok v := by
  obtain ⟨receipt, s', h⟩ := sampleRegistration_accepted
  obtain ⟨m, hm, -, hread, -⟩ := registration_never_agrees rfl h
  exact ⟨receipt, s', h, m, hm, hread⟩

theorem registration_disagrees : ¬ ∀ (_ : Crypto) (now : UInt64) (tx : Transaction)
    (s s' : InMemoryState) (receipt : Hash), tx.txType = txTypeValidatorRegistration →
      applyTransaction now tx s = .ok receipt s' → ∃ m, tx.validatorRegistration = .ok m ∧
        (∃ epoch, currentEpoch s = .ok epoch ∧ AgreesWithRegister tx m epoch s s') ∧
        ∃ v, getValidator (deriveConsensusID m.pubKey.bytes) s' = .ok v ∧
          v.bondedStake = .ofUInt64 m.stake := by
  intro h
  obtain ⟨receipt, s', happly⟩ := sampleRegistration_accepted
  obtain ⟨m, hm, -, v, hv, -⟩ := h sampleCrypto _ _ _ _ _ rfl happly
  obtain ⟨-, sender, s₁, s₂, happ⟩ := applyTransaction_eq_ok.1 happly
  obtain ⟨m', epoch, count, total, t₁, t₂, hreg, hkv⟩ := happ.registered rfl
  obtain rfl : m = m' := Except.ok.inj (hm.symm.trans hreg.pays.decoded)
  refine hreg.unreadable v ((getValidator_congr ?_).symm.trans hv)
  unfold getBytes
  rw [hkv]

end Dsn
