import Dsn.Staking.Registration
import Dsn.Staking.Slashing

/-!
# The operations of the staking package

The operations as one type, what each does when it succeeds, and where it may write.
-/

namespace Dsn

open Go InMemoryState

def errValidatorNotActive : Error := .new "validator is not active"

variable [Crypto]

/-! ### Stake -/

def bond (sender consensusID : Address) (amount : Amount) : Exec InMemoryState Amount := do
  let acc ← wrapErr "sender account" (asks (getAccount sender))
  failIf (acc.balance.val < amount.val)
    (.new s!"insufficient balance: have {acc.balance.val}, need {amount.val}")
  let v ← asks (getValidator consensusID)
  failIf (v.status ≠ validatorPending ∧ v.status ≠ validatorActive)
    (.new s!"validator {addressString consensusID} cannot accept stake in status {statusString v.status}")
  subBalance sender amount
  let newStake ← ofResult (v.bondedStake.add amount)
  let total ← asks totalBonded
  let newTotal ← ofResult (total.add amount)
  setTotalBonded newTotal
  updateValidator { v with bondedStake := newStake }
  return newStake

def slash (consensusID : Address) (amount : Amount) : Exec InMemoryState Amount := do
  let v ← asks (getValidator consensusID)
  let slashed := if v.bondedStake.val ≥ amount.val then amount else v.bondedStake
  let newStake ← ofResult (v.bondedStake.sub slashed)
  let total ← asks totalBonded
  let newTotal ← ofResult (total.sub slashed)
  setTotalBonded newTotal
  updateValidator { v with bondedStake := newStake }
  return slashed

/-! ### Status -/

def jailValidator (consensusID : Address) (untilEpoch : UInt64) : Exec InMemoryState Unit := do
  let v ← asks (getValidator consensusID)
  failIf (v.status ≠ validatorActive) (.detail errValidatorNotActive
    s!"validator {addressString consensusID} is {statusString v.status}")
  let v ← ofResult (v.transitionTo validatorJailed)
  updateValidator { v with jailedUntil := untilEpoch }

def startUnstake (consensusID : Address) (unstakeEpoch : UInt64) : Exec InMemoryState Unit := do
  let v ← asks (getValidator consensusID)
  let v ← ofResult (v.transitionTo validatorUnstaking)
  updateValidator { v with unstakeEpoch := unstakeEpoch }

/-! ### Operations -/

inductive StakingOp
  | register (pubKey : PublicKey) (operator : Address) (stake : Amount) (commission : UInt16)
      (epoch : UInt64)
  | bond (sender id : Address) (amount : Amount)
  | slash (id : Address) (amount : Amount)
  | applySlash (id : Address) (percent jailEpochs : UInt64)
  | releaseStake (id : Address)
  | activate (id : Address) (epoch : UInt64)
  | jail (id : Address) (untilEpoch : UInt64)
  | unjail (id : Address)
  | startUnstake (id : Address) (epoch : UInt64)
  | remove (id : Address)

def StakingOp.run : StakingOp → Exec InMemoryState Unit
  | .register pubKey operator stake commission epoch => do
    let _ ← registerValidator pubKey operator stake commission epoch
  | .bond sender id amount => do let _ ← Dsn.bond sender id amount
  | .slash id amount => do let _ ← Dsn.slash id amount
  | .applySlash id percent jailEpochs => Dsn.applySlash id percent jailEpochs
  | .releaseStake id => Dsn.releaseStake id
  | .activate id epoch => activateValidator id epoch
  | .jail id untilEpoch => jailValidator id untilEpoch
  | .unjail id => unjailValidator id
  | .startUnstake id epoch => Dsn.startUnstake id epoch
  | .remove id => removeValidator id

/-- A call of the staking package. -/
inductive StakingStep
  | op (o : StakingOp)
  | epochTransition (height : UInt64)

def StakingStep.run : StakingStep → Exec InMemoryState Unit
  | .op o => o.run
  | .epochTransition height => processEpochTransition height

/-- No validator has been registered and nothing is bonded. -/
structure EmptyRegistry (s : InMemoryState) : Prop where
  records : ∀ key, str "validator/" <+: key → s.getBytes key = none
  bonded : totalBonded s = .ok (.ofUInt64 0)

/-! ### What a successful operation did -/

variable {s s' t : InMemoryState} {id sender : Address} {amount result : Amount} {v : Validator}
  {epoch : UInt64} {u : Unit}

def booked (s : InMemoryState) (newTotal : Amount) (v : Validator) : InMemoryState :=
  (s.setBytes keyTotalBonded newTotal.marshalBinary).setBytes (validatorKey v.consensusID) v.encode

omit [Crypto] in
theorem totalBonded_congr (h : t.kvstore = s.kvstore) : totalBonded t = totalBonded s := by
  unfold totalBonded getBytes
  rw [h]

theorem getValidator_of_kvstore (h : t.kvstore = s.kvstore) :
    getValidator id t = getValidator id s :=
  getValidator_congr (by unfold getBytes; rw [h])

theorem subBalance_kvstore (h : subBalance sender amount s = .ok u t) : t.kvstore = s.kvstore := by
  obtain ⟨acc, bal, -, -, rfl⟩ := subBalance_eq_ok.1 h
  rfl

theorem bond_eq_ok (h : bond sender id amount s = .ok result s') : ∃ v t total, ∃ newTotal : Amount,
    getValidator id s = .ok v ∧ (v.status = validatorPending ∨ v.status = validatorActive) ∧
      subBalance sender amount s = .ok () t ∧ v.bondedStake.val + amount.val = result.val ∧
      totalBonded s = .ok total ∧ total.val + amount.val = newTotal.val ∧
      s' = booked t newTotal { v with bondedStake := result }.stored := by
  unfold bond setTotalBonded at h
  simp only [wrapErr_bind_eq_ok, asks_bind_eq_ok, failIf_bind_eq_ok] at h
  obtain ⟨acc, -, -, v, hv, hst, h⟩ := h
  obtain ⟨_, t, hsub, h⟩ := bind_eq_ok.1 h
  simp only [ofResult_bind_eq_ok, asks_bind_eq_ok, modify_bind, updateValidator_eq, pure_eq_ok,
    Amount.add_eq_ok] at h
  obtain ⟨newStake, hstake, total, htotal, newTotal, hadd, rfl, rfl⟩ := h
  rw [totalBonded_congr (subBalance_kvstore hsub)] at htotal
  refine ⟨v, t, total, newTotal, hv, ?_, hsub, hstake, htotal, hadd, rfl⟩
  by_contra hne
  rw [not_or] at hne
  exact hst hne

theorem slash_eq_ok (h : slash id amount s = .ok result s') : ∃ v total,
    ∃ newStake newTotal : Amount, getValidator id s = .ok v ∧
      result.val = min v.bondedStake.val amount.val ∧
      v.bondedStake.val = newStake.val + result.val ∧ totalBonded s = .ok total ∧
      total.val = newTotal.val + result.val ∧
      s' = booked s newTotal { v with bondedStake := newStake }.stored := by
  unfold slash setTotalBonded at h
  simp only [asks_bind_eq_ok, ofResult_bind_eq_ok, modify_bind, updateValidator_eq, pure_eq_ok,
    Amount.sub_eq_ok] at h
  obtain ⟨v, hv, newStake, hstake, total, htotal, newTotal, hsub, rfl, rfl⟩ := h
  refine ⟨v, total, newStake, newTotal, hv, ?_, hstake, htotal, hsub, rfl⟩
  split_ifs with hle
  · exact (min_eq_right hle).symm
  · exact (min_eq_left (not_le.1 hle).le).symm

theorem jailValidator_eq_ok (h : jailValidator id epoch s = .ok u s') : ∃ v,
    getValidator id s = .ok v ∧ v.status = validatorActive ∧
      s' = s.setBytes (validatorKey v.consensusID)
        { v with status := validatorJailed, jailedUntil := epoch }.stored.encode := by
  unfold jailValidator at h
  simp only [asks_bind_eq_ok, failIf_bind_eq_ok, ofResult_bind_eq_ok, transitionTo_eq_ok,
    updateValidator_eq, modify_eq_ok, not_not] at h
  obtain ⟨v, hv, hst, _, ⟨-, rfl⟩, rfl⟩ := h
  exact ⟨v, hv, hst, rfl⟩

theorem startUnstake_eq_ok (h : startUnstake id epoch s = .ok u s') : ∃ v,
    getValidator id s = .ok v ∧ isValidTransition v.status validatorUnstaking = true ∧
      s' = s.setBytes (validatorKey v.consensusID)
        { v with status := validatorUnstaking, unstakeEpoch := epoch }.stored.encode := by
  unfold startUnstake at h
  simp only [asks_bind_eq_ok, ofResult_bind_eq_ok, transitionTo_eq_ok, updateValidator_eq,
    modify_eq_ok] at h
  obtain ⟨v, hv, _, ⟨hedge, rfl⟩, rfl⟩ := h
  exact ⟨v, hv, hedge, rfl⟩

theorem releaseStake_eq_ok (h : releaseStake id s = .ok u s') : ∃ v t, getValidator id s = .ok v ∧
    v.status = validatorUnstaking ∧ addBalance v.operatorAddress v.bondedStake s = .ok () t ∧
      removeValidator id t = .ok u s' := by
  unfold releaseStake at h
  simp only [wrapErr_bind_eq_ok, asks_bind_eq_ok, failIf_bind_eq_ok, not_not] at h
  obtain ⟨v, hv, hst, _, -, h⟩ := h
  obtain ⟨_, t, hadd, hremove⟩ := bind_eq_ok.1 h
  exact ⟨v, t, hv, hst, hadd, hremove⟩

/-! ### Registration -/

structure Enrolls (s : InMemoryState) (v : Validator) (count : UInt64) : Prop where
  derived : v.consensusID = deriveConsensusID v.publicKey.bytes
  fresh : s.getBytes (validatorKey v.consensusID) = none
  freshPubkey : s.getBytes (validatorPubkeyKey v.publicKey) = none
  freshOperator : s.getBytes (validatorOperatorKey v.operatorAddress) = none
  count_eq : validatorCount s = .ok count
  pending : v.status = validatorPending
  power : v.votingPower = 0

variable {count : UInt64}

theorem Enrolls.stored (h : Enrolls s v count) : v.stored = v := by
  have hne : v.status ≠ validatorActive := by rw [h.pending]; decide
  unfold Validator.stored
  rw [if_neg hne, ← h.power]

def enrolled (s : InMemoryState) (v : Validator) (count : UInt64) : InMemoryState :=
  ((((s.setBytes (validatorKey v.consensusID) v.encode).setBytes
    (validatorPubkeyKey v.publicKey) v.consensusID.bytes).setBytes
      (validatorOperatorKey v.operatorAddress) v.consensusID.bytes).setBytes
        (validatorBySeqKey (count + 1)) v.consensusID.bytes).setBytes
          keyValidatorCount (putUint64 (count + 1))

omit [Crypto] in
theorem newValidator_eq_ok {pubKey : PublicKey} {operator : Address} {stake : Amount}
    {commission : UInt16} : newValidator id pubKey operator stake commission epoch = .ok v ↔
      minimumValidatorStake.toNat ≤ stake.val ∧ commission ≤ commissionRateMaxBasisPoints ∧
        v = ⟨id, pubKey, operator, operator, stake, validatorPending, commission, 0, 0, epoch + 1,
          0⟩ := by
  unfold newValidator
  simp only [except_bind_eq_ok]
  constructor
  · rintro ⟨_, hstake, _, hcomm, h⟩
    cases h
    exact ⟨not_lt.1 (check_eq_ok.1 hstake), UInt16.not_lt.1 (check_eq_ok.1 hcomm), rfl⟩
  · rintro ⟨hstake, hcomm, rfl⟩
    exact ⟨(), check_eq_ok.2 (not_lt.2 hstake), (), check_eq_ok.2 (UInt16.not_lt.2 hcomm), rfl⟩

variable {pubKey : PublicKey} {operator : Address} {stake : Amount} {commission : UInt16}

omit [Crypto] in
theorem totalBonded_of_keys (h : SameOutside [str "validator/"] s s') :
    totalBonded s' = totalBonded s := by
  unfold totalBonded
  rw [h keyTotalBonded (not_startsWith_append (t := keyTotalBonded) (by decide) [])]

theorem enrolled_keys (s : InMemoryState) (v : Validator) (count : UInt64) :
    SameOutside [str "validator/"] s (enrolled s v count) := by
  intro a ha
  have hne {key : Bytes} (h : str "validator/" <+: key) : key ≠ a := by
    rintro rfl
    exact ha ⟨_, List.mem_singleton_self _, h⟩
  unfold enrolled
  rw [getBytes_setBytes_of_ne (hne keyValidatorCount_starts),
    getBytes_setBytes_of_ne (hne (validatorBySeqKey_starts _)),
    getBytes_setBytes_of_ne (hne (validatorOperatorKey_starts _)),
    getBytes_setBytes_of_ne (hne (validatorPubkeyKey_starts _)),
    getBytes_setBytes_of_ne (hne (validatorKey_starts _))]

def addStake (id : Address) (stake : Amount) : Exec InMemoryState Address := do
  let total ← asks totalBonded
  let newTotal ← ofResult (total.add stake)
  setTotalBonded newTotal
  return id

omit [Crypto] in
theorem addStake_eq_ok {a : Address} : addStake id stake t = .ok a s' ↔ ∃ total,
    ∃ newTotal : Amount, a = id ∧ totalBonded t = .ok total ∧
      total.val + stake.val = newTotal.val ∧
      s' = t.setBytes keyTotalBonded newTotal.marshalBinary := by
  unfold addStake setTotalBonded
  simp only [asks_bind_eq_ok, ofResult_bind_eq_ok, modify_bind, pure_eq_ok, Amount.add_eq_ok]
  constructor
  · rintro ⟨total, htotal, newTotal, hadd, rfl, rfl⟩
    exact ⟨total, newTotal, rfl, htotal, hadd, rfl⟩
  · rintro ⟨total, newTotal, rfl, htotal, hadd, rfl⟩
    exact ⟨total, htotal, newTotal, hadd, rfl, rfl⟩

omit [Crypto] in
theorem addStake_atomic : Atomic (addStake id stake) := by
  refine Atomic.bind (Steps.asks _) fun _ => Atomic.bind (Steps.ofResult _) fun _ => ?_
  intro s e s' h
  cases h

theorem registerValidator_of_enrolls (henrol : Enrolls s v count)
    (hv : newValidator (deriveConsensusID pubKey.bytes) pubKey operator stake commission epoch =
      .ok v) : registerValidator pubKey operator stake commission epoch s =
        addStake (deriveConsensusID pubKey.bytes) stake (enrolled s v count) := by
  have hvalid := hv
  obtain ⟨-, -, rfl⟩ := newValidator_eq_ok.1 hv
  have hid : ¬ (s.getBytes (validatorKey (deriveConsensusID pubKey.bytes))).isSome :=
    Option.not_isSome_iff_eq_none.2 henrol.fresh
  have hpubkey : ¬ (s.getBytes (validatorPubkeyKey pubKey)).isSome :=
    Option.not_isSome_iff_eq_none.2 henrol.freshPubkey
  have hoperator : ¬ (s.getBytes (validatorOperatorKey operator)).isSome :=
    Option.not_isSome_iff_eq_none.2 henrol.freshOperator
  unfold registerValidator
  rw [get_bind, failIf_bind hid, get_bind, failIf_bind hpubkey, get_bind, failIf_bind hoperator,
    asks_bind henrol.count_eq, ofResult_bind hvalid, modify_bind, modify_bind]
  rfl

theorem registerValidator_cases (pubKey : PublicKey) (operator : Address) (stake : Amount)
    (commission : UInt16) (epoch : UInt64) (s : InMemoryState) :
    (∃ e, registerValidator pubKey operator stake commission epoch s = .error e s) ∨
      ∃ v count, Enrolls s v count ∧
        newValidator (deriveConsensusID pubKey.bytes) pubKey operator stake commission epoch =
          .ok v ∧
        registerValidator pubKey operator stake commission epoch s =
          addStake (deriveConsensusID pubKey.bytes) stake (enrolled s v count) := by
  by_cases hall : ∃ v count, Enrolls s v count ∧
      newValidator (deriveConsensusID pubKey.bytes) pubKey operator stake commission epoch = .ok v
  · obtain ⟨v, count, henrol, hv⟩ := hall
    exact .inr ⟨v, count, henrol, hv, registerValidator_of_enrolls henrol hv⟩
  refine .inl ?_
  unfold registerValidator
  rw [get_bind]
  by_cases hid : (s.getBytes (validatorKey (deriveConsensusID pubKey.bytes))).isSome
  · exact ⟨_, bind_eq_error_of (failIf_of _ hid _)⟩
  rw [failIf_bind hid, get_bind]
  by_cases hpubkey : (s.getBytes (validatorPubkeyKey pubKey)).isSome
  · exact ⟨_, bind_eq_error_of (failIf_of _ hpubkey _)⟩
  rw [failIf_bind hpubkey, get_bind]
  by_cases hoperator : (s.getBytes (validatorOperatorKey operator)).isSome
  · exact ⟨_, bind_eq_error_of (failIf_of _ hoperator _)⟩
  rw [failIf_bind hoperator]
  cases hcount : validatorCount s with
  | error e => exact ⟨e, bind_eq_error_of (asks_of_error hcount)⟩
  | ok count =>
    rw [asks_bind hcount]
    cases hv : newValidator (deriveConsensusID pubKey.bytes) pubKey operator stake commission
        epoch with
    | error e => exact ⟨e, rfl⟩
    | ok v =>
      -- then nothing stands in the way
      refine absurd ⟨v, count, ?_, hv⟩ hall
      rw [Option.not_isSome_iff_eq_none] at hid hpubkey hoperator
      obtain ⟨-, -, rfl⟩ := newValidator_eq_ok.1 hv
      exact ⟨rfl, hid, hpubkey, hoperator, hcount, rfl, rfl⟩

theorem registerValidator_eq_ok
    (h : registerValidator pubKey operator stake commission epoch s = .ok id s') :
      ∃ v count total, ∃ newTotal : Amount, Enrolls s v count ∧
        newValidator id pubKey operator stake commission epoch = .ok v ∧
        totalBonded s = .ok total ∧ total.val + stake.val = newTotal.val ∧
        s' = (enrolled s v count).setBytes keyTotalBonded newTotal.marshalBinary := by
  rcases registerValidator_cases pubKey operator stake commission epoch s with
    ⟨e, he⟩ | ⟨v, count, henrol, hv, hrun⟩
  · cases he.symm.trans h
  · obtain ⟨total, newTotal, rfl, htotal, hadd, rfl⟩ := addStake_eq_ok.1 (hrun.symm.trans h)
    rw [totalBonded_of_keys (enrolled_keys s v count)] at htotal
    exact ⟨v, count, total, newTotal, henrol, hv, htotal, hadd, rfl⟩

/-! ### Operations that fail before they write -/

theorem slash_atomic : Atomic (slash id amount) := by
  refine Atomic.bind (Steps.asks _) fun _ => Atomic.bind (Steps.ofResult _) fun _ => ?_
  refine Atomic.bind (Steps.asks _) fun _ => Atomic.bind (Steps.ofResult _) fun _ => ?_
  -- from here on nothing fails
  intro s e s' h
  cases h

theorem jailValidator_atomic : Atomic (jailValidator id epoch) :=
  Atomic.bind (Steps.asks _) fun _ => Atomic.bind (Steps.failIf _ _) fun _ =>
    Atomic.bind (Steps.ofResult _) fun _ => Atomic.modify _

theorem startUnstake_atomic : Atomic (startUnstake id epoch) :=
  Atomic.bind (Steps.asks _) fun _ => Atomic.bind (Steps.ofResult _) fun _ => Atomic.modify _

/-! ### Where the operations write -/

omit [Crypto] in
theorem setTotalBonded_keys (amount : Amount) :
    Steps (SameOutside registryTexts) (setTotalBonded amount) :=
  setBytes_keys startsWith_keyTotalBonded _

omit [Crypto] in
theorem updateValidator_keys (v : Validator) :
    Steps (SameOutside registryTexts) (updateValidator v) :=
  setBytes_keys (startsWith_append (by decide) _) _

theorem registerValidator_keys : Steps (SameOutside registryTexts)
    (registerValidator pubKey operator stake commission epoch) := by
  intro s
  obtain ⟨e, herr⟩ | ⟨v, count, -, -, hrun⟩ :=
    registerValidator_cases pubKey operator stake commission epoch s
  · rw [herr]
    exact fun _ _ => rfl
  · rw [hrun]
    refine IsTrans.trans _ _ _ ((enrolled_keys s v count).mono (by decide)) ?_
    exact ((Steps.asks _).bind fun _ => (Steps.ofResult _).bind fun _ =>
      (setTotalBonded_keys _).bind fun _ => Steps.pure _) (enrolled s v count)

theorem bond_keys : Steps (SameOutside registryTexts) (bond sender id amount) := by
  refine ((Steps.asks _).wrapErr _).bind fun _ => (Steps.failIf _ _).bind fun _ => ?_
  refine (Steps.asks _).bind fun _ => (Steps.failIf _ _).bind fun _ => ?_
  refine (subBalance_keys _ _).bind fun _ => (Steps.ofResult _).bind fun _ => ?_
  refine (Steps.asks _).bind fun _ => (Steps.ofResult _).bind fun _ => ?_
  exact (setTotalBonded_keys _).bind fun _ => (updateValidator_keys _).bind fun _ => Steps.pure _

theorem slash_keys : Steps (SameOutside registryTexts) (slash id amount) := by
  refine (Steps.asks _).bind fun _ => (Steps.ofResult _).bind fun _ => ?_
  refine (Steps.asks _).bind fun _ => (Steps.ofResult _).bind fun _ => ?_
  exact (setTotalBonded_keys _).bind fun _ => (updateValidator_keys _).bind fun _ => Steps.pure _

theorem applySlash_keys (percent jailEpochs : UInt64) :
    Steps (SameOutside registryTexts) (applySlash id percent jailEpochs) := by
  refine (Steps.asks _).bind fun _ => (Steps.failIf _ _).bind fun _ => ?_
  refine (Steps.ofResult _).bind fun _ => Steps.ite (Steps.pure _) ?_
  refine ((Steps.ofResult _).wrapErr _).bind fun _ => (Steps.asks _).bind fun _ => ?_
  refine ((Steps.ofResult _).wrapErr _).bind fun _ => (setTotalBonded_keys _).bind fun _ => ?_
  refine Steps.ite ?_ (updateValidator_keys _)
  exact (Steps.asks _).bind fun _ => ((Steps.ofResult _).wrapErr _).bind fun _ =>
    updateValidator_keys _

theorem StakingOp.run_keys (o : StakingOp) : Steps (SameOutside registryTexts) o.run := by
  cases o with
  | register pubKey operator stake commission epoch =>
    exact registerValidator_keys.bind fun _ => Steps.pure _
  | bond sender id amount => exact bond_keys.bind fun _ => Steps.pure _
  | slash id amount => exact slash_keys.bind fun _ => Steps.pure _
  | applySlash id percent jailEpochs => exact applySlash_keys _ _
  | releaseStake id => exact releaseStake_keys
  | activate id epoch => exact activateValidator_keys _
  | jail id untilEpoch =>
    exact (Steps.asks _).bind fun _ => (Steps.failIf _ _).bind fun _ =>
      (Steps.ofResult _).bind fun _ => updateValidator_keys _
  | unjail id => exact unjailValidator_keys
  | startUnstake id epoch =>
    exact (Steps.asks _).bind fun _ => (Steps.ofResult _).bind fun _ => updateValidator_keys _
  | remove id => exact removeValidator_keys

end Dsn
