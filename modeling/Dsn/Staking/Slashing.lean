import Dsn.Lib.Shares
import Dsn.Staking.Records

/-!
# What a slash does

`ApplySlash` in closed form: who loses how much, and what the record becomes.
-/

namespace Dsn

open Go InMemoryState

def Validator.penalized (v : Validator) (newStake : Amount) (jailedUntil : UInt64) : Validator :=
  if v.status = validatorActive then
    { v with
      bondedStake := newStake
      status := validatorJailed
      jailedUntil := jailedUntil
      votingPower := 0 }
  else { v with bondedStake := newStake, votingPower := 0 }

namespace Validator

variable (v : Validator) (newStake : Amount) (jailedUntil : UInt64)

@[simp] theorem penalized_consensusID :
    (v.penalized newStake jailedUntil).consensusID = v.consensusID := by
  unfold penalized
  split_ifs <;> rfl

@[simp] theorem penalized_bondedStake :
    (v.penalized newStake jailedUntil).bondedStake = newStake := by
  unfold penalized
  split_ifs <;> rfl

@[simp] theorem penalized_votingPower : (v.penalized newStake jailedUntil).votingPower = 0 := by
  unfold penalized
  split_ifs <;> rfl

theorem penalized_status_ne_active :
    (v.penalized newStake jailedUntil).status ≠ validatorActive := by
  unfold penalized
  split_ifs with h
  · show validatorJailed ≠ validatorActive
    decide
  · exact h

theorem penalized_status_ne_removed (h : v.status ≠ validatorRemoved) :
    (v.penalized newStake jailedUntil).status ≠ validatorRemoved := by
  unfold penalized
  split_ifs
  · show validatorJailed ≠ validatorRemoved
    decide
  · exact h

end Validator

section

variable [Crypto] {s s' : InMemoryState} {id : Address} {percent jailEpochs : UInt64}

structure Penalty (s : InMemoryState) (id : Address) (percent : UInt64) (v : Validator)
    (amount newStake total newTotal : Amount) (epoch : UInt64) : Prop where
  found : getValidator id s = .ok v
  status_ne : v.status ≠ validatorRemoved
  amount_eq : slashAmount percent v.bondedStake = .ok amount
  amount_pos : 0 < amount.val
  stake_eq : v.bondedStake.val = newStake.val + amount.val
  total_eq : totalBonded s = .ok total
  total_sub : total.val = newTotal.val + amount.val
  epoch_eq : v.status = validatorActive → currentEpoch s = .ok epoch

def penaltyState (s : InMemoryState) (jailEpochs : UInt64) (v : Validator)
    (newStake newTotal : Amount) (epoch : UInt64) : InMemoryState :=
  (s.setBytes keyTotalBonded newTotal.marshalBinary).setBytes (validatorKey v.consensusID)
    (v.penalized newStake (epoch + jailEpochs)).encode

omit [Crypto] in
theorem currentEpoch_setBytes {key : Bytes} (h : key ≠ keyCurrentEpoch) (value : Bytes)
    (s : InMemoryState) : currentEpoch (s.setBytes key value) = currentEpoch s := by
  unfold currentEpoch readCounter
  rw [getBytes_setBytes_of_ne h]

variable {u : Unit} {v : Validator}

omit [Crypto] in
theorem jail_eq_ok {newStake : Amount} {t : InMemoryState} : (if v.status = validatorActive then do
        let epoch ← asks currentEpoch
        let v ← wrapErr "jail validator" (ofResult
          (({ v with bondedStake := newStake } : Validator).transitionTo validatorJailed))
        updateValidator { v with jailedUntil := epoch + jailEpochs }
      else updateValidator { v with bondedStake := newStake } : Exec InMemoryState Unit) t =
        .ok u s' ↔
      ∃ epoch, (v.status = validatorActive → currentEpoch t = .ok epoch) ∧
        s' = t.setBytes (validatorKey v.consensusID)
          (v.penalized newStake (epoch + jailEpochs)).encode := by
  unfold Validator.penalized
  split_ifs with hst
  · simp only [asks_bind_eq_ok, wrapErr_bind_eq_ok, ofResult_bind_eq_ok, transitionTo_eq_ok,
      updateValidator_eq, modify_eq_ok]
    constructor
    · rintro ⟨epoch, hepoch, _, ⟨-, rfl⟩, rfl⟩
      exact ⟨epoch, fun _ => hepoch, rfl⟩
    · rintro ⟨epoch, hepoch, rfl⟩
      exact ⟨epoch, hepoch hst, _, ⟨by rw [hst]; decide, rfl⟩, rfl⟩
  · rw [updateValidator_eq, modify_eq_ok, Validator.stored, if_neg hst]
    constructor
    · rintro rfl
      exact ⟨0, fun h => absurd h hst, rfl⟩
    · rintro ⟨_, -, rfl⟩
      rfl

theorem applySlash_eq_ok : applySlash id percent jailEpochs s = .ok u s' ↔
    (∃ v amount, getValidator id s = .ok v ∧ v.status ≠ validatorRemoved ∧
      slashAmount percent v.bondedStake = .ok amount ∧ amount.val = 0 ∧ s' = s) ∨
    ∃ v amount newStake total newTotal epoch,
      Penalty s id percent v amount newStake total newTotal epoch ∧
        s' = penaltyState s jailEpochs v newStake newTotal epoch := by
  constructor
  · intro h
    obtain ⟨v, hv, h⟩ := asks_bind_eq_ok.1 h
    obtain ⟨hst, h⟩ := failIf_bind_eq_ok.1 h
    obtain ⟨amount, hamount, h⟩ := ofResult_bind_eq_ok.1 h
    split_ifs at h with hzero
    · exact .inl ⟨v, amount, hv, hst, hamount, of_decide_eq_true hzero, (pure_eq_ok.1 h).2.symm⟩
    obtain ⟨newStake, hsub, h⟩ := ofResult_bind_eq_ok.1 (wrapErr_bind_eq_ok.1 h)
    obtain ⟨total, htotal, h⟩ := asks_bind_eq_ok.1 h
    obtain ⟨newTotal, htsub, h⟩ := ofResult_bind_eq_ok.1 (wrapErr_bind_eq_ok.1 h)
    obtain ⟨epoch, hepoch, rfl⟩ := jail_eq_ok.1 h
    rw [currentEpoch_setBytes (by decide)] at hepoch
    exact .inr ⟨v, amount, newStake, total, newTotal, epoch, ⟨hv, hst, hamount,
      Nat.pos_of_ne_zero fun h0 => hzero (decide_eq_true h0), Amount.sub_eq_ok.1 hsub, htotal,
      Amount.sub_eq_ok.1 htsub, hepoch⟩, rfl⟩
  · rintro (⟨v, amount, hv, hst, hamount, hzero, rfl⟩ |
      ⟨v, amount, newStake, total, newTotal, epoch, h, rfl⟩)
    · have hz : amount.isZero = true := decide_eq_true hzero
      unfold applySlash
      rw [asks_bind hv, failIf_bind hst, ofResult_bind hamount, if_pos hz]
      rfl
    · have hne : ¬ amount.isZero = true := fun h0 => h.amount_pos.ne' (of_decide_eq_true h0)
      unfold applySlash
      rw [asks_bind h.found, failIf_bind h.status_ne, ofResult_bind h.amount_eq, if_neg hne,
        wrapErr_bind (ofResult_eq_ok.2 ⟨Amount.sub_eq_ok.2 h.stake_eq, rfl⟩), asks_bind h.total_eq,
        wrapErr_bind (ofResult_eq_ok.2 ⟨Amount.sub_eq_ok.2 h.total_sub, rfl⟩)]
      refine jail_eq_ok.2 ⟨epoch, ?_, rfl⟩
      rw [currentEpoch_setBytes (by decide)]
      exact h.epoch_eq

theorem applySlash_error {e : Error} (h : applySlash id percent jailEpochs s = .error e s') :
    SameOutside [keyTotalBonded] s s' := by
  rcases asks_bind_eq_error h with rfl | ⟨v, -, h⟩
  · exact Std.Refl.refl _
  rcases failIf_bind_eq_error h with rfl | ⟨-, h⟩
  · exact Std.Refl.refl _
  rcases eq_or_of_bind_eq_error (Steps.ofResult _) h with rfl | ⟨amount, -, h⟩
  · exact Std.Refl.refl _
  split_ifs at h
  · cases h
  rcases ofResult_bind_eq_error h with rfl | ⟨newStake, -, h⟩
  · exact Std.Refl.refl _
  rcases asks_bind_eq_error h with rfl | ⟨total, -, h⟩
  · exact Std.Refl.refl _
  rcases ofResult_bind_eq_error h with rfl | ⟨newTotal, -, h⟩
  · exact Std.Refl.refl _
  -- the record is written last
  have hatomic : Atomic (if v.status = validatorActive then do
      let epoch ← asks currentEpoch
      let v ← wrapErr "jail validator" (ofResult
        (({ v with bondedStake := newStake } : Validator).transitionTo validatorJailed))
      updateValidator { v with jailedUntil := epoch + jailEpochs }
    else updateValidator { v with bondedStake := newStake } : Exec InMemoryState Unit) := by
    split_ifs
    · exact Atomic.bind (Steps.asks _) fun _ =>
        Atomic.bind ((Steps.ofResult _).wrapErr _) fun _ => Atomic.modify _
    · exact Atomic.modify _
  obtain rfl := hatomic _ _ _ h
  exact sameOutside_setBytes ⟨_, List.mem_singleton_self _, List.prefix_rfl⟩ _ _

/-! ### The percentage -/

/-- Stake and total lose the same amount. -/
structure TakesExactly (n : ℕ) (id : Address) (s s' : InMemoryState) : Prop where
  stake : ∃ v v', getValidator id s = .ok v ∧ getValidator id s' = .ok v' ∧
    v.bondedStake.val = v'.bondedStake.val + n
  total : ∀ total, totalBonded s = .ok total → ∃ total', totalBonded s' = .ok total' ∧
    total.val = total'.val + n

variable {stake amount : Amount}

omit [Crypto] in
theorem slashAmount_eq_ok (h : slashAmount percent stake = .ok amount) :
    amount.val = stake.val * percent.toNat % 2 ^ 64 / 10000 := by
  unfold slashAmount at h
  split_ifs at h
  cases h
  rw [Amount.ofUInt64_val, UInt64.toNat_div, UInt64.toNat_mul, stakeToUint64_toNat, Nat.mod_mul_mod]
  rfl

/-- The units of stake that `SlashAmount` computes, in the arithmetic of `uint64`. -/
def slashUnits (percent : UInt64) (stake : Amount) : ℕ :=
  stake.val * percent.toNat % 2 ^ 64 / 10000

/-- A slash of the record `v` goes through and costs it stake. -/
structure Slashable (s : InMemoryState) (percent : UInt64) (v : Validator) : Prop where
  status_ne : v.status ≠ validatorRemoved
  percent_le : percent ≤ 10000
  units_pos : 0 < slashUnits percent v.bondedStake
  bonded : ∃ total, totalBonded s = .ok total ∧ slashUnits percent v.bondedStake ≤ total.val
  epoch : v.status = validatorActive → ∃ epoch, currentEpoch s = .ok epoch

omit [Crypto] in
theorem slashUnits_le (h : percent ≤ 10000) (stake : Amount) :
    slashUnits percent stake ≤ stake.val := by
  unfold slashUnits
  calc stake.val * percent.toNat % 2 ^ 64 / 10000
      ≤ stake.val * percent.toNat / 10000 := Nat.div_le_div_right (Nat.mod_le _ _)
    _ ≤ stake.val * 10000 / 10000 := Nat.div_le_div_right (Nat.mul_le_mul_left _ h)
    _ = stake.val := Nat.mul_div_cancel _ (by decide)

omit [Crypto] in
theorem slashAmount_of_le (h : percent ≤ 10000) (stake : Amount) :
    ∃ amount, slashAmount percent stake = .ok amount :=
  ⟨_, if_neg (UInt64.not_lt.2 h)⟩

omit [Crypto] in
theorem Amount.exists_sub {a : Amount} {n : ℕ} (h : n ≤ a.val) :
    ∃ b : Amount, a.val = b.val + n :=
  ⟨⟨a.val - n, (Nat.sub_le _ _).trans_lt a.lt⟩, (Nat.sub_add_cancel h).symm⟩

/-- What the records before the call say about a penalty. -/
theorem exists_penalty_iff (hv : getValidator id s = .ok v) :
    (∃ amount newStake total newTotal epoch,
      Penalty s id percent v amount newStake total newTotal epoch) ↔ Slashable s percent v := by
  constructor
  · rintro ⟨amount, newStake, total, newTotal, epoch, h⟩
    have hunits : slashUnits percent v.bondedStake = amount.val := (slashAmount_eq_ok h.amount_eq).symm
    have hle : percent ≤ 10000 := by
      have := h.amount_eq
      unfold slashAmount at this
      split_ifs at this with hgt
      exact UInt64.not_lt.1 hgt
    refine ⟨h.status_ne, hle, hunits ▸ h.amount_pos, ⟨total, h.total_eq, ?_⟩,
      fun hactive => ⟨epoch, h.epoch_eq hactive⟩⟩
    rw [hunits, h.total_sub]
    exact Nat.le_add_left _ _
  · intro h
    obtain ⟨amount, hamount⟩ := slashAmount_of_le h.percent_le v.bondedStake
    have hunits : amount.val = slashUnits percent v.bondedStake := slashAmount_eq_ok hamount
    obtain ⟨total, htotal, hle⟩ := h.bonded
    obtain ⟨newTotal, hnewTotal⟩ := Amount.exists_sub (hunits ▸ hle)
    obtain ⟨newStake, hnewStake⟩ :=
      Amount.exists_sub (hunits ▸ slashUnits_le h.percent_le v.bondedStake)
    have hepoch : ∃ epoch, v.status = validatorActive → currentEpoch s = .ok epoch := by
      by_cases hactive : v.status = validatorActive
      · obtain ⟨epoch, hepoch⟩ := h.epoch hactive
        exact ⟨epoch, fun _ => hepoch⟩
      · exact ⟨0, fun hst => absurd hst hactive⟩
    obtain ⟨epoch, hepoch⟩ := hepoch
    exact ⟨amount, newStake, total, newTotal, epoch, hv, h.status_ne, hamount,
      hunits ▸ h.units_pos, hnewStake, htotal, hnewTotal, hepoch⟩

omit [Crypto] in
theorem slashAmount_exact_iff (h : slashAmount percent stake = .ok amount) :
    amount.val = stake.val * percent.toNat / 10000 ↔ stake.val * percent.toNat < 2 ^ 64 := by
  rw [slashAmount_eq_ok h]
  exact Shares.mod_div_eq_iff (by decide) (by decide)

variable {n : ℕ}

theorem takesExactly_self_iff (hv : getValidator id s = .ok v) : TakesExactly n id s s ↔ n = 0 := by
  constructor
  · intro h
    obtain ⟨w, w', hw, hw', heq⟩ := h.stake
    cases hw.symm.trans hw'
    omega
  · rintro rfl
    exact ⟨⟨v, v, hv, hv, rfl⟩, fun total htotal => ⟨total, htotal, rfl⟩⟩

theorem takesExactly_penalty_iff {newStake total newTotal : Amount}
    {epoch : UInt64} (h : Penalty s id percent v amount newStake total newTotal epoch) :
    TakesExactly n id s (penaltyState s jailEpochs v newStake newTotal epoch) ↔
      n = amount.val ∧ v.consensusID = id := by
  have htotal : totalBonded (penaltyState s jailEpochs v newStake newTotal epoch) =
      .ok newTotal := by
    unfold penaltyState
    rw [totalBonded_setBytes (validatorKey_ne_totalBonded _), totalBonded_setBytes_self]
  constructor
  · intro htakes
    obtain ⟨total', htotal', hn⟩ := htakes.total total h.total_eq
    cases htotal.symm.trans htotal'
    have hamount : n = amount.val := by
      have := h.total_sub
      omega
    refine ⟨hamount, ?_⟩
    by_contra hid
    -- the record is written under the name it carries
    have hsame : getValidator id (penaltyState s jailEpochs v newStake newTotal epoch) = .ok v := by
      unfold penaltyState
      rw [getValidator_setBytes_of_ne fun hk => hid (validatorKey_injective hk),
        getValidator_setBytes_of_ne (validatorKey_ne_totalBonded _).symm, h.found]
    obtain ⟨w, w', hw, hw', heq⟩ := htakes.stake
    cases h.found.symm.trans hw
    cases hsame.symm.trans hw'
    have := h.amount_pos
    omega
  · rintro ⟨rfl, hid⟩
    refine ⟨⟨v, v.penalized newStake (epoch + jailEpochs), h.found, ?_, ?_⟩,
      fun total' htotal' => ?_⟩
    · unfold penaltyState
      rw [hid]
      exact getValidator_setBytes_self _ _ _
    · rw [Validator.penalized_bondedStake]
      exact h.stake_eq
    · cases h.total_eq.symm.trans htotal'
      exact ⟨newTotal, htotal, h.total_sub⟩

/-- When a successful slash takes the stated part of the stake. -/
theorem slash_exact_iff {v : Validator} (hv : getValidator id s = .ok v)
    (h : applySlash id percent jailEpochs s = .ok () s') :
    TakesExactly (v.bondedStake.val * percent.toNat / 10000) id s s' ↔
      v.bondedStake.val * percent.toNat < 2 ^ 64 ∧
        (v.bondedStake.val * percent.toNat < 10000 ∨ v.consensusID = id) := by
  rcases applySlash_eq_ok.1 h with ⟨w, amount, hw, -, hamount, hzero, rfl⟩ |
    ⟨w, amount, newStake, total, newTotal, epoch, hpen, rfl⟩
  · cases hv.symm.trans hw
    have hexact := slashAmount_exact_iff hamount
    rw [takesExactly_self_iff hv]
    omega
  · cases hv.symm.trans hpen.found
    have hexact := slashAmount_exact_iff hpen.amount_eq
    rw [takesExactly_penalty_iff hpen, eq_comm, hexact]
    refine and_congr_right fun hfits => ?_
    have hpos := hpen.amount_pos
    exact ⟨.inr, fun hor => hor.resolve_left (by omega)⟩

end

open Sample

def bondedAlone (stake : Amount) : InMemoryState :=
  (singleRegistry { sampleValidator with bondedStake := stake }).setBytes keyTotalBonded
    stake.marshalBinary

theorem slash_exact_sample : ∃ s', applySlash zeroAddress 1000 1 (bondedAlone (.ofUInt64 1000)) =
    .ok () s' ∧ TakesExactly 100 zeroAddress (bondedAlone (.ofUInt64 1000)) s' := by
  obtain ⟨_, s', hrun, -⟩ := exists_of_succeedsWith (show succeedsWith (fun _ _ => true)
    (applySlash zeroAddress 1000 1 (bondedAlone (.ofUInt64 1000))) = true by decide +kernel)
  have hv : getValidator zeroAddress (bondedAlone (.ofUInt64 1000)) =
      .ok { sampleValidator with bondedStake := .ofUInt64 1000 } := by decide +kernel
  exact ⟨s', hrun, (slash_exact_iff hv hrun).2 ⟨by decide, .inr rfl⟩⟩

theorem large_stake_not_slashed : ¬ ∀ (_ : Crypto) (s s' : InMemoryState) (id : Address)
    (percent jailEpochs : UInt64) (v : Validator), getValidator id s = .ok v →
      v.status ≠ validatorRemoved → percent ≤ 10000 →
        applySlash id percent jailEpochs s = .ok () s' →
          TakesExactly (v.bondedStake.val * percent.toNat / 10000) id s s' := by
  intro h
  have hv : getValidator zeroAddress (bondedAlone (.ofUInt64 9223372036854775808)) =
      .ok { sampleValidator with bondedStake := .ofUInt64 9223372036854775808 } := by decide +kernel
  have hrun : applySlash zeroAddress 1000 1 (bondedAlone (.ofUInt64 9223372036854775808)) =
      .ok () (bondedAlone (.ofUInt64 9223372036854775808)) :=
    applySlash_eq_ok.2 (.inl ⟨_, .ofUInt64 0, hv, by decide, by decide +kernel, rfl, rfl⟩)
  have htakes := h _ _ _ _ _ _ _ hv (by decide) (by decide) hrun
  rw [takesExactly_self_iff hv] at htakes
  exact absurd htakes (by decide +kernel)

end Dsn
