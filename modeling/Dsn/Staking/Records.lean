import Dsn.Staking.Epoch

/-!
# Changes of the validator records

How the operations and the epoch transition change records: which relation between old and new
record holds, which keys are written, how a transition can fail.
-/

namespace Dsn

open Go InMemoryState

def Validator.stored (v : Validator) : Validator :=
  { v with votingPower := if v.status = validatorActive then stakeToUint64 v.bondedStake else 0 }

def AnyChange (_ _ : Validator) : Prop := True

instance : Std.Refl AnyChange := ⟨fun _ => trivial⟩

instance : IsTrans Validator AnyChange := ⟨fun _ _ _ _ _ => trivial⟩

theorem updateValidator_eq (v : Validator) :
    updateValidator v = modify (setBytes (validatorKey v.consensusID) v.stored.encode) := rfl

variable [Crypto] {s s' : InMemoryState} {id : Address} {v : Validator}

/-! ### Reading records -/

theorem getValidator_congr (h : s'.getBytes (validatorKey id) = s.getBytes (validatorKey id)) :
    getValidator id s' = getValidator id s := by
  unfold getValidator
  rw [h]

theorem getValidator_ne_ok_of_none {v : Validator}
    (h : s.getBytes (validatorKey id) = none) : getValidator id s ≠ .ok v := by
  unfold getValidator
  rw [h]
  exact nofun

theorem getValidator_setBytes_self (id : Address) (v : Validator) (s : InMemoryState) :
    getValidator id (s.setBytes (validatorKey id) v.encode) = .ok v := by
  unfold getValidator
  rw [getBytes_setBytes_self]
  exact decodeFrom_of_reads v.decode_encode

variable {key : Bytes}

theorem getValidator_setBytes_of_ne (h : key ≠ validatorKey id) (value : Bytes)
    (s : InMemoryState) : getValidator id (s.setBytes key value) = getValidator id s :=
  getValidator_congr (getBytes_setBytes_of_ne h value s)

omit [Crypto] in
theorem totalBonded_setBytes (h : key ≠ keyTotalBonded) (value : Bytes)
    (s : InMemoryState) : totalBonded (s.setBytes key value) = totalBonded s := by
  unfold totalBonded
  rw [getBytes_setBytes_of_ne h]

omit [Crypto] in
theorem totalBonded_setBytes_self (total : Amount) (s : InMemoryState) :
    totalBonded (s.setBytes keyTotalBonded total.marshalBinary) = .ok total := by
  unfold totalBonded
  rw [getBytes_setBytes_self]
  exact total.unmarshalBinary_marshalBinary

theorem mem_getActiveValidators {active : List Validator} (h : getActiveValidators s = .ok active)
    (hv : v ∈ active) : ∃ id, getValidator id s = .ok v ∧ v.status = validatorActive := by
  obtain ⟨count, -, h⟩ := except_bind_eq_ok.1 h
  cases h
  obtain ⟨seq, -, hseq⟩ := List.mem_filterMap.1 ((sortSlice_perm _ _).mem_iff.1 hv)
  unfold validatorAt at hseq
  cases hid : getValidatorIDBySeq seq s with
  | error e => rw [hid] at hseq; cases hseq
  | ok id =>
    rw [hid] at hseq
    cases hget : getValidator id s with
    | error e => simp [hget] at hseq
    | ok w =>
      simp only [hget] at hseq
      split_ifs at hseq with hst
      cases hseq
      exact ⟨id, hget, hst⟩

/-- Each record is stored under its own identity. -/
def Filed (s : InMemoryState) : Prop := ∀ id v, getValidator id s = .ok v → v.consensusID = id

/-! ### Records along a relation -/

def Records (L : Validator → Validator → Prop) (s s' : InMemoryState) : Prop :=
  Filed s → Filed s' ∧ ∀ id v', getValidator id s' = .ok v' →
    ∃ v, getValidator id s = .ok v ∧ L v v'

variable {L : Validator → Validator → Prop}

instance [Std.Refl L] : Std.Refl (Records L) :=
  ⟨fun _ h => ⟨h, fun _ v' hv' => ⟨v', hv', Std.Refl.refl v'⟩⟩⟩

instance [IsTrans Validator L] : IsTrans InMemoryState (Records L) := by
  refine ⟨fun s₁ s₂ s₃ h h' hfiled => ?_⟩
  obtain ⟨hfiled₂, h⟩ := h hfiled
  obtain ⟨hfiled₃, h'⟩ := h' hfiled₂
  refine ⟨hfiled₃, fun id v₃ hv₃ => ?_⟩
  obtain ⟨v₂, hv₂, h₂₃⟩ := h' id v₃ hv₃
  obtain ⟨v₁, hv₁, h₁₂⟩ := h id v₂ hv₂
  exact ⟨v₁, hv₁, IsTrans.trans _ _ _ h₁₂ h₂₃⟩

variable [Std.Refl L]

theorem Records.of_eq (h : ∀ id, getValidator id s' = getValidator id s) : Records L s s' := by
  refine fun hfiled => ⟨fun id v hv => hfiled id v ((h id).symm.trans hv), fun id v' hv' => ?_⟩
  exact ⟨v', (h id).symm.trans hv', Std.Refl.refl v'⟩

omit [Std.Refl L] in
theorem Records.congr_left {t : InMemoryState} (h : ∀ id, getValidator id t = getValidator id s)
    (ht : Records L t s') : Records L s s' := by
  intro hfiled
  obtain ⟨hfiled', hrec⟩ := ht fun id v hv => hfiled id v ((h id).symm.trans hv)
  refine ⟨hfiled', fun id v' hv' => ?_⟩
  obtain ⟨v, hv, hL⟩ := hrec id v' hv'
  exact ⟨v, (h id).symm.trans hv, hL⟩

theorem Records.setBytes (h : ∀ id, key ≠ validatorKey id) (value : Bytes)
    (s : InMemoryState) : Records L s (s.setBytes key value) :=
  .of_eq fun id => getValidator_setBytes_of_ne (h id) value s

variable {v' : Validator}

theorem Records.replace (hv : getValidator id s = .ok v)
    (hid : v'.consensusID = v.consensusID) (hL : L v v') :
    Records L s (s.setBytes (validatorKey v.consensusID) v'.encode) := by
  intro hfiled
  obtain rfl := hfiled id v hv
  have hself := getValidator_setBytes_self v.consensusID v' s
  refine ⟨fun a w hw => ?_, fun a w hw => ?_⟩ <;> by_cases ha : a = v.consensusID
  · subst ha
    cases hself.symm.trans hw
    exact hid
  · rw [getValidator_setBytes_of_ne fun h => ha (validatorKey_injective h).symm] at hw
    exact hfiled a w hw
  · subst ha
    cases hself.symm.trans hw
    exact ⟨v, hv, hL⟩
  · rw [getValidator_setBytes_of_ne fun h => ha (validatorKey_injective h).symm] at hw
    exact ⟨w, hw, Std.Refl.refl w⟩

/-! ### Status changes -/

omit [Crypto] in
theorem transitionTo_eq_ok {st : ValidatorStatus} :
    v.transitionTo st = .ok v' ↔ isValidTransition v.status st = true ∧
      v' = { v with status := st } := by
  unfold Validator.transitionTo
  split_ifs with h
  · simp [h, eq_comm]
  · simp [h]

variable {epoch : UInt64} {u : Unit}

theorem activateValidator_eq_ok :
    activateValidator id epoch s = .ok u s' ↔ ∃ v, getValidator id s = .ok v ∧
      v.status = validatorPending ∧ s' = s.setBytes (validatorKey v.consensusID)
        { v with status := validatorActive, activationEpoch := epoch }.stored.encode := by
  unfold activateValidator
  simp only [asks_bind_eq_ok, failIf_bind_eq_ok, ofResult_bind_eq_ok, transitionTo_eq_ok,
    updateValidator_eq, modify_eq_ok, not_not]
  constructor
  · rintro ⟨v, hv, hst, _, ⟨-, rfl⟩, rfl⟩
    exact ⟨v, hv, hst, rfl⟩
  · rintro ⟨v, hv, hst, rfl⟩
    exact ⟨v, hv, hst, _, ⟨by rw [hst]; decide, rfl⟩, rfl⟩

theorem unjailValidator_eq_ok : unjailValidator id s = .ok u s' ↔ ∃ v, getValidator id s = .ok v ∧
      v.status = validatorJailed ∧ s' = s.setBytes (validatorKey v.consensusID)
        { v with status := validatorActive, jailedUntil := 0 }.stored.encode := by
  unfold unjailValidator
  simp only [asks_bind_eq_ok, failIf_bind_eq_ok, ofResult_bind_eq_ok, transitionTo_eq_ok,
    updateValidator_eq, modify_eq_ok, not_not]
  constructor
  · rintro ⟨v, hv, hst, _, ⟨-, rfl⟩, rfl⟩
    exact ⟨v, hv, hst, rfl⟩
  · rintro ⟨v, hv, hst, rfl⟩
    exact ⟨v, hv, hst, _, ⟨by rw [hst]; decide, rfl⟩, rfl⟩

theorem activateValidator_atomic (epoch : UInt64) : Atomic (activateValidator id epoch) :=
  Atomic.bind (Steps.asks _) fun _ => Atomic.bind (Steps.failIf _ _) fun _ =>
    Atomic.bind (Steps.ofResult _) fun _ => Atomic.modify _

theorem unjailValidator_atomic : Atomic (unjailValidator id) :=
  Atomic.bind (Steps.asks _) fun _ => Atomic.bind (Steps.failIf _ _) fun _ =>
    Atomic.bind (Steps.ofResult _) fun _ => Atomic.modify _

theorem removeValidator_eq_ok (h : removeValidator id s = .ok u s') :
    ∃ v total, ∃ newTotal : Amount, getValidator id s = .ok v ∧
      v.status = validatorUnstaking ∧ totalBonded s = .ok total ∧
      total.val = newTotal.val + v.bondedStake.val ∧
      s' = (((s.setBytes keyTotalBonded newTotal.marshalBinary).deleteBytes
        (validatorPubkeyKey v.publicKey)).deleteBytes
          (validatorOperatorKey v.operatorAddress)).setBytes
            (validatorKey v.consensusID) { v with status := validatorRemoved }.stored.encode := by
  unfold removeValidator setTotalBonded at h
  simp only [asks_bind_eq_ok, failIf_bind_eq_ok, ofResult_bind_eq_ok, transitionTo_eq_ok,
    modify_bind, updateValidator_eq, modify_eq_ok, not_not, Amount.sub_eq_ok] at h
  obtain ⟨v, hv, hst, _, ⟨-, rfl⟩, total, htotal, newTotal, hsub, rfl⟩ := h
  exact ⟨v, total, newTotal, hv, hst, htotal, hsub, rfl⟩

theorem removeValidator_atomic : Atomic (removeValidator id) := by
  refine Atomic.bind (Steps.asks _) fun _ => Atomic.bind (Steps.failIf _ _) fun _ => ?_
  refine Atomic.bind (Steps.ofResult _) fun _ => Atomic.bind (Steps.asks _) fun _ => ?_
  refine Atomic.bind (Steps.ofResult _) fun _ => ?_
  -- from here on nothing fails
  intro s e s' h
  cases h

/-! ### Ways a relation may allow -/

def Activates (L : Validator → Validator → Prop) (epoch : UInt64) : Prop :=
  ∀ v, v.status = validatorPending →
    L v { v with status := validatorActive, activationEpoch := epoch }.stored

def Removes (L : Validator → Validator → Prop) : Prop :=
  ∀ v, v.status = validatorUnstaking → L v { v with status := validatorRemoved }.stored

def Unjails (L : Validator → Validator → Prop) (epoch : UInt64) : Prop :=
  ∀ v, v.status = validatorJailed → v.jailedUntil ≤ epoch →
    L v { v with status := validatorActive, jailedUntil := 0 }.stored

theorem activateValidator_records (h : Activates L epoch) :
    Steps (Records L) (activateValidator id epoch) := by
  refine Steps.of_atomic (activateValidator_atomic epoch) fun s _ s' hx => ?_
  obtain ⟨v, hv, hst, rfl⟩ := activateValidator_eq_ok.1 hx
  exact Records.replace hv rfl (h v hst)

theorem unjailValidator_records (h : Unjails L epoch)
    (hv : getValidator id s = .ok v) (hle : v.jailedUntil ≤ epoch) :
    Records L s (finalState (unjailValidator id s)) := by
  cases hr : unjailValidator id s with
  | error e s' =>
    obtain rfl := unjailValidator_atomic _ _ _ hr
    exact Std.Refl.refl s'
  | ok u s' =>
    obtain ⟨w, hw, hst, rfl⟩ := unjailValidator_eq_ok.1 hr
    cases hv.symm.trans hw
    exact Records.replace hv rfl (h v hst hle)

theorem removeValidator_records (h : Removes L) : Steps (Records L) (removeValidator id) := by
  refine Steps.of_atomic removeValidator_atomic fun s _ s' hx => ?_
  obtain ⟨v, -, total, hv, hst, -, -, rfl⟩ := removeValidator_eq_ok hx
  have heq (a : Address) : getValidator a
      (((s.setBytes keyTotalBonded total.marshalBinary).deleteBytes
        (validatorPubkeyKey v.publicKey)).deleteBytes (validatorOperatorKey v.operatorAddress)) =
          getValidator a s := by
    refine getValidator_congr ?_
    rw [getBytes_deleteBytes_of_ne (validatorKey_ne_operator _ _).symm,
      getBytes_deleteBytes_of_ne (validatorKey_ne_pubkey _ _).symm,
      getBytes_setBytes_of_ne (validatorKey_ne_totalBonded _).symm]
  exact Records.congr_left heq (Records.replace ((heq id).trans hv) rfl (h v hst))

/-! ### The epoch transition -/

variable {R : InMemoryState → InMemoryState → Prop} {act : Address → Exec InMemoryState Unit}
    {p : Validator → Bool}

theorem forEachValidator_steps [Std.Refl R] [IsTrans InMemoryState R]
    (hact : ∀ s id v, getValidator id s = .ok v → p v = true → R s (finalState (act id s)))
    (count : UInt64) : Steps R (forEachValidator count p act) := by
  refine Steps.forM (fun seq s => ?_) _
  rw [get_bind]
  unfold validatorAt
  cases getValidatorIDBySeq seq s with
  | error e => exact Std.Refl.refl s
  | ok id =>
    dsimp only
    cases hv : getValidator id s with
    | error e => exact Std.Refl.refl s
    | ok v =>
      dsimp only
      split_ifs with hp
      · exact hact s id v hv hp
      · exact Std.Refl.refl s

section Walk

variable {R : InMemoryState → InMemoryState → Prop} [Std.Refl R] [IsTrans InMemoryState R]
  {epoch height : UInt64}

theorem processEpochTransition_steps (hepoch : currentEpoch s = .ok epoch)
    (hactivate : ∀ s id v, getValidator id s = .ok v →
      v.status = validatorPending ∧ v.activationEpoch = epoch + 1 →
        R s (finalState (activateValidator id (epoch + 1) s)))
    (hrelease : ∀ id, Steps R (releaseStake id))
    (hunjail : ∀ s id v, getValidator id s = .ok v →
      v.status = validatorJailed ∧ v.jailedUntil ≤ epoch + 1 →
        R s (finalState (unjailValidator id s)))
    (hset : ∀ value s, R s (s.setBytes keyCurrentEpoch value)) :
    R s (finalState (processEpochTransition height s)) := by
  unfold processEpochTransition
  rw [asks_bind hepoch]
  refine Steps.bind (Steps.asks _) (fun _ => ?_) s
  refine (Steps.failIf _ _).bind fun _ => (Steps.asks _).bind fun count => ?_
  refine (forEachValidator_steps (fun s id v hv hp => ?_) count).bind fun _ => ?_
  · rw [finalState_wrapErr]
    exact hactivate s id v hv (of_decide_eq_true hp)
  refine (forEachValidator_steps (fun s id v _ _ => ?_) count).bind fun _ => ?_
  · exact (hrelease id).wrapErr _ s
  refine (forEachValidator_steps (fun s id v hv hp => ?_) count).bind fun _ => ?_
  · rw [finalState_wrapErr]
    exact hunjail s id v hv (of_decide_eq_true hp)
  · exact Steps.modify (hset _)

theorem processEpochTransition_of_steps
    (hactivate : ∀ id epoch, Steps R (activateValidator id epoch))
    (hrelease : ∀ id, Steps R (releaseStake id)) (hunjail : ∀ id, Steps R (unjailValidator id))
    (hset : ∀ value s, R s (s.setBytes keyCurrentEpoch value)) :
    Steps R (processEpochTransition height) := by
  intro s
  cases hepoch : currentEpoch s with
  | error e =>
    unfold processEpochTransition
    rw [bind_eq_error_of (asks_of_error hepoch)]
    exact Std.Refl.refl s
  | ok epoch =>
    exact processEpochTransition_steps hepoch (fun s id _ _ _ => hactivate id _ s) hrelease
      (fun s id _ _ _ => hunjail id s) hset

end Walk

variable [IsTrans Validator L]

theorem releaseStake_records (h : Removes L) : Steps (Records L) (releaseStake id) := by
  refine (Steps.asks _).bind fun _ => (Steps.failIf _ _).bind fun _ => ?_
  refine ((Steps.asks _).wrapErr _).bind fun _ => Steps.bind ?_ fun _ => removeValidator_records h
  refine Steps.of_atomic addBalance_atomic fun s _ s' hx => ?_
  obtain ⟨acc, bal, -, -, rfl⟩ := addBalance_eq_ok.1 hx
  exact .of_eq fun _ => rfl

theorem processEpochTransition_records {epoch height : UInt64} (hepoch : currentEpoch s = .ok epoch)
    (ha : Activates L (epoch + 1)) (hr : Removes L) (hu : Unjails L (epoch + 1)) :
    Records L s (finalState (processEpochTransition height s)) := by
  refine processEpochTransition_steps hepoch (fun s _ _ _ _ => activateValidator_records ha s)
    (fun _ => releaseStake_records hr) (fun s id v hv hp => ?_) fun value s => ?_
  · -- the pass has read the record that `UnjailValidator` reads again
    exact unjailValidator_records hu hv hp.2
  · exact Records.setBytes (fun id => ne_validatorKey_of_not_starts (by decide) id) _ s

/-! ### Where the transition writes -/

omit [Crypto] [Std.Refl L] [IsTrans Validator L] in
theorem sameOutside_validatorKey (id : Address) (value : Bytes) (s : InMemoryState) :
    SameOutside registryTexts s (s.setBytes (validatorKey id) value) :=
  sameOutside_setBytes (startsWith_append (by decide) _) value s

omit [Std.Refl L] [IsTrans Validator L] in
theorem activateValidator_keys (epoch : UInt64) :
    Steps (SameOutside registryTexts) (activateValidator id epoch) := by
  refine Steps.of_atomic (activateValidator_atomic epoch) fun s _ s' hx => ?_
  obtain ⟨v, -, -, rfl⟩ := activateValidator_eq_ok.1 hx
  exact sameOutside_validatorKey _ _ s

omit [Std.Refl L] [IsTrans Validator L] in
theorem unjailValidator_keys : Steps (SameOutside registryTexts) (unjailValidator id) := by
  refine Steps.of_atomic unjailValidator_atomic fun s _ s' hx => ?_
  obtain ⟨v, -, -, rfl⟩ := unjailValidator_eq_ok.1 hx
  exact sameOutside_validatorKey _ _ s

omit [Std.Refl L] [IsTrans Validator L] in
theorem removeValidator_keys : Steps (SameOutside registryTexts) (removeValidator id) := by
  refine Steps.of_atomic removeValidator_atomic fun s _ s' hx => ?_
  obtain ⟨v, -, total, -, -, -, -, rfl⟩ := removeValidator_eq_ok hx
  have hpubkey : StartsWith registryTexts (validatorPubkeyKey v.publicKey) :=
    ⟨str "validator/", by decide, (by decide : str "validator/" <+: str "validator/pubkey/").trans
      (List.prefix_append _ _)⟩
  have hoperator : StartsWith registryTexts (validatorOperatorKey v.operatorAddress) :=
    ⟨str "validator/", by decide, (by decide : str "validator/" <+: str "validator/operator/").trans
      (List.prefix_append _ _)⟩
  exact IsTrans.trans _ _ _ (sameOutside_setBytes startsWith_keyTotalBonded _ s) <|
    IsTrans.trans _ _ _ (sameOutside_deleteBytes hpubkey _) <|
    IsTrans.trans _ _ _ (sameOutside_deleteBytes hoperator _) (sameOutside_validatorKey _ _ _)

omit [Std.Refl L] [IsTrans Validator L] in
theorem releaseStake_keys : Steps (SameOutside registryTexts) (releaseStake id) := by
  refine (Steps.asks _).bind fun _ => (Steps.failIf _ _).bind fun _ => ?_
  refine ((Steps.asks _).wrapErr _).bind fun _ => Steps.bind ?_ fun _ => removeValidator_keys
  refine Steps.of_atomic addBalance_atomic fun s _ s' hx => ?_
  obtain ⟨acc, bal, -, -, rfl⟩ := addBalance_eq_ok.1 hx
  exact fun _ _ => rfl

omit [Std.Refl L] [IsTrans Validator L] in
theorem processEpochTransition_keys (height : UInt64) :
    Steps (SameOutside (keyCurrentEpoch :: registryTexts)) (processEpochTransition height) := by
  have hmono {α : Type} {x : Exec InMemoryState α} (h : Steps (SameOutside registryTexts) x) :
      Steps (SameOutside (keyCurrentEpoch :: registryTexts)) x :=
    fun s => (h s).mono (List.subset_cons_self _ _)
  refine processEpochTransition_of_steps (fun _ _ => hmono (activateValidator_keys _))
    (fun _ => hmono releaseStake_keys) (fun _ => hmono unjailValidator_keys) fun value s => ?_
  exact setBytes_keys ⟨_, List.mem_cons_self, List.prefix_rfl⟩ value s

/-! ### How the transition ends -/

omit [Std.Refl L] [IsTrans Validator L] in
theorem forEachValidator_ok
    (hact : ∀ s id v, getValidator id s = .ok v → p v = true → ∃ s', act id s = .ok () s')
    (count : UInt64) (s : InMemoryState) : ∃ s', forEachValidator count p act s = .ok () s' := by
  refine forM_ok (fun seq s => ?_) _ s
  rw [get_bind]
  unfold validatorAt
  cases getValidatorIDBySeq seq s with
  | error e => exact ⟨s, rfl⟩
  | ok id =>
    dsimp only
    cases hv : getValidator id s with
    | error e => exact ⟨s, rfl⟩
    | ok v =>
      dsimp only
      split_ifs with hp
      · exact hact s id v hv hp
      · exact ⟨s, rfl⟩

omit [Std.Refl L] [IsTrans Validator L] in
theorem processEpochTransition_error [Std.Refl R]
    [IsTrans InMemoryState R] {epoch height : UInt64} {err : Error}
    (hepoch : currentEpoch s = .ok epoch)
    (ha : ∀ id, Steps R (activateValidator id (epoch + 1))) (hr : ∀ id, Steps R (releaseStake id))
    (h : processEpochTransition height s = .error err s') : R s s' := by
  unfold processEpochTransition at h
  rw [asks_bind hepoch] at h
  rcases asks_bind_eq_error h with rfl | ⟨_, -, h⟩
  · exact Std.Refl.refl _
  rcases failIf_bind_eq_error h with rfl | ⟨-, h⟩
  · exact Std.Refl.refl _
  rcases asks_bind_eq_error h with rfl | ⟨count, -, h⟩
  · exact Std.Refl.refl _
  have hpass1 := forEachValidator_steps (R := R) (p := fun v => decide
    (v.status = validatorPending ∧ v.activationEpoch = epoch + 1))
    (fun s id _ _ _ => (ha id).wrapErr s!"activate validator {addressString id}" s) count
  have hpass2 := forEachValidator_steps (R := R) (p := fun v => decide
    (v.status = validatorUnstaking ∧ v.unstakeEpoch ≤ epoch + 1))
    (fun s id _ _ _ => (hr id).wrapErr s!"release validator {addressString id}" s) count
  rcases bind_eq_error.1 h with h | ⟨_, s1, h1, h⟩
  · have := hpass1 s
    rwa [h] at this
  rcases bind_eq_error.1 h with h | ⟨_, s2, h2, h⟩
  · have := hpass2 s1
    rw [h] at this
    exact IsTrans.trans _ _ _ (hpass1.of_ok h1) this
  rcases bind_eq_error.1 h with h | ⟨_, s3, -, h⟩
  · -- the third pass reads a jailed record and frees it
    exfalso
    have hfree : ∀ t id v, getValidator id t = .ok v →
        decide (v.status = validatorJailed ∧ v.jailedUntil ≤ epoch + 1) = true →
        ∃ t', wrapErr s!"auto-unjail validator {addressString id}" (unjailValidator id) t =
          .ok () t' := fun t id v hv hp =>
      ⟨_, wrapErr_eq_ok.2 (unjailValidator_eq_ok.2 ⟨v, hv, (of_decide_eq_true hp).1, rfl⟩)⟩
    obtain ⟨s3, hok⟩ := forEachValidator_ok hfree count s2
    cases hok.symm.trans h
  · cases h

omit [Std.Refl L] [IsTrans Validator L] in
theorem processEpochTransition_ok {height : UInt64}
    (h : processEpochTransition height s = .ok u s') : ∃ epoch, currentEpoch s = .ok epoch ∧
      epochAtHeight height s = .ok (epoch + 1) ∧ currentEpoch s' = .ok (epoch + 1) := by
  obtain ⟨epoch, hepoch, h⟩ := asks_bind_eq_ok.1 h
  obtain ⟨expected, hexpected, h⟩ := asks_bind_eq_ok.1 h
  obtain ⟨hne, h⟩ := failIf_bind_eq_ok.1 h
  obtain ⟨count, _, -, h⟩ := bind_eq_ok.1 h
  obtain ⟨_, _, -, h⟩ := bind_eq_ok.1 h
  obtain ⟨_, _, -, h⟩ := bind_eq_ok.1 h
  obtain ⟨_, t, -, h⟩ := bind_eq_ok.1 h
  obtain rfl := modify_eq_ok.1 h
  refine ⟨epoch, hepoch, hexpected.trans (congrArg _ (not_not.1 hne)), ?_⟩
  unfold currentEpoch readCounter
  rw [getBytes_setBytes_self]
  exact getUint64_putUint64 _

omit [Crypto] [Std.Refl L] [IsTrans Validator L] in
theorem epochAtHeight_ne_zero {height epoch : UInt64} (hh : height ≠ 0)
    (h : epochAtHeight height s = .ok epoch) : epoch ≠ 0 := by
  unfold epochAtHeight at h
  rw [if_neg hh] at h
  obtain ⟨bpe, -, h⟩ := except_bind_eq_ok.1 h
  obtain ⟨q, hq, h⟩ := except_bind_eq_ok.1 h
  cases h
  unfold quo at hq
  split_ifs at hq with hbpe
  cases hq
  have hle : ((height - 1) / bpe).toNat ≤ (height - 1).toNat := by
    exact Nat.div_le_self _ _
  intro hzero
  have hmax : (height - 1) / bpe = 0 - 1 := by rw [← hzero]; simp
  rw [hmax] at hle
  have hlt := (height - 1).toNat_lt
  have : height - 1 = 0 - 1 := UInt64.toNat_inj.1 (le_antisymm (by
    have : (0 - 1 : UInt64).toNat = 2 ^ 64 - 1 := by decide
    omega) hle)
  exact hh ((UInt64.sub_left_inj 1).1 this)

end Dsn
