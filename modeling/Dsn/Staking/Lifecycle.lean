import Dsn.Staking.Changes

/-!
# The life of a validator

A status only moves along the edges of `canTransition`, and power is the stake where it fits 64
bits.
-/

namespace Dsn

open Go InMemoryState

section

variable [Crypto] {s s' t : InMemoryState} {id : Address} {v v' : Validator}

/-! ### One record -/

def Edge (v v' : Validator) : Prop :=
  v'.status = v.status ∨ isValidTransition v.status v'.status = true

inductive RecordStep (s s' : InMemoryState) (id : Address) : Prop
  | same (h : getValidator id s' = getValidator id s)
  | changed (v v' : Validator) (before : getValidator id s = .ok v)
      (after : getValidator id s' = .ok v') (filed : v'.consensusID = id) (edge : Edge v v')
      (stored : v'.stored = v')
  | created (v' : Validator) (fresh : s.getBytes (validatorKey id) = none)
      (after : getValidator id s' = .ok v') (filed : v'.consensusID = id)
      (pending : v'.status = validatorPending) (stored : v'.stored = v')

theorem RegistryAmend.record (hf : Filed s) (h : RegistryAmend s s') (id : Address) :
    RecordStep s s' id := by
  cases h with
  | idle h => exact .same (h.getValidator id)
  | rewrite a v v' found change h =>
    have hget := h.getValidator id
    rw [getValidator_setRecord] at hget
    split_ifs at hget with hid
    · rw [hf a v found] at hid
      subst hid
      refine .changed v v' found hget (change.consensusID.trans (hf id v found)) ?_ change.stored
      exact change.status.imp_right And.left
    · exact .same hget
  | retire a v found unstaking h =>
    have hget := h.getValidator id
    rw [getValidator_retired] at hget
    split_ifs at hget with hid
    · rw [hf a v found] at hid
      subst hid
      refine .changed v _ found hget (hf id v found) (.inr ?_) rfl
      show isValidTransition v.status validatorRemoved = true
      rw [unstaking]
      decide
    · exact .same hget

theorem RegistryStep.record (hf : Filed s) (h : RegistryStep s s') (id : Address) :
    RecordStep s s' id := by
  rcases h with h | ⟨v, count, enrols, h⟩
  · exact h.record hf id
  · have hget := h.getValidator id
    rw [getValidator_enrolled] at hget
    split_ifs at hget with hid
    · subst hid
      exact .created v enrols.fresh hget rfl enrols.pending enrols.stored
    · exact .same hget

structure Kept (s : InMemoryState) : Prop where
  filed : Filed s
  stored : ∀ id v, getValidator id s = .ok v → v.stored = v

theorem EmptyRegistry.kept (h : EmptyRegistry s) : Kept s := by
  have hnone (id : Address) : s.getBytes (validatorKey id) = none :=
    h.records _ (validatorKey_starts id)
  exact ⟨fun id v hv => absurd hv (getValidator_ne_ok_of_none (hnone id)),
    fun id v hv => absurd hv (getValidator_ne_ok_of_none (hnone id))⟩

theorem RegistryStep.kept (hs : Kept s) (h : RegistryStep s s') : Kept s' := by
  have hone (id : Address) (w : Validator) (hw : getValidator id s' = .ok w) :
      w.consensusID = id ∧ w.stored = w := by
    cases h.record hs.filed id with
    | same heq =>
      rw [heq] at hw
      exact ⟨hs.filed id w hw, hs.stored id w hw⟩
    | changed v v' before after filed edge stored =>
      cases after.symm.trans hw
      exact ⟨filed, stored⟩
    | created v' fresh after filed pending stored =>
      cases after.symm.trans hw
      exact ⟨filed, stored⟩
  exact ⟨fun id w hw => (hone id w hw).1, fun id w hw => (hone id w hw).2⟩

theorem RegistrySteps.kept (h : RegistrySteps s s') (hs : Kept s) : Kept s' := by
  induction h with
  | refl => exact hs
  | tail _ hstep ih => exact hstep.kept ih

/-! ### Along the edges -/

/-- A step takes a record along the edges of the life cycle. -/
structure FollowsEdges (s s' : InMemoryState) (id : Address) : Prop where
  follows : ∀ v, getValidator id s = .ok v → ∃ v', getValidator id s' = .ok v' ∧ Edge v v'
  ends : ∀ v, getValidator id s = .ok v → v.status = validatorRemoved →
    ∃ v', getValidator id s' = .ok v' ∧ v'.status = validatorRemoved
  starts : ∀ v', getValidator id s' = .ok v' →
    (∃ v, getValidator id s = .ok v) ∨ v'.status = validatorPending

omit [Crypto] in
theorem Edge.removed (h : Edge v v') (hv : v.status = validatorRemoved) :
    v'.status = validatorRemoved := by
  rcases h with h | h
  · exact h.trans hv
  · rw [hv] at h
    cases h

theorem FollowsEdges.mk' (follows : ∀ v, getValidator id s = .ok v →
    ∃ v', getValidator id s' = .ok v' ∧ Edge v v')
    (starts : ∀ v', getValidator id s' = .ok v' →
      (∃ v, getValidator id s = .ok v) ∨ v'.status = validatorPending) : FollowsEdges s s' id where
  follows := follows
  starts := starts
  ends v hv hst := by
    obtain ⟨v', hv', hedge⟩ := follows v hv
    exact ⟨v', hv', hedge.removed hst⟩

theorem RecordStep.followsEdges (h : RecordStep s s' id) : FollowsEdges s s' id := by
  cases h with
  | same h =>
    refine .mk' (fun v hv => ⟨v, h.trans hv, .inl rfl⟩) fun v' hv' => .inl ⟨v', h.symm.trans hv'⟩
  | changed v v' before after filed edge stored =>
    refine .mk' (fun w hw => ?_) fun _ _ => .inl ⟨v, before⟩
    cases before.symm.trans hw
    exact ⟨v', after, edge⟩
  | created v' fresh after filed pending stored =>
    refine .mk' (fun w hw => absurd hw (getValidator_ne_ok_of_none fresh)) fun w hw => .inr ?_
    cases after.symm.trans hw
    exact pending

theorem RegistrySteps.persists (h : RegistrySteps s s') (hs : Kept s)
    (hv : getValidator id s = .ok v) : ∃ v', getValidator id s' = .ok v' := by
  induction h with
  | refl => exact ⟨v, hv⟩
  | tail hsteps hstep ih =>
    obtain ⟨w, hw⟩ := ih
    have hrecord := hstep.record (RegistrySteps.kept hsteps hs).filed id
    obtain ⟨w', hw', -⟩ := hrecord.followsEdges.follows w hw
    exact ⟨w', hw'⟩

/-! ### The epoch transition -/

def EpochEdge (v v' : Validator) : Prop :=
  v'.status = v.status ∨ v.status = validatorPending ∧ v'.status = validatorActive ∨
    v.status = validatorUnstaking ∧ v'.status = validatorRemoved ∨
    v.status = validatorJailed ∧ v'.status = validatorActive

instance : Std.Refl EpochEdge := ⟨fun _ => .inl rfl⟩

omit [Crypto] in
theorem EpochEdge.rests (h : EpochEdge v v')
    (hv : v.status = validatorActive ∨ v.status = validatorRemoved) : v'.status = v.status := by
  rcases h with h | ⟨h, -⟩ | ⟨h, -⟩ | ⟨h, -⟩
  · exact h
  all_goals
    rcases hv with hv | hv <;> exact absurd (h.symm.trans hv) (by decide)

instance : IsTrans Validator EpochEdge := by
  refine ⟨fun v₁ v₂ v₃ h h' => ?_⟩
  rcases h with h | ⟨h₁, h₂⟩ | ⟨h₁, h₂⟩ | ⟨h₁, h₂⟩
  · unfold EpochEdge at h' ⊢
    rwa [h] at h'
  · exact .inr (.inl ⟨h₁, (h'.rests (.inl h₂)).trans h₂⟩)
  · exact .inr (.inr (.inl ⟨h₁, (h'.rests (.inr h₂)).trans h₂⟩))
  · exact .inr (.inr (.inr ⟨h₁, (h'.rests (.inl h₂)).trans h₂⟩))

omit [Crypto] in
theorem EpochEdge.edge (h : EpochEdge v v') : Edge v v' := by
  rcases h with h | ⟨h, h'⟩ | ⟨h, h'⟩ | ⟨h, h'⟩
  · exact .inl h
  all_goals
    refine .inr ?_
    rw [h, h']
    decide

theorem processEpochTransition_epochEdge (height : UInt64) (s : InMemoryState) :
    Records EpochEdge s (finalState (processEpochTransition height s)) := by
  cases hepoch : currentEpoch s with
  | error e =>
    have herror : processEpochTransition height s = .error e s :=
      bind_eq_error_of (asks_of_error hepoch)
    rw [herror]
    exact Std.Refl.refl s
  | ok epoch =>
    exact processEpochTransition_records hepoch (fun v hv => .inr (.inl ⟨hv, rfl⟩))
      (fun v hv => .inr (.inr (.inl ⟨hv, rfl⟩))) fun v hv _ => .inr (.inr (.inr ⟨hv, rfl⟩))

theorem StakingStep.followsEdges (step : StakingStep) (hs : Kept s) (id : Address) :
    FollowsEdges s (finalState (step.run s)) id := by
  cases step with
  | op o => exact ((o.registryStep s).record hs.filed id).followsEdges
  | epochTransition height =>
    have hrec := (processEpochTransition_epochEdge height s hs.filed).2
    refine .mk' (fun v hv => ?_) fun v' hv' => ?_
    · obtain ⟨v', hv'⟩ := (processEpochTransition_registryAmends height s).steps.persists hs hv
      obtain ⟨w, hw, hedge⟩ := hrec id v' hv'
      cases hv.symm.trans hw
      exact ⟨v', hv', hedge.edge⟩
    · obtain ⟨v, hv, -⟩ := hrec id v' hv'
      exact .inl ⟨v, hv⟩

/-! ### Voting power -/

/-- The voting power is the stake of an active validator, else zero. -/
def PowerMatches (v : Validator) : Prop :=
  (v.votingPower ≠ 0 → v.status = validatorActive) ∧
    (v.status = validatorActive → v.votingPower.toNat = v.bondedStake.val)

def Fitting (v : Validator) : Prop := v.status = validatorActive → v.bondedStake.val < 2 ^ 64

section

omit [Crypto]

theorem powerMatches_iff (h : v.stored = v) : PowerMatches v ↔ Fitting v := by
  have hpower : v.votingPower =
      if v.status = validatorActive then stakeToUint64 v.bondedStake else 0 :=
    (congrArg Validator.votingPower h).symm
  unfold PowerMatches Fitting
  by_cases hst : v.status = validatorActive
  · rw [if_pos hst] at hpower
    simp only [hst, implies_true, true_imp_iff, true_and]
    rw [hpower, stakeToUint64_toNat]
    constructor
    · intro hmod
      have hlt : v.bondedStake.val % 2 ^ 64 < 2 ^ 64 := Nat.mod_lt _ (by norm_num)
      rwa [hmod] at hlt
    · exact Nat.mod_eq_of_lt
  · simp [hst, hpower]

theorem fitting_of_lt (v : Validator) (h : v.bondedStake.val < 2 ^ 64) : Fitting v.stored :=
  fun _ => h

theorem fitting_of_ne {st : ValidatorStatus} (h : st ≠ validatorActive) (v : Validator) :
    Fitting { v with status := st }.stored := fun hst => absurd hst h

end

def AllRecords (P : Validator → Prop) (s : InMemoryState) : Prop :=
  ∀ id v, getValidator id s = .ok v → P v

section

variable {P : Validator → Prop} (h : AllRecords P s)
include h

theorem AllRecords.of_same (hsame : SameRegistry s s') : AllRecords P s' :=
  fun id v hv => h id v ((hsame.getValidator id).symm.trans hv)

theorem AllRecords.of_kvstore (hkv : s'.kvstore = s.kvstore) :
    AllRecords P s' := h.of_same (.of_kvstore hkv)

theorem AllRecords.of_atomic {α : Type} {x : Exec InMemoryState α} (hx : Atomic x)
    (hok : ∀ a s', x s = .ok a s' → AllRecords P s') :
    AllRecords P (finalState (x s)) := by
  cases hr : x s with
  | ok a s' => exact hok a s' hr
  | error e s' =>
    obtain rfl := hx _ _ _ hr
    exact h

theorem AllRecords.setRecord (hv : P v) (a : Address) :
    AllRecords P (s.setBytes (validatorKey a) v.encode) := by
  intro id w hw
  rw [getValidator_setRecord] at hw
  split_ifs at hw
  · cases hw
    exact hv
  · exact h id w hw

theorem AllRecords.booked (hv : P v) (newTotal : Amount) :
    AllRecords P (booked s newTotal v) :=
  (h.of_same (.setBytes (by decide) _ s)).setRecord hv _

theorem AllRecords.enrolled (hv : P v) (count : UInt64) :
    AllRecords P (enrolled s v count) := by
  intro id w hw
  rw [getValidator_enrolled] at hw
  split_ifs at hw
  · cases hw
    exact hv
  · exact h id w hw

theorem AllRecords.retired (hv : P { v with status := validatorRemoved }.stored) :
    AllRecords P (retired s v) := by
  intro id w hw
  rw [getValidator_retired] at hw
  split_ifs at hw
  · cases hw
    exact hv
  · exact h id w hw

end

/-! ### Stakes that fit -/

/-- Who becomes active or bonds more has a stake below 2^64. -/
def StakingStep.FitsPower (s : InMemoryState) : StakingStep → Prop
  | .op (.bond sender id amount) => ∀ acc v, getAccount sender s = .ok acc →
      amount.val ≤ acc.balance.val → getValidator id s = .ok v → v.status = validatorActive →
        v.bondedStake.val + amount.val < 2 ^ 64
  | .op (.activate id _) => ∀ v, getValidator id s = .ok v → v.status = validatorPending →
      v.bondedStake.val < 2 ^ 64
  | .op (.unjail id) => ∀ v, getValidator id s = .ok v → v.status = validatorJailed →
      v.bondedStake.val < 2 ^ 64
  | .epochTransition _ => ∀ epoch, currentEpoch s = .ok epoch → ∀ id v, getValidator id s = .ok v →
      (v.status = validatorPending ∧ v.activationEpoch = epoch + 1 ∨
        v.status = validatorJailed ∧ v.jailedUntil ≤ epoch + 1) → v.bondedStake.val < 2 ^ 64
  | _ => True

def FittingAt (epoch : UInt64) (v : Validator) : Prop :=
  v.status = validatorActive ∨ v.status = validatorPending ∧ v.activationEpoch = epoch ∨
    v.status = validatorJailed ∧ v.jailedUntil ≤ epoch → v.bondedStake.val < 2 ^ 64

variable {P : Validator → Prop}

theorem releaseStake_allRecords
    (hP : ∀ v : Validator, v.status = validatorRemoved → P v) :
    Steps (Keeps (AllRecords P)) (releaseStake id) := by
  intro s h
  cases hr : releaseStake id s with
  | error e s' => exact h.of_kvstore (releaseStake_error hr)
  | ok _ s' =>
    obtain ⟨v, t, -, -, hadd, hremove⟩ := releaseStake_eq_ok hr
    obtain ⟨v, -, -, -, -, -, -, -, -, hsame⟩ :=
      removeValidator_retired (addBalance_kvstore hadd) hremove
    exact (h.retired (hP _ rfl)).of_same hsame

theorem activateValidator_allRecords {epoch : UInt64} (hv : getValidator id s = .ok v)
    (hP : P { v with status := validatorActive, activationEpoch := epoch }.stored) :
    Keeps (AllRecords P) s (finalState (activateValidator id epoch s)) := by
  intro h
  refine h.of_atomic (activateValidator_atomic epoch) fun _ s' hr => ?_
  obtain ⟨w, hw, -, rfl⟩ := activateValidator_eq_ok.1 hr
  cases hv.symm.trans hw
  exact h.setRecord hP _

theorem unjailValidator_allRecords (hv : getValidator id s = .ok v)
    (hP : P { v with status := validatorActive, jailedUntil := 0 }.stored) :
    Keeps (AllRecords P) s (finalState (unjailValidator id s)) := by
  intro h
  refine h.of_atomic unjailValidator_atomic fun _ s' hr => ?_
  obtain ⟨w, hw, -, rfl⟩ := unjailValidator_eq_ok.1 hr
  cases hv.symm.trans hw
  exact h.setRecord hP _

theorem processEpochTransition_fitting {epoch height : UInt64}
    (hepoch : currentEpoch s = .ok epoch) : Keeps (AllRecords (FittingAt (epoch + 1))) s
      (finalState (processEpochTransition height s)) := by
  refine processEpochTransition_steps hepoch (fun s id v hv hp h => ?_) (fun id => ?_)
    (fun s id v hv hp h => ?_) fun value s h => ?_
  · refine activateValidator_allRecords hv (fun _ => ?_) h
    exact h id v hv (.inr (.inl hp))
  · refine releaseStake_allRecords fun v hv hst => ?_
    rcases hst with hst | ⟨hst, -⟩ | ⟨hst, -⟩ <;> exact absurd (hv.symm.trans hst) (by decide)
  · refine unjailValidator_allRecords hv (fun _ => ?_) h
    exact h id v hv (.inr (.inr hp))
  · exact h.of_same (.setBytes (by decide) _ s)

theorem StakingOp.fitting {o : StakingOp} (ho : (StakingStep.op o).FitsPower s)
    (h : AllRecords Fitting s) : AllRecords Fitting (finalState (o.run s)) := by
  cases o with
  | register pubKey operator stake commission epoch =>
    rw [StakingOp.run, finalState_bind_pure]
    rcases registerValidator_cases pubKey operator stake commission epoch s with
      ⟨e, he⟩ | ⟨v, count, henrol, -, hrun⟩
    · rw [he]
      exact h
    · have henrolled : AllRecords Fitting (enrolled s v count) := by
        refine h.enrolled (fun hst => ?_) count
        exact absurd (henrol.pending.symm.trans hst) (by decide)
      rw [hrun]
      exact henrolled.of_same (addStake_sameRegistry _ _ _)
  | bond sender id amount =>
    rw [StakingOp.run, finalState_bind_pure]
    cases hr : Dsn.bond sender id amount s with
    | error e s' => exact h.of_kvstore (bond_error hr)
    | ok result s' =>
      obtain ⟨v, t, total, newTotal, hv, -, hsub, hstake, -, -, rfl⟩ := bond_eq_ok hr
      refine (h.of_kvstore (subBalance_kvstore hsub)).booked (fun hst => ?_) newTotal
      obtain ⟨acc, bal, hacc, hbal, -⟩ := subBalance_eq_ok.1 hsub
      have := ho acc v (getAccount_eq_ok.2 hacc) (by omega) hv hst
      show result.val < 2 ^ 64
      omega
  | slash id amount =>
    rw [StakingOp.run, finalState_bind_pure]
    refine h.of_atomic slash_atomic fun result s' hr => ?_
    obtain ⟨v, total, newStake, newTotal, hv, -, hstake, -, -, rfl⟩ := slash_eq_ok hr
    refine h.booked (fun hst => ?_) newTotal
    have hlt : v.bondedStake.val < 2 ^ 64 := h id v hv hst
    show newStake.val < 2 ^ 64
    omega
  | applySlash id percent jailEpochs =>
    show AllRecords Fitting (finalState (Dsn.applySlash id percent jailEpochs s))
    cases hr : Dsn.applySlash id percent jailEpochs s with
    | error e s' => exact h.of_same (applySlash_error_sameRegistry hr)
    | ok _ s' =>
      rcases applySlash_eq_ok.1 hr with ⟨v, amount, -, -, -, -, rfl⟩ |
        ⟨v, amount, newStake, total, newTotal, epoch, hp, rfl⟩
      · exact h
      · refine (h.of_same (.setBytes (by decide) _ s)).setRecord (fun hst => ?_) _
        exact absurd hst (v.penalized_status_ne_active newStake _)
  | releaseStake id =>
    refine releaseStake_allRecords (fun v hv hst => ?_) s h
    rw [hv] at hst
    exact absurd hst (by decide)
  | activate id epoch =>
    refine h.of_atomic (activateValidator_atomic epoch) fun _ s' hr => ?_
    obtain ⟨v, hv, hst, rfl⟩ := activateValidator_eq_ok.1 hr
    exact h.setRecord (fitting_of_lt { v with status := validatorActive, activationEpoch := epoch }
      (ho v hv hst)) _
  | jail id untilEpoch =>
    refine h.of_atomic jailValidator_atomic fun _ s' hr => ?_
    obtain ⟨v, hv, -, rfl⟩ := jailValidator_eq_ok hr
    exact h.setRecord (fitting_of_ne (by decide) { v with jailedUntil := untilEpoch }) _
  | unjail id =>
    refine h.of_atomic unjailValidator_atomic fun _ s' hr => ?_
    obtain ⟨v, hv, hst, rfl⟩ := unjailValidator_eq_ok.1 hr
    exact h.setRecord (fitting_of_lt { v with status := validatorActive, jailedUntil := 0 }
      (ho v hv hst)) _
  | startUnstake id epoch =>
    refine h.of_atomic startUnstake_atomic fun _ s' hr => ?_
    obtain ⟨v, hv, -, rfl⟩ := startUnstake_eq_ok hr
    exact h.setRecord (fitting_of_ne (by decide) { v with unstakeEpoch := epoch }) _
  | remove id =>
    refine h.of_atomic removeValidator_atomic fun _ s' hr => ?_
    obtain ⟨v, -, -, -, -, -, -, -, -, hsame⟩ := removeValidator_retired rfl hr
    exact (h.retired (fitting_of_ne (by decide) v)).of_same hsame

theorem StakingStep.fitting {step : StakingStep} (hstep : step.FitsPower s)
    (h : AllRecords Fitting s) : AllRecords Fitting (finalState (step.run s)) := by
  cases step with
  | op o => exact StakingOp.fitting hstep h
  | epochTransition height =>
    cases hepoch : currentEpoch s with
    | error e =>
      have herror : processEpochTransition height s = .error e s :=
        bind_eq_error_of (asks_of_error hepoch)
      show AllRecords Fitting (finalState (processEpochTransition height s))
      rw [herror]
      exact h
    | ok epoch =>
      have hat : AllRecords (FittingAt (epoch + 1)) s := by
        intro id v hv hst
        rcases hst with hst | hst
        · exact h id v hv hst
        · exact hstep epoch hepoch id v hv hst
      have hafter := @processEpochTransition_fitting _ s epoch height hepoch hat
      exact fun id v hv hst => hafter id v hv (.inl hst)

/-! ### Runs -/

def reached (s : InMemoryState) (steps : List StakingStep) : InMemoryState :=
  steps.foldl (fun s step => finalState (step.run s)) s

@[simp] theorem reached_append_singleton (s : InMemoryState) (steps : List StakingStep)
    (step : StakingStep) :
    reached s (steps ++ [step]) = finalState (step.run (reached s steps)) := by
  unfold reached
  rw [List.foldl_append]
  rfl

theorem registrySteps_reached (s : InMemoryState) (steps : List StakingStep) :
    RegistrySteps s (reached s steps) := by
  induction steps using List.reverseRecOn with
  | nil => exact .refl
  | append_singleton steps step ih =>
    rw [reached_append_singleton]
    exact ih.trans (step.registrySteps _)

/-- The status follows the edges, and power is stake within 64 bits. -/
theorem lifecycle_and_power (s₀ : InMemoryState) (h₀ : EmptyRegistry s₀) :
    (∀ steps step id, FollowsEdges (reached s₀ steps) (reached s₀ (steps ++ [step])) id) ∧
      ∀ steps, (∀ past step, past ++ [step] <+: steps → step.FitsPower (reached s₀ past)) →
        ∀ id v, getValidator id (reached s₀ steps) = .ok v → PowerMatches v := by
  have hkept (steps : List StakingStep) : Kept (reached s₀ steps) :=
    (registrySteps_reached s₀ steps).kept h₀.kept
  constructor
  · intro steps step id
    rw [reached_append_singleton]
    exact step.followsEdges (hkept steps) id
  · intro steps hfits
    have hfitting : AllRecords Fitting (reached s₀ steps) := by
      induction steps using List.reverseRecOn with
      | nil =>
        intro id v hv
        exact absurd hv (getValidator_ne_ok_of_none (h₀.records _ (validatorKey_starts id)))
      | append_singleton steps step ih =>
        rw [reached_append_singleton]
        refine StakingStep.fitting (hfits steps step List.prefix_rfl) (ih fun past st hpast => ?_)
        exact hfits past st (hpast.trans (List.prefix_append _ _))
    intro id v hv
    exact (powerMatches_iff ((hkept steps).stored id v hv)).2 (hfitting id v hv)

omit [Crypto] in
theorem emptyRegistry_newInMemoryState : EmptyRegistry newInMemoryState where
  records _ _ := rfl
  bonded := rfl

def samplePubKey (i : UInt8) : PublicKey := .copy 32 (List.replicate 31 0 ++ [i])

def sampleID (i : UInt8) : Address := deriveConsensusID (samplePubKey i).bytes

def sampleStart (stake : Amount) : List StakingStep :=
  [.op (.register (samplePubKey 1) (.copy 20 [1]) stake 0 0), .op (.activate (sampleID 1) 1)]

end

open Sample

theorem lifecycle_and_power_sample : EmptyRegistry newInMemoryState ∧ ∀ id v,
    getValidator id (reached newInMemoryState (sampleStart (.ofUInt64 100000))) = .ok v →
      PowerMatches v := by
  refine ⟨emptyRegistry_newInMemoryState, ?_⟩
  refine (lifecycle_and_power newInMemoryState emptyRegistry_newInMemoryState).2 _ ?_
  rintro past step ⟨rest, hrest⟩
  -- the run has two steps, and only the second activates somebody
  rcases past with _ | ⟨first, _ | ⟨second, past⟩⟩
  · cases hrest
    trivial
  · cases hrest
    have hact : ((getValidator (sampleID 1) (reached newInMemoryState
        [.op (.register (samplePubKey 1) (.copy 20 [1]) (.ofUInt64 100000) 0 0)])).toOption.all
          fun v => decide (v.bondedStake.val < 2 ^ 64)) = true := by decide +kernel
    intro v hv _
    rw [hv] at hact
    exact of_decide_eq_true hact
  · simp [sampleStart] at hrest

theorem power_of_large_stake : ¬ ∀ (_ : Crypto) (s₀ : InMemoryState), EmptyRegistry s₀ →
    (∀ steps step id, FollowsEdges (reached s₀ steps) (reached s₀ (steps ++ [step])) id) ∧
      ∀ steps id v, getValidator id (reached s₀ steps) = .ok v → PowerMatches v := by
  intro h
  have hall := (h sampleCrypto newInMemoryState emptyRegistry_newInMemoryState).2
    (sampleStart ⟨2 ^ 64, by norm_num⟩) (sampleID 1)
  have hsample : ((getValidator (sampleID 1) (reached newInMemoryState
      (sampleStart ⟨2 ^ 64, by norm_num⟩))).toOption.any fun v =>
        decide (v.status = validatorActive ∧ v.votingPower.toNat ≠ v.bondedStake.val)) = true := by
    decide +kernel
  cases hv : getValidator (sampleID 1) (reached newInMemoryState
      (sampleStart ⟨2 ^ 64, by norm_num⟩)) with
  | error e =>
    rw [hv] at hsample
    cases hsample
  | ok v =>
    rw [hv] at hsample
    have hne := of_decide_eq_true hsample
    exact hne.2 ((hall v hv).2 hne.1)

end Dsn
