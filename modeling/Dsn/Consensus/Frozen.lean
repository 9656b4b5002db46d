import Dsn.Consensus.Clock
import Dsn.Staking.Index

/-!
# Snapshots are frozen

A snapshot is taken once, from the registry as `BeginBlock` finds it, and never written again.
-/

namespace Dsn

open Go InMemoryState

section

variable [Crypto] {s s' t : InMemoryState} {order : List Address} {snap : ValidatorSnapshot}

/-! ### Runs -/

inductive SystemStep
  | beginBlock (height : UInt64)
  | staking (step : StakingStep)

def SystemStep.run : SystemStep → Exec InMemoryState Unit
  | .beginBlock height => do let _ ← Dsn.beginBlock height
  | .staking step => step.run

def SystemStep.height : SystemStep → Option UInt64
  | .beginBlock height => some height
  | .staking _ => none

def SystemStep.registers : SystemStep → Option Address
  | .beginBlock _ => none
  | .staking step => step.registers

def afterSteps (s : InMemoryState) (steps : List SystemStep) : InMemoryState :=
  steps.foldl (fun s step => finalState (step.run s)) s

@[simp] theorem afterSteps_append (s : InMemoryState) (steps more : List SystemStep) :
    afterSteps s (steps ++ more) = afterSteps (afterSteps s steps) more :=
  List.foldl_append

@[simp] theorem afterSteps_singleton (s : InMemoryState) (step : SystemStep) :
    afterSteps s [step] = finalState (step.run s) := rfl

theorem finalState_beginBlock (height : UInt64) (s : InMemoryState) :
    finalState ((SystemStep.beginBlock height).run s) = finalState (beginBlock height s) :=
  finalState_bind_pure _ _ _

/-! ### A snapshot stays -/

theorem getSnapshot_stakingStep (step : StakingStep) (k : UInt64) (s : InMemoryState) :
    getSnapshot k (finalState (step.run s)) = getSnapshot k s := by
  cases step with
  | op o => exact getSnapshot_of_keys (o.run_keys s) (by decide) k
  | epochTransition height =>
    exact getSnapshot_of_keys (processEpochTransition_keys height s) (by decide) k

theorem SystemStep.keepsSnapshot (step : SystemStep) (k : UInt64) (snap : ValidatorSnapshot) :
    Steps (Keeps fun s => getSnapshot k s = .ok (some snap)) step.run := by
  cases step with
  | beginBlock height => exact (beginBlock_keepsSnapshot k height snap).bind_pure _
  | staking step => exact fun s hs => (getSnapshot_stakingStep step k s).trans hs

variable {k : UInt64}

theorem getSnapshot_afterSteps (h : getSnapshot k s = .ok (some snap))
    (more : List SystemStep) : getSnapshot k (afterSteps s more) = .ok (some snap) := by
  induction more using List.reverseRecOn with
  | nil => exact h
  | append_singleton more step ih =>
    rw [afterSteps_append]
    exact step.keepsSnapshot k snap _ ih

/-! ### Where a snapshot is created -/

/-- `BeginBlock` comes to create the snapshot of the epoch in `t`. -/
structure Creates (height epoch : UInt64) (s t : InMemoryState) : Prop where
  positive : height ≠ 0
  enters : EntersSnapshot height s t
  current : currentEpoch t = .ok epoch
  missing : getSnapshot epoch t = .ok none

theorem getSnapshot_ensureSnapshot {epoch : UInt64}
    (h : getSnapshot k (finalState (ensureSnapshot epoch s)) = .ok (some snap)) :
    getSnapshot k s = .ok (some snap) ∨ k = epoch ∧ getSnapshot epoch s = .ok none ∧
      ∃ active, getActiveValidators s = .ok active ∧ snap = snapshotOf epoch active := by
  rcases ensureSnapshot_getBytes epoch k s with hsame | ⟨rfl, active, hactive, hstored⟩
  · exact .inl ((getSnapshot_congr hsame).symm.trans h)
  cases hfound : getSnapshot k s with
  | error e =>
    unfold ensureSnapshot at h
    rw [bind_eq_error_of (wrapErr_of_error (asks_of_error hfound))] at h
    cases hfound.symm.trans h
  | ok found =>
    cases found with
    | some snap' =>
      have hkept := ensureSnapshot_keepsSnapshot k k snap' s hfound
      exact .inl (hkept.symm.trans h)
    | none =>
      rw [getSnapshot_of_getBytes (length_getActiveValidators hactive) hstored] at h
      cases h
      exact .inr ⟨rfl, rfl, active, hactive, rfl⟩

variable {height : UInt64}

theorem getSnapshot_beginBlock
    (h : getSnapshot k (finalState (beginBlock height s)) = .ok (some snap)) :
    getSnapshot k s = .ok (some snap) ∨ ∃ t active, Creates height k s t ∧
      getActiveValidators t = .ok active ∧ snap = snapshotOf k active := by
  have htail {t : InMemoryState} (hh : height ≠ 0) (henter : EntersSnapshot height s t)
      (hsame : getSnapshot k t = getSnapshot k s)
      (h : getSnapshot k (finalState ((do
        let epoch ← wrapErr "current epoch" (asks currentEpoch)
        let snap ← ensureSnapshot epoch
        return (epoch, snap.setHash) : Exec InMemoryState (UInt64 × Hash)) t)) = .ok (some snap)) :
      getSnapshot k s = .ok (some snap) ∨ ∃ t active, Creates height k s t ∧
        getActiveValidators t = .ok active ∧ snap = snapshotOf k active := by
    cases hcur : currentEpoch t with
    | error e =>
      rw [bind_eq_error_of (wrapErr_of_error (asks_of_error hcur))] at h
      exact .inl (hsame.symm.trans h)
    | ok epoch =>
      rw [wrapErr_bind (asks_eq_ok.2 ⟨hcur, rfl⟩), finalState_bind_pure] at h
      rcases getSnapshot_ensureSnapshot h with hold | ⟨rfl, hmissing, active, hactive, rfl⟩
      · exact .inl (hsame.symm.trans hold)
      · exact .inr ⟨t, active, ⟨hh, henter, hcur, hmissing⟩, hactive, rfl⟩
  unfold beginBlock at h
  split_ifs at h with hh
  · exact .inl h
  cases hb : isEpochBoundary height s with
  | error e =>
    rw [bind_eq_error_of (asks_of_error hb)] at h
    exact .inl h
  | ok boundary =>
    rw [asks_bind hb] at h
    cases boundary with
    | false => exact htail hh (.inl ⟨hb, rfl⟩) rfl h
    | true =>
      have hkeys := getSnapshot_of_keys (epochBoundary_keys height s) (by decide) k
      cases hr : epochBoundary height s with
      | error e t =>
        rw [hr] at hkeys
        rw [if_pos rfl, bind_eq_error_of hr] at h
        exact .inl (hkeys.symm.trans h)
      | ok u t =>
        rw [hr] at hkeys
        rw [if_pos rfl, bind_eq_ok_of hr] at h
        exact htail hh (epochBoundary_eq_ok hb hr) hkeys h

/-! ### The registry along a run -/

variable {texts : List Bytes}

omit [Crypto] in
theorem sameRegistry_of_keys (hkeys : SameOutside texts s s')
    (hclear : ∀ u ∈ texts, ¬ u <+: str "validator/" ∧ ¬ str "validator/" <+: u) :
    SameRegistry s s' := by
  rintro key ⟨rest, rfl⟩
  exact hkeys _ (not_startsWith_append hclear rest)

theorem Indexed.of_keys (h : Indexed order s) (hkeys : SameOutside texts s s')
    (hclear : ∀ u ∈ texts, ¬ u <+: str "validator/" ∧ ¬ str "validator/" <+: u) :
    Indexed order s' := h.of_same (sameRegistry_of_keys hkeys hclear)

theorem Indexed.enters (h : Indexed order s)
    (henter : EntersSnapshot height s t) : Indexed order t := by
  rcases henter with ⟨-, rfl⟩ | ⟨t2, ⟨-, _, _, _, t1, -, -, hissue, hpay⟩, htrans⟩
  · exact h
  have hissued := h.of_keys ((issueEpochTokens_keys _ _ _).of_ok hissue) (by decide)
  have hpaid := hissued.of_keys ((@distributeValidatorRewards_keys _ [] _).of_ok hpay) (by decide)
  exact hpaid.amends ((processEpochTransition_registryAmends height).of_ok htrans)

theorem RegistryAmends.of_keys {α : Type} {x : Exec InMemoryState α}
    (hkeys : Steps (SameOutside texts) x)
    (hclear : ∀ u ∈ texts, ¬ u <+: str "validator/" ∧ ¬ str "validator/" <+: u) :
    Steps RegistryAmends x :=
  RegistryAmends.of_amend fun s => .idle (sameRegistry_of_keys (hkeys s) hclear)

theorem beginBlock_registryAmends (height : UInt64) :
    Steps RegistryAmends (beginBlock height) := by
  have htail : Steps RegistryAmends (do
      let epoch ← wrapErr "current epoch" (asks currentEpoch)
      let snap ← ensureSnapshot epoch
      return (epoch, snap.setHash)) := by
    refine ((Steps.asks _).wrapErr _).bind fun epoch => Steps.bind ?_ fun _ => Steps.pure _
    exact .of_keys (ensureSnapshot_keys epoch) (by decide)
  refine Steps.ite (Steps.pure _) ((Steps.asks _).bind fun boundary => ?_)
  cases boundary with
  | false => exact htail
  | true =>
    refine Steps.bind ?_ fun _ => htail
    refine (Steps.asks _).bind fun epoch => (Steps.asks _).bind fun bpe => ?_
    refine Steps.bind (Steps.wrapErr _ ?_) fun _ => ?_
    · exact .of_keys (issueEpochTokens_keys _ _ _) (by decide)
    refine Steps.bind (Steps.wrapErr _ ?_) fun _ => Steps.wrapErr _ ?_
    · exact .of_keys (@distributeValidatorRewards_keys _ [] epoch) (by decide)
    · exact processEpochTransition_registryAmends height

theorem beginBlock_keepsIndexed (height : UInt64) :
    Steps (Keeps (Indexed order)) (beginBlock height) :=
  fun s h => h.amends (beginBlock_registryAmends height s)

theorem EmptyRegistry.indexed_afterSteps (h0 : EmptyRegistry s) (steps : List SystemStep) :
    ∃ order, Indexed order (afterSteps s steps) ∧
      order.length ≤ (steps.filterMap SystemStep.registers).length := by
  induction steps using List.reverseRecOn with
  | nil => exact ⟨[], h0.indexed, le_rfl⟩
  | append_singleton steps step ih =>
    obtain ⟨order, hindexed, hlen⟩ := ih
    rw [afterSteps_append, afterSteps_singleton, List.filterMap_append, List.length_append]
    cases step with
    | beginBlock height =>
      rw [finalState_beginBlock]
      exact ⟨order, beginBlock_keepsIndexed height _ hindexed, hlen.trans (Nat.le_add_right _ _)⟩
    | staking step =>
      obtain ⟨added, hnext, hadded⟩ := hindexed.any_step step
      refine ⟨order ++ added, hnext, ?_⟩
      rw [List.length_append]
      exact Nat.add_le_add hlen hadded

/-! ### What a snapshot holds -/

/-- The snapshot is of the active validators of `t`. -/
structure TakenIn (snap : ValidatorSnapshot) (epoch : UInt64) (t : InMemoryState) : Prop where
  epoch : snap.epoch = epoch
  members : ∀ id v, snap.validatorByID id = .ok v ↔
    getValidator id t = .ok v ∧ v.status = validatorActive
  setHash : snap.setHash = if snap.validators = [] then zeroHash
    else sha256 (snap.validators.flatMap Validator.encode)

theorem Indexed.takenIn (h : Indexed order t) (hlen : order.length < 2 ^ 64)
    {active : List Validator} (hactive : getActiveValidators t = .ok active) (epoch : UInt64) :
    TakenIn (snapshotOf epoch active) epoch t := by
  obtain ⟨_, hlist, -, hmem, -⟩ := h.active hlen
  cases hactive.symm.trans hlist
  have hinj : ∀ v ∈ active, ∀ w ∈ active, v.consensusID = w.consensusID → v = w := by
    intro v hv w hw heq
    obtain ⟨a, ha, -⟩ := (hmem v).1 hv
    obtain ⟨b, hb, -⟩ := (hmem w).1 hw
    have hab : a = b := (h.kept.filed a v ha).symm.trans (heq.trans (h.kept.filed b w hb))
    subst hab
    exact Except.ok.inj (ha.symm.trans hb)
  refine ⟨rfl, fun id v => ?_, ?_⟩
  · rw [ValidatorSnapshot.validatorByID_eq_ok hinj]
    constructor
    · rintro ⟨hv, rfl⟩
      obtain ⟨a, ha, hst⟩ := (hmem v).1 hv
      rw [h.kept.filed a v ha]
      exact ⟨ha, hst⟩
    · rintro ⟨hv, hst⟩
      exact ⟨(hmem v).2 ⟨id, hv, hst⟩, h.kept.filed id v hv⟩
  · show computeValidatorSetHash active = _
    unfold computeValidatorSetHash
    simp only [List.length_eq_zero_iff]
    rfl

/-- A snapshot stays as it is, and lists the validators that were active when it was taken. -/
theorem snapshots_frozen (s₀ : InMemoryState) (h₀ : EmptyRegistry s₀)
    (hnone : ∀ k, getSnapshot k s₀ = .ok none) (steps : List SystemStep)
    (hlen : (steps.filterMap SystemStep.registers).length < 2 ^ 64 - 1) (k : UInt64)
    (snap : ValidatorSnapshot) (h : getSnapshot k (afterSteps s₀ steps) = .ok (some snap)) :
    (∀ more, getSnapshot k (afterSteps s₀ (steps ++ more)) = .ok (some snap)) ∧
      ∃ past height t, past ++ [.beginBlock height] <+: steps ∧
        Creates height k (afterSteps s₀ past) t ∧ TakenIn snap k t := by
  constructor
  · intro more
    rw [afterSteps_append]
    exact getSnapshot_afterSteps h more
  -- go back to the step after which the snapshot is there for the first time
  induction steps using List.reverseRecOn with
  | nil => cases (hnone k).symm.trans h
  | append_singleton steps step ih =>
    rw [List.filterMap_append, List.length_append] at hlen
    have hbefore (hold : getSnapshot k (afterSteps s₀ steps) = .ok (some snap)) :
        ∃ past height t, past ++ [.beginBlock height] <+: steps ++ [step] ∧
          Creates height k (afterSteps s₀ past) t ∧ TakenIn snap k t := by
      obtain ⟨past, height, t, hpast, hrest⟩ := ih (by omega) hold
      exact ⟨past, height, t, hpast.trans (List.prefix_append _ _), hrest⟩
    rw [afterSteps_append, afterSteps_singleton] at h
    cases step with
    | staking step => exact hbefore ((getSnapshot_stakingStep step k _).symm.trans h)
    | beginBlock height =>
      rw [finalState_beginBlock] at h
      rcases getSnapshot_beginBlock h with hold | ⟨t, active, hcreates, hactive, rfl⟩
      · exact hbefore hold
      · obtain ⟨order, hindexed, horder⟩ := h₀.indexed_afterSteps steps
        have hlt : order.length < 2 ^ 64 := by omega
        exact ⟨steps, height, t, List.prefix_rfl, hcreates,
          (hindexed.enters hcreates.enters).takenIn hlt hactive k⟩

end

open Sample

def sampleFirstBlock : List SystemStep :=
  (sampleStart (.ofUInt64 100000)).map .staking ++ [.beginBlock 1]

theorem snapshots_frozen_sample : ∃ snap,
    getSnapshot 0 (afterSteps newInMemoryState sampleFirstBlock) = .ok (some snap) ∧
      ∀ more, getSnapshot 0 (afterSteps newInMemoryState (sampleFirstBlock ++ more)) =
        .ok (some snap) := by
  have hsome : ((getSnapshot 0 (afterSteps newInMemoryState sampleFirstBlock)).toOption.bind
      id).isSome = true := by
    decide +kernel
  match hsnap : getSnapshot 0 (afterSteps newInMemoryState sampleFirstBlock) with
  | .error e => rw [hsnap] at hsome; cases hsome
  | .ok none => rw [hsnap] at hsome; cases hsome
  | .ok (some snap) =>
    exact ⟨snap, rfl, (snapshots_frozen newInMemoryState emptyRegistry_newInMemoryState
      (fun _ => rfl) sampleFirstBlock (by decide) 0 snap hsnap).1⟩

theorem getSnapshot_of_wrapped {s : InMemoryState} (hcount : validatorCount s = .ok 0)
    (hkeys : SameOutside registryTexts newInMemoryState s) :
    isEpochBoundary 1 s = .ok false ∧
      getSnapshot 0 (finalState (beginBlock 1 s)) = .ok (some (snapshotOf 0 [])) := by
  have hnone (key : Bytes) (hclear : ∀ u ∈ registryTexts, ¬ u <+: key ∧ ¬ key <+: u) :
      s.getBytes key = none := by
    rw [← List.append_nil key]
    exact hkeys _ (not_startsWith_append hclear [])
  have hactive : getActiveValidators s = .ok [] := by
    unfold getActiveValidators
    rw [hcount]
    rfl
  have hbegin := beginBlock_first (show (1 : UInt64) % 100 ≠ 0 by decide) (hnone _ (by decide))
    (hnone _ (by decide)) (hnone _ (by decide)) (hnone _ (by decide)) hactive
  refine ⟨isEpochBoundary_unset (by decide) (hnone _ (by decide)), ?_⟩
  rw [hbegin]
  exact getSnapshot_setBytes s (Nat.zero_lt_succ _)

theorem afterSteps_of_forM {steps : List StakingStep} {s s' : InMemoryState}
    (h : steps.forM StakingStep.run s = .ok () s') : afterSteps s (steps.map .staking) = s' := by
  induction steps using List.reverseRecOn generalizing s' with
  | nil =>
    cases h
    rfl
  | append_singleton steps step ih =>
    obtain ⟨t, hrun, hstep⟩ := forM_append_eq_ok.1 h
    have hfinal := congrArg finalState (forM_singleton_eq_ok.1 hstep)
    rw [List.map_append, afterSteps_append, ih hrun]
    exact hfinal

theorem snapshot_misses_active : ¬ ∀ (_ : Crypto) (s₀ : InMemoryState), EmptyRegistry s₀ →
    (∀ k, getSnapshot k s₀ = .ok none) → ∀ steps : List SystemStep,
      (steps.filterMap SystemStep.height).Pairwise (· < ·) → ∀ k snap,
        getSnapshot k (afterSteps s₀ steps) = .ok (some snap) →
          ∃ past height t, past ++ [.beginBlock height] <+: steps ∧
            Creates height k (afterSteps s₀ past) t ∧ TakenIn snap k t := by
  intro h
  obtain ⟨n, hn⟩ : ∃ n : ℕ, n = 2 ^ 64 := ⟨_, rfl⟩
  obtain ⟨s, v, hrun, hcount, hv, hst, hkeys⟩ := exists_wrapped n hn
  obtain ⟨hboundary, hsnap⟩ := getSnapshot_of_wrapped hcount hkeys
  have hreached := afterSteps_of_forM hrun
  have hstored : getSnapshot 0 (afterSteps newInMemoryState
      ((joinAndActivate n).map .staking ++ [.beginBlock 1])) = .ok (some (snapshotOf 0 [])) := by
    rw [afterSteps_append, hreached, afterSteps_singleton, finalState_beginBlock]
    exact hsnap
  have hheights : (((joinAndActivate n).map SystemStep.staking ++
      [SystemStep.beginBlock 1]).filterMap SystemStep.height).Pairwise (· < ·) := by
    have hno : ((joinAndActivate n).map SystemStep.staking).filterMap SystemStep.height = [] := by
      rw [List.filterMap_map]
      exact List.filterMap_eq_nil_iff.2 fun _ _ => rfl
    rw [List.filterMap_append, hno]
    exact List.pairwise_singleton _ _
  obtain ⟨past, height, t, hpast, hcreates, htaken⟩ := h sampleCrypto newInMemoryState
    emptyRegistry_newInMemoryState (fun _ => rfl) _ hheights 0 _ hstored
  -- the only block of the run is the last step
  have hlast : past = (joinAndActivate n).map .staking ∧ height = 1 := by
    rcases List.prefix_concat_iff.1 hpast with heq | hin
    · obtain ⟨hfront, hblock⟩ := List.append_inj' heq rfl
      cases hblock
      exact ⟨hfront, rfl⟩
    · obtain ⟨step, -, hstep⟩ := List.mem_map.1
        (hin.subset (List.mem_append_right past (List.mem_singleton_self _)))
      cases hstep
  obtain ⟨rfl, rfl⟩ := hlast
  rw [hreached] at hcreates
  have ht : t = s := by
    rcases hcreates.enters with ⟨-, ht⟩ | ⟨_, ⟨htrue, -⟩, -⟩
    · exact ht
    · cases hboundary.symm.trans htrue
  subst ht
  have hfound := (htaken.members _ _).2 ⟨hv, hst⟩
  have hmem : v ∈ [] := (ValidatorSnapshot.validatorByID_mem hfound).1
  cases hmem

end Dsn
