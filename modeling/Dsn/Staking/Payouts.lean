import Dsn.Staking.Ledger

/-!
# Where the tokens are

Balances and bonded stake together are kept by every step, and no stake is paid out twice.
-/

namespace Dsn

open Go InMemoryState

section

variable [Crypto] {s s' t : InMemoryState} {id : Address} {v v' : Validator} {n : ℕ} {u : Unit}

/-! ### Accounts and bonded stake -/

def Worth (n : ℕ) (s : InMemoryState) : Prop :=
  ∃ total, totalBonded s = .ok total ∧ supply s + total.val = n

def Burns (s s' : InMemoryState) (id : Address) : Prop :=
  ∃ n n' v v', Worth n s ∧ Worth n' s' ∧ getValidator id s = .ok v ∧ getValidator id s' = .ok v' ∧
    v'.bondedStake.val ≤ v.bondedStake.val ∧
      n = n' + (v.bondedStake.val - v'.bondedStake.val)

/-- Registration and removal aside, worth is lost by slashing only. -/
def StakingStep.Conserves (s s' : InMemoryState) : StakingStep → Prop
  | .op (.register ..) => True
  | .op (.remove _) => True
  | .op (.slash id _) => Burns s s' id
  | .op (.applySlash id _ _) => Burns s s' id
  | _ => ∃ n, Worth n s ∧ Worth n s'

omit [Crypto] in
theorem Worth.setBytes {key : Bytes} (h : Worth n s) (hkey : key ≠ keyTotalBonded) (value : Bytes) :
    Worth n (s.setBytes key value) := by
  obtain ⟨total, htotal, hn⟩ := h
  exact ⟨total, (totalBonded_setBytes hkey value s).trans htotal, hn⟩

omit [Crypto] in
theorem worth_booked {newTotal : Amount} (h : supply s + newTotal.val = n) (v : Validator) :
    Worth n (booked s newTotal v) :=
  ⟨newTotal, (totalBonded_setBytes (validatorKey_ne_totalBonded _) _ _).trans
    (totalBonded_setBytes_self newTotal s), h⟩

theorem bond_worth {sender : Address} {amount result : Amount} (hw : Worth n s)
    (h : bond sender id amount s = .ok result s') : Worth n s' := by
  obtain ⟨v, t, total, newTotal, -, -, hsub, -, htotal, hadd, rfl⟩ := bond_eq_ok h
  obtain ⟨total1, htotal1, hn⟩ := hw
  cases htotal.symm.trans htotal1
  have hsupply := subBalance_supply hsub
  exact worth_booked (by omega) _

theorem releaseStake_worth (hw : Worth n s) (h : releaseStake id s = .ok u s') : Worth n s' := by
  obtain ⟨v, t, hv, -, hadd, hremove⟩ := releaseStake_eq_ok h
  have hsupply := addBalance_supply hadd
  obtain ⟨w, total, newTotal, hw', -, htotal, hsub, htotal', hacc, -⟩ :=
    removeValidator_retired (addBalance_kvstore hadd) hremove
  cases hv.symm.trans hw'
  obtain ⟨total1, htotal1, hn⟩ := hw
  cases htotal.symm.trans htotal1
  have hsame : supply s' = supply t := by
    unfold supply
    rw [hacc]
  exact ⟨newTotal, htotal', by omega⟩

theorem slash_burns {amount result : Amount} (hs : InBooks s)
    (h : slash id amount s = .ok result s') : Burns s s' id := by
  obtain ⟨v, total, newStake, newTotal, hv, -, hstake, htotal, hsub, rfl⟩ := slash_eq_ok h
  refine ⟨supply s + total.val, supply s + newTotal.val, v,
    { v with bondedStake := newStake }.stored, ⟨total, htotal, rfl⟩, worth_booked rfl _, hv,
    (Amends.of_booked rfl _ (v.restaked_id (hs.filed id v hv) newStake)).record, ?_, ?_⟩
  · show newStake.val ≤ v.bondedStake.val
    omega
  · show supply s + total.val = supply s + newTotal.val + (v.bondedStake.val - newStake.val)
    omega

theorem applySlash_burns {percent jailEpochs : UInt64} (hs : InBooks s)
    (h : applySlash id percent jailEpochs s = .ok u s') : Burns s s' id := by
  rcases applySlash_eq_ok.1 h with ⟨v, amount, hv, -, -, -, rfl⟩ |
    ⟨v, amount, newStake, total, newTotal, epoch, hp, rfl⟩
  · -- nothing was taken
    obtain ⟨total, htotal⟩ := hs.total
    exact ⟨_, _, v, v, ⟨total, htotal, rfl⟩, ⟨total, htotal, rfl⟩, hv, hv, le_rfl, by omega⟩
  · have hsub := hp.total_sub
    have hstake := hp.stake_eq
    have hid := hs.filed id v hp.found
    set v' := v.penalized newStake (epoch + jailEpochs)
    have hworth : Worth (supply s + newTotal.val) (booked s newTotal v') := worth_booked rfl v'
    have hamends : Amends s (booked s newTotal v') id v' newTotal :=
      .of_booked rfl v' ((v.penalized_consensusID _ _).trans hid)
    rw [booked, Validator.penalized_consensusID] at hworth hamends
    refine ⟨_, _, v, _, ⟨total, hp.total_eq, rfl⟩, hworth, hp.found, hamends.record, ?_, ?_⟩
    · rw [Validator.penalized_bondedStake]
      omega
    · rw [Validator.penalized_bondedStake]
      omega

theorem activateValidator_worth {epoch : UInt64} (hw : Worth n s)
    (h : activateValidator id epoch s = .ok u s') : Worth n s' := by
  obtain ⟨v, -, -, rfl⟩ := activateValidator_eq_ok.1 h
  exact hw.setBytes (validatorKey_ne_totalBonded _) _

theorem unjailValidator_worth (hw : Worth n s) (h : unjailValidator id s = .ok u s') :
    Worth n s' := by
  obtain ⟨v, -, -, rfl⟩ := unjailValidator_eq_ok.1 h
  exact hw.setBytes (validatorKey_ne_totalBonded _) _

theorem processEpochTransition_worth {height : UInt64} (hw : Worth n s)
    (h : processEpochTransition height s = .ok u s') : Worth n s' := by
  obtain ⟨t, epoch, hops, rfl⟩ := processEpochTransition_performs h
  refine (forM_keeps (fun o ho s s' hw h => ?_) hops hw).setBytes (by decide) _
  obtain ⟨id, epoch, rfl | rfl | rfl⟩ := mem_performed ho
  · exact activateValidator_worth hw h
  · exact releaseStake_worth hw h
  · exact unjailValidator_worth hw h

variable {step : StakingStep}

theorem StakingStep.conserves (hs : InBooks s)
    (h : step.run s = .ok u s') : step.Conserves s s' := by
  obtain ⟨total, htotal⟩ := hs.total
  have hw : Worth (supply s + total.val) s := ⟨total, htotal, rfl⟩
  cases step with
  | epochTransition height => exact ⟨_, hw, processEpochTransition_worth hw h⟩
  | op o =>
    cases o with
    | register pubKey operator stake commission epoch => trivial
    | remove id => trivial
    | bond sender id amount =>
      obtain ⟨result, _, h, hend⟩ := bind_eq_ok.1 h
      cases hend
      exact ⟨_, hw, bond_worth hw h⟩
    | slash id amount =>
      obtain ⟨result, _, h, hend⟩ := bind_eq_ok.1 h
      cases hend
      exact slash_burns hs h
    | applySlash id percent jailEpochs => exact applySlash_burns hs h
    | releaseStake id => exact ⟨_, hw, releaseStake_worth hw h⟩
    | activate id epoch => exact ⟨_, hw, activateValidator_worth hw h⟩
    | unjail id => exact ⟨_, hw, unjailValidator_worth hw h⟩
    | jail id untilEpoch =>
      obtain ⟨v, -, -, rfl⟩ := jailValidator_eq_ok h
      exact ⟨_, hw, hw.setBytes (validatorKey_ne_totalBonded _) _⟩
    | startUnstake id epoch =>
      obtain ⟨v, -, -, rfl⟩ := startUnstake_eq_ok h
      exact ⟨_, hw, hw.setBytes (validatorKey_ne_totalBonded _) _⟩

/-! ### Payouts -/

def StakingOp.paid : StakingOp → Option Address
  | .releaseStake id => some id
  | _ => none

def performedAlong : List StakingStep → InMemoryState → List StakingOp
  | [], _ => []
  | step :: steps, s => step.performed s ++ performedAlong steps (finalState (step.run s))

def payouts (s : InMemoryState) (steps : List StakingStep) : List Address :=
  (performedAlong steps s).filterMap StakingOp.paid

def RemovedAt (s : InMemoryState) (id : Address) : Prop :=
  ∃ v, getValidator id s = .ok v ∧ v.status = validatorRemoved

structure Pays (s : InMemoryState) (ids : List Address) (s' : InMemoryState) : Prop where
  nodup : ids.Nodup
  before : ∀ id ∈ ids, ¬ RemovedAt s id
  after : ∀ id ∈ ids, RemovedAt s' id
  stays : ∀ id, RemovedAt s id → RemovedAt s' id

theorem Pays.append {ids ids' : List Address} (h : Pays s ids t) (h' : Pays t ids' s') :
    Pays s (ids ++ ids') s' where
  nodup := List.nodup_append.2 ⟨h.nodup, h'.nodup, fun a ha b hb hab =>
    h'.before b hb (hab ▸ h.after a ha)⟩
  before id hid := by
    rcases List.mem_append.1 hid with hid | hid
    · exact h.before id hid
    · exact fun hremoved => h'.before id hid (h.stays id hremoved)
  after id hid := by
    rcases List.mem_append.1 hid with hid | hid
    · exact h'.stays id (h.after id hid)
    · exact h'.after id hid
  stays id hid := h'.stays id (h.stays id hid)

theorem Pays.nothing (h : ∀ id, RemovedAt s id → RemovedAt s' id) : Pays s [] s' :=
  ⟨List.nodup_nil, nofun, nofun, h⟩

variable {o : StakingOp}

theorem StakingOp.removedAt (hf : Filed s) (h : o.run s = .ok u s')
    (hid : RemovedAt s id) : RemovedAt s' id := by
  obtain ⟨v, hv, hst⟩ := hid
  have hstep := (o.registryStep s).record hf id
  rw [h] at hstep
  exact hstep.followsEdges.ends v hv hst

theorem releaseStake_pays (hf : Filed s) (h : releaseStake id s = .ok u s') :
    ¬ RemovedAt s id ∧ RemovedAt s' id := by
  obtain ⟨v, t, hv, hst, hadd, hremove⟩ := releaseStake_eq_ok h
  obtain ⟨w, -, -, hw, -, -, -, -, -, hsame⟩ :=
    removeValidator_retired (addBalance_kvstore hadd) hremove
  constructor
  · rintro ⟨v', hv', hst'⟩
    cases hv.symm.trans hv'
    exact absurd (hst.symm.trans hst') (by decide)
  · refine ⟨{ w with status := validatorRemoved }.stored, ?_, rfl⟩
    rw [hsame.getValidator, getValidator_retired, if_pos (hf id w hw).symm]

theorem StakingOp.pays (hf : Filed s) (h : o.run s = .ok u s') :
    Pays s ([o].filterMap StakingOp.paid) s' := by
  have hstays (id : Address) : RemovedAt s id → RemovedAt s' id := StakingOp.removedAt hf h
  cases o with
  | releaseStake id =>
    obtain ⟨hbefore, hafter⟩ := releaseStake_pays hf h
    refine ⟨List.nodup_singleton id, fun a ha => ?_, fun a ha => ?_, hstays⟩
    · exact (List.mem_singleton.1 ha).symm ▸ hbefore
    · exact (List.mem_singleton.1 ha).symm ▸ hafter
  | _ => exact .nothing hstays

theorem pays_ops {ops : List StakingOp} (hs : InBooks s)
    (h : ops.forM StakingOp.run s = .ok () s') : Pays s (ops.filterMap StakingOp.paid) s' := by
  induction ops generalizing s with
  | nil =>
    cases h
    exact .nothing fun _ => id
  | cons o ops ih =>
    obtain ⟨_, s1, ho, hops⟩ := bind_eq_ok.1 h
    have hpays := (StakingOp.pays hs.filed ho).append (ih (StakingOp.inBooks hs ho) hops)
    rwa [← List.filterMap_append] at hpays

theorem removedAt_setEpoch (epoch : UInt64) (h : RemovedAt s id) :
    RemovedAt (s.setBytes keyCurrentEpoch (putUint64 epoch)) id := by
  obtain ⟨v, hv, hst⟩ := h
  exact ⟨v, (getValidator_setEpoch epoch s id).trans hv, hst⟩

theorem StakingStep.pays (hs : InBooks s) (h : step.run s = .ok u s') :
    Pays s ((step.performed s).filterMap StakingOp.paid) s' := by
  cases step with
  | op o => exact pays_ops hs (forM_singleton_eq_ok.2 h)
  | epochTransition height =>
    obtain ⟨t, epoch, hops, rfl⟩ := processEpochTransition_performs h
    have hpays := (pays_ops hs hops).append (.nothing fun _ => removedAt_setEpoch epoch)
    rwa [List.append_nil] at hpays

theorem pays_run {steps : List StakingStep} (hs : InBooks s)
    (h : steps.forM StakingStep.run s = .ok () s') : Pays s (payouts s steps) s' := by
  unfold payouts
  induction steps generalizing s with
  | nil =>
    cases h
    exact .nothing fun _ => id
  | cons step steps ih =>
    obtain ⟨_, s1, hstep, hsteps⟩ := bind_eq_ok.1 h
    have hpays := (StakingStep.pays hs hstep).append (ih (StakingStep.inBooks hs hstep) hsteps)
    rw [performedAlong, hstep, List.filterMap_append]
    exact hpays

/-- No step creates or loses tokens, and every stake is paid out at most once. -/
theorem stake_conserved (s₀ s : InMemoryState) (h₀ : EmptyRegistry s₀) (steps : List StakingStep)
    (hrun : steps.forM StakingStep.run s₀ = .ok () s) :
    (∀ (step : StakingStep) (s' : InMemoryState), step.run s = .ok () s' → step.Conserves s s') ∧
      (payouts s₀ steps).Nodup :=
  ⟨fun _ _ h => StakingStep.conserves (h₀.inBooks_run hrun) h, (pays_run h₀.inBooks hrun).nodup⟩

def sampleOperator : InMemoryState :=
  newInMemoryState.setAccount (.copy 20 [1]) (newAccount (.copy 20 [1]) (samplePubKey 1))

def sampleRelease : List StakingStep :=
  sampleStart (.ofUInt64 100000) ++ [.op (.startUnstake (sampleID 1) 1), .epochTransition 1]

end

open Sample

theorem stake_conserved_sample : ∃ s, sampleRelease.forM StakingStep.run sampleOperator = .ok () s ∧
    payouts sampleOperator sampleRelease = [sampleID 1] ∧
      (payouts sampleOperator sampleRelease).Nodup := by
  obtain ⟨_, s, hrun, -⟩ := exists_of_succeedsWith (show succeedsWith (fun _ _ => true)
    (sampleRelease.forM StakingStep.run sampleOperator) = true by decide +kernel)
  have hempty : EmptyRegistry sampleOperator := ⟨fun _ _ => rfl, rfl⟩
  exact ⟨s, hrun, by decide +kernel, (stake_conserved sampleOperator s hempty sampleRelease hrun).2⟩

end Dsn
