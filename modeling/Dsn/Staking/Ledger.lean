import Dsn.Staking.Lifecycle
import Dsn.State.Supply

/-!
# The ledger of the bonded stake

`TotalBonded` is the sum of the stakes, unless a removed validator is slashed.
-/

namespace Dsn

open Go InMemoryState

section

variable [Crypto]

/-! ### The sum of the stakes -/

def Validator.bonded (v : Validator) : ℕ :=
  if v.status = validatorRemoved then 0 else v.bondedStake.val

def bondedAt (s : InMemoryState) (id : Address) : ℕ :=
  match getValidator id s with
  | .ok v => v.bonded
  | .error _ => 0

noncomputable instance : Fintype Address := Fintype.ofFinite _

noncomputable def bondedSum (s : InMemoryState) : ℕ := ∑ id : Address, bondedAt s id

/-- The bonded total is the sum over the records. -/
def Balanced (s : InMemoryState) : Prop :=
  ∃ total, totalBonded s = .ok total ∧ total.val = bondedSum s

variable {s s' t : InMemoryState} {id : Address} {v v' : Validator} {total total' : Amount}
  {u : Unit}

theorem bondedAt_of_ok (h : getValidator id s = .ok v) : bondedAt s id = v.bonded := by
  unfold bondedAt
  rw [h]

theorem bondedAt_of_getBytes (h : s.getBytes (validatorKey id) = none) : bondedAt s id = 0 := by
  unfold bondedAt getValidator
  rw [h]

section

omit [Crypto]

theorem Validator.bonded_of_ne (h : v.status ≠ validatorRemoved) : v.bonded = v.bondedStake.val :=
  if_neg h

theorem Validator.bonded_of_removed (h : v.status = validatorRemoved) : v.bonded = 0 := if_pos h

theorem Validator.bonded_stake (h : v.status ≠ validatorRemoved) (stake : Amount) :
    ({ v with bondedStake := stake } : Validator).stored.bonded = stake.val := if_neg h

theorem Validator.bonded_stake_of_removed (h : v.status = validatorRemoved) (stake : Amount) :
    ({ v with bondedStake := stake } : Validator).stored.bonded = 0 := if_pos h

end

variable {st : ValidatorStatus}

omit [Crypto] in
theorem Validator.bonded_status (h : st ≠ validatorRemoved) (v : Validator) :
    ({ v with status := st } : Validator).stored.bonded = v.bondedStake.val := if_neg h

omit [Crypto] in
theorem Validator.restaked_id (h : v.consensusID = id) (stake : Amount) :
    ({ v with bondedStake := stake } : Validator).stored.consensusID = id := by exact h

theorem bondedSum_of_others (h : ∀ a, a ≠ id → getValidator a s' = getValidator a s) :
    bondedSum s' + bondedAt s id = bondedSum s + bondedAt s' id := by
  have hrest : ∑ a ∈ Finset.univ.erase id, bondedAt s' a =
      ∑ a ∈ Finset.univ.erase id, bondedAt s a := by
    refine Finset.sum_congr rfl fun a ha => ?_
    unfold bondedAt
    rw [h a (Finset.ne_of_mem_erase ha)]
  unfold bondedSum
  rw [← Finset.add_sum_erase _ _ (Finset.mem_univ id),
    ← Finset.add_sum_erase _ (bondedAt s) (Finset.mem_univ id)]
  omega

/-! ### One operation -/

/-- One record and the total are new. -/
structure Amends (s s' : InMemoryState) (id : Address) (v' : Validator) (total' : Amount) :
    Prop where
  record : getValidator id s' = .ok v'
  filed : v'.consensusID = id
  others : ∀ a, a ≠ id → getValidator a s' = getValidator a s
  total : totalBonded s' = .ok total'

theorem Amends.filed_after (h : Amends s s' id v' total') (hf : Filed s) : Filed s' := by
  intro a w hw
  by_cases ha : a = id
  · subst ha
    cases h.record.symm.trans hw
    exact h.filed
  · exact hf a w ((h.others a ha).symm.trans hw)

theorem Amends.of_booked (hkv : t.kvstore = s.kvstore) (v' : Validator)
    (hid : v'.consensusID = id) : Amends s (booked t total' v') id v' total' where
  record := by rw [booked, hid, getValidator_setRecord, if_pos rfl]
  filed := hid
  others a ha := by
    rw [booked, hid, getValidator_setRecord, if_neg ha,
      getValidator_setBytes_of_ne (validatorKey_ne_totalBonded a).symm, getValidator_of_kvstore hkv]
  total := by
    rw [booked, totalBonded_setBytes (validatorKey_ne_totalBonded _), totalBonded_setBytes_self]

theorem Amends.of_status (hf : Filed s) (hv : getValidator id s = .ok v)
    (htotal : totalBonded s = .ok total) (v' : Validator) (hid : v'.consensusID = v.consensusID) :
    Amends s (s.setBytes (validatorKey v.consensusID) v'.encode) id v' total where
  record := by rw [hf id v hv, getValidator_setRecord, if_pos rfl]
  filed := hid.trans (hf id v hv)
  others a ha := by rw [hf id v hv, getValidator_setRecord, if_neg ha]
  total := by rw [totalBonded_setBytes (validatorKey_ne_totalBonded _), htotal]

variable {count : UInt64}

theorem Amends.of_enrolled :
    Amends s ((enrolled s v count).setBytes keyTotalBonded total'.marshalBinary) v.consensusID v
      total' where
  record := by
    rw [getValidator_setBytes_of_ne (validatorKey_ne_totalBonded _).symm, getValidator_enrolled,
      if_pos rfl]
  filed := rfl
  others a ha := by
    rw [getValidator_setBytes_of_ne (validatorKey_ne_totalBonded _).symm, getValidator_enrolled,
      if_neg ha]
  total := totalBonded_setBytes_self total' _

theorem Amends.of_retired (hf : Filed s) (hv : getValidator id s = .ok v)
    (hsame : SameRegistry (retired s v) s') (htotal : totalBonded s' = .ok total') :
    Amends s s' id { v with status := validatorRemoved }.stored total' where
  record := by rw [hsame.getValidator, getValidator_retired, if_pos (hf id v hv).symm]
  filed := hf id v hv
  others a ha := by
    rw [hsame.getValidator, getValidator_retired, if_neg (fun h => ha (h.trans (hf id v hv)))]
  total := htotal

def StakingOp.overdrawn (s : InMemoryState) : StakingOp → ℕ
  | .slash id amount =>
    match getValidator id s with
    | .ok v => if v.status = validatorRemoved then min v.bondedStake.val amount.val else 0
    | .error _ => 0
  | _ => 0

def Books (s s' : InMemoryState) (total : Amount) (overdrawn : ℕ) : Prop :=
  ∃ id v' total', Amends s s' id v' total' ∧
    total'.val + bondedAt s id + overdrawn = total.val + v'.bonded

variable {amount result : Amount} {o : StakingOp}

section

variable (htotal : totalBonded s = .ok total)
include htotal

theorem registerValidator_books {pubKey : PublicKey} {operator : Address} {stake : Amount}
    {commission : UInt16} {epoch : UInt64}
    (h : registerValidator pubKey operator stake commission epoch s = .ok id s') :
    Books s s' total 0 := by
  obtain ⟨v, count, total1, total', henrol, hv, htotal1, hadd, rfl⟩ := registerValidator_eq_ok h
  cases htotal.symm.trans htotal1
  refine ⟨v.consensusID, v, total', .of_enrolled, ?_⟩
  obtain ⟨-, -, rfl⟩ := newValidator_eq_ok.1 hv
  rw [bondedAt_of_getBytes henrol.fresh]
  show total'.val + 0 + 0 = total.val + stake.val
  omega

variable (hf : Filed s)
include hf

theorem Books.of_status (hv : getValidator id s = .ok v) (hst : v.status ≠ validatorRemoved)
    (hne : st ≠ validatorRemoved) (w : Validator) (hid : w.consensusID = v.consensusID)
    (hstake : w.bondedStake = v.bondedStake) : Books s
      (s.setBytes (validatorKey v.consensusID) { w with status := st }.stored.encode) total 0 := by
  refine ⟨id, _, total, .of_status hf hv htotal { w with status := st }.stored hid, ?_⟩
  rw [bondedAt_of_ok hv, Validator.bonded_of_ne hst, ← hstake, Validator.bonded_status hne w,
    add_zero]

theorem bond_books {sender : Address} (h : bond sender id amount s = .ok result s') :
    Books s s' total 0 := by
  obtain ⟨v, t, total1, total', hv, hst, hsub, hstake, htotal1, hadd, rfl⟩ := bond_eq_ok h
  cases htotal.symm.trans htotal1
  have hne : v.status ≠ validatorRemoved := by rcases hst with hst | hst <;> rw [hst] <;> decide
  refine ⟨id, _, total', .of_booked (subBalance_kvstore hsub) _
    (v.restaked_id (hf id v hv) _), ?_⟩
  rw [bondedAt_of_ok hv, Validator.bonded_of_ne hne, Validator.bonded_stake hne]
  omega

theorem slash_books (h : slash id amount s = .ok result s') :
    Books s s' total (StakingOp.overdrawn s (.slash id amount)) := by
  obtain ⟨v, total1, newStake, total', hv, hresult, hstake, htotal1, hsub, rfl⟩ := slash_eq_ok h
  cases htotal.symm.trans htotal1
  refine ⟨id, _, total', .of_booked rfl _ (v.restaked_id (hf id v hv) _), ?_⟩
  unfold StakingOp.overdrawn
  simp only [hv]
  rw [bondedAt_of_ok hv]
  by_cases hst : v.status = validatorRemoved
  · rw [if_pos hst, Validator.bonded_of_removed hst, Validator.bonded_stake_of_removed hst]
    omega
  · rw [if_neg hst, Validator.bonded_of_ne hst, Validator.bonded_stake hst]
    omega

theorem applySlash_books {percent jailEpochs : UInt64}
    (h : applySlash id percent jailEpochs s = .ok u s') :
    Books s s' total 0 := by
  rcases applySlash_eq_ok.1 h with ⟨v, amount, hv, -, -, -, rfl⟩ |
    ⟨v, amount, newStake, total1, total', epoch, hp, rfl⟩
  · -- nothing was taken
    refine ⟨id, v, total, ⟨hv, hf id v hv, fun _ _ => rfl, htotal⟩, ?_⟩
    rw [bondedAt_of_ok hv, add_zero]
  · cases htotal.symm.trans hp.total_eq
    have hsub := hp.total_sub
    have hstake := hp.stake_eq
    have hamends : Amends s (booked s total' (v.penalized newStake (epoch + jailEpochs))) id
        (v.penalized newStake (epoch + jailEpochs)) total' :=
      .of_booked rfl _ ((v.penalized_consensusID _ _).trans (hf id v hp.found))
    rw [booked, Validator.penalized_consensusID] at hamends
    refine ⟨id, v.penalized newStake (epoch + jailEpochs), total', hamends, ?_⟩
    rw [bondedAt_of_ok hp.found, Validator.bonded_of_ne hp.status_ne,
      Validator.bonded_of_ne (v.penalized_status_ne_removed newStake _ hp.status_ne),
      Validator.penalized_bondedStake]
    omega

theorem removeValidator_books (hkv : t.kvstore = s.kvstore) (h : removeValidator id t = .ok u s') :
    Books s s' total 0 := by
  obtain ⟨v, total1, total', hv, hst, htotal1, hsub, htotal', -, hsame⟩ :=
    removeValidator_retired hkv h
  cases htotal.symm.trans htotal1
  refine ⟨id, _, total', .of_retired hf hv hsame htotal', ?_⟩
  have hne : v.status ≠ validatorRemoved := by rw [hst]; decide
  rw [bondedAt_of_ok hv, Validator.bonded_of_ne hne, Validator.bonded_of_removed rfl]
  omega

theorem StakingOp.books (h : o.run s = .ok u s') :
    Books s s' total (o.overdrawn s) := by
  cases o with
  | register pubKey operator stake commission epoch =>
    obtain ⟨a, _, h, hend⟩ := bind_eq_ok.1 h
    cases hend
    exact registerValidator_books htotal h
  | bond sender id amount =>
    obtain ⟨a, _, h, hend⟩ := bind_eq_ok.1 h
    cases hend
    exact bond_books htotal hf h
  | slash id amount =>
    obtain ⟨a, _, h, hend⟩ := bind_eq_ok.1 h
    cases hend
    exact slash_books htotal hf h
  | applySlash id percent jailEpochs => exact applySlash_books htotal hf h
  | releaseStake id =>
    obtain ⟨v, t, -, -, hadd, hremove⟩ := releaseStake_eq_ok h
    exact removeValidator_books htotal hf (addBalance_kvstore hadd) hremove
  | activate id epoch =>
    obtain ⟨v, hv, hst, rfl⟩ := activateValidator_eq_ok.1 h
    exact .of_status htotal hf hv (by rw [hst]; decide) (by decide)
      { v with activationEpoch := epoch } rfl rfl
  | jail id untilEpoch =>
    obtain ⟨v, hv, hst, rfl⟩ := jailValidator_eq_ok h
    exact .of_status htotal hf hv (by rw [hst]; decide) (by decide)
      { v with jailedUntil := untilEpoch } rfl rfl
  | unjail id =>
    obtain ⟨v, hv, hst, rfl⟩ := unjailValidator_eq_ok.1 h
    exact .of_status htotal hf hv (by rw [hst]; decide) (by decide) { v with jailedUntil := 0 } rfl
      rfl
  | startUnstake id epoch =>
    obtain ⟨v, hv, hedge, rfl⟩ := startUnstake_eq_ok h
    refine .of_status htotal hf hv (fun hst => ?_) (by decide) { v with unstakeEpoch := epoch } rfl
      rfl
    rw [hst] at hedge
    exact absurd hedge (by decide)
  | remove id => exact removeValidator_books htotal hf rfl h

end

/-! ### An epoch transition, operation by operation -/

def passOps (p : Validator → Bool) (mk : Address → StakingOp) :
    List UInt64 → InMemoryState → List StakingOp
  | [], _ => []
  | seq :: rest, s =>
    match validatorAt s seq with
    | none => passOps p mk rest s
    | some (id, v) =>
      if p v then mk id :: passOps p mk rest (finalState ((mk id).run s)) else passOps p mk rest s

def StakingStep.performed : StakingStep → InMemoryState → List StakingOp
  | .op o, _ => [o]
  | .epochTransition _, s =>
    match currentEpoch s, validatorCount s with
    | .ok epoch, .ok count =>
      let nextEpoch := epoch + 1
      let activations := passOps
        (fun v => decide (v.status = validatorPending ∧ v.activationEpoch = nextEpoch))
        (.activate · nextEpoch) (sequence count) s
      let s₁ := finalState (activations.forM StakingOp.run s)
      let releases := passOps
        (fun v => decide (v.status = validatorUnstaking ∧ v.unstakeEpoch ≤ nextEpoch))
        .releaseStake (sequence count) s₁
      let s₂ := finalState (releases.forM StakingOp.run s₁)
      activations ++ releases ++ passOps
        (fun v => decide (v.status = validatorJailed ∧ v.jailedUntil ≤ nextEpoch))
        .unjail (sequence count) s₂
    | _, _ => []

variable {p : Validator → Bool}

theorem forEachValidator_performs {act : Address → Exec InMemoryState Unit}
    (mk : Address → StakingOp) (hact : ∀ id s s', act id s = .ok () s' → (mk id).run s = .ok () s')
    (h : forEachValidator count p act s = .ok () s') :
    (passOps p mk (sequence count) s).forM StakingOp.run s = .ok () s' := by
  unfold forEachValidator at h
  generalize sequence count = seqs at h ⊢
  induction seqs generalizing s with
  | nil => exact h
  | cons seq rest ih =>
    obtain ⟨_, s1, hbody, hrest⟩ := bind_eq_ok.1 h
    obtain ⟨_, _, hget, hbody⟩ := bind_eq_ok.1 hbody
    obtain ⟨rfl, rfl⟩ := get_eq_ok.1 hget
    unfold passOps
    cases hat : validatorAt s seq with
    | none =>
      simp only [hat] at hbody
      cases hbody
      exact ih hrest
    | some entry =>
      obtain ⟨id, v⟩ := entry
      simp only [hat] at hbody
      dsimp only
      split_ifs at hbody ⊢ with hp
      · have hop := hact id s s1 hbody
        refine (bind_eq_ok_of hop).trans ?_
        rw [hop]
        exact ih hrest
      · cases hbody
        exact ih hrest

variable {height : UInt64}

theorem processEpochTransition_performs
    (h : processEpochTransition height s = .ok u s') : ∃ t epoch,
      ((StakingStep.epochTransition height).performed s).forM StakingOp.run s = .ok () t ∧
        s' = t.setBytes keyCurrentEpoch (putUint64 epoch) := by
  obtain ⟨epoch, hepoch, h⟩ := asks_bind_eq_ok.1 h
  obtain ⟨expected, -, h⟩ := asks_bind_eq_ok.1 h
  obtain ⟨-, h⟩ := failIf_bind_eq_ok.1 h
  obtain ⟨count, hcount, h⟩ := asks_bind_eq_ok.1 h
  obtain ⟨_, s1, h1, h⟩ := bind_eq_ok.1 h
  obtain ⟨_, s2, h2, h⟩ := bind_eq_ok.1 h
  obtain ⟨_, t, h3, h⟩ := bind_eq_ok.1 h
  have hops1 := forEachValidator_performs (.activate · (epoch + 1))
    (fun _ _ _ h => wrapErr_eq_ok.1 h) h1
  have hops2 := forEachValidator_performs (.releaseStake ·)
    (fun _ _ _ h => wrapErr_eq_ok.1 h) h2
  have hops3 := forEachValidator_performs (.unjail ·) (fun _ _ _ h => wrapErr_eq_ok.1 h) h3
  refine ⟨t, epoch + 1, ?_, (modify_eq_ok.1 h).symm⟩
  unfold StakingStep.performed
  simp only [hepoch, hcount]
  rw [hops1]
  dsimp only [finalState]
  rw [hops2]
  exact forM_append_eq_ok.2 ⟨s2, forM_append_eq_ok.2 ⟨s1, hops1, hops2⟩, hops3⟩

theorem mem_passOps {mk : Address → StakingOp}
    {seqs : List UInt64} (h : o ∈ passOps p mk seqs s) : ∃ id, o = mk id := by
  induction seqs generalizing s with
  | nil => cases h
  | cons seq rest ih =>
    unfold passOps at h
    cases hat : validatorAt s seq with
    | none =>
      simp only [hat] at h
      exact ih h
    | some entry =>
      simp only [hat] at h
      split_ifs at h
      · rcases List.mem_cons.1 h with rfl | h
        · exact ⟨entry.1, rfl⟩
        · exact ih h
      · exact ih h

theorem mem_performed (h : o ∈ (StakingStep.epochTransition height).performed s) :
    ∃ id epoch, o = .activate id epoch ∨ o = .releaseStake id ∨ o = .unjail id := by
  unfold StakingStep.performed at h
  cases hepoch : currentEpoch s with
  | error e =>
    simp only [hepoch] at h
    cases h
  | ok epoch =>
    cases hcount : validatorCount s with
    | error e =>
      simp only [hepoch, hcount] at h
      cases h
    | ok count =>
      simp only [hepoch, hcount] at h
      rcases List.mem_append.1 h with h | h
      · rcases List.mem_append.1 h with h | h
        · obtain ⟨id, rfl⟩ := mem_passOps h
          exact ⟨id, _, .inl rfl⟩
        · obtain ⟨id, rfl⟩ := mem_passOps h
          exact ⟨id, epoch, .inr (.inl rfl)⟩
      · obtain ⟨id, rfl⟩ := mem_passOps h
        exact ⟨id, epoch, .inr (.inr rfl)⟩

/-! ### Runs -/

structure InBooks (s : InMemoryState) : Prop where
  filed : Filed s
  total : ∃ total, totalBonded s = .ok total

theorem EmptyRegistry.inBooks (h : EmptyRegistry s) : InBooks s where
  filed id v hv := by
    unfold getValidator at hv
    rw [h.records _ (validatorKey_starts id)] at hv
    cases hv
  total := ⟨_, h.bonded⟩

theorem EmptyRegistry.balanced (h : EmptyRegistry s) : Balanced s := by
  refine ⟨_, h.bonded, ?_⟩
  have hzero (id : Address) : bondedAt s id = 0 :=
    bondedAt_of_getBytes (h.records _ (validatorKey_starts id))
  unfold bondedSum
  rw [Finset.sum_eq_zero fun id _ => hzero id]
  rfl

theorem StakingOp.inBooks (hs : InBooks s) (h : o.run s = .ok u s') : InBooks s' := by
  obtain ⟨total, htotal⟩ := hs.total
  obtain ⟨id, v', total', hamends, -⟩ := StakingOp.books htotal hs.filed h
  exact ⟨hamends.filed_after hs.filed, total', hamends.total⟩

theorem StakingOp.balanced_iff (hs : InBooks s) (hb : Balanced s)
    (h : o.run s = .ok u s') : Balanced s' ↔ o.overdrawn s = 0 := by
  obtain ⟨total, htotal, hsum⟩ := hb
  obtain ⟨id, v', total', hamends, hbooks⟩ := StakingOp.books htotal hs.filed h
  have hupdate := bondedSum_of_others hamends.others
  rw [bondedAt_of_ok hamends.record] at hupdate
  constructor
  · rintro ⟨total1, htotal1, hsum1⟩
    cases hamends.total.symm.trans htotal1
    omega
  · intro hzero
    exact ⟨total', hamends.total, by omega⟩

theorem getValidator_setEpoch (epoch : UInt64) (s : InMemoryState) (id : Address) :
    getValidator id (s.setBytes keyCurrentEpoch (putUint64 epoch)) = getValidator id s :=
  getValidator_setBytes_of_ne (ne_validatorKey_of_not_starts (by decide) id) _ s

theorem InBooks.setEpoch (hs : InBooks s) (epoch : UInt64) :
    InBooks (s.setBytes keyCurrentEpoch (putUint64 epoch)) where
  filed id v hv := hs.filed id v ((getValidator_setEpoch epoch s id).symm.trans hv)
  total := by
    rw [totalBonded_setBytes (by decide)]
    exact hs.total

theorem Balanced.setEpoch (hb : Balanced s) (epoch : UInt64) :
    Balanced (s.setBytes keyCurrentEpoch (putUint64 epoch)) := by
  obtain ⟨total, htotal, hsum⟩ := hb
  refine ⟨total, (totalBonded_setBytes (by decide) _ s).trans htotal, hsum.trans ?_⟩
  refine Finset.sum_congr rfl fun id _ => ?_
  unfold bondedAt
  rw [getValidator_setEpoch]

variable {step : StakingStep}

theorem StakingStep.inBooks (hs : InBooks s) (h : step.run s = .ok u s') : InBooks s' := by
  cases step with
  | op o => exact StakingOp.inBooks hs h
  | epochTransition height =>
    obtain ⟨t, epoch, hops, rfl⟩ := processEpochTransition_performs h
    exact (forM_keeps (fun o _ _ _ hs h => StakingOp.inBooks hs h) hops hs).setEpoch epoch

/-- A slash of a removed validator takes nothing. -/
def StakingStep.KeepsBooks (s : InMemoryState) : StakingStep → Prop
  | .op (.slash id amount) => ∀ v, getValidator id s = .ok v → v.status = validatorRemoved →
      v.bondedStake.val = 0 ∨ amount.val = 0
  | _ => True

theorem StakingStep.keepsBooks_iff (o : StakingOp) (s : InMemoryState) :
    (StakingStep.op o).KeepsBooks s ↔ o.overdrawn s = 0 := by
  cases o
  case slash id amount =>
    unfold KeepsBooks StakingOp.overdrawn
    cases hv : getValidator id s with
    | error e => simp [hv]
    | ok v =>
      simp only [hv, Except.ok.injEq, forall_eq']
      split_ifs with hst
      · simp only [hst, true_imp_iff]
        omega
      · simp only [hst, false_imp_iff]
  all_goals exact ⟨fun _ => rfl, fun _ => trivial⟩

theorem StakingStep.balanced_iff (hs : InBooks s) (hb : Balanced s)
    (h : step.run s = .ok u s') : Balanced s' ↔ step.KeepsBooks s := by
  cases step with
  | op o => exact (StakingOp.balanced_iff hs hb h).trans (StakingStep.keepsBooks_iff o s).symm
  | epochTransition height =>
    obtain ⟨t, epoch, hops, rfl⟩ := processEpochTransition_performs h
    refine ⟨fun _ => trivial, fun _ => ?_⟩
    have hkeep : InBooks t ∧ Balanced t := by
      refine forM_keeps (P := fun s => InBooks s ∧ Balanced s) (fun o ho s s' hs h => ?_) hops
        ⟨hs, hb⟩
      refine ⟨StakingOp.inBooks hs.1 h, (StakingOp.balanced_iff hs.1 hs.2 h).2 ?_⟩
      obtain ⟨id, epoch, rfl | rfl | rfl⟩ := mem_performed ho <;> rfl
    exact hkeep.2.setEpoch epoch

theorem EmptyRegistry.inBooks_run (h0 : EmptyRegistry s) {steps : List StakingStep}
    (h : steps.forM StakingStep.run s = .ok () s') : InBooks s' :=
  forM_keeps (fun _ _ _ _ hs h => StakingStep.inBooks hs h) h h0.inBooks

/-- The total is the sum exactly when no removed validator loses stake. -/
theorem balanced_along_iff (s₀ : InMemoryState) (h₀ : EmptyRegistry s₀)
    (steps : List StakingStep) :
    (∀ past t, past <+: steps → past.forM StakingStep.run s₀ = .ok () t → Balanced t) ↔
      ∀ past step t t', past ++ [step] <+: steps → past.forM StakingStep.run s₀ = .ok () t →
        step.run t = .ok () t' → step.KeepsBooks t := by
  constructor
  · intro h past step t t' hpast hrun hstep
    have hb : Balanced t := h past t ((List.prefix_append _ _).trans hpast) hrun
    have hb' : Balanced t' := h _ t' hpast
      (forM_append_eq_ok.2 ⟨t, hrun, forM_singleton_eq_ok.2 hstep⟩)
    exact (StakingStep.balanced_iff (h₀.inBooks_run hrun) hb hstep).1 hb'
  · intro h past
    -- by induction on the run, from its end
    induction past using List.reverseRecOn with
    | nil =>
      intro t _ hrun
      cases hrun
      exact h₀.balanced
    | append_singleton past step ih =>
      intro t' hpast hrun
      obtain ⟨t, hrun, hstep⟩ := forM_append_eq_ok.1 hrun
      rw [forM_singleton_eq_ok] at hstep
      have hb := ih t ((List.prefix_append _ _).trans hpast) hrun
      exact (StakingStep.balanced_iff (h₀.inBooks_run hrun) hb hstep).2
        (h past step t t' hpast hrun hstep)

def sampleLeave : List StakingStep :=
  [.op (.register (samplePubKey 1) (.copy 20 [1]) (.ofUInt64 100000) 0 0),
    .op (.register (samplePubKey 2) (.copy 20 [2]) (.ofUInt64 100000) 0 0),
    .op (.activate (sampleID 1) 1), .op (.startUnstake (sampleID 1) 2), .op (.remove (sampleID 1))]

end

open Sample

theorem balanced_along_iff_sample : EmptyRegistry newInMemoryState ∧ ∀ past t,
    past <+: sampleLeave → past.forM StakingStep.run newInMemoryState = .ok () t → Balanced t := by
  refine ⟨emptyRegistry_newInMemoryState, ?_⟩
  refine (balanced_along_iff newInMemoryState emptyRegistry_newInMemoryState sampleLeave).2 ?_
  intro past step t t' hpast _ _
  have hmem : step ∈ sampleLeave :=
    hpast.subset (List.mem_append_right _ (List.mem_singleton_self step))
  simp only [sampleLeave, List.mem_cons, List.not_mem_nil, or_false] at hmem
  rcases hmem with rfl | rfl | rfl | rfl | rfl <;> trivial

theorem slash_of_removed_unbalances : ¬ ∀ (_ : Crypto) (s₀ s : InMemoryState)
    (steps : List StakingStep), EmptyRegistry s₀ → steps.forM StakingStep.run s₀ = .ok () s →
      Balanced s := by
  intro h
  let o : StakingOp := .slash (sampleID 1) (.ofUInt64 1)
  obtain ⟨_, t, hrun, ht⟩ := exists_of_succeedsWith (show succeedsWith (fun _ t =>
    decide (o.overdrawn t = 1) && succeedsWith (fun _ _ => true) (o.run t))
      (sampleLeave.forM StakingStep.run newInMemoryState) = true by decide +kernel)
  obtain ⟨hover, hslash⟩ := Bool.and_eq_true_iff.1 ht
  obtain ⟨_, t', hslash, -⟩ := exists_of_succeedsWith hslash
  have hempty := emptyRegistry_newInMemoryState
  have hb : Balanced t := h sampleCrypto _ t sampleLeave hempty hrun
  have hstep : [StakingStep.op o].forM StakingStep.run t = .ok () t' :=
    forM_singleton_eq_ok.2 hslash
  have hb' : Balanced t' := h sampleCrypto _ t' (sampleLeave ++ [.op o]) hempty
    (forM_append_eq_ok.2 ⟨t, hrun, hstep⟩)
  have hzero := (StakingOp.balanced_iff (hempty.inBooks_run hrun) hb hslash).1 hb'
  have hone : o.overdrawn t = 1 := of_decide_eq_true hover
  omega

end Dsn
