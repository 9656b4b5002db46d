import Dsn.Staking.Operations

/-!
# Changes of the registry

Every operation changes the registry in one of four ways, or not at all. Invariants of the registry
are proved from these.
-/

namespace Dsn

open Go InMemoryState

variable [Crypto] {s s' t : InMemoryState} {id sender : Address} {amount result : Amount}
  {v v' : Validator} {epoch : UInt64} {u : Unit} {pubKey : PublicKey} {operator : Address}
  {stake : Amount} {commission : UInt16}

/-! ### The four ways -/

def SameRegistry (s s' : InMemoryState) : Prop :=
  ∀ key, str "validator/" <+: key → s'.getBytes key = s.getBytes key

structure Rewrites (v v' : Validator) : Prop where
  consensusID : v'.consensusID = v.consensusID
  publicKey : v'.publicKey = v.publicKey
  operatorAddress : v'.operatorAddress = v.operatorAddress
  status : v'.status = v.status ∨
    isValidTransition v.status v'.status = true ∧ v'.status ≠ validatorRemoved
  stored : v'.stored = v'

omit [Crypto] in
theorem Rewrites.of_stored (v' : Validator) (hid : v'.consensusID = v.consensusID)
    (hkey : v'.publicKey = v.publicKey) (hop : v'.operatorAddress = v.operatorAddress)
    (hst : v'.status = v.status ∨
      isValidTransition v.status v'.status = true ∧ v'.status ≠ validatorRemoved) :
    Rewrites v v'.stored := ⟨hid, hkey, hop, hst, rfl⟩

def retired (s : InMemoryState) (v : Validator) : InMemoryState :=
  ((s.deleteBytes (validatorPubkeyKey v.publicKey)).deleteBytes
    (validatorOperatorKey v.operatorAddress)).setBytes (validatorKey v.consensusID)
      { v with status := validatorRemoved }.stored.encode

theorem getValidator_setRecord (a : Address) (v : Validator) (id : Address) (s : InMemoryState) :
    getValidator a (s.setBytes (validatorKey id) v.encode) =
      if a = id then .ok v else getValidator a s := by
  split_ifs with h
  · subst h
    exact getValidator_setBytes_self a v s
  · exact getValidator_setBytes_of_ne (fun hk => h (validatorKey_injective hk).symm) _ s

theorem getValidator_enrolled (a : Address) (s : InMemoryState) (v : Validator) (count : UInt64) :
    getValidator a (enrolled s v count) =
      if a = v.consensusID then .ok v else getValidator a s := by
  unfold enrolled
  rw [getValidator_setBytes_of_ne (validatorKey_ne_count _).symm,
    getValidator_setBytes_of_ne (validatorKey_ne_bySeq _ _).symm,
    getValidator_setBytes_of_ne (validatorKey_ne_operator _ _).symm,
    getValidator_setBytes_of_ne (validatorKey_ne_pubkey _ _).symm, getValidator_setRecord]

theorem getValidator_retired (a : Address) (s : InMemoryState) (v : Validator) :
    getValidator a (retired s v) = if a = v.consensusID
      then .ok { v with status := validatorRemoved }.stored else getValidator a s := by
  unfold retired
  rw [getValidator_setRecord]
  have hrest : getValidator a ((s.deleteBytes (validatorPubkeyKey v.publicKey)).deleteBytes
      (validatorOperatorKey v.operatorAddress)) = getValidator a s := by
    refine getValidator_congr ?_
    rw [getBytes_deleteBytes_of_ne (validatorKey_ne_operator _ _).symm,
      getBytes_deleteBytes_of_ne (validatorKey_ne_pubkey _ _).symm]
  rw [hrest]

inductive RegistryAmend (s s' : InMemoryState) : Prop
  | idle (h : SameRegistry s s')
  | rewrite (id : Address) (v v' : Validator) (found : getValidator id s = .ok v)
      (change : Rewrites v v')
      (h : SameRegistry (s.setBytes (validatorKey v.consensusID) v'.encode) s')
  | retire (id : Address) (v : Validator) (found : getValidator id s = .ok v)
      (unstaking : v.status = validatorUnstaking) (h : SameRegistry (retired s v) s')

inductive RegistryStep (s s' : InMemoryState) : Prop
  | amend (h : RegistryAmend s s')
  | enrol (v : Validator) (count : UInt64) (enrols : Enrolls s v count)
      (h : SameRegistry (enrolled s v count) s')

omit [Crypto] in
theorem SameRegistry.refl (s : InMemoryState) : SameRegistry s s := fun _ _ => rfl

theorem SameRegistry.getValidator (h : SameRegistry s s') (id : Address) :
    getValidator id s' = getValidator id s := getValidator_congr (h _ (validatorKey_starts id))

section

omit [Crypto]

theorem SameRegistry.of_kvstore (h : s'.kvstore = s.kvstore) : SameRegistry s s' := by
  intro key _
  unfold getBytes
  rw [h]

theorem SameRegistry.setBytes {key : Bytes} (hkey : ¬ str "validator/" <+: key) (value : Bytes)
    (s : InMemoryState) : SameRegistry s (s.setBytes key value) := by
  intro a ha
  refine getBytes_setBytes_of_ne ?_ value s
  rintro rfl
  exact hkey ha

theorem SameRegistry.trans (h : SameRegistry s t) (h' : SameRegistry t s') : SameRegistry s s' :=
  fun key hkey => (h' key hkey).trans (h key hkey)

theorem SameRegistry.congr_setBytes (h : SameRegistry s s') (key value : Bytes) :
    SameRegistry (s.setBytes key value) (s'.setBytes key value) := by
  intro a ha
  by_cases hk : key = a
  · subst hk
    rw [getBytes_setBytes_self, getBytes_setBytes_self]
  · rw [getBytes_setBytes_of_ne hk, getBytes_setBytes_of_ne hk, h a ha]

theorem sameRegistry_booked (h : t.kvstore = s.kvstore) (newTotal : Amount) (v : Validator) :
    SameRegistry (s.setBytes (validatorKey v.consensusID) v.encode) (booked t newTotal v) := by
  refine SameRegistry.congr_setBytes ?_ _ _
  exact (SameRegistry.of_kvstore h).trans (.setBytes (by decide) _ t)

theorem SameRegistry.congr_deleteBytes (h : SameRegistry s s') (key : Bytes) :
    SameRegistry (s.deleteBytes key) (s'.deleteBytes key) := by
  intro a ha
  by_cases hk : key = a
  · subst hk
    rw [getBytes_deleteBytes_self, getBytes_deleteBytes_self]
  · rw [getBytes_deleteBytes_of_ne hk, getBytes_deleteBytes_of_ne hk, h a ha]

theorem Validator.penalized_stored (v : Validator) (newStake : Amount) (jailedUntil : UInt64) :
    (v.penalized newStake jailedUntil).stored = v.penalized newStake jailedUntil := by
  unfold Validator.stored
  rw [if_neg (v.penalized_status_ne_active newStake jailedUntil)]
  unfold Validator.penalized
  split_ifs <;> rfl

theorem Validator.penalized_rewrites (v : Validator) (newStake : Amount) (jailedUntil : UInt64) :
    Rewrites v (v.penalized newStake jailedUntil).stored := by
  rw [penalized_stored]
  refine ⟨v.penalized_consensusID newStake jailedUntil, ?_, ?_, ?_, penalized_stored ..⟩
  all_goals
    unfold penalized
    split_ifs with hst
  · rfl
  · rfl
  · rfl
  · rfl
  · refine .inr ⟨?_, ?_⟩
    · show isValidTransition v.status validatorJailed = true
      rw [hst]
      decide
    · show validatorJailed ≠ validatorRemoved
      decide
  · exact .inl rfl

end

theorem RegistryAmend.moved {st : ValidatorStatus} (found : getValidator id s = .ok v)
    (edge : isValidTransition v.status st = true) (hne : st ≠ validatorRemoved) (v' : Validator)
    (hid : v'.consensusID = v.consensusID) (hkey : v'.publicKey = v.publicKey)
    (hop : v'.operatorAddress = v.operatorAddress) : RegistryAmend s
      (s.setBytes (validatorKey v.consensusID) { v' with status := st }.stored.encode) := by
  refine .rewrite id v { v' with status := st }.stored found ?_ ?_
  · exact .of_stored { v' with status := st } hid hkey hop (.inr ⟨edge, hne⟩)
  · exact .refl _

theorem RegistryAmend.update (found : getValidator id s = .ok v) (hkv : t.kvstore = s.kvstore)
    (newTotal : Amount) (v' : Validator) (change : Rewrites v v'.stored) :
    RegistryAmend s (booked t newTotal v'.stored) := by
  refine .rewrite id v v'.stored found change ?_
  rw [← change.consensusID]
  exact sameRegistry_booked hkv newTotal v'.stored

theorem addBalance_kvstore (h : addBalance id amount s = .ok u t) : t.kvstore = s.kvstore := by
  obtain ⟨acc, bal, -, -, rfl⟩ := addBalance_eq_ok.1 h
  rfl

instance : Std.Refl RegistryAmend := ⟨fun s => .idle (.refl s)⟩

/-! ### Operations that fail -/

variable {e : Error}

theorem bond_error (h : bond sender id amount s = .error e s') : s'.kvstore = s.kvstore := by
  rcases eq_or_of_bind_eq_error ((Steps.asks _).wrapErr _) h with rfl | ⟨acc, -, h⟩
  · rfl
  rcases failIf_bind_eq_error h with rfl | ⟨-, h⟩
  · rfl
  rcases asks_bind_eq_error h with rfl | ⟨v, -, h⟩
  · rfl
  rcases failIf_bind_eq_error h with rfl | ⟨-, h⟩
  · rfl
  rcases bind_eq_error.1 h with h | ⟨_, t, hsub, h⟩
  · obtain rfl := subBalance_atomic _ _ _ h
    rfl
  rw [← subBalance_kvstore hsub]
  rcases eq_or_of_bind_eq_error (Steps.ofResult _) h with rfl | ⟨newStake, -, h⟩
  · rfl
  rcases asks_bind_eq_error h with rfl | ⟨total, -, h⟩
  · rfl
  rcases eq_or_of_bind_eq_error (Steps.ofResult _) h with rfl | ⟨newTotal, -, h⟩
  · rfl
  · cases h

theorem releaseStake_error (h : releaseStake id s = .error e s') : s'.kvstore = s.kvstore := by
  rcases asks_bind_eq_error h with rfl | ⟨v, -, h⟩
  · rfl
  rcases failIf_bind_eq_error h with rfl | ⟨-, h⟩
  · rfl
  rcases eq_or_of_bind_eq_error ((Steps.asks _).wrapErr _) h with rfl | ⟨_, -, h⟩
  · rfl
  rcases bind_eq_error.1 h with h | ⟨_, t, hadd, h⟩
  · obtain rfl := addBalance_atomic _ _ _ h
    rfl
  · obtain rfl := removeValidator_atomic _ _ _ h
    exact addBalance_kvstore hadd

/-! ### Operation by operation -/

theorem bond_registryAmend : Steps RegistryAmend (bond sender id amount) := by
  intro s
  cases h : bond sender id amount s with
  | error e s' => exact .idle (.of_kvstore (bond_error h))
  | ok result s' =>
    obtain ⟨v, t, total, newTotal, hv, -, hsub, -, -, -, rfl⟩ := bond_eq_ok h
    exact .update hv (subBalance_kvstore hsub) newTotal _
      (.of_stored { v with bondedStake := result } rfl rfl rfl (.inl rfl))

theorem slash_registryAmend : Steps RegistryAmend (slash id amount) := by
  refine Steps.of_atomic slash_atomic fun s result s' h => ?_
  obtain ⟨v, total, newStake, newTotal, hv, -, -, -, -, rfl⟩ := slash_eq_ok h
  exact .update hv rfl newTotal _
    (.of_stored { v with bondedStake := newStake } rfl rfl rfl (.inl rfl))

variable {percent jailEpochs : UInt64}

theorem applySlash_error_sameRegistry
    (h : applySlash id percent jailEpochs s = .error e s') : SameRegistry s s' := by
  refine fun key hkey => applySlash_error h key ?_
  rintro ⟨t, ht, hstarts⟩
  obtain rfl := List.mem_singleton.1 ht
  exact absurd (List.prefix_or_prefix_of_prefix hkey hstarts) (by decide)

theorem applySlash_registryAmend : Steps RegistryAmend (applySlash id percent jailEpochs) := by
  intro s
  cases h : applySlash id percent jailEpochs s with
  | error e s' => exact .idle (applySlash_error_sameRegistry h)
  | ok _ s' =>
    rcases applySlash_eq_ok.1 h with ⟨v, amount, -, -, -, -, rfl⟩ |
      ⟨v, amount, newStake, total, newTotal, epoch, hp, rfl⟩
    · exact Std.Refl.refl _
    · have hstep := RegistryAmend.update hp.found rfl newTotal
        (v.penalized newStake (epoch + jailEpochs)) (v.penalized_rewrites newStake _)
      rw [Validator.penalized_stored] at hstep
      rwa [booked, Validator.penalized_consensusID] at hstep

theorem activateValidator_registryAmend : Steps RegistryAmend (activateValidator id epoch) := by
  refine Steps.of_atomic (activateValidator_atomic epoch) fun s _ s' h => ?_
  obtain ⟨v, hv, hst, rfl⟩ := activateValidator_eq_ok.1 h
  exact .moved hv (by rw [hst]; decide) (by decide) { v with activationEpoch := epoch } rfl rfl rfl

theorem unjailValidator_registryAmend : Steps RegistryAmend (unjailValidator id) := by
  refine Steps.of_atomic unjailValidator_atomic fun s _ s' h => ?_
  obtain ⟨v, hv, hst, rfl⟩ := unjailValidator_eq_ok.1 h
  exact .moved hv (by rw [hst]; decide) (by decide) { v with jailedUntil := 0 } rfl rfl rfl

theorem jailValidator_registryAmend : Steps RegistryAmend (jailValidator id epoch) := by
  refine Steps.of_atomic jailValidator_atomic fun s _ s' h => ?_
  obtain ⟨v, hv, hst, rfl⟩ := jailValidator_eq_ok h
  exact .moved hv (by rw [hst]; decide) (by decide) { v with jailedUntil := epoch } rfl rfl rfl

theorem startUnstake_registryAmend : Steps RegistryAmend (startUnstake id epoch) := by
  refine Steps.of_atomic startUnstake_atomic fun s _ s' h => ?_
  obtain ⟨v, hv, hedge, rfl⟩ := startUnstake_eq_ok h
  exact .moved hv hedge (by decide) { v with unstakeEpoch := epoch } rfl rfl rfl

theorem removeValidator_retired (hkv : t.kvstore = s.kvstore)
    (h : removeValidator id t = .ok u s') : ∃ v total, ∃ newTotal : Amount,
      getValidator id s = .ok v ∧ v.status = validatorUnstaking ∧ totalBonded s = .ok total ∧
      total.val = newTotal.val + v.bondedStake.val ∧ totalBonded s' = .ok newTotal ∧
      s'.accounts = t.accounts ∧ SameRegistry (retired s v) s' := by
  obtain ⟨v, total, newTotal, hv, hst, htotal, hsub, rfl⟩ := removeValidator_eq_ok h
  rw [getValidator_of_kvstore hkv] at hv
  rw [totalBonded_congr hkv] at htotal
  refine ⟨v, total, newTotal, hv, hst, htotal, hsub, ?_, rfl, ?_⟩
  · unfold totalBonded
    rw [getBytes_setBytes_of_ne (validatorKey_ne_totalBonded _),
      getBytes_deleteBytes_of_ne (validatorOperatorKey_ne_totalBonded _),
      getBytes_deleteBytes_of_ne (validatorPubkeyKey_ne_totalBonded _), getBytes_setBytes_self]
    exact newTotal.unmarshalBinary_marshalBinary
  refine SameRegistry.congr_setBytes (SameRegistry.congr_deleteBytes
    (SameRegistry.congr_deleteBytes ?_ _) _) _ _
  exact (SameRegistry.of_kvstore hkv).trans (.setBytes (by decide) _ t)

theorem RegistryAmend.of_removeValidator (hkv : t.kvstore = s.kvstore)
    (h : removeValidator id t = .ok u s') : RegistryAmend s s' := by
  obtain ⟨v, total, newTotal, hv, hst, -, -, -, -, hsame⟩ := removeValidator_retired hkv h
  exact .retire id v hv hst hsame

theorem removeValidator_registryAmend : Steps RegistryAmend (removeValidator id) :=
  Steps.of_atomic removeValidator_atomic fun _ _ _ h => .of_removeValidator rfl h

theorem releaseStake_registryAmend : Steps RegistryAmend (releaseStake id) := by
  intro s
  cases h : releaseStake id s with
  | error e s' => exact .idle (.of_kvstore (releaseStake_error h))
  | ok _ s' =>
    obtain ⟨v, t, -, -, hadd, hremove⟩ := releaseStake_eq_ok h
    exact .of_removeValidator (addBalance_kvstore hadd) hremove

omit [Crypto] in
theorem addStake_sameRegistry (id : Address) (stake : Amount) :
    Steps SameRegistry (addStake id stake) := by
  intro s
  cases h : addStake id stake s with
  | error e s' =>
    obtain rfl := addStake_atomic _ _ _ h
    exact .refl _
  | ok a s' =>
    obtain ⟨total, newTotal, -, -, -, rfl⟩ := addStake_eq_ok.1 h
    exact .setBytes (by decide) _ _

theorem registerValidator_enrols (pubKey : PublicKey) (operator : Address) (stake : Amount)
    (commission : UInt16) (epoch : UInt64) (s : InMemoryState) :
    (∃ e, registerValidator pubKey operator stake commission epoch s = .error e s) ∨
      ∃ v count, Enrolls s v count ∧ v.publicKey = pubKey ∧
        SameRegistry (enrolled s v count)
          (finalState (registerValidator pubKey operator stake commission epoch s)) := by
  rcases registerValidator_cases pubKey operator stake commission epoch s with
    herror | ⟨v, count, henrol, hv, hrun⟩
  · exact .inl herror
  · obtain ⟨-, -, rfl⟩ := newValidator_eq_ok.1 hv
    rw [hrun]
    exact .inr ⟨_, count, henrol, rfl, addStake_sameRegistry _ _ _⟩

theorem registerValidator_registryStep :
    Steps RegistryStep (registerValidator pubKey operator stake commission epoch) := by
  intro s
  rcases registerValidator_enrols pubKey operator stake commission epoch s with
    ⟨e, he⟩ | ⟨v, count, henrol, -, hsame⟩
  · rw [he]
    exact .amend (Std.Refl.refl s)
  · exact .enrol v count henrol hsame

/-! ### Chains of changes -/

def RegistryAmends : InMemoryState → InMemoryState → Prop := Relation.ReflTransGen RegistryAmend

def RegistrySteps : InMemoryState → InMemoryState → Prop := Relation.ReflTransGen RegistryStep

instance : Std.Refl RegistryAmends := ⟨fun _ => .refl⟩

instance : IsTrans InMemoryState RegistryAmends := ⟨fun _ _ _ h h' => h.trans h'⟩

theorem RegistryAmends.of_amend {α : Type} {x : Exec InMemoryState α} (h : Steps RegistryAmend x) :
    Steps RegistryAmends x := fun s => .single (h s)

theorem RegistryAmends.steps (h : RegistryAmends s s') : RegistrySteps s s' :=
  Relation.ReflTransGen.mono (fun _ _ => RegistryStep.amend) _ _ h

theorem processEpochTransition_registryAmends (height : UInt64) :
    Steps RegistryAmends (processEpochTransition height) :=
  processEpochTransition_of_steps (fun _ _ => .of_amend activateValidator_registryAmend)
    (fun _ => .of_amend releaseStake_registryAmend)
    (fun _ => .of_amend unjailValidator_registryAmend)
    fun _ s => .single (.idle (.setBytes (by decide) _ s))

def StakingStep.registers : StakingStep → Option Address
  | .op (.register pubKey ..) => some (deriveConsensusID pubKey.bytes)
  | _ => none

theorem StakingOp.registryAmend {o : StakingOp} (h : (StakingStep.op o).registers = none) :
    Steps RegistryAmend o.run := by
  cases o with
  | register pubKey operator stake commission epoch => cases h
  | bond sender id amount => exact bond_registryAmend.bind_pure _
  | slash id amount => exact slash_registryAmend.bind_pure _
  | applySlash id percent jailEpochs => exact applySlash_registryAmend
  | releaseStake id => exact releaseStake_registryAmend
  | activate id epoch => exact activateValidator_registryAmend
  | jail id untilEpoch => exact jailValidator_registryAmend
  | unjail id => exact unjailValidator_registryAmend
  | startUnstake id epoch => exact startUnstake_registryAmend
  | remove id => exact removeValidator_registryAmend

theorem StakingOp.registryStep (o : StakingOp) : Steps RegistryStep o.run := by
  cases h : (StakingStep.op o).registers with
  | none => exact fun s => .amend (StakingOp.registryAmend h s)
  | some id =>
    cases o with
    | register pubKey operator stake commission epoch =>
      exact registerValidator_registryStep.bind_pure _
    | _ => cases h

variable {step : StakingStep}

theorem StakingStep.registers_eq_some (h : step.registers = some id) :
    ∃ pubKey operator stake commission epoch, id = deriveConsensusID pubKey.bytes ∧
      step = .op (.register pubKey operator stake commission epoch) := by
  cases step with
  | epochTransition height => cases h
  | op o =>
    cases o with
    | register pubKey operator stake commission epoch =>
      cases h
      exact ⟨_, _, _, _, _, rfl, rfl⟩
    | _ => cases h

theorem StakingStep.finalState_register (pubKey : PublicKey) (operator : Address) (stake : Amount)
    (commission : UInt16) (epoch : UInt64) (s : InMemoryState) :
    finalState ((StakingStep.op (.register pubKey operator stake commission epoch)).run s) =
      finalState (registerValidator pubKey operator stake commission epoch s) :=
  finalState_bind_pure _ _ _

theorem StakingStep.registryAmends (h : step.registers = none) : Steps RegistryAmends step.run := by
  cases step with
  | op o => exact RegistryAmends.of_amend (StakingOp.registryAmend h)
  | epochTransition height => exact processEpochTransition_registryAmends height

theorem StakingStep.registrySteps (step : StakingStep) : Steps RegistrySteps step.run := by
  cases step with
  | op o => exact fun s => .single (o.registryStep s)
  | epochTransition height => exact fun s => (processEpochTransition_registryAmends height s).steps

end Dsn
