import Dsn.Consensus.Execution
import Dsn.Consensus.Frozen

/-!
# The proposer of a height

The loop proposes by plain round robin over configured addresses, the validator expects weighted
round robin over the active set. Every record keeps the identity it was registered with.
-/

namespace Dsn

open Go InMemoryState

variable {height : UInt64} {active : List Validator} {id : Address} {v : Validator}

/-! ### Plain round robin -/

def proposerAtHeight (height : UInt64) (validators : List Address) : Except Error Address :=
  match validators[height.toNat % validators.length]? with
  | none => .error (.panic "consensus: empty validator set")
  | some proposer => .ok proposer

theorem proposerAtHeight_eq_ok {validators : List Address} {proposer : Address} :
    proposerAtHeight height validators = .ok proposer ↔
      validators[height.toNat % validators.length]? = some proposer := by
  unfold proposerAtHeight
  cases validators[height.toNat % validators.length]? with
  | none => simp
  | some a => simp

/-! ### Weighted round robin -/

def firstCovering (offset cumulative : UInt64) : List Validator → Option Validator
  | [] => none
  | v :: rest =>
    if offset < cumulative + v.votingPower then some v
    else firstCovering offset (cumulative + v.votingPower) rest

def weightedTurn (height : UInt64) (active : List Validator) : Option Validator :=
  let total := sumUint64 Validator.votingPower active
  if total = 0 then active[height.toNat % active.length]?
  else firstCovering (height % total) 0 active

theorem selectProposer_eq {offset total : UInt64} (active : List Validator) (c : UInt64)
    (hstart : ¬ offset < c)
    (hend : offset < active.foldl (fun total x => total + x.votingPower) c) :
    ∃ v, firstCovering offset c active = some v ∧
      selectProposer offset total c active = some v.consensusID := by
  induction active generalizing c with
  | nil => exact absurd hend hstart
  | cons v rest ih =>
    unfold firstCovering selectProposer
    by_cases hv : offset < c + v.votingPower
    · exact ⟨v, if_pos hv, if_pos hv⟩
    · have hrest : ¬ (rest = [] ∧ offset ≥ c + v.votingPower - total) := by
        rintro ⟨rfl, -⟩
        exact hv hend
      rw [if_neg hv]
      rw [if_neg hv, if_neg hrest]
      exact ih _ hv hend

theorem weightedProposerAtHeight_eq_ok :
    weightedProposerAtHeight height active = .ok id ↔
      ∃ v, weightedTurn height active = some v ∧ v.consensusID = id := by
  unfold weightedProposerAtHeight weightedTurn
  cases hlast : active.getLast? with
  | none =>
    obtain rfl := List.getLast?_eq_none_iff.1 hlast
    simp [sumUint64]
  | some last =>
    have hne : active ≠ [] := by
      rintro rfl
      cases hlast
    have hlt : height.toNat % active.length < active.length :=
      Nat.mod_lt _ (List.length_pos_iff.2 hne)
    dsimp only
    split_ifs with htotal
    · simp [List.getElem?_eq_getElem hlt]
    · obtain ⟨v, hv, hselect⟩ :=
        @selectProposer_eq (height % sumUint64 Validator.votingPower active)
        (sumUint64 Validator.votingPower active) active 0 (by simp) (UInt64.mod_lt _ (by
          exact Nat.pos_of_ne_zero fun h => htotal (UInt64.toNat_inj.1 h)))
      rw [hv, hselect]
      simp

theorem firstCovering_mem {offset c : UInt64} (h : firstCovering offset c active = some v) :
    v ∈ active := by
  induction active generalizing c with
  | nil => cases h
  | cons w rest ih =>
    unfold firstCovering at h
    split_ifs at h with hw
    · cases h
      exact List.mem_cons_self
    · exact List.mem_cons_of_mem _ (ih h)

theorem weightedTurn_mem (h : weightedTurn height active = some v) : v ∈ active := by
  unfold weightedTurn at h
  dsimp only at h
  split_ifs at h with htotal
  · exact List.mem_of_getElem? h
  · exact firstCovering_mem h

section

variable [Crypto] {s s' : InMemoryState} {height : UInt64} {keys : List PublicKey}

/-! ### What `ValidateBlock` expects -/

def activeAt (height : UInt64) (s : InMemoryState) : Except Error (List Validator) :=
  match startBlock [] height s with
  | .ok _ s₁ => getActiveValidators s₁
  | .error e _ => .error e

def expectedProposer (height : UInt64) (s : InMemoryState) : Except Error Address := do
  let active ← activeAt height s
  weightedProposerAtHeight height active

variable {start : UInt64 × Hash}

theorem activeAt_of_ok (h : startBlock [] height s = .ok start s') :
    activeAt height s = getActiveValidators s' := by
  unfold activeAt
  rw [h]

theorem activeAt_eq_ok (h : activeAt height s = .ok active) :
    ∃ start s1, startBlock [] height s = .ok start s1 ∧ getActiveValidators s1 = .ok active := by
  unfold activeAt at h
  cases hs : startBlock [] height s with
  | ok start s1 =>
    rw [hs] at h
    exact ⟨start, s1, rfl, h⟩
  | error e s1 =>
    rw [hs] at h
    cases h

theorem expectedProposer_eq_ok : expectedProposer height s = .ok id ↔
    ∃ active v, activeAt height s = .ok active ∧ weightedTurn height active = some v ∧
      v.consensusID = id := by
  unfold expectedProposer
  simp only [except_bind_eq_ok, weightedProposerAtHeight_eq_ok]
  constructor
  · rintro ⟨active, hactive, v, hv, hid⟩
    exact ⟨active, v, hactive, hv, hid⟩
  · rintro ⟨active, v, hactive, hv, hid⟩
    exact ⟨active, hactive, v, hv, hid⟩

/-- A block without evidence that is accepted has the expected proposer. -/
theorem expectedProposer_of_accepted {block : Block} {parentHeader : BlockHeader}
    {expectedPrevHash : Hash} {vm : Option VM} {now : ℕ → UInt64} {u : Unit}
    (hevidence : block.evidence = [])
    (h : validateBlock block parentHeader expectedPrevHash vm now s = .ok u s') :
    expectedProposer block.header.height s = .ok block.header.proposer := by
  obtain ⟨s₁, s₂, s₃, start, epoch, rs, ha, -⟩ := validateBlock_eq_ok.1 h
  obtain ⟨active, snap, hheader⟩ := verifyHeader_eq_ok.1 ha.header
  have hstart := ha.executed.start_eq
  rw [hevidence] at hstart
  exact except_bind_eq_ok.2 ⟨active, (activeAt_of_ok hstart).trans hheader.active_eq,
    hheader.proposer_eq⟩

/-! ### Whose keys are registered -/

/-- Each record has one of the keys, and the identity derived from it. -/
def RegisteredWith (keys : List PublicKey) (s : InMemoryState) : Prop :=
  ∀ id v, getValidator id s = .ok v →
    v.publicKey ∈ keys ∧ v.consensusID = deriveConsensusID v.publicKey.bytes

def StakingStep.registeredKey : StakingStep → Option PublicKey
  | .op (.register pubKey ..) => some pubKey
  | _ => none

theorem EmptyRegistry.registeredWith (h : EmptyRegistry s) : RegisteredWith keys s :=
  fun id _ hv => absurd hv (getValidator_ne_ok_of_none (h.records _ (validatorKey_starts id)))

section

variable (h : RegisteredWith keys s)
include h

theorem RegisteredWith.of_same (hsame : SameRegistry s s') :
    RegisteredWith keys s' :=
  fun id v hv => h id v ((hsame.getValidator id).symm.trans hv)

theorem RegisteredWith.mono {keys' : List PublicKey} (hsub : keys ⊆ keys') :
    RegisteredWith keys' s :=
  fun id v hv => ⟨hsub (h id v hv).1, (h id v hv).2⟩

theorem RegisteredWith.setRecord {a : Address} {v' : Validator} (hv : getValidator a s = .ok v)
    (hkey : v'.publicKey = v.publicKey) (hid : v'.consensusID = v.consensusID) :
    RegisteredWith keys (s.setBytes (validatorKey id) v'.encode) := by
  intro b w hw
  rw [getValidator_setRecord] at hw
  split_ifs at hw with hb
  · cases hw
    rw [hkey, hid]
    exact h a v hv
  · exact h b w hw

theorem RegisteredWith.amend (hstep : RegistryAmend s s') :
    RegisteredWith keys s' := by
  cases hstep with
  | idle hsame => exact h.of_same hsame
  | rewrite a v v' found change hsame =>
    exact (h.setRecord found change.publicKey change.consensusID).of_same hsame
  | retire a v found unstaking hsame =>
    refine RegisteredWith.of_same (fun b w hw => ?_) hsame
    rw [getValidator_retired] at hw
    split_ifs at hw with hb
    · cases hw
      exact h a v found
    · exact h b w hw

theorem RegisteredWith.amends (hsteps : RegistryAmends s s') :
    RegisteredWith keys s' := by
  induction hsteps with
  | refl => exact h
  | tail _ hstep ih => exact ih.amend hstep

theorem RegisteredWith.startBlock (hstart : startBlock [] height s = .ok start s') :
    RegisteredWith keys s' := by
  obtain ⟨_, t, hev, hbegin⟩ := bind_eq_ok.1 hstart
  cases hev
  exact h.amends ((beginBlock_registryAmends height).of_ok hbegin)

theorem RegisteredWith.turn (hactive : activeAt height s = .ok active)
    (hv : weightedTurn height active = some v) :
    v.publicKey ∈ keys ∧ v.consensusID = deriveConsensusID v.publicKey.bytes := by
  obtain ⟨start, s1, hstart, hget⟩ := activeAt_eq_ok hactive
  obtain ⟨id, hid, -⟩ := mem_getActiveValidators hget (weightedTurn_mem hv)
  exact h.startBlock hstart id v hid

theorem RegisteredWith.register {pubKey : PublicKey} (hkey : pubKey ∈ keys) (operator : Address)
    (stake : Amount) (commission : UInt16) (epoch : UInt64) :
    RegisteredWith keys
      (finalState (registerValidator pubKey operator stake commission epoch s)) := by
  rcases registerValidator_enrols pubKey operator stake commission epoch s with
    ⟨e, he⟩ | ⟨v, count, henrol, rfl, hsame⟩
  · rw [he]
    exact h
  · refine RegisteredWith.of_same (fun b w hw => ?_) hsame
    rw [getValidator_enrolled] at hw
    split_ifs at hw with hb
    · cases hw
      exact ⟨hkey, henrol.derived⟩
    · exact h b w hw

theorem RegisteredWith.step (step : StakingStep)
    (hkeys : ∀ key, step.registeredKey = some key → key ∈ keys) :
    RegisteredWith keys (finalState (step.run s)) := by
  cases hreg : step.registers with
  | none => exact h.amends (StakingStep.registryAmends hreg s)
  | some id =>
    obtain ⟨pubKey, operator, stake, commission, epoch, rfl, rfl⟩ :=
      StakingStep.registers_eq_some hreg
    rw [StakingStep.finalState_register]
    exact h.register (hkeys pubKey rfl) operator stake commission epoch

end

/-- Every record belongs to a key that was registered, under the identity derived from it. -/
theorem EmptyRegistry.registeredWith_run (h : EmptyRegistry s) (steps : List StakingStep) :
    RegisteredWith (steps.filterMap StakingStep.registeredKey)
      (steps.foldl (fun s step => finalState (step.run s)) s) := by
  induction steps using List.reverseRecOn with
  | nil => exact h.registeredWith
  | append_singleton steps step ih =>
    rw [List.foldl_append]
    refine (ih.mono fun key hkey => ?_).step step fun key hkey => ?_
    · rw [List.filterMap_append]
      exact List.mem_append_left _ hkey
    · exact List.mem_filterMap.2 ⟨step, by simp, hkey⟩

end

open Sample

/-- One validator registers, is activated, loses a tenth of its stake and sees an epoch end. -/
def slashedRun : List StakingStep :=
  sampleStart (.ofUInt64 100000) ++ [.op (.applySlash (sampleID 1) 1000 1), .epochTransition 1]

theorem registeredWith_sample :
    RegisteredWith [samplePubKey 1] (reached newInMemoryState slashedRun) ∧
    (getValidator (sampleID 1) (reached newInMemoryState slashedRun)).toOption.map
      Validator.bondedStake = some (.ofUInt64 90000) :=
  ⟨emptyRegistry_newInMemoryState.registeredWith_run slashedRun, by decide +kernel⟩

end Dsn
