import Dsn.Consensus.Completeness
import Dsn.Staking.Registration
import Dsn.State.History

/-!
# The validator set hash binds the set

Both hashes determine the sorted list of what they hash.
-/

namespace Dsn

open Go InMemoryState

def setHashInputs (validators : List Validator) : List Bytes :=
  if validators.length = 0 then [] else [validators.flatMap Validator.encode]

section

variable [Crypto]

def SnapshotTaken (epoch : UInt64) (snap : ValidatorSnapshot) (s : InMemoryState) : Prop :=
  ∃ t t', createSnapshot epoch t = .ok snap t' ∧
    s.getBytes (snapshotKey epoch) = t'.getBytes (snapshotKey epoch)

omit [Crypto] in
theorem Validator.encode_ne_nil (v : Validator) : v.encode ≠ [] := by
  intro h
  have hlen := v.length_encode
  rw [h] at hlen
  cases hlen

theorem eq_of_concatHash_eq {α : Type} {r : Reader α} {enc : α → Bytes}
    (henc : ∀ a, Reads r (enc a) a) (hne : ∀ a, enc a ≠ []) {l1 l2 : List α}
    (hfree : CollisionFree ((if l1.length = 0 then [] else [l1.flatMap enc]) ++
      if l2.length = 0 then [] else [l2.flatMap enc]))
    (h : (if l1.length = 0 then zeroHash else sha256 (l1.flatMap enc)) =
      if l2.length = 0 then zeroHash else sha256 (l2.flatMap enc)) : l1 = l2 := by
  by_cases h1 : l1.length = 0
  · by_cases h2 : l2.length = 0
    · rw [List.length_eq_zero_iff.1 h1, List.length_eq_zero_iff.1 h2]
    · rw [if_pos h1, if_neg h2] at h hfree
      exact absurd h.symm (hfree.ne_zero _ (List.mem_singleton_self _))
  · by_cases h2 : l2.length = 0
    · rw [if_neg h1, if_pos h2] at h hfree
      exact absurd h (hfree.ne_zero _ (List.mem_singleton_self _))
    · rw [if_neg h1, if_neg h2] at h hfree
      exact Reads.flatMap_inj henc hne (hfree.inj _ (by simp) _ (by simp) h)

theorem eq_of_setHash_eq {l1 l2 : List Validator}
    (hfree : CollisionFree (setHashInputs l1 ++ setHashInputs l2))
    (h : computeValidatorSetHash l1 = computeValidatorSetHash l2) : l1 = l2 :=
  eq_of_concatHash_eq Validator.decode_encode Validator.encode_ne_nil hfree h

/-! ### The root of the consensus IDs -/

def validatorRootInputs (validators : List Address) : List Bytes :=
  if validators.length = 0 then [] else [(sortedValidators validators).flatMap FixedBytes.bytes]

omit [Crypto] in
theorem sortedValidators_eq_iff {l1 l2 : List Address} :
    sortedValidators l1 = sortedValidators l2 ↔ l1.Perm l2 := by
  constructor
  · intro h
    have hperm : (sortedValidators l1).Perm l2 := h ▸ sortSlice_perm _ l2
    exact (sortSlice_perm _ l1).symm.trans hperm
  · exact @sortSlice_eq_of_perm_of_inj Address Address _ _ _ id l1 l2 fun _ _ _ _ => id

/-- The validator root determines the set, whatever its order. -/
theorem validator_root_identifies (l₁ l₂ : List Address) :
    (l₁.Perm l₂ → validatorRoot l₁ = validatorRoot l₂) ∧
      (CollisionFree (validatorRootInputs l₁ ++ validatorRootInputs l₂) →
        validatorRoot l₁ = validatorRoot l₂ → l₁.Perm l₂) := by
  unfold validatorRoot validatorRootInputs
  constructor
  · intro hperm
    rw [hperm.length_eq, sortedValidators_eq_iff.2 hperm]
  · intro hfree h
    have hlen (l : List Address) : l.length = (sortedValidators l).length :=
      (length_sortSlice _ l).symm
    rw [hlen l₁, hlen l₂] at hfree h
    refine sortedValidators_eq_iff.1 (eq_of_concatHash_eq Reads.readFixed (fun a ha => ?_) hfree h)
    exact absurd (a.length_eq.symm.trans (congrArg List.length ha)) (by decide)

theorem SnapshotTaken.getSnapshot {epoch : UInt64} {snap : ValidatorSnapshot} {s : InMemoryState}
    (h : SnapshotTaken epoch snap s) : getSnapshot epoch s = .ok (some snap) := by
  obtain ⟨t, t', hcreate, hkept⟩ := h
  obtain ⟨active, hactive, rfl, hlatest⟩ := createSnapshot_eq_ok.1 hcreate
  have hself : StartsWith [keyLatestEpoch] keyLatestEpoch :=
    ⟨_, List.mem_singleton_self _, List.prefix_rfl⟩
  refine getSnapshot_of_getBytes (length_getActiveValidators hactive) ?_
  rw [hkept, (setLatestSnapshotEpoch_keys hself epoch).of_ok hlatest _
    (not_startsWith_keyLatestEpoch epoch), getBytes_setBytes_self]

theorem SnapshotTaken.eq_of_setHash_eq {epoch : UInt64} {snap1 snap2 : ValidatorSnapshot}
    {s1 s2 : InMemoryState} (h1 : SnapshotTaken epoch snap1 s1) (h2 : SnapshotTaken epoch snap2 s2)
    (hfree : CollisionFree (setHashInputs snap1.validators ++ setHashInputs snap2.validators))
    (h : snap1.setHash = snap2.setHash) : snap1 = snap2 := by
  obtain ⟨_, _, hcreate1, -⟩ := h1
  obtain ⟨_, _, hcreate2, -⟩ := h2
  obtain ⟨active1, -, rfl, -⟩ := createSnapshot_eq_ok.1 hcreate1
  obtain ⟨active2, -, rfl, -⟩ := createSnapshot_eq_ok.1 hcreate2
  obtain rfl : active1 = active2 := Dsn.eq_of_setHash_eq hfree h
  rfl

/-- Snapshots with one set hash give every block the same verdict. -/
theorem set_hash_binds :
    (∀ l₁ l₂ : List Validator, CollisionFree (setHashInputs l₁ ++ setHashInputs l₂) →
      computeValidatorSetHash l₁ = computeValidatorSetHash l₂ → l₁ = l₂) ∧
    ∀ (epoch : UInt64) (s₁ s₂ : InMemoryState) (snap₁ snap₂ : ValidatorSnapshot),
      SnapshotTaken epoch snap₁ s₁ → SnapshotTaken epoch snap₂ s₂ →
      CollisionFree (setHashInputs snap₁.validators ++ setHashInputs snap₂.validators) →
      snap₁.setHash = snap₂.setHash →
        ∀ block, validateCommitProof block s₁ epoch = validateCommitProof block s₂ epoch := by
  refine ⟨fun l₁ l₂ => eq_of_setHash_eq, ?_⟩
  intro epoch s₁ s₂ snap₁ snap₂ h₁ h₂ hfree hhash block
  obtain rfl := h₁.eq_of_setHash_eq h₂ hfree hhash
  exact validateCommitProof_congr (h₁.getSnapshot.trans h₂.getSnapshot.symm)

end

attribute [local instance] constantCrypto

theorem validator_root_identifies_two :
    let ids : List Address := [FixedBytes.copy 20 [2], FixedBytes.copy 20 [1]]
    CollisionFree (validatorRootInputs ids ++ validatorRootInputs ids.reverse) ∧
      validatorRoot ids = validatorRoot ids.reverse ∧ ids.Perm ids.reverse := by
  intro ids
  have hsame : validatorRootInputs ids.reverse = validatorRootInputs ids := by decide
  have hone : CollisionFree (validatorRootInputs ids) :=
    .of_forall_eq (show FixedBytes.copy 32 [1] ≠ zeroHash by decide) fun _ => List.mem_singleton.1
  have hfree : CollisionFree (validatorRootInputs ids ++ validatorRootInputs ids.reverse) :=
    hsame ▸ hone.twice
  have hroot := (validator_root_identifies ids ids.reverse).1 ids.reverse_perm.symm
  exact ⟨hfree, hroot, (validator_root_identifies ids ids.reverse).2 hfree hroot⟩

theorem collisionFree_sampleValidator :
    CollisionFree (setHashInputs [sampleValidator] ++ setHashInputs [sampleValidator]) := by
  have hone : CollisionFree (setHashInputs [sampleValidator]) :=
    .of_forall_eq (show FixedBytes.copy 32 [1] ≠ zeroHash by decide) fun _ => List.mem_singleton.1
  exact hone.twice

theorem snapshotTaken_sampleLedger (accounts : Map Address Account) :
    SnapshotTaken 0 (snapshotOf 0 [sampleValidator]) (sampleLedgerBegun accounts) := by
  refine ⟨sampleLedger accounts, sampleLedgerBegun accounts, createSnapshot_first ?_ ?_, rfl⟩
  · show (sampleLedger ∅).getBytes _ = none
    decide +kernel
  · exact getActiveValidators_sampleLedger accounts

theorem set_hash_binds_sampleLedger :
    SnapshotTaken 0 (snapshotOf 0 [sampleValidator]) (sampleLedgerBegun ∅) ∧
    ∀ (accounts : Map Address Account) (block : Block),
      validateCommitProof block (sampleLedgerBegun accounts) 0 =
        validateCommitProof block (sampleLedgerBegun ∅) 0 := by
  refine ⟨snapshotTaken_sampleLedger ∅, fun accounts block => ?_⟩
  exact set_hash_binds.2 0 _ _ _ _ (snapshotTaken_sampleLedger accounts)
    (snapshotTaken_sampleLedger ∅) collisionFree_sampleValidator rfl block

end Dsn
