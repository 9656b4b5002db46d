import Dsn.Consensus.CommitProof
import Dsn.Lib.Weight

/-!
# Conflicting commit proofs

Two accepted proofs of a height share signers with a third of the power, who can be slashed if they
signed in one round.
-/

namespace Dsn

open Go Weight

abbrev power (v : Validator) : ℕ := v.votingPower.toNat

section Intersection

variable [Crypto]

def hasVerifiedPrecommit (proof : CommitProof) (v : Validator) : Bool :=
  proof.precommits.any fun vote => decide (vote.voteType = votePrecommit) &&
    decide (vote.validator = v.consensusID) && vote.verify v.publicKey

def commonSigners (snap : ValidatorSnapshot) (p₁ p₂ : CommitProof) : List Validator :=
  snap.validators.filter fun v => hasVerifiedPrecommit p₁ v && hasVerifiedPrecommit p₂ v

/-- No validator twice, and the total is the sum of the powers. -/
structure ExactSnapshot (snap : ValidatorSnapshot) : Prop where
  distinct : (snap.validators.map Validator.consensusID).Nodup
  total_eq : snap.totalPower.toNat = weight power snap.validators

section Signers

variable {snap : ValidatorSnapshot} {proof : CommitProof} {votes : List Vote}
  {vals : List Validator}

theorem forall₂_consensusID (h : List.Forall₂ (VerifiedBy snap proof) votes vals) :
    vals.map Validator.consensusID = votes.map Vote.validator := by
  induction h with
  | nil => rfl
  | cons hv _ ih =>
    rw [List.map_cons, List.map_cons, ih, (ValidatorSnapshot.validatorByID_mem hv.found).2]

theorem VerifiedBy.hasVerifiedPrecommit {vote : Vote} {v : Validator}
    (h : VerifiedBy snap proof vote v) (hmem : vote ∈ proof.precommits) :
    hasVerifiedPrecommit proof v = true := by
  refine List.any_eq_true.2 ⟨vote, hmem, ?_⟩
  simp [h.isPrecommit, h.verified, (ValidatorSnapshot.validatorByID_mem h.found).2]

end Signers

variable {snap : ValidatorSnapshot} {proof : CommitProof} {height : UInt64} {hash : Hash}

theorem AcceptedProof.quorum (hp : AcceptedProof snap proof height hash) (hs : ExactSnapshot snap)
    (hbound : 3 * snap.totalPower.toNat < 2 ^ 64) :
    2 * weight power snap.validators ≤
      3 * weight power (snap.validators.filter (hasVerifiedPrecommit proof)) := by
  obtain ⟨vals, hvals, hsigned⟩ := hp.verified
  -- distinct voters stand for distinct validators, so no power counts twice
  have hids : (vals.map Validator.consensusID).Nodup := by
    rw [forall₂_consensusID hvals]
    exact hp.distinct
  have hsub : vals ⊆ snap.validators.filter (hasVerifiedPrecommit proof) := by
    intro v hv
    obtain ⟨vote, hmem, hvote⟩ := forall₂_mem_left hvals.flip hv
    exact List.mem_filter.2
      ⟨(ValidatorSnapshot.validatorByID_mem hvote.found).1, hvote.hasVerifiedPrecommit hmem⟩
  have hle : weight power vals ≤
      weight power (snap.validators.filter (hasVerifiedPrecommit proof)) :=
    weight_le_of_subset hids.of_map hsub
  have hle' : weight power (snap.validators.filter (hasVerifiedPrecommit proof)) ≤
      weight power snap.validators := weight_le_of_subperm List.filter_sublist.subperm
  have hT := hs.total_eq
  -- No wrap-around: the accumulated power is the exact sum, and so are the two products.
  have hS : proof.signedPower.toNat = weight power vals := by
    rw [hsigned, sumUint64_toNat]
    exact Nat.mod_eq_of_lt (by show weight power vals < _; omega)
  have hmaj := hp.majority
  unfold CommitProof.hasTwoThirdsMajority at hmaj
  split_ifs at hmaj with h0
  have hcmp := of_decide_eq_true hmaj
  rw [ge_iff_le, UInt64.le_iff_toNat_le, UInt64.toNat_mul, UInt64.toNat_mul, hS,
    hp.totalPower_eq] at hcmp
  rw [show (3 : UInt64).toNat = 3 from rfl, show (2 : UInt64).toNat = 2 from rfl,
    Nat.mod_eq_of_lt (by omega), Nat.mod_eq_of_lt (by omega)] at hcmp
  omega

/-- Two accepted commit proofs share signers with a third of the total power. -/
theorem quorum_intersection {snap : ValidatorSnapshot} (hs : ExactSnapshot snap)
    (hbound : 3 * snap.totalPower.toNat < 2 ^ 64) {s₁ s₂ : InMemoryState} {e₁ e₂ : UInt64}
    (hsnap₁ : getSnapshot e₁ s₁ = .ok (some snap)) (hsnap₂ : getSnapshot e₂ s₂ = .ok (some snap))
    {b₁ b₂ : Block} (hheight : b₁.header.height = b₂.header.height)
    (hpos : b₁.header.height ≠ 0) (h₁ : validateCommitProof b₁ s₁ e₁ = .ok ())
    (h₂ : validateCommitProof b₂ s₂ e₂ = .ok ()) {p₁ p₂ : CommitProof}
    (hp₁ : b₁.commitProof = some p₁) (hp₂ : b₂.commitProof = some p₂) :
    snap.totalPower.toNat ≤ 3 * weight power (commonSigners snap p₁ p₂) := by
  obtain ⟨q₁, t₁, hq₁, ht₁, ha₁⟩ := (validateCommitProof_eq_ok hpos).1 h₁
  obtain ⟨q₂, t₂, hq₂, ht₂, ha₂⟩ := (validateCommitProof_eq_ok (hheight ▸ hpos)).1 h₂
  obtain rfl : q₁ = p₁ := Option.some.inj (hq₁.symm.trans hp₁)
  obtain rfl : q₂ = p₂ := Option.some.inj (hq₂.symm.trans hp₂)
  obtain rfl : t₁ = snap := by rw [hsnap₁] at ht₁; cases ht₁; rfl
  obtain rfl : t₂ = t₁ := by rw [hsnap₂] at ht₂; cases ht₂; rfl
  rw [hs.total_eq]
  exact weight_inter_of_quorums (ha₁.quorum hs hbound) (ha₂.quorum hs hbound)

theorem AcceptedProof.vote (hp : AcceptedProof snap proof height hash) {vote : Vote}
    (hmem : vote ∈ proof.precommits) : vote.voteType = votePrecommit ∧ vote.height = height ∧
      vote.blockHash = hash ∧ vote.validate = .ok () := by
  obtain ⟨vals, hvals, -⟩ := hp.verified
  obtain ⟨val, -, hv⟩ := forall₂_mem_left hvals hmem
  exact ⟨hv.isPrecommit, hv.height_eq.trans hp.height_eq, hv.blockHash_eq.trans hp.blockHash_eq,
    Vote.validate_of_verify hv.verified hv.isPrecommit⟩

/-- Two precommits for different blocks are evidence exactly when of one round. -/
theorem double_signers_are_slashable {s₁ s₂ : InMemoryState} {e₁ e₂ : UInt64} {b₁ b₂ : Block}
    (hheight : b₁.header.height = b₂.header.height) (hpos : b₁.header.height ≠ 0)
    (hhash : b₁.headerHash ≠ b₂.headerHash) (h₁ : validateCommitProof b₁ s₁ e₁ = .ok ())
    (h₂ : validateCommitProof b₂ s₂ e₂ = .ok ()) {p₁ p₂ : CommitProof}
    (hp₁ : b₁.commitProof = some p₁) (hp₂ : b₂.commitProof = some p₂) {v₁ v₂ : Vote}
    (hv₁ : v₁ ∈ p₁.precommits) (hv₂ : v₂ ∈ p₂.precommits) (hsame : v₁.validator = v₂.validator) :
    DoubleSignEvidence.validate ⟨v₁, v₂⟩ = .ok () ↔ v₁.round = v₂.round := by
  obtain ⟨q₁, t₁, hq₁, -, ha₁⟩ := (validateCommitProof_eq_ok hpos).1 h₁
  obtain ⟨q₂, t₂, hq₂, -, ha₂⟩ := (validateCommitProof_eq_ok (hheight ▸ hpos)).1 h₂
  obtain rfl : q₁ = p₁ := Option.some.inj (hq₁.symm.trans hp₁)
  obtain rfl : q₂ = p₂ := Option.some.inj (hq₂.symm.trans hp₂)
  obtain ⟨htype₁, hh₁, hb₁, hval₁⟩ := ha₁.vote hv₁
  obtain ⟨htype₂, hh₂, hb₂, hval₂⟩ := ha₂.vote hv₂
  rw [DoubleSignEvidence.validate_eq_ok]
  constructor
  · exact fun h => h.2.2.2.1
  · intro hround
    exact ⟨htype₁.trans htype₂.symm, hsame, hh₁.trans (hheight.trans hh₂.symm), hround,
      fun h => hhash (hb₁.symm.trans (h.trans hb₂)), hval₁, hval₂⟩

end Intersection

/-! ### The sample blocks -/

section

open Sample

theorem exactSnapshot_sample : ExactSnapshot sampleSnapshot := ⟨by decide, by decide⟩

theorem quorum_intersection_sample : sampleSnapshot.totalPower.toNat ≤
    3 * weight power (commonSigners sampleSnapshot (roundProof 0 hashA) (roundProof 0 hashB)) :=
  @quorum_intersection _ _ exactSnapshot_sample (by decide) _ _ _ _ getSnapshot_sampleState
    getSnapshot_sampleState (sampleBlock 1 hashA (roundProof 0 hashA))
    (sampleBlock 1 hashB (roundProof 0 hashB)) rfl (by decide)
    (validate_roundProof 0 (by decide)) (validate_roundProof 0 (by decide)) _ _ rfl rfl

theorem double_signers_are_slashable_sample :
    DoubleSignEvidence.validate ⟨samplePrecommit 0 hashA, samplePrecommit 0 hashB⟩ = .ok () :=
  (@double_signers_are_slashable _ _ _ _ _ (sampleBlock 1 hashA (roundProof 0 hashA))
    (sampleBlock 1 hashB (roundProof 0 hashB)) rfl (by decide) (by decide)
    (validate_roundProof 0 (by decide)) (validate_roundProof 0 (by decide)) _ _ rfl rfl _ _
    List.mem_cons_self List.mem_cons_self rfl).2 rfl

theorem double_signers_of_two_rounds : ¬ ∀ (_ : Crypto) (snap : ValidatorSnapshot)
    (s : InMemoryState) (epoch : UInt64) (b₁ b₂ : Block) (p₁ p₂ : CommitProof) (v₁ v₂ : Vote),
    getSnapshot epoch s = .ok (some snap) → b₁.header.height = b₂.header.height →
    b₁.headerHash ≠ b₂.headerHash → validateCommitProof b₁ s epoch = .ok () →
    validateCommitProof b₂ s epoch = .ok () → b₁.commitProof = some p₁ →
    b₂.commitProof = some p₂ → v₁ ∈ p₁.precommits → v₂ ∈ p₂.precommits →
    v₁.validator = v₂.validator → DoubleSignEvidence.validate ⟨v₁, v₂⟩ = .ok () := by
  intro h
  have hsample := h sampleCrypto sampleSnapshot sampleState 1
    (sampleBlock 1 hashA (roundProof 0 hashA)) (sampleBlock 1 hashB (roundProof 1 hashB))
    (roundProof 0 hashA) (roundProof 1 hashB) (samplePrecommit 0 hashA) (samplePrecommit 1 hashB)
    getSnapshot_sampleState rfl (by decide) (validate_roundProof 0 (by decide))
    (validate_roundProof 1 (by decide)) rfl rfl List.mem_cons_self List.mem_cons_self rfl
  exact absurd (DoubleSignEvidence.validate_eq_ok.1 hsample).2.2.2.1 (by decide)

end

theorem quorum_intersection_at_genesis : ¬ ∃ _ : Crypto, ∀ (snap : ValidatorSnapshot)
    (s : InMemoryState) (epoch : UInt64) (b₁ b₂ : Block) (p₁ p₂ : CommitProof),
    ExactSnapshot snap → 3 * snap.totalPower.toNat < 2 ^ 64 →
    getSnapshot epoch s = .ok (some snap) → b₁.header.height = b₂.header.height →
    validateCommitProof b₁ s epoch = .ok () → validateCommitProof b₂ s epoch = .ok () →
    b₁.commitProof = some p₁ → b₂.commitProof = some p₂ → p₁.blockHash ≠ p₂.blockHash →
    snap.totalPower.toNat ≤ 3 * weight power (commonSigners snap p₁ p₂) := by
  rintro ⟨_, h⟩
  have hsample := h sampleSnapshot sampleState 1 (sampleBlock 0 hashA (sampleProof 0 hashA []))
    (sampleBlock 0 hashB (sampleProof 0 hashB [])) _ _ exactSnapshot_sample (by decide)
    getSnapshot_sampleState rfl rfl rfl rfl rfl (by decide)
  have hnone :
      commonSigners sampleSnapshot (sampleProof 0 hashA []) (sampleProof 0 hashB []) = [] :=
    by simp [commonSigners, hasVerifiedPrecommit, sampleProof]
  rw [hnone] at hsample
  exact absurd hsample (by decide)

end Dsn
