import Dsn.Consensus.Collect
import Dsn.Consensus.Quorum

/-!
# The two-thirds threshold

`3 * power ≥ 2 * total` in `uint64`, and when the wrap-around does not show.
-/

namespace Dsn

open Go InMemoryState VotingState Weight

def TwoThirds (signed total : ℕ) : Prop := 0 < total ∧ 2 * total ≤ 3 * signed

/-- The test in uint64 comes out as the exact one. -/
def WrapsHarmlessly (signed total : ℕ) : Prop :=
  total = 0 ∨ (2 ^ 64 ∣ total ∧ 3 * signed < 2 * total) ∨
    (¬ 2 ^ 64 ∣ total ∧ (3 * signed / 2 ^ 64 = 2 * total / 2 ^ 64 ∨
      (2 * total / 2 ^ 64 < 3 * signed / 2 ^ 64 ∧ 2 * total % 2 ^ 64 ≤ 3 * signed % 2 ^ 64) ∨
      (3 * signed / 2 ^ 64 < 2 * total / 2 ^ 64 ∧ 3 * signed % 2 ^ 64 < 2 * total % 2 ^ 64)))

instance (signed total : ℕ) : Decidable (TwoThirds signed total) := by
  unfold TwoThirds; infer_instance

instance (signed total : ℕ) : Decidable (WrapsHarmlessly signed total) := by
  unfold WrapsHarmlessly; infer_instance

/-! ### The arithmetic -/

theorem hasMajority_iff {p t : UInt64} {signed total : ℕ} (hp : p.toNat = signed % 2 ^ 64)
    (ht : t.toNat = total % 2 ^ 64) : hasMajority p t = true ↔
      ¬ 2 ^ 64 ∣ total ∧ 2 * total % 2 ^ 64 ≤ 3 * signed % 2 ^ 64 := by
  have hzero : t = 0 ↔ 2 ^ 64 ∣ total := by
    rw [← UInt64.toNat_inj, ht]
    exact (Nat.dvd_iff_mod_eq_zero ..).symm
  have hprod : p * votingThresholdDenominator ≥ t * votingThresholdNumerator ↔
      2 * total % 2 ^ 64 ≤ 3 * signed % 2 ^ 64 := by
    rw [ge_iff_le, UInt64.le_iff_toNat_le, UInt64.toNat_mul, UInt64.toNat_mul, hp, ht,
      Nat.mod_mul_mod, Nat.mod_mul_mod, mul_comm total, mul_comm signed]
    rfl
  unfold hasMajority
  split_ifs with h
  · exact ⟨fun hf => absurd hf (by decide), fun hd => absurd (hzero.1 h) hd.1⟩
  · rw [decide_eq_true_iff, hprod]
    exact ⟨fun hle => ⟨fun hd => h (hzero.2 hd), hle⟩, And.right⟩

theorem wrapped_test_iff (signed total : ℕ) :
    ((¬ 2 ^ 64 ∣ total ∧ 2 * total % 2 ^ 64 ≤ 3 * signed % 2 ^ 64) ↔ TwoThirds signed total) ↔
      WrapsHarmlessly signed total := by
  have hS := Nat.div_add_mod (3 * signed) (2 ^ 64)
  have hT := Nat.div_add_mod (2 * total) (2 ^ 64)
  have hr := Nat.mod_lt (3 * signed) (show 2 ^ 64 > 0 by norm_num)
  have hq := Nat.mod_lt (2 * total) (show 2 ^ 64 > 0 by norm_num)
  unfold WrapsHarmlessly TwoThirds
  -- in terms of quotients and remainders both tests are linear
  generalize 3 * signed / 2 ^ 64 = a at *
  generalize 2 * total / 2 ^ 64 = b at *
  generalize 3 * signed % 2 ^ 64 = r at *
  generalize 2 * total % 2 ^ 64 = q at *
  by_cases hd : 2 ^ 64 ∣ total
  · simp only [hd, not_true_eq_false, false_and, true_and, or_false, false_iff, not_and, not_le]
    constructor
    · intro h
      rcases Nat.eq_zero_or_pos total with h0 | hpos
      · exact .inl h0
      · exact .inr (h hpos)
    · rintro (h0 | h) hpos
      · omega
      · exact h
  · have hpos : 0 < total := Nat.pos_of_ne_zero fun h0 => hd (h0 ▸ dvd_zero _)
    -- different quotients decide the exact comparison, equal ones leave it to the remainders
    rcases lt_trichotomy a b with hab | hab | hab
    · omega
    · omega
    · omega

/-! ### The tests -/

section

variable [Crypto]

structure SignedPrecommits (snap : ValidatorSnapshot) (height : UInt64) (round : UInt32)
    (hash : Hash) (votes : List Vote) : Prop where
  distinct : (votes.map Vote.validator).Nodup
  signed : ∀ vote ∈ votes, vote.voteType = votePrecommit ∧
    ∃ val, CountsFor (newVotingState height round hash snap) vote val

def signedPower (snap : ValidatorSnapshot) (votes : List Vote) : ℕ :=
  weight (fun vote => (signerPower snap vote).toNat) votes

theorem run_precommits_power {vs : VotingState} {votes : List Vote}
    (hnd : (votes.map Vote.validator).Nodup)
    (hnew : ∀ v ∈ votes, vs.precommits[v.validator]? = none)
    (hcount : ∀ v ∈ votes, ∃ val, CountsFor vs v val) :
    (vs.run (votes.map .precommit)).precommitPower =
        votes.foldl (fun total v => total + signerPower vs.snapshot v) vs.precommitPower := by
  induction votes generalizing vs with
  | nil => rfl
  | cons v votes ih =>
    obtain ⟨val, hc⟩ := hcount v List.mem_cons_self
    have hadd := addPrecommit_eq_ok.2 ⟨hnew v List.mem_cons_self, val, hc, rfl⟩
    rw [List.map_cons, List.nodup_cons] at hnd
    show ((vs.step (.precommit v)).run (votes.map .precommit)).precommitPower = _
    rw [step_precommit_ok hadd, ih hnd.2, List.foldl_cons, signerPower_of_found hc.found]
    · intro w hw
      rw [Map.get_insert, if_neg, hnew w (List.mem_cons_of_mem _ hw)]
      intro heq
      exact hnd.1 (heq ▸ List.mem_map_of_mem hw)
    · intro w hw
      obtain ⟨val', hc'⟩ := hcount w (List.mem_cons_of_mem _ hw)
      exact ⟨val', hc'.1, hc'.2, hc'.3, hc'.4, hc'.5⟩

/-- The majority tests are exact exactly when the sums wrap harmlessly. -/
theorem two_thirds_test_iff {epoch : UInt64} {s s' : InMemoryState} {snap : ValidatorSnapshot}
    (hsnap : createSnapshot epoch s = .ok snap s') {height : UInt64} {round : UInt32} {hash : Hash}
    {votes : List Vote} (hv : SignedPrecommits snap height round hash votes) {proof : CommitProof}
    (htotal : proof.totalPower = snap.totalPower)
    (hsigned : verifyPrecommits snap proof 0 [] 0 votes = .ok proof.signedPower) :
    ((((newVotingState height round hash snap).run (votes.map .precommit)).hasPrecommitMajority =
          true ↔ TwoThirds (signedPower snap votes) (weight power snap.validators)) ∧
      (proof.hasTwoThirdsMajority = true ↔
        TwoThirds (signedPower snap votes) (weight power snap.validators))) ↔
      WrapsHarmlessly (signedPower snap votes) (weight power snap.validators) := by
  -- both tests compare the same two wrapped sums
  obtain ⟨active, -, rfl, -⟩ := createSnapshot_eq_ok.1 hsnap
  set snap := snapshotOf epoch active
  have hT : snap.totalPower.toNat = weight power snap.validators % 2 ^ 64 := sumUint64_toNat _ _
  have hS : (sumUint64 (signerPower snap) votes).toNat = signedPower snap votes % 2 ^ 64 :=
    sumUint64_toNat _ _
  have hcollect : ((newVotingState height round hash snap).run
      (votes.map .precommit)).hasPrecommitMajority =
      hasMajority (sumUint64 (signerPower snap) votes) snap.totalPower := by
    unfold hasPrecommitMajority
    rw [(run_sameBallot _ _).snapshot_eq, run_precommits_power hv.distinct
      (fun _ _ => by simp [newVotingState]) fun v hmem => (hv.signed v hmem).2]
    rfl
  have hcheck : proof.hasTwoThirdsMajority =
      hasMajority (sumUint64 (signerPower snap) votes) snap.totalPower := by
    obtain ⟨-, -, vals, hvals, hres⟩ := verifyPrecommits_eq_ok.1 hsigned
    rw [foldl_signerPower hvals] at hres
    unfold CommitProof.hasTwoThirdsMajority
    rw [hres, htotal]
    rfl
  rw [hcollect, hcheck, and_self, hasMajority_iff hS hT]
  exact wrapped_test_iff _ _

end

/-! ### A registry with one validator -/

theorem createSnapshot_singleRegistry [Crypto] (v : Validator) (hv : v.status = validatorActive) :
    ∃ s', createSnapshot 1 (singleRegistry v) = .ok (snapshotOf 1 [v]) s' := by
  have hne : validatorKey v.consensusID ≠ keyLatestEpoch := fun h => by
    have := congrArg List.length h
    rw [validatorKey_length] at this
    exact absurd this (by decide)
  have hget : ((singleRegistry v).setBytes (snapshotKey 1)
      (snapshotOf 1 [v]).marshalBinary).getBytes keyLatestEpoch = none := by
    unfold singleRegistry
    rw [getBytes_setBytes_of_ne (by decide), getBytes_setBytes_of_ne hne,
      getBytes_setBytes_of_ne (by decide)]
    rfl
  have hlatest : latestSnapshotEpoch
      ((singleRegistry v).setBytes (snapshotKey 1) (snapshotOf 1 [v]).marshalBinary) = .ok 0 := by
    unfold latestSnapshotEpoch readCounter
    rw [hget]
  exact ⟨_, createSnapshot_eq_ok.2 ⟨[v], getActiveValidators_singleRegistry v hv, rfl,
    bind_eq_ok.2 ⟨0, _, asks_eq_ok.2 ⟨hlatest, rfl⟩, rfl⟩⟩⟩

section

open Sample

theorem two_thirds_test_sample :
    WrapsHarmlessly (signedPower (snapshotOf 1 [sampleValidator]) [samplePrecommit 0 hashA])
      (weight power (snapshotOf 1 [sampleValidator]).validators) := by
  obtain ⟨s', hs'⟩ := createSnapshot_singleRegistry sampleValidator rfl
  have hsigned : SignedPrecommits (snapshotOf 1 [sampleValidator]) 1 0 hashA
      [samplePrecommit 0 hashA] := by
    refine ⟨by decide, fun vote hvote => ?_⟩
    obtain rfl : vote = samplePrecommit 0 hashA := by simpa using hvote
    exact ⟨rfl, sampleValidator, rfl, rfl, rfl, by decide +kernel, by decide⟩
  let proof : CommitProof := ⟨1, hashA, [samplePrecommit 0 hashA], 1, 1, zeroHash⟩
  have htotal : proof.totalPower = (snapshotOf 1 [sampleValidator]).totalPower := by decide
  exact (two_thirds_test_iff hs' hsigned htotal (by decide +kernel)).1 (by decide +kernel)

end

def heavyValidator : Validator := { sampleValidator with votingPower := 0x8000000000000000 }

theorem two_thirds_test_without_votes : ¬ ∃ _ : Crypto, ∀ (epoch : UInt64) (s s' : InMemoryState)
    (snap : ValidatorSnapshot) (height : UInt64) (round : UInt32) (hash : Hash) (votes : List Vote)
    (proof : CommitProof), createSnapshot epoch s = .ok snap s' →
    SignedPrecommits snap height round hash votes → proof.totalPower = snap.totalPower →
    verifyPrecommits snap proof 0 [] 0 votes = .ok proof.signedPower →
    (((newVotingState height round hash snap).run (votes.map .precommit)).hasPrecommitMajority =
        true ↔ TwoThirds (signedPower snap votes) (weight power snap.validators)) ∧
      (proof.hasTwoThirdsMajority = true ↔
        TwoThirds (signedPower snap votes) (weight power snap.validators)) := by
  rintro ⟨_, h⟩
  obtain ⟨s', hs'⟩ := createSnapshot_singleRegistry heavyValidator rfl
  have htotal : (0x8000000000000000 : UInt64) =
      sumUint64 Validator.votingPower [heavyValidator] := by
    decide +kernel
  have hsample := (h 1 _ s' _ 1 0 hashA [] ⟨1, hashA, [], 0x8000000000000000, 0, zeroHash⟩ hs'
    ⟨by simp, by simp⟩ htotal rfl).2.1 (by decide +kernel)
  have hexact : ¬ 2 * weight power [heavyValidator] ≤ 3 * 0 := by decide +kernel
  exact hexact hsample.2

end Dsn
