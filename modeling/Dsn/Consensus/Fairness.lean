import Dsn.Consensus.Proposer
import Dsn.Consensus.Quorum
import Mathlib.Data.Nat.Periodic

/-!
# How often a validator is the proposer

Heights go round a wheel on which a validator has as many places as it has power.
-/

namespace Dsn

open Go Weight

theorem firstCovering_eq_slot {offset c : UInt64} {validators : List Validator}
    (hc : c.toNat ≤ offset.toNat) (hsum : c.toNat + weight power validators < 2 ^ 64) :
    firstCovering offset c validators = slot power (offset.toNat - c.toNat) validators := by
  induction validators generalizing c with
  | nil => rfl
  | cons v rest ih =>
    rw [weight_cons] at hsum
    have hadd : (c + v.votingPower).toNat = c.toNat + power v := by
      rw [UInt64.toNat_add]
      exact Nat.mod_eq_of_lt (by unfold power at hsum; omega)
    have hiff : offset < c + v.votingPower ↔ offset.toNat - c.toNat < power v := by
      rw [UInt64.lt_iff_toNat_lt]
      omega
    unfold firstCovering slot
    by_cases hv : offset < c + v.votingPower
    · rw [if_pos hv, if_pos (hiff.1 hv)]
    · have hle : (c + v.votingPower).toNat ≤ offset.toNat := by
        rw [UInt64.lt_iff_toNat_lt] at hv
        omega
      rw [if_neg hv, if_neg fun h => hv (hiff.2 h), ih hle (by omega), hadd, Nat.sub_sub]

variable {validators : List Validator}

theorem sumUint64_votingPower_toNat (h : weight power validators < 2 ^ 64) :
    (sumUint64 Validator.votingPower validators).toNat = weight power validators := by
  rw [sumUint64_toNat]
  exact Nat.mod_eq_of_lt h

theorem weightedTurn_eq_slot (hpos : 0 < weight power validators)
    (hlt : weight power validators < 2 ^ 64) (height : UInt64) :
    weightedTurn height validators =
      slot power (height.toNat % weight power validators) validators := by
  have htotal := sumUint64_votingPower_toNat hlt
  have hne : sumUint64 Validator.votingPower validators ≠ 0 := by
    intro h
    rw [h] at htotal
    exact hpos.ne htotal
  unfold weightedTurn
  rw [if_neg hne, firstCovering_eq_slot (Nat.zero_le _) (by simpa using hlt), UInt64.toNat_mod,
    htotal]
  rfl

theorem weightedProposerAtHeight_eq_ok_iff
    (hids : (validators.map Validator.consensusID).Nodup) {v : Validator} (hv : v ∈ validators)
    (height : UInt64) : weightedProposerAtHeight height validators = .ok v.consensusID ↔
      weightedTurn height validators = some v := by
  rw [weightedProposerAtHeight_eq_ok]
  constructor
  · rintro ⟨w, hw, hid⟩
    rwa [List.inj_on_of_nodup_map hids (weightedTurn_mem hw) hv hid] at hw
  · exact fun h => ⟨v, h, rfl⟩

/-- In a round of heights every validator is selected as often as it has power. -/
theorem weighted_proposer_fair (validators : List Validator)
    (hids : (validators.map Validator.consensusID).Nodup) (total : ℕ)
    (htotal : (validators.map fun v => v.votingPower.toNat).sum = total) (hpos : 0 < total)
    (hlt : total < 2 ^ 64) (height : ℕ) (hheight : height + total ≤ 2 ^ 64) (v : Validator)
    (hv : v ∈ validators) :
    ((Finset.Ico height (height + total)).filter fun h =>
        weightedProposerAtHeight (UInt64.ofNat h) validators = .ok v.consensusID).card =
      v.votingPower.toNat ∧
    (v.votingPower = 0 → ∀ h, weightedProposerAtHeight h validators ≠ .ok v.consensusID) := by
  subst htotal
  constructor
  · have hturn : ∀ h ∈ Finset.Ico height (height + weight power validators),
        (weightedProposerAtHeight (UInt64.ofNat h) validators = .ok v.consensusID ↔
          slot power (h % weight power validators) validators = some v) := by
      intro h hh
      have hsmall : h < 2 ^ 64 := (Finset.mem_Ico.1 hh).2.trans_le hheight
      rw [weightedProposerAtHeight_eq_ok_iff hids hv, weightedTurn_eq_slot hpos hlt,
        UInt64.toNat_ofNat_of_lt' hsmall]
    -- a full turn of the wheel, wherever it starts
    have hperiodic : Function.Periodic
        (fun h => slot power (h % weight power validators) validators = some v)
        (weight power validators) := by
      intro h
      simp only [Nat.add_mod_right]
    have hcount : Nat.count (fun h => slot power (h % weight power validators) validators = some v)
        (weight power validators) =
          Nat.count (fun h => slot power h validators = some v) (weight power validators) := by
      simp only [Nat.count_eq_card_filter_range]
      refine congrArg Finset.card (Finset.filter_congr fun h hh => ?_)
      rw [Nat.mod_eq_of_lt (Finset.mem_range.1 hh)]
    have hfull := Nat.filter_Ico_card_eq_of_periodic height _ _ hperiodic
    rw [hcount, count_slot (hids.of_map _) hv] at hfull
    exact (congrArg Finset.card (Finset.filter_congr hturn)).trans hfull
  · intro hzero h heq
    rw [weightedProposerAtHeight_eq_ok_iff hids hv, weightedTurn_eq_slot hpos hlt] at heq
    have := pos_of_slot heq
    simp [power, hzero] at this

def powered (i : UInt8) (power : UInt64) : Validator :=
  { sampleValidator with consensusID := .copy 20 [i], votingPower := power }

theorem weighted_proposer_fair_three :
    ((Finset.Ico 7 (7 + 3)).filter fun h => weightedProposerAtHeight (UInt64.ofNat h)
      [powered 1 2, powered 2 1, powered 3 0] = .ok (powered 1 2).consensusID).card = 2 :=
  (weighted_proposer_fair [powered 1 2, powered 2 1, powered 3 0] (by decide) 3 (by decide)
    (by decide) (by decide) 7 (by decide) (powered 1 2) List.mem_cons_self).1

end Dsn
