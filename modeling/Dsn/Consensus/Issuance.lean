import Dsn.Consensus.Conservation
import Dsn.Consensus.Clock
import Dsn.Staking.Lifecycle
import Dsn.State.Settlement

/-!
# Is inflation accounted for?

At an epoch boundary the supply counter is raised by the issuance of the epoch. What accounts
receive is 10% and the pool stored under the epoch, less what the arithmetic loses.
-/

namespace Dsn

open Go InMemoryState

variable {u : Unit} {snap : ValidatorSnapshot}

section

variable [Crypto] {s s' t : InMemoryState} {height epoch blockTimeSec bpe issuance : UInt64}

/-! ### What is issued -/

section

omit [Crypto]

theorem readUint64Key_setBytes_self (key : Bytes) (v : UInt64) (s : InMemoryState) :
    readUint64Key key (s.setBytes key (putUint64 v)) = v := by
  have hget := getUint64_putUint64 v
  unfold getUint64 at hget
  split_ifs at hget with hlen
  unfold readUint64Key
  rw [getBytes_setBytes_self]
  dsimp only
  rw [if_neg hlen]
  exact Except.ok.inj hget

theorem readUint64Key_congr {key : Bytes} (h : s'.getBytes key = s.getBytes key) :
    readUint64Key key s' = readUint64Key key s := by
  unfold readUint64Key
  rw [h]

theorem perEpochIssuance_le {supply : UInt64}
    (h : perEpochIssuance supply blockTimeSec bpe = .ok issuance) :
    20 * issuance.toNat ≤ supply.toNat := by
  unfold perEpochIssuance epochsPerYear quo at h
  obtain ⟨epochs, hepochs, h⟩ := except_bind_eq_ok.1 h
  split_ifs at hepochs
  cases hepochs
  have hlt := (secondsPerYear / (blockTimeSec * bpe)).toNat_lt
  have hle : (secondsPerYear / (blockTimeSec * bpe)).toNat ≤ 31536000 := by
    rw [UInt64.toNat_div]
    exact Nat.div_le_self _ _
  generalize secondsPerYear / (blockTimeSec * bpe) = epochs at h hle
  split_ifs at h with h0
  · cases h
    exact Nat.zero_le _
  · have hpos : 1 ≤ epochs.toNat := Nat.pos_of_ne_zero fun hz => h0 (UInt64.toNat_inj.1 hz)
    have hmul : (epochs * 10000).toNat = epochs.toNat * 10000 := by
      rw [UInt64.toNat_mul]
      exact Nat.mod_eq_of_lt (by show epochs.toNat * 10000 < 2 ^ 64; omega)
    have hdiv : supply.toNat * 500 / (epochs * 10000).toNat ≤ supply.toNat * 500 / 10000 :=
      Nat.div_le_div_left (by omega) (by decide)
    dsimp only at h
    rw [if_neg (by omega)] at h
    have hissuance := Except.ok.inj h
    split_ifs at hissuance with hfits
    · rw [← hissuance, UInt64.toNat_ofNat_of_lt' hfits]
      omega
    · rw [← hissuance]
      exact Nat.zero_le _

end

/-- What a non-zero issuance changed. -/
structure Issued (epoch issuance : UInt64) (s t : InMemoryState) : Prop where
  supply : readUint64Key keyTotalSupply t = readUint64Key keyTotalSupply s + issuance
  pool : readUint64Key (epochValidatorPoolKey epoch) t = issuance * 90 / 100
  treasury : balanceOf t treasuryAddress =
    balanceOf s treasuryAddress + ((issuance * 10 / 100).toNat : ℤ)

theorem creditTreasury_balance {amount : UInt64} (h : creditTreasury amount s = .ok u s') :
    balanceOf s' treasuryAddress = balanceOf s treasuryAddress + (amount.toNat : ℤ) := by
  unfold creditTreasury writeUint64Key at h
  split_ifs at h with h0
  · rw [(pure_eq_ok.1 h).2, h0]
    exact (add_zero _).symm
  · rw [get_bind, modify_bind, wrapErr_eq_ok] at h
    rw [balanceOf_credit h, Pi.add_apply, Pi.single_eq_same]
    rfl

theorem issueEpochTokens_eq_ok (h : issueEpochTokens epoch blockTimeSec bpe s = .ok issuance t) :
    perEpochIssuance (readUint64Key keyTotalSupply s) blockTimeSec bpe = .ok issuance ∧
      (issuance = 0 ∧ t = s ∨ issuance ≠ 0 ∧ Issued epoch issuance s t) := by
  unfold issueEpochTokens writeUint64Key at h
  rw [get_bind] at h
  obtain ⟨amount, hamount, h⟩ := ofResult_bind_eq_ok.1 h
  split_ifs at h with h0
  · obtain ⟨rfl, rfl⟩ := pure_eq_ok.1 h
    exact ⟨h0 ▸ hamount, .inl ⟨rfl, rfl⟩⟩
  obtain ⟨_, s1, hcredit, h⟩ := bind_eq_ok.1 (wrapErr_bind_eq_ok.1 h)
  simp only [get_bind, modify_bind, pure_eq_ok] at h
  obtain ⟨rfl, rfl⟩ := h
  refine ⟨hamount, .inr ⟨h0, ?_, readUint64Key_setBytes_self _ _ _, ?_⟩⟩
  · have hpool : epochValidatorPoolKey epoch ≠ keyTotalSupply :=
      append_ne_append (u := keyTotalSupply) (by decide) _ []
    have hepoch : epochIssuanceKey epoch ≠ keyTotalSupply :=
      append_ne_append (u := keyTotalSupply) (by decide) _ []
    have hissued : keyIssuedSupply ≠ keyTotalSupply := by decide
    refine Eq.trans (readUint64Key_congr ?_) (readUint64Key_setBytes_self keyTotalSupply _ s1)
    rw [getBytes_setBytes_of_ne hpool, getBytes_setBytes_of_ne hepoch,
      getBytes_setBytes_of_ne hissued]
  · show balanceOf s1 treasuryAddress = _
    exact creditTreasury_balance hcredit

/-! ### What is paid -/

def payingSnapshot (epoch : UInt64) (s : InMemoryState) : Option ValidatorSnapshot :=
  if epoch - 1 = 0 then none
  else match getSnapshot (epoch - 1) s with
    | .ok (some snap) => if snap.validators = [] ∨ snap.totalPower = 0 then none else some snap
    | _ => none

def paidOut (pool : UInt64) : Option ValidatorSnapshot → ℕ
  | none => 0
  | some snap => ((splitRewards pool snap.totalPower snap.validators).map UInt64.toNat).sum

omit [Crypto] in
theorem paidOut_zero (snap : Option ValidatorSnapshot) : paidOut 0 snap = 0 := by
  cases snap with
  | none => rfl
  | some snap =>
    refine List.sum_eq_zero fun n hn => ?_
    obtain ⟨r, hr, rfl⟩ := List.mem_map.1 hn
    rw [splitRewards_zero _ _ r hr]
    rfl

theorem distributeValidatorRewards_supply (h : distributeValidatorRewards epoch s = .ok u s') :
    supply s' = supply s +
      paidOut (readUint64Key (epochValidatorPoolKey epoch) s) (payingSnapshot epoch s) := by
  unfold distributeValidatorRewards at h
  rw [get_bind] at h
  dsimp only at h
  unfold payingSnapshot
  split_ifs at h with hzero hfirst
  · rw [hzero, paidOut_zero, Nat.add_zero, (pure_eq_ok.1 h).2]
  · rw [(pure_eq_ok.1 h).2, if_pos hfirst]
    rfl
  · rw [if_neg hfirst]
    obtain ⟨found, hsnap, h⟩ := asks_bind_eq_ok.1 (wrapErr_bind_eq_ok.1 h)
    rw [hsnap]
    cases found with
    | none =>
      rw [(pure_eq_ok.1 h).2]
      rfl
    | some snap =>
      dsimp only at h ⊢
      simp only [List.length_eq_zero_iff] at h
      split_ifs at h ⊢ with hnone
      · rw [(pure_eq_ok.1 h).2]
        rfl
      · refine payRewards_supply (fun v reward => wrapErr
          s!"reward to {addressString (rewardDestination v)}"
          (payReward (rewardDestination v) reward)) ?_ (length_splitRewards _ _ _).le h
        exact fun _ _ _ _ _ hpay => payReward_supply (wrapErr_eq_ok.1 hpay)

section

omit [Crypto]

theorem payingSnapshot_congr (h : ∀ k, getSnapshot k s' = getSnapshot k s) :
    payingSnapshot epoch s' = payingSnapshot epoch s := by
  unfold payingSnapshot
  rw [h]

theorem payingSnapshot_ne_nil (h : payingSnapshot epoch s = some snap) :
    snap.validators ≠ [] := by
  unfold payingSnapshot at h
  split_ifs at h with hfirst
  split at h
  · split_ifs at h with hnone
    cases h
    exact fun hnil => hnone (.inl hnil)
  · cases h

theorem paidOut_cases (pool : UInt64) (h : payingSnapshot epoch s = some snap) : ∃ k,
      paidOut pool (some snap) = pool.toNat + k * 2 ^ 64 ∧
        (k = 0 ↔ otherShares pool snap.totalPower snap.validators ≤ pool.toNat) :=
  sum_splitRewards_cases pool snap.totalPower (payingSnapshot_ne_nil h)

end

/-! ### Recorded and received -/

/-- The supply grows by what treasury and validators were paid. -/
def IssuanceAccounted (height : UInt64) (s s' : InMemoryState) : Prop :=
  ∃ completedEpoch bpe issuance t₁ t₂, epochAtHeight height s = .ok completedEpoch ∧
    blocksPerEpoch s = .ok bpe ∧ issueEpochTokens completedEpoch 1 bpe s = .ok issuance t₁ ∧
    distributeValidatorRewards completedEpoch t₁ = .ok () t₂ ∧
    ((readUint64Key keyTotalSupply s').toNat : ℤ) - (readUint64Key keyTotalSupply s).toNat =
      (balanceOf t₁ treasuryAddress - balanceOf s treasuryAddress) +
        ((supply t₂ : ℤ) - (supply t₁ : ℤ))

def ExactFor (epoch issuance : UInt64) (s : InMemoryState) : Prop :=
  issuance = 0 ∧ (readUint64Key (epochValidatorPoolKey epoch) s = 0 ∨
      payingSnapshot epoch s = none) ∨
    issuance ≠ 0 ∧ (readUint64Key keyTotalSupply s).toNat + issuance.toNat < 2 ^ 64 ∧
      10 ∣ issuance.toNat ∧ 90 * issuance.toNat < 2 ^ 64 ∧
      ∃ snap, payingSnapshot epoch s = some snap ∧
        otherShares (issuance * 90 / 100) snap.totalPower snap.validators ≤
          (issuance * 90 / 100).toNat

/-- On the state before, the issued amount can be paid exactly. -/
def IssuesExactly (height : UInt64) (s : InMemoryState) : Prop :=
  ∃ epoch bpe issuance, epochAtHeight height s = .ok epoch ∧ blocksPerEpoch s = .ok bpe ∧
    perEpochIssuance (readUint64Key keyTotalSupply s) 1 bpe = .ok issuance ∧
    ExactFor epoch issuance s

section

omit [Crypto]

theorem tenth_add_eq_iff {supply issuance : UInt64} {paid : ℕ}
    (hle : 20 * issuance.toNat ≤ supply.toNat) :
    ((supply + issuance).toNat : ℤ) - supply.toNat = ((issuance * 10 / 100).toNat : ℤ) + paid ↔
      supply.toNat + issuance.toNat < 2 ^ 64 ∧ issuance.toNat / 10 + paid = issuance.toNat := by
  have hlt := supply.toNat_lt
  have htenth : (issuance * 10 / 100).toNat = issuance.toNat / 10 := by
    rw [UInt64.toNat_div, UInt64.toNat_mul]
    show issuance.toNat * 10 % 2 ^ 64 / 100 = issuance.toNat / 10
    omega
  rw [htenth, UInt64.toNat_add]
  omega

theorem paidOut_eq_zero_iff (pool epoch : UInt64) (s : InMemoryState) :
    paidOut pool (payingSnapshot epoch s) = 0 ↔ pool = 0 ∨ payingSnapshot epoch s = none := by
  cases hsnap : payingSnapshot epoch s with
  | none => simp [paidOut]
  | some snap =>
    obtain ⟨k, hk, -⟩ := paidOut_cases pool hsnap
    constructor
    · intro hpaid
      exact .inl (UInt64.toNat_inj.1 (Nat.eq_zero_of_add_eq_zero_right (hk.symm.trans hpaid)))
    · rintro (rfl | hnone)
      · exact paidOut_zero _
      · cases hnone

theorem tenth_add_paidOut_iff {issuance : UInt64} (h0 : issuance ≠ 0)
    (hlt : 20 * issuance.toNat < 2 ^ 64) (epoch : UInt64) (s : InMemoryState) :
    issuance.toNat / 10 + paidOut (issuance * 90 / 100) (payingSnapshot epoch s) =
        issuance.toNat ↔
      10 ∣ issuance.toNat ∧ 90 * issuance.toNat < 2 ^ 64 ∧
        ∃ snap, payingSnapshot epoch s = some snap ∧
          otherShares (issuance * 90 / 100) snap.totalPower snap.validators ≤
            (issuance * 90 / 100).toNat := by
  have hpos : 0 < issuance.toNat := Nat.pos_of_ne_zero fun hz => h0 (UInt64.toNat_inj.1 hz)
  have hnine : (issuance * 90 / 100).toNat = 90 * issuance.toNat % 2 ^ 64 / 100 := by
    rw [UInt64.toNat_div, UInt64.toNat_mul, Nat.mul_comm]
    rfl
  cases hsnap : payingSnapshot epoch s with
  | none =>
    constructor
    · intro h
      have hnone : issuance.toNat / 10 + 0 = issuance.toNat := h
      omega
    · rintro ⟨-, -, snap, hsome, -⟩
      cases hsome
  | some snap =>
    obtain ⟨k, hk, hzero⟩ := paidOut_cases (issuance * 90 / 100) hsnap
    constructor
    · intro h
      rw [hk, hnine] at h
      have hk0 : k = 0 := by omega
      rw [hk0] at h
      -- when ninety times the amount wraps, too little is left
      rcases Nat.lt_or_ge (90 * issuance.toNat) (2 ^ 64) with hninety | hninety
      · rw [Nat.mod_eq_of_lt hninety] at h
        exact ⟨by omega, hninety, snap, rfl, hzero.1 hk0⟩
      · have hmod : 90 * issuance.toNat % 2 ^ 64 ≤ 90 * issuance.toNat - 2 ^ 64 := by
          rw [Nat.mod_eq_sub_mod hninety]
          exact Nat.mod_le _ _
        omega
    · rintro ⟨hten, hninety, snap', hsome, hshares⟩
      cases hsome
      rw [hk, hzero.2 hshares, hnine, Nat.mod_eq_of_lt hninety]
      omega

end

theorem totalSupply_after {t1 t2 : InMemoryState} {v : Unit}
    (hpay : distributeValidatorRewards epoch t1 = .ok u t2)
    (htrans : processEpochTransition height t2 = .ok v t)
    (hsnap : ensureSnapshot issuance t = .ok snap s') :
    readUint64Key keyTotalSupply s' = readUint64Key keyTotalSupply t1 := by
  have hclear (texts : List Bytes)
      (h : ∀ u ∈ texts, ¬ u <+: keyTotalSupply ∧ ¬ keyTotalSupply <+: u) :
      ¬ StartsWith texts keyTotalSupply := by
    rw [← List.append_nil keyTotalSupply]
    exact not_startsWith_append h []
  refine readUint64Key_congr ?_
  rw [(ensureSnapshot_keys issuance).of_ok hsnap _ (hclear _ (by decide)),
    (processEpochTransition_keys height).of_ok htrans _ (hclear _ (by decide)),
    (@distributeValidatorRewards_keys _ [] epoch).of_ok hpay _ (hclear _ (by decide))]

/-- Every issued token is received by somebody exactly if the state issues exactly. -/
theorem issuance_accounted_iff (s s' : InMemoryState) (height : UInt64) (start : UInt64 × Hash)
    (hboundary : isEpochBoundary height s = .ok true)
    (hbegin : beginBlock height s = .ok start s') :
    IssuanceAccounted height s s' ↔ IssuesExactly height s := by
  have hheight : height ≠ 0 := by
    rintro rfl
    cases hboundary
  obtain ⟨t, snap, henter, -, hsnap, -⟩ := beginBlock_cases hheight hbegin
  rcases henter with ⟨hfalse, -⟩ | ⟨t₂, ⟨-, epoch, bpe, issuance, t₁, hat, hbpe, hissue, hpay⟩,
    htrans⟩
  · cases hboundary.symm.trans hfalse
  have hafter := totalSupply_after hpay htrans hsnap
  have hpaid := distributeValidatorRewards_supply hpay
  obtain ⟨hper, hissued⟩ := issueEpochTokens_eq_ok hissue
  have hsnapshot : payingSnapshot epoch t₁ = payingSnapshot epoch s := payingSnapshot_congr
    (getSnapshot_of_keys ((issueEpochTokens_keys _ _ _).of_ok hissue) (by decide))
  -- both sides speak of the same run
  have hleft : IssuanceAccounted height s s' ↔
      ((readUint64Key keyTotalSupply t₁).toNat : ℤ) - (readUint64Key keyTotalSupply s).toNat =
        (balanceOf t₁ treasuryAddress - balanceOf s treasuryAddress) +
          ((supply t₂ : ℤ) - (supply t₁ : ℤ)) := by
    rw [← hafter]
    constructor
    · rintro ⟨epoch', bpe', issuance', t₁', t₂', hat', hbpe', hissue', hpay', heq⟩
      cases hat.symm.trans hat'
      cases hbpe.symm.trans hbpe'
      cases hissue.symm.trans hissue'
      cases hpay.symm.trans hpay'
      exact heq
    · exact fun heq => ⟨epoch, bpe, issuance, t₁, t₂, hat, hbpe, hissue, hpay, heq⟩
  have hright : IssuesExactly height s ↔ ExactFor epoch issuance s := by
    constructor
    · rintro ⟨epoch', bpe', issuance', hat', hbpe', hper', hcond⟩
      cases hat.symm.trans hat'
      cases hbpe.symm.trans hbpe'
      cases hper.symm.trans hper'
      exact hcond
    · exact fun hcond => ⟨epoch, bpe, issuance, hat, hbpe, hper, hcond⟩
  rw [hleft, hright, hpaid, hsnapshot]
  unfold ExactFor
  rcases hissued with ⟨rfl, rfl⟩ | ⟨h0, hissued⟩
  · rw [← paidOut_eq_zero_iff]
    simp only [ne_eq, not_true_eq_false, false_and, or_false, true_and]
    omega
  · have hle := perEpochIssuance_le hper
    have hlt := (readUint64Key keyTotalSupply s).toNat_lt
    rw [hissued.supply, hissued.pool, hissued.treasury]
    have hsum := @tenth_add_eq_iff (readUint64Key keyTotalSupply s) issuance
      (paidOut (issuance * 90 / 100) (payingSnapshot epoch s)) hle
    rw [tenth_add_paidOut_iff h0 (by omega)] at hsum
    simp only [h0, false_and, false_or, ne_eq, not_false_eq_true, true_and]
    rw [← hsum]
    push_cast
    omega

end

open Sample

def sampleIssuing : InMemoryState :=
  sampleGenesis.setBytes keyTotalSupply (putUint64 6307200000)

def samplePaying : InMemoryState :=
  finalState (beginBlock 1 (reached sampleIssuing (sampleStart (.ofUInt64 100000))))

theorem issuance_accounted_sample : ∃ start s', beginBlock 2 samplePaying = .ok start s' ∧
    IssuanceAccounted 2 samplePaying s' := by
  obtain ⟨start, s', hrun, -⟩ := exists_of_succeedsWith (show succeedsWith (fun _ _ => true)
    (beginBlock 2 samplePaying) = true by decide +kernel)
  refine ⟨start, s', hrun, ?_⟩
  refine (issuance_accounted_iff samplePaying s' 2 start (by decide +kernel) hrun).2 ?_
  refine ⟨2, 1, 10, by decide +kernel, by decide +kernel, by decide +kernel, ?_⟩
  have hsnap : (payingSnapshot 2 samplePaying).any (fun snap => decide
      (otherShares 9 snap.totalPower snap.validators ≤ 9)) = true := by
    decide +kernel
  obtain ⟨snap, hsome, hshares⟩ := (Option.any_eq_true _ _).1 hsnap
  exact .inr ⟨by decide, by decide +kernel, by decide, by decide, snap, hsome,
    of_decide_eq_true hshares⟩

theorem first_epoch_pool_unpaid : ¬ ∀ (_ : Crypto) (s s' : InMemoryState) (height : UInt64)
    (start : UInt64 × Hash), isEpochBoundary height s = .ok true →
      beginBlock height s = .ok start s' → IssuanceAccounted height s s' := by
  intro h
  obtain ⟨start, s', hrun, hsupply⟩ := exists_of_succeedsWith (show succeedsWith
    (fun _ s' => decide (readUint64Key keyTotalSupply s' = 6307200010))
      (beginBlock 1 sampleIssuing) = true by decide +kernel)
  obtain ⟨epoch, bpe, issuance, t₁, t₂, hat, hbpe, hissue, hpay, heq⟩ :=
    h sampleCrypto sampleIssuing s' 1 start (by decide +kernel) hrun
  have hat₁ : epochAtHeight 1 sampleIssuing = .ok 1 := by decide +kernel
  have hbpe₁ : blocksPerEpoch sampleIssuing = .ok 1 := by decide +kernel
  cases hat₁.symm.trans hat
  cases hbpe₁.symm.trans hbpe
  have hreceived : succeedsWith (fun _ t₁ => decide (balanceOf t₁ treasuryAddress = 1) &&
      succeedsWith (fun _ t₂ => decide (supply t₂ = supply t₁)) (distributeValidatorRewards 1 t₁))
      (issueEpochTokens 1 1 1 sampleIssuing) = true := by
    decide +kernel
  rw [hissue] at hreceived
  simp only [succeedsWith, hpay, Bool.and_eq_true, decide_eq_true_iff] at hreceived hsupply
  have hbefore : balanceOf sampleIssuing treasuryAddress = 0 := by decide +kernel
  have hrecorded : readUint64Key keyTotalSupply sampleIssuing = 6307200000 := by decide +kernel
  rw [hsupply, hrecorded, hreceived.1, hreceived.2, hbefore, sub_self, add_zero]
    at heq
  exact absurd heq (by decide)

end Dsn
