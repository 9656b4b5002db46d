import Dsn.Lib.Shares
import Dsn.Staking.Rewards

/-!
# Are rewards proportional?

Both reward functions compute shares by `amount * power / total` in 64 bits. When are they the exact
ones, and does everyone get theirs?
-/

namespace Dsn

open Go InMemoryState

variable {validators : List Validator} {amount : ℕ}

/-! ### The computed shares -/

theorem isZero_ofUInt64 (v : UInt64) : (Amount.ofUInt64 v).isZero = true ↔ v = 0 := by
  rw [Amount.isZero, decide_eq_true_iff, Amount.ofUInt64_val]
  exact UInt64.toNat_inj (b := 0)

theorem length_splitRewards (amount totalPower : UInt64) (validators : List Validator) :
    (splitRewards amount totalPower validators).length = validators.length := by
  unfold splitRewards
  cases validators <;> simp

theorem sumUint64_zero {l : List UInt64} (h : ∀ x ∈ l, x = 0) : sumUint64 id l = 0 := by
  apply UInt64.toNat_inj.1
  have hsum : (l.map fun x => (id x).toNat).sum = 0 := by
    refine List.sum_eq_zero fun n hn => ?_
    obtain ⟨x, hx, rfl⟩ := List.mem_map.1 hn
    rw [id_eq, h x hx]
    rfl
  rw [sumUint64_toNat, hsum]
  rfl

theorem splitRewards_zero (totalPower : UInt64) (validators : List Validator) :
    ∀ r ∈ splitRewards 0 totalPower validators, r = 0 := by
  have hzero : ∀ x ∈ validators.map fun v => 0 * v.votingPower / totalPower, x = 0 := by
    intro x hx
    obtain ⟨v, -, rfl⟩ := List.mem_map.1 hx
    simp
  have hsum := sumUint64_zero hzero
  unfold splitRewards
  simp only [hsum]
  cases validators with
  | nil => intro r hr; cases hr
  | cons v rest => exact hzero

def exactPower (validators : List Validator) : ℕ :=
  (validators.map fun v => v.votingPower.toNat).sum

theorem addRemainder_toNat (amount top : UInt64) (rest : List UInt64) : ∃ k,
    (if amount - sumUint64 id (top :: rest) > 0 then top + (amount - sumUint64 id (top :: rest))
      else top).toNat + (rest.map UInt64.toNat).sum = amount.toNat + k * 2 ^ 64 := by
  have hamount := amount.toNat_lt
  have htop := top.toNat_lt
  have hsum : (sumUint64 id (top :: rest)).toNat =
      (top.toNat + (rest.map UInt64.toNat).sum) % 2 ^ 64 := by
    rw [sumUint64_toNat, List.map_cons, List.sum_cons]
    rfl
  have hremainder : (amount - sumUint64 id (top :: rest)).toNat =
      (2 ^ 64 - (sumUint64 id (top :: rest)).toNat + amount.toNat) % 2 ^ 64 := UInt64.toNat_sub _ _
  generalize sumUint64 id (top :: rest) = distributed at hsum hremainder ⊢
  generalize (rest.map UInt64.toNat).sum = others at hsum ⊢
  split_ifs with hpos
  · rw [UInt64.toNat_add]
    refine ⟨((top.toNat + (amount - distributed).toNat) % 2 ^ 64 + others - amount.toNat) / 2 ^ 64,
      ?_⟩
    omega
  · have hzero : (amount - distributed).toNat = 0 := by
      by_contra h0
      exact hpos (UInt64.lt_iff_toNat_lt.2 (Nat.pos_of_ne_zero h0))
    refine ⟨(top.toNat + others - amount.toNat) / 2 ^ 64, ?_⟩
    omega

def otherShares (amount totalPower : UInt64) (validators : List Validator) : ℕ :=
  ((validators.tail.map fun v => amount * v.votingPower / totalPower).map UInt64.toNat).sum

theorem sum_splitRewards_cases (amount totalPower : UInt64) (hne : validators ≠ []) :
    ∃ k, ((splitRewards amount totalPower validators).map
      UInt64.toNat).sum = amount.toNat + k * 2 ^ 64 ∧
        (k = 0 ↔ otherShares amount totalPower validators ≤ amount.toNat) := by
  cases validators with
  | nil => exact absurd rfl hne
  | cons v rest =>
    obtain ⟨k, hk⟩ := addRemainder_toNat amount (amount * v.votingPower / totalPower)
      (rest.map fun v => amount * v.votingPower / totalPower)
    refine ⟨k, hk, ?_⟩
    have hfirst := (if amount - sumUint64 id ((v :: rest).map fun v =>
      amount * v.votingPower / totalPower) > 0 then amount * v.votingPower / totalPower +
        (amount - sumUint64 id ((v :: rest).map fun v => amount * v.votingPower / totalPower))
      else amount * v.votingPower / totalPower).toNat_lt
    rw [List.map_cons] at hfirst
    unfold otherShares
    rw [List.tail_cons]
    omega

/-! ### The exact shares -/

def exactShares (amount : ℕ) (validators : List Validator) : List ℕ :=
  Shares.split (fun v => v.votingPower.toNat) amount (exactPower validators) validators

theorem length_exactShares (amount : ℕ) (validators : List Validator) :
    (exactShares amount validators).length = validators.length := by
  cases validators with
  | nil => rfl
  | cons v rest => exact congrArg (· + 1) (List.length_map _)

theorem sum_exactShares (h : 0 < exactPower validators) :
    (exactShares amount validators).sum = amount :=
  Shares.sum_split _ h

variable (dest : Validator → Address)

def exactCredit (amount : ℕ) (validators : List Validator) (addr : Address) : ℕ :=
  Shares.received dest addr validators (exactShares amount validators)

def computedCredit (amount totalPower : UInt64) (validators : List Validator) (addr : Address) :
    ℕ :=
  Shares.received dest addr validators
    ((splitRewards amount totalPower validators).map UInt64.toNat)

def SharesFit (amount totalPower : ℕ) : List Validator → Prop
  | [] => True
  | first :: rest =>
    if totalPower = exactPower (first :: rest) then
      ∀ v ∈ rest, dest v ≠ dest first → amount * v.votingPower.toNat < 2 ^ 64
    else
      (rest.map fun v => amount * v.votingPower.toNat % 2 ^ 64 / totalPower).sum ≤ amount ∧
        ∀ addr, addr ≠ dest first →
          Shares.received dest addr rest
            (rest.map fun v => amount * v.votingPower.toNat % 2 ^ 64 / totalPower) =
          Shares.received dest addr rest
            (rest.map fun v => amount * v.votingPower.toNat / exactPower (first :: rest))

variable {dest}

theorem splitRewards_cons (amount totalPower : UInt64) (first : Validator)
    (rest : List Validator) : ∃ top : UInt64,
      (splitRewards amount totalPower (first :: rest)).map UInt64.toNat = top.toNat ::
        rest.map (Shares.wrappedShare (fun v => v.votingPower.toNat) (2 ^ 64) amount.toNat
          totalPower.toNat) ∧
      ∃ k, top.toNat + (rest.map (Shares.wrappedShare (fun v => v.votingPower.toNat) (2 ^ 64)
        amount.toNat totalPower.toNat)).sum = amount.toNat + k * 2 ^ 64 := by
  have hrest : (rest.map fun v => amount * v.votingPower / totalPower).map UInt64.toNat =
      rest.map (Shares.wrappedShare (fun v => v.votingPower.toNat) (2 ^ 64) amount.toNat
        totalPower.toNat) := by
    rw [List.map_map]
    refine List.map_congr_left fun v _ => ?_
    rw [Function.comp_apply, UInt64.toNat_div, UInt64.toNat_mul]
    rfl
  obtain ⟨k, hk⟩ := addRemainder_toNat amount (amount * first.votingPower / totalPower)
    (rest.map fun v => amount * v.votingPower / totalPower)
  rw [← hrest]
  exact ⟨_, List.map_cons, k, hk⟩

theorem received_splitRewards_iff {amount totalPower : UInt64} (hpos : 0 < exactPower validators) :
    computedCredit dest amount totalPower validators = exactCredit dest amount.toNat validators ↔
      SharesFit dest amount.toNat totalPower.toNat validators := by
  rw [funext_iff]
  cases validators with
  | nil => exact absurd hpos (Nat.lt_irrefl 0)
  | cons first rest =>
    obtain ⟨top, hsplit, hsum⟩ := splitRewards_cons amount totalPower first rest
    unfold computedCredit exactCredit exactShares
    rw [hsplit]
    rw [SharesFit]
    split_ifs with htotal
    · have hle : exactPower (first :: rest) ≤ 2 ^ 64 := htotal.symm.trans_le totalPower.toNat_lt.le
      rw [htotal] at hsum ⊢
      exact Shares.received_eq_iff_of_total hpos top.toNat_lt hle hsum
    · exact Shares.received_eq_iff hpos top.toNat_lt hsum

/-! ### Crediting accounts -/

structure Credited (credits : Address → ℕ) (s s' : InMemoryState) : Prop where
  kvstore : s'.kvstore = s.kvstore
  unchanged : ∀ addr, credits addr = 0 → s'.accounts[addr]? = s.accounts[addr]?
  credited : ∀ addr, credits addr ≠ 0 → ∃ bal : Amount,
    bal.val = (s.accountOrNew addr).balance.val + credits addr ∧
      s'.accounts[addr]? = some { s.accountOrNew addr with balance := bal }

theorem Credited.refl (s : InMemoryState) : Credited (fun _ => 0) s s :=
  ⟨rfl, fun _ _ => rfl, fun _ h => absurd rfl h⟩

variable {credits credits' : Address → ℕ} {s t s' : InMemoryState}

theorem Credited.accountOrNew (h : Credited credits s s') (addr : Address) : ∃ bal : Amount,
    bal.val = (s.accountOrNew addr).balance.val + credits addr ∧
      s'.accountOrNew addr = { s.accountOrNew addr with balance := bal } := by
  by_cases h0 : credits addr = 0
  · refine ⟨(s.accountOrNew addr).balance, by rw [h0, Nat.add_zero], ?_⟩
    unfold InMemoryState.accountOrNew
    rw [h.unchanged addr h0]
  · obtain ⟨bal, hbal, hget⟩ := h.credited addr h0
    exact ⟨bal, hbal, accountOrNew_of_get hget⟩

theorem Credited.credits_eq (h : Credited credits s s') (h' : Credited credits' s s') :
    credits = credits' := by
  funext addr
  obtain ⟨bal, hbal, hacc⟩ := h.accountOrNew addr
  obtain ⟨bal', hbal', hacc'⟩ := h'.accountOrNew addr
  have hsame : bal = bal' := congrArg Account.balance (hacc.symm.trans hacc')
  rw [hsame] at hbal
  omega

theorem Credited.trans (h : Credited credits s t) (h' : Credited credits' t s') :
    Credited (credits + credits') s s' := by
  refine ⟨h'.kvstore.trans h.kvstore, fun addr h0 => ?_, fun addr hne => ?_⟩
  · rw [Pi.add_apply, Nat.add_eq_zero_iff] at h0
    exact (h'.unchanged addr h0.2).trans (h.unchanged addr h0.1)
  · obtain ⟨bal, hbal, hacc⟩ := h.accountOrNew addr
    by_cases h0 : credits' addr = 0
    · have hne : credits addr ≠ 0 := fun hzero => hne (by rw [Pi.add_apply, hzero, h0])
      obtain ⟨bal, hbal, hget⟩ := h.credited addr hne
      exact ⟨bal, by rw [Pi.add_apply, h0, Nat.add_zero, hbal], (h'.unchanged addr h0).trans hget⟩
    · obtain ⟨bal', hbal', hget⟩ := h'.credited addr h0
      rw [hacc] at hbal' hget
      exact ⟨bal', by rw [hbal', hbal, Pi.add_apply, Nat.add_assoc], hget⟩

variable {addr : Address} {reward : UInt64}

theorem payReward_credited {u : Unit}
    (h : payReward addr reward s = .ok u s') : Credited (Pi.single addr reward.toNat) s s' := by
  unfold payReward at h
  split_ifs at h with h0
  · rw [← (pure_eq_ok.1 h).2, h0]
    have : Pi.single addr (0 : UInt64).toNat = fun _ : Address => 0 := Pi.single_zero addr
    rw [this]
    exact Credited.refl s
  · obtain ⟨bal, hbal, rfl⟩ := credit_eq_ok.1 h
    refine ⟨rfl, fun a ha => ?_, fun a ha => ?_⟩
    · have hne : a ≠ addr := by
        rintro rfl
        rw [Pi.single_eq_same] at ha
        exact h0 (UInt64.toNat_inj.1 ha)
      exact get_setAccount_of_ne hne _ _
    · have heq : a = addr := by
        by_contra hne
        exact ha (Pi.single_eq_of_ne hne _)
      subst heq
      rw [Pi.single_eq_same]
      exact ⟨bal, hbal.symm, get_setAccount_self _ _ _⟩

theorem exists_payReward_iff : (∃ s', payReward addr reward s = .ok () s') ↔
      (s.accountOrNew addr).balance.val + reward.toNat < 2 ^ 128 := by
  unfold payReward
  split_ifs with h0
  · rw [h0]
    exact iff_of_true ⟨s, rfl⟩ (s.accountOrNew addr).balance.lt
  · constructor
    · rintro ⟨s', h⟩
      obtain ⟨bal, hbal, -⟩ := credit_eq_ok.1 h
      exact hbal ▸ bal.lt
    · exact fun h => ⟨_, credit_eq_ok.2 ⟨⟨_, h⟩, rfl, rfl⟩⟩

/-! ### Paying the shares -/

section

variable {validators : List Validator} {pay : Validator → UInt64 → Exec InMemoryState Unit}

def PaysRewards (dest : Validator → Address)
    (pay : Validator → UInt64 → Exec InMemoryState Unit) : Prop :=
  ∀ v reward s s', pay v reward s = .ok () s' ↔ payReward (dest v) reward s = .ok () s'

theorem received_cons_eq (v : Validator) (reward : ℕ) (rest : List Validator) (rewards : List ℕ) :
    (fun addr => Shares.received dest addr (v :: rest) (reward :: rewards)) =
      Pi.single (dest v) reward + fun addr => Shares.received dest addr rest rewards := by
  funext addr
  rw [Shares.received_cons, Pi.add_apply, Pi.single_apply]
  simp only [eq_comm]

variable {rewards : List UInt64}

theorem payRewards_credited (hpay : PaysRewards dest pay)
    (h : ((validators.zip rewards).forM fun (v, reward) => pay v reward) s = .ok () s') :
    Credited (fun addr => Shares.received dest addr validators (rewards.map UInt64.toNat))
      s s' := by
  induction validators generalizing rewards s with
  | nil =>
    rw [← (pure_eq_ok.1 h).2]
    exact Credited.refl s
  | cons v rest ih =>
    cases rewards with
    | nil =>
      rw [← (pure_eq_ok.1 h).2]
      exact Credited.refl s
    | cons reward rewards =>
      obtain ⟨_, t, hfirst, hrest⟩ := bind_eq_ok.1 h
      rw [List.map_cons, received_cons_eq]
      exact (payReward_credited ((hpay _ _ _ _).1 hfirst)).trans (ih hrest)

theorem exists_payRewards_iff (hpay : PaysRewards dest pay) :
    (∃ s', ((validators.zip rewards).forM fun (v, reward) => pay v reward) s = .ok () s') ↔
      ∀ addr, (s.accountOrNew addr).balance.val +
        Shares.received dest addr validators (rewards.map UInt64.toNat) < 2 ^ 128 := by
  have hbase (s : InMemoryState) (addr : Address) :
      (s.accountOrNew addr).balance.val + 0 < 2 ^ 128 := (s.accountOrNew addr).balance.lt
  induction validators generalizing rewards s with
  | nil => exact iff_of_true ⟨s, rfl⟩ (hbase s)
  | cons v rest ih =>
    cases rewards with
    | nil => exact iff_of_true ⟨s, rfl⟩ (hbase s)
    | cons reward rewards =>
      have hcons (addr : Address) : Shares.received dest addr _ _ = _ := congrFun
        (received_cons_eq v reward.toNat rest (rewards.map UInt64.toNat)) addr
      simp only [List.map_cons, hcons]
      constructor
      · rintro ⟨s', h⟩ addr
        obtain ⟨_, t, hfirst, hrest⟩ := bind_eq_ok.1 h
        obtain ⟨bal, hbal, hacc⟩ :=
          (payReward_credited ((hpay _ _ _ _).1 hfirst)).accountOrNew addr
        have hroom := ih.1 ⟨s', hrest⟩ addr
        rw [hacc, hbal, Nat.add_assoc] at hroom
        exact hroom
      · intro hroom
        have hself := hroom (dest v)
        rw [Pi.add_apply, Pi.single_eq_same, ← Nat.add_assoc] at hself
        obtain ⟨t, hfirst⟩ := exists_payReward_iff.2 ((Nat.le_add_right _ _).trans_lt hself)
        have hroom' : ∀ addr, (t.accountOrNew addr).balance.val +
            Shares.received dest addr rest (rewards.map UInt64.toNat) < 2 ^ 128 := by
          intro addr
          obtain ⟨bal, hbal, hacc⟩ := (payReward_credited hfirst).accountOrNew addr
          rw [hacc, hbal, Nat.add_assoc]
          exact hroom addr
        obtain ⟨s', hrest⟩ := ih.2 hroom'
        exact ⟨s', bind_eq_ok.2 ⟨(), t, (hpay _ _ _ _).2 hfirst, hrest⟩⟩

/-- Each validator gets its share, and the shares add up. -/
structure ProportionallyPaid (dest : Validator → Address) (amount : ℕ) (validators : List Validator)
    (s s' : InMemoryState) : Prop where
  accounts : Credited (exactCredit dest amount validators) s s'
  total : (exactShares amount validators).sum = amount

theorem exactCredit_le (hpos : 0 < exactPower validators) (addr : Address) :
    exactCredit dest amount validators addr ≤ amount := by
  have hsum : exactCredit dest amount validators addr + _ = _ :=
    Shares.received_add_others (length_exactShares amount validators) addr
  rw [sum_exactShares hpos] at hsum
  omega

def HasRoom (dest : Validator → Address) (amount : ℕ) (validators : List Validator)
    (s : InMemoryState) : Prop :=
  ∀ addr, (s.accountOrNew addr).balance.val + exactCredit dest amount validators addr < 2 ^ 128

theorem payRewards_iff (hpay : PaysRewards dest pay) {amount totalPower : UInt64}
    (hpos : 0 < exactPower validators) :
    (∃ s', ((validators.zip (splitRewards amount totalPower validators)).forM
        fun (v, reward) => pay v reward) s = .ok () s' ∧
          ProportionallyPaid dest amount.toNat validators s s') ↔
      HasRoom dest amount.toNat validators s ∧
        SharesFit dest amount.toNat totalPower.toNat validators := by
  rw [← received_splitRewards_iff hpos]
  constructor
  · rintro ⟨s', hrun, hpaid⟩
    have heq : computedCredit dest amount totalPower validators = _ :=
      (payRewards_credited hpay hrun).credits_eq hpaid.accounts
    refine ⟨fun addr => ?_, heq⟩
    rw [← heq]
    exact (exists_payRewards_iff hpay).1 ⟨s', hrun⟩ addr
  · rintro ⟨hroom, heq⟩
    unfold HasRoom at hroom
    rw [← heq] at hroom
    obtain ⟨s', hrun⟩ := (exists_payRewards_iff hpay).2 hroom
    refine ⟨s', hrun, ?_, sum_exactShares hpos⟩
    rw [← heq]
    exact payRewards_credited hpay hrun

theorem proportionallyPaid_self_iff (hpos : 0 < exactPower validators) :
    ProportionallyPaid dest amount validators s s ↔ amount = 0 := by
  have hzero : (∀ addr, exactCredit dest amount validators addr = 0) ↔ _ :=
    Shares.received_eq_zero_iff (length_exactShares amount validators)
  rw [sum_exactShares hpos] at hzero
  rw [← hzero]
  constructor
  · intro h addr
    exact congrFun (h.accounts.credits_eq (Credited.refl s)) addr
  · intro h
    have hcredit : exactCredit dest amount validators = fun _ => 0 := funext h
    refine ⟨?_, sum_exactShares hpos⟩
    rw [hcredit]
    exact Credited.refl s

theorem hasRoom_zero (hpos : 0 < exactPower validators) : HasRoom dest 0 validators s := by
  intro addr
  have hle : exactCredit dest 0 validators addr ≤ 0 := exactCredit_le hpos addr
  rw [Nat.le_zero.1 hle]
  exact (s.accountOrNew addr).balance.lt

end

/-! ### The two reward functions -/

def Payable (dest : Validator → Address) (amount totalPower : ℕ) (validators : List Validator)
    (s : InMemoryState) : Prop :=
  HasRoom dest amount validators s ∧
    (amount = 0 ∨ totalPower ≠ 0 ∧ SharesFit dest amount totalPower validators)

section

variable {totalPower : ℕ}

theorem payable_iff_of_idle (hpos : 0 < exactPower validators) (h : amount = 0 ∨ totalPower = 0) :
    Payable dest amount totalPower validators s ↔ amount = 0 := by
  constructor
  · rintro ⟨-, h0 | ⟨hne, -⟩⟩
    · exact h0
    · exact h.resolve_right hne
  · rintro rfl
    exact ⟨hasRoom_zero hpos, .inl rfl⟩

theorem payable_iff_of_busy (h : ¬ (amount = 0 ∨ totalPower = 0)) :
    Payable dest amount totalPower validators s ↔
      HasRoom dest amount validators s ∧ SharesFit dest amount totalPower validators := by
  rw [not_or] at h
  unfold Payable
  simp only [h.1, h.2, false_or, ne_eq, not_false_eq_true, true_and]

variable [Crypto]

variable {active : List Validator} {totalFees : Amount}

theorem exists_distributeRewards_iff (hactive : getActiveValidators s = .ok active) :
    (∃ shares, distributeRewards totalFees s = .ok shares s') ↔
      if stakeToUint64 totalFees * 70 / 100 = 0 ∨ sumUint64 Validator.votingPower active = 0
      then s' = s
      else ((active.zip (splitRewards (stakeToUint64 totalFees * 70 / 100)
          (sumUint64 Validator.votingPower active) active)).forM
            fun (v, reward) => payReward v.operatorAddress reward) s = .ok () s' := by
  have hread : (asks getActiveValidators : Exec InMemoryState _) s = .ok active s :=
    asks_eq_ok.2 ⟨hactive, rfl⟩
  have hpure (r : Amount × Amount × Amount) :
      (∃ shares, (pure r : Exec InMemoryState _) s = .ok shares s') ↔ s' = s :=
    ⟨fun ⟨_, h⟩ => (pure_eq_ok.1 h).2.symm, fun h => ⟨_, pure_eq_ok.2 ⟨rfl, h.symm⟩⟩⟩
  unfold distributeRewards amountFraction
  simp only [isZero_ofUInt64, stakeToUint64_ofUInt64]
  by_cases hfees : totalFees.isZero = true
  · have hval : totalFees.val = 0 := of_decide_eq_true hfees
    have hshare : stakeToUint64 totalFees = 0 := by
      apply UInt64.toNat_inj.1
      rw [stakeToUint64_toNat, hval]
      rfl
    rw [if_pos hfees, hshare, if_pos (.inl (by decide))]
    exact hpure _
  rw [if_neg hfees]
  simp only [bind_eq_ok_of hread]
  by_cases hidle : stakeToUint64 totalFees * 70 / 100 = 0 ∨
      sumUint64 Validator.votingPower active = 0
  · rw [if_pos hidle]
    by_cases hnone : active.length = 0 ∨ stakeToUint64 totalFees * 70 / 100 = 0
    · rw [if_pos hnone]
      exact hpure _
    · rw [not_or] at hnone
      rw [if_neg (not_or.2 hnone), if_pos (hidle.resolve_left hnone.2)]
      exact hpure _
  · have hlen : ¬ active.length = 0 := by
      intro h0
      rw [List.length_eq_zero_iff.1 h0] at hidle
      exact hidle (.inr rfl)
    rw [not_or] at hidle
    rw [if_neg (not_or.2 ⟨hlen, hidle.1⟩), if_neg hidle.2, if_neg (not_or.2 hidle)]
    constructor
    · rintro ⟨_, h⟩
      obtain ⟨_, _, hpay, hret⟩ := bind_eq_ok.1 h
      obtain ⟨-, rfl⟩ := pure_eq_ok.1 hret
      exact hpay
    · exact fun h => ⟨_, bind_eq_ok.2 ⟨(), s', h, rfl⟩⟩

variable {epoch : UInt64} {snap : ValidatorSnapshot}

theorem distributeValidatorRewards_eq_ok_iff (hsnap : getSnapshot (epoch - 1) s = .ok (some snap)) :
    distributeValidatorRewards epoch s = .ok () s' ↔
      if readUint64Key (epochValidatorPoolKey epoch) s = 0 ∨ epoch = 1 ∨ snap.totalPower = 0 ∨
        snap.validators.length = 0
      then s' = s
      else ((snap.validators.zip (splitRewards (readUint64Key (epochValidatorPoolKey epoch) s)
          snap.totalPower snap.validators)).forM fun (v, reward) =>
            wrapErr s!"reward to {addressString (rewardDestination v)}"
              (payReward (rewardDestination v) reward)) s = .ok () s' := by
  have hepoch : epoch - 1 = 0 ↔ epoch = 1 := by
    rw [← UInt64.toNat_inj, ← UInt64.toNat_inj, UInt64.toNat_sub]
    have := epoch.toNat_lt
    change (2 ^ 64 - 1 + epoch.toNat) % 2 ^ 64 = 0 ↔ epoch.toNat = 1
    omega
  have hpure : (pure () : Exec InMemoryState Unit) s = .ok () s' ↔ s' = s :=
    ⟨fun h => (pure_eq_ok.1 h).2.symm, fun h => pure_eq_ok.2 ⟨rfl, h.symm⟩⟩
  have hget : (get : Exec InMemoryState _) s = .ok s s := rfl
  have hread : (wrapErr s!"get snapshot for epoch {epoch - 1}"
      (asks (getSnapshot (epoch - 1))) : Exec InMemoryState _) s = .ok (some snap) s :=
    wrapErr_eq_ok.2 (asks_eq_ok.2 ⟨hsnap, rfl⟩)
  unfold distributeValidatorRewards
  simp only [bind_eq_ok_of hget, hepoch]
  by_cases hpool : readUint64Key (epochValidatorPoolKey epoch) s = 0
  · rw [if_pos hpool, if_pos (.inl hpool)]
    exact hpure
  rw [if_neg hpool]
  by_cases hfirst : epoch = 1
  · rw [if_pos hfirst, if_pos (.inr (.inl hfirst))]
    exact hpure
  rw [if_neg hfirst]
  simp only [bind_eq_ok_of hread]
  by_cases hidle : snap.validators.length = 0 ∨ snap.totalPower = 0
  · rw [if_pos hidle, if_pos (.inr (.inr hidle.symm))]
    exact hpure
  · rw [if_neg hidle, if_neg (not_or.2 ⟨hpool, not_or.2 ⟨hfirst, fun h => hidle h.symm⟩⟩)]

omit [Crypto] in
theorem length_ne_zero_of_exactPower (hpos : 0 < exactPower validators) :
    ¬ validators.length = 0 := by
  intro h0
  rw [List.length_eq_zero_iff.1 h0] at hpos
  exact Nat.lt_irrefl 0 hpos

theorem distributeRewards_iff
    (hactive : getActiveValidators s = .ok active) (hpos : 0 < exactPower active) :
    (∃ shares s', distributeRewards totalFees s = .ok shares s' ∧ ProportionallyPaid
        Validator.operatorAddress (amountFraction totalFees 70 100).val active s s') ↔
      Payable Validator.operatorAddress (amountFraction totalFees 70 100).val
        (exactPower active % 2 ^ 64) active s := by
  have hval : (amountFraction totalFees 70 100).val =
      (stakeToUint64 totalFees * 70 / 100).toNat := rfl
  have htotal : exactPower active % 2 ^ 64 = (sumUint64 Validator.votingPower active).toNat :=
    (sumUint64_toNat _ _).symm
  have hcases : ((stakeToUint64 totalFees * 70 / 100).toNat = 0 ∨
      (sumUint64 Validator.votingPower active).toNat = 0) ↔
      (stakeToUint64 totalFees * 70 / 100 = 0 ∨ sumUint64 Validator.votingPower active = 0) :=
    or_congr (UInt64.toNat_inj (b := 0)) (UInt64.toNat_inj (b := 0))
  rw [exists_comm, hval, htotal]
  simp only [exists_and_right, exists_distributeRewards_iff hactive]
  by_cases hidle : stakeToUint64 totalFees * 70 / 100 = 0 ∨
      sumUint64 Validator.votingPower active = 0
  · simp only [if_pos hidle, exists_eq_left]
    rw [proportionallyPaid_self_iff hpos, payable_iff_of_idle hpos (hcases.2 hidle)]
  · simp only [if_neg hidle]
    rw [payable_iff_of_busy (hcases.not.2 hidle)]
    exact payRewards_iff (fun _ _ _ _ => Iff.rfl) hpos

theorem distributeValidatorRewards_iff
    (hsnap : getSnapshot (epoch - 1) s = .ok (some snap)) (hpos : 0 < exactPower snap.validators) :
    (∃ s', distributeValidatorRewards epoch s = .ok () s' ∧ ProportionallyPaid rewardDestination
        (readUint64Key (epochValidatorPoolKey epoch) s).toNat snap.validators s s') ↔
      Payable rewardDestination (readUint64Key (epochValidatorPoolKey epoch) s).toNat
          snap.totalPower.toNat snap.validators s ∧
        (readUint64Key (epochValidatorPoolKey epoch) s = 0 ∨ epoch ≠ 1) := by
  have hlen := length_ne_zero_of_exactPower hpos
  simp only [distributeValidatorRewards_eq_ok_iff hsnap, hlen, or_false]
  generalize readUint64Key (epochValidatorPoolKey epoch) s = pool
  have hpool : pool.toNat = 0 ↔ pool = 0 := UInt64.toNat_inj (b := 0)
  have hpower : snap.totalPower.toNat = 0 ↔ snap.totalPower = 0 := UInt64.toNat_inj (b := 0)
  by_cases hidle : pool = 0 ∨ epoch = 1 ∨ snap.totalPower = 0
  · simp only [if_pos hidle, exists_eq_left]
    rw [proportionallyPaid_self_iff hpos, hpool]
    constructor
    · intro h0
      exact ⟨(payable_iff_of_idle hpos (.inl (hpool.2 h0))).2 (hpool.2 h0), .inl h0⟩
    · rintro ⟨hpay, h0 | hne⟩
      · exact h0
      · have hzero : pool.toNat = 0 ∨ snap.totalPower.toNat = 0 :=
          hidle.imp hpool.2 fun h => hpower.2 (h.resolve_left hne)
        exact hpool.1 ((payable_iff_of_idle hpos hzero).1 hpay)
  · simp only [if_neg hidle]
    simp only [not_or] at hidle
    have hbusy : ¬ (pool.toNat = 0 ∨ snap.totalPower.toNat = 0) :=
      not_or.2 ⟨fun h => hidle.1 (hpool.1 h), fun h => hidle.2.2 (hpower.1 h)⟩
    rw [payable_iff_of_busy hbusy, and_iff_left (.inr hidle.2.1)]
    have hpay : PaysRewards rewardDestination fun v reward =>
        wrapErr s!"reward to {addressString (rewardDestination v)}"
          (payReward (rewardDestination v) reward) := fun _ _ _ _ => wrapErr_eq_ok
    exact payRewards_iff hpay hpos

/-- When the validators receive the exact proportional shares. -/
theorem rewards_proportional_iff (s : InMemoryState) :
    (∀ totalFees active, getActiveValidators s = .ok active → 0 < exactPower active →
      ((∃ shares s', distributeRewards totalFees s = .ok shares s' ∧ ProportionallyPaid
          Validator.operatorAddress (amountFraction totalFees 70 100).val active s s') ↔
        Payable Validator.operatorAddress (amountFraction totalFees 70 100).val
          (exactPower active % 2 ^ 64) active s)) ∧
    ∀ epoch snap, getSnapshot (epoch - 1) s = .ok (some snap) → 0 < exactPower snap.validators →
      ((∃ s', distributeValidatorRewards epoch s = .ok () s' ∧ ProportionallyPaid rewardDestination
          (readUint64Key (epochValidatorPoolKey epoch) s).toNat snap.validators s s') ↔
        Payable rewardDestination (readUint64Key (epochValidatorPoolKey epoch) s).toNat
            snap.totalPower.toNat snap.validators s ∧
          (readUint64Key (epochValidatorPoolKey epoch) s = 0 ∨ epoch ≠ 1)) :=
  ⟨fun _ _ hactive hpos => distributeRewards_iff hactive hpos,
    fun _ _ hsnap hpos => distributeValidatorRewards_iff hsnap hpos⟩

end

open Sample

def sampleRewarding : InMemoryState :=
  ((singleRegistry sampleValidator).setBytes (snapshotKey 1)
    (ValidatorSnapshot.marshalBinary ⟨1, [sampleValidator], 1, zeroHash⟩)).setBytes
      (epochValidatorPoolKey 2) (putUint64 3)

theorem rewards_proportional_sample :
    (∃ shares s', distributeRewards (.ofUInt64 10) sampleRewarding = .ok shares s' ∧
      ProportionallyPaid Validator.operatorAddress 7 [sampleValidator] sampleRewarding s') ∧
    ∃ s', distributeValidatorRewards 2 sampleRewarding = .ok () s' ∧
      ProportionallyPaid rewardDestination 3 [sampleValidator] sampleRewarding s' := by
  have hroom (dest : Validator → Address) {amount : ℕ} (h : amount < 2 ^ 128) :
      HasRoom dest amount [sampleValidator] sampleRewarding := by
    intro addr
    have hle : exactCredit dest amount [sampleValidator] addr ≤ amount :=
      exactCredit_le (by decide) addr
    show 0 + _ < _
    omega
  have hpool : readUint64Key (epochValidatorPoolKey 2) sampleRewarding = 3 := by decide +kernel
  refine ⟨((rewards_proportional_iff sampleRewarding).1 _ [sampleValidator] (by decide +kernel)
    (by decide)).2 ⟨hroom _ (by decide), .inr ⟨by decide, ?_⟩⟩, ?_⟩
  · exact fun v hv => absurd hv List.not_mem_nil
  · have h := (rewards_proportional_iff sampleRewarding).2 2 ⟨1, [sampleValidator], 1, zeroHash⟩
      (by decide +kernel) (by decide)
    rw [hpool] at h
    exact h.2 ⟨⟨hroom _ (by decide), .inr ⟨by decide, fun v hv => absurd hv List.not_mem_nil⟩⟩,
      .inr (by decide)⟩

def sampleEquals : ValidatorSnapshot where
  epoch := 1
  validators := [{ sampleValidator with votingPower := 4611686018427387904 },
    { sampleValidator with votingPower := 4611686018427387904, operatorAddress := .copy 20 [1] }]
  totalPower := 9223372036854775808
  setHash := zeroHash

def sampleEqualPool : InMemoryState :=
  (newInMemoryState.setBytes (epochValidatorPoolKey 2) (putUint64 4)).setBytes (snapshotKey 1)
    sampleEquals.marshalBinary

theorem equal_validators_paid_unequally : ¬ ∀ (_ : Crypto) (s : InMemoryState) (epoch : UInt64)
    (snap : ValidatorSnapshot), getSnapshot (epoch - 1) s = .ok (some snap) →
      0 < exactPower snap.validators → ∃ s', distributeValidatorRewards epoch s = .ok () s' ∧
        ProportionallyPaid rewardDestination
          (readUint64Key (epochValidatorPoolKey epoch) s).toNat snap.validators s s' := by
  intro h
  have hsnap : getSnapshot (2 - 1) sampleEqualPool = .ok (some sampleEquals) :=
    getSnapshot_setBytes _ (by decide)
  have hpool : readUint64Key (epochValidatorPoolKey 2) sampleEqualPool = 4 := by decide +kernel
  have hpos : 0 < exactPower sampleEquals.validators := by decide +kernel
  obtain ⟨⟨-, hfit⟩, -⟩ := (distributeValidatorRewards_iff hsnap hpos).1 (h _ _ _ _ hsnap hpos)
  rw [hpool] at hfit
  obtain ⟨-, hfit⟩ := hfit.resolve_left (by decide)
  rw [sampleEquals, SharesFit, if_pos (by decide +kernel)] at hfit
  have hwraps := hfit _ (List.mem_singleton_self _) (by decide +kernel)
  exact absurd hwraps (by decide +kernel)

end Dsn
