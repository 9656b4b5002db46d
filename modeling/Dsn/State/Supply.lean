import Dsn.State.Applier

/-!
# The sum of all balances

What each part of a transaction adds to or takes from the sum.
-/

namespace Dsn

open Go InMemoryState

variable {u : Unit} {tx : Transaction} {sender : Account}

def supply (s : InMemoryState) : ℕ := s.accounts.total fun acc => acc.balance.val

def SameAccounts (s s' : InMemoryState) : Prop := s'.accounts = s.accounts

instance : Std.Refl SameAccounts := ⟨fun _ => rfl⟩

instance : IsTrans InMemoryState SameAccounts := ⟨fun _ _ _ h h' => h'.trans h⟩

theorem SameAccounts.supply_eq {s s' : InMemoryState} (h : SameAccounts s s') :
    supply s' = supply s := by
  unfold supply
  rw [h]

theorem setBytes_sameAccounts (key value : Bytes) :
    Steps SameAccounts (modify (setBytes key value) : Exec InMemoryState PUnit) :=
  Steps.modify fun _ => rfl

variable {addr : Address} {amount : Amount} {s s' : InMemoryState}

theorem supply_setAccount (addr : Address) (s : InMemoryState) (acc : Account) :
    supply (s.setAccount addr acc) + (s.accounts[addr]?.elim 0 fun acc => acc.balance.val) =
      supply s + acc.balance.val :=
  Map.total_insert _ _ _ _

theorem supply_setAccount_of_get {old : Account} (h : s.accounts[addr]? = some old)
    (acc : Account) :
    supply (s.setAccount addr acc) + old.balance.val = supply s + acc.balance.val := by
  have := supply_setAccount addr s acc
  rw [h] at this
  exact this

theorem credit_supply (h : credit addr amount s = .ok u s') :
    supply s' = supply s + amount.val := by
  obtain ⟨bal, hbal, rfl⟩ := credit_eq_ok.1 h
  have hset := supply_setAccount addr s
    { s.accountOrNew addr with balance := bal }
  have hold : (s.accounts[addr]?.elim 0 fun acc => acc.balance.val) =
      (s.accountOrNew addr).balance.val := by
    unfold accountOrNew
    cases s.accounts[addr]? <;> rfl
  change supply _ + _ = supply s + bal.val at hset
  omega

variable [Crypto]

theorem subBalance_supply (h : subBalance addr amount s = .ok u s') :
    supply s' + amount.val = supply s := by
  obtain ⟨acc, bal, hacc, hbal, rfl⟩ := subBalance_eq_ok.1 h
  have hset := supply_setAccount_of_get hacc { acc with balance := bal }
  change supply _ + _ = supply s + bal.val at hset
  omega

theorem addBalance_supply (h : addBalance addr amount s = .ok u s') :
    supply s' = supply s + amount.val := by
  obtain ⟨acc, bal, hacc, hbal, rfl⟩ := addBalance_eq_ok.1 h
  have hset := supply_setAccount_of_get hacc { acc with balance := bal }
  change supply _ + _ = supply s + bal.val at hset
  omega

theorem incrementNonce_supply (h : incrementNonce addr s = .ok u s') :
    supply s' = supply s := by
  obtain ⟨acc, hacc, rfl⟩ := incrementNonce_eq_ok.1 h
  have hset := supply_setAccount_of_get hacc { acc with nonce := acc.nonce + 1 }
  change supply _ + _ = supply s + acc.balance.val at hset
  omega

/-! ### Transactions -/

def stakeOf (tx : Transaction) : ℕ :=
  if tx.txType = txTypeValidatorRegistration then
    match tx.validatorRegistration with
    | .ok m => m.stake.toNat
    | .error _ => 0
  else 0

theorem applyTransfer_supply {fee : Amount} (h : applyTransfer tx sender fee s = .ok u s') :
    supply s' = supply s := by
  unfold applyTransfer at h
  split_ifs at h
  · simp only [bind_eq_ok, wrapErr_eq_ok, ofResult_eq_ok, failIf_eq_ok] at h
    obtain ⟨_, _, ⟨-, rfl⟩, _, _, ⟨-, rfl⟩, _, s1, hcredit, hsub⟩ := h
    have h1 := credit_supply hcredit
    have h2 := subBalance_supply hsub
    omega
  · rw [(pure_eq_ok.1 h).2]

theorem applyRegistration_supply
    (h : applyRegistration tx sender (.ofUInt64 tx.maxFee) s = .ok u s') :
    ∃ m, tx.validatorRegistration = .ok m ∧ supply s' + m.stake.toNat = supply s := by
  obtain ⟨m, epoch, count, total, s1, s2, hreg⟩ := applyRegistration_eq_ok h
  have hstake := subBalance_supply hreg.stake
  -- after the stake is deducted only keys are written
  have htail : SameAccounts s1 s' := by
    rw [hreg.after, hreg.stored]
    rfl
  refine ⟨m, hreg.pays.decoded, ?_⟩
  rw [htail.supply_eq]
  exact hstake

theorem applyPayload_supply (h : applyPayload tx sender (.ofUInt64 tx.maxFee) s = .ok u s') :
    supply s' + stakeOf tx = supply s := by
  unfold applyPayload at h
  split_ifs at h with hstd hreg
  · have hne : ¬ tx.txType = txTypeValidatorRegistration := by rw [hstd]; decide
    rw [stakeOf, if_neg hne, applyTransfer_supply h, Nat.add_zero]
  · obtain ⟨m, hm, hsupply⟩ := applyRegistration_supply h
    rw [stakeOf, if_pos hreg, hm]
    exact hsupply
  · rw [stakeOf, if_neg hreg, (pure_eq_ok.1 h).2, Nat.add_zero]

theorem Applied.supply_add {now : UInt64} {s1 s2 : InMemoryState}
    (h : Applied now tx s s' sender s1 s2) :
    supply s' + stakeOf tx + tx.maxFee.toNat = supply s := by
  have h1 := applyPayload_supply h.payload
  have h2 : supply s2 + tx.maxFee.toNat = supply s1 := subBalance_supply h.fee
  have h3 := incrementNonce_supply h.bump
  omega

end Dsn
