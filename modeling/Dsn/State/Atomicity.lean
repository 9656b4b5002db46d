import Dsn.State.Transfer

/-!
# Does a failed transaction leave a trace?

All checks come before the first write, except that a registration finds out last that the
validator exists.
-/

namespace Dsn

open Go InMemoryState

section

variable [Crypto] {now : UInt64} {tx : Transaction} {s s' : InMemoryState} {sender : Account}

structure Reregisters (now : UInt64) (tx : Transaction) (s : InMemoryState)
    (m : ValidatorRegistrationMsg) (sender : Account) : Prop where
  type_eq : tx.txType = txTypeValidatorRegistration
  valid : tx.validate now = .ok ()
  found : s.accounts[tx.sender]? = some sender
  verified : ed25519Verify sender.publicKey tx.intentID.bytes tx.signature = true
  nonce_eq : tx.nonce = sender.nonce + 1
  pays : PaysStake tx m sender
  taken : (s.getBytes (validatorKey (deriveConsensusID m.pubKey.bytes))).isSome

/-! ### Parts that cannot fail -/

variable {acc : Account}

theorem subBalance_ok {addr : Address} (amount : Amount)
    (hacc : s.accounts[addr]? = some acc) (hle : amount.val ≤ acc.balance.val) :
    ∃ bal, acc.balance.val = bal.val + amount.val ∧
      subBalance addr amount s = .ok () (s.setAccount addr { acc with balance := bal }) := by
  obtain ⟨bal, hbal⟩ : ∃ bal : Amount, acc.balance.val = bal.val + amount.val :=
    ⟨⟨acc.balance.val - amount.val, (Nat.sub_le _ _).trans_lt acc.balance.lt⟩, by dsimp only; omega⟩
  exact ⟨bal, hbal, subBalance_eq_ok.2 ⟨acc, bal, hacc, hbal, rfl⟩⟩

theorem charge_ok (hacc : s.accounts[tx.sender]? = some acc)
    (hfee : tx.maxFee.toNat ≤ acc.balance.val) : ∃ s1 s2,
      subBalance tx.sender (.ofUInt64 tx.maxFee) s = .ok () s1 ∧
        incrementNonce tx.sender s1 = .ok () s2 := by
  obtain ⟨bal, -, hsub⟩ := subBalance_ok (.ofUInt64 tx.maxFee) hacc hfee
  exact ⟨_, _, hsub, incrementNonce_eq_ok.2 ⟨_, get_setAccount_self _ _ _, rfl⟩⟩

variable {e : Error}

section

omit [Crypto]

theorem getUint64_isPanic {b : Bytes} (h : getUint64 b = .error e) : e.isPanic = true := by
  unfold getUint64 at h
  split_ifs at h
  cases h
  rfl

theorem getCurrentEpoch_isPanic (s : InMemoryState) (e : Error)
    (h : getCurrentEpoch s = .error e) : e.isPanic = true := by
  unfold getCurrentEpoch at h
  split at h
  · cases h
  · exact getUint64_isPanic h

theorem nextValidatorCount_isPanic (s : InMemoryState) (e : Error)
    (h : nextValidatorCount s = .error e) : e.isPanic = true := by
  unfold nextValidatorCount at h
  split at h
  · cases h
  · next b _ =>
      cases hb : getUint64 b with
      | ok n => rw [hb] at h; cases h
      | error e1 =>
        rw [hb] at h
        cases h
        exact getUint64_isPanic hb

theorem nextTotalBonded_isPanic (amount : Amount) (s : InMemoryState) (e : Error)
    (h : nextTotalBonded amount s = .error e) : e.isPanic = true := by
  unfold nextTotalBonded at h
  dsimp only at h
  split at h
  · cases h
  · cases h
    rfl

end

/-! ### Failures of the payload -/

section

variable (hfound : s.accounts[tx.sender]? = some sender)
include hfound

theorem applyTransfer_error {fee : Amount} (h : applyTransfer tx sender fee s = .error e s') :
    s' = s := by
  unfold applyTransfer at h
  split_ifs at h
  swap
  · cases h
  rcases ofResult_bind_eq_error h with rfl | ⟨cost, hcost, h⟩
  · rfl
  rcases failIf_bind_eq_error h with rfl | ⟨hle, h⟩
  · rfl
  rcases bind_eq_error.1 h with h | ⟨_, s1, hcredit, h⟩
  · exact credit_atomic.wrapErr _ _ _ _ h
  have hcost := Amount.add_eq_ok.1 hcost
  have hle := not_lt.1 hle
  -- the recipient has its tokens, and the sender has no less than before: the debit succeeds
  obtain ⟨bal, hbal, rfl⟩ := credit_eq_ok.1 (wrapErr_eq_ok.1 hcredit)
  obtain ⟨acc, hacc, hge⟩ : ∃ acc, (s.setAccount (transferPayload tx.payload).1
      { s.accountOrNew (transferPayload tx.payload).1 with balance := bal }).accounts[tx.sender]? =
        some acc ∧ sender.balance.val ≤ acc.balance.val := by
    by_cases hr : (transferPayload tx.payload).1 = tx.sender
    · rw [hr, accountOrNew_of_get hfound] at hbal ⊢
      exact ⟨_, get_setAccount_self _ _ _, by dsimp only; omega⟩
    · rw [get_setAccount_of_ne (Ne.symm hr)]
      exact ⟨sender, hfound, le_rfl⟩
  obtain ⟨_, -, hsub⟩ := subBalance_ok (.ofUInt64 (transferPayload tx.payload).2) hacc
    (by rw [Amount.ofUInt64_val] at hcost ⊢; omega)
  rw [hsub] at h
  cases h

theorem applyRegistration_error
    (h : applyRegistration tx sender (.ofUInt64 tx.maxFee) s = .error e s')
    (hpanic : e.isPanic = false) : s' = s ∨ ∃ m, PaysStake tx m sender ∧
      (s.getBytes (validatorKey (deriveConsensusID m.pubKey.bytes))).isSome := by
  rcases ofResult_bind_eq_error h with rfl | ⟨m, hm, h⟩
  · exact .inl rfl
  rcases failIf_bind_eq_error h with rfl | ⟨haddr, h⟩
  · exact .inl rfl
  rcases failIf_bind_eq_error h with rfl | ⟨hstake, h⟩
  · exact .inl rfl
  rcases failIf_bind_eq_error h with rfl | ⟨hcomm, h⟩
  · exact .inl rfl
  rcases ofResult_bind_eq_error h with rfl | ⟨cost, hcost, h⟩
  · exact .inl rfl
  rcases failIf_bind_eq_error h with rfl | ⟨hle, h⟩
  · exact .inl rfl
  have hpays := paysStake_of_checks hm
    haddr hstake hcomm
    hcost hle
  rcases bind_eq_error.1 h with h | ⟨_, s1, hsub, h⟩
  · exact .inl (subBalance_atomic.wrapErr _ _ _ _ h)
  obtain ⟨acc, bal, -, -, rfl⟩ := subBalance_eq_ok.1 (wrapErr_eq_ok.1 hsub)
  refine .inr ⟨m, hpays, ?_⟩
  by_contra htaken
  -- past the last check only panics remain
  have hfree : ¬ ((s.setAccount tx.sender { acc with balance := bal }).getBytes
    (validatorKey (deriveConsensusID m.pubKey.bytes))).isSome = true := htaken
  rw [get_bind, failIf_bind hfree] at h
  have hfrom : e.isPanic = true := by
    refine OnlyPanics.bind (.asks getCurrentEpoch_isPanic) (fun _ => ?_) _ _ _ h
    refine OnlyPanics.bind (.modify _) fun _ => OnlyPanics.bind (.modify _) fun _ => ?_
    refine OnlyPanics.bind (.modify _) fun _ => ?_
    refine OnlyPanics.bind (.asks nextValidatorCount_isPanic) fun _ => ?_
    refine OnlyPanics.bind (.modify _) fun _ => ?_
    exact OnlyPanics.bind (.asks (nextTotalBonded_isPanic _)) fun _ => .modify _
  rw [hpanic] at hfrom
  cases hfrom

/-! ### Failures of the transaction -/

theorem applyPayload_covers_fee {u : Unit} (hfee : tx.maxFee.toNat ≤ sender.balance.val)
    (h : applyPayload tx sender (.ofUInt64 tx.maxFee) s = .ok u s') :
    ∃ acc, s'.accounts[tx.sender]? = some acc ∧ tx.maxFee.toNat ≤ acc.balance.val := by
  unfold applyPayload at h
  split_ifs at h with hstd hreg
  · obtain ⟨bal, hacc, hsent⟩ := (transferred_of_ok hfound h).sender_after
    refine ⟨_, hacc, ?_⟩
    have := applyTransfer_cost_le hfee h
    dsimp only
    omega
  · obtain ⟨m, epoch, count, total, s1, s2, hreg⟩ := applyRegistration_eq_ok h
    obtain ⟨acc, bal, hacc, hbal, rfl⟩ := subBalance_eq_ok.1 hreg.stake
    obtain rfl : sender = acc := Option.some.inj (hfound.symm.trans hacc)
    refine ⟨{ sender with balance := bal }, ?_, ?_⟩
    · rw [hreg.after, hreg.stored]
      exact get_setAccount_self _ _ _
    · have hcost := hreg.pays.cost_le
      change sender.balance.val = bal.val + m.stake.toNat at hbal
      dsimp only
      omega
  · obtain rfl := (pure_eq_ok.1 h).2
    exact ⟨sender, hfound, hfee⟩

end

theorem applyTransaction_error (h : applyTransaction now tx s = .error e s')
    (hpanic : e.isPanic = false) : s' = s ∨ ∃ m sender, Reregisters now tx s m sender := by
  rcases ofResult_bind_eq_error h with rfl | ⟨_, hvalid, h⟩
  · exact .inl rfl
  rcases eq_or_of_bind_eq_error ((Steps.asks _).wrapErr _) h with rfl | ⟨sender, hfound, h⟩
  · exact .inl rfl
  rcases failIf_bind_eq_error h with rfl | ⟨hverified, h⟩
  · exact .inl rfl
  rcases failIf_bind_eq_error h with rfl | ⟨hnonce, h⟩
  · exact .inl rfl
  rcases failIf_bind_eq_error h with rfl | ⟨hfee, h⟩
  · exact .inl rfl
  have hfound := getAccount_eq_ok.1 (asks_eq_ok.1 (wrapErr_eq_ok.1 hfound)).1
  rcases bind_eq_error.1 h with h | ⟨_, s1, hpay, h⟩
  · unfold applyPayload at h
    split_ifs at h with hstd hreg
    · exact .inl (applyTransfer_error hfound h)
    · rcases applyRegistration_error hfound h hpanic with rfl | ⟨m, hpays, htaken⟩
      · exact .inl rfl
      exact .inr ⟨m, sender, hreg, hvalid, hfound,
        by simpa using hverified, not_not.1 hnonce, hpays,
        htaken⟩
    · cases h
  · obtain ⟨acc, hacc, hle⟩ := applyPayload_covers_fee hfound (not_lt.1 hfee)
      hpay
    obtain ⟨s2, s3, hsub, hbump⟩ := charge_ok hacc hle
    rw [bind_eq_ok_of hsub, bind_eq_ok_of hbump] at h
    cases h

variable {m : ValidatorRegistrationMsg}

theorem Reregisters.run (h : Reregisters now tx s m sender) :
    ∃ bal, sender.balance.val = bal.val + m.stake.toNat ∧ applyTransaction now tx s =
      .error (.new "validator already registered")
        (s.setAccount tx.sender { sender with balance := bal }) := by
  obtain ⟨bal, hbal, hsub⟩ := subBalance_ok (.ofUInt64 m.stake) h.found
    ((Nat.le_add_left _ _).trans h.pays.cost_le)
  refine ⟨bal, hbal, ?_⟩
  have hcost : (Amount.ofUInt64 tx.maxFee).add (.ofUInt64 m.stake) =
      .ok ⟨tx.maxFee.toNat + m.stake.toNat, h.pays.cost_le.trans_lt sender.balance.lt⟩ :=
    Amount.add_eq_ok.2 rfl
  have hfee : ¬ sender.balance.val < (Amount.ofUInt64 tx.maxFee).val := by
    have := h.pays.cost_le
    simp only [Amount.ofUInt64_val]
    omega
  unfold applyTransaction
  rw [wrapErr_bind (ofResult_eq_ok.2 ⟨h.valid, rfl⟩),
    wrapErr_bind (asks_eq_ok.2 ⟨getAccount_eq_ok.2 h.found, rfl⟩),
    failIf_bind (by simp [h.verified]), failIf_bind (not_not.2 h.nonce_eq), failIf_bind hfee]
  refine bind_eq_error_of ?_
  rw [applyPayload, if_neg (by rw [h.type_eq]; decide), if_pos h.type_eq]
  unfold applyRegistration
  rw [wrapErr_bind (ofResult_eq_ok.2 ⟨h.pays.decoded, rfl⟩),
    failIf_bind (not_not.2 h.pays.address_eq), failIf_bind (not_lt.2 h.pays.stake_ge),
    failIf_bind (not_lt.2 h.pays.commission_le), wrapErr_bind (ofResult_eq_ok.2 ⟨hcost, rfl⟩),
    failIf_bind (not_lt.2 h.pays.cost_le), wrapErr_bind hsub, get_bind]
  exact bind_eq_error_of (failIf_of _ h.taken _)

theorem Reregisters.accounts_ne (h : Reregisters now tx s m sender) :
    ∃ e s', applyTransaction now tx s = .error e s' ∧ e.isPanic = false ∧
      s'.accounts ≠ s.accounts := by
  obtain ⟨bal, hbal, hrun⟩ := h.run
  refine ⟨_, _, hrun, rfl, fun haccounts => ?_⟩
  have hafter : s.accounts[tx.sender]? = some { sender with balance := bal } := by
    rw [← haccounts]
    exact get_setAccount_self _ _ _
  have hsame : sender.balance = bal :=
    congrArg Account.balance (Option.some.inj (h.found.symm.trans hafter))
  have hpos := h.pays.stake_ge
  rw [hsame] at hbal
  omega

/-- An error leaves no trace, unless a validator is registered again. -/
theorem atomic_iff (now : UInt64) (tx : Transaction) (s : InMemoryState) :
    (∀ e s', applyTransaction now tx s = .error e s' → e.isPanic = false →
      s'.accounts = s.accounts ∧ s'.kvstore = s.kvstore) ↔
    ¬ ∃ m sender, Reregisters now tx s m sender := by
  constructor
  · rintro h ⟨m, sender, hre⟩
    obtain ⟨e, s', hrun, hpanic, hne⟩ := hre.accounts_ne
    exact hne (h e s' hrun hpanic).1
  · intro h e s' hrun hpanic
    rcases applyTransaction_error hrun hpanic with rfl | hre
    · exact ⟨rfl, rfl⟩
    · exact absurd hre h

end

/-! ### A sample registration -/

def sampleRegistration : Transaction :=
  { samplePayment with
    payload := List.replicate 52 0 ++ putUint64 100000 ++ putUint64 0
    txType := txTypeValidatorRegistration }

def sampleStaker : Account :=
  { newAccount zeroAddress (FixedBytes.zero 32) with balance := .ofUInt64 200000 }

open Sample

def sampleTaken : InMemoryState :=
  (newInMemoryState.setAccount zeroAddress sampleStaker).setBytes
    (validatorKey (deriveConsensusID (FixedBytes.zero 32).bytes)) []

theorem sampleRegistration_reregisters : Reregisters 0 sampleRegistration sampleTaken
    ⟨zeroAddress, FixedBytes.zero 32, 100000, 0⟩ sampleStaker where
  type_eq := rfl
  valid := by decide +kernel
  found := by decide +kernel
  verified := by decide +kernel
  nonce_eq := by decide
  pays := ⟨by decide +kernel, rfl, by decide, by decide, by decide⟩
  taken := by decide +kernel

theorem failed_registration_takes_stake : ¬ ∀ (_ : Crypto) (now : UInt64) (tx : Transaction)
    (s s' : InMemoryState) (e : Error), applyTransaction now tx s = .error e s' →
      e.isPanic = false → s'.accounts = s.accounts ∧ s'.kvstore = s.kvstore := by
  intro h
  obtain ⟨e, s', hrun, hpanic, hne⟩ := sampleRegistration_reregisters.accounts_ne
  exact hne (h sampleCrypto 0 _ _ s' e hrun hpanic).1

end Dsn
