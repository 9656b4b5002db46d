import Dsn.State.Applier

/-!
# What a standard transaction does to the ledger

Who pays, who receives, and that nobody else is touched.
-/

namespace Dsn

open Go InMemoryState

def Transaction.transfer (tx : Transaction) : Option (Address × UInt64) :=
  if tx.payload.length ≥ 28 then some (transferPayload tx.payload) else none

def Transaction.sent (tx : Transaction) : ℕ :=
  match tx.transfer with
  | some (r, v) => if r = tx.sender then 0 else v.toNat
  | none => 0

section

variable [Crypto] {now : UInt64} {tx : Transaction} {s s' s₁ s₂ : InMemoryState} {sender : Account}

/-! ### The fee and the nonce -/

theorem Applied.charged (h : Applied now tx s s' sender s₁ s₂) : ∃ acc bal,
    s₁.accounts[tx.sender]? = some acc ∧ acc.balance.val = bal.val + tx.maxFee.toNat ∧
      s'.accounts[tx.sender]? = some { acc with balance := bal, nonce := acc.nonce + 1 } ∧
      (∀ a, a ≠ tx.sender → s'.accounts[a]? = s₁.accounts[a]?) ∧ s'.kvstore = s₁.kvstore := by
  obtain ⟨acc, bal, hacc, hbal, rfl⟩ := subBalance_eq_ok.1 h.fee
  obtain ⟨acc2, hacc2, rfl⟩ := incrementNonce_eq_ok.1 h.bump
  obtain rfl : { acc with balance := bal } = acc2 := by simpa using hacc2
  refine ⟨acc, bal, hacc, hbal, get_setAccount_self _ _ _, fun a ha => ?_, rfl⟩
  rw [get_setAccount_of_ne ha, get_setAccount_of_ne ha]

/-! ### The transfer -/

variable {fee : Amount} {u : Unit}

theorem applyTransfer_eq_ok (h : applyTransfer tx sender fee s = .ok u s') :
    (tx.transfer = none ∧ s' = s) ∨ ∃ r v t, tx.transfer = some (r, v) ∧
      credit r (.ofUInt64 v) s = .ok () t ∧ subBalance tx.sender (.ofUInt64 v) t = .ok () s' := by
  unfold applyTransfer at h
  unfold Transaction.transfer
  split_ifs at h ⊢ with hlen
  · simp only [bind_eq_ok, wrapErr_eq_ok, ofResult_eq_ok, failIf_eq_ok] at h
    obtain ⟨_, _, ⟨-, rfl⟩, _, _, ⟨-, rfl⟩, _, t, hcredit, hsub⟩ := h
    exact .inr ⟨_, _, t, rfl, hcredit, hsub⟩
  · exact .inl ⟨rfl, (pure_eq_ok.1 h).2.symm⟩

theorem applyTransfer_cost_le (hfee : tx.maxFee.toNat ≤ sender.balance.val)
    (h : applyTransfer tx sender (.ofUInt64 tx.maxFee) s = .ok u s') :
    tx.maxFee.toNat + tx.sent ≤ sender.balance.val := by
  unfold applyTransfer at h
  unfold Transaction.sent Transaction.transfer
  split_ifs at h ⊢ with hlen
  · simp only [bind_eq_ok, wrapErr_eq_ok, ofResult_eq_ok, failIf_eq_ok] at h
    obtain ⟨cost, _, ⟨hcost, -⟩, _, _, ⟨hle, -⟩, -⟩ := h
    have hsum : tx.maxFee.toNat + (transferPayload tx.payload).2.toNat = cost.val :=
      Amount.add_eq_ok.1 hcost
    dsimp only
    split_ifs <;> omega
  · exact hfee

structure Transferred (tx : Transaction) (sender : Account) (s s' : InMemoryState) : Prop where
  sender_after : ∃ bal, s'.accounts[tx.sender]? = some { sender with balance := bal } ∧
    bal.val + tx.sent = sender.balance.val
  recipient_after : ∀ r v, tx.transfer = some (r, v) → r ≠ tx.sender → ∃ bal,
    s'.accounts[r]? = some { s.accountOrNew r with balance := bal } ∧
      bal.val = (s.accountOrNew r).balance.val + v.toNat
  others : ∀ a, a ≠ tx.sender → (∀ v, tx.transfer ≠ some (a, v)) →
    s'.accounts[a]? = s.accounts[a]?
  kvstore_eq : s'.kvstore = s.kvstore

omit [Crypto] in
theorem transferred_of_none (hfound : s.accounts[tx.sender]? = some sender)
    (h : tx.transfer = none) : Transferred tx sender s s where
  sender_after := ⟨sender.balance, hfound, by simp [Transaction.sent, h]⟩
  recipient_after r v hrv := by rw [h] at hrv; cases hrv
  others _ _ _ := rfl
  kvstore_eq := rfl

theorem transferred_of_ok (hfound : s.accounts[tx.sender]? = some sender)
    (h : applyTransfer tx sender fee s = .ok u s') : Transferred tx sender s s' := by
  rcases applyTransfer_eq_ok h with ⟨hnone, rfl⟩ | ⟨r, v, t, hrv, hcredit, hsub⟩
  · exact transferred_of_none hfound hnone
  obtain ⟨bal, hbal, rfl⟩ := credit_eq_ok.1 hcredit
  obtain ⟨acc, bal', hacc, hbal', rfl⟩ := subBalance_eq_ok.1 hsub
  change _ = bal'.val + v.toNat at hbal'
  change _ + v.toNat = bal.val at hbal
  have hsent : tx.sent = if r = tx.sender then 0 else v.toNat := by
    simp [Transaction.sent, hrv]
  by_cases hr : r = tx.sender
  · -- the sender is its own recipient: the credit and the debit cancel
    subst hr
    rw [accountOrNew_of_get hfound] at hbal hacc
    obtain rfl : { sender with balance := bal } = acc := by simpa using hacc
    refine ⟨⟨bal', get_setAccount_self _ _ _, ?_⟩, ?_, ?_, rfl⟩
    · rw [hsent, if_pos rfl]
      change bal.val = _ at hbal'
      omega
    · intro r' v' hrv' hne
      cases hrv.symm.trans hrv'
      exact absurd rfl hne
    · intro a ha _
      rw [get_setAccount_of_ne ha, get_setAccount_of_ne ha]
  · have hne : tx.sender ≠ r := fun h' => hr h'.symm
    rw [get_setAccount_of_ne hne, hfound] at hacc
    cases hacc
    refine ⟨⟨bal', get_setAccount_self _ _ _, ?_⟩, ?_, ?_, rfl⟩
    · rw [hsent, if_neg hr]
      omega
    · intro r' v' hrv' hne'
      cases hrv.symm.trans hrv'
      refine ⟨bal, ?_, hbal.symm⟩
      rw [get_setAccount_of_ne hne', get_setAccount_self]
    · intro a ha hav
      have har : a ≠ r := fun h' => hav v (h' ▸ hrv)
      rw [get_setAccount_of_ne ha, get_setAccount_of_ne har]

/-! ### The whole transaction -/

section

variable (htype : tx.txType = txTypeStandard)
include htype

theorem Applied.transferred (h : Applied now tx s s' sender s₁ s₂) :
    Transferred tx sender s s₁ := by
  have hpay := h.payload
  rw [applyPayload, if_pos htype] at hpay
  exact transferred_of_ok h.found hpay

theorem balances_of_transfer {receipt : Hash} (h : applyTransaction now tx s = .ok receipt s') :
    (s'.accountOrNew tx.sender).balance.val + (tx.maxFee.toNat + tx.sent) =
        (s.accountOrNew tx.sender).balance.val ∧
      ∀ r v, tx.transfer = some (r, v) → r ≠ tx.sender →
        (s'.accountOrNew r).balance.val = (s.accountOrNew r).balance.val + v.toNat := by
  obtain ⟨-, sender, s₁, s₂, happ⟩ := applyTransaction_eq_ok.1 h
  have hmove := happ.transferred htype
  obtain ⟨acc, bal, hacc, hbal, hafter, hframe, -⟩ := happ.charged
  constructor
  · obtain ⟨bal1, hacc1, hsent⟩ := hmove.sender_after
    obtain rfl : { sender with balance := bal1 } = acc := Option.some.inj (hacc1.symm.trans hacc)
    change bal1.val = _ at hbal
    rw [accountOrNew_of_get hafter, accountOrNew_of_get happ.found]
    dsimp only
    omega
  · intro r v hrv hr
    obtain ⟨bal1, hacc1, hgain⟩ := hmove.recipient_after r v hrv hr
    rw [accountOrNew_of_get ((hframe r hr).trans hacc1)]
    exact hgain

theorem applyTransaction_append_payload {payload rest : Bytes} (hlen : 28 ≤ payload.length)
    (s : InMemoryState) :
    applyTransaction now { tx with payload := payload ++ rest } s =
      applyTransaction now { tx with payload := payload } s := by
  have hread : transferPayload (payload ++ rest) = transferPayload payload := by
    unfold transferPayload
    rw [List.take_append_of_le_length (by omega), List.drop_append_of_le_length (by omega),
      List.take_append_of_le_length (by rw [List.length_drop]; omega)]
  have hlong : (payload ++ rest).length ≥ 28 := by
    rw [List.length_append]
    omega
  have hpay (acc : Account) (fee : Amount) :
      applyPayload { tx with payload := payload ++ rest } acc fee =
        applyPayload { tx with payload := payload } acc fee := by
    unfold applyPayload applyTransfer
    dsimp only
    rw [if_pos htype, if_pos htype, if_pos hlong, if_pos (show payload.length ≥ 28 from hlen),
      hread]
  unfold applyTransaction
  dsimp only
  simp only [hpay]
  rfl

end

/-- Effect and frame of a standard transaction. -/
theorem transfer_effect {receipt : Hash} (htype : tx.txType = txTypeStandard)
    (h : applyTransaction now tx s = .ok receipt s') :
    (∃ acc acc', s.accounts[tx.sender]? = some acc ∧ s'.accounts[tx.sender]? = some acc' ∧
      acc'.balance.val + (tx.maxFee.toNat + tx.sent) = acc.balance.val ∧
      acc'.nonce.toNat = acc.nonce.toNat + 1 ∧
      acc' = { acc with balance := acc'.balance, nonce := acc'.nonce }) ∧
    (∀ r v, tx.transfer = some (r, v) → r ≠ tx.sender → ∃ acc',
      s'.accounts[r]? = some acc' ∧
      acc'.balance.val = (s.accountOrNew r).balance.val + v.toNat ∧
      acc' = { s.accountOrNew r with balance := acc'.balance } ∧
      (s.accounts[r]? = none → acc'.nonce = 0)) ∧
    (∀ a, a ≠ tx.sender → (∀ v, tx.transfer ≠ some (a, v)) →
      s'.accounts[a]? = s.accounts[a]?) ∧
    s'.kvstore = s.kvstore := by
  obtain ⟨-, sender, s₁, s₂, happ⟩ := applyTransaction_eq_ok.1 h
  have hmove := happ.transferred htype
  obtain ⟨acc, bal, hacc, hbal, hafter, hframe, hkv⟩ := happ.charged
  refine ⟨?_, ?_, ?_, hkv.trans hmove.kvstore_eq⟩
  · obtain ⟨bal₁, hacc₁, hsent⟩ := hmove.sender_after
    obtain rfl : { sender with balance := bal₁ } = acc := Option.some.inj (hacc₁.symm.trans hacc)
    change bal₁.val = _ at hbal
    have hnonce := happ.nonce_toNat
    rw [happ.nonce_eq] at hnonce
    exact ⟨sender, _, happ.found, hafter, by dsimp only; omega, hnonce, rfl⟩
  · intro r v hrv hr
    obtain ⟨bal₁, hacc₁, hgain⟩ := hmove.recipient_after r v hrv hr
    refine ⟨_, (hframe r hr).trans hacc₁, hgain, rfl, fun hnone => ?_⟩
    simp [accountOrNew, hnone, newAccount]
  · intro a ha hav
    rw [hframe a ha, hmove.others a ha hav]

end

/-! ### A sample transfer -/

def sampleTransfer : Transaction :=
  { samplePayment with payload := 1 :: List.replicate 19 0 ++ putUint64 5 }

attribute [local instance] sampleCrypto in
theorem transfer_effect_sampleTransfer : ∃ receipt s',
    applyTransaction 0 sampleTransfer { newInMemoryState with accounts := sampleAccounts } =
      .ok receipt s' ∧
    ∃ acc', s'.accounts[(FixedBytes.copy 20 [1] : Address)]? = some acc' ∧
      acc'.balance.val = 5 ∧ acc'.nonce = 0 := by
  obtain ⟨receipt, s', h, -⟩ := exists_of_succeedsWith (show succeedsWith (fun _ _ => true)
    (applyTransaction 0 sampleTransfer { newInMemoryState with accounts := sampleAccounts }) = true
    by decide +kernel)
  obtain ⟨-, hrecipient, -⟩ := transfer_effect (by decide) h
  obtain ⟨acc', hacc', hbal, -, hnonce⟩ := hrecipient (FixedBytes.copy 20 [1]) 5
    (by decide +kernel) (by decide +kernel)
  have habsent : ({ newInMemoryState with accounts := sampleAccounts } : InMemoryState).accounts[
      (FixedBytes.copy 20 [1] : Address)]? = none := by decide +kernel
  refine ⟨receipt, s', h, acc', hacc', ?_, hnonce habsent⟩
  rw [hbal, accountOrNew, habsent]
  decide

end Dsn
