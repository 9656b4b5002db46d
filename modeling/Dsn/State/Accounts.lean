import Dsn.State.Applier

/-!
# Changes of the accounts

Relations between the accounts before and after, and which of them every credit keeps to.
-/

namespace Dsn

open Go InMemoryState

def Accounts (R : Address → Account → Account → Prop) (s s' : InMemoryState) : Prop :=
  ∀ a acc, s.accounts[a]? = some acc → ∃ acc', s'.accounts[a]? = some acc' ∧ R a acc acc'

variable {R : Address → Account → Account → Prop}

instance [∀ a, Std.Refl (R a)] : Std.Refl (Accounts R) :=
  ⟨fun _ _ acc h => ⟨acc, h, Std.Refl.refl acc⟩⟩

instance [∀ a, IsTrans Account (R a)] : IsTrans InMemoryState (Accounts R) := by
  refine ⟨fun s₁ s₂ s₃ h h' a acc hacc => ?_⟩
  obtain ⟨acc', hacc', hR⟩ := h a acc hacc
  obtain ⟨acc'', hacc'', hR'⟩ := h' a acc' hacc'
  exact ⟨acc'', hacc'', IsTrans.trans _ _ _ hR hR'⟩

def Credits (R : Address → Account → Account → Prop) (addr : Address) : Prop :=
  ∀ acc bal, acc.balance.val ≤ bal.val → R addr acc { acc with balance := bal }

def Debits (R : Address → Account → Account → Prop) (addr : Address) : Prop :=
  ∀ acc bal, bal.val ≤ acc.balance.val → R addr acc { acc with balance := bal }

section Rules

variable [∀ a, Std.Refl (R a)]

theorem Accounts.of_eq {s s' : InMemoryState} (h : s'.accounts = s.accounts) :
    Accounts R s s' := by
  intro a acc hacc
  exact ⟨acc, by rw [h, hacc], Std.Refl.refl acc⟩

variable {addr : Address}

theorem Accounts.setAccount {acc' : Account} {s : InMemoryState}
    (h : ∀ acc, s.accounts[addr]? = some acc → R addr acc acc') :
    Accounts R s (s.setAccount addr acc') := by
  intro a acc hacc
  by_cases ha : addr = a
  · subst ha
    exact ⟨acc', Map.get_insert_self _ _ _, h acc hacc⟩
  · exact ⟨acc, (Map.get_insert_of_ne _ ha _).trans hacc, Std.Refl.refl acc⟩

theorem setBytes_accounts (key value : Bytes) :
    Steps (Accounts R) (modify (setBytes key value) : Exec InMemoryState PUnit) :=
  Steps.modify fun _ => .of_eq rfl

theorem credit_accounts (h : Credits R addr) (amount : Amount) :
    Steps (Accounts R) (credit addr amount) := by
  refine Steps.of_atomic credit_atomic fun s _ s' hx => ?_
  obtain ⟨bal, hbal, rfl⟩ := credit_eq_ok.1 hx
  refine Accounts.setAccount fun acc hacc => ?_
  have hor : s.accountOrNew addr = acc := by simp [accountOrNew, hacc]
  rw [hor] at hbal ⊢
  exact h acc bal (by omega)

variable [Crypto]

theorem subBalance_accounts (h : Debits R addr) (amount : Amount) :
    Steps (Accounts R) (subBalance addr amount) := by
  refine Steps.of_atomic subBalance_atomic fun s _ s' hx => ?_
  obtain ⟨acc, bal, hacc, hbal, rfl⟩ := subBalance_eq_ok.1 hx
  refine Accounts.setAccount fun acc1 hacc1 => ?_
  obtain rfl : acc = acc1 := Option.some.inj (hacc.symm.trans hacc1)
  exact h acc bal (by omega)

variable [∀ a, IsTrans Account (R a)]

/-! ### Transactions -/

theorem applyPayload_accounts {tx : Transaction} (hc : ∀ a, Credits R a) (hd : Debits R tx.sender)
    (sender : Account) (fee : Amount) : Steps (Accounts R) (applyPayload tx sender fee) :=
  applyPayload_steps (fun a => credit_accounts (hc a)) (subBalance_accounts hd)
    (fun key _ => setBytes_accounts key) sender fee

end Rules

/-! ### Relations that the system transitions keep to -/

structure SystemRelation (Q : InMemoryState → InMemoryState → Prop) : Prop where
  stored : ∀ key value s, Q s (s.setBytes key value)
  removed : ∀ key s, Q s (s.deleteBytes key)
  credited : ∀ addr acc' s, (∀ acc, s.accounts[addr]? = some acc →
    ∃ bal, acc.balance.val ≤ bal.val ∧ acc' = { acc with balance := bal }) →
      Q s (s.setAccount addr acc')

namespace SystemRelation

variable {Q : InMemoryState → InMemoryState → Prop} (h : SystemRelation Q)
include h

theorem setBytes (key value : Bytes) :
    Steps Q (modify (setBytes key value) : Exec InMemoryState PUnit) :=
  Steps.modify fun s => h.stored key value s

theorem deleteBytes (key : Bytes) :
    Steps Q (modify (deleteBytes key) : Exec InMemoryState PUnit) :=
  Steps.modify fun s => h.removed key s

variable [Std.Refl Q]

theorem credit (addr : Address) (amount : Amount) : Steps Q (credit addr amount) := by
  refine Steps.of_atomic credit_atomic fun s _ s' hx => ?_
  obtain ⟨bal, hbal, rfl⟩ := credit_eq_ok.1 hx
  refine h.credited _ _ _ fun acc hacc => ?_
  have hor : s.accountOrNew addr = acc := by simp [accountOrNew, hacc]
  rw [hor] at hbal ⊢
  exact ⟨bal, by omega, rfl⟩

theorem addBalance [Crypto] (addr : Address) (amount : Amount) :
    Steps Q (addBalance addr amount) := by
  refine Steps.of_atomic addBalance_atomic fun s _ s' hx => ?_
  obtain ⟨acc, bal, hacc, hbal, rfl⟩ := addBalance_eq_ok.1 hx
  refine h.credited _ _ _ fun acc1 hacc1 => ?_
  obtain rfl : acc = acc1 := Option.some.inj (hacc.symm.trans hacc1)
  exact ⟨bal, by omega, rfl⟩

end SystemRelation

theorem accounts_systemRelation [∀ a, Std.Refl (R a)] (hc : ∀ a, Credits R a) :
    SystemRelation (Accounts R) where
  stored _ _ _ := .of_eq rfl
  removed _ _ := .of_eq rfl
  credited addr acc' s hcredit := by
    refine Accounts.setAccount fun acc hacc => ?_
    obtain ⟨bal, hbal, rfl⟩ := hcredit acc hacc
    exact hc addr acc bal hbal

/-! ### Two relations -/

def SameNonce (_ : Address) (acc acc' : Account) : Prop := acc'.nonce = acc.nonce

instance (a : Address) : Std.Refl (SameNonce a) := ⟨fun _ => rfl⟩

instance (a : Address) : IsTrans Account (SameNonce a) := ⟨fun _ _ _ h h' => h'.trans h⟩

theorem sameNonce_credits (a : Address) : Credits SameNonce a := fun _ _ _ => rfl

theorem sameNonce_debits (a : Address) : Debits SameNonce a := fun _ _ _ => rfl

def Spares (addr a : Address) (acc acc' : Account) : Prop :=
  a ≠ addr → acc.balance.val ≤ acc'.balance.val ∧ acc'.nonce = acc.nonce

instance (addr a : Address) : Std.Refl (Spares addr a) := ⟨fun _ _ => ⟨le_rfl, rfl⟩⟩

instance (addr a : Address) : IsTrans Account (Spares addr a) :=
  ⟨fun _ _ _ h h' ha => ⟨(h ha).1.trans (h' ha).1, (h' ha).2.trans (h ha).2⟩⟩

theorem spares_credits (addr a : Address) : Credits (Spares addr) a := fun _ _ h _ => ⟨h, rfl⟩

theorem spares_debits (addr : Address) : Debits (Spares addr) addr :=
  fun _ _ _ ha => absurd rfl ha

/-! ### What an applied transaction did to the accounts -/

variable [Crypto] {now : UInt64} {tx : Transaction} {s s' s₁ s₂ : InMemoryState} {sender : Account}
  (h : Applied now tx s s' sender s₁ s₂)
include h

theorem Applied.spares : Accounts (Spares tx.sender) s s' := by
  have hpay := (applyPayload_accounts (spares_credits tx.sender) (spares_debits tx.sender) sender
    _).of_ok h.payload
  have hfee := (subBalance_accounts (spares_debits tx.sender) _).of_ok h.fee
  obtain ⟨acc, hacc, rfl⟩ := incrementNonce_eq_ok.1 h.bump
  have hbump : Accounts (Spares tx.sender) s₂
      (s₂.setAccount tx.sender { acc with nonce := acc.nonce + 1 }) :=
    Accounts.setAccount fun _ _ ha => absurd rfl ha
  exact IsTrans.trans _ _ _ (IsTrans.trans _ _ _ hpay hfee) hbump

theorem Applied.nonce_after :
    ∃ acc', s'.accounts[tx.sender]? = some acc' ∧ acc'.nonce = sender.nonce + 1 := by
  have hpay := (applyPayload_accounts sameNonce_credits (sameNonce_debits tx.sender) sender
    _).of_ok h.payload
  have hfee := (subBalance_accounts (sameNonce_debits tx.sender) _).of_ok h.fee
  obtain ⟨acc2, hacc2, hnonce⟩ := (IsTrans.trans _ _ _ hpay hfee : Accounts SameNonce s s₂) _ _
    h.found
  obtain ⟨acc, hacc, rfl⟩ := incrementNonce_eq_ok.1 h.bump
  obtain rfl : acc = acc2 := Option.some.inj (hacc.symm.trans hacc2)
  refine ⟨_, Map.get_insert_self _ _ _, ?_⟩
  rw [show acc.nonce = sender.nonce from hnonce]

end Dsn
