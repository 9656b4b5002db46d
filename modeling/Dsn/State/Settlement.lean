import Dsn.State.Atomicity
import Dsn.State.Supply

/-!
# When a transaction can be applied

`Ready` lists the conditions under which `ApplyTransaction` succeeds on a ledger.
-/

namespace Dsn

open Go InMemoryState

/-! ### What a transaction moves -/

def Transaction.moved (tx : Transaction) : Option (Address × UInt64) :=
  if tx.txType = txTypeStandard then tx.transfer else none

def Transaction.outgo (tx : Transaction) : ℕ :=
  tx.maxFee.toNat + (tx.moved.elim 0 fun e => e.2.toNat) + stakeOf tx

/-! ### The ledger of a state -/

def keyOf (s : InMemoryState) (a : Address) : Option PublicKey :=
  (s.accounts[a]?).map Account.publicKey

def nonceOf (s : InMemoryState) (a : Address) : ℕ := (s.accountOrNew a).nonce.toNat

def balanceOf (s : InMemoryState) (a : Address) : ℤ := (s.accountOrNew a).balance.val

def bondedIn (s : InMemoryState) : ℕ :=
  match s.getBytes keyTotalBonded with
  | none => 0
  | some b => match Amount.unmarshalBinary b with
    | .ok a => a.val
    | .error _ => 0

def takenIn (s : InMemoryState) : Set Address :=
  {id | (s.getBytes (validatorKey id)).isSome}

def Readable (s : InMemoryState) : Prop :=
  (∃ epoch, getCurrentEpoch s = .ok epoch) ∧ ∃ count, nextValidatorCount s = .ok count

namespace Transaction

def Verified [Crypto] (tx : Transaction) (key : Address → Option PublicKey) : Prop :=
  ∃ pk, key tx.sender = some pk ∧ ed25519Verify pk tx.intentID.bytes tx.signature = true

def Affordable (tx : Transaction) (balance : Address → ℤ) : Prop :=
  tx.outgo ≤ balance tx.sender ∧
    ∀ r v, tx.moved = some (r, v) → balance r + v.toNat < 2 ^ 128

def Registrable [Crypto] (tx : Transaction) (taken : Set Address) (bonded : ℕ)
    (readable : Prop) : Prop :=
  tx.txType = txTypeValidatorRegistration → ∃ m, tx.validatorRegistration = .ok m ∧
    m.address = tx.sender ∧ 100000 ≤ m.stake.toNat ∧ m.commission.toNat ≤ 10000 ∧ readable ∧
    deriveConsensusID m.pubKey.bytes ∉ taken ∧ bonded + m.stake.toNat < 2 ^ 128

def Ready [Crypto] (tx : Transaction) (s : InMemoryState) : Prop :=
  tx.Verified (keyOf s) ∧ tx.nonce.toNat = nonceOf s tx.sender + 1 ∧
    tx.Affordable (balanceOf s) ∧ tx.Registrable (takenIn s) (bondedIn s) (Readable s)

end Transaction

/-! ### The operations on the ledger -/

variable {s s' : InMemoryState} {addr : Address}

theorem keyOf_setAccount (acc : Account) :
    keyOf (s.setAccount addr acc) = Function.update (keyOf s) addr (some acc.publicKey) := by
  funext a
  by_cases h : a = addr
  · subst h
    rw [Function.update_self, keyOf, get_setAccount_self, Option.map_some]
  · rw [Function.update_of_ne h, keyOf, get_setAccount_of_ne h, keyOf]

theorem accountOrNew_setAccount {β : Type} (f : Account → β) (acc : Account) :
    (fun a => f ((s.setAccount addr acc).accountOrNew a)) =
      Function.update (fun a => f (s.accountOrNew a)) addr (f acc) := by
  funext a
  by_cases h : a = addr
  · subst h
    rw [Function.update_self, accountOrNew_of_get (get_setAccount_self _ _ _)]
  · rw [Function.update_of_ne h, accountOrNew, get_setAccount_of_ne h, accountOrNew]

theorem balanceOf_setAccount (acc : Account) : balanceOf (s.setAccount addr acc) =
    Function.update (balanceOf s) addr (acc.balance.val : ℤ) :=
  accountOrNew_setAccount (fun acc => (acc.balance.val : ℤ)) acc

variable {acc : Account}

section

variable (h : s.accounts[addr]? = some acc)
include h

theorem keyOf_of_get : keyOf s addr = some acc.publicKey := by
  rw [keyOf, h, Option.map_some]

theorem nonceOf_of_get : nonceOf s addr = acc.nonce.toNat := by
  rw [nonceOf, accountOrNew_of_get h]

theorem balanceOf_of_get : balanceOf s addr = acc.balance.val := by
  rw [balanceOf, accountOrNew_of_get h]

end

theorem update_add_single (b : Address → ℤ) (addr : Address) (v : ℤ) :
    Function.update b addr (b addr + v) = b + Pi.single addr v := by
  funext a
  by_cases h : a = addr
  · subst h
    simp
  · simp [h]

theorem accountOrNew_publicKey (s : InMemoryState) (addr : Address) :
    (s.accountOrNew addr).publicKey = (keyOf s addr).getD (FixedBytes.zero 32) := by
  unfold accountOrNew keyOf
  cases s.accounts[addr]? <;> rfl

theorem credit_ok (amount : Amount) (h : balanceOf s addr + amount.val < 2 ^ 128) :
    ∃ t, credit addr amount s = .ok () t :=
  ⟨_, credit_eq_ok.2 ⟨⟨_, by unfold balanceOf at h; exact_mod_cast h⟩, rfl, rfl⟩⟩

variable {amount : Amount} {u : Unit}

section

variable (h : credit addr amount s = .ok u s')
include h

theorem credit_lt : balanceOf s addr + amount.val < 2 ^ 128 := by
  obtain ⟨bal, hbal, -⟩ := credit_eq_ok.1 h
  have := bal.lt
  unfold balanceOf
  exact_mod_cast hbal ▸ this

theorem keyOf_credit : keyOf s' =
      Function.update (keyOf s) addr (some ((keyOf s addr).getD (FixedBytes.zero 32))) := by
  obtain ⟨bal, -, rfl⟩ := credit_eq_ok.1 h
  rw [keyOf_setAccount, accountOrNew_publicKey]

theorem balanceOf_credit : balanceOf s' = balanceOf s + Pi.single addr (amount.val : ℤ) := by
  obtain ⟨bal, hbal, rfl⟩ := credit_eq_ok.1 h
  have hsum : (bal.val : ℤ) = balanceOf s addr + amount.val := by
    rw [balanceOf]
    exact_mod_cast hbal.symm
  rw [balanceOf_setAccount, hsum, update_add_single]

end

variable [Crypto]

/-! ### The transfer -/

variable {tx : Transaction} {sender : Account} {r : Address} {v : UInt64}

theorem applyTransfer_of_none (h : tx.transfer = none) (fee : Amount) :
    applyTransfer tx sender fee s = .ok () s := by
  unfold Transaction.transfer at h
  split_ifs at h with hlen
  unfold applyTransfer
  rw [if_neg hlen]
  rfl

theorem applyTransfer_of_some (h : tx.transfer = some (r, v)) :
    applyTransfer tx sender (.ofUInt64 tx.maxFee) s = .ok u s' ↔
      tx.maxFee.toNat + v.toNat ≤ sender.balance.val ∧ ∃ t,
        credit r (.ofUInt64 v) s = .ok () t ∧ subBalance tx.sender (.ofUInt64 v) t = .ok () s' := by
  unfold Transaction.transfer at h
  split_ifs at h with hlen
  obtain ⟨rfl, rfl⟩ := Prod.mk.inj (Option.some.inj h)
  unfold applyTransfer
  rw [if_pos hlen]
  simp only [wrapErr_bind_eq_ok, ofResult_bind_eq_ok, failIf_bind_eq_ok, Amount.add_eq_ok, not_lt]
  constructor
  · rintro ⟨cost, hcost, hle, h⟩
    obtain ⟨_, t, hcredit, hsub⟩ := bind_eq_ok.1 h
    exact ⟨hcost ▸ hle, t, hcredit, hsub⟩
  · rintro ⟨hle, t, hcredit, hsub⟩
    exact ⟨⟨_, hle.trans_lt sender.balance.lt⟩, rfl, hle, bind_eq_ok.2 ⟨_, t, hcredit, hsub⟩⟩

theorem subBalance_ok_of_le (hkey : (keyOf s addr).isSome)
    (h : (amount.val : ℤ) ≤ balanceOf s addr) : ∃ t, subBalance addr amount s = .ok () t := by
  obtain ⟨pk, hpk⟩ := Option.isSome_iff_exists.1 hkey
  obtain ⟨acc, hacc, -⟩ := Option.map_eq_some_iff.1 hpk
  rw [balanceOf_of_get hacc] at h
  obtain ⟨bal, -, hsub⟩ := subBalance_ok amount hacc (by exact_mod_cast h)
  exact ⟨_, hsub⟩

theorem applyTransfer_ok_iff (hfound : s.accounts[tx.sender]? = some sender)
    (h : tx.transfer = some (r, v)) :
    (∃ s', applyTransfer tx sender (.ofUInt64 tx.maxFee) s = .ok () s') ↔
      tx.maxFee.toNat + v.toNat ≤ sender.balance.val ∧ balanceOf s r + v.toNat < 2 ^ 128 := by
  simp only [applyTransfer_of_some h]
  constructor
  · rintro ⟨s', hle, t, hcredit, -⟩
    have hlt := credit_lt hcredit
    rw [Amount.ofUInt64_val] at hlt
    exact ⟨hle, hlt⟩
  · rintro ⟨hle, hlt⟩
    obtain ⟨t, hcredit⟩ := credit_ok (.ofUInt64 v) hlt
    -- the credit leaves the sender no less than it had
    have hkey : (keyOf t tx.sender).isSome := by
      rw [keyOf_credit hcredit]
      by_cases hr : tx.sender = r
      · rw [hr, Function.update_self, Option.isSome_some]
      · rw [Function.update_of_ne hr, keyOf_of_get hfound, Option.isSome_some]
    have hbal : (v.toNat : ℤ) ≤ balanceOf t tx.sender := by
      rw [balanceOf_credit hcredit, Pi.add_apply, balanceOf_of_get hfound, Amount.ofUInt64_val,
        Pi.single_apply]
      split_ifs <;> omega
    obtain ⟨s', hsub⟩ := @subBalance_ok_of_le _ _ (.ofUInt64 v) _ hkey hbal
    exact ⟨s', hle, t, hcredit, hsub⟩

/-! ### The registration -/

variable {m : ValidatorRegistrationMsg} {epoch count : UInt64} {total : Amount}
  {s1 s2 : InMemoryState}

theorem Registered.run (h : Registered tx sender s s' m epoch count total s1 s2) :
    applyRegistration tx sender (.ofUInt64 tx.maxFee) s = .ok () s' := by
  have hcost : (Amount.ofUInt64 tx.maxFee).add (.ofUInt64 m.stake) =
      .ok ⟨tx.maxFee.toNat + m.stake.toNat, h.pays.cost_le.trans_lt sender.balance.lt⟩ :=
    Amount.add_eq_ok.2 rfl
  unfold applyRegistration
  rw [wrapErr_bind (ofResult_eq_ok.2 ⟨h.pays.decoded, rfl⟩),
    failIf_bind (not_not.2 h.pays.address_eq), failIf_bind (not_lt.2 h.pays.stake_ge),
    failIf_bind (not_lt.2 h.pays.commission_le), wrapErr_bind (ofResult_eq_ok.2 ⟨hcost, rfl⟩),
    failIf_bind (not_lt.2 h.pays.cost_le), wrapErr_bind h.stake, get_bind,
    failIf_bind (by simp [h.free]), asks_bind h.epoch_eq, modify_bind, modify_bind, modify_bind]
  have hcount := h.count_eq
  have htotal := h.total_eq
  rw [h.stored] at hcount htotal
  unfold storeRegistration at hcount htotal
  rw [asks_bind hcount, modify_bind, asks_bind htotal, h.after, h.stored]
  rfl

variable {key : Bytes}

theorem getBytes_storeRegistration_of_ne
    (hid : key ≠ validatorKey (deriveConsensusID m.pubKey.bytes))
    (hpub : key ≠ validatorPubkeyKey m.pubKey) (hop : key ≠ validatorOperatorKey tx.sender) :
    (storeRegistration tx m epoch s).getBytes key = s.getBytes key := by
  unfold storeRegistration
  rw [getBytes_setBytes_of_ne hop.symm, getBytes_setBytes_of_ne hpub.symm,
    getBytes_setBytes_of_ne hid.symm]

theorem getBytes_storeRegistration_count :
    (storeRegistration tx m epoch s).getBytes keyValidatorCount = s.getBytes keyValidatorCount :=
  getBytes_storeRegistration_of_ne (validatorKey_ne_count _).symm
    (validatorPubkeyKey_ne_count _).symm (validatorOperatorKey_ne_count _).symm

theorem getBytes_storeRegistration_of_not_starts (h : ¬ str "validator/" <+: key) :
    (storeRegistration tx m epoch s).getBytes key = s.getBytes key := by
  refine getBytes_storeRegistration_of_ne (ne_validatorKey_of_not_starts h _) ?_ ?_
  · rintro rfl
    exact h ((by decide : str "validator/" <+: str "validator/pubkey/").trans
      (List.prefix_append _ _))
  · rintro rfl
    exact h ((by decide : str "validator/" <+: str "validator/operator/").trans
      (List.prefix_append _ _))

omit [Crypto] in
theorem nextTotalBonded_eq_ok :
    nextTotalBonded amount s = .ok total ↔ bondedIn s + amount.val = total.val := by
  have hsum (a : Amount) : (match a.add amount with
      | .ok a => .ok a
      | .error _ => .error (.panic "nil pointer dereference") : Except Error Amount) = .ok total ↔
        a.val + amount.val = total.val := by
    rw [← Amount.add_eq_ok]
    cases a.add amount <;> simp
  unfold nextTotalBonded bondedIn
  dsimp only
  cases s.getBytes keyTotalBonded with
  | none => exact hsum _
  | some b =>
    dsimp only
    cases Amount.unmarshalBinary b with
    | ok a => exact hsum a
    | error e => exact hsum _

theorem bondedIn_storeRegistration : bondedIn ((storeRegistration tx m epoch s).setBytes
    keyValidatorCount (putUint64 count)) = bondedIn s := by
  unfold bondedIn
  rw [getBytes_setBytes_of_ne (by decide), getBytes_storeRegistration_of_not_starts (by decide)]

section

variable (h : Registered tx sender s s' m epoch count total s1 s2)
include h

theorem Registered.bonded_add : bondedIn s + m.stake.toNat = total.val := by
  obtain ⟨acc, bal, -, -, rfl⟩ := subBalance_eq_ok.1 h.stake
  have htotal := nextTotalBonded_eq_ok.1 h.total_eq
  rw [h.stored, bondedIn_storeRegistration] at htotal
  exact htotal

theorem Registered.readable : Readable s := by
  obtain ⟨acc, bal, -, -, rfl⟩ := subBalance_eq_ok.1 h.stake
  have hcount := h.count_eq
  rw [h.stored] at hcount
  refine ⟨⟨epoch, h.epoch_eq⟩, count, ?_⟩
  unfold nextValidatorCount at hcount ⊢
  rwa [getBytes_storeRegistration_count] at hcount

end

theorem applyRegistration_ok_iff (hfound : s.accounts[tx.sender]? = some sender) :
    (∃ s', applyRegistration tx sender (.ofUInt64 tx.maxFee) s = .ok () s') ↔
      ∃ m, PaysStake tx m sender ∧ Readable s ∧
        deriveConsensusID m.pubKey.bytes ∉ takenIn s ∧ bondedIn s + m.stake.toNat < 2 ^ 128 := by
  constructor
  · rintro ⟨s', h⟩
    obtain ⟨m, epoch, count, total, s1, s2, hreg⟩ := applyRegistration_eq_ok h
    refine ⟨m, hreg.pays, hreg.readable, fun htaken => ?_, hreg.bonded_add ▸ total.lt⟩
    obtain ⟨acc, bal, -, -, rfl⟩ := subBalance_eq_ok.1 hreg.stake
    exact Bool.false_ne_true (hreg.free.symm.trans htaken)
  · rintro ⟨m, hpays, ⟨⟨epoch, hepoch⟩, count, hcount⟩, hfree, hlt⟩
    obtain ⟨bal, -, hsub⟩ := subBalance_ok (.ofUInt64 m.stake) hfound
      ((Nat.le_add_left _ _).trans hpays.cost_le)
    have hcount' : nextValidatorCount (storeRegistration tx m (epoch + 1)
        (s.setAccount tx.sender { sender with balance := bal })) = .ok count := by
      unfold nextValidatorCount at hcount ⊢
      rwa [getBytes_storeRegistration_count]
    have htotal : nextTotalBonded (.ofUInt64 m.stake) ((storeRegistration tx m (epoch + 1)
        (s.setAccount tx.sender { sender with balance := bal })).setBytes keyValidatorCount
          (putUint64 count)) = .ok ⟨bondedIn s + m.stake.toNat, hlt⟩ := by
      rw [nextTotalBonded_eq_ok, bondedIn_storeRegistration]
      rfl
    exact ⟨_, Registered.run ⟨hpays, hsub, Bool.eq_false_iff.2 hfree, hepoch, rfl, hcount', htotal,
      rfl⟩⟩

/-! ### The payload -/

section

omit [Crypto]

theorem moved_of_ne (h : tx.txType ≠ txTypeStandard) : tx.moved = none := if_neg h

theorem moved_of_standard (h : tx.txType = txTypeStandard) : tx.moved = tx.transfer := if_pos h

theorem stakeOf_of_ne (h : tx.txType ≠ txTypeValidatorRegistration) : stakeOf tx = 0 := if_neg h

theorem stakeOf_of_decoded (h : tx.txType = txTypeValidatorRegistration)
    (hm : tx.validatorRegistration = .ok m) : stakeOf tx = m.stake.toNat := by
  rw [stakeOf, if_pos h, hm]

end

theorem applyPayload_ok_iff (hfound : s.accounts[tx.sender]? = some sender) :
    (tx.maxFee.toNat ≤ sender.balance.val ∧
      ∃ s', applyPayload tx sender (.ofUInt64 tx.maxFee) s = .ok () s') ↔
    tx.Affordable (balanceOf s) ∧ tx.Registrable (takenIn s) (bondedIn s) (Readable s) := by
  unfold Transaction.Affordable Transaction.Registrable Transaction.outgo
  rw [balanceOf_of_get hfound]
  by_cases hstd : tx.txType = txTypeStandard
  · have hreg : tx.txType ≠ txTypeValidatorRegistration := by rw [hstd]; decide
    rw [moved_of_standard hstd, stakeOf_of_ne hreg, applyPayload, if_pos hstd]
    cases hmoved : tx.transfer with
    | none =>
      have hok : ∃ s', applyTransfer tx sender (.ofUInt64 tx.maxFee) s = .ok () s' :=
        ⟨s, applyTransfer_of_none hmoved _⟩
      simp [hok, hreg]
    | some e =>
      obtain ⟨r, v⟩ := e
      rw [applyTransfer_ok_iff hfound hmoved]
      constructor
      · rintro ⟨-, hle, hlt⟩
        refine ⟨⟨by exact_mod_cast hle, ?_⟩, fun h => absurd h hreg⟩
        rintro r' v' ⟨⟩
        exact hlt
      · rintro ⟨⟨hle, hlt⟩, -⟩
        have hle : tx.maxFee.toNat + v.toNat ≤ sender.balance.val := by exact_mod_cast hle
        exact ⟨(Nat.le_add_right _ _).trans hle, hle, hlt r v rfl⟩
  · by_cases hreg : tx.txType = txTypeValidatorRegistration
    · rw [moved_of_ne hstd, applyPayload, if_neg hstd, if_pos hreg,
        applyRegistration_ok_iff hfound]
      constructor
      · rintro ⟨-, m, hpays, hread, hfree, hlt⟩
        refine ⟨⟨?_, fun r v h => by cases h⟩, fun _ => ⟨m, hpays.decoded, hpays.address_eq,
          hpays.stake_ge, hpays.commission_le, hread, hfree, hlt⟩⟩
        rw [stakeOf_of_decoded hreg hpays.decoded]
        exact_mod_cast hpays.cost_le
      · rintro ⟨⟨hle, -⟩, h⟩
        obtain ⟨m, hm, haddr, hstake, hcomm, hread, hfree, hlt⟩ := h hreg
        rw [stakeOf_of_decoded hreg hm] at hle
        have hle : tx.maxFee.toNat + m.stake.toNat ≤ sender.balance.val := by exact_mod_cast hle
        exact ⟨(Nat.le_add_right _ _).trans hle, m, ⟨hm, haddr, hstake, hcomm, hle⟩, hread, hfree,
          hlt⟩
    · have hok : ∃ s', applyPayload tx sender (.ofUInt64 tx.maxFee) s = .ok () s' :=
        ⟨s, by rw [applyPayload, if_neg hstd, if_neg hreg]; rfl⟩
      rw [moved_of_ne hstd, stakeOf_of_ne hreg]
      simp [hok, hreg]

/-! ### The whole transaction -/

variable {now : UInt64}

theorem applyTransaction_ok_iff (hvalid : tx.validate now = .ok ()) :
    (∃ receipt s', applyTransaction now tx s = .ok receipt s') ↔ tx.Ready s := by
  constructor
  · rintro ⟨receipt, s', h⟩
    obtain ⟨-, sender, s1, s2, happ⟩ := applyTransaction_eq_ok.1 h
    refine ⟨⟨_, keyOf_of_get happ.found, happ.verified⟩, ?_,
      (applyPayload_ok_iff happ.found).1 ⟨happ.fee_le, s1, happ.payload⟩⟩
    rw [nonceOf_of_get happ.found]
    exact happ.nonce_toNat
  · rintro ⟨⟨pk, hkey, hverified⟩, hnonce, hafford⟩
    obtain ⟨sender, hfound, rfl⟩ := Option.map_eq_some_iff.1 hkey
    obtain ⟨hfee, s1, hpay⟩ := (applyPayload_ok_iff hfound).2 hafford
    obtain ⟨acc, hacc, hle⟩ := applyPayload_covers_fee hfound hfee hpay
    obtain ⟨s2, s', hsub, hbump⟩ := charge_ok hacc hle
    refine ⟨_, s', applyTransaction_eq_ok.2 ⟨rfl, sender, s1, s2, hvalid, hfound, hverified, ?_,
      hfee, hpay, hsub, hbump⟩⟩
    rw [nonceOf_of_get hfound] at hnonce
    have hlt := tx.nonce.toNat_lt
    refine UInt64.toNat_inj.1 ?_
    rw [hnonce, UInt64.toNat_add]
    exact (Nat.mod_eq_of_lt (hnonce ▸ hlt)).symm

end Dsn
