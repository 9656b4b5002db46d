import Dsn.Sdk.TxBuilder
import Dsn.State.History
import Dsn.State.Settlement

/-!
# What a signature commits to

An intent ID is the hash of sender, nonce, payload and constraints, one behind the other. So it says
nothing of type, fee, gas limit and chain, and it does not say where the payload ends and the
constraints begin. `ApplyTransaction` verifies the signature of the ID that a transaction carries
and does not compute the ID again.
-/

namespace Dsn

open Go InMemoryState

def Transaction.intentBytes (tx : Transaction) : Bytes :=
  tx.sender.bytes ++ putUint64 tx.nonce ++ tx.payload ++ tx.constraints

/-- The terms to which a sender agrees. -/
structure SameTerms (tx tx' : Transaction) : Prop where
  sender : tx.sender = tx'.sender
  nonce : tx.nonce = tx'.nonce
  payload : tx.payload = tx'.payload
  constraints : tx.constraints = tx'.constraints
  txType : tx.txType = tx'.txType
  maxFee : tx.maxFee = tx'.maxFee
  gasLimit : tx.gasLimit = tx'.gasLimit
  chainID : tx.chainID = tx'.chainID

def Transaction.withSignatureOf (tx signed : Transaction) : Transaction :=
  { tx with intentID := signed.intentID, signature := signed.signature }

theorem intentBytes_eq_iff {tx tx' : Transaction} : tx.intentBytes = tx'.intentBytes ↔
    tx.sender = tx'.sender ∧ tx.nonce = tx'.nonce ∧
      tx.payload ++ tx.constraints = tx'.payload ++ tx'.constraints := by
  unfold Transaction.intentBytes
  simp only [List.append_assoc]
  constructor
  · intro h
    obtain ⟨hsender, h⟩ := List.append_inj h (by rw [tx.sender.length_eq, tx'.sender.length_eq])
    obtain ⟨hnonce, h⟩ := (Reads.readUint64 tx.nonce).append_inj (Reads.readUint64 tx'.nonce) h
    exact ⟨FixedBytes.ext hsender, hnonce, h⟩
  · rintro ⟨hsender, hnonce, h⟩
    rw [hsender, hnonce, h]

section

variable [Crypto] {tx tx' : Transaction}

theorem computeIntentID_eq_iff (hfree : CollisionFree [tx.intentBytes, tx'.intentBytes]) :
    tx.computeIntentID = tx'.computeIntentID ↔ tx.sender = tx'.sender ∧ tx.nonce = tx'.nonce ∧
      tx.payload ++ tx.constraints = tx'.payload ++ tx'.constraints := by
  rw [← intentBytes_eq_iff]
  refine ⟨fun h => hfree.inj _ (by simp) _ (by simp) h, fun h => ?_⟩
  show sha256 tx.intentBytes = sha256 tx'.intentBytes
  rw [h]

/-- What two transactions with one intent ID have in common, and what their signatures are good
for. -/
theorem intent_commits_iff (hfree : CollisionFree [tx.intentBytes, tx'.intentBytes]) :
    (tx.computeIntentID = tx'.computeIntentID ↔ tx.sender = tx'.sender ∧ tx.nonce = tx'.nonce ∧
      tx.payload ++ tx.constraints = tx'.payload ++ tx'.constraints) ∧
    (tx.computeIntentID = tx'.computeIntentID → (SameTerms tx tx' ↔
      tx.payload.length = tx'.payload.length ∧ tx.txType = tx'.txType ∧ tx.maxFee = tx'.maxFee ∧
        tx.gasLimit = tx'.gasLimit ∧ tx.chainID = tx'.chainID)) ∧
    (∀ (kp : KeyPair) (addr : Address) (s : InMemoryState), Authorizes (kp.sign tx) addr s →
      (Authorizes (tx'.withSignatureOf (kp.sign tx)) addr s ↔
        tx.computeIntentID = tx'.computeIntentID)) ∧
    ∀ (kp : KeyPair) (now : UInt64) (s : InMemoryState), (kp.sign tx).Verified (keyOf s) →
      tx'.sender = tx.sender → (tx'.withSignatureOf (kp.sign tx)).validate now = .ok () →
      ((∃ r s', applyTransaction now (tx'.withSignatureOf (kp.sign tx)) s = .ok r s') ↔
        tx'.nonce.toNat = nonceOf s tx'.sender + 1 ∧ tx'.Affordable (balanceOf s) ∧
          tx'.Registrable (takenIn s) (bondedIn s) (Readable s)) := by
  refine ⟨computeIntentID_eq_iff hfree, fun hid => ?_, fun kp addr s hauth => ?_,
    fun kp now s hverified hsender hvalid => ?_⟩
  · obtain ⟨hsender, hnonce, hbytes⟩ := (computeIntentID_eq_iff hfree).1 hid
    constructor
    · intro h
      exact ⟨by rw [h.payload], h.txType, h.maxFee, h.gasLimit, h.chainID⟩
    · rintro ⟨hlen, htype, hfee, hgas, hchain⟩
      obtain ⟨hpayload, hconstraints⟩ := List.append_inj hbytes hlen
      exact ⟨hsender, hnonce, hpayload, hconstraints, htype, hfee, hgas, hchain⟩
  · obtain ⟨-, acc, hacc, hverify⟩ := hauth
    exact ⟨fun h => h.1, fun hid => ⟨hid, acc, hacc, hverify⟩⟩
  · -- the ID of the other transaction stands for this one
    have hother : (tx'.withSignatureOf (kp.sign tx)).Verified (keyOf s) := by
      obtain ⟨pk, hpk, hverify⟩ := hverified
      exact ⟨pk, hsender ▸ hpk, hverify⟩
    rw [applyTransaction_ok_iff hvalid]
    exact and_iff_right hother

end

/-! ### One signature for two transactions -/

@[reducible] def echoCrypto : Crypto :=
  ⟨sampleCrypto.sha256, fun _ msg sig => decide (sig = msg ++ msg)⟩

def echoWallet : KeyPair := ⟨FixedBytes.zero 32, fun hash => hash.bytes ++ hash.bytes⟩

def paymentOfFive : Transaction :=
  { samplePayment with payload := 1 :: List.replicate 26 0 ++ [5] }

def paymentOfNothing : Transaction :=
  { samplePayment with
    payload := 1 :: List.replicate 26 0
    constraints := [5]
    maxFee := 900
    chainID := 2 }

attribute [local instance] echoCrypto

theorem collisionFree_payments :
    CollisionFree [paymentOfFive.intentBytes, paymentOfNothing.intentBytes] := by
  have hsame : paymentOfFive.intentBytes = paymentOfNothing.intentBytes := by decide
  have hone : CollisionFree [paymentOfFive.intentBytes] :=
    .of_forall_eq (by decide) fun _ => List.mem_singleton.1
  exact hone.twice

def sampleFunds : InMemoryState := { newInMemoryState with accounts := sampleAccounts }

theorem intent_commits_payments :
    CollisionFree [paymentOfFive.intentBytes, paymentOfNothing.intentBytes] ∧
      Authorizes (echoWallet.sign paymentOfFive) zeroAddress sampleFunds ∧
      Authorizes (paymentOfNothing.withSignatureOf (echoWallet.sign paymentOfFive)) zeroAddress
        sampleFunds := by
  have hauth : Authorizes (echoWallet.sign paymentOfFive) zeroAddress sampleFunds :=
    ⟨rfl, _, Map.get_insert_self _ _ _, by decide +kernel⟩
  obtain ⟨hid, -, hsign, -⟩ := intent_commits_iff collisionFree_payments
  exact ⟨collisionFree_payments, hauth, (hsign _ _ _ hauth).2 (hid.2 ⟨rfl, rfl, by decide⟩)⟩

theorem signature_reused :
    (¬ ∀ (_ : Crypto) (tx tx' : Transaction), CollisionFree [tx.intentBytes, tx'.intentBytes] →
      tx.computeIntentID = tx'.computeIntentID → SameTerms tx tx') ∧
    ¬ ∀ (_ : Crypto) (kp : KeyPair) (tx tx' : Transaction) (now : UInt64)
      (s s₁ s₂ : InMemoryState) (r r' : Hash),
      CollisionFree [tx.intentBytes, tx'.intentBytes] →
      applyTransaction now (kp.sign tx) s = .ok r s₁ →
      applyTransaction now (tx'.withSignatureOf (kp.sign tx)) s = .ok r' s₂ → SameTerms tx tx' := by
  have hdiffer : ¬ SameTerms paymentOfFive paymentOfNothing := by
    intro h
    cases h.maxFee
  constructor
  · intro h
    exact hdiffer (h echoCrypto _ _ collisionFree_payments (by decide))
  · intro h
    obtain ⟨r, s₁, hrun, -⟩ := exists_of_succeedsWith (show succeedsWith (fun _ _ => true)
      (applyTransaction 0 (echoWallet.sign paymentOfFive) sampleFunds) = true by decide +kernel)
    obtain ⟨r', s₂, hrun', -⟩ := exists_of_succeedsWith (show succeedsWith (fun _ _ => true)
      (applyTransaction 0 (paymentOfNothing.withSignatureOf (echoWallet.sign paymentOfFive))
        sampleFunds) = true by decide +kernel)
    exact hdiffer (h echoCrypto echoWallet _ _ 0 sampleFunds s₁ s₂ r r' collisionFree_payments hrun
      hrun')

end Dsn
