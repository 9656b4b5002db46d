import Dsn.Types.Address
import Dsn.State.Transfer

/-!
# `sdk`: the transaction builder

The builder pads the amount to 32 bytes, of which the ledger reads the first 8.
-/

namespace Dsn

open Go InMemoryState

/-! ### The builder -/

def KeyPair.sign [Crypto] (kp : KeyPair) (tx : Transaction) : Transaction :=
  let intentID := tx.computeIntentID
  { tx with intentID := intentID, signature := kp.signHash intentID }

def newTransaction (version : UInt16) (chainID : UInt32) (sender : Address) (nonce : UInt64)
    (payload constraints : Bytes) (maxFee gasLimit timestamp : UInt64) : Transaction where
  version := version
  chainID := chainID
  intentID := zeroHash
  sender := sender
  nonce := nonce
  payload := payload
  constraints := constraints
  maxFee := maxFee
  gasLimit := gasLimit
  timestamp := timestamp
  signature := []
  txType := txTypeStandard

structure TxBuilder where
  fromAddr : String := ""
  toAddr : String := ""
  nonce : UInt64 := 0
  value : Option ℤ := none
  data : Bytes := []
  gasLimit : UInt64 := 21000
  gasPrice : UInt64 := 1
  maxFee : UInt64 := 0
  timestamp : UInt64
  chainID : UInt32 := 1
  version : UInt16 := 1

def newTxBuilder (now : UInt64) : TxBuilder := { timestamp := now }

def encodeTransferPayload (recipient : Address) (value : ℤ) (data : Bytes) : Except Error Bytes :=
  let valueBytes := bigBytes value.natAbs
  if valueBytes.length > 32 then .error (.panic "slice bounds out of range")
  else
    let valuePadded := List.replicate (32 - valueBytes.length) 0 ++ valueBytes
    .ok (recipient.bytes ++ valuePadded ++ [UInt8.ofNat data.length] ++ data)

namespace TxBuilder

def errInvalidParams : Error := .new "invalid params"

def fee (b : TxBuilder) : UInt64 := if b.maxFee = 0 then b.gasLimit * b.gasPrice else b.maxFee

variable [Crypto]

def recipient (b : TxBuilder) : Except Error Address :=
  if b.toAddr = "" then .ok zeroAddress else parseAddress b.toAddr

def build : Exec TxBuilder Transaction := do
  let b ← get
  failIf (b.fromAddr = "") errInvalidParams
  let sender ← wrapErr "invalid sender address" (ofResult (parseAddress b.fromAddr))
  let recipient ← wrapErr "invalid recipient address" (ofResult b.recipient)
  modify fun b => { b with maxFee := b.fee }
  let payload ← ofResult (encodeTransferPayload recipient (b.value.getD 0) b.data)
  return newTransaction b.version b.chainID sender b.nonce payload [] b.fee b.gasLimit b.timestamp

def signAndBuild (key : KeyPair) : Exec TxBuilder Transaction := do
  let tx ← build
  return key.sign tx

end TxBuilder

/-! ### The amount in a payload -/

variable {r : Address} {value : ℤ}

theorem encodeTransferPayload_eq_ok {data payload : Bytes}
    (h : encodeTransferPayload r value data = .ok payload) : ∃ padded : Bytes,
      padded.length = 32 ∧ beNat padded = value.natAbs ∧
      payload = r.bytes ++ padded ++ [UInt8.ofNat data.length] ++ data := by
  unfold encodeTransferPayload at h
  dsimp only at h
  split_ifs at h with hlen
  refine ⟨_, ?_, ?_, (Except.ok.inj h).symm⟩
  · rw [List.length_append, List.length_replicate]
    omega
  · rw [beNat_replicate_append, beNat_bigBytes]

theorem transferPayload_of_encode {data payload : Bytes}
    (h : encodeTransferPayload r value data = .ok payload) : 28 ≤ payload.length ∧
      transferPayload payload = (r, UInt64.ofNat (value.natAbs / 2 ^ 192)) := by
  obtain ⟨padded, hlen, hvalue, rfl⟩ := encodeTransferPayload_eq_ok h
  have hr : r.bytes.length = 20 := r.length_eq
  have hhigh : beNat (padded.take 8) = value.natAbs / 2 ^ 192 := by
    rw [beNat_take (show padded.length = 8 + 24 from hlen), hvalue]
    norm_num
  constructor
  · simp only [List.length_append, hr]
    omega
  · rw [transferPayload, List.append_assoc, List.append_assoc, List.take_left' hr,
      List.drop_left' hr, List.take_append_of_le_length (by omega), hhigh, FixedBytes.copy_bytes]

/-! ### What a builder builds -/

namespace TxBuilder

variable [Crypto] {key : KeyPair} {b b' : TxBuilder} {sender r : Address} {tx : Transaction}

theorem signAndBuild_eq_ok (hfrom : parseAddress b.fromAddr = .ok sender)
    (hto : parseAddress b.toAddr = .ok r) : signAndBuild key b = .ok tx b' ↔
      ∃ payload, encodeTransferPayload r (b.value.getD 0) b.data = .ok payload ∧
        tx = key.sign (newTransaction b.version b.chainID sender b.nonce payload []
          b.fee b.gasLimit b.timestamp) ∧
        b' = { b with maxFee := b.fee } := by
  have hr : b.recipient = .ok r := (if_neg (ne_empty_of_parseAddress hto)).trans hto
  unfold signAndBuild build
  rw [bind_eq_ok]
  simp only [get_bind, failIf_bind_eq_ok, wrapErr_bind_eq_ok, ofResult_bind_eq_ok, modify_bind,
    pure_eq_ok]
  constructor
  · rintro ⟨_, _, ⟨-, _, hs', _, hr', payload, hpayload, rfl, rfl⟩, rfl, rfl⟩
    cases hfrom.symm.trans hs'
    cases hr.symm.trans hr'
    exact ⟨payload, hpayload, rfl, rfl⟩
  · rintro ⟨payload, hpayload, rfl, rfl⟩
    exact ⟨_, _, ⟨ne_empty_of_parseAddress hfrom, sender, hfrom, r, hr, payload, hpayload, rfl,
      rfl⟩,
      rfl, rfl⟩

structure Builds (b : TxBuilder) (sender r : Address) (tx : Transaction) : Prop where
  sender_eq : tx.sender = sender
  fee_eq : tx.maxFee = b.fee
  type_eq : tx.txType = txTypeStandard
  transfer_eq : tx.transfer = some (r, UInt64.ofNat ((b.value.getD 0).natAbs / 2 ^ 192))

theorem builds_of_signAndBuild (hfrom : parseAddress b.fromAddr = .ok sender)
    (hto : parseAddress b.toAddr = .ok r) (h : signAndBuild key b = .ok tx b') :
    b.Builds sender r tx := by
  obtain ⟨payload, hpayload, rfl, -⟩ := (signAndBuild_eq_ok hfrom hto).1 h
  obtain ⟨hlen, hread⟩ := transferPayload_of_encode hpayload
  refine ⟨rfl, rfl, rfl, ?_⟩
  exact (if_pos hlen).trans (congrArg some hread)

end TxBuilder

/-! ### What a built transfer does -/

/-- The recipient gets the value and the sender pays it and the fee. -/
def Settles (r sender : Address) (v fee : ℕ) (s s' : InMemoryState) : Prop :=
  r ≠ sender →
    (s'.accountOrNew r).balance.val = (s.accountOrNew r).balance.val + v ∧
    (s'.accountOrNew sender).balance.val + (v + fee) = (s.accountOrNew sender).balance.val

section

variable [Crypto] {key : KeyPair} {b b' : TxBuilder} {sender r : Address} {tx : Transaction}
  {now : UInt64} {receipt : Hash} {s s' : InMemoryState} {v : ℕ}

/-- A built transfer does what it says exactly if it moves nothing. -/
theorem sdk_transfer_iff (hfrom : parseAddress b.fromAddr = .ok sender)
    (hto : parseAddress b.toAddr = .ok r) (hvalue : b.value.getD 0 = v) (hv : v < 2 ^ 64)
    (hbuilt : TxBuilder.signAndBuild key b = .ok tx b')
    (happly : applyTransaction now tx s = .ok receipt s') :
    Settles r sender v b.fee.toNat s s' ↔ v = 0 ∨ r = sender := by
  have hb := TxBuilder.builds_of_signAndBuild hfrom hto hbuilt
  obtain ⟨hsender, hrecipient⟩ := balances_of_transfer hb.type_eq happly
  have hamount : tx.transfer = some (r, 0) := by
    rw [hb.transfer_eq, hvalue, Int.natAbs_natCast, Nat.div_eq_of_lt (hv.trans (by norm_num))]
    rfl
  have hsent : tx.sent = 0 := by simp [Transaction.sent, hamount]
  rw [hb.sender_eq, hb.fee_eq] at hsender
  have hkept := hrecipient r 0 hamount
  rw [hb.sender_eq] at hkept
  constructor
  · intro h
    by_contra! hne
    obtain ⟨hgain, -⟩ := h hne.2
    have := hkept hne.2
    change _ = _ + 0 at this
    omega
  · rintro (rfl | rfl) hne
    · exact ⟨hkept hne, by omega⟩
    · exact absurd rfl hne

end

/-! ### A transfer of five tokens -/

open Sample

def zeroKey : KeyPair := ⟨FixedBytes.zero 32, fun _ => List.replicate 64 0⟩

def sampleBuilder (v : ℕ) : TxBuilder :=
  { newTxBuilder 0 with
    fromAddr := addressString zeroAddress
    toAddr := addressString (FixedBytes.copy 20 [1])
    nonce := 1
    value := some v
    maxFee := 100 }

def fundedState : InMemoryState := { newInMemoryState with accounts := sampleAccounts }

def builtTransfer (v : UInt8) : Transaction :=
  zeroKey.sign
    (newTransaction 1 1 zeroAddress 1 (1 :: List.replicate 50 0 ++ [v, 0]) [] 100 21000 0)

theorem parse_sampleBuilder (v : ℕ) :
    parseAddress (sampleBuilder v).fromAddr = .ok zeroAddress ∧
      parseAddress (sampleBuilder v).toAddr = .ok (FixedBytes.copy 20 [1]) :=
  ⟨parseAddress_addressString zeroAddress, parseAddress_addressString (FixedBytes.copy 20 [1])⟩

theorem signAndBuild_sampleBuilder {v : ℕ}
    (h : encodeTransferPayload (FixedBytes.copy 20 [1]) v [] =
      .ok (1 :: List.replicate 50 0 ++ [UInt8.ofNat v, 0])) :
    TxBuilder.signAndBuild zeroKey (sampleBuilder v) =
      .ok (builtTransfer (UInt8.ofNat v)) (sampleBuilder v) :=
  (TxBuilder.signAndBuild_eq_ok (parse_sampleBuilder v).1 (parse_sampleBuilder v).2).2
    ⟨_, h, rfl, rfl⟩

theorem sdk_transfer_zero : ∃ tx b' receipt s',
    TxBuilder.signAndBuild zeroKey (sampleBuilder 0) = .ok tx b' ∧
    applyTransaction 0 tx fundedState = .ok receipt s' ∧
    Settles (FixedBytes.copy 20 [1]) zeroAddress 0 100 fundedState s' := by
  have hbuilt := signAndBuild_sampleBuilder (v := 0) (by decide +kernel)
  obtain ⟨receipt, s', happly, -⟩ := exists_of_succeedsWith (show succeedsWith (fun _ _ => true)
    (applyTransaction 0 (builtTransfer 0) fundedState) = true by decide +kernel)
  exact ⟨_, _, receipt, s', hbuilt, happly, (sdk_transfer_iff (parse_sampleBuilder 0).1
    (parse_sampleBuilder 0).2 rfl (by norm_num) hbuilt happly).2 (.inl rfl)⟩

theorem built_transfer_credits_nothing : ∃ tx b' receipt s',
    TxBuilder.signAndBuild zeroKey (sampleBuilder 5) = .ok tx b' ∧
    applyTransaction 0 tx fundedState = .ok receipt s' ∧
    (s'.accountOrNew (FixedBytes.copy 20 [1])).balance.val = 0 ∧
    (s'.accountOrNew zeroAddress).balance.val = 900 ∧
    ¬ Settles (FixedBytes.copy 20 [1]) zeroAddress 5 100 fundedState s' := by
  have hbuilt := signAndBuild_sampleBuilder (v := 5) (by decide +kernel)
  obtain ⟨receipt, s', happly, hafter⟩ := exists_of_succeedsWith (show succeedsWith
    (fun _ t => (t.accountOrNew (FixedBytes.copy 20 [1])).balance.val = 0 ∧
      (t.accountOrNew zeroAddress).balance.val = 900)
    (applyTransaction 0 (builtTransfer 5) fundedState) = true by decide +kernel)
  obtain ⟨hrecipient, hsender⟩ := of_decide_eq_true hafter
  refine ⟨_, _, receipt, s', hbuilt, happly, hrecipient, hsender, fun h => ?_⟩
  have hgain := (h (by decide +kernel)).1
  omega

end Dsn
