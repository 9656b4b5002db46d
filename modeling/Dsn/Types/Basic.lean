import Dsn.Go.Exec

/-!
# `types`: hashes, addresses, amounts

The hash and the signature scheme are parameters (`Crypto`); amounts are numbers below 2^128.
-/

namespace Dsn

open Go

abbrev Hash := FixedBytes 32

abbrev Address := FixedBytes 20

instance : Std.TransOrd Hash := inferInstanceAs (Std.TransOrd (FixedBytes 32))

instance : Std.TransOrd Address := inferInstanceAs (Std.TransOrd (FixedBytes 20))

instance : LawfulBEq Address := inferInstanceAs (LawfulBEq (FixedBytes 20))

abbrev PublicKey := FixedBytes 32

def zeroHash : Hash := FixedBytes.zero 32

def zeroAddress : Address := FixedBytes.zero 20

/-- SHA-256 and Ed25519, of which nothing is assumed. -/
class Crypto where
  sha256 : Bytes → Hash
  verifies : PublicKey → Bytes → Bytes → Bool

export Crypto (sha256)

def signatureSize : ℕ := 64

def ed25519Verify [Crypto] (publicKey : PublicKey) (message sig : Bytes) : Bool :=
  decide (sig.length = signatureSize) && Crypto.verifies publicKey message sig

@[reducible] def sampleCrypto : Crypto :=
  ⟨fun b => FixedBytes.copy 32 (b.drop 16), fun _ _ _ => true⟩

namespace Sample

attribute [scoped instance] sampleCrypto

end Sample

@[reducible] def constantCrypto : Crypto :=
  ⟨fun _ => FixedBytes.copy 32 [1], fun _ _ _ => true⟩

def deriveConsensusID [Crypto] (pubKey : Bytes) : Address :=
  FixedBytes.copy 20 (sha256 pubKey).bytes

theorem toNat_add_of_lt {a b : UInt64} (h : a.toNat + b.toNat < 2 ^ 64) :
    (a + b).toNat = a.toNat + b.toNat := by
  rw [UInt64.toNat_add, Nat.mod_eq_of_lt h]

theorem uint64_toNat_succ {n : UInt64} (h : n + 1 ≠ 0) : (n + 1).toNat = n.toNat + 1 := by
  have hlt := n.toNat_lt
  have hne : (n + 1).toNat ≠ 0 := fun h0 => h (UInt64.toNat_inj.1 h0)
  rw [UInt64.toNat_add] at hne ⊢
  have hone : (1 : UInt64).toNat = 1 := rfl
  omega

/-! ### Text forms -/

def hexText {n : ℕ} (a : FixedBytes n) : String := text (hex a.bytes)

def base58Alphabet : Bytes := str "123456789ABCDEFGHJKLMNPQRSTUVWXYZabcdefghijkmnopqrstuvwxyz"

def base58Encode (data : Bytes) : Bytes :=
  let zeros := (data.takeWhile (· = 0)).length
  let digits := (Nat.digits 58 (beNat data)).reverse.map fun d => base58Alphabet.getD d 0
  let result := List.replicate zeros 49 ++ digits
  if result = [] then str "1" else result

def base58CheckEncode [Crypto] (payload : Bytes) (version : UInt8) : Bytes :=
  let data := version :: payload
  base58Encode (data ++ (sha256 (sha256 data).bytes).bytes.take 4)

theorem idxOf_base58Alphabet : ∀ d < 58, base58Alphabet.idxOf (base58Alphabet.getD d 0) = d := by
  decide

def base58Value (b : Bytes) : ℕ := Nat.ofDigits 58 (b.reverse.map base58Alphabet.idxOf)

theorem base58Value_encode (data : Bytes) : base58Value (base58Encode data) = beNat data := by
  have hdigits : ((Nat.digits 58 (beNat data)).map fun d =>
      base58Alphabet.idxOf (base58Alphabet.getD d 0)) = Nat.digits 58 (beNat data) := by
    refine (List.map_congr_left fun d hd => ?_).trans (List.map_id _)
    exact idxOf_base58Alphabet d (Nat.digits_lt_base (by norm_num) hd)
  have hone : base58Alphabet.idxOf 49 = 0 := by decide
  unfold base58Value base58Encode
  dsimp only
  split_ifs with hnil
  · obtain ⟨-, hnil⟩ := List.append_eq_nil_iff.1 hnil
    have hzero : beNat data = 0 := Nat.digits_eq_nil_iff_eq_zero.1 (by simpa using hnil)
    rw [hzero]
    decide
  · rw [List.reverse_append, List.map_append, List.reverse_replicate, List.map_replicate, hone,
      ← List.map_reverse, List.reverse_reverse, List.map_map, Nat.ofDigits_append_replicate_zero]
    exact (congrArg _ hdigits).trans (Nat.ofDigits_digits 58 _)

theorem base58CheckEncode_inj [Crypto] {a b : Bytes} {version : UInt8} (hlen : a.length = b.length)
    (h : base58CheckEncode a version = base58CheckEncode b version) : a = b := by
  have hnat := congrArg base58Value h
  unfold base58CheckEncode at hnat
  rw [base58Value_encode, base58Value_encode] at hnat
  have heq := beNat_inj (by simp [hlen]) hnat
  exact (List.cons.inj (List.append_inj_left heq (by simp [hlen]))).2

def addressString [Crypto] (a : Address) : String := text (base58CheckEncode a.bytes 0)

/-! ### Errors -/

def errInvalidAddress : Error := .new "invalid address length"
def errAmountOverflow : Error := .new "amount overflow"
def errAmountUnderflow : Error := .new "amount underflow"
def errSignatureMissing : Error := .new "invalid signature"
def errNonceMismatch : Error := .new "nonce mismatch"
def errMaxFeeExceeded : Error := .new "max fee exceeded"
def errInvalidTimestamp : Error := .new "invalid timestamp"
def errInvalidEncoding : Error := .new "invalid binary encoding"
def errPayloadTooLarge : Error := .new "payload too large"
def errDuplicateEvidence : Error := .new "duplicate evidence"
def errContractNotFound : Error := .new "contract not found"
def errGasLimitExceeded : Error := .new "gas limit exceeded"
def errContractSizeExceeded : Error := .new "contract size exceeds maximum"
def errInvalidContractID : Error := .new "invalid contract identifier"
def errContractAlreadyExists : Error := .new "contract already exists at this ID"

def addressFromBytes (b : Bytes) : Except Error Address :=
  if h : b.length = 20 then .ok ⟨b, h⟩ else .error errInvalidAddress

@[simp] theorem addressFromBytes_bytes (a : Address) : addressFromBytes a.bytes = .ok a := by
  unfold addressFromBytes
  rw [dif_pos a.length_eq]

/-! ### Amounts -/

/-- A non-negative 128-bit integer. -/
structure Amount where
  val : ℕ
  lt : val < 2 ^ 128
  deriving DecidableEq

namespace Amount

@[ext] theorem ext {a b : Amount} (h : a.val = b.val) : a = b := by
  cases a; cases b; cases h; rfl

def ofUInt64 (v : UInt64) : Amount := ⟨v.toNat, v.toNat_lt.trans (by norm_num)⟩

@[simp] theorem ofUInt64_val (v : UInt64) : (ofUInt64 v).val = v.toNat := rfl

def add (a b : Amount) : Except Error Amount :=
  if h : a.val + b.val < 2 ^ 128 then .ok ⟨a.val + b.val, h⟩ else .error errAmountOverflow

def sub (a b : Amount) : Except Error Amount :=
  if a.val < b.val then .error errAmountUnderflow
  else .ok ⟨a.val - b.val, lt_of_le_of_lt (Nat.sub_le _ _) a.lt⟩

theorem add_eq_ok {a b c : Amount} : a.add b = .ok c ↔ a.val + b.val = c.val := by
  unfold add
  split_ifs with h
  · simp [Amount.ext_iff]
  · have := c.lt
    simp only [false_iff]
    omega

theorem sub_eq_ok {a b c : Amount} : a.sub b = .ok c ↔ a.val = c.val + b.val := by
  unfold sub
  split_ifs with h
  · simp only [false_iff]
    omega
  · simp only [Except.ok.injEq, Amount.ext_iff]
    omega

def isZero (a : Amount) : Bool := decide (a.val = 0)

def marshalBinary (a : Amount) : Bytes :=
  (Nat.digits 256 a.val).reverse.map UInt8.ofNat

theorem beNat_marshalBinary (a : Amount) : beNat a.marshalBinary = a.val := by
  unfold marshalBinary
  rw [beNat_digits fun d hd => Nat.digits_lt_base (by norm_num) hd, Nat.ofDigits_digits]

theorem length_marshalBinary_ofUInt64 (v : UInt64) : (ofUInt64 v).marshalBinary.length ≤ 8 := by
  unfold marshalBinary
  rw [List.length_map, List.length_reverse]
  exact (Nat.digits_length_le_iff (by norm_num) _).2 v.toNat_lt

def unmarshalBinary (data : Bytes) : Except Error Amount :=
  if h : data.length ≤ 16 then
    .ok ⟨beNat data, (beNat_lt data).trans_le
      ((Nat.pow_le_pow_right (by norm_num) h).trans (by norm_num))⟩
  else .error errAmountOverflow

theorem unmarshalBinary_marshalBinary (a : Amount) : unmarshalBinary a.marshalBinary = .ok a := by
  have hlen : a.marshalBinary.length ≤ 16 := by
    unfold marshalBinary
    rw [List.length_map, List.length_reverse]
    exact (Nat.digits_length_le_iff (by norm_num) _).2 (a.lt.trans_le (by norm_num))
  unfold unmarshalBinary
  rw [dif_pos hlen]
  simp only [Except.ok.injEq, Amount.ext_iff]
  exact beNat_marshalBinary a

def bytes16 (a : Amount) : Bytes := beBytes 16 a.val

theorem unmarshalBinary_bytes16 (a : Amount) : unmarshalBinary a.bytes16 = .ok a := by
  have hlt : a.val < 256 ^ 16 := by have := a.lt; norm_num at this ⊢; exact this
  unfold unmarshalBinary
  rw [dif_pos (by simp [bytes16])]
  simp only [Except.ok.injEq, Amount.ext_iff]
  exact beNat_beBytes hlt

end Amount

/-! ### The clock -/

def validateTimestamp (now ts : UInt64) : Except Error Unit :=
  let drift := now.toInt64 - ts.toInt64
  check (drift < -5 ∨ drift > 5) errInvalidTimestamp

end Dsn
