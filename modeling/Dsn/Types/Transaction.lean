import Dsn.Go.Codec
import Dsn.Types.Basic

/-!
# `types`: transactions

The envelope, its validation, its encoding and the payloads.
-/

namespace Dsn

open Go

variable {u : Unit} {b : Bytes}

/-! ### Length-prefixed bytes -/

def maxVarBytesLength : ℕ := 1024 * 1024

def writeVarBytes (data : Bytes) : Exec Bytes Unit := do
  failIf (data.length > maxVarBytesLength) errInvalidEncoding
  write (beBytes 4 data.length)
  write data

def readVarBytes : Reader Bytes := do
  let length ← readBE 4
  failIf (length > maxVarBytesLength) errPayloadTooLarge
  readFull length

def readUint64 : Reader UInt64 := do
  let v ← readBE 8
  return UInt64.ofNat v

def putUint64 (v : UInt64) : Bytes := beBytes 8 v.toNat

def getUint64 (b : Bytes) : Except Error UInt64 :=
  if b.length < 8 then .error (.panic "index out of range")
  else .ok (UInt64.ofNat (beNat (b.take 8)))

theorem Reads.readUint64 (v : UInt64) : Reads readUint64 (putUint64 v) v := by
  have hlt : v.toNat < 256 ^ 8 := by have := v.toNat_lt; norm_num at this ⊢; exact this
  refine (Reads.readBE hlt).bind_pure ?_
  simpa using Reads.pure v

theorem Amount.reads_bytes16 (a : Amount) : Reads (readFull 16) a.bytes16 a.bytes16 := by
  have h := Reads.readFull a.bytes16
  have hlen : a.bytes16.length = 16 := by simp [Amount.bytes16]
  rwa [hlen] at h

def readUint32 : Reader UInt32 := do
  let v ← readBE 4
  return UInt32.ofNat v

def readUint16 : Reader UInt16 := do
  let v ← readBE 2
  return UInt16.ofNat v

theorem Reads.readUint32 (v : UInt32) : Reads readUint32 (beBytes 4 v.toNat) v := by
  have hlt : v.toNat < 256 ^ 4 := by have := v.toNat_lt; norm_num at this ⊢; exact this
  refine (Reads.readBE hlt).bind_pure ?_
  simpa using Reads.pure v

theorem Reads.readUint16 (v : UInt16) : Reads readUint16 (beBytes 2 v.toNat) v := by
  have hlt : v.toNat < 256 ^ 2 := by have := v.toNat_lt; norm_num at this ⊢; exact this
  refine (Reads.readBE hlt).bind_pure ?_
  simpa using Reads.pure v

theorem appends_varBytes {data : Bytes} (h : data.length ≤ maxVarBytesLength) :
    Appends (4 + data.length) (writeVarBytes data) := by
  exact .failIf_bind (Nat.not_lt.2 h) (.bind (.write (length_beBytes _ _)) (.write rfl))

theorem length_le_of_writeVarBytes {data buf buf' : Bytes} (h : writeVarBytes data buf = .ok u buf')
    : data.length ≤ maxVarBytesLength := by
  exact Nat.not_lt.1 (failIf_bind_eq_ok.1 h).1

theorem matches_varBytes (data : Bytes) : Matches (writeVarBytes data) readVarBytes data := by
  refine Matches.failIf_bind ⟨_, _, rfl⟩ fun hle => ?_
  have hlt : data.length < 256 ^ 4 := by unfold maxVarBytesLength at hle; norm_num; omega
  refine (Matches.write (Reads.readBE hlt)).bind (Matches.write ?_)
  exact (Reads.failIf _ hle).nil_bind (Reads.readFull data)

theorem transmits_varBytes (data : Bytes) : Transmits (writeVarBytes data) readVarBytes data :=
  (matches_varBytes data).transmits

theorem Consumes.readUint64 : Consumes 8 readUint64 :=
  (Consumes.readBE 8).bind fun _ => Consumes.pure _

theorem getUint64_putUint64 (v : UInt64) : getUint64 (putUint64 v) = .ok v := by
  have hlt : v.toNat < 256 ^ 8 := by have := v.toNat_lt; norm_num at this ⊢; exact this
  have hlen : (putUint64 v).length = 8 := by simp [putUint64]
  have htake : (putUint64 v).take 8 = putUint64 v := by rw [← hlen, List.take_length]
  unfold getUint64
  rw [if_neg (by rw [hlen]; decide), htake, putUint64, beNat_beBytes hlt, UInt64.ofNat_toNat]

/-! ### The envelope -/

abbrev TxType := UInt8

def txTypeStandard : TxType := 0
def txTypeDeployContract : TxType := 1
def txTypeCallContract : TxType := 2
def txTypeValidatorRegistration : TxType := 3

/-- A transaction. -/
structure Transaction where
  version : UInt16
  chainID : UInt32
  intentID : Hash
  sender : Address
  nonce : UInt64
  payload : Bytes
  constraints : Bytes
  maxFee : UInt64
  gasLimit : UInt64
  timestamp : UInt64
  signature : Bytes
  txType : TxType
  deriving DecidableEq

variable {tx : Transaction}

structure KeyPair where
  publicKey : PublicKey
  signHash : Hash → Bytes

namespace Transaction

def computeIntentID [Crypto] (tx : Transaction) : Hash :=
  sha256 (tx.sender.bytes ++ putUint64 tx.nonce ++ tx.payload ++ tx.constraints)

def validate (now : UInt64) (tx : Transaction) : Except Error Unit := do
  check (tx.sender.bytes.length ≠ 20) (.field "Sender" errInvalidAddress)
  check (tx.nonce = 0) (.field "Nonce" errNonceMismatch)
  check (tx.signature.length = 0) (.field "Signature" errSignatureMissing)
  match validateTimestamp now tx.timestamp with
  | .error e => .error (.field "Timestamp" e)
  | .ok () => check (tx.maxFee = 0) (.field "MaxFee" errMaxFeeExceeded)

def encode (tx : Transaction) : Exec Bytes Unit := do
  write (beBytes 2 tx.version.toNat)
  write (beBytes 4 tx.chainID.toNat)
  write tx.intentID.bytes
  write tx.sender.bytes
  write (putUint64 tx.nonce)
  writeVarBytes tx.payload
  writeVarBytes tx.constraints
  write (putUint64 tx.maxFee)
  write (putUint64 tx.gasLimit)
  write (putUint64 tx.timestamp)
  failIf (tx.signature.length > 255) errSignatureMissing
  write [UInt8.ofNat tx.signature.length]
  write tx.signature
  write [tx.txType]

/-- The lengths that `encode` checks. -/
structure Encodable (tx : Transaction) : Prop where
  payload : tx.payload.length ≤ maxVarBytesLength
  constraints : tx.constraints.length ≤ maxVarBytesLength
  signature : tx.signature.length ≤ 255

def encodedSize (tx : Transaction) : ℕ :=
  100 + tx.payload.length + tx.constraints.length + tx.signature.length

theorem appends_encode (h : tx.Encodable) :
    Appends tx.encodedSize tx.encode := by
  have hsize : tx.encodedSize = 2 + (4 + (32 + (20 + (8 + ((4 + tx.payload.length) +
      ((4 + tx.constraints.length) + (8 + (8 + (8 + (1 + (tx.signature.length + 1))))))))))) := by
    unfold encodedSize
    omega
  rw [hsize]
  refine .bind (.write (length_beBytes _ _)) ?_
  refine .bind (.write (length_beBytes _ _)) ?_
  refine .bind (.write tx.intentID.length_eq) ?_
  refine .bind (.write tx.sender.length_eq) ?_
  refine .bind (.write rfl) ?_
  refine .bind (appends_varBytes h.payload) ?_
  refine .bind (appends_varBytes h.constraints) ?_
  iterate 3 refine .bind (.write rfl) ?_
  refine .failIf_bind (Nat.not_lt.2 h.signature) ?_
  exact .bind (.write rfl) (.bind (.write rfl) (.write rfl))

theorem encodable_of_encode {buf buf' : Bytes} (h : tx.encode buf = .ok u buf') : tx.Encodable := by
  iterate 5 obtain ⟨_, _, -, h⟩ := bind_eq_ok.1 h
  obtain ⟨_, _, hpayload, h⟩ := bind_eq_ok.1 h
  obtain ⟨_, _, hconstraints, h⟩ := bind_eq_ok.1 h
  iterate 3 obtain ⟨_, _, -, h⟩ := bind_eq_ok.1 h
  obtain ⟨_, _, hsig, -⟩ := bind_eq_ok.1 h
  exact ⟨length_le_of_writeVarBytes hpayload, length_le_of_writeVarBytes hconstraints,
    Nat.not_lt.1 (failIf_eq_ok.1 hsig).1⟩

theorem validate_eq_ok {now : UInt64} :
    tx.validate now = .ok u ↔ tx.nonce ≠ 0 ∧ tx.signature ≠ [] ∧
      validateTimestamp now tx.timestamp = .ok () ∧ tx.maxFee ≠ 0 := by
  unfold validate
  simp only [except_bind_eq_ok, check_eq_ok]
  cases validateTimestamp now tx.timestamp with
  | error e => simp
  | ok v => simp

end Transaction

def readSignature : Reader Bytes := do
  let sigLen ← readBE 1
  readFull sigLen

def readTxType : Reader TxType := fun r =>
  match readBE 1 r with
  | .ok v r' => .ok (UInt8.ofNat v) r'
  | .error _ r' => .ok txTypeStandard r'

def Transaction.decode : Reader Transaction := do
  let version ← readUint16
  let chainID ← readUint32
  let intentID ← readFixed 32
  let sender ← readFixed 20
  let nonce ← readUint64
  let payload ← readVarBytes
  let constraints ← readVarBytes
  let maxFee ← readUint64
  let gasLimit ← readUint64
  let timestamp ← readUint64
  let signature ← readSignature
  let txType ← readTxType
  return { version, chainID, intentID, sender, nonce, payload, constraints, maxFee, gasLimit,
           timestamp, signature, txType }

theorem Reads.readByte {n : ℕ} (h : n < 256) : Reads (readBE 1) [UInt8.ofNat n] n := by
  have hb : beBytes 1 n = [UInt8.ofNat n] := by simp [beBytes]
  exact Reads.readBE (by simpa using h)

theorem Reads.byte (x : UInt8) : Reads (readBE 1) [x] x.toNat := by
  have h := Reads.readByte x.toNat_lt
  rwa [UInt8.ofNat_toNat] at h

theorem reads_txType (t : TxType) : Reads readTxType [t] t := by
  intro rest
  unfold readTxType
  rw [Reads.byte t rest]
  exact congrArg (EStateM.Result.ok · rest) (UInt8.ofNat_toNat)

theorem Transaction.matches (tx : Transaction) : Matches tx.encode Transaction.decode tx := by
  unfold Transaction.decode readSignature
  simp only [bind_assoc]
  refine (Matches.write (Reads.readUint16 _)).bind ?_
  refine (Matches.write (Reads.readUint32 _)).bind ?_
  refine (Matches.write (Reads.readFixed _)).bind ?_
  refine (Matches.write (Reads.readFixed _)).bind ?_
  refine (Matches.write (Reads.readUint64 _)).bind ?_
  refine (matches_varBytes _).bind ?_
  refine (matches_varBytes _).bind ?_
  refine (Matches.write (Reads.readUint64 _)).bind ?_
  refine (Matches.write (Reads.readUint64 _)).bind ?_
  refine (Matches.write (Reads.readUint64 _)).bind ?_
  refine Matches.failIf_bind ⟨_, _, rfl⟩ fun hsig => ?_
  refine (Matches.write (Reads.readByte (by omega))).bind ?_
  refine (Matches.write (Reads.readFull _)).bind ?_
  exact (Matches.write (reads_txType _)).bind_pure (Reads.pure _)

theorem Transaction.transmits (tx : Transaction) : Transmits tx.encode Transaction.decode tx :=
  tx.matches.transmits

/-! ### Payloads -/

/-- The deployment of a contract. -/
structure DeployContractTx where
  sender : Address
  nonce : UInt64
  wasmCode : Bytes
  codeHash : Hash
  maxFee : UInt64
  gasLimit : UInt64
  signature : Bytes

def DeployContractTx.decode : Reader DeployContractTx := do
  let sender ← readFixed 20
  let nonce ← readUint64
  let wasmCode ← readVarBytes
  let codeHash ← readFixed 32
  let maxFee ← readUint64
  let gasLimit ← readUint64
  let signature ← readSignature
  return { sender, nonce, wasmCode, codeHash, maxFee, gasLimit, signature }

/-- A call of a deployed contract. -/
structure CallContractTx where
  sender : Address
  nonce : UInt64
  contractID : Hash
  entrypoint : Bytes
  calldata : Bytes
  maxFee : UInt64
  gasLimit : UInt64
  signature : Bytes

def CallContractTx.decode : Reader CallContractTx := do
  let sender ← readFixed 20
  let nonce ← readUint64
  let contractID ← readFixed 32
  let entrypoint ← readVarBytes
  let calldata ← readVarBytes
  let maxFee ← readUint64
  let gasLimit ← readUint64
  let signature ← readSignature
  return { sender, nonce, contractID, entrypoint, calldata, maxFee, gasLimit, signature }

def maxContractCodeSize : ℕ := 1 * 1024 * 1024

def DeployContractTx.validate (tx : DeployContractTx) : Except Error Unit := do
  check (tx.sender.bytes.length ≠ 20) (.field "Sender" errInvalidAddress)
  check (tx.nonce = 0) (.field "Nonce" errNonceMismatch)
  check (tx.wasmCode.length = 0) (.field "WasmCode" errInvalidEncoding)
  check (tx.wasmCode.length > maxContractCodeSize) (.field "WasmCode" errContractSizeExceeded)
  check (tx.maxFee = 0) (.field "MaxFee" errMaxFeeExceeded)
  check (tx.gasLimit = 0) (.field "GasLimit" errGasLimitExceeded)
  check (tx.signature.length = 0) (.field "Signature" errSignatureMissing)

def CallContractTx.validate (tx : CallContractTx) : Except Error Unit := do
  check (tx.sender.bytes.length ≠ 20) (.field "Sender" errInvalidAddress)
  check (tx.nonce = 0) (.field "Nonce" errNonceMismatch)
  check (tx.contractID = zeroHash) (.field "ContractID" errInvalidContractID)
  check (tx.entrypoint.length = 0) (.field "Entrypoint" errInvalidEncoding)
  check (tx.maxFee = 0) (.field "MaxFee" errMaxFeeExceeded)
  check (tx.gasLimit = 0) (.field "GasLimit" errGasLimitExceeded)
  check (tx.signature.length = 0) (.field "Signature" errSignatureMissing)

structure ValidatorRegistrationMsg where
  address : Address
  pubKey : PublicKey
  stake : UInt64
  commission : UInt64
  deriving DecidableEq

def ValidatorRegistrationMsg.decode : Reader ValidatorRegistrationMsg := do
  let address ← readFixed 20
  let pubKey ← readFixed 32
  let stake ← readUint64
  let commission ← readUint64
  return { address, pubKey, stake, commission }

def decodeFrom {α : Type} (x : Reader α) (b : Bytes) : Except Error α :=
  match x b with
  | .ok a _ => .ok a
  | .error e _ => .error e

variable {α : Type}

theorem decodeFrom_of_reads {x : Reader α} {a : α} (h : Reads x b a) : decodeFrom x b = .ok a := by
  unfold decodeFrom
  rw [← List.append_nil b, h []]

theorem decodeFrom_eq_ok {x : Reader α} {a : α} :
    decodeFrom x b = .ok a ↔ ∃ rest, x b = .ok a rest := by
  unfold decodeFrom
  cases x b <;> simp

theorem decodeFrom_eq_error {x : Reader α} {e : Error} :
    decodeFrom x b = .error e ↔ ∃ rest, x b = .error e rest := by
  unfold decodeFrom
  cases x b <;> simp

namespace Transaction

def deployContract (tx : Transaction) : Except Error DeployContractTx :=
  decodeFrom DeployContractTx.decode tx.payload

def callContract (tx : Transaction) : Except Error CallContractTx :=
  decodeFrom CallContractTx.decode tx.payload

def validatorRegistration (tx : Transaction) : Except Error ValidatorRegistrationMsg :=
  decodeFrom ValidatorRegistrationMsg.decode tx.payload

end Transaction

end Dsn
