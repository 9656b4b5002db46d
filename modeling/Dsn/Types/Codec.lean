import Dsn.Types.Block

/-!
# `types`: the codecs of transactions and events

Each writer and the reader that undoes it.
-/

namespace Dsn

open Go

/-! ### Numbers -/

theorem readUint64_eq_ok {v : UInt64} {r r' : Bytes} (h : readUint64 r = .ok v r') :
    r = putUint64 v ++ r' := by
  obtain ⟨n, _, hn, h⟩ := bind_eq_ok.1 h
  obtain ⟨rfl, rfl⟩ := pure_eq_ok.1 h
  obtain ⟨hlt, rfl⟩ := readBE_eq_ok.1 hn
  rw [putUint64, UInt64.toNat_ofNat_of_lt' hlt]

theorem panicFree_readUint64 : PanicFree readUint64 :=
  (PanicFree.readBE 8).bind fun _ => PanicFree.pure _

/-! ### Payloads -/

def DeployContractTx.encode (tx : DeployContractTx) : Exec Bytes Unit := do
  write tx.sender.bytes
  write (putUint64 tx.nonce)
  writeVarBytes tx.wasmCode
  write tx.codeHash.bytes
  write (putUint64 tx.maxFee)
  write (putUint64 tx.gasLimit)
  failIf (tx.signature.length > 255) errSignatureMissing
  write [UInt8.ofNat tx.signature.length]
  write tx.signature

def CallContractTx.encode (tx : CallContractTx) : Exec Bytes Unit := do
  write tx.sender.bytes
  write (putUint64 tx.nonce)
  write tx.contractID.bytes
  writeVarBytes tx.entrypoint
  writeVarBytes tx.calldata
  write (putUint64 tx.maxFee)
  write (putUint64 tx.gasLimit)
  failIf (tx.signature.length > 255) errSignatureMissing
  write [UInt8.ofNat tx.signature.length]
  write tx.signature

theorem transmits_signature {α : Type} {sig : Bytes} {f : Bytes → Reader α} {a : α}
    (hf : Reads (f sig) [] a) :
    Transmits (do failIf (sig.length > 255) errSignatureMissing
                  write [UInt8.ofNat sig.length]
                  write sig) (readSignature >>= f) a := by
  unfold readSignature
  rw [bind_assoc]
  refine Transmits.failIf_bind fun hsig => ?_
  refine (Transmits.write (Reads.readByte (by omega))).bind ?_
  exact (Transmits.write (Reads.readFull _)).bind_pure hf

theorem DeployContractTx.transmits (tx : DeployContractTx) :
    Transmits tx.encode DeployContractTx.decode tx := by
  refine (Transmits.write (Reads.readFixed _)).bind ?_
  refine (Transmits.write (Reads.readUint64 _)).bind ?_
  refine (transmits_varBytes _).bind ?_
  refine (Transmits.write (Reads.readFixed _)).bind ?_
  refine (Transmits.write (Reads.readUint64 _)).bind ?_
  refine (Transmits.write (Reads.readUint64 _)).bind ?_
  exact transmits_signature (Reads.pure _)

theorem CallContractTx.transmits (tx : CallContractTx) :
    Transmits tx.encode CallContractTx.decode tx := by
  refine (Transmits.write (Reads.readFixed _)).bind ?_
  refine (Transmits.write (Reads.readUint64 _)).bind ?_
  refine (Transmits.write (Reads.readFixed _)).bind ?_
  refine (transmits_varBytes _).bind ?_
  refine (transmits_varBytes _).bind ?_
  refine (Transmits.write (Reads.readUint64 _)).bind ?_
  refine (Transmits.write (Reads.readUint64 _)).bind ?_
  exact transmits_signature (Reads.pure _)

/-! ### Lists of messages -/

/-- Items that encode, one after the other, decode to themselves. -/
def RoundTrips {α : Type} (encode : α → Exec Bytes Unit) (decode : Reader α) : Prop :=
  ∀ (items : List α) (encodings : List Bytes) (further : Bytes),
    List.Forall₂ (fun item enc => encode item [] = .ok () enc) items encodings →
      readMany (fun _ => decode) 0 items.length (encodings.flatten ++ further) = .ok items further

theorem RoundTrips.of_transmits {α : Type} {encode : α → Exec Bytes Unit} {decode : Reader α}
    (h : ∀ a, Transmits (encode a) decode a) : RoundTrips encode decode := by
  intro items encodings further hencode
  refine Reads.readMany_flatten (hencode.imp fun item enc henc _ => ?_) 0 further
  obtain ⟨b, rfl, hreads⟩ := h item _ _ _ henc
  exact hreads

/-- What is encoded is decoded as it was, whatever follows it. -/
theorem codecs_round_trip : RoundTrips Transaction.encode Transaction.decode ∧
    RoundTrips DeployContractTx.encode DeployContractTx.decode ∧
    RoundTrips CallContractTx.encode CallContractTx.decode ∧
    RoundTrips Event.encode Event.decode :=
  ⟨.of_transmits Transaction.transmits, .of_transmits DeployContractTx.transmits,
    .of_transmits CallContractTx.transmits, .of_transmits Event.transmits⟩

end Dsn
