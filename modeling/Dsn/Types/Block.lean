import Dsn.Types.Vote

/-!
# `types`: blocks

Headers, events and blocks, with their sizes when encoded.
-/

namespace Dsn

open Go

/-! ### Events -/

/-- An event emitted by a contract. -/
structure Event where
  contractID : Hash
  topic : Bytes
  data : Bytes
  blockHeight : UInt64
  txIndex : UInt32
  deriving DecidableEq

def Event.encode (e : Event) : Exec Bytes Unit := do
  write e.contractID.bytes
  writeVarBytes e.topic
  writeVarBytes e.data
  write (putUint64 e.blockHeight)
  write (beBytes 4 e.txIndex.toNat)

def Event.decode : Reader Event := do
  let contractID ← readFixed 32
  let topic ← readVarBytes
  let data ← readVarBytes
  let blockHeight ← readUint64
  let txIndex ← readUint32
  return { contractID, topic, data, blockHeight, txIndex }

theorem Event.transmits (e : Event) : Transmits e.encode Event.decode e := by
  refine (Transmits.write (Reads.readFixed _)).bind ?_
  refine (transmits_varBytes _).bind ?_
  refine (transmits_varBytes _).bind ?_
  refine (Transmits.write (Reads.readUint64 _)).bind ?_
  exact (Transmits.write (Reads.readUint32 _)).bind_pure (Reads.pure _)

structure Event.Encodable (e : Event) : Prop where
  topic : e.topic.length ≤ maxVarBytesLength
  data : e.data.length ≤ maxVarBytesLength

def Event.encodedSize (e : Event) : ℕ := 52 + e.topic.length + e.data.length

theorem Event.appends_encode {e : Event} (h : e.Encodable) : Appends e.encodedSize e.encode := by
  have hsize : e.encodedSize = 32 + ((4 + e.topic.length) + ((4 + e.data.length) + (8 + 4))) := by
    unfold encodedSize
    omega
  rw [hsize]
  refine .bind (.write e.contractID.length_eq) ?_
  refine .bind (appends_varBytes h.topic) (.bind (appends_varBytes h.data) ?_)
  exact .bind (.write rfl) (.write (length_beBytes _ _))

theorem Event.encodable_of_encode {e : Event} {buf buf' : Bytes} {u : Unit}
    (h : e.encode buf = .ok u buf') : e.Encodable := by
  obtain ⟨_, _, -, h⟩ := bind_eq_ok.1 h
  obtain ⟨_, _, htopic, h⟩ := bind_eq_ok.1 h
  obtain ⟨_, _, hdata, -⟩ := bind_eq_ok.1 h
  exact ⟨length_le_of_writeVarBytes htopic, length_le_of_writeVarBytes hdata⟩

def computeEventsRoot [Crypto] (events : List Event) : Hash :=
  if events.length = 0 then zeroHash
  else sha256 (events.flatMap fun ev =>
    match ev.encode [] with
    | .ok _ buf => (sha256 buf).bytes
    | .error _ _ => [])

/-! ### Blocks -/

structure BlockHeader where
  version : UInt64
  height : UInt64
  previousHash : Hash
  stateRoot : Hash
  txRoot : Hash
  receiptRoot : Hash
  validatorRoot : Hash
  validatorSetHash : Hash
  epoch : UInt64
  timestamp : UInt64
  proposer : Address
  eventsRoot : Hash

def BlockHeader.headerHash [Crypto] (h : BlockHeader) : Hash :=
  sha256 (putUint64 h.version ++ putUint64 h.height ++ h.previousHash.bytes ++ h.stateRoot.bytes ++
    h.txRoot.bytes ++ h.receiptRoot.bytes ++ h.validatorRoot.bytes ++ h.validatorSetHash.bytes ++
    putUint64 h.epoch ++ putUint64 h.timestamp ++ h.proposer.bytes ++ h.eventsRoot.bytes)

structure FeeSummary where
  totalFees : UInt64
  validatorShare : UInt64
  burnShare : UInt64
  treasuryShare : UInt64
  deriving DecidableEq

def newFeeSummary (totalFees : UInt64) : FeeSummary where
  totalFees := totalFees
  validatorShare := totalFees * 70 / 100
  burnShare := totalFees * 20 / 100
  treasuryShare := totalFees * 10 / 100

structure Block where
  header : BlockHeader
  transactions : List Transaction
  feeSummary : FeeSummary
  signature : Bytes
  commitProof : Option CommitProof
  events : List Event
  evidence : List Evidence

def Block.headerHash [Crypto] (b : Block) : Hash := b.header.headerHash

end Dsn
