import Dsn.Types.Block

/-!
# `consensus/gossip.go`: block messages

The codec leaves out the events root, the commit proof and the evidence (`Block.stripped`).
-/

namespace Dsn

open Go

variable {block : Block} {data : Bytes}

def blockMessageType : UInt8 := 1

def maxSigLen : ℕ := 8192

/-! ### Encoding -/

def encodeHeaderFields (h : BlockHeader) : Exec Bytes Unit := do
  write (putUint64 h.version)
  write (putUint64 h.height)
  write h.previousHash.bytes
  write h.stateRoot.bytes
  write h.txRoot.bytes
  write h.receiptRoot.bytes
  write h.validatorRoot.bytes
  write h.validatorSetHash.bytes
  write (putUint64 h.epoch)
  write (putUint64 h.timestamp)
  write h.proposer.bytes

def FeeSummary.encode (f : FeeSummary) : Exec Bytes Unit := do
  write (putUint64 f.totalFees)
  write (putUint64 f.validatorShare)
  write (putUint64 f.burnShare)
  write (putUint64 f.treasuryShare)

def encodeBlock (block : Block) : Exec Bytes Unit := do
  encodeHeaderFields block.header
  write (beBytes 4 block.transactions.length)
  block.transactions.forM Transaction.encode
  block.feeSummary.encode
  write (beBytes 4 block.signature.length)
  write block.signature
  write (beBytes 4 block.events.length)
  block.events.forM Event.encode

def encodeBlockMessage (block : Block) : Except Error Bytes :=
  match encodeBlock block [] with
  | .ok _ blockBuf => .ok (blockMessageType :: (beBytes 4 blockBuf.length ++ blockBuf))
  | .error e _ => .error e

theorem encodeBlockMessage_eq_ok :
    encodeBlockMessage block = .ok data ↔ ∃ buf, encodeBlock block [] = .ok () buf ∧
      data = blockMessageType :: (beBytes 4 buf.length ++ buf) := by
  unfold encodeBlockMessage
  cases encodeBlock block [] with
  | ok u buf => simp [eq_comm]
  | error e buf => simp

/-! ### Decoding -/

def readEvents : Reader (List Event) := fun r =>
  match readBE 4 r with
  | .ok numEvents r' => readMany (fun i => wrapErr s!"event {i}" Event.decode) 0 numEvents r'
  | .error _ r' => .ok [] r'

def readBlockSignature : Reader Bytes := do
  let sigLen ← readBE 4
  failIf (sigLen > maxSigLen) (.new s!"signature too long: {sigLen} > {maxSigLen}")
  wrapErr "failed to read signature" (readFull sigLen)

def readHeaderFields : Reader BlockHeader := do
  let version ← readUint64
  let height ← readUint64
  let previousHash ← wrapErr "failed to read previous hash" (readFixed 32)
  let stateRoot ← wrapErr "failed to read state root" (readFixed 32)
  let txRoot ← wrapErr "failed to read tx root" (readFixed 32)
  let receiptRoot ← wrapErr "failed to read receipt root" (readFixed 32)
  let validatorRoot ← wrapErr "failed to read validator root" (readFixed 32)
  let validatorSetHash ← wrapErr "failed to read validator set hash" (readFixed 32)
  let epoch ← readUint64
  let timestamp ← readUint64
  let proposer ← wrapErr "failed to read proposer" (readFixed 20)
  return { version, height, previousHash, stateRoot, txRoot, receiptRoot, validatorRoot,
           validatorSetHash, epoch, timestamp, proposer, eventsRoot := zeroHash }

def FeeSummary.decode : Reader FeeSummary := do
  let totalFees ← readUint64
  let validatorShare ← readUint64
  let burnShare ← readUint64
  let treasuryShare ← readUint64
  return { totalFees, validatorShare, burnShare, treasuryShare }

def decodeBlock : Reader Block := do
  let header ← readHeaderFields
  let numTxs ← readBE 4
  let transactions ← readMany (fun i => wrapErr s!"tx {i}" Transaction.decode) 0 numTxs
  let feeSummary ← FeeSummary.decode
  let signature ← readBlockSignature
  let events ← readEvents
  return { header, transactions, feeSummary, signature, commitProof := none, events,
           evidence := [] }

def decodeBlockMessage (data : Bytes) : Except Error Block := do
  check (data.length < 6) (.new "block message too short")
  match data with
  | [] => .error (.panic "index out of range")
  | kind :: rest =>
    check (kind ≠ blockMessageType) (.new s!"unknown message type: {kind}")
    decodeFrom (do let _payloadLen ← readBE 4; decodeBlock) rest

theorem decodeBlockMessage_eq_ok (h : decodeBlockMessage data = .ok block) : ∃ length payload rest,
      data = blockMessageType :: (beBytes 4 length ++ payload) ∧
        decodeBlock payload = .ok block rest := by
  obtain ⟨_, -, h⟩ := except_bind_eq_ok.1 h
  cases data with
  | nil => cases h
  | cons kind r =>
    obtain ⟨_, hkind, h⟩ := except_bind_eq_ok.1 h
    obtain ⟨rest, h⟩ := decodeFrom_eq_ok.1 h
    obtain ⟨length, payload, hlength, h⟩ := bind_eq_ok.1 h
    obtain ⟨-, rfl⟩ := readBE_eq_ok.1 hlength
    exact ⟨length, payload, rest, by rw [not_not.1 (check_eq_ok.1 hkind)], h⟩

/-! ### What a decoded block is -/

def Block.stripped (block : Block) : Block :=
  { block with
    header := { block.header with eventsRoot := zeroHash }
    commitProof := none
    evidence := [] }

theorem readHeaderFields_eventsRoot {h : BlockHeader} {r r' : Bytes}
    (hr : readHeaderFields r = .ok h r') : h.eventsRoot = zeroHash := by
  iterate 11 obtain ⟨_, _, -, hr⟩ := bind_eq_ok.1 hr
  obtain ⟨rfl, -⟩ := pure_eq_ok.1 hr
  rfl

theorem decodeBlock_stripped {r r' : Bytes} (h : decodeBlock r = .ok block r') :
    block.stripped = block := by
  obtain ⟨header, _, hheader, h⟩ := bind_eq_ok.1 h
  iterate 5 obtain ⟨_, _, -, h⟩ := bind_eq_ok.1 h
  obtain ⟨rfl, -⟩ := pure_eq_ok.1 h
  simp only [Block.stripped, ← readHeaderFields_eventsRoot hheader]

theorem decodeBlockMessage_stripped (h : decodeBlockMessage data = .ok block) :
    block.stripped = block := by
  obtain ⟨_, _, _, -, hb⟩ := decodeBlockMessage_eq_ok h
  exact decodeBlock_stripped hb

/-! ### The round trip -/

theorem transmits_headerFields (h : BlockHeader) :
    Transmits (encodeHeaderFields h) readHeaderFields { h with eventsRoot := zeroHash } := by
  refine (Transmits.write (Reads.readUint64 _)).bind ?_
  refine (Transmits.write (Reads.readUint64 _)).bind ?_
  iterate 6 refine ((Transmits.write (Reads.readFixed _)).wrapErr _).bind ?_
  refine (Transmits.write (Reads.readUint64 _)).bind ?_
  refine (Transmits.write (Reads.readUint64 _)).bind ?_
  exact ((Transmits.write (Reads.readFixed _)).wrapErr _).bind_pure (Reads.pure _)

theorem FeeSummary.transmits (f : FeeSummary) : Transmits f.encode FeeSummary.decode f := by
  iterate 3 refine (Transmits.write (Reads.readUint64 _)).bind ?_
  exact (Transmits.write (Reads.readUint64 _)).bind_pure (Reads.pure _)

theorem transmits_events {events : List Event} (h : events.length < 256 ^ 4) :
    Transmits (do write (beBytes 4 events.length); events.forM Event.encode) readEvents events := by
  -- the reader is the bind of the two readers wherever the number can be read
  have hbind : Transmits (do write (beBytes 4 events.length); events.forM Event.encode)
      (readBE 4 >>= readMany (fun i => wrapErr s!"event {i}" Event.decode) 0) events :=
    (Transmits.write (Reads.readBE h)).bind
      (Transmits.forM (fun i e => (Event.transmits e).wrapErr _) events 0)
  intro buf u buf' hw
  obtain ⟨b, rfl, hb⟩ := hbind buf u buf' hw
  refine ⟨b, rfl, fun rest => ?_⟩
  obtain ⟨n, r, hn, hr⟩ := bind_eq_ok.1 (hb rest)
  unfold readEvents
  rw [hn]
  exact hr

variable (htxs : block.transactions.length < 256 ^ 4)
include htxs

variable (hsig : block.signature.length ≤ maxSigLen)
include hsig

variable (hevents : block.events.length < 256 ^ 4)
include hevents

theorem transmits_block : Transmits (encodeBlock block) decodeBlock block.stripped := by
  have hlen : block.signature.length < 256 ^ 4 := by unfold maxSigLen at hsig; omega
  unfold decodeBlock readBlockSignature
  simp only [bind_assoc]
  refine (transmits_headerFields _).bind ?_
  refine (Transmits.write (Reads.readBE htxs)).bind ?_
  refine (Transmits.forM (fun i tx => (Transaction.transmits tx).wrapErr _) _ 0).bind ?_
  refine (FeeSummary.transmits _).bind ?_
  refine (Transmits.write (Reads.readBE hlen)).bind ?_
  refine Transmits.bind_failIf (Nat.not_lt.2 hsig) ?_
  refine ((Transmits.write (Reads.readFull _)).wrapErr _).bind ?_
  exact (transmits_events hevents).bind_pure (Reads.pure _)

variable (h : encodeBlockMessage block = .ok data)
include h

theorem decodeBlockMessage_append (extra : Bytes) :
    decodeBlockMessage (data ++ extra) = .ok block.stripped := by
  obtain ⟨blockBuf, hbuf, rfl⟩ := encodeBlockMessage_eq_ok.1 h
  obtain ⟨_, rfl, hb⟩ := transmits_block htxs hsig hevents _ _ _ hbuf
  have hne : blockBuf ≠ [] := by
    rintro rfl
    cases hb []
  have hlong : ¬ (blockMessageType :: (beBytes 4 blockBuf.length ++ blockBuf ++ extra)).length <
      6 := by
    have := List.length_pos_of_ne_nil hne
    simp only [List.length_cons, List.length_append, length_beBytes]
    omega
  have hread : Reads (readBE 4 >>= fun _ => decodeBlock)
      (beBytes 4 blockBuf.length ++ blockBuf) block.stripped := by
    have hlen := Reads.readBE_length (beBytes 4 blockBuf.length)
    exact hlen.bind hb
  refine except_bind_eq_ok.2 ⟨(), check_eq_ok.2 hlong, ?_⟩
  refine except_bind_eq_ok.2 ⟨(), check_eq_ok.2 (not_not.2 rfl), ?_⟩
  exact decodeFrom_eq_ok.2 ⟨extra, hread extra⟩

theorem decodeBlockMessage_encodeBlockMessage : decodeBlockMessage data = .ok block.stripped := by
  have happend := decodeBlockMessage_append htxs hsig hevents h []
  rwa [List.append_nil] at happend

end Dsn
