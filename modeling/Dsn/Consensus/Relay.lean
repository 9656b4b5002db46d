import Dsn.Consensus.Gossip
import Dsn.Consensus.Sealing

/-!
# Relaying blocks

A block that has travelled has no commit proof, so no validator accepts it.
-/

namespace Dsn

open Go

variable {block : Block} {data : Bytes}

/-- The counts fit into their four bytes. -/
structure WithinCodec (block : Block) : Prop where
  transactions : block.transactions.length < 256 ^ 4
  events : block.events.length < 256 ^ 4

theorem WithinCodec.decode_message (h : WithinCodec block)
    (hsig : block.signature.length ≤ maxSigLen) (hdata : encodeBlockMessage block = .ok data) :
    decodeBlockMessage data = .ok block.stripped :=
  decodeBlockMessage_encodeBlockMessage h.transactions hsig h.events hdata

theorem decodeBlock_signature {r r' : Bytes} (h : decodeBlock r = .ok block r') :
    block.signature.length ≤ maxSigLen := by
  iterate 4 obtain ⟨_, _, -, h⟩ := bind_eq_ok.1 h
  obtain ⟨signature, _, hsig, h⟩ := bind_eq_ok.1 h
  obtain ⟨_, _, -, h⟩ := bind_eq_ok.1 h
  obtain ⟨rfl, -⟩ := pure_eq_ok.1 h
  obtain ⟨sigLen, _, -, hsig⟩ := bind_eq_ok.1 hsig
  obtain ⟨hlimit, hsig⟩ := failIf_bind_eq_ok.1 hsig
  obtain ⟨rfl, -⟩ := readFull_eq_ok.1 (wrapErr_eq_ok.1 hsig)
  exact Nat.not_lt.1 hlimit

theorem decodeBlockMessage_signature (h : decodeBlockMessage data = .ok block) :
    block.signature.length ≤ maxSigLen := by
  obtain ⟨_, _, _, -, hb⟩ := decodeBlockMessage_eq_ok h
  exact decodeBlock_signature hb

theorem stripped_eq_iff : block.stripped = block ↔
    block.header.eventsRoot = zeroHash ∧ block.commitProof = none ∧ block.evidence = [] := by
  constructor
  · intro h
    rw [← h]
    exact ⟨rfl, rfl, rfl⟩
  · rintro ⟨hevents, hproof, hevidence⟩
    unfold Block.stripped
    rw [← hevents, ← hproof, ← hevidence]

/-- A message gives the block back exactly when it has nothing that the codec leaves out. -/
theorem relayed_iff {block : Block} {data : Bytes} (hcodec : WithinCodec block)
    (h : encodeBlockMessage block = .ok data) : decodeBlockMessage data = .ok block ↔
      block.header.eventsRoot = zeroHash ∧ block.commitProof = none ∧ block.evidence = [] ∧
        block.signature.length ≤ maxSigLen := by
  constructor
  · intro hdecode
    obtain ⟨hevents, hproof, hevidence⟩ := stripped_eq_iff.1 (decodeBlockMessage_stripped hdecode)
    exact ⟨hevents, hproof, hevidence, decodeBlockMessage_signature hdecode⟩
  · rintro ⟨hevents, hproof, hevidence, hsig⟩
    have hstripped := stripped_eq_iff.2 ⟨hevents, hproof, hevidence⟩
    have hdecode := hcodec.decode_message hsig h
    rwa [hstripped] at hdecode

variable {parentHeader : BlockHeader} {expectedPrevHash : Hash} {vm : Option VM} {now : ℕ → UInt64}

theorem validateBlock_ne_ok [Crypto] (hproof : block.commitProof = none)
    (hheight : block.header.height ≠ 0) {s s' : InMemoryState} :
    validateBlock block parentHeader expectedPrevHash vm now s ≠ .ok () s' := by
  intro h
  obtain ⟨_, _, _, _, _, _, haccepted, -⟩ := validateBlock_eq_ok.1 h
  obtain ⟨proof, -, hsome, -⟩ := (validateCommitProof_eq_ok hheight).1 haccepted.proof
  cases hproof.symm.trans hsome

theorem validateBlock_received [Crypto] (h : decodeBlockMessage data = .ok block)
    (hheight : block.header.height ≠ 0) {s s' : InMemoryState} :
    validateBlock block parentHeader expectedPrevHash vm now s ≠ .ok () s' :=
  validateBlock_ne_ok (stripped_eq_iff.1 (decodeBlockMessage_stripped h)).2.1 hheight

open Sample

theorem firstBlock_relayed
    (hblock : block = firstBlock (sampleSeal zeroHash [1] []) sampleContext [] [] (sampleLedgerBegun
      sampleAccounts)) :
    validateBlock block sampleParent hashA (some sampleVM) (fun _ => 0)
        (sampleLedger sampleAccounts) = .ok () (committed (sampleLedgerBegun sampleAccounts)) ∧
      WithinCodec block ∧ ∃ data, encodeBlockMessage block = .ok data ∧
        decodeBlockMessage data = .ok block.stripped := by
  subst hblock
  have hcodec : WithinCodec (firstBlock (sampleSeal zeroHash [1] []) sampleContext [] []
      (sampleLedgerBegun sampleAccounts)) := ⟨by decide, by decide⟩
  refine ⟨firstBlock_accepted zeroHash [1] [] rfl (by decide) rfl rfl, hcodec, _, rfl, ?_⟩
  exact hcodec.decode_message (show [1].length ≤ maxSigLen by decide) rfl

theorem relayed_block_rejected : ∃ (block received : Block) (data : Bytes) (s s' : InMemoryState),
    WithinCodec block ∧ encodeBlockMessage block = .ok data ∧
    decodeBlockMessage data = .ok received ∧ received ≠ block ∧
    validateBlock block sampleParent hashA (some sampleVM) (fun _ => 0) s = .ok () s' ∧
    ∀ t, validateBlock received sampleParent hashA (some sampleVM) (fun _ => 0) s ≠ .ok () t := by
  obtain ⟨haccepted, hcodec, data, hdata, hdecode⟩ := firstBlock_relayed rfl
  refine ⟨_, _, data, _, _, hcodec, hdata, hdecode, ?_, haccepted, fun t => ?_⟩
  · intro hsame
    cases (stripped_eq_iff.1 hsame).2.1
  · exact validateBlock_received hdecode (by decide)

theorem relayed_payment : ∃ (block : Block) (data : Bytes),
    block.transactions = [samplePayment] ∧ WithinCodec block ∧
    encodeBlockMessage block = .ok data ∧ decodeBlockMessage data = .ok block := by
  let block := (firstBlock (sampleSeal zeroHash [1] []) sampleContext [samplePayment] []
    (sampleLedgerBegun sampleAccounts)).stripped
  have hcodec : WithinCodec block := ⟨by decide, by decide⟩
  obtain ⟨data, hdata⟩ : ∃ data, encodeBlockMessage block = .ok data := ⟨_, rfl⟩
  exact ⟨block, data, rfl, hcodec, hdata,
    (relayed_iff hcodec hdata).2 ⟨rfl, rfl, rfl, show [1].length ≤ maxSigLen by decide⟩⟩

end Dsn
