import Dsn.Consensus.Completeness
import Dsn.Consensus.Persist
import Dsn.Mempool.Contents
import Dsn.Network.Message
import Dsn.State.Transfer

/-!
# Delivering a built block

The receiver refuses messages of more than 1 MiB, the builder never looks at the size.
-/

namespace Dsn

open Go InMemoryState

/-- The block fits into one message. -/
def Delivered (block : Block) : Prop :=
  ∃ data, encodeBlockMessage block = .ok data ∧ data.length ≤ maxPayloadSize

structure Fits (txs : List Transaction) (sigLen : ℕ) (events : List Event) : Prop where
  signatures : ∀ tx ∈ txs, tx.signature.length ≤ 255
  size : messageSize txs sigLen events ≤ maxPayloadSize

variable {block : Block}

theorem Fits.encodable
    (h : Fits block.transactions block.signature.length block.events) : block.Encodable := by
  obtain ⟨hsigs, hsize⟩ := h
  unfold messageSize maxPayloadSize at hsize
  constructor
  · intro tx htx
    have hle : tx.encodedSize ≤ (block.transactions.map Transaction.encodedSize).sum :=
      List.single_le_sum (by simp) _ (List.mem_map_of_mem htx)
    have htx_size : tx.encodedSize = 100 + tx.payload.length + tx.constraints.length +
      tx.signature.length := rfl
    refine ⟨?_, ?_, hsigs tx htx⟩ <;> unfold maxVarBytesLength <;> omega
  · intro event hevent
    have hle : event.encodedSize ≤ (block.events.map Event.encodedSize).sum :=
      List.single_le_sum (by simp) _ (List.mem_map_of_mem hevent)
    have hevent_size : event.encodedSize = 52 + event.topic.length + event.data.length := rfl
    constructor <;> unfold maxVarBytesLength <;> omega

theorem delivered_iff :
    Delivered block ↔ Fits block.transactions block.signature.length block.events := by
  rw [Delivered, exists_encodeBlockMessage_iff]
  constructor
  · rintro ⟨hencodable, hsize⟩
    exact ⟨fun tx htx => (hencodable.transactions tx htx).signature, hsize⟩
  · intro h
    exact ⟨h.encodable, h.size⟩

section

variable [Crypto]

/-- What is picked and emitted fits into one message. -/
def Deliverable (inp : BuildInput) (sigLen : ℕ) (s : InMemoryState) : Prop :=
  ∀ txs start s₁ rs s₂, inp.Picks txs → startBlock inp.evidence inp.height s = .ok start s₁ →
    runLoop inp.context 0 txs s₁ = .ok rs s₂ → Fits txs sigLen (emitted rs)

variable {inp : BuildInput}

omit [Crypto] in
theorem BuildInput.Picks.unique {txs txs' : List Transaction}
    (h : inp.Picks txs) (h' : inp.Picks txs') : txs = txs' := by
  obtain ⟨taken, htake, rfl⟩ := h
  obtain ⟨taken', htake', rfl⟩ := h'
  cases htake.symm.trans htake'
  rfl

theorem BuiltBlock.deliverable_iff {block : Block} {s s1 s2 s3 : InMemoryState}
    {start : UInt64 × Hash} {rs : List TxResult} {active : List Validator} {sigLen : ℕ}
    (hb : BuiltBlock inp block s s1 s2 s3 start rs active) :
    Deliverable inp sigLen s ↔ Fits block.transactions sigLen block.events := by
  obtain ⟨hstart, hloop, -⟩ := hb.executed
  rw [hb.events_eq]
  constructor
  · intro h
    exact h _ _ _ _ _ hb.picks hstart hloop
  · intro h txs start' t1 rs' t2 hpicks hstart' hloop'
    -- picking and executing have one result
    obtain rfl := hb.picks.unique hpicks
    cases hstart.symm.trans hstart'
    cases hloop.symm.trans hloop'
    exact h

/-- Which built blocks are encoded, and are short enough for a peer. -/
theorem block_delivered_iff {inp : BuildInput} {block : Block} {s s' : InMemoryState} {sigLen : ℕ}
    (hsign : ∀ hash sig, inp.sign hash = .ok sig → sig.length = sigLen)
    (hbuild : buildBlock inp s = .ok block s') : Delivered block ↔ Deliverable inp sigLen s := by
  obtain ⟨s₁, s₂, s₃, start, rs, active, hb, -⟩ := buildBlock_eq_ok.1 hbuild
  rw [delivered_iff, hb.deliverable_iff, hsign _ _ hb.signed]

end

/-! ### A payment with a long payload -/

def paddedPayment (n : ℕ) : Transaction :=
  { samplePayment with payload := List.replicate 28 0 ++ List.replicate n 0 }

theorem encodedSize_paddedPayment (n : ℕ) : (paddedPayment n).encodedSize = 192 + n := by
  have hsig : samplePayment.signature.length = 64 := List.length_replicate
  simp only [Transaction.encodedSize, paddedPayment, List.length_append, List.length_replicate,
    hsig, show samplePayment.constraints.length = 0 from rfl]
  omega

theorem not_delivered_paddedPayment {n : ℕ}
    (htxs : block.transactions = [paddedPayment n]) (hn : maxPayloadSize ≤ n + 28) :
    ¬ Delivered block := by
  intro h
  have hsize := (delivered_iff.1 h).size
  rw [htxs, messageSize, List.map_singleton, List.sum_singleton, encodedSize_paddedPayment] at hsize
  omega

open Sample

theorem runTx_paddedPayment (n : ℕ) (s : InMemoryState) :
    runTx sampleContext 0 (paddedPayment n) s = runTx sampleContext 0 (paddedPayment 0) s := by
  have hlen : 28 ≤ (List.replicate 28 (0 : UInt8)).length := by rw [List.length_replicate]
  have happly (m : ℕ) (t : InMemoryState) : applyTransaction 0 (paddedPayment m) t =
      applyTransaction 0 { samplePayment with payload := List.replicate 28 0 } t :=
    applyTransaction_append_payload rfl hlen t
  show EStateM.bind (applyTransaction 0 (paddedPayment n)) _ s =
    EStateM.bind (applyTransaction 0 (paddedPayment 0)) _ s
  unfold EStateM.bind
  rw [happly, happly]

theorem buildBlock_paddedPayment (n : ℕ) : ∃ block s',
    buildBlock (sampleInput [paddedPayment n]) (sampleLedger sampleAccounts) = .ok block s' ∧
      block.transactions = [paddedPayment n] ∧ block.events = [] := by
  obtain ⟨r, s2, hrun, hr⟩ := exists_of_succeedsWith (show succeedsWith
    (fun r s2 => r.events = [] ∧ succeedsWith (fun _ s3 => (getActiveValidators s3).isOk)
      (finalizeBlock (newFeeSummary 100) s2))
    (runTx sampleContext 0 (paddedPayment 0) (sampleLedgerBegun sampleAccounts)) = true
    by decide +kernel)
  obtain ⟨hevents, hfinal⟩ := of_decide_eq_true hr
  obtain ⟨u, s3, hfin, hok⟩ := exists_of_succeedsWith hfinal
  cases hactive : getActiveValidators s3 with
  | error e =>
    rw [hactive] at hok
    cases hok
  | ok active =>
    have hloop := runLoop_singleton ((runTx_paddedPayment n _).trans hrun)
    refine ⟨⟨(sampleInput [paddedPayment n]).header [paddedPayment n]
      (0, computeValidatorSetHash [sampleValidator]) s3.stateRoot active, [paddedPayment n],
      newFeeSummary 100, [0], none, emitted [r], []⟩, committed s3, ?_, rfl, ?_⟩
    · exact buildBlock_eq_ok.2 ⟨_, s2, s3, _, [r], active, ⟨⟨_, rfl, rfl⟩,
        ⟨startBlock_sampleLedger sampleAccounts, hloop, hfin⟩, hactive, rfl, rfl, rfl, rfl, rfl,
        rfl⟩, rfl⟩
    · simp [emitted, hevents]

theorem block_delivered_payment : ∃ block s',
    buildBlock (sampleInput [paddedPayment 0]) (sampleLedger sampleAccounts) = .ok block s' ∧
      block.transactions = [paddedPayment 0] ∧ Delivered block := by
  obtain ⟨block, s', hbuild, htxs, hevents⟩ := buildBlock_paddedPayment 0
  have hsign : ∀ hash sig, (sampleInput [paddedPayment 0]).sign hash = .ok sig →
      sig.length = 1 := by
    rintro _ _ ⟨⟩
    rfl
  refine ⟨block, s', hbuild, htxs, (block_delivered_iff hsign hbuild).2 ?_⟩
  obtain ⟨s₁, s₂, s₃, start, rs, active, hb, -⟩ := buildBlock_eq_ok.1 hbuild
  rw [hb.deliverable_iff, htxs, hevents]
  constructor <;> decide

def longPool : Mempool :=
  runPool (sampleLedger sampleAccounts) [.submit ⟨0, 0⟩ none (some (paddedPayment 1048548))]
    (Mempool.newWithPersistence 1 0 none)

theorem longPool_eq :
    longPool = (Mempool.newWithPersistence 1 0 none).add (paddedPayment 1048548) 0 := by
  obtain ⟨u, mp, hsubmit, -⟩ := exists_of_succeedsWith (show succeedsWith (fun _ _ => true)
    (Mempool.submit (sampleLedger sampleAccounts) ⟨0, 0⟩ none (some (paddedPayment 1048548))
      (Mempool.newWithPersistence 1 0 none)) = true by decide +kernel)
  obtain ⟨⟨expected, hacc⟩, hdb⟩ := submit_eq_ok_iff.1 ⟨mp, hsubmit⟩
  exact congrArg finalState (submit_of_persists hacc hdb)

theorem pendingTxs_longPool :
    (longPool.pendingTxs (fun _ => 0) fun _ => 0).1 = [paddedPayment 1048548] := by
  have hone : (longPool.pendingTxs (fun _ => 0) fun _ => 0).1.length = 1 := by decide +kernel
  obtain ⟨tx, htx⟩ := List.length_eq_one_iff.1 hone
  have hconsistent : Consistent longPool := runPool_consistent (new_consistent 1 0 none) _
  have hheld : longPool.txs[(paddedPayment 1048548).intentID]? =
      some ⟨paddedPayment 1048548, 0⟩ := by
    rw [longPool_eq]
    exact Map.get_insert_self _ _ _
  have hmem : paddedPayment 1048548 ∈ (longPool.pendingTxs (fun _ => 0) fun _ => 0).1 := by
    refine (mem_pendingTxs_iff hconsistent _ _).2 ⟨_, hheld, rfl, ?_, ?_⟩ <;> rw [longPool_eq] <;>
      exact le_refl 0
  rw [htx] at hmem ⊢
  rw [List.mem_singleton.1 hmem]

theorem long_payment_undelivered : ¬ ∀ (_ : Crypto) (s s' : InMemoryState) (maxSize ttl : ℤ)
    (db : Option (Map Hash Bytes)) (calls : List PoolCall) (now later : Hash → ℤ)
    (inp : BuildInput) (block : Block),
      inp.pending = ((runPool s calls
        (Mempool.newWithPersistence maxSize ttl db)).pendingTxs now later).1 →
      buildBlock inp s = .ok block s' → Delivered block := by
  intro h
  obtain ⟨block, s', hbuild, htxs, -⟩ := buildBlock_paddedPayment 1048548
  refine not_delivered_paddedPayment (n := 1048548) htxs (by decide) ?_
  exact h sampleCrypto (sampleLedger sampleAccounts) s' 1 0 none
    [.submit ⟨0, 0⟩ none (some (paddedPayment 1048548))] (fun _ => 0) (fun _ => 0)
    (sampleInput [paddedPayment 1048548]) block pendingTxs_longPool.symm hbuild

end Dsn
