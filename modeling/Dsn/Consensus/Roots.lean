import Dsn.Types.Codec
import Dsn.Consensus.Block
import Dsn.State.History

/-!
# What the roots of a block bind

A root is the hash of the hashes of the encoded items. Of a transaction beyond the limits only what
was written of it is hashed, of an event nothing.
-/

namespace Dsn

open Go

section

variable [Crypto]

/-! ### The hash of the hashes -/

def hashList (bs : List Bytes) : Hash := sha256 (bs.flatMap fun b => (sha256 b).bytes)

def hashListInputs (bs : List Bytes) : List Bytes := (bs.flatMap fun b => (sha256 b).bytes) :: bs

theorem hashList_inj {bs bs' : List Bytes}
    (hfree : CollisionFree (hashListInputs bs ++ hashListInputs bs'))
    (h : hashList bs = hashList bs') : bs = bs' := by
  have hsub := List.subset_append_left (hashListInputs bs) (hashListInputs bs')
  have hsub' := List.subset_append_right (hashListInputs bs) (hashListInputs bs')
  have hconcat := hfree.inj _ (hsub List.mem_cons_self) _ (hsub' List.mem_cons_self) h
  -- a concatenation of 32-byte hashes falls apart in one way
  have hhashes : bs.map sha256 = bs'.map sha256 := by
    have hne (a : Hash) : a.bytes ≠ [] := fun ha => by
      have hlen := a.length_eq
      rw [ha] at hlen
      cases hlen
    have hflat : (bs.map sha256).flatMap FixedBytes.bytes =
        (bs'.map sha256).flatMap FixedBytes.bytes := by
      rw [List.flatMap_map, List.flatMap_map]
      exact hconcat
    exact Reads.flatMap_inj Reads.readFixed hne hflat
  refine eq_of_map_eq (fun b hb b' hb' heq => ?_) hhashes
  exact hfree.inj b (hsub (List.mem_cons_of_mem _ hb)) b' (hsub' (List.mem_cons_of_mem _ hb')) heq

theorem hashList_ne_zero {bs : List Bytes} (hfree : CollisionFree (hashListInputs bs)) :
    hashList bs ≠ zeroHash :=
  hfree.ne_zero _ List.mem_cons_self

/-! ### Transactions -/

def txBuffers (txs : List Transaction) : List Bytes := txs.map fun tx => written tx.encode

def txRootInputs (txs : List Transaction) : List Bytes := hashListInputs (txBuffers txs)

theorem computeTxRoot_eq (txs : List Transaction) :
    computeTxRoot txs = if txs = [] then zeroHash else hashList (txBuffers txs) := by
  unfold hashList txBuffers
  rw [List.flatMap_map]
  exact if_congr List.length_eq_zero_iff rfl rfl

theorem computeTxRoot_eq_iff {txs txs' : List Transaction}
    (hfree : CollisionFree (txRootInputs txs ++ txRootInputs txs')) :
    computeTxRoot txs = computeTxRoot txs' ↔ txBuffers txs = txBuffers txs' := by
  have hnil (l : List Transaction) : txBuffers l = [] ↔ l = [] := List.map_eq_nil_iff
  have hne := hashList_ne_zero (hfree.mono (List.subset_append_left _ _))
  have hne' := hashList_ne_zero (hfree.mono (List.subset_append_right _ _))
  rw [computeTxRoot_eq, computeTxRoot_eq]
  by_cases h : txs = [] <;> by_cases h' : txs' = []
  · simp [h, h']
  · rw [if_neg h', h]
    exact iff_of_false hne'.symm fun heq => h' ((hnil txs').1 heq.symm)
  · rw [if_neg h, h']
    exact iff_of_false hne fun heq => h ((hnil txs).1 heq)
  · rw [if_neg h, if_neg h']
    exact ⟨hashList_inj hfree, fun heq => by rw [heq]⟩

end

def Transaction.encodeUntyped (tx : Transaction) : Exec Bytes Unit := do
  write (beBytes 2 tx.version.toNat)
  write (beBytes 4 tx.chainID.toNat)
  write tx.intentID.bytes
  write tx.sender.bytes
  write (putUint64 tx.nonce)
  writeVarBytes tx.payload
  writeVarBytes tx.constraints
  write (putUint64 tx.maxFee)
  write (putUint64 tx.gasLimit)
  write (putUint64 tx.timestamp)
  failIf (tx.signature.length > 255) errSignatureMissing
  write [UInt8.ofNat tx.signature.length]
  write tx.signature

theorem Transaction.encode_eq (tx : Transaction) (t : TxType) :
    ({ tx with txType := t } : Transaction).encode =
      tx.encodeUntyped >>= fun _ => write [t] := by
  unfold encode encodeUntyped
  simp only [bind_assoc]

theorem Transaction.written_of_not_encodable {tx : Transaction} (h : ¬ tx.Encodable) (t : TxType) :
    written ({ tx with txType := t } : Transaction).encode = written tx.encode := by
  have htx : tx.encode = tx.encodeUntyped >>= fun _ => write [tx.txType] := tx.encode_eq tx.txType
  cases hrun : tx.encodeUntyped [] with
  | ok u buf =>
    have hencode : tx.encode [] = .ok () (buf ++ [tx.txType]) := by
      rw [htx, bind_eq_ok_of hrun]
      rfl
    exact absurd (encodable_of_encode hencode) h
  | error e buf =>
    unfold written
    rw [encode_eq, htx, bind_eq_error_of hrun, bind_eq_error_of hrun]

theorem Transaction.eq_of_written {tx tx' : Transaction} (h : tx.Encodable)
    (heq : written tx.encode = written tx'.encode) : tx = tx' := by
  obtain ⟨buf, hrun, -⟩ := appends_encode h []
  exact tx.matches.written_inj tx'.matches hrun heq

theorem txBuffers_inj_iff {txs : List Transaction} :
    (∀ txs', txBuffers txs' = txBuffers txs → txs' = txs) ↔ ∀ tx ∈ txs, tx.Encodable := by
  constructor
  · intro h tx htx
    by_contra hnot
    obtain ⟨pre, post, rfl⟩ := List.append_of_mem htx
    let other : Transaction := { tx with txType := tx.txType + 1 }
    have hsame : txBuffers (pre ++ other :: post) = txBuffers (pre ++ tx :: post) := by
      simp only [txBuffers, List.map_append, List.map_cons, other,
        Transaction.written_of_not_encodable hnot]
    have hother := (List.cons.inj (List.append_cancel_left (h _ hsame))).1
    have htype : tx.txType + 1 = tx.txType := congrArg Transaction.txType hother
    simp at htype
  · intro h txs' heq
    refine (eq_of_map_eq (fun tx htx tx' _ hw => ?_) heq.symm).symm
    exact Transaction.eq_of_written (h tx htx) hw

/-! ### Events -/

instance (e : Event) : Decidable e.Encodable :=
  decidable_of_iff (e.topic.length ≤ maxVarBytesLength ∧ e.data.length ≤ maxVarBytesLength)
    ⟨fun h => ⟨h.1, h.2⟩, fun h => ⟨h.1, h.2⟩⟩

def encodableEvents (events : List Event) : List Event := events.filter fun e => decide e.Encodable

def eventBuffers (events : List Event) : List Bytes :=
  (encodableEvents events).map fun e => written e.encode

theorem Event.eq_of_written {e e' : Event} (h : e.Encodable) (h' : e'.Encodable)
    (heq : written e.encode = written e'.encode) : e = e' := by
  obtain ⟨buf, hrun, -⟩ := appends_encode h []
  obtain ⟨buf', hrun', -⟩ := appends_encode h' []
  obtain ⟨b, rfl, hb⟩ := e.transmits _ _ _ hrun
  obtain ⟨b', rfl, hb'⟩ := e'.transmits _ _ _ hrun'
  unfold written at heq
  rw [hrun, hrun'] at heq
  cases heq
  exact hb.inj hb'

theorem eventBuffers_inj {events events' : List Event}
    (h : eventBuffers events = eventBuffers events') :
    encodableEvents events = encodableEvents events' := by
  refine eq_of_map_eq (fun e he e' he' hw => ?_) h
  exact Event.eq_of_written (of_decide_eq_true (List.mem_filter.1 he).2)
    (of_decide_eq_true (List.mem_filter.1 he').2) hw

section

variable [Crypto]

def eventsRootInputs (events : List Event) : List Bytes := hashListInputs (eventBuffers events)

theorem flatMap_eventBuffers (events : List Event) :
    (events.flatMap fun ev => match ev.encode [] with
      | .ok _ buf => (sha256 buf).bytes
      | .error _ _ => []) = (eventBuffers events).flatMap fun b => (sha256 b).bytes := by
  induction events with
  | nil => rfl
  | cons e events ih =>
    unfold eventBuffers encodableEvents at ih ⊢
    rw [List.flatMap_cons, ih, List.filter_cons]
    cases hrun : e.encode [] with
    | ok u buf =>
      rw [if_pos (decide_eq_true (Event.encodable_of_encode hrun)), List.map_cons,
        List.flatMap_cons]
      simp only [written, hrun, finalState]
    | error err buf =>
      have hnot : ¬ e.Encodable := by
        intro h
        obtain ⟨buf', hrun', -⟩ := Event.appends_encode h []
        cases hrun.symm.trans hrun'
      rw [if_neg (by simpa using hnot), List.nil_append]

theorem computeEventsRoot_eq (events : List Event) :
    computeEventsRoot events =
      if events = [] then zeroHash else hashList (eventBuffers events) := by
  exact if_congr List.length_eq_zero_iff rfl (congrArg sha256 (flatMap_eventBuffers events))

theorem computeEventsRoot_eq_iff {events events' : List Event}
    (hfree : CollisionFree (eventsRootInputs events ++ eventsRootInputs events')) :
    computeEventsRoot events = computeEventsRoot events' ↔
      (events = [] ↔ events' = []) ∧ encodableEvents events = encodableEvents events' := by
  have hne := hashList_ne_zero (hfree.mono (List.subset_append_left _ _))
  have hne' := hashList_ne_zero (hfree.mono (List.subset_append_right _ _))
  rw [computeEventsRoot_eq, computeEventsRoot_eq]
  by_cases h : events = [] <;> by_cases h' : events' = []
  · simp [h, h']
  · rw [if_pos h, if_neg h']
    exact iff_of_false hne'.symm fun hboth => h' (hboth.1.1 h)
  · rw [if_neg h, if_pos h']
    exact iff_of_false hne fun hboth => h (hboth.1.2 h')
  · rw [if_neg h, if_neg h']
    refine ⟨fun heq => ⟨by simp only [h, h'], eventBuffers_inj (hashList_inj hfree heq)⟩, ?_⟩
    rintro ⟨-, heq⟩
    unfold eventBuffers
    rw [heq]

/-- A root determines its transactions exactly when all of them can be encoded. -/
theorem roots_bind_iff {txs : List Transaction} (htxs : CollisionFree (txRootInputs txs)) :
    ((∀ txs', CollisionFree (txRootInputs txs ++ txRootInputs txs') →
        computeTxRoot txs' = computeTxRoot txs → txs' = txs) ↔ ∀ tx ∈ txs, tx.Encodable) ∧
      ∀ events events', CollisionFree (eventsRootInputs events ++ eventsRootInputs events') →
        (computeEventsRoot events = computeEventsRoot events' ↔
          (events = [] ↔ events' = []) ∧ encodableEvents events = encodableEvents events') := by
  refine ⟨?_, fun events events' => computeEventsRoot_eq_iff⟩
  rw [← txBuffers_inj_iff]
  constructor
  · intro h txs' heq
    have hfree : CollisionFree (txRootInputs txs ++ txRootInputs txs') := by
      have hinputs : txRootInputs txs' = txRootInputs txs := congrArg hashListInputs heq
      rw [hinputs]
      exact htxs.twice
    exact h txs' hfree ((computeTxRoot_eq_iff hfree).2 heq.symm).symm
  · intro h txs' hfree hroot
    exact h txs' ((computeTxRoot_eq_iff hfree).1 hroot.symm).symm

end

/-! ### Items beyond the limits -/

@[reducible] def lengthCrypto : Crypto :=
  ⟨fun b => FixedBytes.copy 32 [1, UInt8.ofNat b.length], fun _ _ _ => true⟩

def payloadTx (n : ℕ) (t : TxType) : Transaction where
  version := 1
  chainID := 1
  intentID := zeroHash
  sender := zeroAddress
  nonce := 1
  payload := List.replicate n 0
  constraints := []
  maxFee := 0
  gasLimit := 0
  timestamp := 0
  signature := []
  txType := t

def topicEvent (n : ℕ) : Event := ⟨zeroHash, List.replicate n 0, [], 0, 0⟩

attribute [local instance] lengthCrypto

theorem sha256_lengthCrypto_inj {b b' : Bytes} (hlen : b.length < 256) (hlen' : b'.length < 256)
    (h : sha256 b = sha256 b') : b.length = b'.length := by
  have hbytes := congrArg (fun a : Hash => a.bytes.take 2) h
  have htwo : [1, UInt8.ofNat b.length] = [1, UInt8.ofNat b'.length] := hbytes
  simp only [List.cons.injEq, true_and, and_true] at htwo
  have hnat := congrArg UInt8.toNat htwo
  rwa [UInt8.toNat_ofNat_of_lt' hlen, UInt8.toNat_ofNat_of_lt' hlen'] at hnat

theorem sha256_lengthCrypto_ne_zero (b : Bytes) : sha256 b ≠ zeroHash := by
  intro h
  cases congrArg (fun a : Hash => a.bytes.head?) h

theorem collisionFree_singleton {b : Bytes} (hlen : b.length < 256) (hne : b.length ≠ 32) :
    CollisionFree (hashListInputs [b]) := by
  have hhash : ([b].flatMap fun b => (sha256 b).bytes).length = 32 := by
    exact (sha256 b).length_eq
  refine ⟨fun c hc c' hc' heq => ?_, fun c _ => sha256_lengthCrypto_ne_zero c⟩
  have hshort : ∀ d ∈ hashListInputs [b], d.length < 256 := by
    intro d hd
    rcases List.mem_cons.1 hd with rfl | hd
    · omega
    · rwa [List.mem_singleton.1 hd]
  have hlens := sha256_lengthCrypto_inj (hshort c hc) (hshort c' hc') heq
  rcases List.mem_cons.1 hc with rfl | hc <;> rcases List.mem_cons.1 hc' with rfl | hc'
  · rfl
  · rw [List.mem_singleton.1 hc'] at hlens
    exact absurd hlens.symm hne
  · rw [List.mem_singleton.1 hc] at hlens
    exact absurd hlens hne
  · rw [List.mem_singleton.1 hc, List.mem_singleton.1 hc']

theorem roots_bind_payment : CollisionFree (txRootInputs [samplePayment]) ∧
    ∀ txs', CollisionFree (txRootInputs [samplePayment] ++ txRootInputs txs') →
      computeTxRoot txs' = computeTxRoot [samplePayment] → txs' = [samplePayment] := by
  have hencodable : samplePayment.Encodable := ⟨by decide, by decide, by decide⟩
  have hlen : (written samplePayment.encode).length = 164 := by
    obtain ⟨buf, hrun, hlen⟩ := Transaction.appends_encode hencodable []
    unfold written
    rw [hrun]
    exact hlen
  have hfree : CollisionFree (txRootInputs [samplePayment]) :=
    collisionFree_singleton (b := written samplePayment.encode) (by omega) (by omega)
  exact ⟨hfree, (roots_bind_iff hfree).1.2 (List.forall_mem_singleton.2 hencodable)⟩

theorem length_written_payloadTx {n : ℕ} (hn : n > maxVarBytesLength) (t : TxType) :
    (written (payloadTx n t).encode).length = 66 := by
  have hlong : (payloadTx n t).payload.length > maxVarBytesLength := by
    rw [payloadTx, List.length_replicate]
    exact hn
  have hfail : (payloadTx n t).encode [] = .error errInvalidEncoding
      (beBytes 2 1 ++ beBytes 4 1 ++ zeroHash.bytes ++ zeroAddress.bytes ++ putUint64 1) := by
    iterate 5 refine (bind_eq_ok_of rfl).trans ?_
    exact bind_eq_error_of (bind_eq_error_of (failIf_of _ hlong _))
  unfold written
  rw [hfail]
  rfl

theorem oversized_items_unbound :
    (¬ ∀ (_ : Crypto) (txs txs' : List Transaction),
      CollisionFree (txRootInputs txs ++ txRootInputs txs') →
        computeTxRoot txs = computeTxRoot txs' → txs = txs') ∧
    ¬ ∀ (_ : Crypto) (events events' : List Event),
      CollisionFree (eventsRootInputs events ++ eventsRootInputs events') →
        computeEventsRoot events = computeEventsRoot events' → events = events' := by
  obtain ⟨n, hn⟩ : ∃ n, n > maxVarBytesLength := ⟨_, Nat.lt_succ_self _⟩
  constructor
  · intro h
    have hnot : ¬ (payloadTx n 0).Encodable := by
      intro hencodable
      have hle := hencodable.payload
      rw [payloadTx, List.length_replicate] at hle
      omega
    have hsame : txBuffers [payloadTx n 1] = txBuffers [payloadTx n 0] :=
      congrArg ([·]) (Transaction.written_of_not_encodable hnot 1)
    have hinputs : txRootInputs [payloadTx n 1] = txRootInputs [payloadTx n 0] :=
      congrArg hashListInputs hsame
    have hone : CollisionFree (txRootInputs [payloadTx n 0]) := by
      have hlen := length_written_payloadTx hn 0
      exact collisionFree_singleton (b := written (payloadTx n 0).encode) (by omega) (by omega)
    have hfree : CollisionFree (txRootInputs [payloadTx n 1] ++ txRootInputs [payloadTx n 0]) := by
      rw [hinputs]
      exact hone.twice
    have heq := h lengthCrypto _ _ hfree ((computeTxRoot_eq_iff hfree).2 hsame)
    cases congrArg Transaction.txType (List.cons.inj heq).1
  · intro h
    have hnot : ¬ (topicEvent n).Encodable := by
      intro hencodable
      have hle := hencodable.topic
      rw [topicEvent, List.length_replicate] at hle
      omega
    have hnone (events : List Event) (hall : ∀ e ∈ events, e = topicEvent n) :
        encodableEvents events = [] := by
      refine List.filter_eq_nil_iff.2 fun e he => ?_
      rw [hall e he, decide_eq_true_iff]
      exact hnot
    have hone := hnone [topicEvent n] (by simp)
    have htwo := hnone [topicEvent n, topicEvent n] (by simp)
    have hfree : CollisionFree (eventsRootInputs [topicEvent n] ++
        eventsRootInputs [topicEvent n, topicEvent n]) := by
      unfold eventsRootInputs eventBuffers
      rw [hone, htwo]
      have hnil : CollisionFree (hashListInputs []) :=
        .of_forall_eq (sha256_lengthCrypto_ne_zero []) fun _ => List.mem_singleton.1
      exact hnil.twice
    have heq := h lengthCrypto _ _ hfree ((computeEventsRoot_eq_iff hfree).2
      ⟨by simp, hone.trans htwo.symm⟩)
    cases congrArg List.length heq

end Dsn
