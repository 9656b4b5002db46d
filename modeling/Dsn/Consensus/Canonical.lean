import Dsn.Consensus.Persist
import Dsn.Consensus.Relay
import Dsn.Types.Codec

/-!
# One block, several messages

The decoder stops at the end of the block and never compares the length field with what follows it,
so a message can be lengthened. Below, the set of hashes that suppresses duplicates.
-/

namespace Dsn

open Go

/-! ### Fields are written as they were read -/

theorem readUint32_eq_ok {v : UInt32} {r r' : Bytes} (h : readUint32 r = .ok v r') :
    r = beBytes 4 v.toNat ++ r' := by
  obtain ⟨n, _, hn, h⟩ := bind_eq_ok.1 h
  obtain ⟨rfl, rfl⟩ := pure_eq_ok.1 h
  obtain ⟨hlt, rfl⟩ := readBE_eq_ok.1 hn
  rw [UInt32.toNat_ofNat_of_lt' hlt]

theorem readUint16_eq_ok {v : UInt16} {r r' : Bytes} (h : readUint16 r = .ok v r') :
    r = beBytes 2 v.toNat ++ r' := by
  obtain ⟨n, _, hn, h⟩ := bind_eq_ok.1 h
  obtain ⟨rfl, rfl⟩ := pure_eq_ok.1 h
  obtain ⟨hlt, rfl⟩ := readBE_eq_ok.1 hn
  rw [UInt16.toNat_ofNat_of_lt' hlt]

section

variable {inp rest : Bytes}

theorem repeats_varBytes {b : Bytes} (h : readVarBytes inp = .ok b rest) :
    Repeats (writeVarBytes b) inp rest := by
  obtain ⟨n, _, hn, h⟩ := bind_eq_ok.1 h
  obtain ⟨hle, h⟩ := failIf_bind_eq_ok.1 h
  obtain ⟨rfl, rfl⟩ := readFull_eq_ok.1 h
  exact .failIf_bind hle ((Repeats.write (readBE_eq_ok.1 hn).2).bind (.write rfl))

theorem Event.repeats {e : Event} (h : Event.decode inp = .ok e rest) :
    Repeats e.encode inp rest := by
  obtain ⟨contractID, _, hid, h⟩ := bind_eq_ok.1 h
  obtain ⟨topic, _, htopic, h⟩ := bind_eq_ok.1 h
  obtain ⟨data, _, hdata, h⟩ := bind_eq_ok.1 h
  obtain ⟨blockHeight, _, hheight, h⟩ := bind_eq_ok.1 h
  obtain ⟨txIndex, _, hindex, h⟩ := bind_eq_ok.1 h
  obtain ⟨rfl, rfl⟩ := pure_eq_ok.1 h
  refine (Repeats.write (readFixed_eq_ok hid)).bind ?_
  refine (repeats_varBytes htopic).bind ((repeats_varBytes hdata).bind ?_)
  exact (Repeats.write (readUint64_eq_ok hheight)).bind (.write (readUint32_eq_ok hindex))

theorem readTxType_eq_ok {t : TxType} (h : readTxType inp = .ok t rest) (hrest : rest ≠ []) :
    inp = [t] ++ rest := by
  unfold readTxType at h
  cases hread : readBE 1 inp with
  | ok v r =>
    rw [hread] at h
    cases h
    obtain ⟨-, hinp⟩ := readBE_eq_ok.1 hread
    rw [hinp]
    simp [beBytes]
  | error e r =>
    rw [hread] at h
    cases h
    exact absurd (readBE_eq_error hread).2 hrest

theorem Transaction.repeats {tx : Transaction} (h : Transaction.decode inp = .ok tx rest)
    (hrest : rest ≠ []) : Repeats tx.encode inp rest := by
  obtain ⟨version, _, hversion, h⟩ := bind_eq_ok.1 h
  obtain ⟨chainID, _, hchain, h⟩ := bind_eq_ok.1 h
  obtain ⟨intentID, _, hintent, h⟩ := bind_eq_ok.1 h
  obtain ⟨sender, _, hsender, h⟩ := bind_eq_ok.1 h
  obtain ⟨nonce, _, hnonce, h⟩ := bind_eq_ok.1 h
  obtain ⟨payload, _, hpayload, h⟩ := bind_eq_ok.1 h
  obtain ⟨constraints, _, hconstraints, h⟩ := bind_eq_ok.1 h
  obtain ⟨maxFee, _, hfee, h⟩ := bind_eq_ok.1 h
  obtain ⟨gasLimit, _, hgas, h⟩ := bind_eq_ok.1 h
  obtain ⟨timestamp, _, htime, h⟩ := bind_eq_ok.1 h
  obtain ⟨signature, _, hsig, h⟩ := bind_eq_ok.1 h
  obtain ⟨txType, _, htype, h⟩ := bind_eq_ok.1 h
  obtain ⟨rfl, rfl⟩ := pure_eq_ok.1 h
  obtain ⟨sigLen, _, hsigLen, hsig⟩ := bind_eq_ok.1 hsig
  obtain ⟨rfl, rfl⟩ := readFull_eq_ok.1 hsig
  obtain ⟨hlt, hbyte⟩ := readBE_eq_ok.1 hsigLen
  have hone : beBytes 1 signature.length = [UInt8.ofNat signature.length] := by simp [beBytes]
  refine (Repeats.write (readUint16_eq_ok hversion)).bind ?_
  refine (Repeats.write (readUint32_eq_ok hchain)).bind ?_
  refine (Repeats.write (readFixed_eq_ok hintent)).bind ?_
  refine (Repeats.write (readFixed_eq_ok hsender)).bind ?_
  refine (Repeats.write (readUint64_eq_ok hnonce)).bind ?_
  refine (repeats_varBytes hpayload).bind ((repeats_varBytes hconstraints).bind ?_)
  refine (Repeats.write (readUint64_eq_ok hfee)).bind ?_
  refine (Repeats.write (readUint64_eq_ok hgas)).bind ?_
  refine (Repeats.write (readUint64_eq_ok htime)).bind ?_
  refine .failIf_bind (show ¬ signature.length > 255 by omega) ?_
  refine (Repeats.write hbyte).bind ((Repeats.write rfl).bind ?_)
  exact .write (readTxType_eq_ok htype hrest)

theorem repeats_headerFields {header : BlockHeader}
    (h : readHeaderFields inp = .ok header rest) :
    Repeats (encodeHeaderFields header) inp rest := by
  obtain ⟨version, _, hversion, h⟩ := bind_eq_ok.1 h
  obtain ⟨height, _, hheight, h⟩ := bind_eq_ok.1 h
  obtain ⟨previousHash, _, hprevious, h⟩ := bind_eq_ok.1 h
  obtain ⟨stateRoot, _, hstate, h⟩ := bind_eq_ok.1 h
  obtain ⟨txRoot, _, htx, h⟩ := bind_eq_ok.1 h
  obtain ⟨receiptRoot, _, hreceipt, h⟩ := bind_eq_ok.1 h
  obtain ⟨validatorRoot, _, hvalidator, h⟩ := bind_eq_ok.1 h
  obtain ⟨validatorSetHash, _, hset, h⟩ := bind_eq_ok.1 h
  obtain ⟨epoch, _, hepoch, h⟩ := bind_eq_ok.1 h
  obtain ⟨timestamp, _, htime, h⟩ := bind_eq_ok.1 h
  obtain ⟨proposer, _, hproposer, h⟩ := bind_eq_ok.1 h
  obtain ⟨rfl, rfl⟩ := pure_eq_ok.1 h
  have hhash {n : ℕ} {c : String} {r r' : Bytes} {a : FixedBytes n}
      (h : wrapErr c (readFixed n) r = .ok a r') : Repeats (write a.bytes) r r' :=
    .write (readFixed_eq_ok (wrapErr_eq_ok.1 h))
  refine (Repeats.write (readUint64_eq_ok hversion)).bind ?_
  refine (Repeats.write (readUint64_eq_ok hheight)).bind ?_
  refine (hhash hprevious).bind ((hhash hstate).bind ((hhash htx).bind ?_))
  refine (hhash hreceipt).bind ((hhash hvalidator).bind ((hhash hset).bind ?_))
  refine (Repeats.write (readUint64_eq_ok hepoch)).bind ?_
  exact (Repeats.write (readUint64_eq_ok htime)).bind (hhash hproposer)

theorem FeeSummary.repeats {f : FeeSummary} (h : FeeSummary.decode inp = .ok f rest) :
    Repeats f.encode inp rest := by
  obtain ⟨totalFees, _, htotal, h⟩ := bind_eq_ok.1 h
  obtain ⟨validatorShare, _, hvalidator, h⟩ := bind_eq_ok.1 h
  obtain ⟨burnShare, _, hburn, h⟩ := bind_eq_ok.1 h
  obtain ⟨treasuryShare, _, htreasury, h⟩ := bind_eq_ok.1 h
  obtain ⟨rfl, rfl⟩ := pure_eq_ok.1 h
  refine (Repeats.write (readUint64_eq_ok htotal)).bind ?_
  refine (Repeats.write (readUint64_eq_ok hvalidator)).bind ?_
  exact (Repeats.write (readUint64_eq_ok hburn)).bind (.write (readUint64_eq_ok htreasury))

def encodeBody (block : Block) : Exec Bytes Unit := do
  encodeHeaderFields block.header
  write (beBytes 4 block.transactions.length)
  block.transactions.forM Transaction.encode
  block.feeSummary.encode
  write (beBytes 4 block.signature.length)
  write block.signature

def encodeEvents (events : List Event) : Exec Bytes Unit := do
  write (beBytes 4 events.length)
  events.forM Event.encode

theorem encodeBlock_eq (block : Block) :
    encodeBlock block = (do encodeBody block; encodeEvents block.events) := by
  unfold encodeBlock encodeBody encodeEvents
  simp only [bind_assoc]

theorem readEvents_cases {events : List Event} (h : readEvents inp = .ok events rest) :
    Repeats (encodeEvents events) inp rest ∨ inp.length < 4 ∧ events = [] := by
  unfold readEvents at h
  cases hread : readBE 4 inp with
  | ok n r =>
    rw [hread] at h
    have hlen := (Returns.readMany (fun _ => .trivial _) n 0 _ _ _ h).1
    have hevents : Repeats (events.forM Event.encode) r rest :=
      Repeats.forM (P := fun _ => True) (fun _ _ h => h)
        (fun i inp e rest he _ => Event.repeats (wrapErr_eq_ok.1 he)) h trivial
    refine .inl ((Repeats.write ?_).bind hevents)
    rw [hlen]
    exact (readBE_eq_ok.1 hread).2
  | error e r =>
    rw [hread] at h
    cases h
    exact .inr ⟨(readBE_eq_error hread).1, rfl⟩

variable {block : Block}
  (h : decodeBlock inp = .ok block rest)
include h

theorem decodeBlock_cases :
    ∃ mid, Repeats (encodeBody block) inp mid ∧
      (Repeats (encodeEvents block.events) mid rest ∨ mid.length < 4 ∧ block.events = []) := by
  obtain ⟨header, _, hheader, h⟩ := bind_eq_ok.1 h
  obtain ⟨numTxs, _, hnum, h⟩ := bind_eq_ok.1 h
  obtain ⟨transactions, r, htxs, h⟩ := bind_eq_ok.1 h
  obtain ⟨feeSummary, _, hfees, h⟩ := bind_eq_ok.1 h
  obtain ⟨signature, mid, hsig, h⟩ := bind_eq_ok.1 h
  obtain ⟨events, _, hevents, h⟩ := bind_eq_ok.1 h
  obtain ⟨rfl, rfl⟩ := pure_eq_ok.1 h
  refine ⟨mid, ?_, readEvents_cases hevents⟩
  -- the transactions do not end the input, since the fees follow
  have hrest : r ≠ [] := by
    obtain ⟨totalFees, _, htotal, -⟩ := bind_eq_ok.1 hfees
    rw [readUint64_eq_ok htotal]
    exact List.append_ne_nil_of_left_ne_nil (List.cons_ne_nil _ _) _
  have hlen := (Returns.readMany (fun _ => .trivial _) numTxs 0 _ _ _ htxs).1
  have hcount := (readBE_eq_ok.1 hnum).2
  rw [← hlen] at hcount
  have hall : Repeats (transactions.forM Transaction.encode) _ r :=
    Repeats.forM (P := (· ≠ [])) (fun b rest h => List.append_ne_nil_of_right_ne_nil b h)
      (fun i inp tx rest htx => Transaction.repeats (wrapErr_eq_ok.1 htx)) htxs hrest
  -- the signature behind its length
  obtain ⟨sigLen, _, hsigLen, hsig⟩ := bind_eq_ok.1 hsig
  obtain ⟨-, hsig⟩ := failIf_bind_eq_ok.1 hsig
  obtain ⟨rfl, rfl⟩ := readFull_eq_ok.1 (wrapErr_eq_ok.1 hsig)
  refine (repeats_headerFields hheader).bind ((Repeats.write hcount).bind (hall.bind ?_))
  refine (FeeSummary.repeats hfees).bind ?_
  exact (Repeats.write (readBE_eq_ok.1 hsigLen).2).bind (.write rfl)

theorem encodeBlock_of_decodeBlock :
    ∃ buf, encodeBlock block [] = .ok () buf ∧ (inp = buf ++ rest ∨
      ∃ front mid, inp = front ++ mid ∧ mid.length < 4 ∧ buf = front ++ List.replicate 4 0) := by
  obtain ⟨mid, ⟨front, rfl, hfront⟩, hevents⟩ := decodeBlock_cases h
  have hrun {tail : Bytes} (htail : ∀ buf, encodeEvents block.events buf = .ok () (buf ++ tail)) :
      encodeBlock block [] = .ok () (front ++ tail) := by
    rw [encodeBlock_eq, bind_eq_ok_of (hfront []), htail]
    rfl
  rcases hevents with ⟨tail, rfl, htail⟩ | ⟨hshort, hnone⟩
  · exact ⟨_, hrun htail, .inl (List.append_assoc _ _ _).symm⟩
  · have hzero (buf : Bytes) :
        encodeEvents block.events buf = .ok () (buf ++ List.replicate 4 0) := by
      rw [hnone]
      rfl
    exact ⟨_, hrun hzero, .inr ⟨front, mid, rfl, hshort, rfl⟩⟩

end

/-! ### Messages -/

/-- A decoded message is the encoding of its block exactly when its lengths are right. -/
theorem canonical_message_iff {data : Bytes} {block : Block}
    (h : decodeBlockMessage data = .ok block) : encodeBlockMessage block = .ok data ↔
      data.length = messageSize block.transactions block.signature.length block.events ∧
        (data.drop 1).take 4 = beBytes 4 (data.length - 5) := by
  obtain ⟨length, payload, rest, rfl, hpayload⟩ := decodeBlockMessage_eq_ok h
  have hfield : ((blockMessageType :: (beBytes 4 length ++ payload)).drop 1).take 4 =
      beBytes 4 length := List.take_left' (length_beBytes 4 length)
  have hlen : (blockMessageType :: (beBytes 4 length ++ payload)).length = 5 + payload.length := by
    rw [List.length_cons, List.length_append, length_beBytes]
    omega
  rw [hfield, hlen, Nat.add_sub_cancel_left]
  obtain ⟨written, hwritten, hcases⟩ := encodeBlock_of_decodeBlock hpayload
  have hrun : encodeBlockMessage block =
      .ok (blockMessageType :: (beBytes 4 written.length ++ written)) :=
    encodeBlockMessage_eq_ok.2 ⟨written, hwritten, rfl⟩
  have hmessage := length_of_encodeBlockMessage hrun
  simp only [List.length_cons, List.length_append, length_beBytes] at hmessage
  constructor
  · intro hencode
    refine ⟨hlen.symm.trans (length_of_encodeBlockMessage hencode), ?_⟩
    have hsame := Except.ok.inj (hrun.symm.trans hencode)
    obtain ⟨hfirst, rfl⟩ := List.append_inj (List.cons.inj hsame).2
      (by rw [length_beBytes, length_beBytes])
    exact hfirst.symm
  · rintro ⟨hsize, hdeclared⟩
    rw [← hsize] at hmessage
    rcases hcases with rfl | ⟨front, mid, rfl, hshort, rfl⟩
    · rw [List.length_append] at hmessage
      obtain rfl : rest = [] := List.length_eq_zero_iff.1 (by omega)
      rw [hrun, hdeclared, List.append_nil]
    · simp only [List.length_append, List.length_replicate] at hmessage
      omega

/-! ### Duplicate suppression -/

structure SeenSet where
  hashes : Map Hash Unit
  order : List Hash
  max : ℕ
  mem_iff (h : Hash) : h ∈ hashes ↔ h ∈ order
  nodup : order.Nodup

namespace SeenSet

variable {s : SeenSet} {h h' : Hash}

def new (max : ℕ) : SeenSet where
  hashes := ∅
  order := []
  max := max
  mem_iff h := by simp
  nodup := .nil

def seen (s : SeenSet) (h : Hash) : Bool := decide (h ∈ s.hashes)

theorem seen_iff : s.seen h = true ↔ h ∈ s.order := decide_eq_true_iff.trans (s.mem_iff h)

@[simp] theorem seen_new (max : ℕ) (h : Hash) : (new max).seen h = false :=
  Bool.eq_false_iff.2 fun hseen => List.not_mem_nil (seen_iff.1 hseen)

def push (s : SeenSet) (h : Hash) (hnew : ¬ s.seen h = true) : SeenSet where
  hashes := s.hashes.insert h ()
  order := s.order ++ [h]
  max := s.max
  mem_iff x := by
    rw [Std.ExtTreeMap.mem_insert, s.mem_iff, Std.LawfulEqCmp.compare_eq_iff_eq, List.mem_append,
      List.mem_singleton, or_comm, eq_comm]
  nodup := by
    rw [seen_iff] at hnew
    exact List.nodup_append.2 ⟨s.nodup, List.nodup_singleton h, fun a ha b hb hab =>
      hnew (List.mem_singleton.1 hb ▸ hab ▸ ha)⟩

def evict (s : SeenSet) (oldest : Hash) (rest : List Hash) (horder : s.order = oldest :: rest) :
    SeenSet where
  hashes := s.hashes.erase oldest
  order := rest
  max := s.max
  mem_iff x := by
    have hnodup := List.nodup_cons.1 (horder ▸ s.nodup)
    rw [Std.ExtTreeMap.mem_erase, s.mem_iff, horder, List.mem_cons, Ne,
      Std.LawfulEqCmp.compare_eq_iff_eq]
    constructor
    · rintro ⟨hne, rfl | hx⟩
      · exact absurd rfl hne
      · exact hx
    · intro hx
      exact ⟨fun heq => hnodup.1 (heq ▸ hx), .inr hx⟩
  nodup := (List.nodup_cons.1 (horder ▸ s.nodup)).2

def mark (s : SeenSet) (h : Hash) : SeenSet :=
  if hseen : s.seen h = true then s
  else
    match horder : (s.push h hseen).order with
    | [] => s.push h hseen
    | oldest :: rest =>
      if (oldest :: rest).length > s.max then (s.push h hseen).evict oldest rest horder
      else s.push h hseen

theorem order_mark (hnew : s.seen h = false) :
    (s.mark h).order =
      (s.order ++ [h]).drop (if (s.order ++ [h]).length > s.max then 1 else 0) := by
  have hseen : ¬ s.seen h = true := by rw [hnew]; exact Bool.false_ne_true
  unfold mark
  rw [dif_neg hseen]
  split
  case h_1 horder =>
    exact absurd horder (List.append_ne_nil_of_right_ne_nil _ (List.cons_ne_nil _ _))
  case h_2 oldest rest horder =>
    have horder' : s.order ++ [h] = oldest :: rest := horder
    rw [horder']
    split_ifs with hlen
    · rfl
    · exact horder'

theorem seen_mark_of_ne (hne : h' ≠ h) (hnot : s.seen h' = false) (hnew : s.seen h = false) :
    (s.mark h).seen h' = false := by
  rw [Bool.eq_false_iff, Ne, seen_iff] at hnot ⊢
  rw [order_mark hnew]
  intro hmem
  rcases List.mem_append.1 (List.mem_of_mem_drop hmem) with hold | hself
  · exact hnot hold
  · exact hne (List.mem_singleton.1 hself)

theorem mark_of_seen (hseen : s.seen h = true) : s.mark h = s := by
  unfold mark
  exact dif_pos hseen

theorem max_mark (s : SeenSet) (h : Hash) : (s.mark h).max = s.max := by
  unfold mark
  split
  · rfl
  · split
    · rfl
    · split_ifs <;> rfl

def insertions : SeenSet → List Hash → List Hash
  | _, [] => []
  | s, h :: hs => (if s.seen h then [] else [h]) ++ insertions (s.mark h) hs

def Recent (s : SeenSet) (log : List Hash) : Prop := s.order = log.drop (log.length - s.max)

variable {log : List Hash}

theorem Recent.mark (hrecent : s.Recent log) (h : Hash) :
    (s.mark h).Recent (log ++ if s.seen h then [] else [h]) := by
  unfold Recent at hrecent ⊢
  rw [max_mark]
  cases hseen : s.seen h with
  | true => simpa [mark_of_seen hseen] using hrecent
  | false =>
    rw [order_mark hseen, hrecent, ← List.drop_append_of_le_length (Nat.sub_le _ _), List.drop_drop]
    -- the length of what is kept says whether the set was full
    simp only [List.length_drop, List.length_append, List.length_singleton, Bool.false_eq_true,
      if_false]
    congr 1
    split_ifs <;> omega

theorem Recent.foldl (hrecent : s.Recent log) (marks : List Hash) :
    (marks.foldl SeenSet.mark s).Recent (log ++ insertions s marks) := by
  induction marks generalizing s log with
  | nil => simpa [insertions] using hrecent
  | cons h marks ih =>
    rw [insertions, ← List.append_assoc]
    exact ih (hrecent.mark h)

theorem max_foldl_mark (marks : List Hash) : (marks.foldl SeenSet.mark s).max = s.max := by
  induction marks generalizing s with
  | nil => rfl
  | cons h marks ih => exact ih.trans (max_mark s h)

/-- The set holds the last `max` insertions, each once. -/
theorem seen_set_keeps_recent (max : ℕ) (marks : List Hash) :
    let s := marks.foldl SeenSet.mark (new max)
    (∀ h, h ∈ s.hashes ↔ h ∈ s.order) ∧ s.order.Nodup ∧ s.order.length ≤ max ∧
      s.order = (insertions (new max) marks).drop ((insertions (new max) marks).length - max) := by
  intro s
  have hnew : (new max).Recent [] := List.drop_nil.symm
  have hlog : s.order = _ := hnew.foldl marks
  rw [List.nil_append, max_foldl_mark] at hlog
  refine ⟨s.mem_iff, s.nodup, ?_, hlog⟩
  rw [hlog, List.length_drop]
  show _ - (_ - max) ≤ max
  omega

end SeenSet

section

variable [Crypto]

/-- The duplicate test of `GossipBlock`: whether the message goes on to the choice of peers. -/
def gossipBlock (data : Bytes) (seenSet : SeenSet) : Bool × SeenSet :=
  let blockHash := sha256 data
  if seenSet.seen blockHash then (false, seenSet) else (true, seenSet.mark blockHash)

theorem gossipBlock_fst (data : Bytes) (s : SeenSet) :
    (gossipBlock data s).1 = !s.seen (sha256 data) := by
  unfold gossipBlock
  cases h : s.seen (sha256 data) <;> simp [h]

variable {s : SeenSet}

/-- Bytes that follow a block message hide it from the set of messages seen. -/
theorem gossipBlock_append {block : Block} {data extra : Bytes}
    (hcodec : WithinCodec block) (hsig : block.signature.length ≤ maxSigLen)
    (hencode : encodeBlockMessage block = .ok data)
    (hnew : s.seen (sha256 data) = false) (hnew' : s.seen (sha256 (data ++ extra)) = false)
    (hne : sha256 (data ++ extra) ≠ sha256 data) :
    decodeBlockMessage (data ++ extra) = decodeBlockMessage data ∧
      (gossipBlock data s).1 = true ∧
      (gossipBlock (data ++ extra) (gossipBlock data s).2).1 = true := by
  refine ⟨?_, ?_, ?_⟩
  · rw [decodeBlockMessage_append hcodec.transactions hsig hcodec.events hencode,
      hcodec.decode_message hsig hencode]
  · rw [gossipBlock_fst, hnew]
    rfl
  · have hmark : (gossipBlock data s).2 = s.mark (sha256 data) := by
      simp only [gossipBlock, hnew]
      rfl
    rw [gossipBlock_fst, hmark, SeenSet.seen_mark_of_ne hne hnew' hnew]
    rfl

end

/-! ### A block without transactions -/

def blankBlock : Block where
  header := ⟨0, 0, zeroHash, zeroHash, zeroHash, zeroHash, zeroHash, zeroHash, 0, 0, zeroAddress,
    zeroHash⟩
  transactions := []
  feeSummary := ⟨0, 0, 0, 0⟩
  signature := []
  commitProof := none
  events := []
  evidence := []

def blankMessage : Bytes :=
  blockMessageType :: (beBytes 4 288 ++ (encodeHeader blankBlock.header ++ List.replicate 44 0))

theorem encode_blankBlock : encodeBlockMessage blankBlock = .ok blankMessage := by
  have hlen : (encodeHeader blankBlock.header ++ List.replicate 44 0).length = 288 := by
    rw [List.length_append, length_encodeHeader]
    rfl
  have hrun : encodeBlock blankBlock [] =
      .ok () (encodeHeader blankBlock.header ++ List.replicate 44 0) := by
    refine (bind_eq_ok_of (encodeHeaderFields_run _ _)).trans ?_
    generalize encodeHeader blankBlock.header = header
    refine (show _ = EStateM.Result.ok () (header ++ beBytes 4 0 ++ putUint64 0 ++ putUint64 0 ++
      putUint64 0 ++ putUint64 0 ++ beBytes 4 0 ++ [] ++ beBytes 4 0) from rfl).trans ?_
    simp only [List.append_assoc]
    rfl
  refine encodeBlockMessage_eq_ok.2 ⟨_, hrun, ?_⟩
  rw [hlen]
  rfl

theorem decode_blankMessage (extra : Bytes) :
    decodeBlockMessage (blankMessage ++ extra) = .ok blankBlock :=
  decodeBlockMessage_append (show [].length < 256 ^ 4 by decide)
    (show [].length ≤ maxSigLen by decide) (show [].length < 256 ^ 4 by decide)
    encode_blankBlock extra

theorem canonical_payment : ∃ data,
    decodeBlockMessage data = .ok { blankBlock with transactions := [samplePayment] } ∧
    data.length = messageSize [samplePayment] 0 [] ∧
    (data.drop 1).take 4 = beBytes 4 (data.length - 5) := by
  have hcodec : WithinCodec { blankBlock with transactions := [samplePayment] } :=
    ⟨by decide, by decide⟩
  obtain ⟨data, hdata⟩ : ∃ data, encodeBlockMessage
    { blankBlock with transactions := [samplePayment] } = .ok data := ⟨_, rfl⟩
  have hdecode := hcodec.decode_message (Nat.zero_le _) hdata
  exact ⟨data, hdecode, (canonical_message_iff hdecode).1 hdata⟩

theorem trailing_byte_ignored : ¬ ∀ (data : Bytes) (block : Block),
    decodeBlockMessage data = .ok block → encodeBlockMessage block = .ok data := by
  intro h
  have hencode := h _ _ (decode_blankMessage [0])
  have hsame := Except.ok.inj (encode_blankBlock.symm.trans hencode)
  have hlen := congrArg List.length hsame
  rw [List.length_append, List.length_singleton] at hlen
  omega

/-- The hash of what follows the blank message. -/
@[reducible] def tailCrypto : Crypto := ⟨fun b => .copy 32 (b.drop 293), fun _ _ _ => true⟩

attribute [local instance] tailCrypto in
theorem gossipBlock_append_blank :
    (gossipBlock (blankMessage ++ [1]) (gossipBlock blankMessage (.new 110000)).2).1 = true := by
  have hlen : blankMessage.length = 293 := by
    simp [blankMessage, length_encodeHeader, expectedHeaderLen]
  have hne : sha256 (blankMessage ++ [1]) ≠ sha256 blankMessage := by
    show FixedBytes.copy 32 ((blankMessage ++ [1]).drop 293) ≠ .copy 32 (blankMessage.drop 293)
    rw [List.drop_left' hlen, List.drop_of_length_le hlen.le]
    decide
  exact (gossipBlock_append ⟨by decide, by decide⟩ (Nat.zero_le _) encode_blankBlock
    (SeenSet.seen_new _ _) (SeenSet.seen_new _ _) hne).2.2

end Dsn
