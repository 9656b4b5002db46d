import Dsn.Consensus.Canonical
import Dsn.Network.Framing

/-!
# `network/blocksync.go`: ranges of blocks

Server and client of block ranges. A response that the server frames is not one that the client
reads, except for a range of which nothing is stored.
-/

namespace Dsn

open Go

variable {block : Block} {height : UInt64}

/-! ### Requests -/

def encodeBlockRangeRequest (startHeight endHeight : UInt64) : Bytes :=
  putUint64 startHeight ++ putUint64 endHeight

def decodeBlockRangeRequest (data : Bytes) : Except Error (UInt64 × UInt64) := do
  check (data.length < 16) (.new s!"payload too short: need 16 bytes, got {data.length}")
  return (UInt64.ofNat (beNat (data.take 8)), UInt64.ofNat (beNat ((data.drop 8).take 8)))

structure AcceptsRange (payload : Bytes) (startHeight endHeight : UInt64) : Prop where
  decodes : decodeBlockRangeRequest payload = .ok (startHeight, endHeight)
  ordered : startHeight ≤ endHeight
  short : endHeight - startHeight ≤ 100

theorem acceptsRange_encode {startHeight endHeight : UInt64} (hordered : startHeight ≤ endHeight)
    (hshort : endHeight - startHeight ≤ 100) :
    AcceptsRange (encodeBlockRangeRequest startHeight endHeight) startHeight endHeight := by
  refine ⟨?_, hordered, hshort⟩
  have hlength (v : UInt64) : (putUint64 v).length = 8 := length_beBytes 8 _
  have hback (v : UInt64) : UInt64.ofNat (beNat (putUint64 v)) = v := by
    rw [putUint64, beNat_beBytes v.toNat_lt, UInt64.ofNat_toNat]
  unfold encodeBlockRangeRequest
  refine except_bind_eq_ok.2 ⟨(), check_eq_ok.2 (by simp [hlength]), ?_⟩
  rw [List.take_left' (hlength _), List.drop_left' (hlength _), List.take_of_length_le
    (hlength _).le, hback, hback]
  rfl

/-! ### Lists of blocks -/

def encodeBlockList (blocks : List Bytes) : Bytes :=
  beBytes 4 blocks.length ++ blocks.flatMap lengthPrefixed

def readBlockEntry (i : ℕ) : Reader Bytes := do
  failIf ((← get).length < 4) (.new s!"truncated block length at index {i}")
  let blockLen ← readBE 4
  failIf ((← get).length < blockLen) (.new s!"truncated block data at index {i}")
  readFull blockLen

def decodeBlockList (data : Bytes) : Except Error (List Bytes) := do
  check (data.length < 4) (.new "payload too short: need at least 4 bytes for count")
  let count := beNat (data.take 4)
  check (count > maxBlocksPerRangeResponse) (.new s!"too many blocks in response: {count}")
  decodeFrom (readMany readBlockEntry 0 count) (data.drop 4)

theorem reads_blockEntry (i : ℕ) {b : Bytes} (hb : b.length < 256 ^ 4) :
    Reads (readBlockEntry i) (lengthPrefixed b) b := by
  intro rest
  have hcount := Reads.readBE hb (b ++ rest)
  have hdata := Reads.readFull b rest
  unfold readBlockEntry lengthPrefixed
  rw [List.append_assoc, get_bind, failIf_bind (by simp), bind_eq_ok_of hcount, get_bind,
    failIf_bind (by simp), hdata]

theorem decodeBlockList_encodeBlockList {blocks entries : List Bytes}
    (hcount : blocks.length < 256 ^ 4) (hlength : ∀ b ∈ blocks, b.length < 256 ^ 4) :
    decodeBlockList (encodeBlockList blocks) = .ok entries ↔
      blocks.length ≤ maxBlocksPerRangeResponse ∧ entries = blocks := by
  have hfour : (beBytes 4 blocks.length).length = 4 := length_beBytes _ _
  have htake : (encodeBlockList blocks).take 4 = beBytes 4 blocks.length := List.take_left' hfour
  have hdrop : (encodeBlockList blocks).drop 4 = blocks.flatMap lengthPrefixed :=
    List.drop_left' hfour
  have hentries : decodeFrom (readMany readBlockEntry 0 blocks.length)
      (blocks.flatMap lengthPrefixed) = .ok blocks :=
    decodeFrom_of_reads (Reads.readMany_of_mem (fun i b hb => reads_blockEntry i (hlength b hb)) 0)
  have hlong : ¬ (encodeBlockList blocks).length < 4 := by
    unfold encodeBlockList
    rw [List.length_append]
    omega
  unfold decodeBlockList
  rw [htake, beNat_beBytes hcount]
  constructor
  · intro h
    obtain ⟨_, -, h⟩ := except_bind_eq_ok.1 h
    obtain ⟨_, hmax, h⟩ := except_bind_eq_ok.1 h
    cases hentries.symm.trans h
    exact ⟨Nat.le_of_not_lt (check_eq_ok.1 hmax), rfl⟩
  · rintro ⟨hmax, rfl⟩
    refine except_bind_eq_ok.2 ⟨(), check_eq_ok.2 hlong, ?_⟩
    exact except_bind_eq_ok.2 ⟨(), check_eq_ok.2 (Nat.not_lt.2 hmax), hentries⟩

/-! ### Entries -/

def encodeBlockAsWireFromBlock (block : Block) : Except Error Bytes := do
  let encoded ← encodeBlockMessage block
  check (encoded.length < 1) (.new "encoded block too short")
  return encoded.drop 1

variable {wire : Bytes}

theorem encodeBlockAsWireFromBlock_eq_ok :
    encodeBlockAsWireFromBlock block = .ok wire ↔ ∃ buf, encodeBlock block [] = .ok () buf ∧
      wire = beBytes 4 buf.length ++ buf := by
  constructor
  · intro h
    obtain ⟨data, hdata, h⟩ := except_bind_eq_ok.1 h
    obtain ⟨buf, hbuf, rfl⟩ := encodeBlockMessage_eq_ok.1 hdata
    cases h
    exact ⟨buf, hbuf, rfl⟩
  · rintro ⟨buf, hbuf, rfl⟩
    refine except_bind_eq_ok.2 ⟨_, encodeBlockMessage_eq_ok.2 ⟨buf, hbuf, rfl⟩, ?_⟩
    exact except_bind_eq_ok.2 ⟨(), check_eq_ok.2 (by simp), rfl⟩

theorem eq_zeros_of_shift {x : UInt8} {l m : Bytes} {k : ℕ}
    (h : x :: (l ++ m) = l ++ List.replicate (k + 1) 0) :
    x :: (l ++ m) = List.replicate (l.length + (k + 1)) 0 := by
  induction l generalizing x with
  | nil => rw [h, List.nil_append, List.length_nil, Nat.zero_add]
  | cons y l ih =>
    obtain ⟨rfl, htail⟩ := List.cons.inj h
    have hzeros := ih htail
    rw [List.cons_append, hzeros]
    have hx : x = 0 := by
      exact (List.cons.inj hzeros).1
    rw [hx, List.length_cons, ← List.replicate_succ]
    congr 1
    omega

theorem decodeBlock_zeros {n : ℕ} (hn : 288 ≤ n) {rest : Bytes}
    (h : decodeBlock (List.replicate n 0) = .ok block rest) : block = blankBlock := by
  have hzeros : blankMessage ++ List.replicate (n - 288) 0 =
      blockMessageType :: (beBytes 4 288 ++ List.replicate n 0) := by
    have hpayload : encodeHeader blankBlock.header ++ List.replicate 44 0 =
        List.replicate 288 0 := by decide +kernel
    unfold blankMessage
    rw [hpayload, List.cons_append, List.append_assoc, List.replicate_append_replicate,
      Nat.add_sub_cancel' hn]
  have hmessage := decode_blankMessage (List.replicate (n - 288) 0)
  rw [hzeros] at hmessage
  obtain ⟨length, payload, rest', hdata, hdecode⟩ := decodeBlockMessage_eq_ok hmessage
  obtain ⟨-, rfl⟩ := List.append_inj (List.cons.inj hdata).2
    (by rw [length_beBytes, length_beBytes])
  cases h.symm.trans hdecode
  rfl

theorem decodeBlockMessage_wire_ne (hwire : encodeBlockAsWireFromBlock block = .ok wire) :
    decodeBlockMessage wire ≠ .ok block := by
  intro h
  obtain ⟨buf, hbuf, rfl⟩ := encodeBlockAsWireFromBlock_eq_ok.1 hwire
  obtain ⟨length, payload, rest, hdata, hpayload⟩ := decodeBlockMessage_eq_ok h
  -- the first byte, and the payload from its second byte on
  have hsplit : UInt8.ofNat (buf.length / 256 / 256 / 256) :: (beBytes 4 buf.length).tail ++ buf =
      blockMessageType :: (beBytes 4 length ++ payload) := hdata
  obtain ⟨hfirst, htail⟩ := List.cons.inj hsplit
  obtain ⟨x, rfl⟩ : ∃ x, buf = x :: payload := by
    have hlengths := congrArg List.length htail
    cases buf with
    | nil =>
      simp at hlengths
      omega
    | cons x buf =>
      have hdrop := congrArg (List.drop 4) htail
      rw [List.drop_left' (length_beBytes 4 length)] at hdrop
      exact ⟨x, by rw [← hdrop]; rfl⟩
  have hlarge : 2 ^ 24 ≤ (x :: payload).length := by
    have hbyte := congrArg UInt8.toNat hfirst
    rw [UInt8.toNat_ofNat', show blockMessageType.toNat = 1 from rfl] at hbyte
    omega
  obtain ⟨written, hwritten, hcases⟩ := encodeBlock_of_decodeBlock hpayload
  cases hbuf.symm.trans hwritten
  rcases hcases with hsame | ⟨front, mid, rfl, hshort, hshift⟩
  · -- the payload is one byte longer than itself
    have hlengths := congrArg List.length hsame
    simp at hlengths
    omega
  · -- the payload without its number of events is zero, so the block is the empty one
    have hzeros := eq_zeros_of_shift hshift
    have hlength := congrArg List.length hzeros
    rw [List.length_replicate] at hlength
    have hpayload_zeros : front ++ mid = List.replicate (front.length + 3) 0 :=
      (List.cons.inj hzeros).2
    rw [hpayload_zeros] at hpayload
    obtain rfl := decodeBlock_zeros (by omega) hpayload
    have hsize := length_of_encodeBlockMessage (encodeBlockMessage_eq_ok.2 ⟨_, hbuf, rfl⟩)
    rw [show messageSize blankBlock.transactions _ blankBlock.events = 293 from rfl] at hsize
    simp only [List.length_cons, List.length_append] at hsize hlarge
    omega

theorem exists_wire {data : Bytes} (h : decodeBlockMessage data = .ok block) :
    ∃ wire, encodeBlockAsWireFromBlock block = .ok wire ∧ wire.length ≤ data.length + 4 := by
  obtain ⟨length, payload, rest, rfl, hpayload⟩ := decodeBlockMessage_eq_ok h
  obtain ⟨buf, hbuf, hcases⟩ := encodeBlock_of_decodeBlock hpayload
  refine ⟨_, encodeBlockAsWireFromBlock_eq_ok.2 ⟨buf, hbuf, rfl⟩, ?_⟩
  rcases hcases with rfl | ⟨front, mid, rfl, hshort, rfl⟩
  · simp only [List.length_append, List.length_cons, length_beBytes]
    omega
  · simp only [List.length_append, List.length_cons, length_beBytes, List.length_replicate]
    omega

/-! ### Ranges -/

def rangeEntry (ps : PersistentState) (height : UInt64) : Option Bytes :=
  match loadBlock ps height with
  | .error _ => none
  | .ok block =>
    match encodeBlockAsWireFromBlock block with
    | .ok blockData => some blockData
    | .error _ => none

def rangeLoop (ps : PersistentState) : ℕ → UInt64 → UInt64 → Option (List Bytes)
  | 0, _, _ => none
  | fuel + 1, height, endHeight =>
    if height ≤ endHeight then
      (rangeLoop ps fuel (height + 1) endHeight).map fun blocks =>
        (rangeEntry ps height).toList ++ blocks
    else some []

def handleBlockRangeRequest (fuel : ℕ) (ps : PersistentState) (payload : Bytes) :
    Option (Option Bytes) :=
  match decodeBlockRangeRequest payload with
  | .error _ => some none
  | .ok (startHeight, endHeight) =>
    if startHeight > endHeight then some none
    else if endHeight - startHeight > 100 then some none
    else (rangeLoop ps fuel startHeight endHeight).map fun blocks => some (encodeBlockList blocks)

def available (ps : PersistentState) (startHeight endHeight : UInt64) : List UInt64 :=
  (uint64Range startHeight endHeight).filter fun height => (loadBlock ps height).isOk

/-- The answer decodes to the stored blocks of the range. -/
def RangeServed (ps : PersistentState) (payload : Bytes) (startHeight endHeight : UInt64) : Prop :=
  ∃ fuel response entries, handleBlockRangeRequest fuel ps payload = some (some response) ∧
    decodeBlockList response = .ok entries ∧
    List.Forall₂ (fun height entry => ∃ block, loadBlock ps height = .ok block ∧
      decodeBlockMessage entry = .ok block) (available ps startHeight endHeight) entries

section

variable {ps : PersistentState} {startHeight endHeight : UInt64}

theorem rangeEntry_of_load (hload : loadBlock ps height = .ok block) : ∃ data wire,
      Bolt.lookup ps.db fullBlocksBucket (heightKey height) = some data ∧
      encodeBlockAsWireFromBlock block = .ok wire ∧ wire.length ≤ data.length + 4 ∧
      rangeEntry ps height = some wire := by
  obtain ⟨data, hlookup, hdecode⟩ := loadBlock_eq_ok.1 hload
  obtain ⟨wire, hwire, hlength⟩ := exists_wire hdecode
  refine ⟨data, wire, hlookup, hwire, hlength, ?_⟩
  unfold rangeEntry
  simp only [hload, hwire]

theorem isSome_rangeEntry (height : UInt64) :
    (rangeEntry ps height).isSome = (loadBlock ps height).isOk := by
  cases hload : loadBlock ps height with
  | error e =>
    unfold rangeEntry
    rw [hload]
    rfl
  | ok block =>
    obtain ⟨_, wire, -, -, -, hentry⟩ := rangeEntry_of_load hload
    rw [hentry]
    rfl

theorem rangeLoop_eq (hlast : endHeight.toNat < 2 ^ 64 - 1) (fuel : ℕ) :
    rangeLoop ps fuel startHeight endHeight =
      if endHeight.toNat + 1 - startHeight.toNat < fuel then
        some ((uint64Range startHeight endHeight).filterMap (rangeEntry ps))
      else none := by
  induction fuel generalizing startHeight with
  | zero => rfl
  | succ fuel ih =>
    unfold rangeLoop
    by_cases hle : startHeight ≤ endHeight
    · have hstart := UInt64.le_iff_toNat_le.1 hle
      have hturn : endHeight.toNat + 1 - (startHeight + 1).toNat < fuel ↔
          endHeight.toNat + 1 - startHeight.toNat < fuel + 1 := by
        rw [toNat_succ_of_le hle hlast]
        omega
      rw [uint64Range_eq_cons hle hlast, ih]
      simp only [hturn]
      split_ifs
      · cases hentry : rangeEntry ps startHeight <;> simp [hentry]
      · rfl
    · have hgt := UInt64.lt_iff_toNat_lt.1 (UInt64.not_le.1 hle)
      rw [if_neg hle, uint64Range_eq_nil (UInt64.not_le.1 hle), if_pos (by omega)]
      rfl

theorem rangeLoop_last (hlast : endHeight.toNat = 2 ^ 64 - 1) (fuel : ℕ) :
    rangeLoop ps fuel startHeight endHeight = none := by
  induction fuel generalizing startHeight with
  | zero => rfl
  | succ fuel ih =>
    have hle : startHeight ≤ endHeight := by
      rw [UInt64.le_iff_toNat_le]
      have := startHeight.toNat_lt
      omega
    unfold rangeLoop
    rw [if_pos hle, ih]
    rfl

theorem filterMap_rangeEntry (startHeight endHeight : UInt64) :
    (uint64Range startHeight endHeight).filterMap (rangeEntry ps) =
      (available ps startHeight endHeight).map fun height => (rangeEntry ps height).getD [] := by
  rw [filterMap_eq_map_filter _ []]
  simp only [isSome_rangeEntry]
  rfl

theorem mem_available : height ∈ available ps startHeight endHeight ↔
    (startHeight ≤ height ∧ height ≤ endHeight) ∧ ∃ block, loadBlock ps height = .ok block := by
  unfold available
  rw [List.mem_filter, mem_uint64Range]
  cases loadBlock ps height <;> simp [Except.isOk, Except.toBool]

theorem handleBlockRangeRequest_eq {payload : Bytes}
    (haccepts : AcceptsRange payload startHeight endHeight) (fuel : ℕ) :
    handleBlockRangeRequest fuel ps payload = (rangeLoop ps fuel startHeight endHeight).map
      fun blocks => some (encodeBlockList blocks) := by
  unfold handleBlockRangeRequest
  rw [haccepts.decodes]
  dsimp only
  rw [if_neg (UInt64.not_lt.2 haccepts.ordered), if_neg (UInt64.not_lt.2 haccepts.short)]

end

/-! ### Stores -/

def storeBlocks (blocks : List Block) (ps : PersistentState) : PersistentState :=
  blocks.foldl (fun ps block => finalState (atomicStoreBlockAndTip block ps)) ps

def StoredWithin (ps : PersistentState) : Prop :=
  ∀ height data, Bolt.lookup ps.db fullBlocksBucket (heightKey height) = some data →
    data.length ≤ Bolt.maxValueSize

variable {ps : PersistentState}

theorem StoredWithin.store (h : StoredWithin ps) (block : Block) :
    StoredWithin (finalState (atomicStoreBlockAndTip block ps)) := by
  cases hstore : atomicStoreBlockAndTip block ps with
  | error e ps' =>
    obtain rfl := atomicStoreBlockAndTip_atomic block ps e ps' hstore
    exact h
  | ok u ps' =>
    obtain ⟨data, -, hlength, rfl⟩ := atomicStoreBlockAndTip_eq_ok.1 hstore
    intro height data' hlookup
    replace hlookup : Bolt.lookup (storedBlock block data ps.db) fullBlocksBucket
        (heightKey height) = some data' := hlookup
    rw [lookup_storedBlock_full] at hlookup
    split_ifs at hlookup
    · cases hlookup
      exact hlength
    · exact h height data' hlookup

theorem storedWithin_storeBlocks (blocks : List Block)
    (hfresh : ps.db[fullBlocksBucket]? = none) : StoredWithin (storeBlocks blocks ps) := by
  unfold storeBlocks
  induction blocks using List.reverseRecOn with
  | nil =>
    intro height data hlookup
    simp [Bolt.lookup, hfresh] at hlookup
  | append_singleton blocks block ih =>
    rw [List.foldl_append]
    exact ih.store block

/-! ### Client and server -/

section

variable {ps : PersistentState} {payload : Bytes} {startHeight endHeight : UInt64}
  (hwithin : StoredWithin ps) (haccepts : AcceptsRange payload startHeight endHeight)
include hwithin haccepts

theorem decodeBlockList_response_iff {fuel : ℕ} {response : Bytes} {entries : List Bytes}
    (hresponse : handleBlockRangeRequest fuel ps payload = some (some response)) :
    decodeBlockList response = .ok entries ↔
      (available ps startHeight endHeight).length ≤ maxBlocksPerRangeResponse ∧
        entries = (available ps startHeight endHeight).map fun height =>
          (rangeEntry ps height).getD [] := by
  rw [handleBlockRangeRequest_eq haccepts] at hresponse
  obtain ⟨blocks, hblocks, hresponse⟩ := Option.map_eq_some_iff.1 hresponse
  cases hresponse
  have hend : endHeight.toNat < 2 ^ 64 - 1 := by
    have hlt := endHeight.toNat_lt
    by_contra hlast
    rw [rangeLoop_last (by omega)] at hblocks
    cases hblocks
  rw [rangeLoop_eq hend, filterMap_rangeEntry] at hblocks
  split_ifs at hblocks
  cases hblocks
  have hcount : (available ps startHeight endHeight).length < 256 ^ 4 := by
    have hle : (available ps startHeight endHeight).length ≤ _ := List.length_filter_le _ _
    have hshort := UInt64.le_iff_toNat_le.1 haccepts.short
    rw [UInt64.toNat_sub_of_le _ _ haccepts.ordered,
      show (100 : UInt64).toNat = 100 from rfl] at hshort
    rw [length_uint64Range] at hle
    omega
  rw [decodeBlockList_encodeBlockList (by rwa [List.length_map]), List.length_map]
  intro entry hentry
  obtain ⟨height, hmem, rfl⟩ := List.mem_map.1 hentry
  obtain ⟨-, block, hload⟩ := mem_available.1 hmem
  obtain ⟨data, wire, hlookup, -, hlength, hwire⟩ := rangeEntry_of_load hload
  have hdata := hwithin height data hlookup
  unfold Bolt.maxValueSize at hdata
  rw [hwire, Option.getD_some]
  omega

theorem not_rangeServed_of_mem (hmem : height ∈ available ps startHeight endHeight) :
    ¬ RangeServed ps payload startHeight endHeight := by
  rintro ⟨fuel, response, entries, hresponse, hentries, hall⟩
  obtain ⟨-, rfl⟩ := (decodeBlockList_response_iff hwithin haccepts hresponse).1 hentries
  obtain ⟨block, hload, hdecode⟩ :=
    List.forall₂_same.1 (List.forall₂_map_right_iff.1 hall) height hmem
  obtain ⟨_, wire, -, hwire, -, hentry⟩ := rangeEntry_of_load hload
  rw [hentry] at hdecode
  exact decodeBlockMessage_wire_ne hwire hdecode

end

/-- When client and server agree on a range of blocks. -/
theorem range_served_iff (blocks : List Block) {ps : PersistentState}
    (hfresh : ps.db[fullBlocksBucket]? = none) {payload : Bytes} {startHeight endHeight : UInt64}
    (haccepts : AcceptsRange payload startHeight endHeight) :
    RangeServed (storeBlocks blocks ps) payload startHeight endHeight ↔
      endHeight.toNat ≠ 2 ^ 64 - 1 ∧ ∀ height block, startHeight ≤ height → height ≤ endHeight →
        loadBlock (storeBlocks blocks ps) height ≠ .ok block := by
  have hwithin := storedWithin_storeBlocks blocks hfresh
  constructor
  · intro hserved
    refine ⟨fun hlast => ?_, fun height block hge hle hload => ?_⟩
    · obtain ⟨fuel, response, entries, hresponse, -⟩ := hserved
      rw [handleBlockRangeRequest_eq haccepts, rangeLoop_last hlast] at hresponse
      cases hresponse
    · exact not_rangeServed_of_mem hwithin haccepts (mem_available.2 ⟨⟨hge, hle⟩, block, hload⟩)
        hserved
  · rintro ⟨hlast, hnone⟩
    have hempty : available (storeBlocks blocks ps) startHeight endHeight = [] := by
      refine List.eq_nil_iff_forall_not_mem.2 fun height hmem => ?_
      obtain ⟨⟨hge, hle⟩, block, hload⟩ := mem_available.1 hmem
      exact hnone height block hge hle hload
    have hend : endHeight.toNat < 2 ^ 64 - 1 := by
      have := endHeight.toNat_lt
      omega
    have hresponse : handleBlockRangeRequest (endHeight.toNat + 2) (storeBlocks blocks ps) payload =
        some (some (encodeBlockList [])) := by
      rw [handleBlockRangeRequest_eq haccepts, rangeLoop_eq hend, if_pos (by omega),
        filterMap_rangeEntry, hempty]
      rfl
    refine ⟨_, _, [], hresponse, ?_, ?_⟩
    · exact (decodeBlockList_response_iff hwithin haccepts hresponse).2 (by simp [hempty])
    · rw [hempty]
      exact .nil

/-! ### One block -/

def oneBlockStore : PersistentState := storeBlocks [blankBlock] ⟨∅, ∅, ∅, zeroHash⟩

theorem lookup_oneBlockStore (height : UInt64) :
    Bolt.lookup oneBlockStore.db fullBlocksBucket (heightKey height) =
      if height = 0 then some blankMessage else none := by
  have hlength : blankMessage.length = 293 := length_of_encodeBlockMessage encode_blankBlock
  have hstore : atomicStoreBlockAndTip blankBlock ⟨∅, ∅, ∅, zeroHash⟩ =
      .ok () ⟨storedBlock blankBlock blankMessage ∅, ∅, ∅, zeroHash⟩ :=
    atomicStoreBlockAndTip_eq_ok.2 ⟨_, encode_blankBlock, by rw [hlength]; decide, rfl⟩
  have hdb : oneBlockStore.db = storedBlock blankBlock blankMessage ∅ := by
    unfold oneBlockStore storeBlocks
    rw [List.foldl_cons, hstore]
    rfl
  rw [hdb, lookup_storedBlock_full]
  simp only [eq_comm]
  rfl

theorem available_block_not_served : ¬ ∀ (blocks : List Block) (ps : PersistentState)
    (payload : Bytes) (startHeight endHeight : UInt64), ps.db[fullBlocksBucket]? = none →
    AcceptsRange payload startHeight endHeight →
      RangeServed (storeBlocks blocks ps) payload startHeight endHeight := by
  intro h
  have haccepts : AcceptsRange (encodeBlockRangeRequest 0 0) 0 0 :=
    acceptsRange_encode (by decide) (by decide)
  have hload : loadBlock oneBlockStore 0 = .ok blankBlock := by
    have hdecode := decode_blankMessage []
    rw [List.append_nil] at hdecode
    exact loadBlock_eq_ok.2 ⟨_, lookup_oneBlockStore 0, hdecode⟩
  exact not_rangeServed_of_mem (storedWithin_storeBlocks [blankBlock] rfl) haccepts
    (mem_available.2 ⟨⟨by decide, by decide⟩, blankBlock, hload⟩)
    (h [blankBlock] _ _ 0 0 rfl haccepts)

theorem missing_blocks_served : RangeServed oneBlockStore (encodeBlockRangeRequest 1 2) 1 2 := by
  refine (range_served_iff [blankBlock] rfl (acceptsRange_encode (by decide) (by decide))).2
    ⟨by decide, fun height block hge _ hload => ?_⟩
  obtain ⟨data, hlookup, -⟩ := loadBlock_eq_ok.1 hload
  have hne : height ≠ 0 := by
    rintro rfl
    exact absurd hge (by decide)
  replace hlookup : Bolt.lookup oneBlockStore.db fullBlocksBucket (heightKey height) =
    some data := hlookup
  rw [lookup_oneBlockStore, if_neg hne] at hlookup
  cases hlookup

end Dsn
