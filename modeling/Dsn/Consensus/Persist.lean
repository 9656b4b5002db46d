import Dsn.Consensus.Gossip
import Dsn.State.Checkpoint

/-!
# `consensus/persist.go`: blocks in the database

The message format, bounded by the largest value of the store.
-/

namespace Dsn

open Go

def blocksBucket : Bytes := str "blocks"
def fullBlocksBucket : Bytes := str "full_blocks"
def chainBucket : Bytes := str "chain"
def tipKey : Bytes := str "tip"

def expectedHeaderLen : ℕ := 244

def encodeHeader (h : BlockHeader) : Bytes :=
  putUint64 h.version ++ (putUint64 h.height ++ (h.previousHash.bytes ++ (h.stateRoot.bytes ++
    (h.txRoot.bytes ++ (h.receiptRoot.bytes ++ (h.validatorRoot.bytes ++
    (h.validatorSetHash.bytes ++ (putUint64 h.epoch ++ (putUint64 h.timestamp ++
    h.proposer.bytes)))))))))

def decodeHeader (data : Bytes) : Except Error BlockHeader := do
  check (data.length < expectedHeaderLen)
    (.new s!"header too short: got {data.length} bytes, need at least {expectedHeaderLen}")
  decodeFrom readHeaderFields data

def BlockHeader.stripped (h : BlockHeader) : BlockHeader := { h with eventsRoot := zeroHash }

theorem length_encodeHeader (h : BlockHeader) : (encodeHeader h).length = expectedHeaderLen := by
  simp [encodeHeader, putUint64, expectedHeaderLen]

theorem encodeHeaderFields_run (h : BlockHeader) (buf : Bytes) :
    encodeHeaderFields h buf = .ok () (buf ++ encodeHeader h) := by
  refine (show encodeHeaderFields h buf = .ok () _ from rfl).trans ?_
  simp only [encodeHeader, List.append_assoc]

theorem appends_headerFields (h : BlockHeader) :
    Appends expectedHeaderLen (encodeHeaderFields h) := by
  intro buf
  refine ⟨_, encodeHeaderFields_run h buf, ?_⟩
  rw [List.length_append, length_encodeHeader]

theorem FeeSummary.appends_encode (f : FeeSummary) : Appends 32 f.encode := by
  refine .bind (m := 8) (n := 24) (.write rfl) (.bind (m := 8) (n := 16) (.write rfl) ?_)
  exact .bind (m := 8) (n := 8) (.write rfl) (.write rfl)

theorem reads_header (h : BlockHeader) : Reads readHeaderFields (encodeHeader h) h.stripped := by
  refine (Reads.readUint64 _).bind ?_
  refine (Reads.readUint64 _).bind ?_
  iterate 6 refine ((Reads.readFixed _).wrapErr _).bind ?_
  refine (Reads.readUint64 _).bind ?_
  refine (Reads.readUint64 _).bind ?_
  exact ((Reads.readFixed _).wrapErr _).bind_pure (Reads.pure _)

@[simp] theorem decodeHeader_encodeHeader (h : BlockHeader) :
    decodeHeader (encodeHeader h) = .ok h.stripped := by
  have hlen : ¬ (encodeHeader h).length < expectedHeaderLen := by
    rw [length_encodeHeader]
    exact Nat.lt_irrefl _
  unfold decodeHeader check
  rw [if_neg hlen, decodeFrom_of_reads (reads_header h)]
  rfl

/-! ### The size of a block message -/

structure Block.Encodable (block : Block) : Prop where
  transactions : ∀ tx ∈ block.transactions, tx.Encodable
  events : ∀ event ∈ block.events, event.Encodable

def messageSize (txs : List Transaction) (sigLen : ℕ) (events : List Event) : ℕ :=
  293 + (txs.map Transaction.encodedSize).sum + sigLen + (events.map Event.encodedSize).sum

variable {block : Block}

theorem Block.appends_encode (h : block.Encodable) :
    Appends (expectedHeaderLen + (4 + ((block.transactions.map Transaction.encodedSize).sum +
      (32 + (4 + (block.signature.length + (4 + (block.events.map Event.encodedSize).sum)))))))
      (encodeBlock block) := by
  refine (appends_headerFields block.header).bind (.bind (.write (length_beBytes _ _)) ?_)
  refine .bind (.forM fun tx htx => Transaction.appends_encode (h.transactions tx htx)) ?_
  refine .bind block.feeSummary.appends_encode ?_
  refine .bind (.write (length_beBytes _ _)) (.bind (.write rfl) ?_)
  refine .bind (.write (length_beBytes _ _)) ?_
  exact .forM fun event hevent => Event.appends_encode (h.events event hevent)

theorem Block.encodable_of_encode {buf buf' : Bytes} {u : Unit}
    (h : encodeBlock block buf = .ok u buf') : block.Encodable := by
  iterate 2 obtain ⟨_, _, -, h⟩ := bind_eq_ok.1 h
  obtain ⟨_, _, htxs, h⟩ := bind_eq_ok.1 h
  iterate 4 obtain ⟨_, _, -, h⟩ := bind_eq_ok.1 h
  constructor
  · intro tx htx
    obtain ⟨_, _, hencode⟩ := exists_of_forM_eq_ok htxs htx
    exact Transaction.encodable_of_encode hencode
  · intro event hevent
    obtain ⟨_, _, hencode⟩ := exists_of_forM_eq_ok h hevent
    exact Event.encodable_of_encode hencode

theorem Block.Encodable.exists_message (h : block.Encodable) :
    ∃ data, encodeBlockMessage block = .ok data ∧
      data.length = messageSize block.transactions block.signature.length block.events := by
  obtain ⟨buf, hbuf, hlen⟩ := Block.appends_encode h []
  refine ⟨_, encodeBlockMessage_eq_ok.2 ⟨buf, hbuf, rfl⟩, ?_⟩
  rw [List.length_cons, List.length_append, length_beBytes, hlen, List.length_nil]
  unfold expectedHeaderLen messageSize
  omega

variable {data : Bytes}

theorem Block.encodable_of_message (h : encodeBlockMessage block = .ok data) : block.Encodable := by
  obtain ⟨buf, hbuf, -⟩ := encodeBlockMessage_eq_ok.1 h
  exact Block.encodable_of_encode hbuf

theorem length_of_encodeBlockMessage (h : encodeBlockMessage block = .ok data) :
    data.length = messageSize block.transactions block.signature.length block.events := by
  obtain ⟨data', h', hlen⟩ := (Block.encodable_of_message h).exists_message
  cases h.symm.trans h'
  exact hlen

theorem exists_encodeBlockMessage_iff {n : ℕ} :
    (∃ data, encodeBlockMessage block = .ok data ∧ data.length ≤ n) ↔ block.Encodable ∧
      messageSize block.transactions block.signature.length block.events ≤ n := by
  constructor
  · rintro ⟨data, hdata, hle⟩
    exact ⟨Block.encodable_of_message hdata, length_of_encodeBlockMessage hdata ▸ hle⟩
  · rintro ⟨hencodable, hle⟩
    obtain ⟨data, hdata, hlen⟩ := hencodable.exists_message
    exact ⟨data, hdata, hlen ▸ hle⟩

theorem storable_header (height : UInt64) (h : BlockHeader) :
    Bolt.Storable (heightKey height) (encodeHeader h) := by
  refine storable_height height ?_
  rw [length_encodeHeader]
  decide

theorem storable_tip (h : BlockHeader) : Bolt.Storable tipKey (encodeHeader h) := by
  refine ⟨by decide, by decide, ?_⟩
  rw [length_encodeHeader]
  decide

/-! ### Storing -/

def storeBlockHeader (header : BlockHeader) : Exec PersistentState Unit :=
  PersistentState.updateDB do
    Bolt.createBucketIfNotExists blocksBucket
    Bolt.put blocksBucket (heightKey header.height) (encodeHeader header)

def storeTip (header : BlockHeader) : Exec PersistentState Unit :=
  PersistentState.updateDB do
    Bolt.createBucketIfNotExists chainBucket
    Bolt.put chainBucket tipKey (encodeHeader header)

def atomicStoreBlockAndTip (block : Block) : Exec PersistentState Unit :=
  PersistentState.updateDB do
    Bolt.createBucketIfNotExists blocksBucket
    Bolt.put blocksBucket (heightKey block.header.height) (encodeHeader block.header)
    Bolt.createBucketIfNotExists fullBlocksBucket
    let blockData ← wrapErr "failed to encode block" (ofResult (encodeBlockMessage block))
    Bolt.put fullBlocksBucket (heightKey block.header.height) blockData
    Bolt.createBucketIfNotExists chainBucket
    Bolt.put chainBucket tipKey (encodeHeader block.header)

def createCheckpoint (height epoch : UInt64) (stateRoot blockHash valSetHash : Hash)
    (now : UInt64) : Exec PersistentState Checkpoint := do
  let cp : Checkpoint := {
    height, blockHash, stateRoot
    snapshotHash := zeroHash
    validatorSetHash := valSetHash
    epoch
    timestamp := now }
  wrapErr "store checkpoint" (storeCheckpoint cp)
  return cp

/-! ### Loading -/

def loadBlockHeader (ps : PersistentState) (height : UInt64) : Except Error BlockHeader :=
  match ps.db[blocksBucket]? with
  | none => .error (.new "blocks bucket not found")
  | some b => match b[heightKey height]? with
    | none => .error (.new s!"block header not found at height {height}")
    | some data => (decodeHeader data).mapError
        (·.within s!"failed to decode header at height {height}")

def loadBlock (ps : PersistentState) (height : UInt64) : Except Error Block :=
  match ps.db[fullBlocksBucket]? with
  | none => .error (.new "full blocks bucket not found")
  | some b => match b[heightKey height]? with
    | none => .error (.new s!"full block not found at height {height}")
    | some data => (decodeBlockMessage data).mapError (·.within "failed to decode block")

def loadTip (ps : PersistentState) : Except Error BlockHeader :=
  match ps.db[chainBucket]? with
  | none => .error (.new "chain bucket not found")
  | some b => match b[tipKey]? with
    | none => .error (.new "tip not found")
    | some data => (decodeHeader data).mapError (·.within "failed to decode tip header")

/-! ### What is stored -/

variable {ps ps' : PersistentState}

theorem storeTip_run (header : BlockHeader) (ps : PersistentState) : storeTip header ps =
    .ok () { ps with db := Bolt.putIn chainBucket tipKey (encodeHeader header) ps.db } :=
  PersistentState.updateDB_eq_ok.2 ⟨_, Bolt.create_put_end (storable_tip _) ps.db, rfl⟩

def StorableBlock (block : Block) : Prop :=
  ∃ data, encodeBlockMessage block = .ok data ∧ data.length ≤ Bolt.maxValueSize

theorem storableBlock_of_no_events (hevents : block.events = [])
    (htxs : ∀ tx ∈ block.transactions, tx.Encodable)
    (hsize : (block.transactions.map Transaction.encodedSize).sum + block.signature.length + 293 ≤
      Bolt.maxValueSize) : StorableBlock block := by
  refine exists_encodeBlockMessage_iff.2 ⟨⟨htxs, ?_⟩, ?_⟩
  · simp [hevents]
  · unfold messageSize
    rw [hevents, List.map_nil, List.sum_nil]
    omega

def storedBlock (block : Block) (data : Bytes) (db : Bolt.DB) : Bolt.DB :=
  Bolt.putIn chainBucket tipKey (encodeHeader block.header)
    (Bolt.putIn fullBlocksBucket (heightKey block.header.height) data
      (Bolt.putIn blocksBucket (heightKey block.header.height) (encodeHeader block.header) db))

theorem atomicStoreBlockAndTip_eq_ok {u : Unit} :
    atomicStoreBlockAndTip block ps = .ok u ps' ↔ ∃ data, encodeBlockMessage block = .ok data ∧
      data.length ≤ Bolt.maxValueSize ∧ ps' = { ps with db := storedBlock block data ps.db } := by
  unfold atomicStoreBlockAndTip
  rw [PersistentState.updateDB_eq_ok,
    Bolt.create_put_run (storable_header block.header.height block.header)]
  set db1 := Bolt.putIn blocksBucket (heightKey block.header.height) (encodeHeader block.header)
    ps.db
  set db2 := db1.insert fullBlocksBucket (db1[fullBlocksBucket]?.getD ∅)
  rw [bind_eq_ok_of (Bolt.createBucketIfNotExists_run fullBlocksBucket db1)]
  have hput {data : Bytes} (h : data.length ≤ Bolt.maxValueSize) :
      Bolt.put fullBlocksBucket (heightKey block.header.height) data db2 =
        .ok () (Bolt.putIn fullBlocksBucket (heightKey block.header.height) data db1) :=
    Bolt.put_created_run (storable_height _ h) db1
  constructor
  · rintro ⟨db', h, rfl⟩
    obtain ⟨data, hdata, h⟩ := ofResult_bind_eq_ok.1 (wrapErr_bind_eq_ok.1 h)
    obtain ⟨_, _, h1, h2⟩ := bind_eq_ok.1 h
    obtain ⟨_, -, hst, -⟩ := Bolt.put_eq_ok.1 h1
    rw [hput hst.value_le] at h1
    cases h1
    rw [Bolt.create_put_end (storable_tip block.header)] at h2
    cases h2
    exact ⟨data, hdata, hst.value_le, rfl⟩
  · rintro ⟨data, hdata, hlen, rfl⟩
    refine ⟨storedBlock block data ps.db, ?_, rfl⟩
    rw [wrapErr_bind (ofResult_eq_ok.2 ⟨hdata, rfl⟩), bind_eq_ok_of (hput hlen)]
    exact Bolt.create_put_end (storable_tip block.header) _

theorem get_storedBlock_blocks (block : Block) (data : Bytes) (db : Bolt.DB) :
    (storedBlock block data db)[blocksBucket]? = (Bolt.putIn blocksBucket
      (heightKey block.header.height) (encodeHeader block.header) db)[blocksBucket]? := by
  unfold storedBlock
  rw [Bolt.get_putIn_of_ne (by decide), Bolt.get_putIn_of_ne (by decide)]

theorem lookup_storedBlock_self (block : Block) (data : Bytes) (db : Bolt.DB) :
    Bolt.lookup (storedBlock block data db) blocksBucket (heightKey block.header.height) =
      some (encodeHeader block.header) := by
  rw [Bolt.lookup_congr (get_storedBlock_blocks block data db), Bolt.lookup_putIn_self]

variable {height : UInt64}

theorem lookup_storedBlock_of_ne (h : block.header.height ≠ height) (data : Bytes) (db : Bolt.DB) :
    Bolt.lookup (storedBlock block data db) blocksBucket (heightKey height) =
      Bolt.lookup db blocksBucket (heightKey height) := by
  rw [Bolt.lookup_congr (get_storedBlock_blocks block data db),
    Bolt.lookup_putIn_of_key_ne fun heq => h (heightKey_injective heq)]

theorem lookup_storedBlock_full (block : Block) (data : Bytes) (db : Bolt.DB) (height : UInt64) :
    Bolt.lookup (storedBlock block data db) fullBlocksBucket (heightKey height) =
      if block.header.height = height then some data
      else Bolt.lookup db fullBlocksBucket (heightKey height) := by
  unfold storedBlock
  rw [Bolt.lookup_congr (Bolt.get_putIn_of_ne (by decide))]
  split_ifs with h
  · rw [← h, Bolt.lookup_putIn_self]
  · rw [Bolt.lookup_putIn_of_key_ne fun heq => h (heightKey_injective heq),
      Bolt.lookup_congr (Bolt.get_putIn_of_ne (by decide))]

theorem atomicStoreBlockAndTip_atomic (block : Block) : Atomic (atomicStoreBlockAndTip block) :=
  PersistentState.updateDB_atomic _

variable {header : BlockHeader}

theorem loadBlockHeader_of_lookup
    (h : Bolt.lookup ps.db blocksBucket (heightKey height) = some (encodeHeader header)) :
    loadBlockHeader ps height = .ok header.stripped := by
  obtain ⟨b, hb, hkey⟩ := Bolt.lookup_eq_some.1 h
  simp only [loadBlockHeader, hb, hkey, decodeHeader_encodeHeader]
  rfl

theorem loadBlock_eq_ok : loadBlock ps height = .ok block ↔
    ∃ data, Bolt.lookup ps.db fullBlocksBucket (heightKey height) = some data ∧
      decodeBlockMessage data = .ok block := by
  unfold loadBlock Bolt.lookup
  cases hb : ps.db[fullBlocksBucket]? with
  | none => simp
  | some b =>
    cases hdata : b[heightKey height]? with
    | none => simp [hdata]
    | some data =>
      cases hdecode : decodeBlockMessage data <;> simp [hdata, hdecode, Except.mapError]

theorem loadTip_of_lookup (h : Bolt.lookup ps.db chainBucket tipKey = some (encodeHeader header)) :
    loadTip ps = .ok header.stripped := by
  obtain ⟨b, hb, hkey⟩ := Bolt.lookup_eq_some.1 h
  simp only [loadTip, hb, hkey, decodeHeader_encodeHeader]
  rfl

end Dsn
