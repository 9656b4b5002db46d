import Dsn.State.SnapshotFile
import Dsn.Types.Codec

/-!
# Which snapshot files crash the parser

The parser allocates by the counts in the file before it reads the entries.
-/

namespace Dsn

open Go

variable {b rest : Bytes} {limit n : ℕ}

/-! ### Entries -/

theorem isLT_trans {K : Type} [Ord K] [Std.TransOrd K] {a b c : K} (hab : (compare a b).isLT)
    (hbc : (compare b c).isLT) : (compare a c).isLT := by
  rw [Ordering.isLT_iff_eq_lt] at *
  exact Std.TransCmp.lt_trans hab hbc

theorem readAccountEntry_eq_ok {i : ℕ} {prev e : AccountEntry}
    (h : readAccountEntry i prev b = .ok e rest) : b = e.bytes ++ rest ∧
      e.data.length ≤ maxSnapshotEntrySize ∧ (i = 0 ∨ (compare prev.address e.address).isLT) := by
  obtain ⟨address, b1, haddress, h⟩ := bind_eq_ok.1 h
  obtain ⟨horder, h⟩ := failIf_bind_eq_ok.1 h
  obtain ⟨dataLen, b2, hdataLen, h⟩ := bind_eq_ok.1 h
  obtain ⟨hsize, h⟩ := failIf_bind_eq_ok.1 h
  obtain ⟨data, b3, hdata, h⟩ := bind_eq_ok.1 h
  obtain ⟨rfl, rfl⟩ := pure_eq_ok.1 h
  obtain rfl := readFixed_eq_ok (wrapErr_eq_ok.1 haddress)
  obtain ⟨-, rfl⟩ := readBE_eq_ok.1 (wrapErr_eq_ok.1 hdataLen)
  obtain ⟨rfl, rfl⟩ := readFull_eq_ok.1 (wrapErr_eq_ok.1 hdata)
  exact ⟨by simp [AccountEntry.bytes], Nat.not_lt.1 hsize, ascends_iff.1 horder⟩

theorem readKVEntry_eq_ok {i : ℕ} {prev e : KVEntry} (h : readKVEntry i prev b = .ok e rest) :
    b = e.bytes ++ rest ∧
      (e.key.length ≤ maxSnapshotKVKeyLength ∧ e.value.length ≤ maxSnapshotKVValLength) ∧
        (i = 0 ∨ (compare prev.key e.key).isLT) := by
  obtain ⟨keyLen, b1, hkeyLen, h⟩ := bind_eq_ok.1 h
  obtain ⟨hkeySize, h⟩ := failIf_bind_eq_ok.1 h
  obtain ⟨key, b2, hkey, h⟩ := bind_eq_ok.1 h
  obtain ⟨horder, h⟩ := failIf_bind_eq_ok.1 h
  obtain ⟨valLen, b3, hvalLen, h⟩ := bind_eq_ok.1 h
  obtain ⟨hvalSize, h⟩ := failIf_bind_eq_ok.1 h
  obtain ⟨value, b4, hvalue, h⟩ := bind_eq_ok.1 h
  obtain ⟨rfl, rfl⟩ := pure_eq_ok.1 h
  obtain ⟨-, rfl⟩ := readBE_eq_ok.1 (wrapErr_eq_ok.1 hkeyLen)
  obtain ⟨rfl, rfl⟩ := readFull_eq_ok.1 (wrapErr_eq_ok.1 hkey)
  obtain ⟨-, rfl⟩ := readBE_eq_ok.1 (wrapErr_eq_ok.1 hvalLen)
  obtain ⟨rfl, rfl⟩ := readFull_eq_ok.1 (wrapErr_eq_ok.1 hvalue)
  exact ⟨by simp [KVEntry.bytes], ⟨Nat.not_lt.1 hkeySize, Nat.not_lt.1 hvalSize⟩,
    ascends_iff.1 horder⟩

theorem panicFree_readAccountEntry (i : ℕ) (prev : AccountEntry) :
    PanicFree (readAccountEntry i prev) :=
  ((PanicFree.readFixed 20).wrapErr _).bind fun _ => (PanicFree.failIf rfl).bind fun _ =>
    ((PanicFree.readBE 4).wrapErr _).bind fun _ => (PanicFree.failIf rfl).bind fun _ =>
      ((PanicFree.readFull _).wrapErr _).bind fun _ => PanicFree.pure _

theorem panicFree_readKVEntry (i : ℕ) (prev : KVEntry) : PanicFree (readKVEntry i prev) :=
  ((PanicFree.readBE 4).wrapErr _).bind fun _ => (PanicFree.failIf rfl).bind fun _ =>
    ((PanicFree.readFull _).wrapErr _).bind fun _ => (PanicFree.failIf rfl).bind fun _ =>
      ((PanicFree.readBE 4).wrapErr _).bind fun _ => (PanicFree.failIf rfl).bind fun _ =>
        ((PanicFree.readFull _).wrapErr _).bind fun _ => PanicFree.pure _

structure AccountList (accounts : List AccountEntry) : Prop where
  ascending : accounts.Pairwise fun a b => (compare a.address b.address).isLT
  data : ∀ e ∈ accounts, e.data.length ≤ maxSnapshotEntrySize

theorem readAccounts_eq_ok {accounts : List AccountEntry} :
    readAfter readAccountEntry 0 ⟨zeroAddress, []⟩ n b = .ok accounts rest ↔
      accounts.length = n ∧ AccountList accounts ∧
        b = accounts.flatMap AccountEntry.bytes ++ rest := by
  constructor
  · intro h
    obtain ⟨hlen, hb, hdata, horder, -⟩ :=
      readAfter_eq_ok (p := fun e : AccountEntry => e.data.length ≤ maxSnapshotEntrySize)
        (r := fun a b => (compare a.address b.address).isLT) (fun _ _ _ => isLT_trans)
        (fun _ _ _ _ _ => readAccountEntry_eq_ok) h
    exact ⟨hlen, ⟨horder, hdata⟩, hb⟩
  · rintro ⟨rfl, ⟨horder, hdata⟩, rfl⟩
    exact Reads.readAfter (x := readAccountEntry) (fun _ _ _ => reads_accountEntry) hdata horder
      (.inl rfl) rest

theorem pairwise_of_readKVs {kvStore : List KVEntry}
    (h : readAfter readKVEntry 0 ⟨[], []⟩ n b = .ok kvStore rest) :
    kvStore.Pairwise fun a b => (compare a.key b.key).isLT :=
  (readAfter_eq_ok (r := fun a b : KVEntry => (compare a.key b.key).isLT)
    (fun _ _ _ => isLT_trans) (fun _ _ _ _ _ => readKVEntry_eq_ok) h).2.2.2.1

/-! ### The header -/

structure SnapshotHeader where
  height : UInt64
  epoch : UInt64
  stateRoot : Hash
  validatorSetHash : Hash
  timestamp : UInt64
  accountCount : UInt64
  kvCount : UInt64
  reserved : FixedBytes 32

def SnapshotHeader.bytes (h : SnapshotHeader) : Bytes :=
  snapshotMagic ++ (beBytes 4 snapshotVersion ++ (putUint64 h.height ++ (putUint64 h.epoch ++
    (h.stateRoot.bytes ++ (h.validatorSetHash.bytes ++ (putUint64 h.timestamp ++
    (putUint64 h.accountCount ++ (putUint64 h.kvCount ++ h.reserved.bytes))))))))

theorem SnapshotHeader.length_bytes (h : SnapshotHeader) : h.bytes.length = snapshotHeaderSize := by
  have hmagic : snapshotMagic.length = 4 := by decide
  simp only [bytes, List.length_append, length_beBytes, putUint64, FixedBytes.length_eq]
  rfl

theorem panics_makeSlice {σ : Type} {size : ℕ} {s : σ} :
    Panics (makeSlice limit size n : Exec σ Unit) s ↔ limit < size * n := by
  constructor
  · rintro ⟨e, s', h, -⟩
    unfold makeSlice failIf at h
    split_ifs at h with hlarge
    · exact hlarge
    · cases h
  · intro h
    exact ⟨_, _, failIf_of _ h s, rfl⟩

def SnapshotHeader.TooLarge (limit : ℕ) (h : SnapshotHeader) (entries : Bytes) : Prop :=
  limit < accountEntrySize * h.accountCount.toNat ∨
    (∃ accounts : List AccountEntry, accounts.length = h.accountCount.toNat ∧
      AccountList accounts ∧ accounts.flatMap AccountEntry.bytes <+: entries) ∧
        limit < kvEntrySize * h.kvCount.toNat

theorem panics_readEntries (h : SnapshotHeader) {entries : Bytes} {α : Type}
    (f : List AccountEntry → List KVEntry → α) :
    Panics (do
      makeSlice limit accountEntrySize h.accountCount.toNat
      let accounts ← readAfter readAccountEntry 0 ⟨zeroAddress, []⟩ h.accountCount.toNat
      makeSlice limit kvEntrySize h.kvCount.toNat
      let kvStore ← readAfter readKVEntry 0 ⟨[], []⟩ h.kvCount.toNat
      return f accounts kvStore) entries ↔ h.TooLarge limit entries := by
  have haccounts := PanicFree.readAfter panicFree_readAccountEntry 0 ⟨zeroAddress, []⟩
    h.accountCount.toNat
  have hkvs := PanicFree.readAfter panicFree_readKVEntry 0 ⟨[], []⟩ h.kvCount.toNat
  rw [panics_bind, panics_makeSlice]
  unfold SnapshotHeader.TooLarge
  by_cases hlarge : limit < accountEntrySize * h.accountCount.toNat
  · exact iff_of_true (.inl hlarge) (.inl hlarge)
  · rw [or_iff_right hlarge, or_iff_right hlarge]
    constructor
    · rintro ⟨_, b, hmake, hb⟩
      obtain ⟨-, rfl⟩ := failIf_eq_ok.1 hmake
      obtain ⟨accounts, rest, hread, hrest⟩ := haccounts.panics_bind.1 hb
      obtain ⟨hlen, hlist, rfl⟩ := readAccounts_eq_ok.1 hread
      refine ⟨⟨accounts, hlen, hlist, List.prefix_append _ _⟩, ?_⟩
      rcases panics_bind.1 hrest with h | ⟨_, b, -, h⟩
      · exact panics_makeSlice.1 h
      · exact absurd h ((hkvs.bind fun _ => PanicFree.pure _) b)
    · rintro ⟨⟨accounts, hlen, hlist, rest, rfl⟩, hkv⟩
      refine ⟨(), _, failIf_of_not _ hlarge _, haccounts.panics_bind.2 ⟨accounts, rest, ?_, ?_⟩⟩
      · exact readAccounts_eq_ok.2 ⟨hlen, hlist, rfl⟩
      · exact panics_bind.2 (.inl (panics_makeSlice.2 hkv))

theorem panics_readSnapshot_header (checksum : Bool) (h : SnapshotHeader) (entries : Bytes) :
    Panics (readSnapshot limit checksum) (h.bytes ++ entries) ↔
      checksum = true ∧ h.TooLarge limit entries := by
  have hmagic : Reads (readFull 4) snapshotMagic snapshotMagic := Reads.readFull snapshotMagic
  have hversion : snapshotVersion < 256 ^ 4 := by decide
  have hcount (v : UInt64) : Reads (readBE 8) (putUint64 v) v.toNat := Reads.readBE v.toNat_lt
  have hskip : ∃ rest, (modify (List.drop 32) : Reader PUnit) (h.reserved.bytes ++ entries) =
      .ok PUnit.unit rest ∧ rest = entries := ⟨_, rfl, List.drop_left' h.reserved.length_eq⟩
  obtain ⟨_, hskip, rfl⟩ := hskip
  unfold readSnapshot SnapshotHeader.bytes
  simp only [List.append_assoc]
  rw [(hmagic.wrapErr _).panics_bind, PanicFree.panics_failIf_bind rfl, and_iff_right (by simp),
    ((Reads.readBE hversion).wrapErr _).panics_bind, PanicFree.panics_failIf_bind rfl,
    and_iff_right (by simp),
    ((Reads.readUint64 _).wrapErr _).panics_bind, ((Reads.readUint64 _).wrapErr _).panics_bind,
    ((Reads.readFixed _).wrapErr _).panics_bind, ((Reads.readFixed _).wrapErr _).panics_bind,
    ((Reads.readUint64 _).wrapErr _).panics_bind,
    ((hcount _).wrapErr _).panics_bind, ((hcount _).wrapErr _).panics_bind, Panics,
    bind_eq_ok_of hskip, ← Panics, PanicFree.panics_failIf_bind rfl, panics_readEntries,
    Bool.not_eq_false]

theorem exists_header_of_panics {checksum : Bool} (hlen : snapshotHeaderSize ≤ b.length)
    (h : Panics (readSnapshot limit checksum) b) :
    ∃ (header : SnapshotHeader) (entries : Bytes), b = header.bytes ++ entries := by
  obtain ⟨magic, b1, hmagic, h⟩ := ((PanicFree.readFull _).wrapErr _).panics_bind.1 h
  obtain ⟨hmagic', h⟩ := (PanicFree.panics_failIf_bind rfl).1 h
  obtain ⟨version, b2, hversion, h⟩ := ((PanicFree.readBE _).wrapErr _).panics_bind.1 h
  obtain ⟨hversion', h⟩ := (PanicFree.panics_failIf_bind rfl).1 h
  obtain ⟨height, b3, hheight, h⟩ := (panicFree_readUint64.wrapErr _).panics_bind.1 h
  obtain ⟨epoch, b4, hepoch, h⟩ := (panicFree_readUint64.wrapErr _).panics_bind.1 h
  obtain ⟨stateRoot, b5, hroot, h⟩ := ((PanicFree.readFixed _).wrapErr _).panics_bind.1 h
  obtain ⟨valSetHash, b6, hset, h⟩ := ((PanicFree.readFixed _).wrapErr _).panics_bind.1 h
  obtain ⟨timestamp, b7, htime, h⟩ := (panicFree_readUint64.wrapErr _).panics_bind.1 h
  obtain ⟨accountCount, b8, haccounts, h⟩ := ((PanicFree.readBE _).wrapErr _).panics_bind.1 h
  obtain ⟨kvCount, b9, hkvs, -⟩ := ((PanicFree.readBE _).wrapErr _).panics_bind.1 h
  obtain ⟨-, rfl⟩ := readFull_eq_ok.1 (wrapErr_eq_ok.1 hmagic)
  obtain ⟨-, rfl⟩ := readBE_eq_ok.1 (wrapErr_eq_ok.1 hversion)
  obtain rfl := readUint64_eq_ok (wrapErr_eq_ok.1 hheight)
  obtain rfl := readUint64_eq_ok (wrapErr_eq_ok.1 hepoch)
  obtain rfl := readFixed_eq_ok (wrapErr_eq_ok.1 hroot)
  obtain rfl := readFixed_eq_ok (wrapErr_eq_ok.1 hset)
  obtain rfl := readUint64_eq_ok (wrapErr_eq_ok.1 htime)
  obtain ⟨haccountCount, rfl⟩ := readBE_eq_ok.1 (wrapErr_eq_ok.1 haccounts)
  obtain ⟨hkvCount, rfl⟩ := readBE_eq_ok.1 (wrapErr_eq_ok.1 hkvs)
  obtain rfl := not_not.1 hmagic'
  obtain rfl := not_not.1 hversion'
  -- the length leaves room for the reserved bytes
  have hreserved : (b9.take 32).length = 32 := by
    have hmagicLen : snapshotMagic.length = 4 := by decide
    simp only [List.length_append, length_beBytes, putUint64, FixedBytes.length_eq,
      snapshotHeaderSize] at hlen
    rw [List.length_take]
    omega
  refine ⟨⟨height, epoch, stateRoot, valSetHash, timestamp, UInt64.ofNat accountCount,
    UInt64.ofNat kvCount, ⟨b9.take 32, hreserved⟩⟩, b9.drop 32, ?_⟩
  have haccountBytes : putUint64 (UInt64.ofNat accountCount) = beBytes 8 accountCount := by
    rw [putUint64, UInt64.toNat_ofNat_of_lt' haccountCount]
  have hkvBytes : putUint64 (UInt64.ofNat kvCount) = beBytes 8 kvCount := by
    rw [putUint64, UInt64.toNat_ofNat_of_lt' hkvCount]
  simp only [SnapshotHeader.bytes, haccountBytes, hkvBytes, List.append_assoc,
    List.take_append_drop]

/-! ### The parser -/

def Snapshot.Ascending (snap : Snapshot) : Prop :=
  (snap.accounts.Pairwise fun a b => (compare a.address b.address).isLT) ∧
    snap.kvStore.Pairwise fun a b => (compare a.key b.key).isLT

theorem returns_readSnapshot (checksum : Bool) :
    Returns (readSnapshot limit checksum) Snapshot.Ascending := by
  have haccounts (n : ℕ) : Returns (readAfter readAccountEntry 0 ⟨zeroAddress, []⟩ n)
      fun l => l.Pairwise fun a b => (compare a.address b.address).isLT := fun _ _ _ h =>
    (readAccounts_eq_ok.1 h).2.1.ascending
  have hkvs (n : ℕ) : Returns (readAfter readKVEntry 0 ⟨[], []⟩ n)
      fun l => l.Pairwise fun a b => (compare a.key b.key).isLT := fun _ _ _ h =>
    pairwise_of_readKVs h
  -- magic and version, the fields, the reserved bytes and the checksum
  refine .skip fun _ => .skip fun _ => .skip fun _ => .skip fun _ => .skip fun _ => .skip fun _ =>
    .skip fun _ => .skip fun _ => .skip fun _ => .skip fun _ => .skip fun _ => .skip fun _ =>
    .skip fun _ => .skip fun _ => ?_
  exact (haccounts _).bind fun _ ha => .skip fun _ => (hkvs _).bind fun _ hk => .pure ⟨ha, hk⟩

section

variable [Crypto]

/-- The checksum is right and a table that is announced too large. -/
def Oversized (limit : ℕ) (data : Bytes) : Prop :=
  ∃ (header : SnapshotHeader) (entries : Bytes),
    data = header.bytes ++ entries ++ (sha256 (header.bytes ++ entries)).bytes ∧
      header.TooLarge limit entries

theorem deserializeSnapshot_append {body : Bytes} (hlen : snapshotHeaderSize ≤ body.length)
    (sum : Hash) : deserializeSnapshot limit (body ++ sum.bytes) =
      decodeFrom (readSnapshot limit (decide (sha256 body = sum))) body := by
  have hlength : (body ++ sum.bytes).length = body.length + hashSize := by
    rw [List.length_append, sum.length_eq]
    rfl
  unfold deserializeSnapshot
  rw [hlength, Nat.add_sub_cancel, List.take_left, List.drop_left]
  dsimp only
  rw [check, if_neg (by omega)]
  simp only [FixedBytes.ext_iff]
  rfl

omit [Crypto] in
theorem exists_checksum {data : Bytes} (h : snapshotHeaderSize + hashSize ≤ data.length) :
    ∃ (body : Bytes) (sum : Hash), data = body ++ sum.bytes ∧ snapshotHeaderSize ≤ body.length := by
  refine ⟨data.take (data.length - hashSize), ⟨data.drop (data.length - hashSize), ?_⟩,
    (List.take_append_drop _ _).symm, ?_⟩
  · rw [List.length_drop]
    unfold hashSize at *
    omega
  · rw [List.length_take]
    omega

theorem deserializeSnapshot_panics_iff (limit : ℕ) (data : Bytes) :
    (∃ e, deserializeSnapshot limit data = .error e ∧ e.isPanic = true) ↔ Oversized limit data := by
  constructor
  · rintro ⟨e, he, hpanic⟩
    have hlen : snapshotHeaderSize + hashSize ≤ data.length := by
      by_contra hshort
      rcases except_bind_eq_error.1 he with he | ⟨_, hok, -⟩
      · rw [← (check_eq_error.1 he).2] at hpanic
        cases hpanic
      · exact check_eq_ok.1 hok (Nat.not_le.1 hshort)
    obtain ⟨body, sum, rfl, hbody⟩ := exists_checksum hlen
    rw [deserializeSnapshot_append hbody, decodeFrom_eq_error] at he
    obtain ⟨rest, he⟩ := he
    obtain ⟨header, entries, rfl⟩ := exists_header_of_panics hbody ⟨e, rest, he, hpanic⟩
    obtain ⟨hsum, hlarge⟩ := (panics_readSnapshot_header _ header entries).1 ⟨e, rest, he, hpanic⟩
    exact ⟨header, entries, by rw [of_decide_eq_true hsum], hlarge⟩
  · rintro ⟨header, entries, rfl, hlarge⟩
    obtain ⟨e, rest, he, hpanic⟩ := (panics_readSnapshot_header true header entries).2 ⟨rfl, hlarge⟩
    have hlen : snapshotHeaderSize ≤ (header.bytes ++ entries).length := by
      rw [List.length_append, header.length_bytes]
      exact Nat.le_add_right _ _
    refine ⟨e, ?_, hpanic⟩
    rw [deserializeSnapshot_append hlen, decide_eq_true rfl, decodeFrom_eq_error]
    exact ⟨rest, he⟩

/-- Whatever allocation limit the machine has, the parser is safe exactly on the files that announce
no table beyond it. -/
theorem snapshot_parsing_safe_iff (limit : ℕ) (data : Bytes) :
    ((∀ e, deserializeSnapshot limit data = .error e → e.isPanic = false) ∧
      ∀ snap, deserializeSnapshot limit data = .ok snap → snap.Ascending) ↔
    ¬ Oversized limit data := by
  rw [← deserializeSnapshot_panics_iff limit]
  constructor
  · rintro ⟨hsafe, -⟩ ⟨e, he, hpanic⟩
    rw [hsafe e he] at hpanic
    cases hpanic
  · refine fun h => ⟨fun e he => ?_, fun snap hsnap => ?_⟩
    · exact Bool.eq_false_iff.2 fun hpanic => h ⟨e, he, hpanic⟩
    · obtain ⟨_, -, hsnap⟩ := except_bind_eq_ok.1 hsnap
      obtain ⟨rest, hrun⟩ := decodeFrom_eq_ok.1 hsnap
      exact returns_readSnapshot _ _ _ _ hrun

def manyAccounts : SnapshotHeader :=
  ⟨0, 0, default, default, 0, UInt64.ofNat (2 ^ 48), 0, default⟩

end

open Sample

theorem manyAccounts_panics : ¬ ∃ limit ≤ maxAlloc, ∀ data : Bytes,
    (∀ e, deserializeSnapshot limit data = .error e → e.isPanic = false) ∧
      ∀ snap, deserializeSnapshot limit data = .ok snap → snap.Ascending := by
  rintro ⟨limit, hlimit, h⟩
  obtain ⟨e, he, hpanic⟩ := (deserializeSnapshot_panics_iff limit _).2
    ⟨manyAccounts, [], rfl, .inl (hlimit.trans_lt (by decide))⟩
  rw [(h _).1 e he] at hpanic
  cases hpanic

end Dsn
