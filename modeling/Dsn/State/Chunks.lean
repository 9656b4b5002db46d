import Dsn.State.SnapshotFile

/-!
# `state`: snapshots in chunks

A file cut into chunks is put together from them in any order, if the allocator allows it.
-/

namespace Dsn

open Go

variable {limit : ℕ} {data : Bytes} {total : UInt32} {chunkSize : UInt64}

def defaultChunkSize : ℕ := 256 * 1024

structure SnapshotChunk where
  index : UInt32
  totalCount : UInt32
  snapshotHash : Hash
  chunkHash : Hash
  data : Bytes

def snapshotChunkSize : ℕ := 96

section

variable [Crypto]

def chunkLoop (data : Bytes) (chunkSize : UInt64) (totalChunks : UInt32) (snapHash : Hash) :
    ℕ → UInt64 → UInt32 → List SnapshotChunk
  | 0, _, _ => []
  | turns + 1, offset, index =>
    let dataLen := UInt64.ofNat data.length
    if offset < dataLen then
      let remain := dataLen - offset
      let chunkDataSize := if remain < chunkSize then remain else chunkSize
      let chunkData := (data.drop offset.toNat).take chunkDataSize.toNat
      ⟨index, totalChunks, snapHash, sha256 chunkData, chunkData⟩ ::
        chunkLoop data chunkSize totalChunks snapHash turns (offset + chunkDataSize) (index + 1)
    else []

def chunkSnapshot (limit : ℕ) (data : Bytes) (chunkSize : UInt64) :
    Except Error (List SnapshotChunk) := do
  check (chunkSize = 0) (.new "chunk size cannot be zero")
  let dataLen := UInt64.ofNat data.length
  check (dataLen = 0) (.new "snapshot data is empty")
  let totalChunks := (dataLen + chunkSize - 1) / chunkSize
  check (totalChunks.toNat > 0xFFFFFFFF) (.new s!"too many chunks: {totalChunks}")
  check (snapshotChunkSize * totalChunks.toNat > limit)
    (.panic "runtime error: makeslice: cap out of range")
  return chunkLoop data chunkSize totalChunks.toUInt32 (snapshotHash data) data.length 0 0

def verifyChunk (chunk : SnapshotChunk) : Bool := sha256 chunk.data = chunk.chunkHash

def collectChunks (expectedSnapshotHash : Hash) : ℕ → List SnapshotChunk → Except Error Bytes
  | _, [] => .ok []
  | i, chunk :: rest => do
    check (chunk.index ≠ UInt32.ofNat i) (.new s!"missing chunk at index {i}")
    check (verifyChunk chunk = false) (.new s!"chunk {i} hash verification failed")
    check (chunk.snapshotHash ≠ expectedSnapshotHash)
      (.new s!"chunk {i} has different snapshot hash")
    let data ← collectChunks expectedSnapshotHash (i + 1) rest
    return chunk.data ++ data

def sortChunks (chunks : List SnapshotChunk) : List SnapshotChunk :=
  sortSlice (fun a b => (compare a.index b.index).isLT) chunks

def reassembleSnapshot (limit : ℕ) (chunks : List SnapshotChunk) : Except Error Bytes :=
  match sortChunks chunks with
  | [] => .error (.new "no chunks provided")
  | first :: rest => do
    let count := (first :: rest).length
    check (count ≠ first.totalCount.toNat)
      (.new s!"chunk count mismatch: got {count}, expected {first.totalCount}")
    check (chunks.length * defaultChunkSize > limit)
      (.panic "runtime error: makeslice: cap out of range")
    let data ← collectChunks first.snapshotHash 0 (first :: rest)
    check (snapshotHash data ≠ first.snapshotHash) (.new "reassembled data hash mismatch")
    return data

/-! ### Cutting -/

structure Cuts (size : ℕ) (snapHash : Hash) (i : ℕ) (b : Bytes) (chunks : List SnapshotChunk) :
    Prop where
  flatMap_data : chunks.flatMap SnapshotChunk.data = b
  length_eq : chunks.length = (b.length + size - 1) / size
  indexes : chunks.map SnapshotChunk.index = (List.range' i chunks.length).map UInt32.ofNat
  hashes : ∀ c ∈ chunks, verifyChunk c = true ∧ c.snapshotHash = snapHash

variable {size i : ℕ} {snapHash : Hash} {b : Bytes} {chunks : List SnapshotChunk}

theorem Cuts.nil (hsize : 0 < size) : Cuts size snapHash i [] [] where
  flatMap_data := rfl
  length_eq := (Nat.div_eq_of_lt (by simpa using hsize)).symm
  indexes := rfl
  hashes := by simp

theorem Cuts.cons (hsize : 0 < size) (hb : b ≠ []) (total : UInt32)
    (h : Cuts size snapHash (i + 1) (b.drop size) chunks) :
    Cuts size snapHash i b
      (⟨UInt32.ofNat i, total, snapHash, sha256 (b.take size), b.take size⟩ :: chunks) where
  flatMap_data := by
    rw [List.flatMap_cons, h.flatMap_data]
    exact List.take_append_drop size b
  length_eq := by
    have hpos := List.length_pos_iff.2 hb
    rw [List.length_cons, h.length_eq, List.length_drop]
    rcases le_total b.length size with hle | hle
    · have hone : (b.length + size - 1) / size = 1 := Nat.div_eq_of_lt_le (by omega) (by omega)
      rw [Nat.div_eq_of_lt (by omega), hone]
    · rw [← Nat.add_div_right _ hsize]
      congr 1
      omega
  indexes := by
    rw [List.map_cons, h.indexes, List.length_cons, List.range'_succ, List.map_cons]
  hashes := by
    intro c hc
    rcases List.mem_cons.1 hc with rfl | hc
    · exact ⟨decide_eq_true rfl, rfl⟩
    · exact h.hashes c hc

variable {index : UInt32} {offset : UInt64} {turns : ℕ}

theorem chunkLoop_succ (chunkSize : UInt64)
    (hlen : data.length < 2 ^ 64) (hoffset : offset.toNat < data.length) :
    ∃ next : UInt64, next.toNat = min (offset.toNat + chunkSize.toNat) data.length ∧
      chunkLoop data chunkSize total snapHash (turns + 1) offset index =
        ⟨index, total, snapHash, sha256 ((data.drop offset.toNat).take chunkSize.toNat),
          (data.drop offset.toNat).take chunkSize.toNat⟩ ::
            chunkLoop data chunkSize total snapHash turns next (index + 1) := by
  have hdataLen : (UInt64.ofNat data.length).toNat = data.length :=
    UInt64.toNat_ofNat_of_lt' hlen
  have hlt : offset < UInt64.ofNat data.length := by
    rw [UInt64.lt_iff_toNat_lt, hdataLen]
    exact hoffset
  have hremain : (UInt64.ofNat data.length - offset).toNat = data.length - offset.toNat := by
    rw [UInt64.toNat_sub_of_le _ _ (UInt64.le_of_lt hlt), hdataLen]
  set taken := if UInt64.ofNat data.length - offset < chunkSize then
    UInt64.ofNat data.length - offset else chunkSize with htaken
  have htakenNat : taken.toNat = min chunkSize.toNat (data.length - offset.toNat) := by
    rw [htaken, apply_ite UInt64.toNat]
    have hiff := UInt64.lt_iff_toNat_lt (a := UInt64.ofNat data.length - offset) (b := chunkSize)
    split_ifs with h
    · rw [hiff] at h
      omega
    · rw [hiff] at h
      omega
  have hpiece : (data.drop offset.toNat).take taken.toNat =
      (data.drop offset.toNat).take chunkSize.toNat := by
    rw [htakenNat, ← List.length_drop, List.take_eq_take_iff]
    omega
  refine ⟨offset + taken, ?_, ?_⟩
  · rw [UInt64.toNat_add, htakenNat]
    omega
  · rw [chunkLoop, if_pos hlt]
    dsimp only
    rw [hpiece]

theorem chunkLoop_cuts (hlen : data.length < 2 ^ 64) (hsize : 0 < chunkSize.toNat) (turns : ℕ)
    (offset : UInt64) (hoffset : offset.toNat ≤ data.length)
    (hturns : data.length - offset.toNat ≤ turns) (i : ℕ) :
    Cuts chunkSize.toNat snapHash i (data.drop offset.toNat)
      (chunkLoop data chunkSize total snapHash turns offset (UInt32.ofNat i)) := by
  induction turns generalizing offset i with
  | zero =>
    rw [List.drop_eq_nil_of_le (by omega)]
    exact .nil hsize
  | succ turns ih =>
    rcases hoffset.eq_or_lt with heq | hlt
    · have hstop : ¬ offset < UInt64.ofNat data.length := by
        rw [UInt64.lt_iff_toNat_lt, UInt64.toNat_ofNat_of_lt' hlen]
        omega
      rw [chunkLoop, if_neg hstop, List.drop_eq_nil_of_le heq.ge]
      exact .nil hsize
    · obtain ⟨next, hnext, hloop⟩ := chunkLoop_succ chunkSize hlen hlt
      have hrest := ih next (by omega) (by omega) (i + 1)
      have hdrop : data.drop next.toNat = (data.drop offset.toNat).drop chunkSize.toNat := by
        rw [List.drop_drop, hnext]
        rcases le_total (offset.toNat + chunkSize.toNat) data.length with hle | hle
        · rw [min_eq_left hle]
        · rw [min_eq_right hle, List.drop_length, List.drop_eq_nil_of_le hle]
      rw [hdrop, UInt32.ofNat_add] at hrest
      rw [hloop]
      refine hrest.cons hsize ?_ total
      rw [ne_eq, List.drop_eq_nil_iff]
      omega

def chunkCount (data : Bytes) (chunkSize : UInt64) : UInt64 :=
  (UInt64.ofNat data.length + chunkSize - 1) / chunkSize

section

variable (hlen : data.length + chunkSize.toNat < 2 ^ 64)
include hlen

omit [Crypto] in
theorem toNat_chunkCount (hsize : chunkSize ≠ 0) :
    (chunkCount data chunkSize).toNat =
      (data.length + chunkSize.toNat - 1) / chunkSize.toNat := by
  have hdataLen : (UInt64.ofNat data.length).toNat = data.length :=
    UInt64.toNat_ofNat_of_lt' (by rw [UInt64.size]; omega)
  have hpos : chunkSize.toNat ≠ 0 := fun h => hsize (UInt64.toNat_inj.1 h)
  have hsum : (UInt64.ofNat data.length + chunkSize).toNat = data.length + chunkSize.toNat := by
    rw [UInt64.toNat_add, hdataLen, Nat.mod_eq_of_lt hlen]
  have hone : (1 : UInt64) ≤ UInt64.ofNat data.length + chunkSize := by
    rw [UInt64.le_iff_toNat_le]
    show 1 ≤ _
    omega
  rw [chunkCount, UInt64.toNat_div, UInt64.toNat_sub_of_le _ _ hone, hsum]
  rfl

theorem chunkSnapshot_eq_ok :
    chunkSnapshot limit data chunkSize = .ok chunks ↔ chunkSize ≠ 0 ∧ data ≠ [] ∧
      (data.length + chunkSize.toNat - 1) / chunkSize.toNat ≤ 0xFFFFFFFF ∧
      snapshotChunkSize * ((data.length + chunkSize.toNat - 1) / chunkSize.toNat) ≤ limit ∧
      chunks = chunkLoop data chunkSize (chunkCount data chunkSize).toUInt32 (snapshotHash data)
        data.length 0 0 := by
  have hempty : UInt64.ofNat data.length = 0 ↔ data = [] := by
    rw [← UInt64.toNat_inj, UInt64.toNat_ofNat_of_lt' (by rw [UInt64.size]; omega)]
    exact List.length_eq_zero_iff
  unfold chunkSnapshot
  simp only [except_bind_eq_ok, check_eq_ok, hempty, not_lt]
  rw [← chunkCount]
  constructor
  · rintro ⟨-, hsize, -, hne, -, hcount, -, hroom, h⟩
    rw [toNat_chunkCount hlen hsize] at hcount hroom
    cases h
    exact ⟨hsize, hne, hcount, hroom, rfl⟩
  · rintro ⟨hsize, hne, hcount, hroom, rfl⟩
    rw [← toNat_chunkCount hlen hsize] at hcount hroom
    exact ⟨(), hsize, (), hne, (), hcount, (), hroom, rfl⟩

theorem cuts_of_chunkSnapshot (h : chunkSnapshot limit data chunkSize = .ok chunks) :
    Cuts chunkSize.toNat (snapshotHash data) 0 data chunks := by
  obtain ⟨hsize, -, -, -, rfl⟩ := (chunkSnapshot_eq_ok hlen).1 h
  have hpos : 0 < chunkSize.toNat :=
    Nat.pos_of_ne_zero fun h => hsize (UInt64.toNat_inj.1 h)
  exact chunkLoop_cuts (by omega) hpos data.length 0 (Nat.zero_le _) (Nat.sub_le _ _) 0

end

theorem totalCount_of_mem_chunkLoop
    {c : SnapshotChunk} (h : c ∈ chunkLoop data chunkSize total snapHash turns offset index) :
    c.totalCount = total := by
  induction turns generalizing offset index with
  | zero => cases h
  | succ turns ih =>
    rw [chunkLoop] at h
    by_cases hlt : offset < UInt64.ofNat data.length
    · rw [if_pos hlt] at h
      rcases List.mem_cons.1 h with rfl | h
      · rfl
      · exact ih h
    · rw [if_neg hlt] at h
      cases h

/-! ### Putting together -/

theorem collectChunks_eq_ok {expected : Hash} :
    collectChunks expected i chunks = .ok data ↔
      chunks.map SnapshotChunk.index = (List.range' i chunks.length).map UInt32.ofNat ∧
        (∀ c ∈ chunks, verifyChunk c = true ∧ c.snapshotHash = expected) ∧
          data = chunks.flatMap SnapshotChunk.data := by
  induction chunks generalizing i data with
  | nil =>
    exact ⟨fun h => ⟨rfl, by simp, (Except.ok.inj h).symm⟩, fun h => congrArg _ h.2.2.symm⟩
  | cons chunk chunks ih =>
    rw [collectChunks]
    simp only [except_bind_eq_ok, check_eq_ok, ih, List.map_cons, List.length_cons,
      List.range'_succ, List.cons.injEq, List.forall_mem_cons]
    constructor
    · rintro ⟨-, hindex, -, hverify, -, hhash, rest, ⟨hindexes, hhashes, rfl⟩, h⟩
      cases h
      exact ⟨⟨not_not.1 hindex, hindexes⟩,
        ⟨⟨by simpa using hverify, not_not.1 hhash⟩, hhashes⟩, rfl⟩
    · rintro ⟨⟨hindex, hindexes⟩, ⟨⟨hverify, hhash⟩, hhashes⟩, rfl⟩
      exact ⟨(), not_not.2 hindex, (), by simp [hverify], (), not_not.2 hhash, _,
        ⟨hindexes, hhashes, rfl⟩, rfl⟩

omit [Crypto] in
theorem pairwise_index_of_indexes (hcount : chunks.length ≤ 2 ^ 32)
    (h : chunks.map SnapshotChunk.index = (List.range' 0 chunks.length).map UInt32.ofNat) :
    chunks.Pairwise fun a b => (compare a.index b.index).isLT := by
  suffices hmap : (chunks.map SnapshotChunk.index).Pairwise fun a b => (compare a b).isLT from
    List.pairwise_map.1 hmap
  rw [h, List.pairwise_map]
  refine (List.pairwise_lt_range' 1).imp_of_mem fun {a b} ha hb hab => ?_
  have hb := (List.mem_range'_1.1 hb).2
  have hlt : UInt32.ofNat a < UInt32.ofNat b := by
    rw [UInt32.lt_iff_toNat_lt, UInt32.toNat_ofNat_of_lt' (by rw [UInt32.size]; omega),
      UInt32.toNat_ofNat_of_lt' (by rw [UInt32.size]; omega)]
    exact hab
  show (compareOfLessAndEq (UInt32.ofNat a) (UInt32.ofNat b)).isLT = true
  rw [compareOfLessAndEq, if_pos hlt]
  rfl

variable {l : List SnapshotChunk}

omit [Crypto] in
theorem sortChunks_of_perm (hperm : l.Perm chunks)
    (h : chunks.Pairwise fun a b => (compare a.index b.index).isLT) : sortChunks l = chunks := by
  have hnodup : (chunks.map SnapshotChunk.index).Nodup := by
    refine List.pairwise_map.2 (h.imp fun {a b} hab heq => ?_)
    rw [heq, Std.ReflOrd.compare_self] at hab
    cases hab
  unfold sortChunks
  rw [← sortSlice_eq_of_perm hnodup hperm.symm]
  exact sortSlice_of_pairwise SnapshotChunk.index h

theorem reassembleSnapshot_of_perm
    (hlen : data.length + chunkSize.toNat < 2 ^ 64)
    (h : chunkSnapshot limit data chunkSize = .ok chunks)
    (hperm : l.Perm chunks) : reassembleSnapshot limit l =
      if (data.length + chunkSize.toNat - 1) / chunkSize.toNat * defaultChunkSize ≤ limit then
        .ok data
      else .error (.panic "runtime error: makeslice: cap out of range") := by
  have hcuts := cuts_of_chunkSnapshot hlen h
  obtain ⟨hsize, hne, hcount, -, hchunks⟩ := (chunkSnapshot_eq_ok hlen).1 h
  have hsorted : sortChunks l = chunks := by
    refine sortChunks_of_perm hperm (pairwise_index_of_indexes ?_ hcuts.indexes)
    rw [hcuts.length_eq]
    omega
  have htotal : ∀ c ∈ chunks, c.totalCount.toNat = chunks.length := by
    intro c hc
    rw [hchunks] at hc
    rw [totalCount_of_mem_chunkLoop hc, UInt64.toNat_toUInt32, toNat_chunkCount hlen hsize,
      hcuts.length_eq]
    exact Nat.mod_eq_of_lt (hcount.trans_lt (by norm_num))
  cases chunks with
  | nil => exact absurd hcuts.flatMap_data.symm hne
  | cons first rest =>
    have hfirst := List.mem_cons_self (a := first) (l := rest)
    have hcollect : collectChunks first.snapshotHash 0 (first :: rest) = .ok data := by
      rw [(hcuts.hashes first hfirst).2]
      exact collectChunks_eq_ok.2 ⟨hcuts.indexes, hcuts.hashes, hcuts.flatMap_data.symm⟩
    unfold reassembleSnapshot
    rw [hsorted, hperm.length_eq, hcuts.length_eq]
    split_ifs with hfits
    · refine except_bind_eq_ok.2 ⟨(), check_eq_ok.2 (not_not.2 (htotal first hfirst).symm), ?_⟩
      refine except_bind_eq_ok.2 ⟨(), check_eq_ok.2 (Nat.not_lt.2 hfits), ?_⟩
      refine except_bind_eq_ok.2 ⟨data, hcollect, except_bind_eq_ok.2 ⟨(), ?_, rfl⟩⟩
      rw [check_eq_ok, (hcuts.hashes first hfirst).2]
      exact not_not.2 rfl
    · refine except_bind_eq_error.2 (.inr ⟨(), ?_, except_bind_eq_error.2 (.inl ?_)⟩)
      · exact check_eq_ok.2 (not_not.2 (htotal first hfirst).symm)
      · exact check_eq_error.2 ⟨Nat.not_le.1 hfits, rfl⟩

theorem reassembleSnapshot_eq_ok (h : reassembleSnapshot limit chunks = .ok data) :
    ∃ sorted : List SnapshotChunk, sorted.Perm chunks ∧
      sorted.map (fun c => c.index.toNat) = List.range chunks.length ∧
      data = sorted.flatMap SnapshotChunk.data ∧
      ∀ c ∈ chunks, c.snapshotHash = snapshotHash data := by
  have hperm : (sortChunks chunks).Perm chunks := sortSlice_perm _ _
  refine ⟨sortChunks chunks, hperm, ?_⟩
  unfold reassembleSnapshot at h
  split at h
  case h_1 => cases h
  case h_2 first rest hsorted =>
    simp only [except_bind_eq_ok, check_eq_ok, collectChunks_eq_ok, ← hsorted] at h
    obtain ⟨-, hcount, -, -, collected, ⟨hindexes, hhashes, rfl⟩, -, hhash, hdata⟩ := h
    cases hdata
    refine ⟨?_, rfl, fun c hc => ?_⟩
    · rw [hperm.length_eq] at hcount hindexes
      have htoNat := congrArg (List.map UInt32.toNat) hindexes
      rw [List.map_map, List.map_map] at htoNat
      refine htoNat.trans ?_
      rw [List.range_eq_range']
      refine (List.map_congr_left fun i hi => ?_).trans (List.map_id _)
      have hi := (List.mem_range'_1.1 hi).2
      have hlt := first.totalCount.toNat_lt
      exact UInt32.toNat_ofNat_of_lt' (by rw [UInt32.size]; omega)
    · rw [(hhashes c (hperm.mem_iff.2 hc)).2]
      exact (not_not.1 hhash).symm

/-- On a machine with the given allocation limit, the chunks of a snapshot are accepted in any order
exactly if as many buffers of the default chunk size fit in it. -/
theorem chunks_reassemble_iff (limit : ℕ) (data : Bytes) (chunkSize : UInt64)
    (chunks : List SnapshotChunk)
    (hlen : data.length + chunkSize.toNat < 2 ^ 64)
    (h : chunkSnapshot limit data chunkSize = .ok chunks) :
    ((∀ l : List SnapshotChunk, l.Perm chunks → reassembleSnapshot limit l = .ok data) ↔
      (data.length + chunkSize.toNat - 1) / chunkSize.toNat * defaultChunkSize ≤ limit) ∧
    ∀ (received : List SnapshotChunk) (result : Bytes),
      reassembleSnapshot limit received = .ok result →
        ∃ sorted : List SnapshotChunk, sorted.Perm received ∧
          sorted.map (fun c => c.index.toNat) = List.range received.length ∧
          result = sorted.flatMap SnapshotChunk.data ∧
          ∀ c ∈ received, c.snapshotHash = snapshotHash result := by
  refine ⟨⟨fun hall => ?_, fun hfits l hperm => ?_⟩, fun _ _ => reassembleSnapshot_eq_ok⟩
  · have hself := hall chunks (.refl _)
    rw [reassembleSnapshot_of_perm hlen h (.refl _)] at hself
    by_contra hlarge
    rw [if_neg hlarge] at hself
    cases hself
  · rw [reassembleSnapshot_of_perm hlen h hperm, if_pos hfits]

end

open Sample

/-- Wherever one chunk can be cut at all, some snapshot is cut into more chunks than can be put
together. -/
theorem chunks_not_reassembled : ¬ ∃ limit ≤ maxAlloc, snapshotChunkSize ≤ limit ∧
    ∀ (data : Bytes) (chunkSize : UInt64) (chunks l : List SnapshotChunk),
      data.length + chunkSize.toNat < 2 ^ 64 → chunkSnapshot limit data chunkSize = .ok chunks →
        l.Perm chunks → reassembleSnapshot limit l = .ok data := by
  rintro ⟨limit, hlimit, hone, h⟩
  unfold maxAlloc snapshotChunkSize at *
  -- one byte a chunk, and one chunk more than the limit has buffers for
  obtain ⟨data, hdata⟩ : ∃ data : Bytes, data.length = limit / defaultChunkSize + 1 :=
    ⟨List.replicate _ 0, List.length_replicate⟩
  have hsize : (1 : UInt64).toNat = 1 := rfl
  have hcount : (data.length + (1 : UInt64).toNat - 1) / (1 : UInt64).toNat = data.length := by
    rw [hsize, Nat.add_sub_cancel, Nat.div_one]
  unfold defaultChunkSize at hdata
  have hlen : data.length + (1 : UInt64).toNat < 2 ^ 64 := by omega
  have hchunks : chunkSnapshot limit data 1 = .ok _ := (chunkSnapshot_eq_ok hlen).2 ⟨by decide,
    List.ne_nil_of_length_pos (by omega), by omega, by unfold snapshotChunkSize; omega, rfl⟩
  have hresult := h data 1 _ _ hlen hchunks (.refl _)
  rw [reassembleSnapshot_of_perm hlen hchunks (.refl _), hcount,
    if_neg (by unfold defaultChunkSize; omega)] at hresult
  cases hresult

theorem three_bytes_reassembled :
    ∃ chunks, chunkSnapshot (2 ^ 30) [1, 2, 3] 2 = .ok chunks ∧ chunks.length = 2 ∧
      ∀ l : List SnapshotChunk, l.Perm chunks → reassembleSnapshot (2 ^ 30) l = .ok [1, 2, 3] :=
  ⟨_, rfl, rfl, (chunks_reassemble_iff (2 ^ 30) [1, 2, 3] 2 _ (by decide) rfl).1.2 (by decide)⟩

end Dsn
