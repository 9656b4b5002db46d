import Dsn.State.Chunks

/-!
# `network/snapshot.go`: a chunk on the wire

`parseSnapshotChunk` undoes `serializeSnapshotChunk` and ignores what follows.
-/

namespace Dsn

open Go

def uint32At (data : Bytes) (i : ℕ) : UInt32 := .ofNat (beNat ((data.drop i).take 4))

def serializeSnapshotChunk (chunk : SnapshotChunk) : Bytes :=
  beBytes 4 chunk.index.toNat ++ beBytes 4 chunk.totalCount.toNat ++ chunk.snapshotHash.bytes ++
    chunk.chunkHash.bytes ++ beBytes 4 chunk.data.length ++ chunk.data

/-- The end of the data is computed in 32 bits. -/
def parseSnapshotChunk (data : Bytes) : Except Error (Option SnapshotChunk) :=
  let dataLen := uint32At data 72
  if data.length < 76 ∨ data.length < 76 + dataLen.toNat then .ok none
  else if 76 + dataLen < 76 then .error (.panic "slice bounds out of range")
  else .ok (some ⟨uint32At data 0, uint32At data 4, .copy 32 (data.drop 8),
    .copy 32 (data.drop 40), (data.drop 76).take ((76 + dataLen).toNat - 76)⟩)

variable {data rest : Bytes} {i : ℕ} {chunk : SnapshotChunk}

theorem beBytes_uint32At (h : i + 4 ≤ data.length) :
    beBytes 4 (uint32At data i).toNat = (data.drop i).take 4 := by
  have hlen : ((data.drop i).take 4).length = 4 := by simp; omega
  have hlt := beNat_lt ((data.drop i).take 4)
  rw [hlen] at hlt
  rw [uint32At, UInt32.toNat_ofNat_of_lt' hlt]
  nth_rewrite 1 [← hlen]
  exact beBytes_beNat _

theorem bytes_copy (h : i + 32 ≤ data.length) :
    (FixedBytes.copy 32 (data.drop i)).bytes = (data.drop i).take 32 := by
  simp only [FixedBytes.copy]
  exact List.take_append_of_le_length (by simp; omega)

theorem parseSnapshotChunk_append (h : chunk.data.length + 76 < 2 ^ 32) :
    parseSnapshotChunk (serializeSnapshotChunk chunk ++ rest) = .ok (some chunk) := by
  have hback (v : UInt32) : UInt32.ofNat (beNat (beBytes 4 v.toNat)) = v := by
    rw [beNat_beBytes v.toNat_lt, UInt32.ofNat_toNat]
  have hcopy (a : FixedBytes 32) (b : Bytes) : FixedBytes.copy 32 (a.bytes ++ b) = a := by
    apply FixedBytes.ext
    simp [FixedBytes.copy]
  have hlen : beNat (beBytes 4 chunk.data.length) = chunk.data.length := beNat_beBytes (by omega)
  have hend : (76 + chunk.data.length) % 4294967296 = 76 + chunk.data.length := by omega
  simp [parseSnapshotChunk, serializeSnapshotChunk, uint32At, List.drop_append,
    List.drop_eq_nil_of_le, hcopy, hback, hlen, hend, UInt32.lt_iff_toNat_lt, UInt32.toNat_add]
  omega

theorem serialize_of_parse (h : data.length < 2 ^ 32)
    (hparse : parseSnapshotChunk data = .ok (some chunk)) :
    serializeSnapshotChunk chunk <+: data := by
  unfold parseSnapshotChunk at hparse
  dsimp only at hparse
  split_ifs at hparse with hlen
  · cases hparse
  have hend : (76 + uint32At data 72).toNat - 76 = (uint32At data 72).toNat := by
    rw [UInt32.toNat_add]
    simp
    omega
  have htaken : ((data.drop 76).take (uint32At data 72).toNat).length =
      (uint32At data 72).toNat := by
    simp
    omega
  cases hparse
  rw [hend, serializeSnapshotChunk]
  dsimp only
  rw [htaken, beBytes_uint32At (by omega), beBytes_uint32At (by omega), beBytes_uint32At (by omega),
    bytes_copy (by omega), bytes_copy (by omega), List.drop_zero]
  simp only [← List.take_add]
  exact List.take_prefix _ _

/-- A message below 4 GiB makes no panic, and is parsed as a chunk exactly if it starts with it. -/
theorem parseSnapshotChunk_iff (h : data.length < 2 ^ 32) (chunk : SnapshotChunk) :
    (∀ e, parseSnapshotChunk data ≠ .error e) ∧
      (parseSnapshotChunk data = .ok (some chunk) ↔ serializeSnapshotChunk chunk <+: data) := by
  refine ⟨fun e he => ?_, serialize_of_parse h, ?_⟩
  · unfold parseSnapshotChunk at he
    dsimp only at he
    split_ifs at he with hlen hwrap
    rw [UInt32.lt_iff_toNat_lt, UInt32.toNat_add] at hwrap
    simp at hwrap
    omega
  · rintro ⟨rest, rfl⟩
    refine parseSnapshotChunk_append ?_
    simp [serializeSnapshotChunk] at h
    omega

theorem parseSnapshotChunk_sample :
    parseSnapshotChunk (serializeSnapshotChunk ⟨0, 1, zeroHash, zeroHash, [7]⟩ ++ [8]) =
      .ok (some ⟨0, 1, zeroHash, zeroHash, [7]⟩) :=
  (parseSnapshotChunk_iff (by decide) _).2.2 ⟨[8], rfl⟩

end Dsn
