import Dsn.Types.Vote

/-!
# `types`: the codec of evidence

The three kinds of evidence; readers and writers have different limits.
-/

namespace Dsn

open Go

def errInvalidEvidenceType : Error := .new "invalid evidence type"

/-! ### Reading -/

def readLimited (what : String) : Reader Bytes := do
  let length ← readBE 4
  failIf (length > 1024) (.detail errInvalidEncoding s!"{what} too long ({length})")
  readFull length

def Vote.decode : Reader Vote := do
  let voteType ← readBE 1
  let height ← readUint64
  let round ← readUint32
  let blockHash ← readFixed 32
  let validator ← readFixed 20
  let signature ← readLimited "signature"
  return { voteType := UInt8.ofNat voteType, height, round, blockHash, validator, signature }

def CommitProof.decode : Reader CommitProof := do
  let height ← readUint64
  let blockHash ← readFixed 32
  let count ← readBE 8
  failIf (count > 10000) (.detail errInvalidEncoding s!"too many precommits ({count})")
  let precommits ← readMany (fun i => wrapErr s!"precommit {i}" Vote.decode) 0 count
  let totalPower ← readUint64
  let signedPower ← readUint64
  let setHash ← readFixed 32
  return { height, blockHash, precommits, totalPower, signedPower, setHash }

def DoubleSignEvidence.decode : Reader DoubleSignEvidence := do
  let _voteType ← readBE 1
  let voteA ← Vote.decode
  let voteB ← Vote.decode
  return { voteA, voteB }

def InvalidCommitEvidence.decode : Reader InvalidCommitEvidence := do
  let proof ← CommitProof.decode
  let reason ← readLimited "reason"
  return { proof, reason }

def MalformedVoteEvidence.decode : Reader MalformedVoteEvidence := do
  let _voteType ← readBE 1
  let badVote ← Vote.decode
  let reason ← readLimited "reason"
  return { badVote, reason }

def decodeEvidence : Reader Evidence := do
  let evidenceType ← readBE 1
  if evidenceType = 1 then return .doubleSign (← DoubleSignEvidence.decode)
  else if evidenceType = 2 then return .invalidCommit (← InvalidCommitEvidence.decode)
  else if evidenceType = 3 then return .malformedVote (← MalformedVoteEvidence.decode)
  else throw (.detail errInvalidEvidenceType s!"unknown type {evidenceType}")

def decodeEvidenceList : Reader (List Evidence) := do
  let count ← readBE 4
  readMany (fun _ => decodeEvidence) 0 count

/-! ### Writing -/

def Evidence.encode : Evidence → Bytes
  | doubleSign e => [e.voteA.voteType] ++ e.voteA.encode ++ e.voteB.encode
  | invalidCommit e => e.proof.encode ++ beBytes 4 e.reason.length ++ e.reason
  | malformedVote e =>
    [e.badVote.voteType] ++ e.badVote.encode ++ beBytes 4 e.reason.length ++ e.reason

def encodeEvidence (ev : Evidence) : Bytes := ev.type :: ev.encode

def encodeEvidenceList (evidence : List Evidence) : Bytes :=
  beBytes 4 evidence.length ++ evidence.flatMap encodeEvidence

/-! ### The limits of the readers -/

def Vote.Decodable (v : Vote) : Prop := v.signature.length ≤ 1024

structure CommitProof.Decodable (c : CommitProof) : Prop where
  count : c.precommits.length ≤ 10000
  votes : ∀ v ∈ c.precommits, v.Decodable

def Evidence.Decodable : Evidence → Prop
  | doubleSign e => e.voteA.Decodable ∧ e.voteB.Decodable
  | invalidCommit e => e.proof.Decodable ∧ e.reason.length ≤ 1024
  | malformedVote e => e.badVote.Decodable ∧ e.reason.length ≤ 1024

theorem returns_limited (what : String) :
    Returns (readLimited what) fun b => b.length ≤ 1024 := by
  refine Returns.skip fun length => (Returns.failIf _ _).bind fun _ hle => ?_
  exact fun inp b rest h => (Returns.readFull length inp b rest h).trans_le (Nat.not_lt.1 hle)

theorem Vote.returns_decode : Returns Vote.decode Vote.Decodable := by
  refine Returns.skip fun _ => Returns.skip fun _ => Returns.skip fun _ => ?_
  refine Returns.skip fun _ => Returns.skip fun _ => ?_
  exact (returns_limited _).bind fun signature hsig => .pure hsig

theorem CommitProof.returns_decode : Returns CommitProof.decode CommitProof.Decodable := by
  refine Returns.skip fun _ => Returns.skip fun _ => Returns.skip fun count => ?_
  refine (Returns.failIf _ _).bind fun _ hcount => ?_
  refine (Returns.readMany (fun i => Vote.returns_decode.wrapErr _) count 0).bind fun l hl => ?_
  refine Returns.skip fun _ => Returns.skip fun _ => Returns.skip fun _ => .pure ⟨?_, hl.2⟩
  exact hl.1.trans_le (Nat.not_lt.1 hcount)

theorem returns_decodeEvidence : Returns decodeEvidence Evidence.Decodable := by
  refine Returns.skip fun kind => ?_
  split_ifs
  · refine Returns.bind (p := fun e => Evidence.Decodable (.doubleSign e)) ?_ fun e he => .pure he
    refine Returns.skip fun _ => Vote.returns_decode.bind fun a ha => ?_
    exact Vote.returns_decode.bind fun b hb => .pure ⟨ha, hb⟩
  · refine Returns.bind (p := fun e => Evidence.Decodable (.invalidCommit e)) ?_
      fun e he => .pure he
    refine CommitProof.returns_decode.bind fun c hc => ?_
    exact (returns_limited _).bind fun reason hreason => .pure ⟨hc, hreason⟩
  · refine Returns.bind (p := fun e => Evidence.Decodable (.malformedVote e)) ?_
      fun e he => .pure he
    refine Returns.skip fun _ => Vote.returns_decode.bind fun v hv => ?_
    exact (returns_limited _).bind fun reason hreason => .pure ⟨hv, hreason⟩
  · intro inp ev rest h
    cases h

/-! ### The round trip -/

theorem reads_limited (what : String) {b : Bytes} (h : b.length ≤ 1024) :
    Reads (readLimited what) (beBytes 4 b.length ++ b) b := by
  refine (Reads.readBE (by omega)).bind ?_
  exact (Reads.failIf _ (Nat.not_lt.2 h)).nil_bind (Reads.readFull b)

theorem Vote.reads {v : Vote} (h : v.Decodable) : Reads Vote.decode v.encode v := by
  unfold encode content
  simp only [List.append_assoc]
  refine (Reads.byte _).bind ((Reads.readUint64 _).bind ?_)
  refine (Reads.readUint32 _).bind ((Reads.readFixed _).bind ((Reads.readFixed _).bind ?_))
  refine (reads_limited _ h).bind_pure ?_
  rw [UInt8.ofNat_toNat]
  exact Reads.pure v

theorem CommitProof.reads {c : CommitProof} (h : c.Decodable) :
    Reads CommitProof.decode c.encode c := by
  have hlen : c.precommits.length < 256 ^ 8 := h.count.trans_lt (by norm_num)
  unfold encode
  simp only [List.append_assoc]
  refine (Reads.readUint64 _).bind ((Reads.readFixed _).bind ((Reads.readBE hlen).bind ?_))
  refine (Reads.failIf _ (Nat.not_lt.2 h.count)).nil_bind ?_
  refine (Reads.readMany_of_mem (fun i v hv => (Vote.reads (h.votes v hv)).wrapErr _) 0).bind ?_
  refine (Reads.readUint64 _).bind ((Reads.readUint64 _).bind ?_)
  exact (Reads.readFixed _).bind_pure (Reads.pure c)

variable {ev : Evidence}

theorem reads_evidence (h : ev.Decodable) : Reads decodeEvidence (encodeEvidence ev) ev := by
  have hkind := Reads.byte ev.type
  unfold encodeEvidence
  refine hkind.bind ?_
  cases ev with
  | doubleSign e =>
    have he : Reads DoubleSignEvidence.decode (Evidence.doubleSign e).encode e := by
      refine (Reads.byte _).bind ((Vote.reads h.1).bind ?_)
      exact (Vote.reads h.2).bind_pure (Reads.pure e)
    exact he.bind_pure (Reads.pure _)
  | invalidCommit e =>
    have he : Reads InvalidCommitEvidence.decode (Evidence.invalidCommit e).encode e := by
      simp only [Evidence.encode, List.append_assoc]
      exact (CommitProof.reads h.1).bind ((reads_limited _ h.2).bind_pure (Reads.pure e))
    exact he.bind_pure (Reads.pure _)
  | malformedVote e =>
    have he : Reads MalformedVoteEvidence.decode (Evidence.malformedVote e).encode e := by
      simp only [Evidence.encode, List.append_assoc]
      refine (Reads.byte _).bind ((Vote.reads h.1).bind ?_)
      exact (reads_limited _ h.2).bind_pure (Reads.pure e)
    exact he.bind_pure (Reads.pure _)

theorem decodeEvidenceList_encode_iff {l : List Evidence} :
    decodeFrom decodeEvidenceList (encodeEvidenceList l) = .ok l ↔
      l.length < 2 ^ 32 ∧ ∀ ev ∈ l, ev.Decodable := by
  constructor
  · intro h
    obtain ⟨rest, hrun⟩ := decodeFrom_eq_ok.1 h
    have hreturns : Returns decodeEvidenceList fun l =>
        l.length < 2 ^ 32 ∧ ∀ ev ∈ l, ev.Decodable := by
      refine (Returns.readBE 4).bind fun count hcount => ?_
      intro inp l rest hmany
      have hl := Returns.readMany (fun _ => returns_decodeEvidence) count 0 inp l rest hmany
      exact ⟨hl.1.trans_lt hcount, hl.2⟩
    exact hreturns _ _ _ hrun
  · rintro ⟨hlen, hl⟩
    refine decodeFrom_of_reads ((Reads.readBE hlen).bind ?_)
    exact Reads.readMany_of_mem (fun _ ev hev => reads_evidence (hl ev hev)) 0

def Evidence.Short : Evidence → Prop
  | doubleSign _ => True
  | invalidCommit e =>
    (∀ v ∈ e.proof.precommits, v.signature.length ≤ 1024) ∧ e.reason.length ≤ 1024
  | malformedVote e => e.badVote.signature.length ≤ 1024 ∧ e.reason.length ≤ 1024

theorem Vote.decodable_of_validate {v : Vote} {u : Unit} (h : v.validate = .ok u) :
    v.Decodable := by
  obtain ⟨_, -, h⟩ := except_bind_eq_ok.1 h
  obtain ⟨_, -, h⟩ := except_bind_eq_ok.1 h
  have hlen := Nat.not_lt.1 (check_eq_ok.1 h)
  exact hlen.trans (by norm_num)

theorem Evidence.decodable_iff_short [Crypto] (hvalid : ev.validate = .ok ())
    (hcount : ∀ e, ev = .invalidCommit e → e.proof.precommits.length ≤ 10000) :
    ev.Decodable ↔ ev.Short := by
  cases ev with
  | doubleSign e =>
    obtain ⟨-, -, -, -, -, hA, hB⟩ := DoubleSignEvidence.validate_eq_ok.1 hvalid
    exact iff_of_true ⟨Vote.decodable_of_validate hA, Vote.decodable_of_validate hB⟩ trivial
  | invalidCommit e =>
    exact ⟨fun h => ⟨h.1.votes, h.2⟩, fun h => ⟨⟨hcount e rfl, h.1⟩, h.2⟩⟩
  | malformedVote e => exact Iff.rfl

/-- Evidence is decoded as it was exactly when it is within the limits. -/
theorem evidence_codec_iff [Crypto] {l : List Evidence} (hvalid : ∀ ev ∈ l, ev.validate = .ok ())
    (hcount : ∀ e, Evidence.invalidCommit e ∈ l → e.proof.precommits.length ≤ 10000) :
    decodeFrom decodeEvidenceList (encodeEvidenceList l) = .ok l ↔
      l.length < 2 ^ 32 ∧ ∀ ev ∈ l, ev.Short := by
  rw [decodeEvidenceList_encode_iff]
  refine and_congr_right fun _ => forall₂_congr fun ev hev => ?_
  exact Evidence.decodable_iff_short (hvalid ev hev) fun e he => hcount e (he ▸ hev)

/-! ### A long reason -/

def unsignedVote : Vote := ⟨votePrevote, 1, 0, zeroHash, zeroAddress, []⟩

def unsignedEvidence (n : ℕ) : Evidence := .malformedVote ⟨unsignedVote, List.replicate n 120⟩

open Sample

theorem validate_unsignedEvidence {n : ℕ} (h : n ≠ 0) : (unsignedEvidence n).validate = .ok () := by
  have hreason : ¬ (List.replicate n (120 : UInt8)).length = 0 := by
    rwa [List.length_replicate]
  exact check_eq_ok.2 hreason

theorem evidence_codec_unsigned : (∀ ev ∈ [unsignedEvidence 1], ev.validate = .ok ()) ∧
    decodeFrom decodeEvidenceList (encodeEvidenceList [unsignedEvidence 1]) =
      .ok [unsignedEvidence 1] := by
  have hvalid : ∀ ev ∈ [unsignedEvidence 1], ev.validate = .ok () :=
    List.forall_mem_singleton.2 (validate_unsignedEvidence one_ne_zero)
  refine ⟨hvalid, (evidence_codec_iff hvalid fun e he => ?_).2 ⟨by decide, ?_⟩⟩
  · cases List.mem_singleton.1 he
  · exact List.forall_mem_singleton.2 ⟨by decide, by decide⟩

theorem long_reason_unreadable : ¬ ∀ (_ : Crypto) (l : List Evidence),
    (∀ ev ∈ l, ev.validate = .ok ()) →
    (∀ e, Evidence.invalidCommit e ∈ l → e.proof.precommits.length ≤ 10000) →
      decodeFrom decodeEvidenceList (encodeEvidenceList l) = .ok l := by
  intro h
  have hread := h sampleCrypto [unsignedEvidence 1025]
    (List.forall_mem_singleton.2 (validate_unsignedEvidence (by decide)))
    fun e he => by cases List.mem_singleton.1 he
  have hdecodable := (decodeEvidenceList_encode_iff.1 hread).2 _ List.mem_cons_self
  have hle : (List.replicate 1025 (120 : UInt8)).length ≤ 1024 := hdecodable.2
  rw [List.length_replicate] at hle
  omega

end Dsn
