import Dsn.Types.Transaction

/-!
# `types`: votes, commit proofs and evidence

Signing bytes, validation and order of votes.
-/

namespace Dsn

open Go

/-! ### Votes -/

abbrev VoteType := UInt8

def votePrevote : VoteType := 1
def votePrecommit : VoteType := 2

def voteTypeString (vt : VoteType) : String :=
  if vt = votePrevote then "prevote"
  else if vt = votePrecommit then "precommit"
  else s!"unknown({vt})"

/-- A validator's vote on a block. -/
structure Vote where
  voteType : VoteType
  height : UInt64
  round : UInt32
  blockHash : Hash
  validator : Address
  signature : Bytes
  deriving DecidableEq

namespace Vote

def content (v : Vote) : Bytes :=
  [v.voteType] ++ putUint64 v.height ++ beBytes 4 v.round.toNat ++ v.blockHash.bytes ++
    v.validator.bytes

def voteHash [Crypto] (v : Vote) : Hash := sha256 v.content

def verify [Crypto] (v : Vote) (pubKey : PublicKey) : Bool :=
  ed25519Verify pubKey v.voteHash.bytes v.signature

def encode (v : Vote) : Bytes := v.content ++ beBytes 4 v.signature.length ++ v.signature

def validate (v : Vote) : Except Error Unit := do
  check (v.voteType ≠ votePrevote ∧ v.voteType ≠ votePrecommit)
    (.new s!"invalid vote type: {v.voteType}")
  check (v.signature.length = 0) (.new "empty signature")
  check (v.signature.length > 512) (.new s!"signature too long: {v.signature.length}")

variable {v : Vote} {pubKey : PublicKey}

theorem verify_length [Crypto] (h : v.verify pubKey = true) :
    v.signature.length = signatureSize := by
  simp only [verify, ed25519Verify, Bool.and_eq_true, decide_eq_true_eq] at h
  exact h.1

theorem validate_of_verify [Crypto] (h : v.verify pubKey = true)
    (ht : v.voteType = votePrecommit) : v.validate = .ok () := by
  have hlen := verify_length h
  simp [validate, except_bind_eq_ok, ht, hlen, signatureSize]

theorem type_of_validate {u : Unit} (h : v.validate = .ok u) :
    v.voteType = votePrevote ∨ v.voteType = votePrecommit := by
  obtain ⟨_, ht, -⟩ := except_bind_eq_ok.1 h
  rw [check_eq_ok, not_and_or, not_not, not_not] at ht
  exact ht

end Vote

/-! ### Commit proofs -/

structure CommitProof where
  height : UInt64
  blockHash : Hash
  precommits : List Vote
  totalPower : UInt64
  signedPower : UInt64
  setHash : Hash
  deriving DecidableEq

namespace CommitProof

def hasTwoThirdsMajority (c : CommitProof) : Bool :=
  if c.totalPower = 0 then false else decide (c.signedPower * 3 ≥ c.totalPower * 2)

def validate (c : CommitProof) : Except Error Unit := do
  check (c.precommits.length = 0) (.new "empty precommits")
  check (c.signedPower > c.totalPower)
    (.new s!"signed power ({c.signedPower}) exceeds total power ({c.totalPower})")
  check (c.hasTwoThirdsMajority = false)
    (.new s!"insufficient voting power: {c.signedPower}/{c.totalPower}")

def encode (c : CommitProof) : Bytes :=
  putUint64 c.height ++ c.blockHash.bytes ++ beBytes 8 c.precommits.length ++
    c.precommits.flatMap Vote.encode ++ putUint64 c.totalPower ++ putUint64 c.signedPower ++
    c.setHash.bytes

end CommitProof

/-! ### Evidence -/

structure DoubleSignEvidence where
  voteA : Vote
  voteB : Vote

def DoubleSignEvidence.validate [Crypto] (e : DoubleSignEvidence) : Except Error Unit := do
  check (e.voteA.voteType ≠ e.voteB.voteType)
    (.new s!"vote type mismatch: {voteTypeString e.voteA.voteType} != {voteTypeString e.voteB.voteType}")
  check (e.voteA.validator ≠ e.voteB.validator)
    (.new s!"validator address mismatch: {addressString e.voteA.validator} != {addressString e.voteB.validator}")
  check (e.voteA.height ≠ e.voteB.height)
    (.new s!"height mismatch: {e.voteA.height} != {e.voteB.height}")
  check (e.voteA.round ≠ e.voteB.round)
    (.new s!"round mismatch: {e.voteA.round} != {e.voteB.round}")
  check (e.voteA.blockHash = e.voteB.blockHash)
    (.new "block hash must be different for double sign")
  (e.voteA.validate).mapError (Error.within "VoteA validation failed")
  (e.voteB.validate).mapError (Error.within "VoteB validation failed")

theorem DoubleSignEvidence.validate_eq_ok [Crypto] {e : DoubleSignEvidence} {u : Unit} :
    e.validate = .ok u ↔ e.voteA.voteType = e.voteB.voteType ∧
      e.voteA.validator = e.voteB.validator ∧ e.voteA.height = e.voteB.height ∧
      e.voteA.round = e.voteB.round ∧ e.voteA.blockHash ≠ e.voteB.blockHash ∧
      e.voteA.validate = .ok () ∧ e.voteB.validate = .ok () := by
  unfold DoubleSignEvidence.validate
  simp [except_bind_eq_ok, Unique.exists_iff]

structure InvalidCommitEvidence where
  proof : CommitProof
  reason : Bytes

structure MalformedVoteEvidence where
  badVote : Vote
  reason : Bytes

/-- The kinds of evidence. -/
inductive Evidence
  | doubleSign (e : DoubleSignEvidence)
  | invalidCommit (e : InvalidCommitEvidence)
  | malformedVote (e : MalformedVoteEvidence)

namespace Evidence

def type : Evidence → UInt8
  | doubleSign _ => 1
  | invalidCommit _ => 2
  | malformedVote _ => 3

def height : Evidence → UInt64
  | doubleSign e => e.voteA.height
  | invalidCommit e => e.proof.height
  | malformedVote e => e.badVote.height

def validate [Crypto] : Evidence → Except Error Unit
  | doubleSign e => e.validate
  | invalidCommit e => check (e.reason.length = 0) (.new "empty reason")
  | malformedVote e => do
    check (e.badVote.voteType ≠ votePrevote ∧ e.badVote.voteType ≠ votePrecommit)
      (.new s!"invalid vote type: {e.badVote.voteType}")
    check (e.badVote.height = 0) (.new "height must be > 0")
    check (e.reason.length = 0) (.new "empty reason")

def content : Evidence → Bytes
  | doubleSign e => [e.voteA.voteType] ++ e.voteA.encode ++ e.voteB.encode
  | invalidCommit e => e.proof.encode
  | malformedVote e => [e.badVote.voteType] ++ e.badVote.encode

def evidenceHash [Crypto] (e : Evidence) : Hash := sha256 e.content

end Evidence

end Dsn
