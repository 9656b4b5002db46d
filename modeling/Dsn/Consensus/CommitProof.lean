import Dsn.Staking.Snapshot

/-!
# `consensus`: checking a commit proof

`AcceptedProof` lists what an accepted proof has passed.
-/

namespace Dsn

open Go

variable {snap : ValidatorSnapshot} {proof : CommitProof}

def errInvalidCommitProof : Error := .new "invalid commit proof"
def errWrongValidatorSetHash : Error := .new "validator set hash mismatch"

section

def precommitsUnsorted : List Vote → Bool
  | a :: b :: rest => (compare b.validator a.validator).isLT || precommitsUnsorted (b :: rest)
  | _ => false

variable [Crypto]

def verifyPrecommits (snap : ValidatorSnapshot) (proof : CommitProof) (i : ℕ)
    (seen : List Address) (accumulatedPower : UInt64) : List Vote → Except Error UInt64
  | [] => .ok accumulatedPower
  | vote :: rest => do
    (vote.validate).mapError (Error.within s!"vote {i}")
    check (vote.voteType ≠ votePrecommit)
      (.detail errInvalidCommitProof s!"vote {i} is not a precommit")
    check (vote.height ≠ proof.height)
      (.detail errInvalidCommitProof s!"vote {i} height mismatch")
    check (vote.blockHash ≠ proof.blockHash)
      (.detail errInvalidCommitProof s!"vote {i} block hash mismatch")
    check (vote.validator ∈ seen)
      (.detail errInvalidCommitProof s!"duplicate validator {addressString vote.validator}")
    match snap.validatorByID vote.validator with
    | .error e => .error (.detail errInvalidCommitProof
        s!"validator {addressString vote.validator} in commit proof: {e.text}")
    | .ok val =>
      check (vote.verify val.publicKey = false) (.detail errInvalidCommitProof
        s!"invalid signature from validator {addressString vote.validator}")
      verifyPrecommits snap proof (i + 1) (vote.validator :: seen)
        (accumulatedPower + val.votingPower) rest

def checkProof (snap : ValidatorSnapshot) (proof : CommitProof) (height : UInt64)
    (expectedHash : Hash) : Except Error Unit := do
  check (proof.setHash ≠ snap.setHash) (.detail errInvalidCommitProof "set hash mismatch")
  check (proof.height ≠ height) (.detail errInvalidCommitProof "height mismatch")
  check (proof.blockHash ≠ expectedHash) (.detail errInvalidCommitProof "block hash mismatch")
  check (proof.totalPower ≠ snap.totalPower) (.detail errInvalidCommitProof "total power mismatch")
  check (proof.precommits.length > snap.validators.length) (.detail errInvalidCommitProof
    s!"more precommits ({proof.precommits.length}) than validators ({snap.validators.length})")
  check (precommitsUnsorted proof.precommits)
    (.detail errInvalidCommitProof "precommits not sorted by validator address")
  let accumulatedPower ← verifyPrecommits snap proof 0 [] 0 proof.precommits
  check (accumulatedPower ≠ proof.signedPower) (.detail errInvalidCommitProof
    s!"signed power {proof.signedPower} != accumulated {accumulatedPower}")
  check (proof.hasTwoThirdsMajority = false) (.detail errWrongValidatorSetHash
    s!"only {proof.signedPower}/{proof.totalPower} power")

def validateCommitProof (block : Block) (s : InMemoryState) (epoch : UInt64) :
    Except Error Unit :=
  -- a genesis block may carry any proof, or none
  if block.header.height = 0 then .ok ()
  else match block.commitProof with
    | none => .error (.detail errInvalidCommitProof "nil proof")
    | some proof =>
      match getSnapshot epoch s with
      | .error e => .error (e.within "get snapshot")
      | .ok none => .error (.detail errInvalidCommitProof s!"no snapshot for epoch {epoch}")
      | .ok (some snap) => checkProof snap proof block.header.height block.headerHash

/-! ### What acceptance means -/

structure VerifiedBy (snap : ValidatorSnapshot) (proof : CommitProof) (vote : Vote)
    (val : Validator) : Prop where
  isPrecommit : vote.voteType = votePrecommit
  height_eq : vote.height = proof.height
  blockHash_eq : vote.blockHash = proof.blockHash
  found : snap.validatorByID vote.validator = .ok val
  verified : vote.verify val.publicKey = true

variable {seen : List Address} {vote : Vote}

theorem verifyPrecommits_cons_eq_ok {i : ℕ} {power result : UInt64} {rest : List Vote} :
    verifyPrecommits snap proof i seen power (vote :: rest) = .ok result ↔
      vote.validator ∉ seen ∧ ∃ val, VerifiedBy snap proof vote val ∧
        verifyPrecommits snap proof (i + 1) (vote.validator :: seen) (power + val.votingPower)
          rest = .ok result := by
  rw [verifyPrecommits]
  simp only [except_bind_eq_ok, mapError_eq_ok, check_eq_ok, not_not]
  constructor
  · rintro ⟨_, _, _, htype, _, hheight, _, hhash, _, hseen, h⟩
    cases hf : snap.validatorByID vote.validator with
    | error e => rw [hf] at h; cases h
    | ok val =>
      rw [hf] at h
      simp only [except_bind_eq_ok, check_eq_ok, Bool.not_eq_false] at h
      obtain ⟨_, hver, h⟩ := h
      exact ⟨hseen, val, ⟨htype, hheight, hhash, hf, hver⟩, h⟩
  · rintro ⟨hseen, val, hv, h⟩
    refine ⟨(), Vote.validate_of_verify hv.verified hv.isPrecommit, (), hv.isPrecommit, (),
      hv.height_eq, (), hv.blockHash_eq, (), hseen, ?_⟩
    rw [hv.found]
    simp only [except_bind_eq_ok, check_eq_ok, Bool.not_eq_false]
    exact ⟨(), hv.verified, h⟩

variable {votes : List Vote}

theorem verifyPrecommits_eq_ok {i : ℕ} {power result : UInt64} :
    verifyPrecommits snap proof i seen power votes = .ok result ↔
      (∀ v ∈ votes, v.validator ∉ seen) ∧ (votes.map Vote.validator).Nodup ∧
        ∃ vals, List.Forall₂ (VerifiedBy snap proof) votes vals ∧
          result = vals.foldl (fun total v => total + v.votingPower) power := by
  induction votes generalizing i seen power with
  | nil =>
    constructor
    · intro h
      cases h
      exact ⟨by simp, by simp, [], .nil, rfl⟩
    · rintro ⟨-, -, vals, hvals, rfl⟩
      cases hvals
      rfl
  | cons vote rest ih =>
    -- the vote joins `seen`, which therefore varies in the induction
    rw [verifyPrecommits_cons_eq_ok]
    constructor
    · rintro ⟨hseen, val, hv, h⟩
      obtain ⟨hrest, hnd, vals, hvals, hres⟩ := ih.1 h
      refine ⟨?_, ?_, val :: vals, .cons hv hvals, hres⟩
      · intro v hmem
        rcases List.mem_cons.1 hmem with rfl | hmem
        · exact hseen
        · exact fun hs => hrest v hmem (List.mem_cons_of_mem _ hs)
      · rw [List.map_cons, List.nodup_cons]
        refine ⟨fun hmem => ?_, hnd⟩
        obtain ⟨v, hv', heq⟩ := List.mem_map.1 hmem
        exact hrest v hv' (heq ▸ List.mem_cons_self)
    · rintro ⟨hseen, hnd, vals, hvals, hres⟩
      cases hvals with
      | cons hv hvals =>
        rw [List.map_cons, List.nodup_cons] at hnd
        refine ⟨hseen vote List.mem_cons_self, _, hv, ih.2 ⟨?_, hnd.2, _, hvals, hres⟩⟩
        intro v hmem hs
        rcases List.mem_cons.1 hs with heq | hs
        · exact hnd.1 (heq ▸ List.mem_map_of_mem hmem)
        · exact hseen v (List.mem_cons_of_mem _ hmem) hs

def signerPower (snap : ValidatorSnapshot) (vote : Vote) : UInt64 :=
  match snap.validatorByID vote.validator with
  | .ok val => val.votingPower
  | .error _ => 0

theorem signerPower_of_found {val : Validator} (h : snap.validatorByID vote.validator = .ok val) :
    signerPower snap vote = val.votingPower := by
  unfold signerPower
  rw [h]

theorem foldl_signerPower {vals : List Validator}
    (h : List.Forall₂ (VerifiedBy snap proof) votes vals) (c : UInt64) :
    vals.foldl (fun total v => total + v.votingPower) c =
      votes.foldl (fun total v => total + signerPower snap v) c := by
  induction h generalizing c with
  | nil => rfl
  | cons hv _ ih => rw [List.foldl_cons, List.foldl_cons, ih, signerPower_of_found hv.found]

structure AcceptedProof (snap : ValidatorSnapshot) (proof : CommitProof) (height : UInt64)
    (expectedHash : Hash) : Prop where
  setHash_eq : proof.setHash = snap.setHash
  height_eq : proof.height = height
  blockHash_eq : proof.blockHash = expectedHash
  totalPower_eq : proof.totalPower = snap.totalPower
  length_le : proof.precommits.length ≤ snap.validators.length
  sorted : precommitsUnsorted proof.precommits = false
  distinct : (proof.precommits.map Vote.validator).Nodup
  verified : ∃ vals, List.Forall₂ (VerifiedBy snap proof) proof.precommits vals ∧
    proof.signedPower = sumUint64 Validator.votingPower vals
  majority : proof.hasTwoThirdsMajority = true

theorem checkProof_eq_ok {height : UInt64} {hash : Hash} {u : Unit} :
    checkProof snap proof height hash = .ok u ↔ AcceptedProof snap proof height hash := by
  unfold checkProof
  simp only [except_bind_eq_ok, check_eq_ok, not_not, not_lt, Bool.not_eq_true, Bool.not_eq_false,
    verifyPrecommits_eq_ok]
  constructor
  · rintro ⟨_, h1, _, h2, _, h3, _, h4, _, h5, _, h6, a, ⟨-, hnd, vals, hvals, ha⟩, _, h7, h8⟩
    exact ⟨h1, h2, h3, h4, h5, h6, hnd, ⟨vals, hvals, h7 ▸ ha⟩, h8⟩
  · rintro ⟨h1, h2, h3, h4, h5, h6, hnd, ⟨vals, hvals, ha⟩, h8⟩
    exact ⟨(), h1, (), h2, (), h3, (), h4, (), h5, (), h6, _, ⟨by simp, hnd, vals, hvals, ha⟩, (),
      rfl, h8⟩

theorem validateCommitProof_eq_ok {block : Block} {s : InMemoryState} {epoch : UInt64} {u : Unit}
    (hh : block.header.height ≠ 0) :
    validateCommitProof block s epoch = .ok u ↔ ∃ proof snap, block.commitProof = some proof ∧
      getSnapshot epoch s = .ok (some snap) ∧
      AcceptedProof snap proof block.header.height block.headerHash := by
  unfold validateCommitProof
  rw [if_neg hh]
  cases hp : block.commitProof with
  | none => simp
  | some proof =>
    rcases hs : getSnapshot epoch s with e | (_ | snap)
    · simp
    · simp
    · simp [checkProof_eq_ok]

end

/-! ### A sample pair of blocks -/

def sampleSnapshot : ValidatorSnapshot := ⟨1, [sampleValidator], 1, zeroHash⟩

def sampleState : InMemoryState :=
  newInMemoryState.setBytes (snapshotKey 1) sampleSnapshot.marshalBinary

theorem getSnapshot_sampleState : getSnapshot 1 sampleState = .ok (some sampleSnapshot) :=
  getSnapshot_setBytes _ (by decide)

def sampleProof (height : UInt64) (hash : Hash) (precommits : List Vote) : CommitProof :=
  ⟨height, hash, precommits, 1, 1, zeroHash⟩

def sampleBlock (height : UInt64) (previousHash : Hash) (proof : CommitProof) : Block where
  header := ⟨1, height, previousHash, zeroHash, zeroHash, zeroHash, zeroHash, zeroHash, 1, 0,
    zeroAddress, zeroHash⟩
  transactions := []
  feeSummary := newFeeSummary 0
  signature := []
  commitProof := some proof
  events := []
  evidence := []

def samplePrecommit (round : UInt32) (hash : Hash) : Vote :=
  ⟨votePrecommit, 1, round, hash, zeroAddress, List.replicate 64 0⟩

def hashA : Hash := FixedBytes.copy 32 [1]
def hashB : Hash := FixedBytes.copy 32 [2]

def roundProof (round : UInt32) (hash : Hash) : CommitProof :=
  sampleProof 1 hash [samplePrecommit round hash]

open Sample

theorem validate_roundProof {hash : Hash} (round : UInt32)
    (h : checkProof sampleSnapshot (roundProof round hash) 1
      (sampleBlock 1 hash (roundProof round hash)).headerHash = .ok ()) :
    validateCommitProof (sampleBlock 1 hash (roundProof round hash)) sampleState 1 = .ok () :=
  (validateCommitProof_eq_ok (show (1 : UInt64) ≠ 0 by decide)).2
    ⟨_, _, rfl, getSnapshot_sampleState, checkProof_eq_ok.1 h⟩

end Dsn
