import Dsn.Staking.Snapshot

/-!
# `consensus`: collecting votes

The state of one round and its two kinds of votes.
-/

namespace Dsn

open Go

def votingThresholdNumerator : UInt64 := 2
def votingThresholdDenominator : UInt64 := 3

structure VotingState where
  height : UInt64
  round : UInt32
  blockHash : Hash
  snapshot : ValidatorSnapshot
  prevotes : Map Address Vote
  precommits : Map Address Vote
  prevotePower : UInt64
  precommitPower : UInt64

def newVotingState (height : UInt64) (round : UInt32) (blockHash : Hash)
    (snapshot : ValidatorSnapshot) : VotingState :=
  ⟨height, round, blockHash, snapshot, ∅, ∅, 0, 0⟩

namespace VotingState

variable [Crypto]

def addVote (vs : VotingState) (vote : Vote) (power : UInt64) (votes : Map Address Vote) :
    Except Error (UInt64 × Map Address Vote) := do
  check (vote.height ≠ vs.height) (.new s!"vote height {vote.height} != expected {vs.height}")
  check (vote.round ≠ vs.round) (.new s!"vote round {vote.round} != expected {vs.round}")
  check (vote.blockHash ≠ vs.blockHash) (.new
    s!"vote block hash {hexText vote.blockHash} != expected {hexText vs.blockHash}")
  check ((votes[vote.validator]?).isSome)
    (.new s!"duplicate vote from validator {addressString vote.validator}")
  match vs.snapshot.validatorByID vote.validator with
  | .error e => .error (.new
      s!"validator {addressString vote.validator} not in snapshot epoch {vs.snapshot.epoch}: {e.text}")
  | .ok val =>
    check (vote.verify val.publicKey = false)
      (.new s!"invalid vote signature from validator {addressString vote.validator}")
    return (power + val.votingPower, votes.insert vote.validator vote)

def addPrevote (vs : VotingState) (vote : Vote) : Except Error VotingState := do
  let (power, votes) ← vs.addVote vote vs.prevotePower vs.prevotes
  return { vs with prevotePower := power, prevotes := votes }

def addPrecommit (vs : VotingState) (vote : Vote) : Except Error VotingState := do
  let (power, votes) ← vs.addVote vote vs.precommitPower vs.precommits
  return { vs with precommitPower := power, precommits := votes }

def hasMajority (power totalPower : UInt64) : Bool :=
  if totalPower = 0 then false
  else decide (power * votingThresholdDenominator ≥ totalPower * votingThresholdNumerator)

def hasPrevoteMajority (vs : VotingState) : Bool :=
  hasMajority vs.prevotePower vs.snapshot.totalPower

def hasPrecommitMajority (vs : VotingState) : Bool :=
  hasMajority vs.precommitPower vs.snapshot.totalPower

def voteLess (a b : Vote) : Bool := (compare a.validator b.validator).isLT

def buildCommitProof (vs : VotingState) : Except Error CommitProof := do
  check (vs.hasPrecommitMajority = false)
    (.new s!"no precommit majority: {vs.precommitPower}/{vs.snapshot.totalPower}")
  return {
    height := vs.height
    blockHash := vs.blockHash
    precommits := sortSlice voteLess (vs.precommits.toList.map fun e => e.2)
    totalPower := vs.snapshot.totalPower
    signedPower := vs.precommitPower
    setHash := vs.snapshot.setHash }

/-! ### Runs -/

/-- A call of one of the two entry points. -/
inductive Call
  | prevote (vote : Vote)
  | precommit (vote : Vote)

def step (vs : VotingState) : Call → VotingState
  | .prevote vote => (vs.addPrevote vote).toOption.getD vs
  | .precommit vote => (vs.addPrecommit vote).toOption.getD vs

def run (vs : VotingState) (calls : List Call) : VotingState := calls.foldl step vs

end VotingState

end Dsn
