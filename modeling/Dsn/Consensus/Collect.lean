import Dsn.Consensus.CommitProof
import Dsn.Consensus.Voting

/-!
# From collected votes to a commit proof

`AddPrecommit` does not look at the type of a vote, `validateCommitProof` does.
-/

namespace Dsn

open Go VotingState

variable {vs vs' : VotingState} {vote : Vote}

section

variable [Crypto]

/-! ### Accepted votes -/

structure CountsFor (vs : VotingState) (vote : Vote) (val : Validator) : Prop where
  height_eq : vote.height = vs.height
  round_eq : vote.round = vs.round
  blockHash_eq : vote.blockHash = vs.blockHash
  found : vs.snapshot.validatorByID vote.validator = .ok val
  verified : vote.verify val.publicKey = true

theorem addVote_eq_ok {power : UInt64} {votes : Map Address Vote} {r : UInt64 × Map Address Vote} :
    vs.addVote vote power votes = .ok r ↔ votes[vote.validator]? = none ∧
      ∃ val, CountsFor vs vote val ∧
        r = (power + val.votingPower, votes.insert vote.validator vote) := by
  unfold addVote
  simp only [except_bind_eq_ok, check_eq_ok, not_not, Bool.not_eq_true, Option.isSome_eq_false_iff,
    Option.isNone_iff_eq_none]
  constructor
  · rintro ⟨_, hh, _, hr, _, hb, _, hnew, h⟩
    cases hf : vs.snapshot.validatorByID vote.validator with
    | error e => rw [hf] at h; cases h
    | ok val =>
      rw [hf] at h
      simp only [except_bind_eq_ok, check_eq_ok, Bool.not_eq_false] at h
      obtain ⟨_, hver, h⟩ := h
      exact ⟨hnew, val, ⟨hh, hr, hb, hf, hver⟩, (Except.ok.inj h).symm⟩
  · rintro ⟨hnew, val, hc, rfl⟩
    refine ⟨(), hc.height_eq, (), hc.round_eq, (), hc.blockHash_eq, (), hnew, ?_⟩
    rw [hc.found]
    simp only [except_bind_eq_ok, check_eq_ok, Bool.not_eq_false]
    exact ⟨(), hc.verified, rfl⟩

theorem addPrecommit_eq_ok :
    vs.addPrecommit vote = .ok vs' ↔ vs.precommits[vote.validator]? = none ∧
      ∃ val, CountsFor vs vote val ∧ vs' = { vs with
        precommitPower := vs.precommitPower + val.votingPower
        precommits := vs.precommits.insert vote.validator vote } := by
  unfold addPrecommit
  simp only [except_bind_eq_ok, addVote_eq_ok]
  constructor
  · rintro ⟨_, ⟨hnew, val, hc, rfl⟩, h⟩
    exact ⟨hnew, val, hc, (Except.ok.inj h).symm⟩
  · rintro ⟨hnew, val, hc, rfl⟩
    exact ⟨_, ⟨hnew, val, hc, rfl⟩, rfl⟩

theorem addPrevote_eq_ok (h : vs.addPrevote vote = .ok vs') :
    ∃ power votes, vs' = { vs with prevotePower := power, prevotes := votes } := by
  obtain ⟨⟨power, votes⟩, -, h⟩ := except_bind_eq_ok.1 h
  exact ⟨power, votes, (Except.ok.inj h).symm⟩

/-! ### The invariant -/

structure Tally (vs : VotingState) : Prop where
  keyed : ∀ (k : Address) (vote : Vote), vs.precommits[k]? = some vote → vote.validator = k
  counted : ∀ (k : Address) (vote : Vote), vs.precommits[k]? = some vote →
    ∃ val, CountsFor vs vote val
  power_eq : vs.precommitPower =
    sumUint64 (signerPower vs.snapshot) (vs.precommits.toList.map fun e => e.2)

theorem newVotingState_tally (height : UInt64) (round : UInt32) (hash : Hash)
    (snap : ValidatorSnapshot) : Tally (newVotingState height round hash snap) where
  keyed k vote h := by simp [newVotingState] at h
  counted k vote h := by simp [newVotingState] at h
  power_eq := by
    have : (∅ : Map Address Vote).toList = [] := Std.ExtTreeMap.toList_eq_nil_iff.2 rfl
    simp [newVotingState, this, sumUint64]

theorem addPrecommit_tally (ht : Tally vs) (h : vs.addPrecommit vote = .ok vs') : Tally vs' := by
  obtain ⟨hnew, val, hc, rfl⟩ := addPrecommit_eq_ok.1 h
  refine ⟨?_, ?_, ?_⟩
  · intro k v hk
    rw [Map.get_insert] at hk
    split_ifs at hk with hkey
    · cases hk; exact hkey
    · exact ht.keyed k v hk
  · intro k v hk
    rw [Map.get_insert] at hk
    split_ifs at hk with hkey
    · cases hk; exact ⟨val, hc.1, hc.2, hc.3, hc.4, hc.5⟩
    · obtain ⟨w, hw⟩ := ht.counted k v hk
      exact ⟨w, hw.1, hw.2, hw.3, hw.4, hw.5⟩
  · -- the new entry joins the old ones, none of which is under its key
    have hperm := (Map.toList_insert_perm_of_none hnew vote).map fun e => e.2
    apply UInt64.toNat_inj.1
    rw [sumUint64_perm hperm, List.map_cons, ht.power_eq, ← signerPower_of_found hc.found,
      UInt64.toNat_add, sumUint64_toNat, sumUint64_toNat, List.map_cons, List.sum_cons,
      Nat.mod_add_mod, add_comm]

structure SameBallot (vs vs' : VotingState) : Prop where
  height_eq : vs'.height = vs.height
  round_eq : vs'.round = vs.round
  blockHash_eq : vs'.blockHash = vs.blockHash
  snapshot_eq : vs'.snapshot = vs.snapshot

theorem step_precommit_ok (h : vs.addPrecommit vote = .ok vs') :
    vs.step (.precommit vote) = vs' := by
  simp [step, h, Except.toOption]

theorem step_precommit_error {e : Error} (h : vs.addPrecommit vote = .error e) :
    vs.step (.precommit vote) = vs := by
  simp [step, h, Except.toOption]

theorem step_cases (vs : VotingState) (c : Call) : vs.step c = vs ∨
    (∃ power votes, vs.step c = { vs with prevotePower := power, prevotes := votes }) ∨
    ∃ vote, c = .precommit vote ∧ vs.addPrecommit vote = .ok (vs.step c) := by
  cases c with
  | prevote vote =>
    cases h : vs.addPrevote vote with
    | error e => exact .inl (by simp [step, h, Except.toOption])
    | ok vs' =>
      obtain ⟨power, votes, rfl⟩ := addPrevote_eq_ok h
      exact .inr (.inl ⟨power, votes, by simp [step, h, Except.toOption]⟩)
  | precommit vote =>
    cases h : vs.addPrecommit vote with
    | error e => exact .inl (step_precommit_error h)
    | ok vs' => exact .inr (.inr ⟨vote, rfl, by rw [step_precommit_ok h, h]⟩)

theorem step_tally (ht : Tally vs) (c : Call) : Tally (vs.step c) := by
  rcases step_cases vs c with h | ⟨power, votes, h⟩ | ⟨vote, -, h⟩
  · rwa [h]
  · rw [h]
    exact ⟨ht.keyed, fun k v hk => (ht.counted k v hk).imp
      fun w hw => ⟨hw.1, hw.2, hw.3, hw.4, hw.5⟩, ht.power_eq⟩
  · exact addPrecommit_tally ht h

theorem step_sameBallot (vs : VotingState) (c : Call) : SameBallot vs (vs.step c) := by
  rcases step_cases vs c with h | ⟨power, votes, h⟩ | ⟨vote, -, h⟩
  · rw [h]; exact ⟨rfl, rfl, rfl, rfl⟩
  · rw [h]; exact ⟨rfl, rfl, rfl, rfl⟩
  · obtain ⟨-, val, -, h⟩ := addPrecommit_eq_ok.1 h
    rw [h]; exact ⟨rfl, rfl, rfl, rfl⟩

theorem run_tally (ht : Tally vs) (calls : List Call) :
    Tally (vs.run calls) := by
  induction calls generalizing vs with
  | nil => exact ht
  | cons c calls ih => exact ih (step_tally ht c)

theorem run_sameBallot (vs : VotingState) (calls : List Call) :
    SameBallot vs (vs.run calls) := by
  induction calls generalizing vs with
  | nil => exact ⟨rfl, rfl, rfl, rfl⟩
  | cons c calls ih =>
    have h1 := step_sameBallot vs c
    have h2 := ih (vs.step c)
    exact ⟨h2.1.trans h1.1, h2.2.trans h1.2, h2.3.trans h1.3, h2.4.trans h1.4⟩

/-! ### The type of the votes -/

/-- No prevote is taken for a precommit. -/
def AcceptsOnlyPrecommits (vs : VotingState) : List Call → Prop
  | [] => True
  | c :: rest =>
    (∀ vote vs', c = .precommit vote → vs.addPrecommit vote = .ok vs' →
      vote.voteType = votePrecommit) ∧ AcceptsOnlyPrecommits (vs.step c) rest

def StoredPrecommits (vs : VotingState) : Prop :=
  ∀ (k : Address) (vote : Vote), vs.precommits[k]? = some vote → vote.voteType = votePrecommit

theorem storedPrecommits_step (vs : VotingState) (c : Call) : StoredPrecommits (vs.step c) ↔
    StoredPrecommits vs ∧ ∀ vote vs', c = .precommit vote → vs.addPrecommit vote = .ok vs' →
      vote.voteType = votePrecommit := by
  cases c with
  | prevote vote =>
    have hkeep : (vs.step (.prevote vote)).precommits = vs.precommits := by
      rcases step_cases vs (.prevote vote) with h | ⟨power, votes, h⟩ | ⟨_, h, -⟩
      · rw [h]
      · rw [h]
      · cases h
    simp [StoredPrecommits, hkeep]
  | precommit vote =>
    cases h : vs.addPrecommit vote with
    | error e =>
      rw [step_precommit_error h]
      refine ⟨fun hst => ⟨hst, ?_⟩, fun hst => hst.1⟩
      rintro _ _ ⟨⟩ hok
      rw [h] at hok
      cases hok
    | ok vs' =>
      obtain ⟨hnew, val, -, rfl⟩ := addPrecommit_eq_ok.1 h
      rw [step_precommit_ok h]
      constructor
      · intro hst
        -- the vote is new, so what was stored before is still stored
        refine ⟨fun k v hk => hst k v ?_, ?_⟩
        · rw [Map.get_insert, if_neg, hk]
          rintro rfl
          rw [hnew] at hk
          cases hk
        · rintro _ _ ⟨⟩ -
          exact hst vote.validator vote (Map.get_insert_self _ _ _)
      · rintro ⟨hst, hvote⟩ k v hk
        have hk' : (vs.precommits.insert vote.validator vote)[k]? = some v := hk
        rw [Map.get_insert] at hk'
        split_ifs at hk' with hkey
        · cases hk'; exact hvote vote _ rfl h
        · exact hst k v hk'

theorem storedPrecommits_run (vs : VotingState) (calls : List Call) :
    StoredPrecommits (vs.run calls) ↔ StoredPrecommits vs ∧ AcceptsOnlyPrecommits vs calls := by
  induction calls generalizing vs with
  | nil => simp [run, AcceptsOnlyPrecommits]
  | cons c calls ih =>
    show StoredPrecommits ((vs.step c).run calls) ↔ _
    rw [ih, storedPrecommits_step, AcceptsOnlyPrecommits]
    tauto

/-! ### The proof -/

omit [Crypto] in
theorem precommitsUnsorted_of_pairwise {l : List Vote}
    (h : l.Pairwise fun a b => (compare b.validator a.validator).isLT = false) :
    precommitsUnsorted l = false := by
  induction l with
  | nil => rfl
  | cons a l ih =>
    cases l with
    | nil => rfl
    | cons b l =>
      rw [List.pairwise_cons] at h
      rw [precommitsUnsorted, h.1 b List.mem_cons_self, ih h.2]
      rfl

omit [Crypto] in
theorem buildCommitProof_eq_ok {proof : CommitProof} (h : vs.buildCommitProof = .ok proof) :
    vs.hasPrecommitMajority = true ∧
      proof = ⟨vs.height, vs.blockHash,
        sortSlice voteLess (vs.precommits.toList.map fun e => e.2), vs.snapshot.totalPower,
        vs.precommitPower, vs.snapshot.setHash⟩ := by
  unfold buildCommitProof at h
  simp only [except_bind_eq_ok, check_eq_ok, Bool.not_eq_false] at h
  obtain ⟨_, hmaj, h⟩ := h
  exact ⟨hmaj, (Except.ok.inj h).symm⟩

section BuiltProof

variable {vs : VotingState} (ht : Tally vs)
include ht

theorem Tally.mem_toList :
    vote ∈ vs.precommits.toList.map (fun e => e.2) ↔
      vs.precommits[vote.validator]? = some vote := by
  simp only [List.mem_map, Prod.exists, Std.ExtTreeMap.mem_toList_iff_getElem?_eq_some]
  constructor
  · rintro ⟨k, v, hk, rfl⟩
    rwa [ht.keyed k v hk]
  · exact fun h => ⟨_, _, h, rfl⟩

theorem Tally.nodup_validators :
    ((vs.precommits.toList.map fun e => e.2).map Vote.validator).Nodup := by
  have hkeys : (vs.precommits.toList.map fun e => e.2).map Vote.validator =
      vs.precommits.toList.map Prod.fst := by
    rw [List.map_map]
    refine List.map_congr_left ?_
    rintro ⟨k, v⟩ hmem
    exact ht.keyed k v (Std.ExtTreeMap.mem_toList_iff_getElem?_eq_some.1 hmem)
  rw [hkeys]
  exact Map.nodup_keys _

theorem Tally.length_le :
    (vs.precommits.toList.map fun e => e.2).length ≤ vs.snapshot.validators.length := by
  have hsub : (vs.precommits.toList.map fun e => e.2).map Vote.validator ⊆
      vs.snapshot.validators.map Validator.consensusID := by
    intro id hid
    obtain ⟨vote, hvote, rfl⟩ := List.mem_map.1 hid
    obtain ⟨val, hc⟩ := ht.counted _ _ (ht.mem_toList.1 hvote)
    obtain ⟨hmem, hval⟩ := ValidatorSnapshot.validatorByID_mem hc.found
    exact List.mem_map.2 ⟨val, hmem, hval⟩
  have hle := (ht.nodup_validators.subperm hsub).length_le
  simpa only [List.length_map] using hle

theorem Tally.acceptedProof_iff {proof : CommitProof} (hbuild : vs.buildCommitProof = .ok proof) :
    AcceptedProof vs.snapshot proof vs.height vs.blockHash ↔ StoredPrecommits vs := by
  obtain ⟨hmaj, rfl⟩ := buildCommitProof_eq_ok hbuild
  have hperm := sortSlice_perm voteLess (vs.precommits.toList.map fun e => e.2)
  constructor
  · intro ha k vote hk
    obtain ⟨vals, hvals, -⟩ := ha.verified
    have hmem : vote ∈ sortSlice voteLess (vs.precommits.toList.map fun e => e.2) :=
      hperm.mem_iff.2 (ht.mem_toList.2 (by rwa [ht.keyed k vote hk]))
    obtain ⟨val, -, hv⟩ := forall₂_mem_left hvals hmem
    exact hv.isPrecommit
  · intro hst
    have hver : ∀ vote ∈ sortSlice voteLess (vs.precommits.toList.map fun e => e.2), ∃ val,
        VerifiedBy vs.snapshot ⟨vs.height, vs.blockHash,
          sortSlice voteLess (vs.precommits.toList.map fun e => e.2), vs.snapshot.totalPower,
          vs.precommitPower, vs.snapshot.setHash⟩ vote val := by
      intro vote hvote
      have hk := ht.mem_toList.1 (hperm.mem_iff.1 hvote)
      obtain ⟨val, hc⟩ := ht.counted _ _ hk
      exact ⟨val, hst _ _ hk, hc.height_eq, hc.blockHash_eq, hc.found, hc.verified⟩
    obtain ⟨vals, hvals⟩ := exists_forall₂ hver
    refine ⟨rfl, rfl, rfl, rfl, ?_, ?_, ?_, ⟨vals, hvals, ?_⟩, hmaj⟩
    · simpa using ht.length_le
    · exact precommitsUnsorted_of_pairwise (pairwise_sortSlice Vote.validator _)
    · exact (hperm.map _).nodup_iff.2 ht.nodup_validators
    · rw [ht.power_eq, ← sumUint64_perm hperm]
      exact (foldl_signerPower hvals 0).symm

end BuiltProof

/-- Collected votes give an accepted proof exactly when all of them are precommits. -/
theorem collected_proof_accepted_iff {b : Block} (hpos : b.header.height ≠ 0) {s : InMemoryState}
    {epoch : UInt64} {snap : ValidatorSnapshot} (hsnap : getSnapshot epoch s = .ok (some snap))
    (round : UInt32) (calls : List Call) {proof : CommitProof}
    (hbuild : ((newVotingState b.header.height round b.headerHash snap).run
      calls).buildCommitProof = .ok proof) :
    validateCommitProof { b with commitProof := some proof } s epoch = .ok () ↔
      AcceptsOnlyPrecommits (newVotingState b.header.height round b.headerHash snap) calls := by
  have hstart := newVotingState_tally b.header.height round b.headerHash snap
  have hempty : StoredPrecommits (newVotingState b.header.height round b.headerHash snap) := by
    intro k vote hk
    simp [newVotingState] at hk
  have hrun := run_tally hstart calls
  have hsame := run_sameBallot (newVotingState b.header.height round b.headerHash snap) calls
  have hacc := hrun.acceptedProof_iff hbuild
  rw [hsame.snapshot_eq, hsame.height_eq, hsame.blockHash_eq, storedPrecommits_run] at hacc
  constructor
  · intro h
    obtain ⟨p, t, hp, ht, ha⟩ :=
      (@validateCommitProof_eq_ok _ { b with commitProof := some proof } _ _ _ hpos).1 h
    obtain rfl : proof = p := Option.some.inj hp
    obtain rfl : snap = t := by rw [hsnap] at ht; cases ht; rfl
    exact (hacc.1 ha).2
  · intro h
    exact (@validateCommitProof_eq_ok _ { b with commitProof := some proof } _ _ _ hpos).2
      ⟨proof, snap, rfl, hsnap, hacc.2 ⟨hempty, h⟩⟩

end

/-! ### The sample blocks -/

open Sample

theorem collected_proof_accepted_sample : validateCommitProof
    { sampleBlock 1 hashA (roundProof 0 hashA) with commitProof := some (roundProof 0 hashA) }
    sampleState 1 = .ok () := by
  refine (collected_proof_accepted_iff (b := sampleBlock 1 hashA (roundProof 0 hashA)) (by decide)
    getSnapshot_sampleState 0 [.precommit (samplePrecommit 0 hashA)] (by decide +kernel)).2 ?_
  refine ⟨?_, trivial⟩
  rintro _ _ ⟨⟩ -
  rfl

def samplePrevote : Vote := { samplePrecommit 0 hashA with voteType := votePrevote }

theorem collected_prevote_rejected : ¬ ∀ (_ : Crypto) (b : Block) (s : InMemoryState)
    (epoch : UInt64) (snap : ValidatorSnapshot) (round : UInt32) (calls : List Call)
    (proof : CommitProof), b.header.height ≠ 0 → getSnapshot epoch s = .ok (some snap) →
    ((newVotingState b.header.height round b.headerHash snap).run calls).buildCommitProof =
      .ok proof →
    validateCommitProof { b with commitProof := some proof } s epoch = .ok () := by
  intro h
  have hsample := h sampleCrypto (sampleBlock 1 hashA (roundProof 0 hashA)) sampleState 1
    sampleSnapshot 0 [.precommit samplePrevote] (sampleProof 1 hashA [samplePrevote]) (by decide)
    getSnapshot_sampleState (by decide +kernel)
  obtain ⟨p, t, hp, -, ha⟩ :=
    (validateCommitProof_eq_ok (show (1 : UInt64) ≠ 0 by decide)).1 hsample
  obtain rfl : sampleProof 1 hashA [samplePrevote] = p := Option.some.inj hp
  obtain ⟨vals, hvals, -⟩ := ha.verified
  obtain ⟨val, -, hv⟩ := forall₂_mem_left hvals List.mem_cons_self
  exact absurd hv.isPrecommit (by decide)

end Dsn
