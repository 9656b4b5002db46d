import Dsn.Consensus.Collect
import Dsn.Consensus.Quorum

/-!
# What the accumulated power is

`VotingState` adds up power as votes come in. Along every run of calls the sum is the power of the
distinct members of the snapshot whose votes are stored.
-/

namespace Dsn

open Go VotingState Weight

variable {snap : ValidatorSnapshot} {vs : VotingState}

section

variable [Crypto]

/-! ### The two kinds of votes -/

def VotingState.exchanged (vs : VotingState) : VotingState :=
  { vs with
    prevotes := vs.precommits
    precommits := vs.prevotes
    prevotePower := vs.precommitPower
    precommitPower := vs.prevotePower }

def VotingState.Call.exchanged : Call → Call
  | .prevote vote => .precommit vote
  | .precommit vote => .prevote vote

section

variable (vs : VotingState)

theorem addPrecommit_exchanged (vote : Vote) :
    vs.exchanged.addPrecommit vote = (vs.addPrevote vote).map VotingState.exchanged := by
  change (vs.addVote vote vs.prevotePower vs.prevotes >>= fun r => _) =
    (vs.addVote vote vs.prevotePower vs.prevotes >>= fun r => _).map VotingState.exchanged
  cases vs.addVote vote vs.prevotePower vs.prevotes <;> rfl

theorem addPrevote_exchanged (vote : Vote) :
    vs.exchanged.addPrevote vote = (vs.addPrecommit vote).map VotingState.exchanged := by
  change (vs.addVote vote vs.precommitPower vs.precommits >>= fun r => _) =
    (vs.addVote vote vs.precommitPower vs.precommits >>= fun r => _).map VotingState.exchanged
  cases vs.addVote vote vs.precommitPower vs.precommits <;> rfl

theorem step_exchanged (c : Call) : vs.exchanged.step c.exchanged = (vs.step c).exchanged := by
  cases c with
  | prevote vote =>
    show ((vs.exchanged.addPrecommit vote).toOption.getD vs.exchanged) =
      ((vs.addPrevote vote).toOption.getD vs).exchanged
    rw [addPrecommit_exchanged]
    cases vs.addPrevote vote <;> rfl
  | precommit vote =>
    show ((vs.exchanged.addPrevote vote).toOption.getD vs.exchanged) =
      ((vs.addPrecommit vote).toOption.getD vs).exchanged
    rw [addPrevote_exchanged]
    cases vs.addPrecommit vote <;> rfl

theorem run_exchanged (calls : List Call) :
    vs.exchanged.run (calls.map Call.exchanged) = (vs.run calls).exchanged := by
  induction calls generalizing vs with
  | nil => rfl
  | cons c calls ih =>
    show (vs.exchanged.step c.exchanged).run (calls.map Call.exchanged) = _
    rw [step_exchanged, ih]
    rfl

end

/-! ### Accepted votes -/

def VotingState.Call.addedPrevote (vs : VotingState) : Call → Option Vote
  | .prevote vote => if (vs.addPrevote vote).isOk then some vote else none
  | .precommit _ => none

def VotingState.Call.addedPrecommit (vs : VotingState) : Call → Option Vote
  | .prevote _ => none
  | .precommit vote => if (vs.addPrecommit vote).isOk then some vote else none

def addedAlong (added : VotingState → Call → Option Vote) :
    VotingState → List Call → List Vote
  | _, [] => []
  | vs, c :: calls => (added vs c).toList ++ addedAlong added (vs.step c) calls

def acceptedPrevotes (vs : VotingState) (calls : List Call) : List Vote :=
  addedAlong (fun vs c => c.addedPrevote vs) vs calls

def acceptedPrecommits (vs : VotingState) (calls : List Call) : List Vote :=
  addedAlong (fun vs c => c.addedPrecommit vs) vs calls

section

variable (vs : VotingState)

theorem acceptedPrecommits_cons (c : Call) (calls : List Call) :
    acceptedPrecommits vs (c :: calls) =
      (c.addedPrecommit vs).toList ++ acceptedPrecommits (vs.step c) calls := rfl

theorem addedPrecommit_exchanged (c : Call) :
    c.exchanged.addedPrecommit vs.exchanged = c.addedPrevote vs := by
  cases c with
  | prevote vote =>
    show (if (vs.exchanged.addPrecommit vote).isOk then some vote else none) =
      if (vs.addPrevote vote).isOk then some vote else none
    rw [addPrecommit_exchanged]
    cases vs.addPrevote vote <;> rfl
  | precommit vote => rfl

theorem acceptedPrecommits_exchanged (calls : List Call) :
    acceptedPrecommits vs.exchanged (calls.map Call.exchanged) = acceptedPrevotes vs calls := by
  induction calls generalizing vs with
  | nil => rfl
  | cons c calls ih =>
    rw [List.map_cons, acceptedPrecommits_cons, addedPrecommit_exchanged, step_exchanged, ih]
    rfl

theorem mem_precommits_step (c : Call) (id : Address) :
    id ∈ (vs.step c).precommits ↔
      id ∈ vs.precommits ∨ id ∈ (c.addedPrecommit vs).toList.map Vote.validator := by
  cases c with
  | prevote vote =>
    rcases step_cases vs (.prevote vote) with h | ⟨power, votes, h⟩ | ⟨_, h, -⟩
    · simp [h, Call.addedPrecommit]
    · simp [h, Call.addedPrecommit]
    · cases h
  | precommit vote =>
    show id ∈ (vs.step (.precommit vote)).precommits ↔ id ∈ vs.precommits ∨
      id ∈ (if (vs.addPrecommit vote).isOk then some vote else none).toList.map Vote.validator
    cases h : vs.addPrecommit vote with
    | error e =>
      rw [step_precommit_error h]
      exact (or_iff_left List.not_mem_nil).symm
    | ok vs' =>
      rw [step_precommit_ok h]
      obtain ⟨-, val, -, rfl⟩ := addPrecommit_eq_ok.1 h
      show id ∈ vs.precommits.insert vote.validator vote ↔ _ ∨ id ∈ [vote.validator]
      rw [Std.ExtTreeMap.mem_insert, Std.LawfulEqCmp.compare_eq_iff_eq, List.mem_singleton,
        or_comm, eq_comm]

theorem mem_precommits_run (calls : List Call) (id : Address) :
    id ∈ (vs.run calls).precommits ↔
      id ∈ vs.precommits ∨ id ∈ (acceptedPrecommits vs calls).map Vote.validator := by
  induction calls generalizing vs with
  | nil => simp [run, acceptedPrecommits, addedAlong]
  | cons c calls ih =>
    show id ∈ ((vs.step c).run calls).precommits ↔ _
    rw [ih, mem_precommits_step, acceptedPrecommits_cons, List.map_append, List.mem_append,
      or_assoc]

end

/-! ### The power behind the stored precommits -/

def idPower (snap : ValidatorSnapshot) (id : Address) : ℕ :=
  match snap.validatorByID id with
  | .ok val => power val
  | .error _ => 0

theorem ExactSnapshot.validatorByID_iff (hs : ExactSnapshot snap) {id : Address} {v : Validator} :
    snap.validatorByID id = .ok v ↔ v ∈ snap.validators ∧ v.consensusID = id :=
  ValidatorSnapshot.validatorByID_eq_ok fun _ hv _ hw h =>
    List.inj_on_of_nodup_map hs.distinct hv hw h

def voters (snap : ValidatorSnapshot) (ids : List Address) : List Validator :=
  snap.validators.filter fun v => v.consensusID ∈ ids

omit [Crypto] in
theorem weight_voters_le (snap : ValidatorSnapshot) (ids : List Address) :
    weight power (voters snap ids) ≤ weight power snap.validators :=
  weight_le_of_subperm List.filter_sublist.subperm

variable {ids : List Address}

theorem ExactSnapshot.weight_voters (hs : ExactSnapshot snap) (hnd : ids.Nodup)
    (hmem : ∀ id ∈ ids, id ∈ snap.validators.map Validator.consensusID) :
    weight power (voters snap ids) = (ids.map (idPower snap)).sum := by
  have hnodup : ((voters snap ids).map Validator.consensusID).Nodup :=
    hs.distinct.sublist (List.filter_sublist.map _)
  have hperm : ((voters snap ids).map Validator.consensusID).Perm ids := by
    refine (List.perm_ext_iff_of_nodup hnodup hnd).2 fun id => ?_
    constructor
    · intro h
      obtain ⟨v, hv, rfl⟩ := List.mem_map.1 h
      exact of_decide_eq_true (List.mem_filter.1 hv).2
    · intro h
      obtain ⟨v, hv, rfl⟩ := List.mem_map.1 (hmem id h)
      exact List.mem_map_of_mem (List.mem_filter.2 ⟨hv, decide_eq_true h⟩)
  rw [← (hperm.map (idPower snap)).sum_eq, List.map_map]
  refine congrArg List.sum (List.map_congr_left fun v hv => ?_)
  have hfound := hs.validatorByID_iff.2 ⟨(List.mem_filter.1 hv).1, rfl⟩
  simp [idPower, hfound]

theorem Tally.precommitPower_eq (ht : Tally vs) (hs : ExactSnapshot vs.snapshot)
    (hids : ∀ id, id ∈ vs.precommits ↔ id ∈ ids) :
    vs.precommitPower.toNat = weight power (voters vs.snapshot ids) := by
  set stored := vs.precommits.toList.map fun e => e.2 with hstored
  have hmem (id : Address) : id ∈ stored.map Vote.validator ↔ id ∈ ids := by
    rw [← hids]
    constructor
    · intro h
      obtain ⟨vote, hvote, rfl⟩ := List.mem_map.1 h
      exact Map.mem_of_get (ht.mem_toList.1 hvote)
    · intro h
      obtain ⟨vote, hvote⟩ := Map.exists_get_of_mem h
      have hkey := ht.keyed id vote hvote
      refine List.mem_map.2 ⟨vote, ht.mem_toList.2 ?_, hkey⟩
      rwa [hkey]
  have hvoters : voters vs.snapshot ids = voters vs.snapshot (stored.map Vote.validator) :=
    List.filter_congr fun v _ => by simp only [hmem]
  have hmember : ∀ id ∈ stored.map Vote.validator,
      id ∈ vs.snapshot.validators.map Validator.consensusID := by
    intro id h
    obtain ⟨vote, hvote, rfl⟩ := List.mem_map.1 h
    obtain ⟨val, hc⟩ := ht.counted _ _ (ht.mem_toList.1 hvote)
    obtain ⟨hval, hid⟩ := ValidatorSnapshot.validatorByID_mem hc.found
    exact List.mem_map.2 ⟨val, hval, hid⟩
  have hsum : (stored.map fun vote => (signerPower vs.snapshot vote).toNat).sum =
      weight power (voters vs.snapshot (stored.map Vote.validator)) := by
    rw [hs.weight_voters ht.nodup_validators hmember]
    refine congrArg List.sum ((List.map_congr_left fun vote _ => ?_).trans List.map_map.symm)
    simp only [signerPower, Function.comp_apply, idPower]
    cases vs.snapshot.validatorByID vote.validator <;> rfl
  -- the sum is bounded by the total, which fits
  have hle := weight_voters_le vs.snapshot (stored.map Vote.validator)
  have hlt := vs.snapshot.totalPower.toNat_lt
  rw [hs.total_eq] at hlt
  rw [ht.power_eq, sumUint64_toNat, hsum, hvoters]
  exact Nat.mod_eq_of_lt (hle.trans_lt hlt)

/-! ### Order -/

theorem step_precommit_of_not {vote : Vote}
    (h : ¬ (vs.precommits[vote.validator]? = none ∧ ∃ val, CountsFor vs vote val)) :
    vs.step (.precommit vote) = vs := by
  cases hadd : vs.addPrecommit vote with
  | error e => exact step_precommit_error hadd
  | ok vs' =>
    obtain ⟨hnew, val, hc, -⟩ := addPrecommit_eq_ok.1 hadd
    exact absurd ⟨hnew, val, hc⟩ h

theorem addable_step_iff (vs : VotingState) {a b : Vote} (h : a.validator ≠ b.validator) :
    ((vs.step (.precommit a)).precommits[b.validator]? = none ∧
        ∃ val, CountsFor (vs.step (.precommit a)) b val) ↔
      (vs.precommits[b.validator]? = none ∧ ∃ val, CountsFor vs b val) := by
  by_cases ha : vs.precommits[a.validator]? = none ∧ ∃ val, CountsFor vs a val
  · obtain ⟨hnew, val, hc⟩ := ha
    rw [step_precommit_ok (addPrecommit_eq_ok.2 ⟨hnew, val, hc, rfl⟩)]
    refine and_congr ?_ ?_
    · rw [Map.get_insert_of_ne _ h]
    · refine exists_congr fun w => ?_
      exact ⟨fun hw => ⟨hw.1, hw.2, hw.3, hw.4, hw.5⟩, fun hw => ⟨hw.1, hw.2, hw.3, hw.4, hw.5⟩⟩
  · rw [step_precommit_of_not ha]

theorem step_precommit_comm (vs : VotingState) {a b : Vote} (h : a.validator ≠ b.validator) :
    (vs.step (.precommit a)).step (.precommit b) =
      (vs.step (.precommit b)).step (.precommit a) := by
  have hab := addable_step_iff vs h
  have hba := addable_step_iff vs h.symm
  by_cases ha : vs.precommits[a.validator]? = none ∧ ∃ val, CountsFor vs a val
  · by_cases hb : vs.precommits[b.validator]? = none ∧ ∃ val, CountsFor vs b val
    · obtain ⟨hbnew', valb', hcb'⟩ := hab.2 hb
      obtain ⟨hanew', vala', hca'⟩ := hba.2 ha
      obtain ⟨hanew, vala, hca⟩ := ha
      obtain ⟨hbnew, valb, hcb⟩ := hb
      rw [step_precommit_ok (addPrecommit_eq_ok.2 ⟨hbnew', valb', hcb', rfl⟩),
        step_precommit_ok (addPrecommit_eq_ok.2 ⟨hanew', vala', hca', rfl⟩)]
      rw [step_precommit_ok (addPrecommit_eq_ok.2 ⟨hanew, vala, hca, rfl⟩)] at hcb' ⊢
      rw [step_precommit_ok (addPrecommit_eq_ok.2 ⟨hbnew, valb, hcb, rfl⟩)] at hca' ⊢
      -- the validators are looked up in the same snapshot
      obtain rfl : valb' = valb := Except.ok.inj (hcb'.found.symm.trans hcb.found)
      obtain rfl : vala' = vala := Except.ok.inj (hca'.found.symm.trans hca.found)
      have hpower : vs.precommitPower + vala'.votingPower + valb'.votingPower =
          vs.precommitPower + valb'.votingPower + vala'.votingPower := by
        rw [UInt64.add_assoc, UInt64.add_comm vala'.votingPower, ← UInt64.add_assoc]
      simp only [Map.insert_comm vs.precommits h, hpower]
    · rw [step_precommit_of_not hb, step_precommit_of_not fun hb' => hb (hab.1 hb')]
  · rw [step_precommit_of_not ha, step_precommit_of_not fun ha' => ha (hba.1 ha')]

theorem run_precommits_perm (vs : VotingState) {votes votes' : List Vote}
    (hnd : (votes.map Vote.validator).Nodup) (h : votes.Perm votes') :
    vs.run (votes.map Call.precommit) = vs.run (votes'.map Call.precommit) := by
  unfold run
  rw [List.foldl_map, List.foldl_map]
  refine h.foldl_eq' (fun a ha b hb z => ?_) vs
  by_cases hab : a.validator = b.validator
  · rw [List.inj_on_of_nodup_map hnd ha hb hab]
  · exact step_precommit_comm z hab

theorem Tally.sortSlice_walked (ht : Tally vs) {walked : List Vote}
    (h : (vs.precommits.toList.map fun e => e.2).Perm walked) :
    sortSlice voteLess walked = sortSlice voteLess (vs.precommits.toList.map fun e => e.2) :=
  (sortSlice_eq_of_perm ht.nodup_validators h).symm

theorem precommitPower_run (hs : ExactSnapshot snap) (height : UInt64) (round : UInt32)
    (hash : Hash) (calls : List Call) :
    ((newVotingState height round hash snap).run calls).precommitPower.toNat = weight power
      (voters snap ((acceptedPrecommits (newVotingState height round hash snap) calls).map
        Vote.validator)) := by
  have hsnap : ((newVotingState height round hash snap).run calls).snapshot = snap :=
    (run_sameBallot (newVotingState height round hash snap) calls).snapshot_eq
  have hvoters (id : Address) :
      id ∈ ((newVotingState height round hash snap).run calls).precommits ↔
        id ∈ (acceptedPrecommits (newVotingState height round hash snap) calls).map
          Vote.validator := by
    rw [mem_precommits_run]
    simp [newVotingState]
  have htally := run_tally (newVotingState_tally height round hash snap) calls
  have h := htally.precommitPower_eq (by rw [hsnap]; exact hs) hvoters
  rwa [hsnap] at h

theorem prevotePower_run (hs : ExactSnapshot snap) (height : UInt64) (round : UInt32) (hash : Hash)
    (calls : List Call) :
    ((newVotingState height round hash snap).run calls).prevotePower.toNat = weight power
      (voters snap ((acceptedPrevotes (newVotingState height round hash snap) calls).map
        Vote.validator)) := by
  have h := precommitPower_run hs height round hash (calls.map Call.exchanged)
  rwa [show newVotingState height round hash snap =
      (newVotingState height round hash snap).exchanged from rfl, run_exchanged,
    acceptedPrecommits_exchanged] at h

/-- Over an exact snapshot either power is that of the distinct validators that voted. -/
theorem votes_accumulate {snap : ValidatorSnapshot} (hs : ExactSnapshot snap) (height : UInt64)
    (round : UInt32) (hash : Hash) :
    (∀ calls : List Call,
      let start := newVotingState height round hash snap
      (start.run calls).prevotePower.toNat =
          weight power (voters snap ((acceptedPrevotes start calls).map Vote.validator)) ∧
        (start.run calls).prevotePower.toNat ≤ snap.totalPower.toNat ∧
      (start.run calls).precommitPower.toNat =
          weight power (voters snap ((acceptedPrecommits start calls).map Vote.validator)) ∧
        (start.run calls).precommitPower.toNat ≤ snap.totalPower.toNat) ∧
    (∀ votes votes' : List Vote, (votes.map Vote.validator).Nodup → votes.Perm votes' →
      let start := newVotingState height round hash snap
      (start.run (votes.map Call.precommit)).buildCommitProof =
        (start.run (votes'.map Call.precommit)).buildCommitProof) ∧
    ∀ (calls : List Call) (walked : List Vote),
      let stored := ((newVotingState height round hash snap).run calls).precommits.toList.map
        fun e => e.2
      stored.Perm walked → sortSlice voteLess walked = sortSlice voteLess stored := by
  have htotal (ids : List Address) : weight power (voters snap ids) ≤ snap.totalPower.toNat := by
    rw [hs.total_eq]
    exact weight_voters_le snap ids
  refine ⟨fun calls => ?_, fun votes votes' hnd hperm => ?_, fun calls walked hperm => ?_⟩
  · have hprevote := prevotePower_run hs height round hash calls
    have hprecommit := precommitPower_run hs height round hash calls
    refine ⟨hprevote, ?_, hprecommit, ?_⟩
    · exact (le_of_eq hprevote).trans (htotal _)
    · exact (le_of_eq hprecommit).trans (htotal _)
  · exact congrArg buildCommitProof (run_precommits_perm _ hnd hperm)
  · have htally := run_tally (newVotingState_tally height round hash snap) calls
    exact htally.sortSlice_walked hperm

end

open Sample

def repeatedPrecommit : List Call :=
  [.precommit (samplePrecommit 0 hashA), .precommit (samplePrecommit 0 hashA)]

theorem votes_accumulate_sample :
    acceptedPrecommits (newVotingState 1 0 hashA sampleSnapshot) repeatedPrecommit =
        [samplePrecommit 0 hashA] ∧
      ((newVotingState 1 0 hashA sampleSnapshot).run repeatedPrecommit).precommitPower.toNat =
        weight power (voters sampleSnapshot [zeroAddress]) := by
  have haccepted : acceptedPrecommits (newVotingState 1 0 hashA sampleSnapshot)
      repeatedPrecommit = [samplePrecommit 0 hashA] := by decide +kernel
  have hpower := ((votes_accumulate exactSnapshot_sample 1 0 hashA).1 repeatedPrecommit).2.2.1
  exact ⟨haccepted, hpower⟩

end Dsn
