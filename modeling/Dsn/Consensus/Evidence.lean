import Dsn.Consensus.System
import Dsn.Consensus.Threshold
import Dsn.Staking.Slashing

/-!
# Evidence and who is punished for it

`ProcessEvidence` remembers the hash of what it has processed. One offence can have several pieces
of evidence with different hashes, and no signature in them is verified.
-/

namespace Dsn

open Go InMemoryState

def slashPercent (s : InMemoryState) (e : DoubleSignEvidence) : UInt64 :=
  if e.voteA.voteType = votePrevote then (getSlashParams s).percentDoublePrevote
  else (getSlashParams s).percentDoublePrecommit

section

variable [Crypto] {s s' : InMemoryState} {ev : Evidence} {e : DoubleSignEvidence}
  {height : UInt64}

/-! ### The outcomes of a call -/

theorem slashValidator_eq (hvalid : e.validate = .ok ()) (id : Address) (s : InMemoryState) :
    slashValidator id (.doubleSign e) s =
      applySlash id (slashPercent s e) (getSlashParams s).jailEpochs s := by
  have htype := Vote.type_of_validate (DoubleSignEvidence.validate_eq_ok.1 hvalid).2.2.2.2.2.1
  unfold slashPercent
  rcases htype with h | h
  · have hoff : offenseFromEvidence (.doubleSign e) = .ok .doublePrevote := by
      simp [offenseFromEvidence, h]
    unfold slashValidator
    rw [ofResult_bind hoff, if_pos h]
    rfl
  · have hne : ¬ e.voteA.voteType = votePrevote := by rw [h]; decide
    have hoff : offenseFromEvidence (.doubleSign e) = .ok .doublePrecommit := by
      simp [offenseFromEvidence, h, show ¬ votePrecommit = votePrevote by decide]
    unfold slashValidator
    rw [ofResult_bind hoff, if_neg hne]
    rfl

variable {id : Address}

theorem processEvidence_eq_ok : processEvidence ev height s = .ok id s' ↔
    ∃ e val s1, ev = .doubleSign e ∧ e.validate = .ok () ∧
      (s.getBytes (evidenceProcessedKey ev.evidenceHash)).isSome = false ∧
      getValidator e.voteA.validator s = .ok val ∧ id = val.consensusID ∧
      applySlash val.consensusID (slashPercent s e) (getSlashParams s).jailEpochs s = .ok () s1 ∧
      s' = s1.setBytes (evidenceProcessedKey ev.evidenceHash) (putUint64 height) := by
  unfold processEvidence
  simp only [wrapErr_bind_eq_ok, ofResult_bind_eq_ok, get_bind, failIf_bind_eq_ok,
    Bool.not_eq_true]
  constructor
  · rintro ⟨_, hvalid, hfresh, h⟩
    cases ev with
    | invalidCommit e => cases h
    | malformedVote e => cases h
    | doubleSign e =>
      obtain ⟨val, hval, h⟩ := asks_bind_eq_ok.1 (wrapErr_bind_eq_ok.1 h)
      obtain ⟨_, s1, hslash, h⟩ := bind_eq_ok.1 (wrapErr_bind_eq_ok.1 h)
      obtain ⟨rfl, rfl⟩ := pure_eq_ok.1 h
      rw [slashValidator_eq hvalid] at hslash
      exact ⟨e, val, s1, rfl, hvalid, hfresh, hval, rfl, hslash, rfl⟩
  · rintro ⟨e, val, s1, rfl, hvalid, hfresh, hval, rfl, hslash, rfl⟩
    rw [← slashValidator_eq hvalid] at hslash
    refine ⟨(), hvalid, hfresh, ?_⟩
    exact (wrapErr_bind (asks_eq_ok.2 ⟨hval, rfl⟩)).trans (wrapErr_bind hslash)

theorem processEvidence_error {err : Error} (h : processEvidence ev height s = .error err s') :
    SameOutside [keyTotalBonded] s s' := by
  rcases ofResult_bind_eq_error h with rfl | ⟨_, hvalid, h⟩
  · exact Std.Refl.refl _
  rcases eq_or_of_bind_eq_error Steps.get h with rfl | ⟨_, hget, h⟩
  · exact Std.Refl.refl _
  rcases failIf_bind_eq_error h with rfl | ⟨-, h⟩
  · exact Std.Refl.refl _
  have hvalid := hvalid
  cases ev with
  | invalidCommit e => cases h; exact Std.Refl.refl _
  | malformedVote e => cases h; exact Std.Refl.refl _
  | doubleSign e =>
    rcases eq_or_of_bind_eq_error ((Steps.asks _).wrapErr _) h with rfl | ⟨val, -, h⟩
    · exact Std.Refl.refl _
    rcases bind_eq_error.1 h with h | ⟨_, s1, -, h⟩
    · obtain ⟨_, h⟩ := exists_of_wrapErr_eq_error h
      rw [slashValidator_eq hvalid] at h
      exact applySlash_error h
    · cases h

structure Condemned (s : InMemoryState) (e : DoubleSignEvidence) (val v : Validator)
    (amount newStake total newTotal : Amount) (epoch : UInt64) : Prop where
  valid : e.validate = .ok ()
  fresh : (s.getBytes (evidenceProcessedKey (Evidence.doubleSign e).evidenceHash)).isSome = false
  accused : getValidator e.voteA.validator s = .ok val
  penalty : Penalty s val.consensusID (slashPercent s e) v amount newStake total newTotal epoch

def afterEvidence (ev : Evidence) (height : UInt64) (s : InMemoryState) : InMemoryState :=
  finalState (processEvidence ev height s)

variable {amount newStake total newTotal : Amount} {epoch : UInt64} {val v : Validator}

theorem Condemned.afterEvidence_eq (h : Condemned s e val v amount newStake total newTotal epoch)
    (height : UInt64) : afterEvidence (.doubleSign e) height s =
      (penaltyState s (getSlashParams s).jailEpochs v newStake newTotal epoch).setBytes
        (evidenceProcessedKey (Evidence.doubleSign e).evidenceHash) (putUint64 height) := by
  have hslash : applySlash val.consensusID (slashPercent s e) (getSlashParams s).jailEpochs s =
      .ok () (penaltyState s (getSlashParams s).jailEpochs v newStake newTotal epoch) :=
    applySlash_eq_ok.2 (.inr ⟨v, amount, newStake, total, newTotal, epoch, h.penalty, rfl⟩)
  have hrun := (@processEvidence_eq_ok _ s _ _ height _).2
    ⟨e, val, _, rfl, h.valid, h.fresh, h.accused, rfl, hslash, rfl⟩
  unfold afterEvidence
  rw [hrun]
  rfl

omit [Crypto] in
theorem ne_validatorKey_evidence (hash : Hash) (id : Address) :
    evidenceProcessedKey hash ≠ validatorKey id := by
  refine ne_validatorKey_of_not_starts (fun hp => ?_) id
  have := not_startsWith_append (l := [str "validator/"]) (t := str "evidence/processed/")
    (by decide) (hex hash.bytes)
  exact this ⟨_, List.mem_singleton_self _, hp⟩

theorem records_or_condemned (ev : Evidence) (height : UInt64) (s : InMemoryState) :
    (∀ id, getValidator id (afterEvidence ev height s) = getValidator id s) ∨
      ∃ e val v amount newStake total newTotal epoch, ev = .doubleSign e ∧
        Condemned s e val v amount newStake total newTotal epoch := by
  cases hr : processEvidence ev height s with
  | error err s' =>
    refine .inl fun id => getValidator_congr ?_
    unfold afterEvidence
    rw [hr]
    refine processEvidence_error hr _ ?_
    exact not_startsWith_append (by decide) _
  | ok id s' =>
    obtain ⟨e, val, s1, rfl, hvalid, hfresh, hval, -, hslash, hs'⟩ := processEvidence_eq_ok.1 hr
    rcases applySlash_eq_ok.1 hslash with ⟨v, amount, -, -, -, -, rfl⟩ |
      ⟨v, amount, newStake, total, newTotal, epoch, hpen, -⟩
    · refine .inl fun id => ?_
      unfold afterEvidence
      rw [hr, hs']
      exact getValidator_setBytes_of_ne (ne_validatorKey_evidence _ id) _ _
    · exact .inr ⟨e, val, v, amount, newStake, total, newTotal, epoch, rfl, hvalid, hfresh, hval,
        hpen⟩

/-! ### Once per offence -/

structure Offence where
  validator : Address
  height : UInt64
  round : UInt32
  voteType : VoteType
  blocks : Sym2 Hash

def Evidence.offence : Evidence → Option Offence
  | .doubleSign e => some ⟨e.voteA.validator, e.voteA.height, e.voteA.round, e.voteA.voteType,
      s(e.voteA.blockHash, e.voteB.blockHash)⟩
  | _ => none

def afterCalls (calls : List (Evidence × UInt64)) (s : InMemoryState) : InMemoryState :=
  calls.foldl (fun s c => afterEvidence c.1 c.2 s) s

theorem afterCalls_singleton (c : Evidence × UInt64) (s : InMemoryState) :
    afterCalls [c] s = afterEvidence c.1 c.2 s := rfl

def StakeReduced (id : Address) (s s' : InMemoryState) : Prop :=
  ∃ v v', getValidator id s = .ok v ∧ getValidator id s' = .ok v' ∧
    v'.bondedStake.val < v.bondedStake.val

def Processed (hash : Hash) (s : InMemoryState) : Prop :=
  (s.getBytes (evidenceProcessedKey hash)).isSome = true

variable {hash : Hash}

omit [Crypto] in
theorem Processed.setBytes (h : Processed hash s) (key value : Bytes) :
    Processed hash (s.setBytes key value) := by
  unfold Processed at h ⊢
  by_cases hkey : key = evidenceProcessedKey hash
  · rw [hkey, getBytes_setBytes_self]
    rfl
  · rw [getBytes_setBytes_of_ne hkey]
    exact h

theorem processed_afterEvidence (h : Processed hash s) (ev : Evidence)
    (height : UInt64) : Processed hash (afterEvidence ev height s) := by
  unfold afterEvidence
  cases hr : processEvidence ev height s with
  | error err s' =>
    have hsame := processEvidence_error hr (evidenceProcessedKey hash)
      (not_startsWith_append (by decide) _)
    exact (congrArg Option.isSome hsame).trans h
  | ok id s' =>
    obtain ⟨e, val, s1, -, -, -, -, -, hslash, rfl⟩ := processEvidence_eq_ok.1 hr
    refine Processed.setBytes ?_ _ _
    rcases applySlash_eq_ok.1 hslash with ⟨v, amount, -, -, -, -, rfl⟩ |
      ⟨v, amount, newStake, total, newTotal, epoch, -, rfl⟩
    · exact h
    · exact (h.setBytes _ _).setBytes _ _

theorem processed_afterCalls (h : Processed hash s)
    (calls : List (Evidence × UInt64)) : Processed hash (afterCalls calls s) := by
  induction calls generalizing s with
  | nil => exact h
  | cons c calls ih => exact ih (processed_afterEvidence h c.1 c.2)

theorem processed_of_ne (h : getValidator id (afterEvidence ev height s) ≠ getValidator id s) :
    Processed ev.evidenceHash (afterEvidence ev height s) := by
  rcases records_or_condemned ev height s with hsame | ⟨e, val, v, amount, newStake, total,
    newTotal, epoch, rfl, hcond⟩
  · exact absurd (hsame id) h
  · rw [hcond.afterEvidence_eq height]
    unfold Processed
    rw [getBytes_setBytes_self]
    rfl

theorem getValidator_of_processed (h : Processed ev.evidenceHash s) (height : UInt64)
    (id : Address) : getValidator id (afterEvidence ev height s) = getValidator id s := by
  rcases records_or_condemned ev height s with hsame | ⟨e, val, v, amount, newStake, total,
    newTotal, epoch, rfl, hcond⟩
  · exact hsame id
  · exact absurd (hcond.fresh.symm.trans h) (by decide)

theorem StakeReduced.ne (h : StakeReduced id s s') : getValidator id s' ≠ getValidator id s := by
  obtain ⟨v, v', hv, hv', hlt⟩ := h
  intro heq
  rw [hv, hv'] at heq
  cases heq
  exact lt_irrefl _ hlt

/-- No two calls about one offence both reduce the stake. -/
def SlashesOnce (calls : List (Evidence × UInt64)) (s : InMemoryState) : Prop :=
  ∀ before c₁ between c₂ after o, calls = before ++ c₁ :: (between ++ c₂ :: after) →
    c₁.1.offence = some o → c₂.1.offence = some o →
    StakeReduced o.validator (afterCalls before s) (afterCalls (before ++ [c₁]) s) →
    ¬ StakeReduced o.validator (afterCalls (before ++ c₁ :: between) s)
      (afterCalls (before ++ c₁ :: (between ++ [c₂])) s)

/-- One offence is always reported with the same hash. -/
def Canonical (calls : List (Evidence × UInt64)) : Prop :=
  ∀ c ∈ calls, ∀ c' ∈ calls, ∀ o, c.1.offence = some o → c'.1.offence = some o →
    c.1.evidenceHash = c'.1.evidenceHash

/-- An offence whose evidence has one hash is punished once. -/
theorem slashed_once_of_canonical {calls : List (Evidence × UInt64)} (hcanon : Canonical calls)
    (s : InMemoryState) : SlashesOnce calls s := by
  intro before c₁ between c₂ after o hcalls ho₁ ho₂ h₁ h₂
  have hhash : c₁.1.evidenceHash = c₂.1.evidenceHash := by
    subst hcalls
    exact hcanon c₁ (by simp) c₂ (by simp) o ho₁ ho₂
  simp only [afterCalls, List.foldl_append, List.foldl_cons] at h₁ h₂
  have hmark := processed_afterCalls (processed_of_ne h₁.ne) between
  rw [hhash] at hmark
  exact h₂.ne (getValidator_of_processed hmark c₂.2 _)

/-! ### Only signers -/

def Punished (v v' : Validator) : Prop :=
  v'.bondedStake.val < v.bondedStake.val ∨
    v.status ≠ validatorJailed ∧ v'.status = validatorJailed

structure SignedBoth (e : DoubleSignEvidence) (id : Address) (pubKey : PublicKey) : Prop where
  nameA : e.voteA.validator = id
  nameB : e.voteB.validator = id
  verifyA : e.voteA.verify pubKey = true
  verifyB : e.voteB.verify pubKey = true

/-- Who is punished has signed both votes. -/
def OnlySigners (ev : Evidence) (s s' : InMemoryState) : Prop :=
  ∀ id v v', getValidator id s = .ok v → getValidator id s' = .ok v' → Punished v v' →
    ∃ e, ev = .doubleSign e ∧ SignedBoth e id v.publicKey

/-- The evidence is valid and new, and the record of the accused, `v`, can be slashed. The
penalty is written under the identity that `v` carries, which in a registry that files its
records under their own names is the accused's. -/
structure Accused (s : InMemoryState) (e : DoubleSignEvidence) (v : Validator) : Prop where
  valid : e.validate = .ok ()
  fresh : ¬ Processed (Evidence.doubleSign e).evidenceHash s
  named : ∃ val, getValidator e.voteA.validator s = .ok val ∧
    getValidator val.consensusID s = .ok v
  slashable : Slashable s (slashPercent s e) v

/-- Both votes verify under the key of the record that the penalty makes worse. -/
def Attested (ev : Evidence) (s : InMemoryState) : Prop :=
  ∀ e v u, ev = .doubleSign e → Accused s e v → getValidator v.consensusID s = .ok u →
    v.bondedStake.val < u.bondedStake.val + slashUnits (slashPercent s e) v.bondedStake ∨
      u.status ≠ validatorJailed ∧ (v.status = validatorActive ∨ v.status = validatorJailed) →
    SignedBoth e v.consensusID u.publicKey

section

variable (h : Condemned s e val v amount newStake total newTotal epoch)
include h

theorem Condemned.getValidator_afterEvidence (height : UInt64) :
    getValidator v.consensusID (afterEvidence (.doubleSign e) height s) =
      .ok (v.penalized newStake (epoch + (getSlashParams s).jailEpochs)) := by
  rw [h.afterEvidence_eq, getValidator_setBytes_of_ne (ne_validatorKey_evidence _ _)]
  exact getValidator_setBytes_self _ _ _

theorem Condemned.getValidator_of_ne (height : UInt64) (hid : id ≠ v.consensusID) :
    getValidator id (afterEvidence (.doubleSign e) height s) = getValidator id s := by
  rw [h.afterEvidence_eq, getValidator_setBytes_of_ne (ne_validatorKey_evidence _ _)]
  unfold penaltyState
  rw [getValidator_setBytes_of_ne fun hk => hid (validatorKey_injective hk).symm,
    getValidator_setBytes_of_ne (validatorKey_ne_totalBonded id).symm]

end

omit [Crypto] in
theorem not_punished_self (v : Validator) : ¬ Punished v v := by
  rintro (h | ⟨h, h'⟩)
  · exact lt_irrefl _ h
  · exact h h'

theorem accused_iff : Accused s e v ↔ ∃ val amount newStake total newTotal epoch,
    Condemned s e val v amount newStake total newTotal epoch := by
  constructor
  · rintro ⟨hvalid, hfresh, ⟨val, hval, hv⟩, hslash⟩
    obtain ⟨amount, newStake, total, newTotal, epoch, hpen⟩ := (exists_penalty_iff hv).2 hslash
    exact ⟨val, amount, newStake, total, newTotal, epoch, hvalid, Bool.eq_false_of_not_eq_true hfresh,
      hval, hpen⟩
  · rintro ⟨val, amount, newStake, total, newTotal, epoch, h⟩
    refine ⟨h.valid, ?_, ⟨val, h.accused, h.penalty.found⟩,
      (exists_penalty_iff h.penalty.found).1 ⟨_, _, _, _, _, h.penalty⟩⟩
    rw [Processed, h.fresh]
    decide

theorem Condemned.punished_iff (h : Condemned s e val v amount newStake total newTotal epoch)
    (u : Validator) (until_ : UInt64) : Punished u (v.penalized newStake until_) ↔
      v.bondedStake.val < u.bondedStake.val + slashUnits (slashPercent s e) v.bondedStake ∨
        u.status ≠ validatorJailed ∧
          (v.status = validatorActive ∨ v.status = validatorJailed) := by
  have hunits : slashUnits (slashPercent s e) v.bondedStake = amount.val :=
    (slashAmount_eq_ok h.penalty.amount_eq).symm
  have hstake := h.penalty.stake_eq
  have hjailed : (v.penalized newStake until_).status = validatorJailed ↔
      v.status = validatorActive ∨ v.status = validatorJailed := by
    unfold Validator.penalized
    split_ifs with hactive <;> simp [hactive]
  unfold Punished
  rw [Validator.penalized_bondedStake, hjailed, hunits]
  exact or_congr_left ⟨fun _ => by omega, fun _ => by omega⟩

/-- Where the records stand under their own names, the record of the accused is the one that is
replaced, and it is made worse. -/
theorem attested_iff_of_filed (hfiled : Filed s) : Attested ev s ↔
    ∀ e v, ev = .doubleSign e → getValidator e.voteA.validator s = .ok v → Accused s e v →
      e.voteA.verify v.publicKey = true ∧ e.voteB.verify v.publicKey = true := by
  constructor
  · intro h e v hev hv hacc
    have hid := hfiled _ v hv
    have hpos := hacc.slashable.units_pos
    have hsigned := h e v v hev hacc (hid ▸ hv) (.inl (by omega))
    exact ⟨hsigned.verifyA, hsigned.verifyB⟩
  · intro h e v u hev hacc hu _
    obtain ⟨val, hval, hv⟩ := hacc.named
    rw [hfiled _ val hval] at hv
    have hid := hfiled _ v hv
    rw [hid] at hu ⊢
    cases hv.symm.trans hu
    obtain ⟨hA, hB⟩ := h e v hev hv hacc
    exact ⟨rfl, (DoubleSignEvidence.validate_eq_ok.1 hacc.valid).2.1.symm, hA, hB⟩

/-- Only signers are punished exactly when evidence that can be acted on is attested: in a
registry that files its records under their own names, when both votes verify under the key of
the validator that the first vote names. -/
theorem only_signers_slashed_iff (ev : Evidence) (height : UInt64) (s : InMemoryState) :
    (OnlySigners ev s (afterEvidence ev height s) ↔ Attested ev s) ∧
      (Filed s → (OnlySigners ev s (afterEvidence ev height s) ↔
        ∀ e v, ev = .doubleSign e → getValidator e.voteA.validator s = .ok v → Accused s e v →
          e.voteA.verify v.publicKey = true ∧ e.voteB.verify v.publicKey = true)) := by
  have hiff : OnlySigners ev s (afterEvidence ev height s) ↔ Attested ev s := by
    constructor
    · rintro h e v u rfl hacc hu hworse
      obtain ⟨val, amount, newStake, total, newTotal, epoch, hcond⟩ := accused_iff.1 hacc
      obtain ⟨e', he, hsigned⟩ := h _ u _ hu (hcond.getValidator_afterEvidence height)
        ((hcond.punished_iff u _).2 hworse)
      cases he
      exact hsigned
    · intro h id v v' hv hv' hpun
      rcases records_or_condemned ev height s with hsame | ⟨e, val, w, amount, newStake, total,
        newTotal, epoch, rfl, hcond⟩
      · cases (hsame id).symm.trans hv' |>.symm.trans hv
        exact absurd hpun (not_punished_self v)
      by_cases hid : id = w.consensusID
      · subst hid
        cases (hcond.getValidator_afterEvidence height).symm.trans hv'
        exact ⟨e, rfl, h e w v rfl (accused_iff.2 ⟨_, _, _, _, _, _, hcond⟩) hv
          ((hcond.punished_iff v _).1 hpun)⟩
      · cases (hcond.getValidator_of_ne height hid).symm.trans hv' |>.symm.trans hv
        exact absurd hpun (not_punished_self v)
  exact ⟨hiff, fun hfiled => hiff.trans (attested_iff_of_filed hfiled)⟩

end

/-! ### Samples -/

open Sample

def sampleOffender : Validator :=
  { sampleValidator with bondedStake := .ofUInt64 1000000, votingPower := 1000000 }

def sampleBonded : InMemoryState :=
  (singleRegistry sampleOffender).setBytes keyTotalBonded (Amount.ofUInt64 1000000).marshalBinary

def sampleDoubleSign (signature : Bytes) : DoubleSignEvidence where
  voteA := { samplePrecommit 0 (FixedBytes.copy 32 [0, 0, 1]) with signature }
  voteB := { samplePrecommit 0 (FixedBytes.copy 32 [0, 0, 2]) with signature }

def DoubleSignEvidence.swap (e : DoubleSignEvidence) : DoubleSignEvidence := ⟨e.voteB, e.voteA⟩

def stakeAfter (calls : List (Evidence × UInt64)) : Option ℕ :=
  match getValidator zeroAddress (afterCalls calls sampleBonded) with
  | .ok v => some v.bondedStake.val
  | .error _ => none

theorem stakeReduced_of_stakeAfter {before calls : List (Evidence × UInt64)} {n n' : ℕ}
    (h : stakeAfter before = some n) (h' : stakeAfter calls = some n') (hlt : n' < n) :
    StakeReduced zeroAddress (afterCalls before sampleBonded) (afterCalls calls sampleBonded) := by
  unfold stakeAfter at h h'
  cases hv : getValidator zeroAddress (afterCalls before sampleBonded) with
  | error e => rw [hv] at h; cases h
  | ok v =>
    cases hv' : getValidator zeroAddress (afterCalls calls sampleBonded) with
    | error e => rw [hv'] at h'; cases h'
    | ok v' =>
      rw [hv] at h
      rw [hv'] at h'
      cases h
      cases h'
      exact ⟨v, v', hv, hv', hlt⟩

theorem slashed_once_of_canonical_resubmitted :
    let ev := Evidence.doubleSign (sampleDoubleSign (List.replicate 64 0))
    Canonical [(ev, 1), (ev, 2)] ∧
      StakeReduced zeroAddress sampleBonded (afterCalls [(ev, 1)] sampleBonded) ∧
      SlashesOnce [(ev, 1), (ev, 2)] sampleBonded := by
  intro ev
  have hcanon : Canonical [(ev, 1), (ev, 2)] := by
    intro c hc c' hc' o _ _
    simp only [List.mem_cons, List.not_mem_nil, or_false] at hc hc'
    rcases hc with rfl | rfl <;> rcases hc' with rfl | rfl <;> rfl
  refine ⟨hcanon, ?_, slashed_once_of_canonical hcanon _⟩
  exact @stakeReduced_of_stakeAfter [] _ 1000000 900000 (by decide +kernel) (by decide +kernel)
    (by decide)

theorem slashed_twice_by_exchanged_votes :
    ¬ ∀ (_ : Crypto) (calls : List (Evidence × UInt64)) (s : InMemoryState),
      SlashesOnce calls s := by
  intro h
  let e := sampleDoubleSign (List.replicate 64 0)
  have hswap : (Evidence.doubleSign e.swap).offence = (Evidence.doubleSign e).offence := by
    simp only [Evidence.offence, Option.some.injEq, Offence.mk.injEq]
    exact ⟨rfl, rfl, rfl, rfl, Sym2.eq_swap⟩
  refine h sampleCrypto [(.doubleSign e, 1), (.doubleSign e.swap, 1)] sampleBonded [] _ [] _ []
    _ rfl rfl hswap ?_ ?_
  · exact @stakeReduced_of_stakeAfter _ _ 1000000 900000 (by decide +kernel) (by decide +kernel)
      (by decide)
  · exact @stakeReduced_of_stakeAfter _ _ 900000 810000 (by decide +kernel) (by decide +kernel)
      (by decide)

theorem slashed_without_signatures :
    ¬ ∀ (_ : Crypto) (ev : Evidence) (height : UInt64) (s : InMemoryState),
      OnlySigners ev s (afterEvidence ev height s) := by
  intro h
  let e := sampleDoubleSign [0]
  obtain ⟨v, v', hv, hv', hlt⟩ := @stakeReduced_of_stakeAfter [] [(.doubleSign e, 1)] 1000000
    900000 (by decide +kernel) (by decide +kernel) (by decide)
  rw [afterCalls_singleton] at hv'
  obtain ⟨_, he, hsigned⟩ := h sampleCrypto (.doubleSign e) 1 sampleBonded _ v v' hv hv' (.inl hlt)
  cases he
  exact absurd (Vote.verify_length hsigned.verifyA) (by decide)

end Dsn
