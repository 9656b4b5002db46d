import Dsn.Consensus.Evidence

/-!
# The jail term of a double signer

A slash jails an active validator until an epoch, but a slash of zero returns before that, and
snapshots of the term may have been taken already.
-/

namespace Dsn

open Go InMemoryState

section

variable [Crypto] {s s' : InMemoryState} {ev : Evidence} {e : DoubleSignEvidence}
  {height : UInt64}

/-! ### Runs -/

inductive Call
  | beginBlock
  | processEvidence (ev : Evidence) (height : UInt64)

structure Chain where
  height : UInt64
  state : InMemoryState

def Call.run (c : Chain) : Call → Chain
  | .beginBlock => ⟨c.height + 1, finalState (Dsn.beginBlock (c.height + 1) c.state)⟩
  | .processEvidence ev height => ⟨c.height, afterEvidence ev height c.state⟩

def runCalls (calls : List Call) (c : Chain) : Chain := calls.foldl Call.run c

variable {c : Chain}

theorem runCalls_keeps {P : InMemoryState → Prop}
    (hbegin : ∀ height, Steps (Keeps P) (beginBlock height))
    (hevidence : ∀ ev height s, P s → P (afterEvidence ev height s)) (calls : List Call)
    (h : P c.state) : P (runCalls calls c).state := by
  induction calls generalizing c with
  | nil => exact h
  | cons call calls ih =>
    refine ih ?_
    cases call with
    | beginBlock => exact hbegin _ _ h
    | processEvidence ev height => exact hevidence ev height _ h

/-! ### Evidence -/

theorem afterEvidence_keys (ev : Evidence) (height : UInt64) (s : InMemoryState) :
    SameOutside (str "evidence/" :: registryTexts) s (afterEvidence ev height s) := by
  unfold afterEvidence
  cases hr : processEvidence ev height s with
  | error err s' =>
    refine fun key hk => processEvidence_error hr key ?_
    rintro ⟨t, ht, hp⟩
    obtain rfl := List.mem_singleton.1 ht
    exact hk ⟨str "staking/", by decide, (by decide : str "staking/" <+: keyTotalBonded).trans hp⟩
  | ok id s' =>
    obtain ⟨e, val, s1, -, -, -, -, -, hslash, rfl⟩ := processEvidence_eq_ok.1 hr
    have hmark : StartsWith (str "evidence/" :: registryTexts)
        (evidenceProcessedKey ev.evidenceHash) :=
      ⟨_, List.mem_cons_self, (by decide : str "evidence/" <+: str "evidence/processed/").trans
        (List.prefix_append _ _)⟩
    refine IsTrans.trans _ _ _ ?_ (sameOutside_setBytes hmark _ _)
    rcases applySlash_eq_ok.1 hslash with ⟨v, amount, -, -, -, -, rfl⟩ |
      ⟨v, amount, newStake, total, newTotal, epoch, -, rfl⟩
    · exact Std.Refl.refl _
    · exact SameOutside.mono (List.subset_cons_self _ _) <| IsTrans.trans _ _ _
        (sameOutside_setBytes startsWith_keyTotalBonded _ s) (sameOutside_validatorKey _ _ _)

theorem afterEvidence_records {L : Validator → Validator → Prop} [Std.Refl L]
    [IsTrans Validator L] (hL : ∀ v newStake until', L v (v.penalized newStake until'))
    (ev : Evidence) (height : UInt64) (s : InMemoryState) :
    Records L s (afterEvidence ev height s) := by
  rcases records_or_condemned ev height s with hsame | ⟨e, val, v, amount, newStake, total,
    newTotal, epoch, rfl, hcond⟩
  · exact .of_eq hsame
  rw [hcond.afterEvidence_eq]
  refine IsTrans.trans _ _ _ ?_ (Records.setBytes (ne_validatorKey_evidence _) _ _)
  have heq (id : Address) : getValidator id (s.setBytes keyTotalBonded newTotal.marshalBinary) =
      getValidator id s := getValidator_setBytes_of_ne (validatorKey_ne_totalBonded id).symm _ s
  exact Records.congr_left heq (Records.replace ((heq _).trans hcond.penalty.found)
    (v.penalized_consensusID _ _) (hL v _ _))

/-! ### Serving a term -/

def KeepsTerm (term : UInt64) (v v' : Validator) : Prop :=
  v.status = validatorJailed ∧ v.jailedUntil = term →
    v'.status = validatorJailed ∧ v'.jailedUntil = term

instance (term : UInt64) : Std.Refl (KeepsTerm term) := ⟨fun _ h => h⟩

instance (term : UInt64) : IsTrans Validator (KeepsTerm term) := ⟨fun _ _ _ h h' hv => h' (h hv)⟩

section

omit [Crypto]

theorem keepsTerm_penalized (term : UInt64) (v : Validator) (newStake : Amount) (until' : UInt64) :
    KeepsTerm term v (v.penalized newStake until') := by
  rintro ⟨hst, hterm⟩
  have hne : ¬ v.status = validatorActive := by rw [hst]; decide
  unfold Validator.penalized
  rw [if_neg hne]
  exact ⟨hst, hterm⟩

theorem activates_keepsTerm (term epoch : UInt64) : Activates (KeepsTerm term) epoch := by
  rintro v hst ⟨hjailed, -⟩
  exact absurd (hst.symm.trans hjailed) (by decide)

theorem removes_keepsTerm (term : UInt64) : Removes (KeepsTerm term) := by
  rintro v hst ⟨hjailed, -⟩
  exact absurd (hst.symm.trans hjailed) (by decide)

theorem unjails_keepsTerm {term epoch : UInt64} (h : epoch < term) :
    Unjails (KeepsTerm term) epoch := by
  rintro v - hle ⟨-, hterm⟩
  exact absurd (hterm ▸ hle) (UInt64.not_le.2 h)

end

def Unlisted (id : Address) (start term : UInt64) (s : InMemoryState) : Prop :=
  ∀ k, start < k → k < term → ∀ snap, getSnapshot k s = .ok (some snap) →
    ∀ w ∈ snap.validators, w.consensusID ≠ id

structure Serving (id : Address) (start term : UInt64) (s : InMemoryState) : Prop where
  filed : Filed s
  jailed : ∀ epoch v, currentEpoch s = .ok epoch → epoch < term → getValidator id s = .ok v →
    v.status = validatorJailed ∧ v.jailedUntil = term
  unlisted : Unlisted id start term s

variable {id : Address} {start term : UInt64}

omit [Crypto] in
theorem Unlisted.congr (h : Unlisted id start term s)
    (hsnap : ∀ k, s'.getBytes (snapshotKey k) = s.getBytes (snapshotKey k)) :
    Unlisted id start term s' :=
  fun k hk hk' snap hget => h k hk hk' snap ((getSnapshot_congr (hsnap k)).symm.trans hget)

section

variable (h : Serving id start term s)
include h

theorem Serving.of_records (hrec : Records (KeepsTerm term) s s')
    (hepoch : s'.getBytes keyCurrentEpoch = s.getBytes keyCurrentEpoch)
    (hsnap : ∀ k, s'.getBytes (snapshotKey k) = s.getBytes (snapshotKey k)) :
    Serving id start term s' := by
  obtain ⟨hfiled, hback⟩ := hrec h.filed
  refine ⟨hfiled, fun epoch v' hcur hlt hv' => ?_, h.unlisted.congr hsnap⟩
  obtain ⟨v, hv, hkeep⟩ := hback id v' hv'
  exact hkeep (h.jailed epoch v ((currentEpoch_congr hepoch).symm.trans hcur) hlt hv)

theorem Serving.of_keys {texts : List Bytes} (hkeys : SameOutside texts s s')
    (hclear : ∀ t ∈ [str "validator/", str "epoch/", str "snapshot/"], ∀ u ∈ texts,
      ¬ u <+: t ∧ ¬ t <+: u) : Serving id start term s' := by
  have hval (a : Address) : getValidator a s' = getValidator a s :=
    getValidator_congr (hkeys _ (not_startsWith_append (hclear _ (by decide)) _))
  have hepoch : s'.getBytes keyCurrentEpoch = s.getBytes keyCurrentEpoch :=
    hkeys _ (not_startsWith_append (t := str "epoch/") (hclear _ (by decide)) (str "current"))
  exact h.of_records (.of_eq hval) hepoch fun k =>
    hkeys _ (not_startsWith_append (hclear _ (by decide)) _)

theorem serving_afterEvidence (ev : Evidence) (height : UInt64) :
    Serving id start term (afterEvidence ev height s) := by
  have hkeys := afterEvidence_keys ev height s
  exact h.of_records (afterEvidence_records (keepsTerm_penalized term) ev height s)
    (hkeys _ (not_startsWith_append (t := keyCurrentEpoch) (by decide) []))
    fun k => hkeys _ (not_startsWith_append (by decide) _)

end

/-! ### The start of a block -/

theorem processEpochTransition_serving (hh : height ≠ 0) :
    Steps (Keeps (Serving id start term)) (processEpochTransition height) := by
  intro s h
  have hkeys := processEpochTransition_keys height s
  have hsnap (k : UInt64) := hkeys (snapshotKey k) (not_startsWith_append (by decide) _)
  cases hr : processEpochTransition height s with
  | error err s' =>
    rw [hr] at hsnap
    cases hcur : currentEpoch s with
    | error e =>
      unfold processEpochTransition at hr
      rw [bind_eq_error_of (asks_of_error hcur)] at hr
      cases hr
      exact h
    | ok epoch =>
      have hrec : Records (KeepsTerm term) s s' := processEpochTransition_error hcur
        (fun _ => activateValidator_records (activates_keepsTerm term _))
        (fun _ => releaseStake_records (removes_keepsTerm term)) hr
      have hregistry : SameOutside registryTexts s s' := processEpochTransition_error hcur
        (fun _ => activateValidator_keys _) (fun _ => releaseStake_keys) hr
      exact h.of_records hrec
        (hregistry _ (not_startsWith_append (t := keyCurrentEpoch) (by decide) [])) hsnap
  | ok u s' =>
    rw [hr] at hsnap
    obtain ⟨epoch, hcur, hat, hnext⟩ := processEpochTransition_ok hr
    have hlt : epoch < epoch + 1 := by
      have hne := epochAtHeight_ne_zero hh hat
      rw [UInt64.lt_iff_toNat_lt, uint64_toNat_succ hne]
      exact Nat.lt_succ_self _
    have hfiled := (@processEpochTransition_records _ s AnyChange _ _ epoch height hcur
      (fun _ _ => trivial) (fun _ _ => trivial) (fun _ _ _ => trivial) h.filed).1
    rw [hr] at hfiled
    refine ⟨hfiled, fun epoch' v' hcur' hlt' hv' => ?_, h.unlisted.congr hsnap⟩
    -- the term is not over in the new epoch either
    cases hnext.symm.trans hcur'
    have hrec := @processEpochTransition_records _ s (KeepsTerm term) _ _ epoch height hcur
      (activates_keepsTerm term _) (removes_keepsTerm term) (unjails_keepsTerm hlt') h.filed
    rw [hr] at hrec
    obtain ⟨v, hv, hkeep⟩ := hrec.2 id v' hv'
    exact hkeep (h.jailed epoch v hcur (UInt64.lt_trans hlt hlt') hv)

theorem epochBoundary_serving (hh : height ≠ 0) :
    Steps (Keeps (Serving id start term)) (epochBoundary height) := by
  refine (Steps.asks _).bind fun epoch => (Steps.asks _).bind fun bpe => ?_
  refine Steps.bind (Steps.wrapErr _ fun s h => ?_) fun _ => ?_
  · exact h.of_keys (issueEpochTokens_keys _ _ _ s) (by decide)
  refine Steps.bind (Steps.wrapErr _ fun s h => ?_) fun _ => ?_
  · exact h.of_keys (@distributeValidatorRewards_keys _ [] epoch s) (by decide)
  exact (processEpochTransition_serving hh).wrapErr _

variable {epoch : UInt64}

theorem ensureSnapshot_serving (hcur : currentEpoch s = .ok epoch) (h : Serving id start term s) :
    Serving id start term (finalState (ensureSnapshot epoch s)) := by
  have hkeys := ensureSnapshot_keys epoch s
  have hval (a : Address) :
      getValidator a (finalState (ensureSnapshot epoch s)) = getValidator a s :=
    getValidator_congr (hkeys _ (not_startsWith_append (by decide) _))
  have hepoch := currentEpoch_congr
    (hkeys keyCurrentEpoch (not_startsWith_append (t := keyCurrentEpoch) (by decide) []))
  refine ⟨fun a v hv => h.filed a v ((hval a).symm.trans hv), fun c v hc hlt hv => ?_, ?_⟩
  · exact h.jailed c v (hepoch.symm.trans hc) hlt ((hval id).symm.trans hv)
  intro k hk hk' snap hget w hw
  rcases ensureSnapshot_getBytes epoch k s with hsame | ⟨rfl, active, hactive, hstored⟩
  · exact h.unlisted k hk hk' snap ((getSnapshot_congr hsame).symm.trans hget) w hw
  rw [getSnapshot_of_getBytes (length_getActiveValidators hactive) hstored] at hget
  cases hget
  rintro rfl
  obtain ⟨a, ha, hst⟩ := mem_getActiveValidators hactive hw
  obtain rfl := h.filed a w ha
  exact absurd (hst.symm.trans (h.jailed k w hcur hk' ha).1) (by decide)

theorem beginBlock_serving (height : UInt64) :
    Steps (Keeps (Serving id start term)) (beginBlock height) := by
  have htail : Steps (Keeps (Serving id start term)) (do
      let epoch ← wrapErr "current epoch" (asks currentEpoch)
      let snap ← ensureSnapshot epoch
      return (epoch, snap.setHash)) := by
    intro s h
    cases hcur : currentEpoch s with
    | error e =>
      rw [bind_eq_error_of (wrapErr_of_error (asks_of_error hcur))]
      exact h
    | ok epoch =>
      rw [wrapErr_bind (asks_eq_ok.2 ⟨hcur, rfl⟩)]
      have hsnap := ensureSnapshot_serving hcur h
      cases hr : ensureSnapshot epoch s with
      | error e s' =>
        rw [hr] at hsnap
        rw [bind_eq_error_of hr]
        exact hsnap
      | ok snap s' =>
        rw [hr] at hsnap
        rw [bind_eq_ok_of hr]
        exact hsnap
  unfold beginBlock
  split_ifs with hh
  · exact Steps.pure _
  refine (Steps.asks _).bind fun boundary => ?_
  cases boundary with
  | true => exact (epochBoundary_serving hh).bind fun _ => htail
  | false => exact htail

theorem runCalls_serving (calls : List Call) (h : Serving id start term c.state) :
    Serving id start term (runCalls calls c).state :=
  runCalls_keeps beginBlock_serving (fun ev height _ h => serving_afterEvidence h ev height) calls h

/-! ### The term of a double signer -/

/-- Who was active is jailed at once and in no snapshot of the term. -/
def JailedForTerm (ev : Evidence) (height : UInt64) (c : Chain) : Prop :=
  ∀ id s' v epoch, processEvidence ev height c.state = .ok id s' →
    getValidator id c.state = .ok v → v.status = validatorActive →
    currentEpoch c.state = .ok epoch →
    epoch.toNat + (getSlashParams c.state).jailEpochs.toNat < 2 ^ 64 →
    (∃ v', getValidator id s' = .ok v' ∧ v'.status ≠ validatorActive ∧ v'.votingPower = 0) ∧
    ∀ calls k snap, epoch.toNat < k.toNat →
      k.toNat < epoch.toNat + (getSlashParams c.state).jailEpochs.toNat →
      getSnapshot k (runCalls calls ⟨c.height, s'⟩).state = .ok (some snap) →
      ∀ w ∈ snap.validators, w.consensusID ≠ id

/-- The slash is not zero, and no stored snapshot of the term has the accused. -/
def TakesEffect (ev : Evidence) (s : InMemoryState) : Prop :=
  ∀ e v epoch, ev = .doubleSign e → e.validate = .ok () → ¬ Processed ev.evidenceHash s →
    getValidator e.voteA.validator s = .ok v → v.status = validatorActive →
    currentEpoch s = .ok epoch → epoch.toNat + (getSlashParams s).jailEpochs.toNat < 2 ^ 64 →
    (∀ amount, slashAmount (slashPercent s e) v.bondedStake = .ok amount → amount.val ≠ 0) ∧
    ∀ amount newStake total newTotal, Condemned s e v v amount newStake total newTotal epoch →
      Unlisted v.consensusID epoch (epoch + (getSlashParams s).jailEpochs) s

theorem unlisted_afterEvidence (ev : Evidence) (height : UInt64) :
    Unlisted id start term (afterEvidence ev height s) ↔ Unlisted id start term s := by
  have hsnap (k : UInt64) := afterEvidence_keys ev height s (snapshotKey k)
    (not_startsWith_append (by decide) _)
  exact ⟨fun h => h.congr fun k => (hsnap k).symm, fun h => h.congr hsnap⟩

theorem Condemned.serving {v : Validator} {amount newStake total newTotal : Amount}
    (h : Condemned s e v v amount newStake total newTotal epoch)
    (hfiled : Filed s) (hst : v.status = validatorActive) (height : UInt64)
    (hunlisted : Unlisted v.consensusID epoch (epoch + (getSlashParams s).jailEpochs) s) :
    Serving v.consensusID epoch (epoch + (getSlashParams s).jailEpochs)
      (afterEvidence (.doubleSign e) height s) := by
  refine ⟨(afterEvidence_records (L := AnyChange) (fun _ _ _ => trivial) _ height s hfiled).1,
    fun _ w _ _ hw => ?_, (unlisted_afterEvidence _ height).2 hunlisted⟩
  cases (h.getValidator_afterEvidence height).symm.trans hw
  unfold Validator.penalized
  rw [if_pos hst]
  exact ⟨rfl, rfl⟩

theorem jailedForTerm_of_takesEffect (hfiled : Filed c.state)
    (h : TakesEffect ev c.state) : JailedForTerm ev height c := by
  intro id s' v epoch hrun hv hst hcur hrange
  have hafter : afterEvidence ev height c.state = s' := by unfold afterEvidence; rw [hrun]; rfl
  obtain ⟨e, val, s1, rfl, hvalid, hfresh, hval, rfl, hslash, -⟩ := processEvidence_eq_ok.1 hrun
  -- the record of the accused is the one that is returned
  have hid := hfiled _ _ hval
  rw [hid] at hv
  cases hval.symm.trans hv
  obtain ⟨hcost, hunlisted⟩ := h e v epoch rfl hvalid (by simp [Processed, hfresh]) hval hst hcur
    hrange
  rcases applySlash_eq_ok.1 hslash with ⟨w, amount, hw, -, hamount, hzero, -⟩ |
    ⟨w, amount, newStake, total, newTotal, epoch', hpen, -⟩
  · rw [hid] at hw
    cases hval.symm.trans hw
    exact absurd hzero (hcost amount hamount)
  obtain rfl : v = w := by
    have := hpen.found
    rw [hid] at this
    cases hval.symm.trans this
    rfl
  cases hcur.symm.trans (hpen.epoch_eq hst)
  have hcond : Condemned c.state e v v amount newStake total newTotal epoch :=
    ⟨hvalid, hfresh, hval, hpen⟩
  have hserving := hcond.serving hfiled hst height (hunlisted _ _ _ _ hcond)
  rw [hafter] at hserving
  refine ⟨⟨_, hafter ▸ hcond.getValidator_afterEvidence height,
    v.penalized_status_ne_active _ _, v.penalized_votingPower _ _⟩, ?_⟩
  intro calls k snap hk hk' hsnap
  refine (runCalls_serving calls hserving).unlisted k hk ?_ snap hsnap
  rw [UInt64.lt_iff_toNat_lt, toNat_add_of_lt hrange]
  exact hk'

theorem takesEffect_of_jailedForTerm (hfiled : Filed c.state)
    (h : JailedForTerm ev height c) : TakesEffect ev c.state := by
  rintro e v epoch rfl hvalid hfresh hv hst hcur hrange
  have hid := hfiled _ _ hv
  have hself : getValidator v.consensusID c.state = .ok v := by rw [hid]; exact hv
  have hfresh' : (c.state.getBytes (evidenceProcessedKey
      (Evidence.doubleSign e).evidenceHash)).isSome = false := by simpa [Processed] using hfresh
  refine ⟨fun amount hamount hzero => ?_, fun amount newStake total newTotal hcond => ?_⟩
  · -- nothing is slashed: the evidence is marked and the record stays
    have hslash : applySlash v.consensusID (slashPercent c.state e)
        (getSlashParams c.state).jailEpochs c.state = .ok () c.state :=
      applySlash_eq_ok.2 (.inl ⟨v, amount, hself, by rw [hst]; decide, hamount, hzero, rfl⟩)
    have hrun := (@processEvidence_eq_ok _ c.state _ _ height _).2
      ⟨e, v, _, rfl, hvalid, hfresh', hv, rfl, hslash, rfl⟩
    obtain ⟨⟨v', hv', hne, -⟩, -⟩ := h _ _ v epoch hrun hself hst hcur hrange
    rw [getValidator_setBytes_of_ne (ne_validatorKey_evidence _ _), hself] at hv'
    cases hv'
    exact hne hst
  · have hafter := hcond.afterEvidence_eq height
    have hrun : processEvidence (.doubleSign e) height c.state =
        .ok v.consensusID (afterEvidence (.doubleSign e) height c.state) := by
      rw [hafter]
      exact processEvidence_eq_ok.2 ⟨e, v, _, rfl, hvalid, hfresh', hv, rfl, applySlash_eq_ok.2
        (.inr ⟨v, amount, newStake, total, newTotal, epoch, hcond.penalty, rfl⟩), rfl⟩
    obtain ⟨-, hlater⟩ := h _ _ v epoch hrun hself hst hcur hrange
    rw [← unlisted_afterEvidence (.doubleSign e) height]
    intro k hk hk' snap hget
    refine hlater [] k snap hk ?_ hget
    rwa [UInt64.lt_iff_toNat_lt, toNat_add_of_lt hrange] at hk'

theorem runCalls_filed (calls : List Call) (h : Filed c.state) :
    Filed (runCalls calls c).state := by
  -- a term that ends with epoch 0 asks for nothing else
  have hserving : Serving zeroAddress 0 0 c.state :=
    ⟨h, fun _ _ _ hlt => absurd hlt UInt64.not_lt_zero,
      fun _ _ hlt => absurd hlt UInt64.not_lt_zero⟩
  exact (runCalls_serving calls hserving).filed

/-- Accepted evidence jails for the term exactly when the slash takes effect. -/
theorem offender_jailed_iff {c : Chain} (hfiled : Filed c.state) (calls : List Call)
    (ev : Evidence) (height : UInt64) :
    JailedForTerm ev height (runCalls calls c) ↔ TakesEffect ev (runCalls calls c).state :=
  ⟨takesEffect_of_jailedForTerm (runCalls_filed calls hfiled),
    jailedForTerm_of_takesEffect (runCalls_filed calls hfiled)⟩

end

/-! ### Samples -/

theorem getValidator_singleRegistry [Crypto] {v w : Validator} {id : Address}
    (h : getValidator id (singleRegistry v) = .ok w) : id = v.consensusID ∧ w = v := by
  unfold singleRegistry at h
  by_cases hid : v.consensusID = id
  · subst hid
    cases (getValidator_setBytes_self _ _ _).symm.trans h
    exact ⟨rfl, rfl⟩
  · rw [getValidator_setBytes_of_ne fun hk => hid (validatorKey_injective hk),
      getValidator_setBytes_of_ne (validatorKey_ne_bySeq _ _).symm,
      getValidator_setBytes_of_ne (validatorKey_ne_count _).symm] at h
    cases h

open Sample

theorem filed_singleRegistry (v : Validator) : Filed (singleRegistry v) := by
  intro id w hw
  obtain ⟨rfl, rfl⟩ := getValidator_singleRegistry hw
  rfl

theorem filed_sampleBonded : Filed sampleBonded :=
  (Records.setBytes (L := AnyChange) (fun id => (validatorKey_ne_totalBonded id).symm) _ _
    (filed_singleRegistry sampleOffender)).1

theorem sameOutside_sampleBonded : SameOutside registryTexts newInMemoryState sampleBonded := by
  have hcount : StartsWith registryTexts keyValidatorCount :=
    ⟨str "validator/", by decide, by decide⟩
  have hseq : StartsWith registryTexts (validatorBySeqKey 1) :=
    ⟨str "validator/", by decide, by decide⟩
  exact IsTrans.trans _ _ _ (sameOutside_setBytes hcount _ _) <|
    IsTrans.trans _ _ _ (sameOutside_setBytes hseq _ _) <|
    IsTrans.trans _ _ _ (sameOutside_validatorKey _ _ _)
      (sameOutside_setBytes startsWith_keyTotalBonded _ _)

theorem takesEffect_sampleBonded (signature : Bytes) :
    TakesEffect (.doubleSign (sampleDoubleSign signature)) sampleBonded := by
  rintro e v epoch he - - hv - - -
  cases he
  have hoffender : getValidator zeroAddress sampleBonded = .ok sampleOffender := by
    unfold sampleBonded
    rw [getValidator_setBytes_of_ne (validatorKey_ne_totalBonded _).symm]
    exact getValidator_setBytes_self _ _ _
  cases hoffender.symm.trans hv
  refine ⟨fun amount hamount => ?_, fun _ _ _ _ _ k _ _ snap hget => ?_⟩
  · have hpercent : slashPercent sampleBonded (sampleDoubleSign signature) = 1000 := by
      have : slashPercent sampleBonded (sampleDoubleSign []) = 1000 := by decide +kernel
      exact this
    have hval : slashAmount 1000 sampleOffender.bondedStake = .ok (.ofUInt64 100000) := by
      decide +kernel
    cases hval.symm.trans hamount
    decide
  · have hnone := sameOutside_sampleBonded (snapshotKey k) (not_startsWith_append (by decide) _)
    unfold getSnapshot at hget
    cases hget

theorem offender_jailed_iff_sampleOffender :
    let ev := Evidence.doubleSign (sampleDoubleSign (List.replicate 64 0))
    Filed sampleBonded ∧
      succeedsWith (fun id _ => decide (id = zeroAddress)) (processEvidence ev 1 sampleBonded) ∧
      JailedForTerm ev 1 ⟨0, sampleBonded⟩ :=
  ⟨filed_sampleBonded, by decide +kernel,
    (offender_jailed_iff (c := ⟨0, sampleBonded⟩) filed_sampleBonded [] _ 1).2
      (takesEffect_sampleBonded _)⟩

theorem unslashed_offender_active :
    ¬ ∀ (_ : Crypto) (ev : Evidence) (height : UInt64) (c : Chain), JailedForTerm ev height c := by
  intro h
  let ev := Evidence.doubleSign (sampleDoubleSign (List.replicate 64 0))
  obtain ⟨id, s', hrun, hs'⟩ := exists_of_succeedsWith (show succeedsWith (fun id s' =>
      decide (id = zeroAddress ∧ getValidator zeroAddress s' = .ok sampleValidator))
    (processEvidence ev 1 (singleRegistry sampleValidator)) = true by decide +kernel)
  obtain ⟨rfl, hafter⟩ := of_decide_eq_true hs'
  have hbefore : getValidator zeroAddress (singleRegistry sampleValidator) = .ok sampleValidator :=
    getValidator_setBytes_self _ _ _
  obtain ⟨⟨v', hv', hne, -⟩, -⟩ := h sampleCrypto ev 1 ⟨0, singleRegistry sampleValidator⟩
    zeroAddress
    s' sampleValidator 0 hrun hbefore rfl (by decide +kernel) (by decide +kernel)
  cases hafter.symm.trans hv'
  exact hne rfl

end Dsn
