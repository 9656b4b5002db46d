import Dsn.Staking.Lifecycle

/-!
# The indexes of the registry

Sequence, public key and operator indexes agree with the records along every run.
-/

namespace Dsn

open Go InMemoryState

variable {i j n : ℕ} {s : InMemoryState}

section

variable [Crypto] {s s' t : InMemoryState} {id : Address} {v v' : Validator} {order : List Address}

/-! ### One index -/

section

variable {K : Type} {keyOf : K → Bytes} {attr : Validator → K}

def PointsAt (keyOf : K → Bytes) (attr : Validator → K) (s : InMemoryState) : Prop :=
  ∀ k b, s.getBytes (keyOf k) = some b ↔ ∃ id v, b = id.bytes ∧ getValidator id s = .ok v ∧
    v.status ≠ validatorRemoved ∧ attr v = k

variable (h : PointsAt keyOf attr s)
include h

theorem PointsAt.unique {a b : Address} {w : Validator} (hv : getValidator a s = .ok v)
    (hw : getValidator b s = .ok w) (hvst : v.status ≠ validatorRemoved)
    (hwst : w.status ≠ validatorRemoved) (heq : attr v = attr w) : a = b := by
  have ha := (h (attr v) a.bytes).2 ⟨a, v, rfl, hv, hvst, rfl⟩
  have hb := (h (attr v) b.bytes).2 ⟨b, w, rfl, hw, hwst, heq.symm⟩
  exact FixedBytes.ext (Option.some.inj (ha.symm.trans hb))

theorem PointsAt.rewrite (hv : getValidator id s = .ok v)
    (hkeys : ∀ k, s'.getBytes (keyOf k) = s.getBytes (keyOf k))
    (hrec : ∀ a, getValidator a s' = if a = id then .ok v' else getValidator a s)
    (hst : v'.status = validatorRemoved ↔ v.status = validatorRemoved) (hattr : attr v' = attr v) :
    PointsAt keyOf attr s' := by
  intro k b
  rw [hkeys, h k b]
  constructor
  · rintro ⟨a, w, rfl, hw, hwst, rfl⟩
    by_cases ha : a = id
    · subst ha
      cases hv.symm.trans hw
      exact ⟨a, v', rfl, by rw [hrec, if_pos rfl], fun h' => hwst (hst.1 h'), hattr⟩
    · exact ⟨a, w, rfl, by rw [hrec, if_neg ha, hw], hwst, rfl⟩
  · rintro ⟨a, w, rfl, hw, hwst, rfl⟩
    rw [hrec] at hw
    split_ifs at hw with ha
    · subst ha
      cases hw
      exact ⟨a, v, rfl, hv, fun h' => hwst (hst.2 h'), hattr.symm⟩
    · exact ⟨a, w, rfl, hw, hwst, rfl⟩

theorem PointsAt.retire [DecidableEq K] (hv : getValidator id s = .ok v)
    (hne : v.status ≠ validatorRemoved)
    (hkeys : ∀ k, s'.getBytes (keyOf k) = if attr v = k then none else s.getBytes (keyOf k))
    (hrec : ∀ a, getValidator a s' = if a = id then .ok v' else getValidator a s)
    (hst : v'.status = validatorRemoved) : PointsAt keyOf attr s' := by
  intro k b
  rw [hkeys]
  constructor
  · intro hk
    split_ifs at hk with hattr
    obtain ⟨a, w, rfl, hw, hwst, rfl⟩ := (h k b).1 hk
    have ha : a ≠ id := by
      rintro rfl
      cases hv.symm.trans hw
      exact hattr rfl
    exact ⟨a, w, rfl, by rw [hrec, if_neg ha, hw], hwst, rfl⟩
  · rintro ⟨a, w, rfl, hw, hwst, rfl⟩
    rw [hrec] at hw
    split_ifs at hw with ha
    · cases hw
      exact absurd hst hwst
    · -- nobody else has the entry that is gone
      rw [if_neg fun heq => ha (h.unique hw hv hwst hne heq.symm)]
      exact (h _ _).2 ⟨a, w, rfl, hw, hwst, rfl⟩

theorem PointsAt.enrol [DecidableEq K] (hfresh : s.getBytes (validatorKey id) = none)
    (hnone : s.getBytes (keyOf (attr v)) = none) (hkeys : ∀ k, s'.getBytes (keyOf k) =
      if attr v = k then some id.bytes else s.getBytes (keyOf k))
    (hrec : ∀ a, getValidator a s' = if a = id then .ok v else getValidator a s)
    (hst : v.status ≠ validatorRemoved) : PointsAt keyOf attr s' := by
  intro k b
  rw [hkeys]
  constructor
  · intro hk
    split_ifs at hk with hattr
    · cases hk
      exact ⟨id, v, rfl, by rw [hrec, if_pos rfl], hst, hattr⟩
    · obtain ⟨a, w, rfl, hw, hwst, rfl⟩ := (h k b).1 hk
      have ha : a ≠ id := by
        rintro rfl
        exact getValidator_ne_ok_of_none hfresh hw
      exact ⟨a, w, rfl, by rw [hrec, if_neg ha, hw], hwst, rfl⟩
  · rintro ⟨a, w, rfl, hw, hwst, rfl⟩
    rw [hrec] at hw
    split_ifs at hw with ha
    · subst ha
      cases hw
      rw [if_pos rfl]
    · have hentry := (h (attr w) a.bytes).2 ⟨a, w, rfl, hw, hwst, rfl⟩
      rw [if_neg, hentry]
      intro heq
      rw [heq, hentry] at hnone
      cases hnone

end

/-! ### All of them -/

structure Indexed (order : List Address) (s : InMemoryState) : Prop where
  kept : Kept s
  nodup : order.Nodup
  registered : ∀ id ∈ order, ∃ v, getValidator id s = .ok v
  unregistered : ∀ id, id ∉ order → s.getBytes (validatorKey id) = none
  count : validatorCount s = .ok (UInt64.ofNat order.length)
  bySeq : order.length < 2 ^ 64 → ∀ seq, s.getBytes (validatorBySeqKey seq) =
    if seq = 0 then none else order[seq.toNat - 1]?.map FixedBytes.bytes
  pubkey : PointsAt validatorPubkeyKey Validator.publicKey s
  operator : PointsAt validatorOperatorKey Validator.operatorAddress s

theorem EmptyRegistry.indexed (h : EmptyRegistry s) : Indexed [] s where
  kept := h.kept
  nodup := List.nodup_nil
  registered := nofun
  unregistered id _ := h.records _ (validatorKey_starts id)
  count := by
    unfold validatorCount readCounter
    rw [h.records _ keyValidatorCount_starts]
    rfl
  bySeq _ seq := by
    rw [h.records _ (validatorBySeqKey_starts seq)]
    split_ifs <;> rfl
  pubkey k b := by
    rw [h.records _ (validatorPubkeyKey_starts k)]
    refine ⟨nofun, ?_⟩
    rintro ⟨id, v, -, hv, -⟩
    exact absurd hv (getValidator_ne_ok_of_none (h.records _ (validatorKey_starts id)))
  operator k b := by
    rw [h.records _ (validatorOperatorKey_starts k)]
    refine ⟨nofun, ?_⟩
    rintro ⟨id, v, -, hv, -⟩
    exact absurd hv (getValidator_ne_ok_of_none (h.records _ (validatorKey_starts id)))

theorem PointsAt.of_same {K : Type} {keyOf : K → Bytes} {attr : Validator → K}
    (h : PointsAt keyOf attr s) (hsame : SameRegistry s s')
    (hkey : ∀ k, str "validator/" <+: keyOf k) : PointsAt keyOf attr s' := by
  intro k b
  rw [hsame _ (hkey k), h k b]
  simp only [hsame.getValidator]

theorem Indexed.of_same (h : Indexed order s) (hsame : SameRegistry s s') : Indexed order s' where
  kept := RegistryStep.kept h.kept (.amend (.idle hsame))
  nodup := h.nodup
  registered id hid := by
    rw [hsame.getValidator]
    exact h.registered id hid
  unregistered id hid := (hsame _ (validatorKey_starts id)).trans (h.unregistered id hid)
  count := by
    have hcount := h.count
    unfold validatorCount readCounter at hcount ⊢
    rwa [hsame _ keyValidatorCount_starts]
  bySeq hlen seq := (hsame _ (validatorBySeqKey_starts seq)).trans (h.bySeq hlen seq)
  pubkey := h.pubkey.of_same hsame validatorPubkeyKey_starts
  operator := h.operator.of_same hsame validatorOperatorKey_starts

/-! ### One change -/

omit [Crypto] in
theorem Rewrites.removed_iff (h : Rewrites v v') :
    v'.status = validatorRemoved ↔ v.status = validatorRemoved := by
  rcases h.status with heq | ⟨hedge, hne⟩
  · rw [heq]
  · refine ⟨fun h' => absurd h' hne, fun h' => ?_⟩
    rw [h'] at hedge
    cases hedge

section

variable (h : Indexed order s)
include h

theorem Indexed.mem_iff : id ∈ order ↔ ∃ v, getValidator id s = .ok v := by
  refine ⟨h.registered id, fun ⟨v, hv⟩ => ?_⟩
  by_contra hid
  exact getValidator_ne_ok_of_none (h.unregistered id hid) hv

section

variable (found : getValidator id s = .ok v)
include found

theorem Indexed.replace (hkept : Kept s')
    (hrec : ∀ a, getValidator a s' = if a = id then .ok v' else getValidator a s)
    (hkeys : ∀ a, a ≠ id → s'.getBytes (validatorKey a) = s.getBytes (validatorKey a))
    (hcount : s'.getBytes keyValidatorCount = s.getBytes keyValidatorCount)
    (hseq : ∀ seq, s'.getBytes (validatorBySeqKey seq) = s.getBytes (validatorBySeqKey seq))
    (hpubkey : PointsAt validatorPubkeyKey Validator.publicKey s')
    (hoperator : PointsAt validatorOperatorKey Validator.operatorAddress s') :
    Indexed order s' where
  kept := hkept
  nodup := h.nodup
  registered a ha := by
    rw [hrec]
    split_ifs
    · exact ⟨v', rfl⟩
    · exact h.registered a ha
  unregistered a ha := by
    have hne : a ≠ id := by
      rintro rfl
      exact ha (h.mem_iff.2 ⟨v, found⟩)
    exact (hkeys a hne).trans (h.unregistered a ha)
  count := (validatorCount_congr hcount).trans h.count
  bySeq hlen seq := (hseq seq).trans (h.bySeq hlen seq)
  pubkey := hpubkey
  operator := hoperator

theorem Indexed.rewrite (change : Rewrites v v') :
    Indexed order (s.setBytes (validatorKey v.consensusID) v'.encode) := by
  have hkept := RegistryStep.kept h.kept (.amend (.rewrite id v v' found change (.refl _)))
  obtain rfl := h.kept.filed id v found
  have hkey {key : Bytes} (hne : validatorKey v.consensusID ≠ key) :
      (s.setBytes (validatorKey v.consensusID) v'.encode).getBytes key = s.getBytes key :=
    getBytes_setBytes_of_ne hne _ s
  have hrec (a : Address) := getValidator_setRecord a v' v.consensusID s
  refine h.replace found hkept hrec
    (fun a ha => hkey fun heq => ha (validatorKey_injective heq).symm)
    (hkey (validatorKey_ne_count _)) (fun seq => hkey (validatorKey_ne_bySeq _ seq)) ?_ ?_
  · exact h.pubkey.rewrite found (fun k => hkey (validatorKey_ne_pubkey _ k)) hrec
      change.removed_iff change.publicKey
  · exact h.operator.rewrite found (fun k => hkey (validatorKey_ne_operator _ k)) hrec
      change.removed_iff change.operatorAddress

theorem Indexed.retire (unstaking : v.status = validatorUnstaking) :
    Indexed order (retired s v) := by
  have hkept := RegistryStep.kept h.kept (.amend (.retire id v found unstaking (.refl _)))
  obtain rfl := h.kept.filed id v found
  have hrec (a : Address) := getValidator_retired a s v
  have hne : v.status ≠ validatorRemoved := by rw [unstaking]; decide
  have hkey (key : Bytes) (hid : validatorKey v.consensusID ≠ key) :
      (retired s v).getBytes key = if validatorOperatorKey v.operatorAddress = key then none
        else if validatorPubkeyKey v.publicKey = key then none else s.getBytes key := by
    rw [retired, getBytes_setBytes_of_ne hid, getBytes_deleteBytes, getBytes_deleteBytes]
  have hother {key : Bytes} (hid : validatorKey v.consensusID ≠ key)
      (hpub : validatorPubkeyKey v.publicKey ≠ key)
      (hop : validatorOperatorKey v.operatorAddress ≠ key) :
      (retired s v).getBytes key = s.getBytes key := by
    rw [hkey key hid, if_neg hop, if_neg hpub]
  refine h.replace found hkept hrec (fun a ha => ?_) ?_ (fun seq => ?_) ?_ ?_
  · exact hother (fun heq => ha (validatorKey_injective heq).symm) (validatorKey_ne_pubkey a _).symm
      (validatorKey_ne_operator a _).symm
  · exact hother (validatorKey_ne_count _) (validatorPubkeyKey_ne_count _)
      (validatorOperatorKey_ne_count _)
  · exact hother (validatorKey_ne_bySeq _ _) (validatorPubkeyKey_ne_bySeq _ _)
      (validatorOperatorKey_ne_bySeq _ _)
  · refine h.pubkey.retire found hne (fun k => ?_) hrec rfl
    rw [hkey _ (validatorKey_ne_pubkey _ k), if_neg (validatorPubkeyKey_ne_operator k _).symm]
    simp only [validatorPubkeyKey_injective.eq_iff]
  · refine h.operator.retire found hne (fun k => ?_) hrec rfl
    rw [hkey _ (validatorKey_ne_operator _ k), if_neg (validatorPubkeyKey_ne_operator _ k)]
    simp only [validatorOperatorKey_injective.eq_iff]

end

theorem Indexed.amend (hstep : RegistryAmend s s') : Indexed order s' := by
  cases hstep with
  | idle hsame => exact h.of_same hsame
  | rewrite a v v' found change hsame => exact (h.rewrite found change).of_same hsame
  | retire a v found unstaking hsame => exact (h.retire found unstaking).of_same hsame

theorem Indexed.amends (hsteps : RegistryAmends s s') : Indexed order s' := by
  induction hsteps with
  | refl => exact h
  | tail _ hstep ih => exact ih.amend hstep

end

omit [Crypto] in
theorem bySeq_append (hlt : order.length + 1 < 2 ^ 64) (id : Address) (seq : UInt64) :
    (if UInt64.ofNat order.length + 1 = seq then some id.bytes
      else if seq = 0 then none else order[seq.toNat - 1]?.map FixedBytes.bytes) =
      if seq = 0 then none else (order ++ [id])[seq.toNat - 1]?.map FixedBytes.bytes := by
  have hnat : (UInt64.ofNat order.length + 1).toNat = order.length + 1 := by
    have hsize : order.length < UInt64.size := Nat.lt_of_succ_lt hlt
    rw [UInt64.toNat_add, UInt64.toNat_ofNat_of_lt' hsize]
    exact Nat.mod_eq_of_lt hlt
  by_cases hseq : UInt64.ofNat order.length + 1 = seq
  · subst hseq
    have hne : UInt64.ofNat order.length + 1 ≠ 0 := by
      intro h0
      rw [h0] at hnat
      exact absurd hnat (by simp)
    rw [if_pos rfl, if_neg hne, hnat, Nat.add_sub_cancel, List.getElem?_concat_length]
    rfl
  · split_ifs with hzero
    · rfl
    · have hne : seq.toNat ≠ order.length + 1 :=
        fun h => hseq (UInt64.toNat_inj.1 (hnat.trans h.symm))
      have hpos : seq.toNat ≠ 0 := fun h => hzero (UInt64.toNat_inj.1 h)
      rcases Nat.lt_or_gt_of_ne (show seq.toNat - 1 ≠ order.length by omega) with hlt' | hgt
      · rw [List.getElem?_append_left hlt']
      · rw [List.getElem?_eq_none (by omega), List.getElem?_eq_none (by simp; omega)]

theorem getBytes_enrolled (key : Bytes) (s : InMemoryState) (v : Validator) (count : UInt64) :
    (enrolled s v count).getBytes key =
      if keyValidatorCount = key then some (putUint64 (count + 1))
      else if validatorBySeqKey (count + 1) = key then some v.consensusID.bytes
      else if validatorOperatorKey v.operatorAddress = key then some v.consensusID.bytes
      else if validatorPubkeyKey v.publicKey = key then some v.consensusID.bytes
      else if validatorKey v.consensusID = key then some v.encode
      else s.getBytes key := by
  simp only [enrolled, getBytes_setBytes]

theorem Indexed.enrol {count : UInt64} (h : Indexed order s) (henrol : Enrolls s v count) :
    Indexed (order ++ [v.consensusID]) (enrolled s v count) := by
  have hkept := RegistryStep.kept h.kept (.enrol v count henrol (.refl _))
  have hrec (a : Address) := getValidator_enrolled a s v count
  have hst : v.status ≠ validatorRemoved := by rw [henrol.pending]; decide
  have hnew : v.consensusID ∉ order := by
    intro hmem
    obtain ⟨w, hw⟩ := h.registered _ hmem
    exact getValidator_ne_ok_of_none henrol.fresh hw
  have hcount : count = UInt64.ofNat order.length :=
    Except.ok.inj (henrol.count_eq.symm.trans h.count)
  refine ⟨hkept, ?_, fun a ha => ?_, fun a ha => ?_, ?_, fun hlen seq => ?_, ?_, ?_⟩
  · exact List.nodup_append.2 ⟨h.nodup, List.nodup_singleton _, fun a ha b hb hab =>
      hnew (List.mem_singleton.1 hb ▸ hab ▸ ha)⟩
  · rw [hrec]
    split_ifs with hid
    · exact ⟨v, rfl⟩
    · exact h.registered a (by simpa [hid] using ha)
  · have hid : validatorKey v.consensusID ≠ validatorKey a := by
      intro heq
      exact ha (by simp [validatorKey_injective heq])
    rw [getBytes_enrolled, if_neg (validatorKey_ne_count a).symm,
      if_neg (validatorKey_ne_bySeq a _).symm, if_neg (validatorKey_ne_operator a _).symm,
      if_neg (validatorKey_ne_pubkey a _).symm, if_neg hid]
    exact h.unregistered a fun hmem => ha (List.mem_append_left _ hmem)
  · unfold validatorCount readCounter
    rw [getBytes_enrolled, if_pos rfl, hcount, List.length_append]
    exact (getUint64_putUint64 _).trans (by simp)
  · rw [List.length_append] at hlen
    rw [getBytes_enrolled, if_neg (validatorOperatorKey_ne_bySeq _ seq),
      if_neg (validatorPubkeyKey_ne_bySeq _ seq), if_neg (validatorKey_ne_bySeq _ seq),
      h.bySeq (by omega), hcount]
    simp only [validatorBySeqKey_injective.eq_iff]
    exact bySeq_append hlen v.consensusID seq
  · refine h.pubkey.enrol henrol.fresh henrol.freshPubkey (fun k => ?_) hrec hst
    rw [getBytes_enrolled, if_neg (validatorPubkeyKey_ne_count k).symm,
      if_neg (validatorPubkeyKey_ne_bySeq k _).symm,
      if_neg (validatorPubkeyKey_ne_operator k _).symm, if_neg (validatorKey_ne_pubkey _ k)]
    simp only [validatorPubkeyKey_injective.eq_iff]
  · refine h.operator.enrol henrol.fresh henrol.freshOperator (fun k => ?_) hrec hst
    rw [getBytes_enrolled, if_neg (validatorOperatorKey_ne_count k).symm,
      if_neg (validatorOperatorKey_ne_bySeq k _).symm, if_neg (validatorPubkeyKey_ne_operator _ k),
      if_neg (validatorKey_ne_operator _ k)]
    simp only [validatorOperatorKey_injective.eq_iff]

/-! ### Runs -/

theorem Indexed.step {step : StakingStep} (h : Indexed order s) (hstep : step.run s = .ok () s') :
    Indexed (order ++ [step].filterMap StakingStep.registers) s' := by
  cases hreg : step.registers with
  | none =>
    have hamends := StakingStep.registryAmends hreg s
    rw [hstep] at hamends
    have hnext : Indexed order s' := h.amends hamends
    simpa [hreg] using hnext
  | some id =>
    obtain ⟨pubKey, operator, stake, commission, epoch, rfl, rfl⟩ :=
      StakingStep.registers_eq_some hreg
    obtain ⟨a, _, hrun, hend⟩ := bind_eq_ok.1 hstep
    cases hend
    rcases registerValidator_enrols pubKey operator stake commission epoch s with
      ⟨e, he⟩ | ⟨v, count, henrol, rfl, hsame⟩
    · cases he.symm.trans hrun
    · rw [hrun] at hsame
      have hnext := (h.enrol henrol).of_same hsame
      rwa [henrol.derived] at hnext

theorem Indexed.any_step (h : Indexed order s) (step : StakingStep) : ∃ added,
    Indexed (order ++ added) (finalState (step.run s)) ∧
      added.length ≤ ([step].filterMap StakingStep.registers).length := by
  cases hreg : step.registers with
  | none =>
    refine ⟨[], ?_, Nat.zero_le _⟩
    rw [List.append_nil]
    exact h.amends (StakingStep.registryAmends hreg s)
  | some id =>
    obtain ⟨pubKey, operator, stake, commission, epoch, rfl, rfl⟩ :=
      StakingStep.registers_eq_some hreg
    rw [StakingStep.finalState_register]
    rcases registerValidator_enrols pubKey operator stake commission epoch s with
      ⟨e, he⟩ | ⟨v, count, henrol, -, hsame⟩
    · refine ⟨[], ?_, Nat.zero_le _⟩
      rw [he, List.append_nil]
      exact h
    · exact ⟨[v.consensusID], (h.enrol henrol).of_same hsame, le_rfl⟩

theorem EmptyRegistry.indexed_run (h0 : EmptyRegistry s) {steps : List StakingStep}
    (h : steps.forM StakingStep.run s = .ok () s') :
    Indexed (steps.filterMap StakingStep.registers) s' := by
  induction steps using List.reverseRecOn generalizing s' with
  | nil =>
    cases h
    exact h0.indexed
  | append_singleton steps step ih =>
    obtain ⟨t, hrun, hstep⟩ := forM_append_eq_ok.1 h
    rw [List.filterMap_append]
    exact (ih hrun).step (forM_singleton_eq_ok.1 hstep)

/-! ### The active set -/

def StrictlyBefore (a b : Validator) : Prop :=
  b.votingPower.toNat < a.votingPower.toNat ∨
    b.votingPower = a.votingPower ∧ compare a.consensusID b.consensusID = .lt

section

omit [Crypto]

theorem validatorLess_eq_false {a b : Validator} : validatorLess b a = false ↔
    b.votingPower.toNat < a.votingPower.toNat ∨
      b.votingPower = a.votingPower ∧ (compare a.consensusID b.consensusID).isLE := by
  unfold validatorLess
  split_ifs with h
  · have hne : b.votingPower.toNat ≠ a.votingPower.toNat := fun heq => h (UInt64.toNat_inj.1 heq)
    rw [decide_eq_false_iff_not, gt_iff_lt, UInt64.lt_iff_toNat_lt]
    simp only [h, false_and, or_false]
    omega
  · rw [not_not] at h
    rw [isLT_eq_false_iff]
    simp [h]

theorem validatorLess_total (a b : Validator) :
    validatorLess b a = false ∨ validatorLess a b = false := by
  rw [validatorLess_eq_false, validatorLess_eq_false]
  rcases lt_trichotomy b.votingPower.toNat a.votingPower.toNat with h | h | h
  · exact .inl (.inl h)
  · have heq := UInt64.toNat_inj.1 h
    rcases isLE_total a.consensusID b.consensusID with hle | hle
    · exact .inl (.inr ⟨heq, hle⟩)
    · exact .inr (.inr ⟨heq.symm, hle⟩)
  · exact .inr (.inl h)

theorem validatorLess_trans (a b c : Validator) (hab : validatorLess b a = false)
    (hbc : validatorLess c b = false) : validatorLess c a = false := by
  rw [validatorLess_eq_false] at hab hbc ⊢
  rcases hab with hab | ⟨hab, hle⟩ <;> rcases hbc with hbc | ⟨hbc, hle'⟩
  · exact .inl (hbc.trans hab)
  · exact .inl (hbc ▸ hab)
  · exact .inl (hab ▸ hbc)
  · exact .inr ⟨hbc.trans hab, Std.TransCmp.isLE_trans hle hle'⟩

theorem pairwise_sortSlice_validatorLess {l : List Validator}
    (h : l.Pairwise fun a b => a.consensusID ≠ b.consensusID) :
    (sortSlice validatorLess l).Pairwise StrictlyBefore := by
  have hsorted := pairwise_sortSlice_of validatorLess_total validatorLess_trans l
  have hdistinct : (sortSlice validatorLess l).Pairwise fun a b => a.consensusID ≠ b.consensusID :=
    ((sortSlice_perm _ _).pairwise_iff fun h => h.symm).2 h
  refine (hsorted.and hdistinct).imp ?_
  rintro a b ⟨hless, hne⟩
  rcases validatorLess_eq_false.1 hless with hlt | ⟨heq, hle⟩
  · exact .inl hlt
  · refine .inr ⟨heq, ?_⟩
    have hneq : compare a.consensusID b.consensusID ≠ .eq :=
      fun hc => hne (Std.LawfulEqOrd.eq_of_compare hc)
    cases hc : compare a.consensusID b.consensusID with
    | lt => rfl
    | eq => exact absurd hc hneq
    | gt => rw [hc] at hle; cases hle

end

def activeRecord (s : InMemoryState) (id : Address) : Option Validator :=
  match getValidator id s with
  | .ok v => if v.status = validatorActive then some v else none
  | .error _ => none

theorem activeRecord_eq_some : activeRecord s id = some v ↔
    getValidator id s = .ok v ∧ v.status = validatorActive := by
  unfold activeRecord
  cases getValidator id s with
  | error e => simp
  | ok w =>
    simp only [Except.ok.injEq]
    split_ifs with h
    · simp only [Option.some.injEq]
      exact ⟨fun heq => ⟨heq, heq ▸ h⟩, And.left⟩
    · simp only [false_iff]
      rintro ⟨rfl, hst⟩
      exact h hst

theorem Indexed.sequence_eq (h : Indexed order s) (hlen : order.length < 2 ^ 64) :
    (sequence (UInt64.ofNat order.length)).map (getValidatorIDBySeq · s) = order.map .ok := by
  have hsize : (UInt64.ofNat order.length).toNat = order.length := UInt64.toNat_ofNat_of_lt' hlen
  unfold sequence
  rw [hsize]
  refine List.ext_getElem (by simp) fun i hi _ => ?_
  have hlt : i < order.length := by simpa using hi
  have hnat : (UInt64.ofNat (i + 1)).toNat = i + 1 := UInt64.toNat_ofNat_of_lt' (by
    show i + 1 < 2 ^ 64
    omega)
  have hne : UInt64.ofNat (i + 1) ≠ 0 := by
    intro h0
    rw [h0] at hnat
    exact absurd hnat (by simp)
  have hentry := h.bySeq hlen (UInt64.ofNat (i + 1))
  rw [if_neg hne, hnat, Nat.add_sub_cancel, List.getElem?_eq_getElem hlt] at hentry
  simp only [List.getElem_map, List.getElem_range]
  unfold getValidatorIDBySeq
  simp only [hentry, Option.map_some, FixedBytes.copy_bytes]

theorem Indexed.getActiveValidators_eq (h : Indexed order s) (hlen : order.length < 2 ^ 64) :
    getActiveValidators s = .ok (sortSlice validatorLess (order.filterMap (activeRecord s))) := by
  have hlist : (sequence (UInt64.ofNat order.length)).filterMap
      (fun seq => (getValidatorIDBySeq seq s).toOption.bind (activeRecord s)) =
        order.filterMap (activeRecord s) := by
    have hmap := congrArg (List.filterMap fun r : Except Error Address =>
      r.toOption.bind (activeRecord s)) (h.sequence_eq hlen)
    rw [List.filterMap_map, List.filterMap_map] at hmap
    exact hmap
  unfold getActiveValidators
  rw [h.count]
  refine congrArg (fun l => Except.ok (sortSlice validatorLess l)) (Eq.trans ?_ hlist)
  refine List.filterMap_congr fun seq _ => ?_
  unfold validatorAt activeRecord
  cases getValidatorIDBySeq seq s with
  | error e => rfl
  | ok id =>
    cases hv : getValidator id s with
    | error e => simp [Except.toOption, hv]
    | ok v => simp [Except.toOption, hv]

theorem Indexed.active (h : Indexed order s) (hlen : order.length < 2 ^ 64) : ∃ active,
    getActiveValidators s = .ok active ∧ active.Nodup ∧
      (∀ v, v ∈ active ↔ ∃ id, getValidator id s = .ok v ∧ v.status = validatorActive) ∧
      active.Pairwise StrictlyBefore := by
  have hids : (order.filterMap (activeRecord s)).Pairwise
      fun a b => a.consensusID ≠ b.consensusID := by
    refine List.pairwise_filterMap.2 (h.nodup.imp fun hne v hv w hw heq => hne ?_)
    rw [← h.kept.filed _ v (activeRecord_eq_some.1 hv).1,
      ← h.kept.filed _ w (activeRecord_eq_some.1 hw).1, heq]
  refine ⟨_, h.getActiveValidators_eq hlen, ?_, fun v => ?_, pairwise_sortSlice_validatorLess hids⟩
  · refine (sortSlice_perm _ _).nodup_iff.2 (hids.imp fun hne heq => hne ?_)
    rw [heq]
  · rw [(sortSlice_perm _ _).mem_iff, List.mem_filterMap]
    constructor
    · rintro ⟨id, -, hv⟩
      exact ⟨id, activeRecord_eq_some.1 hv⟩
    · rintro ⟨id, hv⟩
      exact ⟨id, h.mem_iff.2 ⟨v, hv.1⟩, activeRecord_eq_some.2 hv⟩

/-! ### The registry as a whole -/

/-- The indexes, the count and the active set agree with the records. -/
structure RegistryConsistent (order : List Address) (s : InMemoryState) : Prop where
  count : validatorCount s = .ok (UInt64.ofNat order.length)
  enumerates : (sequence (UInt64.ofNat order.length)).map (getValidatorIDBySeq · s) = order.map .ok
  nodup : order.Nodup
  complete : ∀ id, id ∈ order ↔ ∃ v, getValidator id s = .ok v
  pubkey : PointsAt validatorPubkeyKey Validator.publicKey s
  operator : PointsAt validatorOperatorKey Validator.operatorAddress s
  distinct : ∀ a b v w, getValidator a s = .ok v → getValidator b s = .ok w →
    v.status ≠ validatorRemoved → w.status ≠ validatorRemoved →
      (v.consensusID = w.consensusID ∨ v.publicKey = w.publicKey ∨
        v.operatorAddress = w.operatorAddress) → a = b
  active : ∃ active, getActiveValidators s = .ok active ∧ active.Nodup ∧
    (∀ v, v ∈ active ↔ ∃ id, getValidator id s = .ok v ∧ v.status = validatorActive) ∧
    active.Pairwise StrictlyBefore

/-- Fewer than `2 ^ 64 - 1` registrations leave the registry consistent. -/
theorem registry_consistent (s₀ s : InMemoryState) (h₀ : EmptyRegistry s₀)
    (steps : List StakingStep) (hrun : steps.forM StakingStep.run s₀ = .ok () s)
    (hlen : (steps.filterMap StakingStep.registers).length < 2 ^ 64 - 1) :
    RegistryConsistent (steps.filterMap StakingStep.registers) s := by
  have h := h₀.indexed_run hrun
  have hlt : (steps.filterMap StakingStep.registers).length < 2 ^ 64 := by omega
  refine ⟨h.count, h.sequence_eq hlt, h.nodup, fun id => h.mem_iff, h.pubkey, h.operator, ?_,
    h.active hlt⟩
  rintro a b v w hv hw hvst hwst (heq | heq | heq)
  · rw [← h.kept.filed a v hv, heq, h.kept.filed b w hw]
  · exact h.pubkey.unique hv hw hvst hwst heq
  · exact h.operator.unique hv hw hvst hwst heq

end

open Sample

theorem registry_consistent_sample : ∃ s, (sampleStart (.ofUInt64 100000)).forM StakingStep.run
    newInMemoryState = .ok () s ∧ RegistryConsistent [sampleID 1] s := by
  obtain ⟨_, s, hrun, -⟩ := exists_of_succeedsWith (show succeedsWith (fun _ _ => true)
    ((sampleStart (.ofUInt64 100000)).forM StakingStep.run newInMemoryState) = true by
      decide +kernel)
  exact ⟨s, hrun, registry_consistent newInMemoryState s emptyRegistry_newInMemoryState _ hrun
    (by decide)⟩

/-! ### A counter that wraps -/

def numberedKey (i : ℕ) : PublicKey := .copy 32 (List.replicate 24 0 ++ beBytes 8 i)

def numberedOperator (i : ℕ) : Address := .copy 20 (beBytes 8 i)

def numberedID (i : ℕ) : Address := deriveConsensusID (numberedKey i).bytes

def join (i : ℕ) : StakingStep :=
  .op (.register (numberedKey i) (numberedOperator i) (.ofUInt64 100000) 0 0)

theorem numberedKey_bytes (i : ℕ) :
    (numberedKey i).bytes = List.replicate 24 0 ++ beBytes 8 i := rfl

theorem numberedID_bytes (i : ℕ) :
    (numberedID i).bytes = List.replicate 8 0 ++ (beBytes 8 i ++ List.replicate 4 0) := rfl

section

variable (hi : i < 2 ^ 64)
include hi

variable (hj : j < 2 ^ 64)
include hj

theorem beBytes_eight_inj (h : beBytes 8 i = beBytes 8 j) : i = j := by
  have hnum := congrArg beNat h
  rwa [beNat_beBytes (by norm_num at hi ⊢; exact hi), beNat_beBytes (by norm_num at hj ⊢; exact hj)]
    at hnum

theorem numberedKey_inj (h : numberedKey i = numberedKey j) : i = j := by
  have hb := congrArg FixedBytes.bytes h
  rw [numberedKey_bytes] at hb
  exact beBytes_eight_inj hi hj (List.append_cancel_left hb)

theorem numberedOperator_inj (h : numberedOperator i = numberedOperator j) : i = j := by
  have hb := congrArg FixedBytes.bytes h
  exact beBytes_eight_inj hi hj (List.append_cancel_right hb)

theorem numberedID_inj (h : numberedID i = numberedID j) : i = j := by
  have hb := congrArg FixedBytes.bytes h
  rw [numberedID_bytes] at hb
  exact beBytes_eight_inj hi hj (List.append_cancel_right (List.append_cancel_left hb))

end

def joined (i : ℕ) : Validator :=
  ⟨numberedID i, numberedKey i, numberedOperator i, numberedOperator i, .ofUInt64 100000,
    validatorPending, 0, 0, 0, 0 + 1, 0⟩

structure Joined (n : ℕ) (s : InMemoryState) : Prop where
  run : ((List.range n).map join).forM StakingStep.run newInMemoryState = .ok () s
  records : ∀ id v, getValidator id s = .ok v → ∃ j < n, v = joined j
  total : ∃ total, totalBonded s = .ok total ∧ total.val = n * 100000
  epochs : SameOutside registryTexts newInMemoryState s

theorem Joined.indexed (h : Joined n s) :
    Indexed ((List.range n).map numberedID) s := by
  have hindexed := emptyRegistry_newInMemoryState.indexed_run h.run
  rwa [List.filterMap_map,
    show StakingStep.registers ∘ join = fun i => some (numberedID i) from rfl,
    List.filterMap_eq_map'] at hindexed

theorem Joined.enrolls (h : Joined n s) (hn : n < 2 ^ 64) :
    ∃ count, Enrolls s (joined n) count := by
  have hindexed := h.indexed
  refine ⟨_, rfl, ?_, ?_, ?_, hindexed.count, rfl, rfl⟩
  · refine hindexed.unregistered _ fun hmem => ?_
    obtain ⟨j, hj, hid⟩ := List.mem_map.1 hmem
    rw [List.mem_range] at hj
    exact hj.ne (numberedID_inj (hj.trans hn) hn hid)
  · refine Option.eq_none_iff_forall_ne_some.2 fun b hb => ?_
    obtain ⟨id, v, -, hv, -, hkey⟩ := (hindexed.pubkey _ b).1 hb
    obtain ⟨j, hj, rfl⟩ := h.records id v hv
    exact hj.ne (numberedKey_inj (hj.trans hn) hn hkey)
  · refine Option.eq_none_iff_forall_ne_some.2 fun b hb => ?_
    obtain ⟨id, v, -, hv, -, hkey⟩ := (hindexed.operator _ b).1 hb
    obtain ⟨j, hj, rfl⟩ := h.records id v hv
    exact hj.ne (numberedOperator_inj (hj.trans hn) hn hkey)

theorem Joined.next (h : Joined n s) (hn : n < 2 ^ 64) :
    ∃ s', Joined (n + 1) s' := by
  obtain ⟨count, henrol⟩ := h.enrolls hn
  obtain ⟨total, htotal, hval⟩ := h.total
  have hlt : total.val + 100000 < 2 ^ 128 := by
    omega
  let newTotal : Amount := ⟨total.val + 100000, hlt⟩
  let s' := (enrolled s (joined n) count).setBytes keyTotalBonded newTotal.marshalBinary
  have hv : newValidator (deriveConsensusID (numberedKey n).bytes) (numberedKey n)
      (numberedOperator n) (.ofUInt64 100000) 0 0 = .ok (joined n) :=
    newValidator_eq_ok.2 ⟨by decide, by decide, rfl⟩
  have hkeys := enrolled_keys s (joined n) count
  have hadd : addStake (numberedID n) (.ofUInt64 100000) (enrolled s (joined n) count) =
      .ok (numberedID n) s' :=
    addStake_eq_ok.2 ⟨total, newTotal, rfl, (totalBonded_of_keys hkeys).trans htotal, rfl, rfl⟩
  refine ⟨s', ?_, ?_, ⟨newTotal, totalBonded_setBytes_self newTotal _, ?_⟩, ?_⟩
  · rw [List.range_succ, List.map_append]
    refine forM_append_eq_ok.2 ⟨s, h.run, forM_singleton_eq_ok.2 ?_⟩
    exact (bind_eq_ok_of ((registerValidator_of_enrolls henrol hv).trans hadd)).trans rfl
  · intro id v hget
    rw [getValidator_setBytes_of_ne (validatorKey_ne_totalBonded id).symm, getValidator_enrolled]
      at hget
    split_ifs at hget
    · cases hget
      exact ⟨n, Nat.lt_succ_self n, rfl⟩
    · obtain ⟨j, hj, rfl⟩ := h.records id v hget
      exact ⟨j, hj.trans (Nat.lt_succ_self n), rfl⟩
  · show total.val + 100000 = (n + 1) * 100000
    omega
  · exact IsTrans.trans _ _ _ h.epochs <| IsTrans.trans _ _ _ (hkeys.mono (by decide)) <|
      sameOutside_setBytes startsWith_keyTotalBonded _ _

theorem exists_joined (n : ℕ) (hn : n ≤ 2 ^ 64) : ∃ s, Joined n s := by
  induction n with
  | zero =>
    refine ⟨newInMemoryState, rfl, fun id v hv => ?_, ⟨_, rfl, rfl⟩, Std.Refl.refl _⟩
    exact absurd hv (getValidator_ne_ok_of_none rfl)
  | succ n ih =>
    obtain ⟨s, hs⟩ := ih (by omega)
    exact hs.next (by omega)

def joinAndActivate (n : ℕ) : List StakingStep :=
  (List.range n).map join ++ [.op (.activate (numberedID 0) 1)]

theorem exists_wrapped (n : ℕ) (hn : n = 2 ^ 64) : ∃ s v,
    (joinAndActivate n).forM StakingStep.run newInMemoryState = .ok () s ∧
      validatorCount s = .ok 0 ∧ getValidator (numberedID 0) s = .ok v ∧
      v.status = validatorActive ∧ SameOutside registryTexts newInMemoryState s := by
  obtain ⟨s, hs⟩ := exists_joined n hn.le
  have hmem : numberedID 0 ∈ (List.range n).map numberedID :=
    List.mem_map_of_mem (List.mem_range.2 (by omega))
  obtain ⟨v, hv⟩ := hs.indexed.registered _ hmem
  obtain ⟨j, -, rfl⟩ := hs.records _ v hv
  have hid : numberedID j = numberedID 0 := hs.indexed.kept.filed _ _ hv
  let w : Validator := { joined j with status := validatorActive, activationEpoch := 1 }.stored
  have hact : activateValidator (numberedID 0) 1 s =
      .ok () (s.setBytes (validatorKey (numberedID j)) w.encode) :=
    activateValidator_eq_ok.2 ⟨joined j, hv, rfl, rfl⟩
  refine ⟨_, w, forM_append_eq_ok.2 ⟨s, hs.run, forM_singleton_eq_ok.2 hact⟩, ?_, ?_, rfl,
    IsTrans.trans _ _ _ hs.epochs (sameOutside_validatorKey _ _ s)⟩
  · rw [validatorCount_congr (getBytes_setBytes_of_ne (validatorKey_ne_count _) _ _),
      hs.indexed.count, List.length_map, List.length_range, hn]
    rfl
  · rw [hid]
    exact getValidator_setBytes_self _ _ _

theorem injOn_joinAndActivate (n : ℕ) (hn : n ≤ 2 ^ 64) :
    Set.InjOn (fun pubKey : PublicKey => deriveConsensusID pubKey.bytes)
      {pubKey | ∃ operator stake commission epoch,
        .op (.register pubKey operator stake commission epoch) ∈ joinAndActivate n} := by
  have hkey : ∀ pubKey ∈ {pubKey : PublicKey | ∃ operator stake commission epoch,
      StakingStep.op (.register pubKey operator stake commission epoch) ∈ joinAndActivate n},
      ∃ i < n, numberedKey i = pubKey := by
    rintro pubKey ⟨operator, stake, commission, epoch, hmem⟩
    rcases List.mem_append.1 hmem with hmem | hmem
    · obtain ⟨i, hi, heq⟩ := List.mem_map.1 hmem
      cases heq
      exact ⟨i, List.mem_range.1 hi, rfl⟩
    · cases List.mem_singleton.1 hmem
  intro a ha b hb heq
  obtain ⟨i, hi, rfl⟩ := hkey a ha
  obtain ⟨j, hj, rfl⟩ := hkey b hb
  rw [numberedID_inj (hi.trans_le hn) (hj.trans_le hn) heq]

theorem registry_inconsistent_after_wrap : ¬ ∀ (_ : Crypto) (s₀ s : InMemoryState)
    (steps : List StakingStep), EmptyRegistry s₀ → steps.forM StakingStep.run s₀ = .ok () s →
      Set.InjOn (fun pubKey : PublicKey => deriveConsensusID pubKey.bytes)
        {pubKey | ∃ operator stake commission epoch,
          .op (.register pubKey operator stake commission epoch) ∈ steps} →
      RegistryConsistent (steps.filterMap StakingStep.registers) s := by
  intro h
  obtain ⟨n, hn⟩ : ∃ n : ℕ, n = 2 ^ 64 := ⟨_, rfl⟩
  obtain ⟨s, v, hrun, hcount, hv, hst, -⟩ := exists_wrapped n hn
  have hinj := injOn_joinAndActivate n hn.le
  obtain ⟨active, hactive, -, hmem, -⟩ := (h sampleCrypto newInMemoryState s _
    emptyRegistry_newInMemoryState hrun hinj).active
  unfold getActiveValidators at hactive
  rw [hcount] at hactive
  cases hactive
  exact List.not_mem_nil ((hmem v).2 ⟨_, hv, hst⟩)

end Dsn
