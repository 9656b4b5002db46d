import Dsn.Staking.Epoch

/-!
# `consensus`: evidence, the start and the end of a block

What a block does besides its transactions, phase by phase.
-/

namespace Dsn

open Go InMemoryState

variable {s s' : InMemoryState} {active : List Validator} {height : UInt64}

/-! ### The active set in the header -/

def selectProposer (offset totalVotingPower cumulative : UInt64) : List Validator → Option Address
  | [] => none
  | v :: rest =>
    let cumulative := cumulative + v.votingPower
    if offset < cumulative then some v.consensusID
    else if rest = [] ∧ offset ≥ cumulative - totalVotingPower then some v.consensusID
    else selectProposer offset totalVotingPower cumulative rest

def weightedProposerAtHeight (height : UInt64) (validators : List Validator) :
    Except Error Address :=
  match validators.getLast? with
  | none => .error (.panic "consensus: empty validator set")
  | some last =>
    let totalVotingPower := sumUint64 Validator.votingPower validators
    if totalVotingPower = 0 then
      .ok (validators.getD (height.toNat % validators.length) last).consensusID
    else
      .ok ((selectProposer (height % totalVotingPower) totalVotingPower 0 validators).getD
        last.consensusID)

def sortedValidators (validators : List Address) : List Address :=
  sortSlice (fun a b => (compare a b).isLT) validators

def validatorRoot [Crypto] (validators : List Address) : Hash :=
  if validators.length = 0 then zeroHash
  else sha256 ((sortedValidators validators).flatMap FixedBytes.bytes)

variable [Crypto]

/-! ### Evidence -/

def processEvidence (ev : Evidence) (height : UInt64) : Exec InMemoryState Address := do
  wrapErr "evidence validation" (ofResult ev.validate)
  let hash := ev.evidenceHash
  failIf (((← get).getBytes (evidenceProcessedKey hash)).isSome)
    (.detail errDuplicateEvidence s!"evidence {text (hex (hash.bytes.take 8))}")
  match ev with
  | .doubleSign e =>
    let val ← wrapErr "lookup validator" (asks (getValidator e.voteA.validator))
    wrapErr s!"slash validator {addressString val.consensusID}" (slashValidator val.consensusID ev)
    modify (setBytes (evidenceProcessedKey hash) (putUint64 height))
    return val.consensusID
  | _ => throw (.new "unsupported evidence type: only DoubleSignEvidence supported in v1")

def processBlockEvidence (evidence : List Evidence) (height : UInt64) : Exec InMemoryState Unit :=
  evidence.forM fun ev => do
    let _ ← wrapErr "process evidence" (processEvidence ev height)

/-! ### The start of a block -/

def epochBoundary (height : UInt64) : Exec InMemoryState Unit := do
  let completedEpoch ← asks (epochAtHeight height)
  let bpe ← asks blocksPerEpoch
  let _ ← wrapErr s!"issue epoch tokens at height {height} epoch {completedEpoch}"
    (issueEpochTokens completedEpoch 1 bpe)
  wrapErr s!"distribute validator rewards at height {height} epoch {completedEpoch}"
    (distributeValidatorRewards completedEpoch)
  wrapErr s!"epoch transition at height {height}" (processEpochTransition height)

def ensureSnapshot (epoch : UInt64) : Exec InMemoryState ValidatorSnapshot := do
  match ← wrapErr "get snapshot" (asks (getSnapshot epoch)) with
  | some snap => return snap
  | none => wrapErr s!"create snapshot epoch {epoch}" (createSnapshot epoch)

def beginBlock (height : UInt64) : Exec InMemoryState (UInt64 × Hash) :=
  if height = 0 then return (0, zeroHash)
  else do
    let boundary ← asks (isEpochBoundary height)
    if boundary then epochBoundary height
    let epoch ← wrapErr "current epoch" (asks currentEpoch)
    let snap ← ensureSnapshot epoch
    return (epoch, snap.setHash)

omit [Crypto] in
theorem setLatestSnapshotEpoch_keys {texts : List Bytes} (h : StartsWith texts keyLatestEpoch)
    (epoch : UInt64) : Steps (SameOutside texts) (setLatestSnapshotEpoch epoch) :=
  (Steps.asks _).bind fun _ => Steps.ite (Steps.pure _) (setBytes_keys h _)

theorem ensureSnapshot_keys (epoch : UInt64) :
    Steps (SameOutside [str "snapshot/"]) (ensureSnapshot epoch) := by
  have hkey : str "snapshot/" ∈ [str "snapshot/"] := List.mem_singleton_self _
  refine ((Steps.asks _).wrapErr _).bind fun snap => ?_
  cases snap with
  | some snap => exact Steps.pure _
  | none =>
    refine Steps.wrapErr _ (((Steps.asks _).wrapErr _).bind fun _ => ?_)
    refine (setBytes_keys (startsWith_append hkey _) _).bind fun _ => ?_
    exact ((setLatestSnapshotEpoch_keys ⟨_, hkey, by decide⟩ _).wrapErr _).bind
      fun _ => Steps.pure _

theorem length_getActiveValidators (h : getActiveValidators s = .ok active) :
    active.length < 2 ^ 64 := by
  obtain ⟨count, -, h⟩ := except_bind_eq_ok.1 h
  cases h
  rw [length_sortSlice]
  refine (List.length_filterMap_le _ _).trans_lt ?_
  simpa [sequence] using count.toNat_lt

omit [Crypto] in
theorem not_startsWith_keyLatestEpoch (epoch : UInt64) :
    ¬ StartsWith [keyLatestEpoch] (snapshotKey epoch) := by
  rintro ⟨t, ht, hp⟩
  obtain rfl := List.mem_singleton.1 ht
  have hsplit : keyLatestEpoch = str "snapshot/" ++ str "latest" := by decide
  rw [hsplit] at hp
  have hl : (108 : UInt8) ∈ decimal epoch.toNat :=
    ((List.prefix_append_right_inj _).1 hp).subset (by decide)
  exact absurd (mem_decimal hl) (by decide)

theorem ensureSnapshot_getBytes (epoch k : UInt64) (s : InMemoryState) :
    (finalState (ensureSnapshot epoch s)).getBytes (snapshotKey k) = s.getBytes (snapshotKey k) ∨
      k = epoch ∧ ∃ active, getActiveValidators s = .ok active ∧
        (finalState (ensureSnapshot epoch s)).getBytes (snapshotKey k) =
          some (snapshotOf epoch active).marshalBinary := by
  unfold ensureSnapshot
  cases hget : getSnapshot epoch s with
  | error e =>
    rw [bind_eq_error_of (wrapErr_of_error (asks_of_error hget))]
    exact .inl rfl
  | ok found =>
    rw [wrapErr_bind (asks_eq_ok.2 ⟨hget, rfl⟩)]
    cases found with
    | some snap => exact .inl rfl
    | none =>
      simp only [finalState_wrapErr]
      unfold createSnapshot
      cases hactive : getActiveValidators s with
      | error e =>
        rw [bind_eq_error_of (wrapErr_of_error (asks_of_error hactive))]
        exact .inl rfl
      | ok active =>
        rw [wrapErr_bind (asks_eq_ok.2 ⟨hactive, rfl⟩)]
        have hself : StartsWith [keyLatestEpoch] keyLatestEpoch :=
          ⟨_, List.mem_singleton_self _, List.prefix_rfl⟩
        have hkeys := (setLatestSnapshotEpoch_keys hself epoch).wrapErr "update latest epoch"
        have hframe := hkeys.bind (fun _ => Steps.pure (snapshotOf epoch active))
          (s.setBytes (snapshotKey epoch) (snapshotOf epoch active).marshalBinary) _
          (not_startsWith_keyLatestEpoch k)
        by_cases hk : k = epoch
        · subst hk
          exact .inr ⟨rfl, active, rfl, hframe.trans (getBytes_setBytes_self _ _ _)⟩
        · refine .inl (hframe.trans (getBytes_setBytes_of_ne (fun h => hk ?_) _ _))
          exact (snapshotKey_injective h).symm

theorem ensureSnapshot_eq_ok {epoch : UInt64} {snap : ValidatorSnapshot}
    (h : ensureSnapshot epoch s = .ok snap s') : getSnapshot epoch s' = .ok (some snap) := by
  unfold ensureSnapshot at h
  obtain ⟨found, hfound, h⟩ := asks_bind_eq_ok.1 (wrapErr_bind_eq_ok.1 h)
  cases found with
  | some snap' =>
    obtain ⟨rfl, rfl⟩ := pure_eq_ok.1 h
    exact hfound
  | none =>
    rw [wrapErr_eq_ok] at h
    obtain ⟨active, hactive, rfl, hlatest⟩ := createSnapshot_eq_ok.1 h
    refine getSnapshot_of_getBytes (length_getActiveValidators hactive) ?_
    have hself : StartsWith [keyLatestEpoch] keyLatestEpoch :=
      ⟨_, List.mem_singleton_self _, List.prefix_rfl⟩
    rw [(setLatestSnapshotEpoch_keys hself epoch).of_ok hlatest _
      (not_startsWith_keyLatestEpoch epoch), getBytes_setBytes_self]

/-- `BeginBlock` comes to the epoch transition in `t`. -/
def EntersTransition (height : UInt64) (s t : InMemoryState) : Prop :=
  isEpochBoundary height s = .ok true ∧ ∃ completedEpoch bpe issuance t₁,
    epochAtHeight height s = .ok completedEpoch ∧ blocksPerEpoch s = .ok bpe ∧
      issueEpochTokens completedEpoch 1 bpe s = .ok issuance t₁ ∧
      distributeValidatorRewards completedEpoch t₁ = .ok () t

def EntersSnapshot (height : UInt64) (s t : InMemoryState) : Prop :=
  isEpochBoundary height s = .ok false ∧ t = s ∨
    ∃ t₁, EntersTransition height s t₁ ∧ processEpochTransition height t₁ = .ok () t

theorem epochBoundary_eq_ok {u : Unit} {t : InMemoryState}
    (hboundary : isEpochBoundary height s = .ok true) (h : epochBoundary height s = .ok u t) :
    EntersSnapshot height s t := by
  simp only [epochBoundary, bind_eq_ok, wrapErr_eq_ok, asks_eq_ok] at h
  obtain ⟨completedEpoch, _, ⟨hat, rfl⟩, bpe, _, ⟨hbpe, rfl⟩, issuance, t1, hissue, _, t2, hpay,
    htrans⟩ := h
  exact .inr ⟨t2, ⟨hboundary, completedEpoch, bpe, issuance, t1, hat, hbpe, hissue, hpay⟩, htrans⟩

variable {start : UInt64 × Hash}

theorem beginBlock_cases (hh : height ≠ 0) (h : beginBlock height s = .ok start s') : ∃ t snap,
      EntersSnapshot height s t ∧ currentEpoch t = .ok start.1 ∧
      ensureSnapshot start.1 t = .ok snap s' ∧ snap.setHash = start.2 := by
  unfold beginBlock at h
  rw [if_neg hh] at h
  obtain ⟨boundary, hboundary, h⟩ := asks_bind_eq_ok.1 h
  cases boundary with
  | true =>
    simp only [↓reduceIte, bind_eq_ok, wrapErr_eq_ok, asks_eq_ok] at h
    obtain ⟨_, t, hb, epoch, _, ⟨hepoch, rfl⟩, snap, _, hsnap, rfl, rfl⟩ := h
    exact ⟨_, snap, epochBoundary_eq_ok hboundary hb, hepoch, hsnap, rfl⟩
  | false =>
    simp only [Bool.false_eq_true, ↓reduceIte, bind_eq_ok, wrapErr_eq_ok, asks_eq_ok] at h
    obtain ⟨epoch, _, ⟨hepoch, rfl⟩, snap, _, hsnap, rfl, rfl⟩ := h
    exact ⟨_, snap, .inl ⟨hboundary, rfl⟩, hepoch, hsnap, rfl⟩

theorem beginBlock_eq_ok (hh : height ≠ 0) (h : beginBlock height s = .ok start s') :
    currentEpoch s' = .ok start.1 ∧
      ∃ snap, getSnapshot start.1 s' = .ok (some snap) ∧ snap.setHash = start.2 := by
  obtain ⟨t, snap, -, hepoch, hsnap, hhash⟩ := beginBlock_cases hh h
  have hkey := (ensureSnapshot_keys start.1).of_ok hsnap keyCurrentEpoch
    (not_startsWith_append (t := keyCurrentEpoch) (by decide) [])
  exact ⟨(currentEpoch_congr hkey).trans hepoch, snap, ensureSnapshot_eq_ok hsnap, hhash⟩

omit [Crypto] in
theorem isEpochBoundary_unset (hinside : height % 100 ≠ 0)
    (hbpe : s.getBytes keyBlocksPerEpoch = none) : isEpochBoundary height s = .ok false := by
  have hne : height ≠ 0 := by
    rintro rfl
    exact hinside rfl
  have hrem : rem height 100 = .ok (height % 100) := rfl
  simp only [isEpochBoundary, blocksPerEpoch, readCounter, hbpe, if_neg hne]
  refine except_bind_eq_ok.2 ⟨100, rfl, except_bind_eq_ok.2 ⟨_, hrem, ?_⟩⟩
  simp [hinside, pure, Except.pure]

theorem createSnapshot_first (hlatest : s.getBytes keyLatestEpoch = none)
    (hactive : getActiveValidators s = .ok active) :
    createSnapshot 0 s = .ok (snapshotOf 0 active)
      (s.setBytes (snapshotKey 0) (snapshotOf 0 active).marshalBinary) := by
  have hne : snapshotKey 0 ≠ keyLatestEpoch := by decide
  have hlast : latestSnapshotEpoch (s.setBytes (snapshotKey 0)
      (snapshotOf 0 active).marshalBinary) = .ok 0 := by
    simp only [latestSnapshotEpoch, readCounter, getBytes_setBytes_of_ne hne, hlatest]
  exact createSnapshot_eq_ok.2 ⟨active, hactive, rfl,
    bind_eq_ok.2 ⟨0, _, asks_eq_ok.2 ⟨hlast, rfl⟩, rfl⟩⟩

theorem beginBlock_first (hinside : height % 100 ≠ 0) (hbpe : s.getBytes keyBlocksPerEpoch = none)
    (hepoch : s.getBytes keyCurrentEpoch = none) (hlatest : s.getBytes keyLatestEpoch = none)
    (hsnap : s.getBytes (snapshotKey 0) = none) (hactive : getActiveValidators s = .ok active) :
    beginBlock height s = .ok (0, computeValidatorSetHash active)
      (s.setBytes (snapshotKey 0) (snapshotOf 0 active).marshalBinary) := by
  have hcurrent : currentEpoch s = .ok 0 := by
    simp only [currentEpoch, readCounter, hepoch]
  have hget : getSnapshot 0 s = .ok none := by
    simp only [getSnapshot, hsnap]
  have hcreate := createSnapshot_first hlatest hactive
  have hne : height ≠ 0 := by
    rintro rfl
    exact hinside rfl
  unfold beginBlock
  rw [if_neg hne, asks_bind (isEpochBoundary_unset hinside hbpe)]
  refine bind_eq_ok.2 ⟨0, s, wrapErr_eq_ok.2 (asks_eq_ok.2 ⟨hcurrent, rfl⟩), ?_⟩
  refine bind_eq_ok.2 ⟨snapshotOf 0 active, _, ?_, rfl⟩
  exact bind_eq_ok.2 ⟨none, s, wrapErr_eq_ok.2 (asks_eq_ok.2 ⟨hget, rfl⟩), wrapErr_eq_ok.2 hcreate⟩

/-! ### The end of a block -/

def finalizeBlock (fees : FeeSummary) : Exec InMemoryState Unit :=
  if fees.totalFees = 0 then pure ()
  else do let _ ← distributeRewards (.ofUInt64 fees.totalFees)

end Dsn
