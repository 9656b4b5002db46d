import Dsn.Staking.Records
import Dsn.Consensus.Execution
import Dsn.State.Accounts
import Dsn.VM.Frame

/-!
# What the parts of a block change

Relations that hold across every write of a kind hold across the whole phase of a block; from
these come which accounts and keys a phase leaves alone.
-/

namespace Dsn

open Go InMemoryState

/-! ### System transitions -/

namespace SystemRelation

variable {Q : InMemoryState → InMemoryState → Prop} (h : SystemRelation Q)
include h

theorem updateValidator (v : Validator) : Steps Q (updateValidator v) :=
  h.setBytes _ _

theorem writeUint64Key (key : Bytes) (val : UInt64) :
    Steps Q (writeUint64Key key val) :=
  h.setBytes _ _

variable [Std.Refl Q]

theorem payReward (addr : Address) (reward : UInt64) :
    Steps Q (payReward addr reward) :=
  Steps.ite (Steps.pure _) (h.credit _ _)

variable [IsTrans InMemoryState Q]

theorem setLatestSnapshotEpoch (epoch : UInt64) :
    Steps Q (setLatestSnapshotEpoch epoch) :=
  (Steps.asks _).bind fun _ => Steps.ite (Steps.pure _) (h.setBytes _ _)

variable [Crypto]

theorem createSnapshot (epoch : UInt64) : Steps Q (createSnapshot epoch) := by
  refine ((Steps.asks _).wrapErr _).bind fun _ => (h.setBytes _ _).bind fun _ => ?_
  exact ((h.setLatestSnapshotEpoch epoch).wrapErr _).bind fun _ => Steps.pure _

theorem ensureSnapshot (epoch : UInt64) : Steps Q (ensureSnapshot epoch) := by
  refine ((Steps.asks _).wrapErr _).bind fun snap => ?_
  cases snap with
  | none => exact (h.createSnapshot epoch).wrapErr _
  | some snap => exact Steps.pure _

theorem applySlash (id : Address) (percent jailEpochs : UInt64) :
    Steps Q (applySlash id percent jailEpochs) := by
  refine (Steps.asks _).bind fun v => (Steps.failIf _ _).bind fun _ => ?_
  refine (Steps.ofResult _).bind fun amount => Steps.ite (Steps.pure _) ?_
  refine ((Steps.ofResult _).wrapErr _).bind fun _ => (Steps.asks _).bind fun _ => ?_
  refine ((Steps.ofResult _).wrapErr _).bind fun _ => (h.setBytes _ _).bind fun _ => ?_
  refine Steps.ite ?_ (h.updateValidator _)
  refine (Steps.asks _).bind fun _ => ((Steps.ofResult _).wrapErr _).bind fun _ => ?_
  exact h.updateValidator _

theorem processEvidence (ev : Evidence) (height : UInt64) :
    Steps Q (processEvidence ev height) := by
  refine ((Steps.ofResult _).wrapErr _).bind fun _ => Steps.get.bind fun _ => ?_
  refine (Steps.failIf _ _).bind fun _ => ?_
  cases ev with
  | doubleSign e =>
    refine ((Steps.asks _).wrapErr _).bind fun v => ?_
    refine Steps.bind (Steps.wrapErr _ ?_) fun _ => (h.setBytes _ _).bind fun _ =>
      Steps.pure _
    exact (Steps.ofResult _).bind fun _ => Steps.get.bind fun _ => h.applySlash _ _ _
  | invalidCommit e => exact Steps.throw _
  | malformedVote e => exact Steps.throw _

theorem processBlockEvidence (evidence : List Evidence) (height : UInt64) :
    Steps Q (processBlockEvidence evidence height) :=
  Steps.forM (fun ev => ((h.processEvidence ev height).wrapErr _).bind fun _ =>
    Steps.pure _) evidence

theorem distributeRewards (fees : Amount) :
    Steps Q (distributeRewards fees) := by
  refine Steps.ite (Steps.pure _) ((Steps.asks _).bind fun active => ?_)
  refine Steps.ite (Steps.pure _) (Steps.ite (Steps.pure _) ?_)
  exact (Steps.forM (fun _ => h.payReward _ _) _).bind fun _ => Steps.pure _

theorem creditTreasury (amount : UInt64) :
    Steps Q (creditTreasury amount) := by
  refine Steps.ite (Steps.pure _) (Steps.get.bind fun _ => ?_)
  exact (h.writeUint64Key _ _).bind fun _ => (h.credit _ _).wrapErr _

theorem issueEpochTokens (epoch blockTime bpe : UInt64) :
    Steps Q (issueEpochTokens epoch blockTime bpe) := by
  refine Steps.get.bind fun _ => (Steps.ofResult _).bind fun _ => Steps.ite (Steps.pure _) ?_
  refine ((h.creditTreasury _).wrapErr _).bind fun _ => ?_
  refine (h.writeUint64Key _ _).bind fun _ => Steps.get.bind fun _ => ?_
  refine (h.writeUint64Key _ _).bind fun _ => (h.writeUint64Key _ _).bind fun _ => ?_
  exact (h.writeUint64Key _ _).bind fun _ => Steps.pure _

theorem distributeValidatorRewards (epoch : UInt64) :
    Steps Q (distributeValidatorRewards epoch) := by
  refine Steps.get.bind fun _ => Steps.ite (Steps.pure _) (Steps.ite (Steps.pure _) ?_)
  refine ((Steps.asks _).wrapErr _).bind fun snap => ?_
  cases snap with
  | none => exact Steps.pure _
  | some snap =>
    refine Steps.ite (Steps.pure _) ?_
    exact Steps.forM (fun _ => (h.payReward _ _).wrapErr _) _

theorem activateValidator (id : Address) (epoch : UInt64) :
    Steps Q (activateValidator id epoch) :=
  (Steps.asks _).bind fun _ => (Steps.failIf _ _).bind fun _ => (Steps.ofResult _).bind fun _ =>
    h.updateValidator _

theorem unjailValidator (id : Address) : Steps Q (unjailValidator id) :=
  (Steps.asks _).bind fun _ => (Steps.failIf _ _).bind fun _ => (Steps.ofResult _).bind fun _ =>
    h.updateValidator _

theorem releaseStake (id : Address) :
    Steps Q (releaseStake id) := by
  refine (Steps.asks _).bind fun v => (Steps.failIf _ _).bind fun _ => ?_
  refine ((Steps.asks _).wrapErr _).bind fun _ => (h.addBalance _ _).bind fun _ => ?_
  refine (Steps.asks _).bind fun v => (Steps.failIf _ _).bind fun _ => ?_
  refine (Steps.ofResult _).bind fun v => (Steps.asks _).bind fun _ => ?_
  refine (Steps.ofResult _).bind fun _ => (h.setBytes _ _).bind fun _ => ?_
  refine (h.deleteBytes _).bind fun _ => (h.deleteBytes _).bind fun _ => ?_
  exact h.updateValidator _

theorem processEpochTransition (height : UInt64) : Steps Q (processEpochTransition height) :=
  processEpochTransition_of_steps h.activateValidator h.releaseStake h.unjailValidator
    fun value => h.setBytes _ value

theorem epochBoundary (height : UInt64) :
    Steps Q (epochBoundary height) := by
  refine (Steps.asks _).bind fun _ => (Steps.asks _).bind fun _ => ?_
  refine ((h.issueEpochTokens _ _ _).wrapErr _).bind fun _ => ?_
  refine ((h.distributeValidatorRewards _).wrapErr _).bind fun _ => ?_
  exact (h.processEpochTransition height).wrapErr _

theorem beginBlock (height : UInt64) :
    Steps Q (beginBlock height) := by
  refine Steps.ite (Steps.pure _) ((Steps.asks _).bind fun boundary => ?_)
  refine Steps.ite ((h.epochBoundary height).bind fun _ => ?_) ?_ <;>
  exact ((Steps.asks _).wrapErr _).bind fun _ => (h.ensureSnapshot _).bind fun _ =>
    Steps.pure _

theorem startBlock (evidence : List Evidence) (height : UInt64) :
    Steps Q (startBlock evidence height) :=
  (h.processBlockEvidence evidence height).bind fun _ => h.beginBlock height

theorem finalizeBlock (fees : FeeSummary) :
    Steps Q (finalizeBlock fees) :=
  Steps.ite (Steps.pure _) ((h.distributeRewards _).bind fun _ => Steps.pure _)

end SystemRelation

variable [Crypto]

section

variable {R : Address → Account → Account → Prop} [∀ a, Std.Refl (R a)]
  [∀ a, IsTrans Account (R a)]

theorem startBlock_accounts (hc : ∀ a, Credits R a) (evidence : List Evidence) (height : UInt64) :
    Steps (Accounts R) (startBlock evidence height) :=
  (accounts_systemRelation hc).startBlock evidence height

theorem finalizeBlock_accounts (hc : ∀ a, Credits R a) (fees : FeeSummary) :
    Steps (Accounts R) (finalizeBlock fees) :=
  (accounts_systemRelation hc).finalizeBlock fees

end

/-! ### Transactions -/

theorem runContract_frame (c : ContractCall) (height timestamp : UInt64) (txIndex : UInt32) :
    Steps VMFrame (runContract c height timestamp txIndex) := by
  refine ((Steps.ofResult _).wrapErr _).bind fun contractTx => Steps.wrapErr _ ?_
  refine (VM.execute_frame _ _ _ _ _).bind fun r => ?_
  obtain ⟨result, err⟩ := r
  cases err with
  | none => exact Steps.pure _
  | some e => exact Steps.throw _

theorem chargeGas_eq_ok {addr : Address} {gas : UInt64} {s s' : InMemoryState} {u : Unit} :
    chargeGas addr gas s = .ok u s' ↔ ∃ acc bal, s.accounts[addr]? = some acc ∧
      acc.balance.val = bal.val + gas.toNat ∧
      s' = s.setAccount addr { acc with balance := bal } := by
  unfold chargeGas
  simp only [wrapErr_bind_eq_ok, asks_bind_eq_ok, getAccount_eq_ok, failIf_bind_eq_ok,
    subBalance_eq_ok, not_lt]
  constructor
  · rintro ⟨_, -, -, h⟩
    exact h
  · rintro ⟨acc, bal, hacc, hbal, rfl⟩
    have hle : gas.toNat ≤ acc.balance.val := by omega
    exact ⟨acc, hacc, hle, acc, bal, hacc, hbal, rfl⟩

section

variable {ctx : TxContext} {i : ℕ} {tx : Transaction} {r : TxResult} {s s' : InMemoryState}

theorem runTx_plain (hc : contractCall ctx.vm tx = none) : runTx ctx i tx s = .ok r s' ↔
    r = ⟨none, []⟩ ∧ ∃ sender s1 s2, Applied (ctx.now i) tx s s' sender s1 s2 := by
  unfold runTx
  rw [hc]
  simp only [bind_eq_ok, pure_eq_ok, applyTransaction_eq_ok]
  constructor
  · rintro ⟨_, _, ⟨-, h⟩, rfl, rfl⟩
    exact ⟨rfl, h⟩
  · rintro ⟨rfl, h⟩
    exact ⟨_, s', ⟨rfl, h⟩, rfl, rfl⟩

variable {c : ContractCall}

theorem runTx_contract (hc : contractCall ctx.vm tx = some c)
    (h : runTx ctx i tx s = .ok r s') : ∃ acc bal s1, r.gas = some (c.gasUsed ctx i s) ∧
      VMFrame s s1 ∧ s.accounts[tx.sender]? = some acc ∧
      acc.balance.val = bal.val + (c.gasUsed ctx i s).toNat ∧
      s' = s1.setAccount tx.sender { acc with balance := bal } := by
  unfold runTx at h
  rw [hc] at h
  simp only [bind_eq_ok, chargeGas_eq_ok] at h
  obtain ⟨result, s1, hrun, _, _, ⟨acc, bal, hacc, hbal, rfl⟩, rfl, rfl⟩ := h
  have hframe := (runContract_frame _ _ _ _).of_ok hrun
  have hgas : c.gasUsed ctx i s = result.gasUsed := by rw [ContractCall.gasUsed, hrun]
  rw [hgas]
  exact ⟨acc, bal, s1, rfl, hframe, hframe.accounts ▸ hacc, hbal, rfl⟩

theorem runTx_contract_active (hc : contractCall ctx.vm tx = some c)
    (h : runTx ctx i tx s = .ok r s') : getActiveValidators s' = getActiveValidators s := by
  obtain ⟨acc, bal, s1, -, hframe, -, -, rfl⟩ := runTx_contract hc h
  refine getActiveValidators_congr fun key ⟨b, hb⟩ => hframe.keys key ?_
  rw [← hb]
  exact not_startsWith_registryKey b

theorem runTx_spares (h : runTx ctx i tx s = .ok r s') : Accounts (Spares tx.sender) s s' := by
  cases hc : contractCall ctx.vm tx with
  | none =>
    obtain ⟨-, sender, s1, s2, happ⟩ := (runTx_plain hc).1 h
    exact happ.spares
  | some c =>
    obtain ⟨acc, bal, s1, -, hframe, -, -, rfl⟩ := runTx_contract hc h
    have hs : Accounts (Spares tx.sender) s s1 := .of_eq hframe.accounts
    exact IsTrans.trans _ _ _ hs (Accounts.setAccount fun _ _ ha => absurd rfl ha)

theorem runTx_keys (h : runTx ctx i tx s = .ok r s') : SameOutside transactionTexts s s' := by
  cases hc : contractCall ctx.vm tx with
  | none =>
    unfold runTx at h
    rw [hc] at h
    simp only [bind_eq_ok] at h
    obtain ⟨_, _, happ, -, rfl⟩ := h
    exact (applyTransaction_keys _ _).of_ok happ
  | some c =>
    obtain ⟨acc, bal, s1, -, hframe, -, -, rfl⟩ := runTx_contract hc h
    exact fun key hk => hframe.keys key fun hc => hk (hc.mono contractTexts_subset)

end

variable {ctx : TxContext} {txs : List Transaction} {rs : List TxResult}

theorem runLoop_keys {i : ℕ} {s s' : InMemoryState} (h : runLoop ctx i txs s = .ok rs s') :
    SameOutside transactionTexts s s' := by
  induction txs generalizing i rs s with
  | nil =>
    rw [runLoop, pure_eq_ok] at h
    obtain ⟨-, rfl⟩ := h
    exact Std.Refl.refl s
  | cons tx rest ih =>
    obtain ⟨r, s1, rs', hr, hrs, -⟩ := runLoop_cons_eq_ok.1 h
    exact IsTrans.trans _ _ _ (runTx_keys hr) (ih hrs)

/-! ### The end of a block -/

theorem finalizeBlock_keys (fees : FeeSummary) (texts : List Bytes) :
    Steps (SameOutside texts) (finalizeBlock fees) := by
  refine Steps.ite (Steps.pure _) (Steps.bind ?_ fun _ => Steps.pure _)
  refine Steps.ite (Steps.pure _) ((Steps.asks _).bind fun active => ?_)
  refine Steps.ite (Steps.pure _) (Steps.ite (Steps.pure _) ?_)
  exact (Steps.forM (fun _ => payReward_keys _ _) _).bind fun _ => Steps.pure _

theorem Executed.getSnapshot_eq {evidence : List Evidence}
    {s s1 s2 s3 : InMemoryState} {start : UInt64 × Hash}
    (h : Executed ctx evidence txs s s1 s2 s3 start rs) (epoch : UInt64) :
    getSnapshot epoch (committed s3) = getSnapshot epoch s1 := by
  have hloop := runLoop_keys h.loop _ (not_startsWith_snapshotKey epoch)
  have hfin := (finalizeBlock_keys _ _).of_ok h.finish _ (not_startsWith_snapshotKey epoch)
  have hkey : (committed s3).getBytes (snapshotKey epoch) = s1.getBytes (snapshotKey epoch) :=
    hfin.trans hloop
  unfold getSnapshot
  rw [hkey]

end Dsn
