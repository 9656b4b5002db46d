import Dsn.Consensus.Sealing
import Dsn.Staking.Registration
import Dsn.Staking.Shares
import Dsn.State.Settlement

/-!
# Are fees conserved?

A block is balanced in three parts: its start moves no balance, its transactions pay fees, gas and
stakes, its end pays validators. The tenth for the treasury reaches no account.
-/

namespace Dsn

open Go InMemoryState

variable {s s' : InMemoryState} {u : Unit} {totalFees : UInt64}

/-! ### Rewards -/

def validatorPayout (totalFees : UInt64) (active : List Validator) : ℕ :=
  let totalPower := sumUint64 Validator.votingPower active
  if totalPower = 0 then 0
  else ((splitRewards (totalFees * 70 / 100) totalPower active).map UInt64.toNat).sum

section

variable [Crypto]

def payoutOn (totalFees : UInt64) (s : InMemoryState) : ℕ :=
  match getActiveValidators s with
  | .ok active => validatorPayout totalFees active
  | .error _ => 0

omit [Crypto] in
theorem payReward_supply {addr : Address} {reward : UInt64} (h : payReward addr reward s = .ok u s')
    : supply s' = supply s + reward.toNat := by
  unfold payReward at h
  split_ifs at h with h0
  · rw [(pure_eq_ok.1 h).2, h0]
    rfl
  · exact credit_supply h

omit [Crypto] in
theorem payRewards_supply (pay : Validator → UInt64 → Exec InMemoryState Unit)
    (hpay : ∀ v reward s s' u, pay v reward s = .ok u s' → supply s' = supply s + reward.toNat)
    {validators : List Validator} {rewards : List UInt64}
    (hlen : rewards.length ≤ validators.length)
    (h : ((validators.zip rewards).forM fun (v, reward) => pay v reward) s = .ok u s') :
    supply s' = supply s + (rewards.map UInt64.toNat).sum := by
  induction rewards generalizing validators s with
  | nil =>
    rw [List.zip_nil_right] at h
    rw [(pure_eq_ok.1 h).2]
    rfl
  | cons reward rewards ih =>
    cases validators with
    | nil => exact absurd hlen (by simp)
    | cons v validators =>
      obtain ⟨_, t, hfirst, h⟩ := bind_eq_ok.1 h
      rw [ih (Nat.le_of_succ_le_succ hlen) h, hpay _ _ _ _ _ hfirst, List.map_cons, List.sum_cons,
        Nat.add_assoc]

omit [Crypto] in
theorem validatorPayout_of_share_eq_zero (h : totalFees * 70 / 100 = 0) (active : List Validator) :
    validatorPayout totalFees active = 0 := by
  unfold validatorPayout
  dsimp only
  split_ifs
  · rfl
  · refine List.sum_eq_zero fun n hn => ?_
    obtain ⟨r, hr, rfl⟩ := List.mem_map.1 hn
    rw [h] at hr
    rw [splitRewards_zero _ _ r hr]
    rfl

theorem payoutOn_of_share_eq_zero (h : totalFees * 70 / 100 = 0) (s : InMemoryState) :
    payoutOn totalFees s = 0 := by
  unfold payoutOn
  cases getActiveValidators s with
  | error e => rfl
  | ok active => exact validatorPayout_of_share_eq_zero h active

omit [Crypto] in
theorem amountFraction_ofUInt64 (amount numerator denominator : UInt64) :
    amountFraction (.ofUInt64 amount) numerator denominator =
      .ofUInt64 (amount * numerator / denominator) := by
  rw [amountFraction, stakeToUint64_ofUInt64]

theorem payoutOn_of_active {active : List Validator} (h : getActiveValidators s = .ok active)
    (totalFees : UInt64) :
    payoutOn totalFees s = validatorPayout totalFees active := by
  rw [payoutOn, h]

theorem distributeRewards_supply {shares : Amount × Amount × Amount}
    (h : distributeRewards (.ofUInt64 totalFees) s = .ok shares s') :
    supply s' = supply s + payoutOn totalFees s := by
  unfold distributeRewards at h
  simp only [amountFraction_ofUInt64, isZero_ofUInt64, stakeToUint64_ofUInt64] at h
  split_ifs at h with h0
  · rw [← (pure_eq_ok.1 h).2, payoutOn_of_share_eq_zero (by rw [h0]; decide), Nat.add_zero]
  · obtain ⟨active, hactive, h⟩ := asks_bind_eq_ok.1 h
    rw [payoutOn_of_active hactive]
    split_ifs at h with hnone hpower
    · rw [← (pure_eq_ok.1 h).2]
      rcases hnone with hnone | hshare
      · rw [List.length_eq_zero_iff.1 hnone]
        rfl
      · rw [← payoutOn_of_active hactive, payoutOn_of_share_eq_zero hshare, Nat.add_zero]
    · rw [← (pure_eq_ok.1 h).2, validatorPayout, if_pos hpower, Nat.add_zero]
    · obtain ⟨_, t, hpay, h⟩ := bind_eq_ok.1 h
      rw [← (pure_eq_ok.1 h).2, validatorPayout, if_neg hpower]
      exact payRewards_supply (fun v => payReward v.operatorAddress)
        (fun _ _ _ _ _ => payReward_supply) (length_splitRewards _ _ _).le hpay

theorem finalizeBlock_supply (h : finalizeBlock (newFeeSummary totalFees) s = .ok u s') :
    supply s' = supply s + payoutOn totalFees s := by
  unfold finalizeBlock at h
  split_ifs at h with h0
  · have hfees : totalFees = 0 := h0
    rw [← (pure_eq_ok.1 h).2, payoutOn_of_share_eq_zero (by rw [hfees]; decide), Nat.add_zero]
  · obtain ⟨shares, t, hdist, h⟩ := bind_eq_ok.1 h
    rw [← (pure_eq_ok.1 h).2]
    exact distributeRewards_supply hdist

/-! ### The transactions -/

/-- What a transaction costs its sender: the fee it names, or the gas its contract has used. -/
def TxStep.paid (ctx : TxContext) (st : TxStep) : ℕ :=
  match contractCall ctx.vm st.tx with
  | some c => (c.gasUsed ctx st.index st.before).toNat
  | none => st.tx.maxFee.toNat

variable {vm : Option VM}

omit [Crypto] in
theorem ne_registration_of_contract {tx : Transaction} {c : ContractCall}
    (h : contractCall vm tx = some c) : tx.txType ≠ txTypeValidatorRegistration := by
  intro htype
  cases vm with
  | none => cases h
  | some vm =>
    rw [contractCall, htype, if_neg (by decide), if_neg (by decide)] at h
    cases h

variable {ctx : TxContext}

theorem runTx_supply {st : TxStep}
    (h : runTx ctx st.index st.tx st.before = .ok st.result st.after) :
    supply st.after + stakeOf st.tx + st.paid ctx = supply st.before := by
  unfold TxStep.paid
  cases hc : contractCall ctx.vm st.tx with
  | none =>
    obtain ⟨-, sender, s1, s2, happ⟩ := (runTx_plain hc).1 h
    exact happ.supply_add
  | some c =>
    obtain ⟨acc, bal, s1, -, hframe, hacc, hbal, hafter⟩ := runTx_contract hc h
    rw [hafter, stakeOf, if_neg (ne_registration_of_contract hc)]
    have hsame : SameAccounts st.before s1 := hframe.accounts
    rw [← hframe.accounts] at hacc
    have hset := supply_setAccount_of_get hacc { acc with balance := bal }
    have hsupply := hsame.supply_eq
    change supply _ + _ = supply s1 + bal.val at hset
    dsimp only
    omega

variable {rs : List TxResult}

theorem runLoop_supply {i : ℕ} {txs : List Transaction} (h : runLoop ctx i txs s = .ok rs s') :
    supply s' + (txs.map stakeOf).sum + ((trace ctx i txs s).map (TxStep.paid ctx)).sum =
      supply s := by
  induction txs generalizing i rs s with
  | nil =>
    rw [runLoop, pure_eq_ok] at h
    obtain ⟨-, rfl⟩ := h
    simp [trace]
  | cons tx rest ih =>
    obtain ⟨r, s1, rs', hr, hrs, -⟩ := runLoop_cons_eq_ok.1 h
    have hstep := @runTx_supply _ _ ⟨i, tx, s, r, s1⟩ hr
    have hrest := ih hrs
    rw [trace_cons hr, List.map_cons, List.map_cons, List.sum_cons, List.sum_cons]
    dsimp only at hstep
    omega

/-! ### The active set -/

def activeIn (s : InMemoryState) (seq : UInt64) : Option Validator :=
  match validatorAt s seq with
  | some (_, v) => if v.status = validatorActive then some v else none
  | none => none

def registrations (txs : List Transaction) : UInt64 :=
  UInt64.ofNat (txs.countP fun tx => tx.txType = txTypeValidatorRegistration)

/-- The active validators of a state whose count of validators is raised by `more`. -/
def activeAfter (more : UInt64) (s : InMemoryState) : List Validator :=
  match validatorCount s with
  | .ok count => sortSlice validatorLess ((sequence (count + more)).filterMap (activeIn s))
  | .error _ => []

structure Enlisted (more : UInt64) (s s' : InMemoryState) : Prop where
  count : ∀ c, validatorCount s' = .ok (c + more) ↔ validatorCount s = .ok c
  active : ∀ seq, activeIn s' seq = activeIn s seq

namespace Enlisted

variable {t : InMemoryState} {m n : UInt64}

theorem of_keys (h : ∀ key, str "validator/" <+: key → s'.getBytes key = s.getBytes key) :
    Enlisted 0 s s' where
  count c := by
    unfold validatorCount readCounter
    rw [h _ (by decide), UInt64.add_zero]
  active seq := by
    unfold activeIn
    rw [validatorAt_congr h]

theorem trans (h : Enlisted m s t) (h' : Enlisted n t s') : Enlisted (m + n) s s' where
  count c := by rw [← UInt64.add_assoc, h'.count, h.count]
  active seq := (h'.active seq).trans (h.active seq)

theorem payoutOn_eq (h : Enlisted n s s') (totalFees : UInt64) :
    payoutOn totalFees s' = validatorPayout totalFees (activeAfter n s) := by
  unfold payoutOn activeAfter
  cases hcount : validatorCount s with
  | ok c =>
    have hactive : getActiveValidators s' =
        .ok (sortSlice validatorLess ((sequence (c + n)).filterMap (activeIn s))) := by
      rw [← funext h.active]
      exact except_bind_eq_ok.2 ⟨_, (h.count c).2 hcount, rfl⟩
    rw [hactive]
  | error e =>
    cases hactive : getActiveValidators s' with
    | ok active =>
      obtain ⟨c, hc, -⟩ := except_bind_eq_ok.1 hactive
      rw [← UInt64.sub_add_cancel c n] at hc
      cases hcount.symm.trans ((h.count _).1 hc)
    | error e' => rfl

end Enlisted

section

variable {tx : Transaction} {sender : Account} {msg : ValidatorRegistrationMsg}
  {epoch count : UInt64} {total : Amount} {s₁ s₂ : InMemoryState}
  (h : Registered tx sender s s' msg epoch count total s₁ s₂)
include h

theorem Registered.validatorCount_eq :
    validatorCount s' = .ok count ∧ validatorCount s = .ok (count - 1) := by
  constructor
  · unfold validatorCount readCounter
    rw [h.after, getBytes_setBytes_of_ne (by decide), getBytes_setBytes_self]
    exact getUint64_putUint64 count
  · obtain ⟨acc, bal, -, -, rfl⟩ := subBalance_eq_ok.1 h.stake
    have hnext := h.count_eq
    unfold nextValidatorCount at hnext
    rw [h.stored, getBytes_storeRegistration_count] at hnext
    unfold getBytes setAccount at hnext
    unfold validatorCount readCounter getBytes
    cases hb : s.kvstore[keyValidatorCount]? with
    | none =>
      rw [hb] at hnext
      cases hnext
      rfl
    | some b =>
      rw [hb] at hnext
      obtain ⟨c, hc, hnext⟩ := except_bind_eq_ok.1 hnext
      cases hnext
      rw [UInt64.add_sub_cancel]
      exact hc

theorem Registered.getBytes_eq {key : Bytes} (htotal : key ≠ keyTotalBonded)
    (hcount : key ≠ keyValidatorCount)
    (hid : key ≠ validatorKey (deriveConsensusID msg.pubKey.bytes))
    (hpub : key ≠ validatorPubkeyKey msg.pubKey) (hop : key ≠ validatorOperatorKey tx.sender) :
    s'.getBytes key = s.getBytes key := by
  obtain ⟨acc, bal, -, -, rfl⟩ := subBalance_eq_ok.1 h.stake
  rw [h.after, h.stored, getBytes_setBytes_of_ne htotal.symm,
    getBytes_setBytes_of_ne hcount.symm, getBytes_storeRegistration_of_ne hid hpub hop]
  rfl

/-- The record that a registration stores cannot be read back. -/
theorem Registered.getValidator_iff (id : Address) (v : Validator) :
    getValidator id s' = .ok v ↔ getValidator id s = .ok v := by
  by_cases hid : id = deriveConsensusID msg.pubKey.bytes
  · obtain ⟨acc, bal, -, -, rfl⟩ := subBalance_eq_ok.1 h.stake
    have hfree : s.getBytes (validatorKey (deriveConsensusID msg.pubKey.bytes)) = none :=
      Option.isNone_iff_eq_none.1 (Option.isSome_eq_false_iff.1 h.free)
    rw [hid]
    exact iff_of_false (h.unreadable v) (getValidator_ne_ok_of_none hfree)
  · rw [getValidator_congr (h.getBytes_eq (validatorKey_ne_totalBonded id)
      (validatorKey_ne_count id) (fun heq => hid (validatorKey_injective heq))
      (validatorKey_ne_pubkey id _) (validatorKey_ne_operator id _))]

theorem Registered.enlisted : Enlisted 1 s s' := by
  refine ⟨fun c => ?_, fun seq => ?_⟩
  · rw [h.validatorCount_eq.1, h.validatorCount_eq.2, Except.ok.injEq, Except.ok.injEq,
      UInt64.sub_eq_iff_eq_add]
  · have hseq : s'.getBytes (validatorBySeqKey seq) = s.getBytes (validatorBySeqKey seq) :=
      h.getBytes_eq (append_ne_append (u := keyTotalBonded) (by decide) _ [])
        (append_ne_append (u := keyValidatorCount) (by decide) _ [])
        (validatorKey_ne_bySeq _ seq).symm (validatorPubkeyKey_ne_bySeq _ seq).symm
        (validatorOperatorKey_ne_bySeq _ seq).symm
    unfold activeIn validatorAt getValidatorIDBySeq
    rw [hseq]
    cases s.getBytes (validatorBySeqKey seq) with
    | none => rfl
    | some idBytes =>
      dsimp only
      generalize FixedBytes.copy 20 idBytes = id
      cases hv : getValidator id s with
      | ok v => rw [(h.getValidator_iff id v).2 hv]
      | error e =>
        cases hv' : getValidator id s' with
        | ok v => cases hv.symm.trans ((h.getValidator_iff id v).1 hv')
        | error e' => rfl

end

theorem Applied.enlisted {now : UInt64} {tx : Transaction} {sender : Account}
    {s₁ s₂ : InMemoryState} (h : Applied now tx s s' sender s₁ s₂) :
    Enlisted (registrations [tx]) s s' := by
  obtain ⟨_, _, -, -, -, -, hkv⟩ := h.charged
  have hcharged : Enlisted 0 s₁ s' := .of_keys fun key _ => by rw [getBytes, getBytes, hkv]
  suffices hpayload : Enlisted (registrations [tx]) s s₁ by
    simpa only [UInt64.add_zero] using hpayload.trans hcharged
  by_cases hreg : tx.txType = txTypeValidatorRegistration
  · obtain ⟨m, epoch, count, total, t1, t2, hreg', -⟩ := h.registered hreg
    have hone : registrations [tx] = 1 := by simp [registrations, hreg]
    rw [hone]
    exact hreg'.enlisted
  · have hnone : registrations [tx] = 0 := by simp [registrations, hreg]
    have hkept : s₁.kvstore = s.kvstore := by
      have hpayload := h.payload
      unfold applyPayload at hpayload
      rw [if_neg hreg] at hpayload
      split_ifs at hpayload with hstd
      · exact (h.transferred hstd).kvstore_eq
      · rw [(pure_eq_ok.1 hpayload).2]
    rw [hnone]
    exact .of_keys fun key _ => by rw [getBytes, getBytes, hkept]

theorem runLoop_enlisted {i : ℕ} {txs : List Transaction} (h : runLoop ctx i txs s = .ok rs s') :
    Enlisted (registrations txs) s s' := by
  induction txs generalizing i rs s with
  | nil =>
    obtain ⟨-, rfl⟩ := pure_eq_ok.1 h
    exact .of_keys fun _ _ => rfl
  | cons tx rest ih =>
    obtain ⟨r, s1, rs', hr, hrs, -⟩ := runLoop_cons_eq_ok.1 h
    have hcons : registrations (tx :: rest) = registrations [tx] + registrations rest := by
      simp [registrations, List.countP_cons, UInt64.ofNat_add, UInt64.add_comm]
    have hfirst : Enlisted (registrations [tx]) s s1 := by
      cases hc : contractCall ctx.vm tx with
      | none =>
        obtain ⟨-, sender, t1, t2, happ⟩ := (runTx_plain hc).1 hr
        exact happ.enlisted
      | some c =>
        obtain ⟨acc, bal, t, -, hframe, -, -, rfl⟩ := runTx_contract hc hr
        have hnone : registrations [tx] = 0 := by
          simp [registrations, ne_registration_of_contract hc]
        rw [hnone]
        refine .of_keys fun key ⟨b, hb⟩ => hframe.keys key ?_
        rw [← hb]
        exact not_startsWith_registryKey b
    rw [hcons]
    exact hfirst.trans (ih hrs)

/-! ### The block -/

theorem ensureSnapshot_sameAccounts (epoch : UInt64) :
    Steps SameAccounts (ensureSnapshot epoch) := by
  refine ((Steps.asks _).wrapErr _).bind fun snap => ?_
  cases snap with
  | some snap => exact Steps.pure _
  | none =>
    refine Steps.wrapErr _ (((Steps.asks _).wrapErr _).bind fun _ => ?_)
    refine (setBytes_sameAccounts _ _).bind fun _ => ?_
    refine Steps.bind (Steps.wrapErr _ ?_) fun _ => Steps.pure _
    exact (Steps.asks _).bind fun _ => Steps.ite (Steps.pure _) (setBytes_sameAccounts _ _)

variable {start : UInt64 × Hash}

theorem startBlock_inside {height : UInt64} {s1 : InMemoryState}
    (hb : isEpochBoundary height s = .ok false) (h : startBlock [] height s = .ok start s1) :
    SameAccounts s s1 ∧ SameOutside [str "snapshot/"] s s1 := by
  obtain ⟨_, t, hev, h⟩ := bind_eq_ok.1 h
  obtain ⟨-, rfl⟩ := pure_eq_ok.1 hev
  unfold beginBlock at h
  split_ifs at h
  · obtain ⟨-, rfl⟩ := pure_eq_ok.1 h
    exact ⟨rfl, Std.Refl.refl s⟩
  · rw [asks_bind hb] at h
    have htail {Q : InMemoryState → InMemoryState → Prop} [Std.Refl Q] [IsTrans InMemoryState Q]
        (hQ : ∀ epoch, Steps Q (ensureSnapshot epoch)) : Q s s1 :=
      Steps.of_ok (((Steps.asks _).wrapErr _).bind fun _ => (hQ _).bind fun _ => Steps.pure _) h
    exact ⟨htail ensureSnapshot_sameAccounts, htail ensureSnapshot_keys⟩

def Block.bonded (block : Block) : ℕ := (block.transactions.map stakeOf).sum

def Block.maxFees (block : Block) : ℕ := (block.transactions.map fun tx => tx.maxFee.toNat).sum

def Block.paid (block : Block) (vm : Option VM) (now : ℕ → UInt64) (s : InMemoryState) : ℕ :=
  ((block.steps vm now s).map (TxStep.paid (block.context vm now))).sum

/-- What of the fees that a block names is neither paid to a validator nor burned. -/
def Block.leftOver (block : Block) (s : InMemoryState) : ℤ :=
  block.maxFees - validatorPayout block.feeSummary.totalFees
    (activeAfter (registrations block.transactions) s) - block.feeSummary.burnShare.toNat

/-- What the contract transactions of a block name as fees beyond the gas they are charged. -/
def Block.unspent (block : Block) (vm : Option VM) (now : ℕ → UInt64) (s : InMemoryState) : ℤ :=
  ((block.steps vm now s).map fun st => (st.tx.maxFee.toNat : ℤ) -
    st.paid (block.context vm now)).sum

/-- What the balances lose is what was bonded and burned. -/
def FeesConserved (block : Block) (s s' : InMemoryState) : Prop :=
  supply s' + block.bonded + block.feeSummary.burnShare.toNat = supply s

omit [Crypto] in
theorem validatorPayout_cases (totalFees : UInt64) (active : List Validator) :
    validatorPayout totalFees active = 0 ∨ ∃ k,
      validatorPayout totalFees active = (totalFees * 70 / 100).toNat + k * 2 ^ 64 := by
  unfold validatorPayout
  dsimp only
  split_ifs with hpower
  · exact .inl rfl
  · have hne : active ≠ [] := by
      rintro rfl
      exact hpower rfl
    obtain ⟨k, hk, -⟩ := sum_splitRewards_cases (totalFees * 70 / 100)
      (sumUint64 Validator.votingPower active) hne
    exact .inr ⟨k, hk⟩

omit [Crypto] in
theorem percent_le (n k : UInt64) : (n * k / 100).toNat ≤ n.toNat * k.toNat / 100 := by
  rw [UInt64.toNat_div, UInt64.toNat_mul]
  exact Nat.div_le_div_right (Nat.mod_le _ _)

section

variable {block : Block} {parentHeader : BlockHeader} {expectedPrevHash : Hash} {now : ℕ → UInt64}
  {s1 s2 s3 : InMemoryState} {epoch : UInt64}
  (h : AcceptedBlock block parentHeader expectedPrevHash vm now s s1 s2 s3 start epoch rs)
include h

theorem AcceptedBlock.supply_eq (hevidence : block.evidence = [])
    (hb : isEpochBoundary block.header.height s = .ok false) :
    supply (committed s3) + block.bonded + block.paid vm now s = supply s +
      validatorPayout block.feeSummary.totalFees
        (activeAfter (registrations block.transactions) s) := by
  have hstart := h.executed.start_eq
  rw [hevidence] at hstart
  obtain ⟨haccounts, hkeys⟩ := startBlock_inside hb hstart
  have h1 := haccounts.supply_eq
  have h2 := runLoop_supply h.executed.loop
  have h3 := finalizeBlock_supply h.executed.finish
  have hstarted : Enlisted 0 s s1 := .of_keys fun key ⟨b, hkey⟩ =>
    hkeys key (hkey ▸ not_startsWith_append (by decide) b)
  have henlisted := hstarted.trans (runLoop_enlisted h.executed.loop)
  rw [UInt64.zero_add] at henlisted
  have hpaid : block.paid vm now s = ((trace (block.context vm now) 0 block.transactions s1).map
      (TxStep.paid (block.context vm now))).sum := by
    unfold Block.paid Block.steps
    rw [h.executed.stepsOf_eq]
  have hfees : block.feeSummary.totalFees = feesFrom 0 block.transactions := by
    rw [← h.fees_eq]
    rfl
  have hcommit : supply (committed s3) = supply s3 := rfl
  -- start, transactions and payout each have their own balance; add them up
  rw [← henlisted.payoutOn_eq, hfees, hpaid, hcommit]
  unfold Block.bonded
  omega

theorem AcceptedBlock.map_tx_steps :
    (block.steps vm now s).map TxStep.tx = block.transactions := by
  unfold Block.steps
  rw [h.executed.stepsOf_eq]
  exact (trace_of_runLoop h.executed.loop).1

theorem AcceptedBlock.paid_add_unspent :
    block.paid vm now s + block.unspent vm now s = block.maxFees := by
  unfold Block.paid Block.unspent Block.maxFees
  rw [← h.map_tx_steps]
  induction block.steps vm now s with
  | nil => rfl
  | cons st steps ih =>
    simp only [List.map_cons, List.sum_cons] at ih ⊢
    push_cast at ih ⊢
    linarith

theorem AcceptedBlock.maxFees_pos (hplain : ∀ tx ∈ block.transactions, contractCall vm tx = none)
    (hne : block.transactions ≠ []) :
    0 < block.maxFees := by
  have hloop := h.executed.loop
  unfold Block.maxFees
  cases htxs : block.transactions with
  | nil => exact absurd htxs hne
  | cons tx rest =>
    rw [htxs] at hloop hplain
    obtain ⟨r, t, rs', hr, -⟩ := runLoop_cons_eq_ok.1 hloop
    obtain ⟨-, sender, t1, t2, happ⟩ := (runTx_plain (hplain tx List.mem_cons_self)).1 hr
    have hfee : tx.maxFee ≠ 0 := (Transaction.validate_eq_ok.1 happ.valid).2.2.2
    have hpos : tx.maxFee.toNat ≠ 0 := fun h0 => hfee (UInt64.toNat_inj.1 h0)
    rw [List.map_cons, List.sum_cons]
    omega

/-- The split pays out at most nine tenths of the fees. -/
theorem AcceptedBlock.leftOver_eq_zero_iff (hfits : block.maxFees < 2 ^ 64) :
    block.leftOver s = 0 ↔ block.maxFees = 0 := by
  have htotal : (feesFrom 0 block.transactions).toNat = block.maxFees :=
    (sumUint64_toNat Transaction.maxFee block.transactions).trans (Nat.mod_eq_of_lt hfits)
  have hshare : (feesFrom 0 block.transactions * 70 / 100).toNat ≤ block.maxFees * 70 / 100 :=
    htotal ▸ percent_le _ 70
  have hburn : (feesFrom 0 block.transactions * 20 / 100).toNat ≤ block.maxFees * 20 / 100 :=
    htotal ▸ percent_le _ 20
  have hpayout := validatorPayout_cases (feesFrom 0 block.transactions)
    (activeAfter (registrations block.transactions) s)
  unfold Block.leftOver
  rw [← h.fees_eq]
  dsimp only [newFeeSummary]
  constructor
  · intro heq
    rcases hpayout with hpayout | ⟨k, hpayout⟩
    · omega
    · obtain rfl : k = 0 := by omega
      omega
  · intro hzero
    have hnone : feesFrom 0 block.transactions * 70 / 100 = 0 :=
      UInt64.toNat_inj.1 (by rw [UInt64.toNat_zero]; omega)
    rw [validatorPayout_of_share_eq_zero hnone]
    omega

end

/-- Fees are conserved exactly when what the contract transactions leave unspent makes up for what
the split leaves over. Without contract transactions and overflow no fee is. -/
theorem fee_conservation_iff {block : Block} {parentHeader : BlockHeader}
    {expectedPrevHash : Hash} {vm : Option VM} {now : ℕ → UInt64} {s s' : InMemoryState}
    (h : validateBlock block parentHeader expectedPrevHash vm now s = .ok () s')
    (hevidence : block.evidence = []) (hb : isEpochBoundary block.header.height s = .ok false) :
    (FeesConserved block s s' ↔ block.unspent vm now s = block.leftOver s) ∧
    (block.maxFees < 2 ^ 64 → (∀ tx ∈ block.transactions, contractCall vm tx = none) →
      (FeesConserved block s s' ↔ block.transactions = [])) := by
  obtain ⟨s₁, s₂, s₃, start, epoch, rs, ha, rfl⟩ := validateBlock_eq_ok.1 h
  have hsheet := ha.supply_eq hevidence hb
  have hsplit := ha.paid_add_unspent
  have hiff : FeesConserved block s (committed s₃) ↔
      block.unspent vm now s = block.leftOver s := by
    unfold FeesConserved Block.leftOver
    omega
  refine ⟨hiff, fun hfits hplain => ?_⟩
  have hnone : block.unspent vm now s = 0 := by
    refine List.sum_eq_zero fun n hn => ?_
    obtain ⟨st, hst, rfl⟩ := List.mem_map.1 hn
    have hmem : st.tx ∈ block.transactions := ha.map_tx_steps ▸ List.mem_map_of_mem hst
    rw [TxStep.paid, show contractCall (block.context vm now).vm st.tx = none from hplain _ hmem]
    exact sub_self _
  rw [hiff, hnone, eq_comm, ha.leftOver_eq_zero_iff hfits]
  constructor
  · intro hzero
    by_contra hne
    exact (ha.maxFees_pos hplain hne).ne' hzero
  · intro hempty
    rw [Block.maxFees, hempty]
    rfl

end

open Sample

theorem isEpochBoundary_sampleLedger (accounts : Map Address Account) :
    isEpochBoundary 1 (sampleLedger accounts) = .ok false := by
  have hbpe : (sampleLedger accounts).getBytes keyBlocksPerEpoch = none := by
    show (sampleLedger ∅).getBytes _ = none
    decide +kernel
  simp only [isEpochBoundary, blocksPerEpoch, readCounter, hbpe]
  decide

/-- A payment and a call that names 45 as its fee and uses 30 gas. -/
def mixedTxs : List Transaction := [samplePayment, { sampleCall with maxFee := 45 }]

theorem runLoop_mixedTxs : ∃ rs s₂ s₃,
    runLoop sampleContext 0 mixedTxs (sampleLedgerBegun sampleAccounts) = .ok rs s₂ ∧
      finalizeBlock (newFeeSummary (feesFrom 0 mixedTxs)) s₂ = .ok () s₃ := by
  obtain ⟨rs, s₂, hloop, h⟩ := exists_of_succeedsWith (show succeedsWith (fun _ s₂ => succeedsWith
    (fun _ _ => true) (finalizeBlock (newFeeSummary (feesFrom 0 mixedTxs)) s₂))
    (runLoop sampleContext 0 mixedTxs (sampleLedgerBegun sampleAccounts)) = true by decide +kernel)
  obtain ⟨u, s₃, hfin, -⟩ := exists_of_succeedsWith h
  exact ⟨rs, s₂, s₃, hloop, hfin⟩

theorem fee_conservation_mixed : ∃ block s', block.transactions = mixedTxs ∧
    validateBlock block sampleParent hashA sampleContext.vm sampleContext.now
      (sampleLedger sampleAccounts) = .ok () s' ∧
    FeesConserved block (sampleLedger sampleAccounts) s' := by
  obtain ⟨rs, s₂, s₃, hloop, hfin⟩ := runLoop_mixedTxs
  have hval := firstBlock_accepted zeroHash [0] [] rfl (by decide) hloop hfin
  refine ⟨_, _, rfl, hval, (fee_conservation_iff hval rfl
    (isEpochBoundary_sampleLedger sampleAccounts)).1.2 ?_⟩
  have hunspent : ((stepsOf sampleContext [] mixedTxs (sampleLedger sampleAccounts)).map
      fun st => (st.tx.maxFee.toNat : ℤ) - st.paid sampleContext).sum = 15 := by
    decide +kernel
  have hpayout : validatorPayout 145 (activeAfter 0 (sampleLedger sampleAccounts)) = 101 := by
    decide +kernel
  refine Eq.trans hunspent ?_
  show (15 : ℤ) = ((mixedTxs.map fun tx => tx.maxFee.toNat).sum : ℕ) -
    (validatorPayout 145 (activeAfter 0 (sampleLedger sampleAccounts)) : ℕ) - (29 : ℕ)
  rw [hpayout]
  decide

theorem payment_loses_treasury_share : ¬ ∀ (_ : Crypto) (block : Block)
    (parentHeader : BlockHeader) (expectedPrevHash : Hash) (vm : Option VM) (now : ℕ → UInt64)
    (s s' : InMemoryState), validateBlock block parentHeader expectedPrevHash vm now s = .ok () s' →
    block.evidence = [] → isEpochBoundary block.header.height s = .ok false →
    FeesConserved block s s' := by
  intro h
  obtain ⟨r, s₂, s₃, hrun, hfin, htotal, -⟩ := runTx_samplePayment
  have hval := firstBlock_accepted zeroHash [0] [] rfl
    (by decide) (runLoop_singleton hrun) hfin
  have hcons := h sampleCrypto _ _ _ _ _ _ _ hval rfl (isEpochBoundary_sampleLedger sampleAccounts)
  have hafter : supply (committed s₃) = 970 := htotal
  have hbefore : supply (sampleLedger sampleAccounts) = 1000 := by decide +kernel
  have hbonded : ([samplePayment].map stakeOf).sum = 0 := by decide +kernel
  have hburn : (newFeeSummary (feesFrom 0 [samplePayment])).burnShare.toNat = 20 := by
    decide +kernel
  unfold FeesConserved at hcons
  rw [hafter, hbefore] at hcons
  change 970 + ([samplePayment].map stakeOf).sum +
    (newFeeSummary (feesFrom 0 [samplePayment])).burnShare.toNat = 1000 at hcons
  rw [hbonded, hburn] at hcons
  exact absurd hcons (by decide)

end Dsn
