import Dsn.Staking.Operations

/-!
# Does a failed operation leave a trace?

For each operation, the states on which it fails after a write.
-/

namespace Dsn

open Go InMemoryState

variable {e : Error} {a b : Amount}

/-! ### Failing without a trace -/

/-- Accounts and store are as they were. -/
structure Unaltered (s s' : InMemoryState) : Prop where
  accounts : s'.accounts = s.accounts
  kvstore : s'.kvstore = s.kvstore

theorem Unaltered.refl (s : InMemoryState) : Unaltered s s := ⟨rfl, rfl⟩

section

variable {α β : Type} {x : Exec InMemoryState α} {y : Exec InMemoryState β}
  {s s' t : InMemoryState} {p : Prop}

def FailsWithoutTrace (x : Exec InMemoryState α) (s : InMemoryState) : Prop :=
  ∀ e s', x s = .error e s' → e.isPanic = false → Unaltered s s'

structure FailsCleanly (x : Exec InMemoryState α) (s : InMemoryState) (p : Prop) : Prop where
  fails : p → ∃ e, x s = .error e s ∧ e.isPanic = false
  succeeds : ¬ p → ∃ a s', x s = .ok a s'

theorem failsWithoutTrace_of_error (h : x s = .error e s) : FailsWithoutTrace x s := by
  intro e' s' h' _
  cases h.symm.trans h'
  exact .refl s

theorem failsWithoutTrace_of_atomic (h : Atomic x) (s : InMemoryState) : FailsWithoutTrace x s := by
  intro e s' herr _
  rw [h s e s' herr]
  exact .refl s

theorem failsWithoutTrace_bind_pure {f : α → β} :
    FailsWithoutTrace (x >>= fun a => pure (f a)) s ↔ FailsWithoutTrace x s := by
  have herror (e : Error) (s' : InMemoryState) :
      (x >>= fun a => pure (f a)) s = .error e s' ↔ x s = .error e s' := by
    rw [bind_eq_error]
    refine ⟨fun h => h.resolve_right ?_, .inl⟩
    rintro ⟨_, _, -, h⟩
    cases h
  unfold FailsWithoutTrace
  simp only [herror]

theorem FailsCleanly.of_iff {q : Prop} (hx : FailsCleanly x s p) (h : p ↔ q) :
    FailsCleanly x s q :=
  ⟨fun hq => hx.fails (h.2 hq), fun hq => hx.succeeds fun hp => hq (h.1 hp)⟩

theorem FailsCleanly.of_run {z : Exec InMemoryState α} (h : x s = z s) (hz : FailsCleanly z s p) :
    FailsCleanly x s p :=
  ⟨fun hp => h ▸ hz.fails hp, fun hp => h ▸ hz.succeeds hp⟩

theorem FailsCleanly.of_ok {a : α} (h : x s = .ok a s') : FailsCleanly x s False :=
  ⟨False.elim, fun _ => ⟨a, s', h⟩⟩

variable {f : β → Exec InMemoryState α} {q : β → Prop}

theorem FailsCleanly.ofResult_bind {r : Except Error β}
    (hpanic : ∀ e, r = .error e → e.isPanic = false)
    (hf : ∀ b, r = .ok b → FailsCleanly (f b) s (q b)) :
    FailsCleanly (ofResult r >>= f) s (∀ b, r = .ok b → q b) := by
  cases r with
  | error e =>
    refine ⟨fun _ => ⟨e, rfl, hpanic e rfl⟩, fun hno => absurd (fun b h => ?_) hno⟩
    cases h
  | ok b =>
    refine FailsCleanly.of_iff (hf b rfl) ⟨fun hq _ h => ?_, fun h => h b rfl⟩
    cases h
    exact hq

theorem FailsCleanly.asks_bind {g : InMemoryState → Except Error β}
    (hpanic : ∀ e, g s = .error e → e.isPanic = false)
    (hf : ∀ b, g s = .ok b → FailsCleanly (f b) s (q b)) :
    FailsCleanly (asks g >>= f) s (∀ b, g s = .ok b → q b) := by
  have hrun : (asks g >>= f) s = (ofResult (g s) >>= f) s := by
    cases h : g s with
    | error e => exact bind_eq_error_of (asks_of_error h)
    | ok b => exact Go.asks_bind h
  exact .of_run hrun (.ofResult_bind hpanic hf)

theorem failsWithoutTrace_iff (hx : ∀ e s', x s = .error e s' ↔ y t = .error e s')
    (hy : FailsCleanly y t p) : FailsWithoutTrace x s ↔ (p → Unaltered s t) := by
  unfold FailsWithoutTrace
  simp only [hx]
  constructor
  · intro h hp
    obtain ⟨e, herr, hpanic⟩ := hy.fails hp
    exact h e t herr hpanic
  · intro h e s' herr _
    by_cases hp : p
    · obtain ⟨e', herr', -⟩ := hy.fails hp
      cases herr'.symm.trans herr
      exact h hp
    · obtain ⟨a, t', hok⟩ := hy.succeeds hp
      cases hok.symm.trans herr

theorem unaltered_setBalance_iff {addr : Address} {acc : Account} {bal : Amount}
    (hacc : s.accounts[addr]? = some acc) :
    Unaltered s (s.setAccount addr { acc with balance := bal }) ↔ bal.val = acc.balance.val := by
  constructor
  · intro h
    have hget := get_setAccount_self addr { acc with balance := bal } s
    rw [h.accounts, hacc] at hget
    exact congrArg (fun a => a.balance.val) (Option.some.inj hget).symm
  · intro h
    obtain rfl : bal = acc.balance := Amount.ext h
    exact ⟨Map.insert_of_get hacc, rfl⟩

end

/-! ### The bonded total -/

def CannotAdd (n : ℕ) (s : InMemoryState) : Prop :=
  ∀ total, totalBonded s = .ok total → 2 ^ 128 ≤ total.val + n

def CannotTake (n : ℕ) (s : InMemoryState) : Prop :=
  ∀ total, totalBonded s = .ok total → total.val < n

section

variable {α : Type} {s : InMemoryState}

theorem totalBonded_not_isPanic (h : totalBonded s = .error e) : e.isPanic = false := by
  unfold totalBonded Amount.unmarshalBinary at h
  split at h
  · cases h
  · split_ifs at h
    cases h
    rfl

theorem Amount.add_not_isPanic (h : a.add b = .error e) :
    e.isPanic = false := by
  unfold Amount.add at h
  split_ifs at h
  cases h
  rfl

theorem Amount.sub_not_isPanic (h : a.sub b = .error e) :
    e.isPanic = false := by
  unfold Amount.sub at h
  split_ifs at h
  cases h
  rfl

theorem Amount.add_fails_iff :
    (∀ c, a.add b = .ok c → False) ↔ 2 ^ 128 ≤ a.val + b.val := by
  simp only [Amount.add_eq_ok]
  constructor
  · intro h
    by_contra hlt
    exact h ⟨_, not_le.1 hlt⟩ rfl
  · intro h c hc
    have := c.lt
    omega

theorem Amount.sub_fails_iff : (∀ c, a.sub b = .ok c → False) ↔ a.val < b.val := by
  simp only [Amount.sub_eq_ok]
  constructor
  · intro h
    by_contra hle
    refine h ⟨a.val - b.val, (Nat.sub_le _ _).trans_lt a.lt⟩ ?_
    exact (Nat.sub_add_cancel (not_lt.1 hle)).symm
  · intro h c hc
    omega

variable {amount : Amount} {rest : Amount → Exec InMemoryState α}

section

variable (hrest : ∀ total t, ∃ a t', rest total t = .ok a t')
include hrest

theorem changeTotal_failsCleanly {g : Amount → Except Error Amount}
    (hpanic : ∀ total e, g total = .error e → e.isPanic = false) :
    FailsCleanly (asks totalBonded >>= fun total => ofResult (g total) >>= rest) s
      (∀ total, totalBonded s = .ok total → ∀ c, g total = .ok c → False) := by
  refine .asks_bind (fun e => totalBonded_not_isPanic) fun total _ => ?_
  refine .ofResult_bind (hpanic total) fun newTotal _ => ?_
  obtain ⟨a, t', hok⟩ := hrest newTotal s
  exact .of_ok hok

theorem addToTotal_failsCleanly :
    FailsCleanly (asks totalBonded >>= fun total => ofResult (total.add amount) >>= rest) s
      (CannotAdd amount.val s) :=
  (changeTotal_failsCleanly hrest fun _ _ => Amount.add_not_isPanic).of_iff
    (forall₂_congr fun _ _ => Amount.add_fails_iff)

theorem takeFromTotal_failsCleanly :
    FailsCleanly (asks totalBonded >>= fun total => ofResult (total.sub amount) >>= rest) s
      (CannotTake amount.val s) :=
  (changeTotal_failsCleanly hrest fun _ _ => Amount.sub_not_isPanic).of_iff
    (forall₂_congr fun _ _ => Amount.sub_fails_iff)

end

theorem cannotAdd_congr {n : ℕ} {t : InMemoryState} (h : totalBonded t = totalBonded s) :
    CannotAdd n t ↔ CannotAdd n s := by
  unfold CannotAdd
  rw [h]

end

section

variable [Crypto] {s : InMemoryState} {id sender : Address} {amount : Amount} {v : Validator}
  {acc : Account}

/-! ### Bonding -/

structure Bondable (sender id : Address) (amount : Amount) (s : InMemoryState) (acc : Account)
    (v : Validator) : Prop where
  found : s.accounts[sender]? = some acc
  covered : amount.val ≤ acc.balance.val
  record : getValidator id s = .ok v
  accepts : v.status = validatorPending ∨ v.status = validatorActive

def bookStake (v : Validator) (amount : Amount) : Exec InMemoryState Amount := do
  let newStake ← ofResult (v.bondedStake.add amount)
  let total ← asks totalBonded
  let newTotal ← ofResult (total.add amount)
  setTotalBonded newTotal
  updateValidator { v with bondedStake := newStake }
  return newStake

omit [Crypto] in
theorem bookStake_failsCleanly (v : Validator) (amount : Amount) (s : InMemoryState) :
    FailsCleanly (bookStake v amount) s
      (2 ^ 128 ≤ v.bondedStake.val + amount.val ∨ CannotAdd amount.val s) := by
  have hclean : FailsCleanly (bookStake v amount) s
      (∀ newStake, v.bondedStake.add amount = .ok newStake → CannotAdd amount.val s) := by
    refine .ofResult_bind (fun e => Amount.add_not_isPanic) fun newStake _ => ?_
    exact addToTotal_failsCleanly fun _ _ => ⟨_, _, rfl⟩
  refine hclean.of_iff ?_
  rw [← Amount.add_fails_iff]
  constructor
  · intro h
    by_cases hadd : CannotAdd amount.val s
    · exact .inr hadd
    · exact .inl fun c hc => hadd (h c hc)
  · rintro (h | h) c hc
    · exact absurd hc (h c)
    · exact h

theorem bond_of_bondable (h : Bondable sender id amount s acc v) : ∃ bal : Amount,
    acc.balance.val = bal.val + amount.val ∧
      bond sender id amount s =
        bookStake v amount (s.setAccount sender { acc with balance := bal }) := by
  obtain ⟨bal, hbal, hsub⟩ := subBalance_ok amount h.found h.covered
  have hst : ¬ (v.status ≠ validatorPending ∧ v.status ≠ validatorActive) := fun hne =>
    h.accepts.elim hne.1 hne.2
  refine ⟨bal, hbal, ?_⟩
  unfold bond
  rw [wrapErr_bind (asks_eq_ok.2 ⟨getAccount_eq_ok.2 h.found, rfl⟩),
    failIf_bind (not_lt.2 h.covered), asks_bind h.record, failIf_bind hst, bind_eq_ok_of hsub]
  rfl

theorem bond_of_not_bondable (h : ¬ ∃ acc v, Bondable sender id amount s acc v) :
    ∃ e, bond sender id amount s = .error e s := by
  unfold bond
  cases hacc : getAccount sender s with
  | error e => exact ⟨_, bind_eq_error_of (wrapErr_of_error (asks_of_error hacc))⟩
  | ok acc =>
    rw [wrapErr_bind (asks_eq_ok.2 ⟨hacc, rfl⟩)]
    by_cases hlow : acc.balance.val < amount.val
    · exact ⟨_, bind_eq_error_of (failIf_of _ hlow _)⟩
    rw [failIf_bind hlow]
    cases hv : getValidator id s with
    | error e => exact ⟨_, bind_eq_error_of (asks_of_error hv)⟩
    | ok v =>
      rw [asks_bind hv]
      by_cases hst : v.status ≠ validatorPending ∧ v.status ≠ validatorActive
      · exact ⟨_, bind_eq_error_of (failIf_of _ hst _)⟩
      · refine absurd ⟨acc, v, getAccount_eq_ok.1 hacc, not_lt.1 hlow, hv, ?_⟩ h
        rwa [not_and_or, not_not, not_not] at hst

theorem bond_failsWithoutTrace_iff : FailsWithoutTrace (bond sender id amount) s ↔
    ¬ ∃ acc v, Bondable sender id amount s acc v ∧ 0 < amount.val ∧
      (2 ^ 128 ≤ v.bondedStake.val + amount.val ∨ CannotAdd amount.val s) := by
  by_cases hchecks : ∃ acc v, Bondable sender id amount s acc v
  · obtain ⟨acc, v, hb⟩ := hchecks
    obtain ⟨bal, hbal, hrun⟩ := bond_of_bondable hb
    have hclean := bookStake_failsCleanly v amount (s.setAccount sender { acc with balance := bal })
    rw [failsWithoutTrace_iff (fun e s' => by rw [hrun]) hclean, unaltered_setBalance_iff hb.found]
    constructor
    · rintro h ⟨acc', v', hb', hpos, hfails⟩
      cases hb.record.symm.trans hb'.record
      have hsame := h hfails
      omega
    · intro h hfails
      by_contra hne
      exact h ⟨acc, v, hb, by omega, hfails⟩
  · obtain ⟨e, he⟩ := bond_of_not_bondable hchecks
    refine iff_of_true (failsWithoutTrace_of_error he) ?_
    rintro ⟨acc, v, hb, -⟩
    exact hchecks ⟨acc, v, hb⟩

/-! ### Releasing a stake -/

structure Releasable (id : Address) (s : InMemoryState) (acc : Account) (v : Validator) : Prop where
  record : getValidator id s = .ok v
  unstaking : v.status = validatorUnstaking
  found : s.accounts[v.operatorAddress]? = some acc
  room : acc.balance.val + v.bondedStake.val < 2 ^ 128

theorem removeValidator_failsCleanly (hv : getValidator id s = .ok v)
    (hst : v.status = validatorUnstaking) :
    FailsCleanly (removeValidator id) s (CannotTake v.bondedStake.val s) := by
  have hmove : v.transitionTo validatorRemoved = .ok { v with status := validatorRemoved } :=
    transitionTo_eq_ok.2 ⟨by rw [hst]; decide, rfl⟩
  have hrun : removeValidator id s = (asks totalBonded >>= fun total =>
      ofResult (total.sub v.bondedStake) >>= fun newTotal => do
        setTotalBonded newTotal
        modify (deleteBytes (validatorPubkeyKey v.publicKey))
        modify (deleteBytes (validatorOperatorKey v.operatorAddress))
        updateValidator { v with status := validatorRemoved }) s := by
    unfold removeValidator
    rw [asks_bind hv, failIf_bind (not_not.2 hst), ofResult_bind hmove]
  exact .of_run hrun (takeFromTotal_failsCleanly fun _ _ => ⟨_, _, rfl⟩)

theorem releaseStake_of_releasable (h : Releasable id s acc v) : ∃ bal : Amount,
    acc.balance.val + v.bondedStake.val = bal.val ∧ releaseStake id s =
      removeValidator id (s.setAccount v.operatorAddress { acc with balance := bal }) := by
  refine ⟨⟨_, h.room⟩, rfl, ?_⟩
  unfold releaseStake
  rw [asks_bind h.record, failIf_bind (not_not.2 h.unstaking),
    wrapErr_bind (asks_eq_ok.2 ⟨getAccount_eq_ok.2 h.found, rfl⟩),
    bind_eq_ok_of (addBalance_eq_ok (u := ()).2 ⟨acc, ⟨_, h.room⟩, h.found, rfl, rfl⟩)]

theorem releaseStake_of_not_releasable (h : ¬ ∃ acc v, Releasable id s acc v) :
    ∃ e, releaseStake id s = .error e s := by
  unfold releaseStake
  cases hv : getValidator id s with
  | error e => exact ⟨_, bind_eq_error_of (asks_of_error hv)⟩
  | ok v =>
    rw [asks_bind hv]
    by_cases hst : v.status ≠ validatorUnstaking
    · exact ⟨_, bind_eq_error_of (failIf_of _ hst _)⟩
    rw [failIf_bind hst]
    cases hacc : getAccount v.operatorAddress s with
    | error e => exact ⟨_, bind_eq_error_of (wrapErr_of_error (asks_of_error hacc))⟩
    | ok acc =>
      rw [wrapErr_bind (asks_eq_ok.2 ⟨hacc, rfl⟩)]
      cases hadd : addBalance v.operatorAddress v.bondedStake s with
      | error e s' =>
        obtain rfl := addBalance_atomic _ _ _ hadd
        exact ⟨e, bind_eq_error_of hadd⟩
      | ok u t =>
        obtain ⟨acc', bal, hacc', hbal, -⟩ := addBalance_eq_ok.1 hadd
        exact absurd ⟨acc', v, hv, not_not.1 hst, hacc', hbal ▸ bal.lt⟩ h

theorem releaseStake_failsWithoutTrace_iff : FailsWithoutTrace (releaseStake id) s ↔
    ¬ ∃ acc v, Releasable id s acc v ∧ 0 < v.bondedStake.val ∧ CannotTake v.bondedStake.val s := by
  by_cases hchecks : ∃ acc v, Releasable id s acc v
  · obtain ⟨acc, v, hr⟩ := hchecks
    obtain ⟨bal, hbal, hrun⟩ := releaseStake_of_releasable hr
    have hrecord : getValidator id (s.setAccount v.operatorAddress { acc with balance := bal }) =
        .ok v := (getValidator_of_kvstore rfl).trans hr.record
    rw [
      failsWithoutTrace_iff (fun e s' => by rw [hrun])
        (removeValidator_failsCleanly hrecord hr.unstaking),
      unaltered_setBalance_iff hr.found]
    constructor
    · rintro h ⟨acc', v', hr', hpos, hfails⟩
      cases hr.record.symm.trans hr'.record
      have hsame := h hfails
      omega
    · intro h hfails
      by_contra hne
      exact h ⟨acc, v, hr, by omega, hfails⟩
  · obtain ⟨e, he⟩ := releaseStake_of_not_releasable hchecks
    refine iff_of_true (failsWithoutTrace_of_error he) ?_
    rintro ⟨acc, v, hr, -⟩
    exact hchecks ⟨acc, v, hr⟩

/-! ### Registration -/

theorem registerValidator_failsWithoutTrace_iff {pubKey : PublicKey} {operator : Address}
    {stake : Amount} {commission : UInt16} {epoch : UInt64} :
    FailsWithoutTrace (registerValidator pubKey operator stake commission epoch) s ↔
      ¬ ∃ v count, Enrolls s v count ∧
        newValidator (deriveConsensusID pubKey.bytes) pubKey operator stake commission epoch =
          .ok v ∧ CannotAdd stake.val s := by
  by_cases hchecks : ∃ v count, Enrolls s v count ∧
      newValidator (deriveConsensusID pubKey.bytes) pubKey operator stake commission epoch = .ok v
  · obtain ⟨v, count, henrol, hv⟩ := hchecks
    have hrun := registerValidator_of_enrolls henrol hv
    have hclean : FailsCleanly (addStake (deriveConsensusID pubKey.bytes) stake)
        (enrolled s v count) (CannotAdd stake.val (enrolled s v count)) :=
      addToTotal_failsCleanly fun _ _ => ⟨_, _, rfl⟩
    -- the count of validators has gone up
    have htrace : ¬ Unaltered s (enrolled s v count) := by
      intro h
      have hcount : validatorCount (enrolled s v count) = .ok (count + 1) := by
        unfold validatorCount readCounter enrolled
        rw [getBytes_setBytes_self]
        exact getUint64_putUint64 _
      have hsame : validatorCount (enrolled s v count) = validatorCount s :=
        validatorCount_congr (by unfold getBytes; rw [h.kvstore])
      have hnext : count + 1 = count := Except.ok.inj
        (hcount.symm.trans (hsame.trans henrol.count_eq))
      have hval := congrArg UInt64.toNat hnext
      rw [UInt64.toNat_add, UInt64.toNat_one] at hval
      omega
    rw [failsWithoutTrace_iff (fun e s' => by rw [hrun]) hclean,
      cannotAdd_congr (totalBonded_of_keys (enrolled_keys s v count))]
    constructor
    · rintro h ⟨_, _, -, -, hfails⟩
      exact htrace (h hfails)
    · exact fun h hfails => absurd ⟨v, count, henrol, hv, hfails⟩ h
  · rcases registerValidator_cases pubKey operator stake commission epoch s with
      ⟨e, he⟩ | ⟨v, count, henrol, hv, -⟩
    · refine iff_of_true (failsWithoutTrace_of_error he) ?_
      rintro ⟨v, count, henrol, hv, -⟩
      exact hchecks ⟨v, count, henrol, hv⟩
    · exact absurd ⟨v, count, henrol, hv⟩ hchecks

/-! ### Slashing -/

omit [Crypto] in
theorem currentEpoch_isPanic (h : currentEpoch s = .error e) : e.isPanic = true := by
  unfold currentEpoch readCounter at h
  split at h
  · cases h
  · exact getUint64_isPanic h

omit [Crypto] in
theorem jail_onlyPanics {jailEpochs : UInt64} (hst : v.status = validatorActive) : OnlyPanics (do
    let epoch ← asks currentEpoch
    let v ← wrapErr "jail validator" (ofResult (v.transitionTo validatorJailed))
    updateValidator { v with jailedUntil := epoch + jailEpochs } : Exec InMemoryState Unit) := by
  refine OnlyPanics.bind (OnlyPanics.asks fun _ _ => currentEpoch_isPanic) fun epoch => ?_
  intro s e s' h
  have hmove : v.transitionTo validatorJailed = .ok { v with status := validatorJailed } :=
    transitionTo_eq_ok.2 ⟨by rw [hst]; decide, rfl⟩
  rw [wrapErr_bind (ofResult_eq_ok.2 ⟨hmove, rfl⟩)] at h
  cases h

theorem applySlash_failsWithoutTrace (percent jailEpochs : UInt64) (s : InMemoryState) :
    FailsWithoutTrace (applySlash id percent jailEpochs) s := by
  intro e s' h hpanic
  rcases asks_bind_eq_error h with rfl | ⟨v, -, h⟩
  · exact .refl _
  rcases failIf_bind_eq_error h with rfl | ⟨-, h⟩
  · exact .refl _
  rcases eq_or_of_bind_eq_error (Steps.ofResult _) h with rfl | ⟨amount, -, h⟩
  · exact .refl _
  split_ifs at h
  · cases h
  rcases ofResult_bind_eq_error h with rfl | ⟨newStake, -, h⟩
  · exact .refl _
  rcases asks_bind_eq_error h with rfl | ⟨total, -, h⟩
  · exact .refl _
  rcases ofResult_bind_eq_error h with rfl | ⟨newTotal, -, h⟩
  · exact .refl _
  split_ifs at h with hst
  · have hjail := jail_onlyPanics (v := { v with bondedStake := newStake }) hst _ _ _ h
    rw [hpanic] at hjail
    cases hjail
  · cases h

/-! ### All operations -/

/-- The operation fails after it has written. -/
def LeavesTrace (s : InMemoryState) : StakingOp → Prop
  | .register pubKey operator stake commission epoch => ∃ v count, Enrolls s v count ∧
      newValidator (deriveConsensusID pubKey.bytes) pubKey operator stake commission epoch = .ok v ∧
        CannotAdd stake.val s
  | .bond sender id amount => ∃ acc v, Bondable sender id amount s acc v ∧ 0 < amount.val ∧
      (2 ^ 128 ≤ v.bondedStake.val + amount.val ∨ CannotAdd amount.val s)
  | .releaseStake id => ∃ acc v, Releasable id s acc v ∧ 0 < v.bondedStake.val ∧
      CannotTake v.bondedStake.val s
  | .slash _ _ | .applySlash _ _ _ | .activate _ _ | .jail _ _ | .unjail _ | .startUnstake _ _
  | .remove _ => False

/-- An error leaves no trace, unless a total fails after a write. -/
theorem op_atomic_iff (o : StakingOp) (s : InMemoryState) :
    (∀ e s', o.run s = .error e s' → e.isPanic = false →
      s'.accounts = s.accounts ∧ s'.kvstore = s.kvstore) ↔ ¬ LeavesTrace s o := by
  have hdef : (∀ e s', o.run s = .error e s' → e.isPanic = false →
      s'.accounts = s.accounts ∧ s'.kvstore = s.kvstore) ↔ FailsWithoutTrace o.run s :=
    forall₄_congr fun _ _ _ _ => ⟨fun h => ⟨h.1, h.2⟩, fun h => ⟨h.1, h.2⟩⟩
  have hatomic (h : Atomic o.run) (hno : ¬ LeavesTrace s o) :
      FailsWithoutTrace o.run s ↔ ¬ LeavesTrace s o :=
    iff_of_true (failsWithoutTrace_of_atomic h s) hno
  rw [hdef]
  cases o with
  | register pubKey operator stake commission epoch =>
    exact failsWithoutTrace_bind_pure.trans registerValidator_failsWithoutTrace_iff
  | bond sender id amount => exact failsWithoutTrace_bind_pure.trans bond_failsWithoutTrace_iff
  | slash id amount =>
    refine failsWithoutTrace_bind_pure.trans (iff_of_true ?_ False.elim)
    exact failsWithoutTrace_of_atomic slash_atomic s
  | applySlash id percent jailEpochs =>
    exact iff_of_true (applySlash_failsWithoutTrace percent jailEpochs s) False.elim
  | releaseStake id => exact releaseStake_failsWithoutTrace_iff
  | activate id epoch => exact hatomic (activateValidator_atomic epoch) False.elim
  | jail id untilEpoch => exact hatomic jailValidator_atomic False.elim
  | unjail id => exact hatomic unjailValidator_atomic False.elim
  | startUnstake id epoch => exact hatomic startUnstake_atomic False.elim
  | remove id => exact hatomic removeValidator_atomic False.elim

end

open Sample

def sampleFullTotal : InMemoryState :=
  ((singleRegistry sampleValidator).setAccount zeroAddress
    { newAccount zeroAddress (FixedBytes.zero 32) with balance := .ofUInt64 10 }).setBytes
      keyTotalBonded (List.replicate 16 255)

theorem failed_bond_takes_token : ¬ ∀ (_ : Crypto) (o : StakingOp) (s s' : InMemoryState)
    (e : Error), o.run s = .error e s' → e.isPanic = false →
      s'.accounts = s.accounts ∧ s'.kvstore = s.kvstore := by
  intro h
  have hrun : FailsWithoutTrace (StakingOp.bond zeroAddress zeroAddress (.ofUInt64 1)).run
      sampleFullTotal := by
    intro e s' herr hpanic
    have hsame := h sampleCrypto _ _ s' e herr hpanic
    exact ⟨hsame.1, hsame.2⟩
  have hclean : FailsWithoutTrace (bond zeroAddress zeroAddress (.ofUInt64 1)) sampleFullTotal :=
    failsWithoutTrace_bind_pure.1 hrun
  refine bond_failsWithoutTrace_iff.1 hclean ⟨{ newAccount zeroAddress (FixedBytes.zero 32) with
    balance := .ofUInt64 10 }, sampleValidator, ⟨by decide +kernel, by decide, by decide +kernel,
      .inr rfl⟩, by decide, .inr fun total htotal => ?_⟩
  have hfull : totalBonded sampleFullTotal = .ok ⟨2 ^ 128 - 1, by decide⟩ := by decide +kernel
  cases hfull.symm.trans htotal
  decide

end Dsn
