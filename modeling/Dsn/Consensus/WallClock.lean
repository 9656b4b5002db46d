import Dsn.Consensus.Replay

/-!
# Does a block stay valid?

`ApplyTransaction` compares timestamps with the clock of the machine. The verdict is followed to the
first plain transaction and split there by the time at which it is tried.
-/

namespace Dsn

open Go InMemoryState

section

/-! ### Nonces in blocks that fail -/

theorem nonceGrows_debits (a : Address) : Debits NonceGrows a := fun _ _ _ => le_rfl

variable [Crypto]

theorem applyTransaction_nonceGrows (now : UInt64) (tx : Transaction) :
    Steps (Accounts NonceGrows) (applyTransaction now tx) := by
  intro s
  cases h : applyTransaction now tx s with
  | ok receipt s' =>
    obtain ⟨-, sender, s1, s2, happ⟩ := applyTransaction_eq_ok.1 h
    exact happ.nonceGrows
  | error e s' =>
    -- an error leaves what the payload and the fee did; the nonce comes last
    refine rel_of_bind_eq_error ((Steps.ofResult _).wrapErr _) (fun _ => ?_) s e s' h
    refine rel_of_bind_eq_error ((Steps.asks _).wrapErr _) fun sender => ?_
    refine rel_of_bind_eq_error (Steps.failIf _ _) fun _ => ?_
    refine rel_of_bind_eq_error (Steps.failIf _ _) fun _ => ?_
    refine rel_of_bind_eq_error (Steps.failIf _ _) fun _ => ?_
    refine rel_of_bind_eq_error
      (applyPayload_accounts nonceGrows_credits (nonceGrows_debits _) _ _) fun _ => ?_
    refine rel_of_bind_eq_error (subBalance_accounts (nonceGrows_debits _) _)
      fun _ t e t' hlast => ?_
    rcases bind_eq_error.1 hlast with hbump | ⟨_, _, _, hpure⟩
    · rw [incrementNonce_atomic _ _ _ hbump]
      exact Std.Refl.refl t
    · cases hpure

theorem chargeGas_nonceGrows (addr : Address) (gas : UInt64) :
    Steps (Accounts NonceGrows) (chargeGas addr gas) :=
  ((Steps.asks _).wrapErr _).bind fun _ => (Steps.failIf _ _).bind fun _ =>
    subBalance_accounts (nonceGrows_debits _) _

theorem runContract_nonceGrows (c : ContractCall) (height timestamp : UInt64) (txIndex : UInt32) :
    Steps (Accounts NonceGrows) (runContract c height timestamp txIndex) :=
  fun s => .of_eq (runContract_frame c height timestamp txIndex s).accounts

theorem validateStep_nonceGrows (vm : Option VM) (height timestamp now : UInt64) (i : ℕ)
    (tx : Transaction) (acc : ValidateAcc) :
    Steps (Accounts NonceGrows) (validateStep vm height timestamp now i tx acc) := by
  unfold validateStep
  cases contractCall vm tx with
  | none => exact ((applyTransaction_nonceGrows _ _).wrapErr _).bind fun _ => Steps.pure _
  | some c =>
    exact (runContract_nonceGrows _ _ _ _).bind fun _ =>
      ((chargeGas_nonceGrows _ _).wrapErr _).bind fun _ => Steps.pure _

theorem validateLoop_nonceGrows (vm : Option VM) (height timestamp : UInt64) (now : ℕ → UInt64)
    (i : ℕ) (acc : ValidateAcc) (txs : List Transaction) :
    Steps (Accounts NonceGrows) (validateLoop vm height timestamp now i acc txs) := by
  induction txs generalizing i acc with
  | nil => exact Steps.pure _
  | cons tx rest ih => exact (validateStep_nonceGrows _ _ _ _ _ _ _).bind fun _ => ih _ _

/-! ### Timestamps -/

omit [Crypto] in
theorem exists_late (ts : UInt64) : ∃ now e, validateTimestamp now ts = .error e := by
  refine ⟨ts + 100, errInvalidTimestamp, ?_⟩
  have hdrift : (ts + 100).toInt64 - ts.toInt64 = 100 := by
    rw [UInt64.toInt64_add, Int64.add_comm, Int64.add_sub_cancel]
    rfl
  unfold validateTimestamp
  rw [hdrift]
  rfl

omit [Crypto] in
theorem isPanic_of_validate {now : UInt64} {tx : Transaction} {e : Error}
    (h : tx.validate now = .error e) : e.isPanic = false := by
  have hfield {p : Prop} [Decidable p] {name : String} {err : Error}
      (h : check p (.field name err) = .error e) : e.isPanic = false := by
    rw [← (check_eq_error.1 h).2]
    rfl
  rcases except_bind_eq_error.1 h with h | ⟨_, -, h⟩
  · exact hfield h
  rcases except_bind_eq_error.1 h with h | ⟨_, -, h⟩
  · exact hfield h
  rcases except_bind_eq_error.1 h with h | ⟨_, -, h⟩
  · exact hfield h
  split at h
  · cases h
    rfl
  · exact hfield h

theorem exists_refusal (tx : Transaction) (s : InMemoryState) :
    ∃ now e, applyTransaction now tx s = .error e s ∧ e.isPanic = false := by
  obtain ⟨now, e0, hlate⟩ := exists_late tx.timestamp
  cases hval : tx.validate now with
  | ok u => cases hlate.symm.trans (Transaction.validate_eq_ok.1 hval).2.2.1
  | error e =>
    refine ⟨now, e.within "tx validation", ?_, ?_⟩
    · exact bind_eq_error_of (wrapErr_of_error (by rw [hval]; rfl))
    · rw [isPanic_within, isPanic_of_validate hval]

/-! ### Up to the first plain transaction -/

def firstPlain (ctx : TxContext) (i : ℕ) :
    List Transaction → InMemoryState → Option (Transaction × InMemoryState)
  | [], _ => none
  | tx :: rest, s =>
    match contractCall ctx.vm tx with
    | none => some (tx, s)
    | some _ =>
      match runTx ctx i tx s with
      | .ok _ s' => firstPlain ctx (i + 1) rest s'
      | .error _ _ => none

variable {c : ContractCall}

theorem validateStep_contract {vm : Option VM} {tx : Transaction}
    (h : contractCall vm tx = some c) (height timestamp now now' : UInt64) (i : ℕ)
    (acc : ValidateAcc) : validateStep vm height timestamp now i tx acc =
      validateStep vm height timestamp now' i tx acc := by
  unfold validateStep
  rw [h]

theorem validateLoop_firstPlain (ctx : TxContext) (i : ℕ) (acc : ValidateAcc)
    (txs : List Transaction) (s : InMemoryState) :
    (firstPlain ctx i txs s = none ∧ ∀ now,
      validateLoop ctx.vm ctx.height ctx.timestamp now i acc txs s =
        validateLoop ctx.vm ctx.height ctx.timestamp ctx.now i acc txs s) ∨
    ∃ tx t j rest acc', firstPlain ctx i txs s = some (tx, t) ∧ contractCall ctx.vm tx = none ∧
      ∀ now, validateLoop ctx.vm ctx.height ctx.timestamp now i acc txs s =
        validateLoop ctx.vm ctx.height ctx.timestamp now j acc' (tx :: rest) t := by
  induction txs generalizing i acc s with
  | nil => exact .inl ⟨rfl, fun _ => rfl⟩
  | cons tx rest ih =>
    cases hc : contractCall ctx.vm tx with
    | none =>
      refine .inr ⟨tx, s, i, rest, acc, ?_, hc, fun _ => rfl⟩
      rw [firstPlain, hc]
    | some c =>
      have hstep (now : ℕ → UInt64) := validateStep_contract hc ctx.height ctx.timestamp (now i)
        (ctx.now i) i acc
      cases hr : validateStep ctx.vm ctx.height ctx.timestamp (ctx.now i) i tx acc s with
      | error e s1 =>
        have herror (now : ℕ → UInt64) :
            validateLoop ctx.vm ctx.height ctx.timestamp now i acc (tx :: rest) s =
              .error e s1 := by
          rw [validateLoop, hstep now]
          exact bind_eq_error_of hr
        refine .inl ⟨?_, fun now => (herror now).trans (herror ctx.now).symm⟩
        rw [firstPlain, hc]
        cases hrun : runTx ctx i tx s with
        | error e' s' => rfl
        | ok r s' => cases hr.symm.trans (validateStep_eq_ok.2 ⟨r, hrun, rfl⟩)
      | ok acc1 s1 =>
        obtain ⟨r, hrun, -⟩ := validateStep_eq_ok.1 hr
        have hloop (now : ℕ → UInt64) :
            validateLoop ctx.vm ctx.height ctx.timestamp now i acc (tx :: rest) s =
              validateLoop ctx.vm ctx.height ctx.timestamp now (i + 1) acc1 rest s1 := by
          rw [validateLoop, hstep now]
          exact bind_eq_ok_of hr
        have hfirst : firstPlain ctx i (tx :: rest) s = firstPlain ctx (i + 1) rest s1 := by
          rw [firstPlain, hc]
          rw [hrun]
        simp only [hfirst, hloop]
        exact ih (i + 1) acc1 s1

def afterLoop (block : Block) (expectedEpoch : UInt64) (acc : ValidateAcc) :
    Exec InMemoryState Unit := do
  wrapErr "finalize block" (finalizeBlock (newFeeSummary acc.totalFees))
  checkOutcome block expectedEpoch acc

theorem afterLoop_nonceGrows (block : Block) (epoch : UInt64) (acc : ValidateAcc) :
    Steps (Accounts NonceGrows) (afterLoop block epoch acc) := by
  refine ((finalizeBlock_accounts nonceGrows_credits _).wrapErr _).bind fun _ => ?_
  refine (Steps.failIf _ _).bind fun _ => Steps.bind (fun s => .of_eq rfl) fun _ => ?_
  refine (Steps.failIf _ _).bind fun _ => (Steps.failIf _ _).bind fun _ => ?_
  exact (Steps.failIf _ _).bind fun _ => (Steps.asks _).wrapErr _

variable {block : Block}

theorem executeBlock_of_start_error {vm : Option VM} {s s1 : InMemoryState}
    {e : Error} (h : startBlock block.evidence block.header.height s = .error e s1) :
    ∃ e', ∀ now, executeBlock block vm now s = .error e' s1 := by
  rcases bind_eq_error.1 h with hev | ⟨_, s0, hev, hbegin⟩
  · exact ⟨e, fun now => bind_eq_error_of hev⟩
  · refine ⟨e.within "begin block", fun now => ?_⟩
    unfold executeBlock
    rw [bind_eq_ok_of hev]
    exact bind_eq_error_of (wrapErr_of_error hbegin)

theorem executeBlock_of_start {vm : Option VM} {now : ℕ → UInt64}
    {s s1 : InMemoryState} {start : UInt64 × Hash}
    (h : startBlock block.evidence block.header.height s = .ok start s1) :
    executeBlock block vm now s = (do
      let expectedEpoch ← asks (verifyHeader block)
      let acc ← validateLoop vm block.header.height block.header.timestamp now 0 ⟨0, []⟩
        block.transactions
      wrapErr "finalize block" (finalizeBlock (newFeeSummary acc.totalFees))
      return (expectedEpoch, acc) : Exec InMemoryState (UInt64 × ValidateAcc)) s1 := by
  obtain ⟨_, s0, hev, hbegin⟩ := bind_eq_ok.1 h
  unfold executeBlock
  rw [bind_eq_ok_of hev, wrapErr_bind hbegin]

def Submission.firstPlain (b : Submission) (s : InMemoryState) :
    Option (Transaction × InMemoryState) :=
  if b.block.header.height ≠ b.parentHeader.height + 1 then none
  else if b.block.header.height > 0 ∧ b.block.header.previousHash ≠ b.expectedPrevHash then none
  else
    match startBlock b.block.evidence b.block.header.height s with
    | .error _ _ => none
    | .ok _ s₁ =>
      match verifyHeader b.block s₁ with
      | .error _ => none
      | .ok _ => Dsn.firstPlain (b.block.context b.vm fun _ => 0) 0 b.block.transactions s₁

def Submission.atTime (now : ℕ → UInt64) (b : Submission) : Submission := { b with now := now }

theorem Submission.validate_loop (b : Submission) (s : InMemoryState) :
    (b.firstPlain s = none ∧ ∀ now, (b.atTime now).validate s = b.validate s) ∨
    ∃ s1 epoch, b.firstPlain s =
        Dsn.firstPlain (b.block.context b.vm fun _ => 0) 0 b.block.transactions s1 ∧
      ∀ now, (b.atTime now).validate s = (validateLoop b.vm b.block.header.height
        b.block.header.timestamp now 0 ⟨0, []⟩ b.block.transactions >>=
          afterLoop b.block epoch) s1 := by
  unfold Submission.firstPlain Submission.validate Submission.atTime validateBlock
  split_ifs with hheight hprev
  · refine .inl ⟨rfl, fun now => ?_⟩
    rw [bind_eq_error_of (failIf_of _ hheight s), bind_eq_error_of (failIf_of _ hheight s)]
  · refine .inl ⟨rfl, fun now => ?_⟩
    rw [failIf_bind hheight, failIf_bind hheight, bind_eq_error_of (failIf_of _ hprev s),
      bind_eq_error_of (failIf_of _ hprev s)]
  simp only [failIf_bind hheight, failIf_bind hprev]
  cases hstart : startBlock b.block.evidence b.block.header.height s with
  | error e s1 =>
    obtain ⟨e', he'⟩ := @executeBlock_of_start_error _ _ b.vm _ _ _ hstart
    refine .inl ⟨rfl, fun now => ?_⟩
    rw [bind_eq_error_of (he' now), bind_eq_error_of (he' b.now)]
  | ok start s1 =>
    have hexec (now : ℕ → UInt64) := @executeBlock_of_start _ _ b.vm now _ _ _ hstart
    dsimp only
    cases hhead : verifyHeader b.block s1 with
    | error e =>
      have herror (now : ℕ → UInt64) : executeBlock b.block b.vm now s = .error e s1 :=
        (hexec now).trans (bind_eq_error_of (asks_of_error hhead))
      refine .inl ⟨rfl, fun now => ?_⟩
      rw [bind_eq_error_of (herror now), bind_eq_error_of (herror b.now)]
    | ok epoch =>
      refine .inr ⟨s1, epoch, rfl, fun now => ?_⟩
      have hloop : executeBlock b.block b.vm now s = (validateLoop b.vm b.block.header.height
          b.block.header.timestamp now 0 ⟨0, []⟩ b.block.transactions >>= fun acc =>
            wrapErr "finalize block" (finalizeBlock (newFeeSummary acc.totalFees)) >>= fun _ =>
              pure (epoch, acc)) s1 :=
        (hexec now).trans (asks_bind hhead)
      rw [bind_congr_left hloop]
      simp only [bind_assoc]
      rfl

theorem Submission.validate_cases (b : Submission) (s : InMemoryState) :
    (b.firstPlain s = none ∧ ∀ now, (b.atTime now).validate s = b.validate s) ∨
    ∃ tx t j rest acc epoch, b.firstPlain s = some (tx, t) ∧ contractCall b.vm tx = none ∧
      ∀ now, (b.atTime now).validate s = (validateLoop b.vm b.block.header.height
        b.block.header.timestamp now j acc (tx :: rest) >>= afterLoop b.block epoch) t := by
  obtain hnone | ⟨s1, epoch, hfirst, hval⟩ := b.validate_loop s
  · exact .inl hnone
  rw [hfirst]
  obtain ⟨hnone, hloop⟩ | ⟨tx, t, j, rest, acc, hsome, hplain, hloop⟩ :=
    validateLoop_firstPlain (b.block.context b.vm fun _ => 0) 0 ⟨0, []⟩ b.block.transactions s1
  · refine .inl ⟨hnone, fun now => ?_⟩
    have hself : (b.atTime b.now).validate s = b.validate s := rfl
    have hsame := bind_congr_left ((hloop now).trans (hloop b.now).symm) (afterLoop b.block epoch)
    exact (hval now).trans (hsame.trans ((hval b.now).symm.trans hself))
  · refine .inr ⟨tx, t, j, rest, acc, epoch, hsome, hplain, fun now => ?_⟩
    exact (hval now).trans (bind_congr_left (hloop now) _)

/-! ### Two times -/

/-- What a call of `ValidateBlock` says. -/
inductive Verdict where
  | accepted
  | rejected
  | panicked

def verdict : EStateM.Result Error InMemoryState Unit → Verdict
  | .ok _ _ => .accepted
  | .error e _ => if e.isPanic then .panicked else .rejected

/-- The verdict and the state do not depend on when the block is validated. -/
def ClockFree (b : Submission) (s : InMemoryState) : Prop :=
  ∀ now, verdict ((b.atTime now).validate s) = verdict (b.validate s) ∧
    finalState ((b.atTime now).validate s) = finalState (b.validate s)

/-- The transaction fails at any time, without a trace. -/
def Refused (tx : Transaction) (s : InMemoryState) : Prop :=
  ∀ now, ∃ e, applyTransaction now tx s = .error e s ∧ e.isPanic = false

variable {vm : Option VM} {height timestamp : UInt64} (clock : ℕ → UInt64) {j : ℕ}
  {acc : ValidateAcc} {tx : Transaction} {rest : List Transaction} {s t : InMemoryState}
  {e : Error} {b : Submission}

variable {β : Type}

theorem validateLoop_plain_error (hplain : contractCall vm tx = none)
    (h : applyTransaction (clock j) tx s = .error e t)
    (k : ValidateAcc → Exec InMemoryState β) : ∃ e',
      (validateLoop vm height timestamp clock j acc (tx :: rest) >>= k) s = .error e' t ∧
        e'.isPanic = e.isPanic := by
  refine ⟨e.within s!"tx {hexText tx.intentID}", ?_, isPanic_within _ _⟩
  have hstep : validateStep vm height timestamp (clock j) j tx acc s =
      .error (e.within s!"tx {hexText tx.intentID}") t := by
    unfold validateStep
    rw [hplain]
    exact bind_eq_error_of (wrapErr_of_error h)
  exact bind_eq_error_of (bind_eq_error_of hstep)

theorem validateLoop_plain_ok (hplain : contractCall vm tx = none) {receipt : Hash}
    (h : applyTransaction (clock j) tx s = .ok receipt t)
    {k : ValidateAcc → Exec InMemoryState β} (hk : ∀ acc, Steps (Accounts NonceGrows) (k acc)) :
    finalState ((validateLoop vm height timestamp clock j acc (tx :: rest) >>= k) s) ≠ s := by
  have hstep : validateStep vm height timestamp (clock j) j tx acc s =
      .ok ⟨acc.totalFees + tx.maxFee, acc.allEvents⟩ t := by
    unfold validateStep
    rw [hplain]
    exact wrapErr_bind h
  have hloop : validateLoop vm height timestamp clock j acc (tx :: rest) s =
      validateLoop vm height timestamp clock (j + 1) ⟨acc.totalFees + tx.maxFee, acc.allEvents⟩
        rest t := bind_eq_ok_of hstep
  rw [bind_congr_left hloop k]
  have hgrows := (validateLoop_nonceGrows vm height timestamp clock (j + 1)
    ⟨acc.totalFees + tx.maxFee, acc.allEvents⟩ rest).bind hk t
  intro hsame
  rw [hsame] at hgrows
  obtain ⟨-, sender, s1, s2, happ⟩ := applyTransaction_eq_ok.1 h
  obtain ⟨acc', hacc', hnonce⟩ := happ.nonce_after
  obtain ⟨sender', hsender', hle⟩ := hgrows tx.sender acc' hacc'
  obtain rfl : sender = sender' := Option.some.inj (happ.found.symm.trans hsender')
  have hnext := happ.nonce_toNat
  rw [happ.nonce_eq, ← hnonce] at hnext
  change acc'.nonce.toNat ≤ sender.nonce.toNat at hle
  omega

theorem refused_of_constant (hfirst : b.firstPlain s = some (tx, t))
    (h : ∀ now now' : UInt64, verdict ((b.atTime fun _ => now).validate s) =
      verdict ((b.atTime fun _ => now').validate s) ∧
      finalState ((b.atTime fun _ => now).validate s) =
        finalState ((b.atTime fun _ => now').validate s)) : Refused tx t := by
  obtain ⟨hnone, -⟩ | ⟨tx', t', j, rest, acc, epoch, hsome, hplain, hval⟩ := b.validate_cases s
  · cases hnone.symm.trans hfirst
  cases hsome.symm.trans hfirst
  obtain ⟨late, e, hrefusal, he⟩ := exists_refusal tx t
  obtain ⟨e', herror, he'⟩ := validateLoop_plain_error (fun _ => late) hplain hrefusal
    (afterLoop b.block epoch)
  intro now
  have hsame := h now late
  rw [hval, hval, herror] at hsame
  cases hnow : applyTransaction now tx t with
  | ok receipt t1 =>
    exact absurd hsame.2 (validateLoop_plain_ok (fun _ => now) hplain hnow
      fun acc => afterLoop_nonceGrows b.block epoch acc)
  | error e1 t1 =>
    obtain ⟨e2, herror2, he2⟩ := validateLoop_plain_error (fun _ => now) hplain hnow
      (afterLoop b.block epoch)
    rw [herror2] at hsame
    obtain ⟨hverdict, rfl⟩ := hsame
    refine ⟨e1, rfl, ?_⟩
    rw [← he2]
    simpa [verdict, he', he] using hverdict

variable {ctx : TxContext} {i : ℕ}

theorem runTx_contract_clock (hc : contractCall ctx.vm tx = some c) :
    runTx { ctx with now := clock } i tx = runTx ctx i tx := by
  unfold runTx
  rw [hc]

variable {s' : InMemoryState}

theorem firstPlain_eq_none_iff {txs : List Transaction}
    {rs : List TxResult} (h : runLoop ctx i txs s = .ok rs s') :
    firstPlain { ctx with now := clock } i txs s = none ↔
      ∀ tx ∈ txs, contractCall ctx.vm tx ≠ none := by
  induction txs generalizing i rs s with
  | nil => simp [firstPlain]
  | cons tx rest ih =>
    obtain ⟨r, s1, rs', hr, hrs, -⟩ := runLoop_cons_eq_ok.1 h
    cases hc : contractCall ctx.vm tx with
    | none => simp [firstPlain, hc]
    | some c =>
      have hfirst : firstPlain { ctx with now := clock } i (tx :: rest) s =
          firstPlain { ctx with now := clock } (i + 1) rest s1 := by
        simp only [firstPlain, hc, runTx_contract_clock clock hc, hr]
      rw [hfirst, ih hrs]
      simp [hc]

theorem Submission.firstPlain_accepted (h : b.validate s = .ok () s') :
    b.firstPlain s = none ↔ ∀ tx ∈ b.block.transactions, contractCall b.vm tx ≠ none := by
  obtain ⟨s1, s2, s3, start, epoch, rs, ha, -⟩ := validateBlock_eq_ok.1 h
  refine Iff.trans ?_ (firstPlain_eq_none_iff (fun _ => 0) ha.executed.loop)
  have hstart : startBlock b.block.evidence b.block.header.height s = .ok start s1 :=
    ha.executed.start_eq
  unfold Submission.firstPlain
  rw [if_neg (not_not.2 ha.height_eq), if_neg fun hc => hc.2 (ha.previousHash_eq hc.1), hstart]
  dsimp only
  rw [ha.header]
  rfl

theorem Submission.not_refused (h : b.validate s = .ok () s')
    (hfirst : b.firstPlain s = some (tx, t)) : ¬ Refused tx t := by
  intro hrefused
  obtain ⟨hnone, -⟩ | ⟨tx', t', j, rest, acc, epoch, hsome, hplain, hval⟩ := b.validate_cases s
  · cases hnone.symm.trans hfirst
  cases hsome.symm.trans hfirst
  obtain ⟨e, he, -⟩ := hrefused (b.now j)
  obtain ⟨e', herror, -⟩ := validateLoop_plain_error b.now hplain he (afterLoop b.block epoch)
  cases h.symm.trans ((hval b.now).trans herror)

theorem ClockFree.refused (h : ClockFree b s) (hfirst : b.firstPlain s = some (tx, t)) :
    Refused tx t :=
  refused_of_constant hfirst fun _ _ =>
    ⟨(h _).1.trans (h _).1.symm, (h _).2.trans (h _).2.symm⟩

theorem clockFree_of_refused
    (h : ∀ tx t, b.firstPlain s = some (tx, t) → Refused tx t) : ClockFree b s := by
  intro now
  obtain ⟨-, hval⟩ | ⟨tx, t, j, rest, acc, epoch, hsome, hplain, hval⟩ := b.validate_cases s
  · rw [hval now]
    exact ⟨rfl, rfl⟩
  · have hrejected (clock : ℕ → UInt64) : ∃ e, (b.atTime clock).validate s = .error e t ∧
        e.isPanic = false := by
      obtain ⟨e, he, hpanic⟩ := h tx t hsome (clock j)
      obtain ⟨e', herror, he'⟩ := validateLoop_plain_error clock hplain he (afterLoop b.block epoch)
      exact ⟨e', (hval clock).trans herror, he'.trans hpanic⟩
    obtain ⟨e, herror, he⟩ := hrejected now
    obtain ⟨e', herror', he'⟩ := hrejected b.now
    change b.validate s = .error e' t at herror'
    rw [herror, herror']
    simp [verdict, he, he', finalState]

theorem ClockFree.no_plain (h : ClockFree b s) (hok : b.validate s = .ok () s') :
    ∀ tx ∈ b.block.transactions, contractCall b.vm tx ≠ none := by
  rw [← Submission.firstPlain_accepted hok, Option.eq_none_iff_forall_ne_some]
  rintro ⟨tx, t⟩ hfirst
  exact Submission.not_refused hok hfirst (h.refused hfirst)

/-- The verdict never changes exactly when the first plain transaction is always refused. -/
theorem clockFree_iff (b : Submission) (s : InMemoryState) :
    (ClockFree b s ↔ ∀ tx t, b.firstPlain s = some (tx, t) → Refused tx t) ∧
    (∀ s', b.validate s = .ok () s' →
      (ClockFree b s ↔ ∀ tx ∈ b.block.transactions, contractCall b.vm tx ≠ none)) := by
  refine ⟨⟨fun h tx t => h.refused, clockFree_of_refused⟩, fun s' hok => ?_⟩
  refine ⟨fun h => h.no_plain hok, fun hcontract => clockFree_of_refused fun tx t hfirst => ?_⟩
  cases ((Submission.firstPlain_accepted hok).2 hcontract).symm.trans hfirst

end

open Sample

theorem payment_expires : ¬ ∀ (_ : Crypto) (b : Submission) (s : InMemoryState), ClockFree b s := by
  intro h
  obtain ⟨r, s₂, s₃, hrun, hfin, -⟩ := runTx_samplePayment
  have hval := firstBlock_accepted zeroHash [0] [] rfl (by decide) (runLoop_singleton hrun) hfin
  let b : Submission := ⟨firstBlock (sampleSeal zeroHash [0] []) sampleContext [samplePayment] [r]
    s₃, sampleParent, hashA, sampleContext.vm, sampleContext.now⟩
  have hnone := (h sampleCrypto b (sampleLedger sampleAccounts)).no_plain hval samplePayment
    (List.mem_singleton_self _)
  exact hnone (show contractCall sampleContext.vm samplePayment = none by decide +kernel)

theorem clockFree_call : ∃ (b : Submission) (s s' : InMemoryState),
    b.block.transactions = [sampleCall] ∧ b.validate s = .ok () s' ∧ ClockFree b s := by
  obtain ⟨r, s₂, hrun, -⟩ := runTx_sampleCall
  let b : Submission := ⟨firstBlock (sampleSeal zeroHash [1] []) sampleContext [sampleCall] [r] s₂,
    sampleParent, hashA, sampleContext.vm, sampleContext.now⟩
  have hval : b.validate (sampleLedger sampleAccounts) = .ok () (committed s₂) :=
    firstBlock_accepted zeroHash [1] [] rfl (by decide) (runLoop_singleton hrun) rfl
  refine ⟨b, _, _, rfl, hval, ((clockFree_iff b _).2 _ hval).2 (List.forall_mem_singleton.2 ?_)⟩
  show contractCall sampleContext.vm sampleCall ≠ none
  decide +kernel

end Dsn
