import Dsn.Consensus.Completeness

/-!
# Is every transaction authorised by the account it acts for?

A plain transaction is checked against the key of its sender but not against its own intent ID;
a contract transaction is checked against nothing.
-/

namespace Dsn

open Go InMemoryState

section

/-! ### Acting for an account -/

def TxStep.Debits (st : TxStep) (addr : Address) : Prop :=
  ∃ acc acc', st.before.accounts[addr]? = some acc ∧ st.after.accounts[addr]? = some acc' ∧
    acc'.balance.val < acc.balance.val

def TxStep.Bumps (st : TxStep) (addr : Address) : Prop :=
  ∃ acc acc', st.before.accounts[addr]? = some acc ∧ st.after.accounts[addr]? = some acc' ∧
    acc'.nonce = acc.nonce + 1

def ContractCall.caller (c : ContractCall) : Option Address :=
  match c.decoded with
  | .error _ => none
  | .ok (.call t) => some t.sender
  | .ok (.deploy t) =>
    match compileModule c.vm t.wasmCode with
    | .error _ => none
    | .ok m =>
      if m.constructor.isSome then some t.sender else none

def codeCaller (vm : Option VM) (tx : Transaction) : Option Address :=
  (contractCall vm tx).bind ContractCall.caller

def TxStep.ActsFor (vm : Option VM) (st : TxStep) (addr : Address) : Prop :=
  st.Debits addr ∨ st.Bumps addr ∨ codeCaller vm st.tx = some addr

variable [Crypto]

/-- Whoever is acted for has signed the transaction. -/
def TxStep.Authorized (vm : Option VM) (st : TxStep) : Prop :=
  ∀ addr, st.ActsFor vm addr → Authorizes st.tx addr st.before

def TxStep.SelfAuthorized (ctx : TxContext) (st : TxStep) : Prop :=
  match contractCall ctx.vm st.tx with
  | none => st.tx.intentID = st.tx.computeIntentID
  | some c => (c.gasUsed ctx st.index st.before ≠ 0 → Authorizes st.tx st.tx.sender st.before) ∧
      ∀ addr, c.caller = some addr → Authorizes st.tx addr st.before

/-! ### One step -/

section

variable {ctx : TxContext} {st : TxStep}
  (h : runTx ctx st.index st.tx st.before = .ok st.result st.after)
include h

theorem eq_sender_of_debits_or_bumps {addr : Address} (hact : st.Debits addr ∨ st.Bumps addr) :
    addr = st.tx.sender := by
  by_contra hne
  have hspares := runTx_spares h
  rcases hact with ⟨acc, acc', hacc, hacc', hlt⟩ | ⟨acc, acc', hacc, hacc', hnonce⟩
  · obtain ⟨acc1, hacc1, hs⟩ := hspares addr acc hacc
    obtain rfl : acc' = acc1 := Option.some.inj (hacc'.symm.trans hacc1)
    have := (hs hne).1
    omega
  · obtain ⟨acc1, hacc1, hs⟩ := hspares addr acc hacc
    obtain rfl : acc' = acc1 := Option.some.inj (hacc'.symm.trans hacc1)
    rw [(hs hne).2] at hnonce
    exact absurd hnonce (by simp)

theorem authorized_plain_iff (hc : contractCall ctx.vm st.tx = none) :
    st.Authorized ctx.vm ↔ st.tx.intentID = st.tx.computeIntentID := by
  obtain ⟨-, sender, s1, s2, happ⟩ := (runTx_plain hc).1 h
  constructor
  · intro hauth
    obtain ⟨acc', hacc', hnonce⟩ := happ.nonce_after
    exact (hauth st.tx.sender (.inr (.inl ⟨sender, acc', happ.found, hacc', hnonce⟩))).1
  · intro hid addr hact
    have haddr : addr = st.tx.sender := by
      rcases hact with hact | hact | hact
      · exact eq_sender_of_debits_or_bumps h (.inl hact)
      · exact eq_sender_of_debits_or_bumps h (.inr hact)
      · rw [codeCaller, hc] at hact
        cases hact
    subst haddr
    exact ⟨hid, sender, happ.found, happ.verified⟩

theorem authorized_contract_iff {c : ContractCall} (hc : contractCall ctx.vm st.tx = some c) :
    st.Authorized ctx.vm ↔
      (c.gasUsed ctx st.index st.before ≠ 0 → Authorizes st.tx st.tx.sender st.before) ∧
        ∀ addr, c.caller = some addr → Authorizes st.tx addr st.before := by
  obtain ⟨acc, bal, s1, -, hframe, hacc, hbal, hafter⟩ := runTx_contract hc h
  have hcaller : codeCaller ctx.vm st.tx = c.caller := by rw [codeCaller, hc]; rfl
  have hacc' : st.after.accounts[st.tx.sender]? = some { acc with balance := bal } := by
    rw [hafter]
    exact Map.get_insert_self _ _ _
  constructor
  · intro hauth
    refine ⟨fun hne => hauth _ (.inl ⟨acc, _, hacc, hacc', ?_⟩), fun addr haddr =>
      hauth addr (.inr (.inr (hcaller.trans haddr)))⟩
    have hpos : (c.gasUsed ctx st.index st.before).toNat ≠ 0 :=
      fun h0 => hne (UInt64.toNat_inj.1 h0)
    show bal.val < acc.balance.val
    omega
  · rintro ⟨hsender, hcode⟩ addr hact
    rcases hact with hact | hact | hact
    -- a debit of the sender is a positive amount of gas
    · obtain rfl := eq_sender_of_debits_or_bumps h (.inl hact)
      refine hsender fun h0 => ?_
      obtain ⟨acc1, acc2, h1, h2, hlt⟩ := hact
      obtain rfl : acc = acc1 := Option.some.inj (hacc.symm.trans h1)
      obtain rfl := Option.some.inj (hacc'.symm.trans h2)
      rw [h0] at hbal
      have : acc.balance.val = bal.val + 0 := hbal
      exact absurd hlt (by show ¬ bal.val < acc.balance.val; omega)
    -- no nonce changes, and `n = n + 1` has no solution in 64 bits
    · obtain rfl := eq_sender_of_debits_or_bumps h (.inr hact)
      obtain ⟨acc1, acc2, h1, h2, hnonce⟩ := hact
      obtain rfl : acc = acc1 := Option.some.inj (hacc.symm.trans h1)
      obtain rfl := Option.some.inj (hacc'.symm.trans h2)
      exact absurd hnonce (show ¬ acc.nonce = acc.nonce + 1 by simp)
    · exact hcode addr (hcaller.symm.trans hact)

theorem authorized_iff :
    st.Authorized ctx.vm ↔ st.SelfAuthorized ctx := by
  unfold TxStep.SelfAuthorized
  cases hc : contractCall ctx.vm st.tx with
  | none => exact authorized_plain_iff h hc
  | some c => exact authorized_contract_iff h hc

end

/-! ### Blocks -/

def BuildInput.steps (inp : BuildInput) (txs : List Transaction) (s : InMemoryState) :
    List TxStep :=
  stepsOf inp.context inp.evidence txs s

/-- The transactions of a block are authorised exactly when each step is by itself. -/
theorem transactions_authorized_iff :
    (∀ (block : Block) (parentHeader : BlockHeader) (expectedPrevHash : Hash) (vm : Option VM)
      (now : ℕ → UInt64) (s s' : InMemoryState),
      validateBlock block parentHeader expectedPrevHash vm now s = .ok () s' →
        (block.steps vm now s).map TxStep.tx = block.transactions ∧
        ((∀ st ∈ block.steps vm now s, st.Authorized vm) ↔
          ∀ st ∈ block.steps vm now s, st.SelfAuthorized (block.context vm now))) ∧
    (∀ (inp : BuildInput) (block : Block) (s s' : InMemoryState),
      buildBlock inp s = .ok block s' →
        (inp.steps block.transactions s).map TxStep.tx = block.transactions ∧
        ((∀ st ∈ inp.steps block.transactions s, st.Authorized inp.vm) ↔
          ∀ st ∈ inp.steps block.transactions s, st.SelfAuthorized inp.context)) := by
  constructor
  · intro block parentHeader expectedPrevHash vm now s s' h
    obtain ⟨s₁, s₂, s₃, start, epoch, rs, ha, -⟩ := validateBlock_eq_ok.1 h
    unfold Block.steps
    rw [ha.executed.stepsOf_eq]
    exact ⟨(trace_of_runLoop ha.executed.loop).1,
      forall₂_congr fun st hst => @authorized_iff _ (block.context vm now) st (mem_trace hst)⟩
  · intro inp block s s' h
    obtain ⟨s₁, s₂, s₃, start, rs, active, hb, -⟩ := buildBlock_eq_ok.1 h
    unfold BuildInput.steps
    rw [hb.executed.stepsOf_eq]
    exact ⟨(trace_of_runLoop hb.executed.loop).1,
      forall₂_congr fun st hst => @authorized_iff _ inp.context st (mem_trace hst)⟩

end

open Sample

theorem payment_authorized :
    (∃ block s', validateBlock block sampleParent hashA (some sampleVM) (fun _ => 0)
        (sampleLedger sampleAccounts) = .ok () s' ∧ block.transactions = [samplePayment] ∧
      ∀ st ∈ block.steps (some sampleVM) (fun _ => 0) (sampleLedger sampleAccounts),
        st.Authorized (some sampleVM)) ∧
    ∃ block s', buildBlock (sampleInput []) (sampleLedger sampleAccounts) = .ok block s' ∧
      ∀ st ∈ (sampleInput []).steps block.transactions (sampleLedger sampleAccounts),
        st.Authorized (some sampleVM) := by
  constructor
  · obtain ⟨r, s₂, s₃, hrun, hfin, -⟩ := runTx_samplePayment
    have hval := firstBlock_accepted zeroHash [0] [] rfl
      (by decide) (runLoop_singleton hrun) hfin
    obtain ⟨htxs, hiff⟩ := transactions_authorized_iff.1 _ _ _ _ _ _ _ hval
    refine ⟨_, _, hval, rfl, hiff.2 fun st hst => ?_⟩
    have htx : st.tx = samplePayment := by
      have hmem := List.mem_map_of_mem (f := TxStep.tx) hst
      rw [htxs] at hmem
      exact List.mem_singleton.1 hmem
    unfold TxStep.SelfAuthorized
    rw [htx]
    show samplePayment.intentID = samplePayment.computeIntentID
    decide +kernel
  · have hloop : runLoop sampleContext 0 [] (sampleLedgerBegun sampleAccounts) = .ok [] _ := rfl
    have hbuild := buildBlock_sampleInput ⟨[], rfl, rfl⟩ hloop rfl
      (getActiveValidators_sampleLedgerBegun sampleAccounts)
    obtain ⟨htxs, hiff⟩ := transactions_authorized_iff.2 _ _ _ _ hbuild
    refine ⟨_, _, hbuild, hiff.2 fun st hst => ?_⟩
    cases hst

theorem unsigned_call_accepted : ¬ ∀ _ : Crypto,
    (∀ (block : Block) (parentHeader : BlockHeader) (expectedPrevHash : Hash) (vm : Option VM)
      (now : ℕ → UInt64) (s s' : InMemoryState),
      validateBlock block parentHeader expectedPrevHash vm now s = .ok () s' →
        ∀ st ∈ block.steps vm now s, st.Authorized vm) ∧
    (∀ (inp : BuildInput) (block : Block) (s s' : InMemoryState),
      buildBlock inp s = .ok block s' →
        ∀ st ∈ inp.steps block.transactions s, st.Authorized inp.vm) := by
  intro h
  obtain ⟨r, s₂, hrun, hgas, -⟩ := runTx_sampleCall
  have hval := firstBlock_accepted zeroHash [0] [] rfl
    (by decide) (runLoop_singleton hrun) rfl
  let st : TxStep := ⟨0, sampleCall, sampleLedgerBegun sampleAccounts, r, s₂⟩
  have hstep := (h sampleCrypto).1 _ _ _ _ _ _ _ hval st ?_
  · have hc : contractCall sampleContext.vm sampleCall =
        some ⟨sampleVM, "call", sampleCall.callContract.map .call⟩ := rfl
    have hiff := @authorized_contract_iff _ sampleContext st hrun _ hc
    obtain ⟨-, -, -, hused, -⟩ := runTx_contract hc hrun
    have h30 := Option.some.inj (hused.symm.trans hgas)
    obtain ⟨-, acc, -, hver⟩ := (hiff.1 hstep).1 fun h0 => absurd (h30.symm.trans h0) (by decide)
    have hlen := of_decide_eq_true (Bool.and_eq_true_iff.1 hver).1
    exact absurd hlen (show ¬ sampleCall.signature.length = signatureSize by decide)
  · have hsteps : stepsOf sampleContext [] [sampleCall] (sampleLedger sampleAccounts) =
        trace sampleContext 0 [sampleCall] (sampleLedgerBegun sampleAccounts) :=
      Executed.stepsOf_eq ⟨startBlock_sampleLedger sampleAccounts, runLoop_singleton hrun,
        (rfl : finalizeBlock (newFeeSummary (feesFrom 0 [sampleCall])) s₂ = .ok () s₂)⟩
    have hmem : st ∈ stepsOf sampleContext [] [sampleCall] (sampleLedger sampleAccounts) := by
      rw [hsteps, trace_cons hrun]
      exact List.mem_cons_self
    exact hmem

end Dsn
