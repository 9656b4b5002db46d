import Dsn.Consensus.Sealing

/-!
# Can a transaction be replayed?

Nonces only grow, so a plain transaction is applied once. Contract transactions have no nonce
check.
-/

namespace Dsn

open Go InMemoryState

variable {s s' : InMemoryState}

section

/-! ### Nonces never go back -/

def NonceGrows (_ : Address) (acc acc' : Account) : Prop := acc.nonce.toNat ≤ acc'.nonce.toNat

instance (a : Address) : Std.Refl (NonceGrows a) := ⟨fun _ => le_rfl⟩

instance (a : Address) : IsTrans Account (NonceGrows a) := ⟨fun _ _ _ h h' => le_trans h h'⟩

theorem nonceGrows_credits (a : Address) : Credits NonceGrows a := fun _ _ _ => le_rfl

variable [Crypto]

variable {tx : Transaction}

theorem Applied.nonceGrows {now : UInt64} {sender : Account}
    {s1 s2 : InMemoryState} (happ : Applied now tx s s' sender s1 s2) :
    Accounts NonceGrows s s' := by
  intro a acc hacc
  by_cases ha : a = tx.sender
  · subst ha
    obtain rfl : sender = acc := Option.some.inj (happ.found.symm.trans hacc)
    obtain ⟨acc', hacc', hnonce⟩ := happ.nonce_after
    refine ⟨acc', hacc', ?_⟩
    have hnext := happ.nonce_toNat
    rw [happ.nonce_eq, ← hnonce] at hnext
    exact Nat.le_of_lt (by omega)
  · obtain ⟨acc', hacc', hspares⟩ := happ.spares a acc hacc
    exact ⟨acc', hacc', le_of_eq (congrArg UInt64.toNat (hspares ha).2.symm)⟩

variable {ctx : TxContext}

theorem runTx_nonceGrows {i : ℕ} {r : TxResult}
    (h : runTx ctx i tx s = .ok r s') : Accounts NonceGrows s s' := by
  cases hc : contractCall ctx.vm tx with
  | none =>
    obtain ⟨-, sender, s1, s2, happ⟩ := (runTx_plain hc).1 h
    exact happ.nonceGrows
  | some c =>
    obtain ⟨acc, bal, s1, -, hframe, hacc, -, rfl⟩ := runTx_contract hc h
    have hs : Accounts NonceGrows s s1 := .of_eq hframe.accounts
    refine IsTrans.trans _ _ _ hs (Accounts.setAccount fun acc1 hacc1 => ?_)
    rw [hframe.accounts] at hacc1
    obtain rfl : acc = acc1 := Option.some.inj (hacc.symm.trans hacc1)
    exact le_rfl

theorem runLoop_nonceGrows {i : ℕ} {txs : List Transaction} {rs : List TxResult}
    (h : runLoop ctx i txs s = .ok rs s') : Accounts NonceGrows s s' := by
  induction txs generalizing i rs s with
  | nil =>
    obtain ⟨-, rfl⟩ := pure_eq_ok.1 h
    exact Std.Refl.refl s
  | cons tx rest ih =>
    obtain ⟨r, s1, rs', hr, hrs, -⟩ := runLoop_cons_eq_ok.1 h
    exact IsTrans.trans _ _ _ (runTx_nonceGrows hr) (ih hrs)

/-- The sender of a plain transaction has a larger nonce at the end of the block. -/
theorem runLoop_not_plain {i : ℕ} {rest : List Transaction} {rs : List TxResult}
    (h : runLoop ctx i (tx :: rest) s = .ok rs s') (hback : Accounts NonceGrows s' s) :
    contractCall ctx.vm tx ≠ none := by
  intro hc
  obtain ⟨r, s1, rs', hr, hrs, -⟩ := runLoop_cons_eq_ok.1 h
  obtain ⟨-, sender, t1, t2, happ⟩ := (runTx_plain hc).1 hr
  obtain ⟨acc1, hacc1, hnonce⟩ := happ.nonce_after
  obtain ⟨acc2, hacc2, hgrows⟩ := runLoop_nonceGrows hrs _ _ hacc1
  obtain ⟨acc, hacc, hback⟩ := hback _ _ hacc2
  cases happ.found.symm.trans hacc
  have hnext := happ.nonce_toNat
  rw [happ.nonce_eq, ← hnonce] at hnext
  unfold NonceGrows at hgrows hback
  omega

/-! ### Steps along a relation -/

def Along (R : InMemoryState → InMemoryState → Prop) (s : InMemoryState) :
    List TxStep → InMemoryState → Prop
  | [], s' => R s s'
  | st :: rest, s' => R s st.before ∧ R st.before st.after ∧ Along R st.after rest s'

section

omit [Crypto]

variable {R : InMemoryState → InMemoryState → Prop} [IsTrans InMemoryState R]
  {s t u : InMemoryState} {l l' : List TxStep}

theorem Along.of_rel_left (h : R s t) (h' : Along R t l u) : Along R s l u := by
  cases l with
  | nil => exact IsTrans.trans _ _ _ h h'
  | cons st rest => exact ⟨IsTrans.trans _ _ _ h h'.1, h'.2⟩

theorem Along.append (h : Along R s l t) (h' : Along R t l' u) : Along R s (l ++ l') u := by
  induction l generalizing s with
  | nil => exact h'.of_rel_left h
  | cons st rest ih => exact ⟨h.1, h.2.1, ih h.2.2⟩

theorem Along.rel_before (h : Along R s l t) {st : TxStep} (hst : st ∈ l) : R s st.before := by
  induction l generalizing s with
  | nil => cases hst
  | cons st' rest ih =>
    rcases List.mem_cons.1 hst with rfl | hst
    · exact h.1
    · exact IsTrans.trans _ _ _ (IsTrans.trans _ _ _ h.1 h.2.1) (ih h.2.2 hst)

theorem Along.pairwise (h : Along R s l t) : l.Pairwise fun a b => R a.after b.before := by
  induction l generalizing s with
  | nil => exact .nil
  | cons st rest ih => exact .cons (fun st' hst' => h.2.2.rel_before hst') (ih h.2.2)

end

theorem trace_along {i : ℕ} {txs : List Transaction} {rs : List TxResult}
    (h : runLoop ctx i txs s = .ok rs s') :
    Along (Accounts NonceGrows) s (trace ctx i txs s) s' := by
  induction txs generalizing i rs s with
  | nil =>
    rw [runLoop, pure_eq_ok] at h
    obtain ⟨-, rfl⟩ := h
    exact (Std.Refl.refl s : Accounts NonceGrows s s)
  | cons tx rest ih =>
    obtain ⟨r, s1, rs', hr, hrs, -⟩ := runLoop_cons_eq_ok.1 h
    rw [trace_cons hr]
    exact ⟨Std.Refl.refl s, runTx_nonceGrows hr, ih hrs⟩

/-! ### Runs of blocks -/

structure Submission where
  block : Block
  parentHeader : BlockHeader
  expectedPrevHash : Hash
  vm : Option VM
  now : ℕ → UInt64

variable {b : Submission}

def Submission.validate (b : Submission) : Exec InMemoryState Unit :=
  validateBlock b.block b.parentHeader b.expectedPrevHash b.vm b.now

def validateBlocks (run : List Submission) : Exec InMemoryState Unit :=
  run.forM Submission.validate

def runSteps : List Submission → InMemoryState → List TxStep
  | [], _ => []
  | b :: rest, s =>
    b.block.steps b.vm b.now s ++
      match b.validate s with
      | .ok _ s' => runSteps rest s'
      | .error _ _ => []

theorem validateBlocks_cons_eq_ok {rest : List Submission} :
    validateBlocks (b :: rest) s = .ok () s' ↔
      ∃ t, b.validate s = .ok () t ∧ validateBlocks rest t = .ok () s' := by
  refine (bind_eq_ok (x := b.validate) (f := fun _ => validateBlocks rest)).trans ?_
  simp [Unique.exists_iff]

variable {t : InMemoryState}

theorem runSteps_cons (h : b.validate s = .ok () t) (rest : List Submission) :
    runSteps (b :: rest) s = b.block.steps b.vm b.now s ++ runSteps rest t := by
  rw [runSteps, h]

theorem Submission.along (h : b.validate s = .ok () t) :
    Along (Accounts NonceGrows) s (b.block.steps b.vm b.now s) t := by
  obtain ⟨s1, s2, s3, start, epoch, rs, ha, rfl⟩ := validateBlock_eq_ok.1 h
  have hstart := (startBlock_accounts nonceGrows_credits _ _).of_ok ha.executed.start_eq
  have hfin := (finalizeBlock_accounts nonceGrows_credits _).of_ok ha.executed.finish
  have hcommit : Accounts NonceGrows s3 (committed s3) := .of_eq rfl
  have hend : Along (Accounts NonceGrows) s2 [] (committed s3) :=
    IsTrans.trans _ _ _ hfin hcommit
  unfold Block.steps
  rw [ha.executed.stepsOf_eq, ← List.append_nil (trace _ _ _ _)]
  exact ((trace_along ha.executed.loop).append hend).of_rel_left hstart

variable {run : List Submission}

theorem runSteps_along (h : validateBlocks run s = .ok () s') :
    Along (Accounts NonceGrows) s (runSteps run s) s' := by
  induction run generalizing s with
  | nil =>
    obtain ⟨-, rfl⟩ := pure_eq_ok.1 h
    exact (Std.Refl.refl s : Accounts NonceGrows s s)
  | cons b rest ih =>
    obtain ⟨t, hb, hrest⟩ := validateBlocks_cons_eq_ok.1 h
    rw [runSteps_cons hb]
    exact b.along hb |>.append (ih hrest)

theorem mem_runSteps (h : validateBlocks run s = .ok () s') :
    (∀ st ∈ runSteps run s, ∃ b ∈ run, st.tx ∈ b.block.transactions ∧
      runTx (b.block.context b.vm b.now) st.index st.tx st.before = .ok st.result st.after) ∧
    ∀ b ∈ run, ∀ tx ∈ b.block.transactions, ∃ st ∈ runSteps run s, st.tx = tx ∧
      runTx (b.block.context b.vm b.now) st.index st.tx st.before = .ok st.result st.after := by
  induction run generalizing s with
  | nil => exact ⟨by simp [runSteps], by simp⟩
  | cons b rest ih =>
    obtain ⟨t, hb, hrest⟩ := validateBlocks_cons_eq_ok.1 h
    obtain ⟨ih1, ih2⟩ := ih hrest
    obtain ⟨s1, s2, s3, start, epoch, rs, ha, -⟩ := validateBlock_eq_ok.1 hb
    have hsteps : b.block.steps b.vm b.now s = trace _ 0 b.block.transactions s1 :=
      ha.executed.stepsOf_eq
    have htxs := (trace_of_runLoop ha.executed.loop).1
    rw [runSteps_cons hb, hsteps]
    constructor
    · intro st hst
      rcases List.mem_append.1 hst with hst | hst
      · refine ⟨b, List.mem_cons_self, ?_, mem_trace hst⟩
        rw [← htxs]
        exact List.mem_map_of_mem hst
      · obtain ⟨b', hb', htx⟩ := ih1 st hst
        exact ⟨b', List.mem_cons_of_mem _ hb', htx⟩
    · intro b' hb' tx htx
      rcases List.mem_cons.1 hb' with rfl | hb'
      · rw [← htxs] at htx
        obtain ⟨st, hst, rfl⟩ := List.mem_map.1 htx
        exact ⟨st, List.mem_append_left _ hst, rfl, mem_trace hst⟩
      · obtain ⟨st, hst, heq⟩ := ih2 b' hb' tx htx
        exact ⟨st, List.mem_append_right _ hst, heq⟩

/-! ### Replays -/

def TxStep.UsesNonce (st : TxStep) : Prop :=
  ∃ acc acc', st.before.accounts[st.tx.sender]? = some acc ∧
    st.after.accounts[st.tx.sender]? = some acc' ∧ st.tx.nonce = acc.nonce + 1 ∧
    acc'.nonce = acc.nonce + 1

/-- Each step uses its nonce, and no nonce is used twice. -/
def NoReplay (steps : List TxStep) : Prop :=
  (∀ st ∈ steps, st.UsesNonce) ∧
    steps.Pairwise fun a b => (a.tx.sender, a.tx.nonce) ≠ (b.tx.sender, b.tx.nonce)

section

variable {ctx : TxContext} {st : TxStep}

variable (h : runTx ctx st.index st.tx st.before = .ok st.result st.after)
include h

theorem usesNonce_plain (hc : contractCall ctx.vm st.tx = none) :
    st.UsesNonce ∧ st.tx.nonce ≠ 0 := by
  obtain ⟨-, sender, s1, s2, happ⟩ := (runTx_plain hc).1 h
  obtain ⟨acc', hacc', hnonce⟩ := happ.nonce_after
  exact ⟨⟨sender, acc', happ.found, hacc', happ.nonce_eq, hnonce⟩,
    (Transaction.validate_eq_ok.1 happ.valid).1⟩

theorem not_usesNonce_contract {c : ContractCall} (hc : contractCall ctx.vm st.tx = some c) :
    ¬ st.UsesNonce := by
  obtain ⟨acc, bal, s1, -, -, hacc, -, hafter⟩ := runTx_contract hc h
  rintro ⟨acc1, acc2, h1, h2, -, hnonce⟩
  rw [hafter] at h2
  obtain rfl : acc = acc1 := Option.some.inj (hacc.symm.trans h1)
  obtain rfl := Option.some.inj ((Map.get_insert_self _ _ _).symm.trans h2)
  exact absurd hnonce (show ¬ acc.nonce = acc.nonce + 1 by simp)

end

omit [Crypto] in
theorem nonce_ne_of_grows {a b : TxStep} (h : Accounts NonceGrows a.after b.before)
    (ha : a.UsesNonce) (hb : b.UsesNonce) (hb0 : b.tx.nonce ≠ 0) :
    (a.tx.sender, a.tx.nonce) ≠ (b.tx.sender, b.tx.nonce) := by
  intro heq
  obtain ⟨hsender, hnonce⟩ := Prod.mk.inj heq
  obtain ⟨acc, acc', -, hacc', htx, hnext⟩ := ha
  obtain ⟨acc1, acc1', hacc1, -, htx1, -⟩ := hb
  obtain ⟨acc2, hacc2, hgrows⟩ := h _ _ hacc'
  rw [hsender] at hacc2
  obtain rfl : acc1 = acc2 := Option.some.inj (hacc1.symm.trans hacc2)
  have hle : acc'.nonce.toNat ≤ acc1.nonce.toNat := hgrows
  -- the later nonce is not zero, so the increment did not wrap
  rw [htx1] at hb0
  have hlt : b.tx.nonce.toNat = acc1.nonce.toNat + 1 := by rw [htx1]; exact uint64_toNat_succ hb0
  rw [hnext, ← htx, hnonce] at hle
  omega

/-- Nothing is replayed exactly when no transaction went to the machine. -/
theorem no_replay_iff {run : List Submission} {s s' : InMemoryState}
    (h : validateBlocks run s = .ok () s') :
    NoReplay (runSteps run s) ↔
      ∀ b ∈ run, ∀ tx ∈ b.block.transactions, contractCall b.vm tx = none := by
  obtain ⟨hsteps, htxs⟩ := mem_runSteps h
  constructor
  · rintro ⟨huses, -⟩ b hb tx htx
    obtain ⟨st, hst, rfl, hrun⟩ := htxs b hb tx htx
    cases hc : contractCall b.vm st.tx with
    | none => rfl
    | some c => exact absurd (huses st hst) (not_usesNonce_contract hrun hc)
  · intro hplain
    have huses : ∀ st ∈ runSteps run s, st.UsesNonce ∧ st.tx.nonce ≠ 0 := by
      intro st hst
      obtain ⟨b, hb, htx, hrun⟩ := hsteps st hst
      exact usesNonce_plain hrun (hplain b hb _ htx)
    refine ⟨fun st hst => (huses st hst).1, ?_⟩
    -- between two steps the nonce of an account never goes back
    refine (runSteps_along h).pairwise.imp_of_mem fun ha hb hgrows => ?_
    exact nonce_ne_of_grows hgrows (huses _ ha).1 (huses _ hb).1 (huses _ hb).2

end

open Sample

theorem no_replay_payment : ∃ (b : Submission) (s' : InMemoryState),
    b.block.transactions = [samplePayment] ∧
      validateBlocks [b] (sampleLedger sampleAccounts) = .ok () s' ∧
      NoReplay (runSteps [b] (sampleLedger sampleAccounts)) := by
  obtain ⟨r, s₂, s₃, hrun, hfin, -⟩ := runTx_samplePayment
  have hval := firstBlock_accepted zeroHash [0] [] rfl
    (by decide) (runLoop_singleton hrun) hfin
  let b : Submission := ⟨firstBlock (sampleSeal zeroHash [0] []) sampleContext [samplePayment] [r]
    s₃, sampleParent, hashA, some sampleVM, fun _ => 0⟩
  have hblocks : validateBlocks [b] (sampleLedger sampleAccounts) = .ok () (committed s₃) :=
    validateBlocks_cons_eq_ok.2 ⟨_, hval, rfl⟩
  refine ⟨b, _, rfl, hblocks, (no_replay_iff hblocks).2 fun b' hb' tx htx => ?_⟩
  obtain rfl := List.mem_singleton.1 hb'
  obtain rfl : tx = samplePayment := List.mem_singleton.1 htx
  rfl

theorem call_without_nonce : ¬ ∀ (_ : Crypto) (run : List Submission) (s s' : InMemoryState),
    validateBlocks run s = .ok () s' → NoReplay (runSteps run s) := by
  intro h
  obtain ⟨r, s₂, hrun, -, -⟩ := runTx_sampleCall
  have hval := firstBlock_accepted zeroHash [0] [] rfl
    (by decide) (runLoop_singleton hrun) rfl
  let b : Submission := ⟨firstBlock (sampleSeal zeroHash [0] []) sampleContext [sampleCall] [r] s₂,
    sampleParent, hashA, some sampleVM, fun _ => 0⟩
  have hblocks : validateBlocks [b] (sampleLedger sampleAccounts) = .ok () (committed s₂) :=
    validateBlocks_cons_eq_ok.2 ⟨_, hval, rfl⟩
  obtain ⟨st, hst, htx, hstep⟩ := (mem_runSteps hblocks).2 b List.mem_cons_self sampleCall
    List.mem_cons_self
  have hc : contractCall (some sampleVM) st.tx =
      some ⟨sampleVM, "call", sampleCall.callContract.map .call⟩ := by
    rw [htx]
    rfl
  exact not_usesNonce_contract hstep hc ((h sampleCrypto _ _ _ hblocks).1 st hst)

end Dsn
