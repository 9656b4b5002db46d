import Dsn.Consensus.Replay
import Dsn.VM.Snapshots

/-!
# The copies that executions leave behind

`VM.Execute` takes a snapshot and drops it only where it reverts.
-/

namespace Dsn

open Go InMemoryState

variable {s : InMemoryState} {xs ys : List Execution}

section

/-! ### What else a block does -/

def SameCopies (s s' : InMemoryState) : Prop := s'.snapshots = s.snapshots

instance : Std.Refl SameCopies := ⟨fun _ => rfl⟩

instance : IsTrans InMemoryState SameCopies := ⟨fun _ _ _ h h' => h'.trans h⟩

theorem sameCopies_systemRelation : SystemRelation SameCopies where
  stored _ _ _ := rfl
  removed _ _ := rfl
  credited _ _ _ _ := rfl

variable [Crypto]

theorem subBalance_sameCopies (addr : Address) (amount : Amount) :
    Steps SameCopies (subBalance addr amount) :=
  (Steps.asks _).bind fun _ => (Steps.ofResult _).bind fun _ => Steps.modify fun _ => rfl

theorem chargeGas_sameCopies (addr : Address) (gas : UInt64) :
    Steps SameCopies (chargeGas addr gas) :=
  ((Steps.asks _).wrapErr _).bind fun _ => (Steps.failIf _ _).bind fun _ =>
    subBalance_sameCopies _ _

theorem applyTransaction_sameCopies (now : UInt64) (tx : Transaction) :
    Steps SameCopies (applyTransaction now tx) :=
  applyTransaction_steps sameCopies_systemRelation.credit (subBalance_sameCopies _)
    (fun key _ => sameCopies_systemRelation.setBytes key)
    ((Steps.asks _).bind fun _ => Steps.modify fun _ => rfl) now

/-! ### The executions of a block -/

def txExecutions (ctx : TxContext) (i : ℕ) (tx : Transaction) (s : InMemoryState) :
    List Execution :=
  match contractCall ctx.vm tx with
  | none => []
  | some c =>
    match c.decoded with
    | .error _ => []
    | .ok contractTx => [⟨c.vm, contractTx, ctx.height, ctx.timestamp, UInt32.ofNat i, s⟩]

def loopExecutions (ctx : TxContext) (i : ℕ) : List Transaction → InMemoryState → List Execution
  | [], _ => []
  | tx :: rest, s => txExecutions ctx i tx s ++
    match runTx ctx i tx s with
    | .ok _ s' => loopExecutions ctx (i + 1) rest s'
    | .error _ _ => []

def Block.executions (block : Block) (vm : Option VM) (now : ℕ → UInt64) (s : InMemoryState) :
    List Execution :=
  match startBlock block.evidence block.header.height s with
  | .error _ _ => []
  | .ok _ s₁ =>
    match verifyHeader block s₁ with
    | .error _ => []
    | .ok _ => loopExecutions (block.context vm now) 0 block.transactions s₁

def Submission.executions (b : Submission) (s : InMemoryState) : List Execution :=
  if b.block.header.height ≠ b.parentHeader.height + 1 then []
  else if b.block.header.height > 0 ∧ b.block.header.previousHash ≠ b.expectedPrevHash then []
  else b.block.executions b.vm b.now s

def Leaves (xs : List Execution) (s s' : InMemoryState) : Prop :=
  s'.snapshots = s.snapshots ++ xs.flatMap Execution.leaves

theorem Leaves.of_sameCopies {s' : InMemoryState} (h : SameCopies s s') : Leaves [] s s' := by
  show s'.snapshots = s.snapshots ++ []
  rw [h, List.append_nil]

theorem Leaves.append {s' s'' : InMemoryState} (h : Leaves xs s s') (h' : Leaves ys s' s'') :
    Leaves (xs ++ ys) s s'' := by
  unfold Leaves at *
  rw [h', h, List.flatMap_append, List.append_assoc]

theorem Leaves.execution (x : Execution) : Leaves [x] x.state x.after := by
  unfold Leaves
  rw [List.flatMap_singleton]
  exact x.after_snapshots

theorem Leaves.bind {α β : Type} {x : Exec InMemoryState α} {f : α → Exec InMemoryState β}
    (hx : Leaves xs s (finalState (x s)))
    (hok : ∀ a s1, x s = .ok a s1 → Leaves ys s1 (finalState (f a s1)))
    (herr : ∀ e s1, x s = .error e s1 → ys = []) :
    Leaves (xs ++ ys) s (finalState ((x >>= f) s)) := by
  cases hr : x s with
  | ok a s1 =>
    rw [hr] at hx
    rw [bind_eq_ok_of hr]
    exact hx.append (hok a s1 hr)
  | error e s1 =>
    rw [hr] at hx
    rw [bind_eq_error_of hr, herr e s1 hr, List.append_nil]
    exact hx

theorem Leaves.bind_sameCopies {α β : Type} {x : Exec InMemoryState α}
    {f : α → Exec InMemoryState β} (hx : Leaves xs s (finalState (x s)))
    (hf : ∀ a, Steps SameCopies (f a)) :
    Leaves xs s (finalState ((x >>= f) s)) := by
  simpa using hx.bind (fun a s1 _ => .of_sameCopies (hf a s1)) fun _ _ _ => rfl

theorem Leaves.of_sameCopies_bind {α β : Type} {x : Exec InMemoryState α}
    {f : α → Exec InMemoryState β} (hx : Steps SameCopies x)
    (hok : ∀ a s1, x s = .ok a s1 → Leaves ys s1 (finalState (f a s1)))
    (herr : ∀ e s1, x s = .error e s1 → ys = []) : Leaves ys s (finalState ((x >>= f) s)) :=
  (Leaves.of_sameCopies (hx s)).bind hok herr

theorem runContract_leaves {c : ContractCall} {ctx : TxContext} {i : ℕ} {tx : Transaction}
    (hc : contractCall ctx.vm tx = some c) (s : InMemoryState) :
    Leaves (txExecutions ctx i tx s) s
      (finalState (runContract c ctx.height ctx.timestamp (UInt32.ofNat i) s)) := by
  cases hd : c.decoded with
  | error e =>
    have hxs : txExecutions ctx i tx s = [] := by simp [txExecutions, hc, hd]
    rw [hxs]
    unfold runContract
    rw [hd]
    exact .of_sameCopies rfl
  | ok contractTx =>
    have hxs : txExecutions ctx i tx s =
        [⟨c.vm, contractTx, ctx.height, ctx.timestamp, UInt32.ofNat i, s⟩] := by
      simp [txExecutions, hc, hd]
    have hdec : wrapErr s!"decode {c.kind} contract" (ofResult c.decoded) s = .ok contractTx s := by
      rw [hd]
      rfl
    unfold runContract
    rw [hxs, bind_eq_ok_of hdec, finalState_wrapErr]
    refine Leaves.bind_sameCopies (.execution _) fun r => ?_
    obtain ⟨result, err⟩ := r
    cases err with
    | none => exact Steps.pure _
    | some e => exact Steps.throw _

theorem validateStep_leaves (ctx : TxContext) (i : ℕ) (tx : Transaction) (acc : ValidateAcc)
    (s : InMemoryState) : Leaves (txExecutions ctx i tx s) s
      (finalState (validateStep ctx.vm ctx.height ctx.timestamp (ctx.now i) i tx acc s)) := by
  unfold validateStep
  cases hc : contractCall ctx.vm tx with
  | none =>
    have hnone : txExecutions ctx i tx s = [] := by rw [txExecutions, hc]
    rw [hnone]
    exact .of_sameCopies
      ((((applyTransaction_sameCopies _ _).wrapErr _).bind fun _ => Steps.pure _) s)
  | some c =>
    refine (runContract_leaves hc s).bind_sameCopies fun r => ?_
    exact ((chargeGas_sameCopies _ _).wrapErr _).bind fun _ => Steps.pure _

theorem validateLoop_leaves (ctx : TxContext) (i : ℕ) (txs : List Transaction) (acc : ValidateAcc)
    (s : InMemoryState) : Leaves (loopExecutions ctx i txs s) s
      (finalState (validateLoop ctx.vm ctx.height ctx.timestamp ctx.now i acc txs s)) := by
  induction txs generalizing i acc s with
  | nil => exact .of_sameCopies rfl
  | cons tx rest ih =>
    refine (validateStep_leaves ctx i tx acc s).bind (fun acc' s1 hok => ?_) fun e s1 herr => ?_
    · obtain ⟨r, hr, -⟩ := validateStep_eq_ok.1 hok
      rw [hr]
      exact ih (i + 1) acc' s1
    · cases hr : runTx ctx i tx s with
      | error _ _ => rfl
      | ok r s' =>
        rw [validateStep_eq_ok.2 ⟨r, hr, rfl⟩] at herr
        cases herr

theorem executeBlock_leaves (block : Block) (vm : Option VM) (now : ℕ → UInt64)
    (s : InMemoryState) :
    Leaves (block.executions vm now s) s (finalState (executeBlock block vm now s)) := by
  have hsys := sameCopies_systemRelation
  unfold Block.executions
  refine Leaves.of_sameCopies_bind (hsys.processBlockEvidence _ _) (fun _ s0 hev => ?_)
    fun e s0 hev => ?_
  · refine Leaves.of_sameCopies_bind ((hsys.beginBlock _).wrapErr _) (fun start s1 hbegin => ?_)
      fun e s1 hbegin => ?_
    · have hstart : startBlock block.evidence block.header.height s = .ok start s1 :=
        bind_eq_ok.2 ⟨_, s0, hev, wrapErr_eq_ok.1 hbegin⟩
      rw [hstart]
      dsimp only
      cases hhead : verifyHeader block s1 with
      | error e =>
        rw [bind_eq_error_of (asks_of_error hhead)]
        exact .of_sameCopies rfl
      | ok epoch =>
        rw [asks_bind hhead]
        refine (validateLoop_leaves (block.context vm now) 0 block.transactions ⟨0, []⟩
          s1).bind_sameCopies fun acc => ?_
        exact ((hsys.finalizeBlock _).wrapErr _).bind fun _ => Steps.pure _
    · obtain ⟨e0, hbegin⟩ := exists_of_wrapErr_eq_error hbegin
      have hstart : startBlock block.evidence block.header.height s = .error e0 s1 :=
        bind_eq_error.2 (.inr ⟨_, s0, hev, hbegin⟩)
      rw [hstart]
  · have hstart : startBlock block.evidence block.header.height s = .error e s0 :=
      bind_eq_error.2 (.inl hev)
    rw [hstart]

/-! ### Runs of blocks -/

theorem Submission.validate_leaves (b : Submission) (s : InMemoryState) :
    Leaves (b.executions s) s (finalState (b.validate s)) := by
  unfold Submission.executions Submission.validate validateBlock
  split_ifs with hheight hprev
  · rw [bind_eq_error_of (failIf_of _ hheight s)]
    exact .of_sameCopies rfl
  · rw [failIf_bind hheight, bind_eq_error_of (failIf_of _ hprev s)]
    exact .of_sameCopies rfl
  · rw [failIf_bind hheight, failIf_bind hprev]
    refine (executeBlock_leaves b.block b.vm b.now s).bind_sameCopies fun r => ?_
    -- after the execution there are checks and `Commit`, which only rebuilds the tree
    refine (Steps.failIf _ _).bind fun _ => Steps.bind (fun _ => rfl) fun _ => ?_
    refine (Steps.failIf _ _).bind fun _ => (Steps.failIf _ _).bind fun _ => ?_
    exact (Steps.failIf _ _).bind fun _ => (Steps.asks _).wrapErr _

def afterBlocks (run : List Submission) (s : InMemoryState) : InMemoryState :=
  run.foldl (fun s b => finalState (b.validate s)) s

def runExecutions : List Submission → InMemoryState → List Execution
  | [], _ => []
  | b :: rest, s => b.executions s ++ runExecutions rest (finalState (b.validate s))

theorem snapshots_afterBlocks (run : List Submission) (s : InMemoryState) :
    Leaves (runExecutions run s) s (afterBlocks run s) := by
  induction run generalizing s with
  | nil => exact .of_sameCopies rfl
  | cons b rest ih => exact (b.validate_leaves s).append (ih _)

theorem flatMap_leaves_eq_nil :
    xs.flatMap Execution.leaves = [] ↔ ∀ x ∈ xs, x.undone = true := by
  simp only [List.flatMap_eq_nil_iff, Execution.leaves_eq_nil]

/-- Executions leave no copy behind exactly when each fails or reverts. -/
theorem snapshots_balanced_iff :
    (∀ x : Execution, x.after.snapshots = x.state.snapshots ↔ x.undone = true) ∧
    ∀ (run : List Submission) (s : InMemoryState),
      (afterBlocks run s).snapshots.length ≤ s.snapshots.length ↔
        ∀ x ∈ runExecutions run s, x.undone = true := by
  refine ⟨fun x => ?_, fun run s => ?_⟩
  · rw [x.after_snapshots, List.append_right_eq_self, Execution.leaves_eq_nil]
  · rw [snapshots_afterBlocks run s, List.length_append, ← flatMap_leaves_eq_nil,
      ← List.length_eq_zero_iff]
    omega

end

/-! ### A deployment that goes through -/

open Sample

def sampleDeployment : Execution where
  vm := sampleVM
  tx := .deploy ⟨zeroAddress, 0, [0], zeroHash, 0, 100000, []⟩
  height := 1
  timestamp := 0
  txIndex := 0
  state := newInMemoryState

theorem deployment_leaves_copy :
    sampleDeployment.after.snapshots ≠ sampleDeployment.state.snapshots := by
  rw [sampleDeployment.after_snapshots, Ne, List.append_right_eq_self]
  decide +kernel

end Dsn
