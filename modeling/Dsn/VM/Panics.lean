import Dsn.VM.Rollback

/-!
# Can a contract crash the node?

The one way to a panic is a module without memory that gets as far as writing its input.
-/

namespace Dsn

open Go InMemoryState

variable {h : HostState} {env : HostEnv} {m : WasmModule} {meter : GasMeter} {s : InMemoryState}
  {vm : VM}

/-! ### Memory neither comes nor goes -/

def SameMemory (h h' : HostState) : Prop := h'.memory = [] ↔ h.memory = []

instance : Std.Refl SameMemory := ⟨fun _ => Iff.rfl⟩

instance : IsTrans HostState SameMemory := ⟨fun _ _ _ h h' => Iff.trans h' h⟩

theorem memWrite_of_nil (offset : UInt32) (v : Bytes) (hmem : h.memory = []) :
    memWrite offset v h = .error nilMemory h := by
  unfold memWrite
  rw [hmem]

variable {offset : UInt32} {v : Bytes}

theorem panics_memWrite : Panics (memWrite offset v) h ↔ h.memory = [] := by
  constructor
  · rintro ⟨e, h', hx, -⟩
    unfold memWrite at hx
    cases hmem : h.memory with
    | nil => rfl
    | cons current old =>
      rw [hmem] at hx
      dsimp only at hx
      split_ifs at hx
  · exact fun hmem => ⟨_, _, memWrite_of_nil offset v hmem, rfl⟩

theorem panics_memSize : Panics memSize h ↔ h.memory = [] := by
  unfold Panics memSize
  cases h.memory with
  | nil => simp [nilMemory, Error.isPanic]
  | cons current old => simp

theorem panics_writeForGuest {failure : String} :
    Panics (writeForGuest offset v failure) h ↔ h.memory = [] := by
  unfold writeForGuest
  rw [panics_bind, panics_memWrite, or_iff_left]
  rintro ⟨ok, h', -, hp⟩
  exact not_panics_failIf rfl hp

theorem not_panics_enterCall (h : HostState) : ¬ Panics enterCall h := by
  unfold enterCall
  rw [panics_bind]
  rintro (hp | ⟨_, h1, -, hp⟩)
  · exact not_panics_of_ok rfl hp
  · rcases panics_bind.1 hp with hp | ⟨_, h2, -, hp⟩
    · exact not_panics_failIf rfl hp
    · exact not_panics_of_ok (modify_run _ _) hp

section

variable [Crypto]

theorem storeView_sameMemory (contractID : Hash) (key : Bytes) (v : View) :
    Steps SameMemory (storeView contractID key v) := by
  intro h
  unfold storeView
  cases setContractStorage contractID key (v.bytes h.memory) h.state <;> exact Iff.rfl

theorem sameMemory : HostRelation SameMemory where
  gas cost h := by
    unfold deductGas
    cases h.meter.deduct cost <;> exact Iff.rfl
  memory _ _ hmem := hmem
  store _ _ _ h _ := storeView_sameMemory _ _ _ h
  depth _ _ := Iff.rfl
  log _ _ := Iff.rfl
  refresh _ := Iff.rfl

/-! ### Guests -/

variable {α : Type}

theorem not_panics_runGuest (env : HostEnv) (g : Guest α) (h : HostState) :
    ¬ Panics (runGuest env g) h := by
  rintro ⟨e, h', hx, he⟩
  induction g generalizing h with
  | ret a arrays => cases hx
  | trap err arrays =>
    cases hx
    cases he
  | call f arrays k ih =>
    unfold runGuest at hx
    split at hx
    · exact ih _ _ _ hx
    · cases hx
      cases he

theorem not_panics_instantiateModule (env : HostEnv) (m : WasmModule) (h : HostState) :
    ¬ Panics (instantiateModule env m) h := by
  unfold instantiateModule
  split
  · rintro ⟨e, h', hx, he⟩
    cases hx
    cases he
  · rw [panics_bind]
    rintro (hp | ⟨_, h1, -, hp⟩)
    · exact not_panics_of_ok (modify_run _ _) hp
    · exact not_panics_runGuest _ _ _ hp

theorem instantiateModule_memory {inst : Instance} {h' : HostState}
    (hx : instantiateModule env m h = .ok inst h') :
    h'.memory = [] ↔ m.memory = none := by
  unfold instantiateModule at hx
  cases hlink : m.linkError with
  | some e =>
    rw [hlink] at hx
    cases hx
  | none =>
    rw [hlink] at hx
    obtain ⟨_, h1, hload, hx⟩ := bind_eq_ok.1 hx
    cases hload
    have hsame := sameMemory.runGuest env m.start { h with memory := m.memory.toList }
    rw [hx] at hsame
    refine Iff.trans hsame ?_
    cases m.memory <;> simp

theorem not_panics_callFunction (env : HostEnv) (inst : Instance) (name : Bytes)
    (params : List UInt64) (h : HostState) : ¬ Panics (callFunction env inst name params) h := by
  unfold callFunction
  rw [panics_bind]
  rintro (hp | ⟨_, h1, -, hp⟩)
  · exact not_panics_of_ok rfl hp
  · exact not_panics_runGuest _ _ _ hp

def Instantiates (env : HostEnv) (m : WasmModule) (h : HostState) : Prop :=
  ∃ inst h', instantiateModule env m h = .ok inst h'

/-! ### Deployments and calls -/

theorem panics_runConstructor {exportName : Bytes} : Panics (runConstructor env m exportName) h ↔
      m.memory = none ∧ Instantiates env m h := by
  constructor
  · intro hp
    rcases panics_bind.1 hp with hp | ⟨inst, h1, hinst, hp⟩
    · exact absurd (panics_wrapErr.1 hp) (not_panics_instantiateModule env m h)
    have hinst := wrapErr_eq_ok.1 hinst
    rcases panics_bind.1 hp with hp | ⟨_, h2, -, hp⟩
    · exact ⟨(instantiateModule_memory hinst).1 (panics_writeForGuest.1 hp), inst, h1, hinst⟩
    -- once the identity is written nothing panics
    rcases panics_bind.1 hp with hp | ⟨_, h3, -, hp⟩
    · exact absurd hp (not_panics_enterCall h2)
    rcases panics_bind.1 hp with hp | ⟨constrErr, h4, hcall, hp⟩
    · exact absurd (panics_attempt.1 hp) (not_panics_callFunction env inst exportName [] h3)
    rcases panics_bind.1 hp with hp | ⟨_, h5, -, hp⟩
    · exact absurd hp (not_panics_of_ok (modify_run _ _))
    rcases panics_bind.1 hp with hp | ⟨_, h6, -, hp⟩
    · obtain ⟨e, h', hx, he⟩ := panics_wrapErr.1 hp
      cases constrErr with
      | ok results => cases hx
      | error e' =>
        cases hx
        rw [isPanic_of_attempt hcall] at he
        cases he
    rcases panics_bind.1 hp with hp | ⟨_, h7, -, hp⟩
    · exact absurd hp (not_panics_of_ok rfl)
    · exact absurd hp (not_panics_of_ok rfl)
  · rintro ⟨hmem, inst, h1, hinst⟩
    have hnil := (instantiateModule_memory hinst).2 hmem
    exact panics_bind.2 (.inr ⟨inst, h1, wrapErr_eq_ok.2 hinst,
      panics_bind.2 (.inl (panics_writeForGuest.2 hnil))⟩)

theorem writeCalldata_sameMemory (calldata : Bytes) : Steps SameMemory (writeCalldata calldata) :=
  sameMemory.writeCalldata calldata

omit [Crypto] in
theorem panics_writeCalldata {calldata : Bytes} (hp : Panics (writeCalldata calldata) h) :
    h.memory = [] := by
  unfold writeCalldata at hp
  split_ifs at hp
  · rcases panics_bind.1 hp with hp | ⟨size, h1, hsize, hp⟩
    · exact panics_memSize.1 hp
    obtain rfl := memSize_reads.of_ok hsize
    rcases panics_bind.1 hp with hp | ⟨_, h2, hfail, hp⟩
    · exact absurd hp (not_panics_failIf rfl)
    obtain ⟨-, rfl⟩ := failIf_eq_ok.1 hfail
    rcases panics_bind.1 hp with hp | ⟨_, h3, -, hp⟩
    · exact panics_writeForGuest.1 hp
    · exact absurd hp (not_panics_of_ok rfl)
  · exact absurd hp (not_panics_of_ok rfl)

theorem panics_callEntrypoint {tx : CallContractTx} : Panics (callEntrypoint env tx m) h ↔
      m.memory = none ∧ tx.entrypoint ∈ m.exports ∧ Instantiates env m h := by
  constructor
  · intro hp
    rcases panics_bind.1 hp with hp | ⟨inst, h1, hinst, hp⟩
    · exact absurd (panics_wrapErr.1 hp) (not_panics_instantiateModule env m h)
    have hinst := wrapErr_eq_ok.1 hinst
    rcases panics_bind.1 hp with hp | ⟨_, h2, hfail, hp⟩
    · exact absurd hp (not_panics_failIf rfl)
    obtain ⟨hexport, rfl⟩ := failIf_eq_ok.1 hfail
    have hnil (hmem : h1.memory = []) :
        m.memory = none ∧ tx.entrypoint ∈ m.exports ∧ Instantiates env m h :=
      ⟨(instantiateModule_memory hinst).1 hmem, not_not.1 hexport, inst, h1, hinst⟩
    rcases panics_bind.1 hp with hp | ⟨callParams, h3, hdata, hp⟩
    · exact hnil (panics_writeCalldata hp)
    rcases panics_bind.1 hp with hp | ⟨_, h4, -, hp⟩
    · exact hnil (((writeCalldata_sameMemory _).of_ok hdata).1 (panics_writeForGuest.1 hp))
    rcases panics_bind.1 hp with hp | ⟨_, h5, -, hp⟩
    · exact absurd hp (not_panics_enterCall h4)
    rcases panics_bind.1 hp with hp | ⟨outcome, h6, hcall, hp⟩
    · exact absurd (panics_attempt.1 hp) (not_panics_callFunction env inst _ callParams h5)
    cases outcome with
    | error e =>
      rcases panics_bind.1 hp with hp | ⟨_, h7, -, hp⟩
      · exact absurd hp (not_panics_of_ok rfl)
      · dsimp only at hp
        split_ifs at hp <;> obtain ⟨e', h', hx, he⟩ := hp <;> cases hx
        cases he
    | ok results =>
      rcases panics_bind.1 hp with hp | ⟨_, h7, -, hp⟩
      · exact absurd hp (not_panics_of_ok rfl)
      · split_ifs at hp <;> obtain ⟨e', h', hx, he⟩ := hp <;> cases hx
  · rintro ⟨hmem, hexport, inst, h1, hinst⟩
    have hnil := (instantiateModule_memory hinst).2 hmem
    refine panics_bind.2 (.inr ⟨inst, h1, wrapErr_eq_ok.2 hinst, ?_⟩)
    refine panics_bind.2 (.inr ⟨_, h1, failIf_of_not _ (not_not.2 hexport) h1, ?_⟩)
    -- without call data it is the identity that is written first
    by_cases hdata : tx.calldata.length > 0
    · refine panics_bind.2 (.inl ?_)
      unfold writeCalldata
      rw [if_pos hdata]
      exact panics_bind.2 (.inl (panics_memSize.2 hnil))
    · refine panics_bind.2 (.inr ⟨[], h1, ?_, panics_bind.2 (.inl (panics_writeForGuest.2 hnil))⟩)
      unfold writeCalldata
      rw [if_neg hdata]
      rfl

omit [Crypto] in
theorem panics_withHost {x : Exec HostState α} :
    Panics (withHost meter x) s ↔ Panics x (newHostState meter s) := by
  unfold Panics withHost
  cases x (newHostState meter s) with
  | ok a h => simp
  | error e h => simp

theorem panics_runConstructors : Panics (runConstructors env m meter) s ↔
      m.memory = none ∧ m.constructor ≠ none ∧
        Instantiates env m (newHostState (newGasMeter meter.remaining) s) := by
  unfold runConstructors
  cases hc : m.constructor with
  | none => simpa using not_panics_of_ok (pure_eq_ok.2 ⟨rfl, rfl⟩)
  | some exportName =>
    rw [panics_withHost, panics_runConstructor]
    simp

def WritesWithoutMemory (vm : VM) (tx : ContractTx) (height timestamp : UInt64) (txIndex : UInt32)
    (s : InMemoryState) : Prop :=
  match tx with
  | .deploy t => ∃ m meter, Deploys vm t s m meter ∧ m.memory = none ∧ m.constructor ≠ none ∧
    Instantiates (deployEnv t height timestamp txIndex) m
      (newHostState (newGasMeter meter.remaining) (deployed t height s))
  | .call t => ∃ m, Loads vm t.contractID s m ∧ m.memory = none ∧ t.entrypoint ∈ m.exports ∧
    Instantiates (callEnv t height timestamp txIndex) m (newHostState (newGasMeter t.gasLimit) s)

variable {m' : WasmModule} {tx : DeployContractTx}

theorem Deploys.unique {meter' : GasMeter}
    (h : Deploys vm tx s m meter) (h' : Deploys vm tx s m' meter') :
    m = m' ∧ meter = meter' := by
  constructor
  · exact Except.ok.inj (h.compiles.symm.trans h'.compiles)
  · exact Option.some.inj (h.pays.symm.trans h'.pays)

omit [Crypto] in
theorem Loads.unique {contractID : Hash} (h : Loads vm contractID s m)
    (h' : Loads vm contractID s m') : m = m' := by
  obtain ⟨code, hcode, hm⟩ := h.compiles
  obtain ⟨code', hcode', hm'⟩ := h'.compiles
  cases hcode.symm.trans hcode'
  exact Except.ok.inj (hm.symm.trans hm')

variable {height timestamp : UInt64} {txIndex : UInt32}

theorem panics_executeDeploy : Panics (executeDeploy vm tx height timestamp txIndex) s ↔
      WritesWithoutMemory vm (.deploy tx) height timestamp txIndex s := by
  rcases executeDeploy_cases vm tx height timestamp txIndex s with
    ⟨e, hx, he, hnone⟩ | ⟨hx, hnone⟩ | ⟨m, meter, hdeploys, hx⟩
  · exact iff_of_false (not_panics_of_error hx he) fun ⟨m, meter, hm, _⟩ => hnone m meter hm
  · exact iff_of_false (not_panics_of_ok hx) fun ⟨m, meter, hm, _⟩ => hnone m meter hm
  · unfold Panics
    rw [hx]
    change Panics _ _ ↔ _
    rw [panics_bind, panics_runConstructors, or_iff_left]
    · constructor
      · exact fun h => ⟨m, meter, hdeploys, h⟩
      · rintro ⟨m', meter', hdeploys', h⟩
        obtain ⟨rfl, rfl⟩ := hdeploys.unique hdeploys'
        exact h
    · rintro ⟨used, s1, -, hp⟩
      exact not_panics_of_ok rfl hp

theorem panics_executeCall {tx : CallContractTx} :
    Panics (executeCall vm tx height timestamp txIndex) s ↔
      WritesWithoutMemory vm (.call tx) height timestamp txIndex s := by
  rcases executeCall_cases vm tx height timestamp txIndex s with
    ⟨e, hx, he, hnone⟩ | ⟨m, hloads, hx⟩
  · exact iff_of_false (not_panics_of_error hx he) fun ⟨m, hm, _⟩ => hnone m hm
  · unfold Panics
    rw [hx]
    change Panics _ _ ↔ _
    rw [panics_bind, panics_withHost, panics_callEntrypoint, or_iff_left]
    · constructor
      · exact fun h => ⟨m, hloads, h⟩
      · rintro ⟨m', hloads', h⟩
        obtain rfl := hloads.unique hloads'
        exact h
    · rintro ⟨result, s1, -, hp⟩
      exact not_panics_of_ok rfl hp

/-- `Execute` panics only where it writes into a module without a memory. -/
theorem execute_never_panics_iff (vm : VM) (tx : ContractTx) (height timestamp : UInt64)
    (txIndex : UInt32) (s : InMemoryState) :
    ¬ Panics (vm.execute tx height timestamp txIndex) s ↔
      ¬ WritesWithoutMemory vm tx height timestamp txIndex s.saved := by
  have htx : Panics (executeTx vm tx height timestamp txIndex) s.saved ↔
      WritesWithoutMemory vm tx height timestamp txIndex s.saved := by
    cases tx with
    | deploy t => exact panics_executeDeploy
    | call t => exact panics_executeCall
  rw [← htx]
  unfold Panics
  rcases vm.execute_cases tx height timestamp txIndex s with
    ⟨e, t, hr, he, hx⟩ | ⟨e, t, hr, he, hx⟩ | ⟨result, err, t, hr, -, hx⟩ |
      ⟨result, err, t, hr, -, hx⟩ <;> rw [hr, hx]
  · simp [he]
  · simp

end

open Sample

theorem memoryless_module_panics : ¬ ∀ (_ : Crypto) (vm : VM) (tx : ContractTx)
    (height timestamp : UInt64) (txIndex : UInt32) (s : InMemoryState),
      ¬ Panics (vm.execute tx height timestamp txIndex) s := by
  intro h
  refine h sampleCrypto (sampleEngine (sampleModule none (str "run") (.ret [] [])))
    (.call callOfContract)
    1 1 0 ledgerWithContract ?_
  have hpanic : (match (sampleEngine (sampleModule none (str "run") (.ret [] []))).execute
      (.call callOfContract) 1 1 0 ledgerWithContract with
    | .ok _ _ => false
    | .error e _ => e.isPanic) = true := by
    decide +kernel
  split at hpanic
  · cases hpanic
  · exact ⟨_, _, by assumption, hpanic⟩

end Dsn
