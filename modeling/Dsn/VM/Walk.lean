import Dsn.VM.VM

/-!
# Walking through an execution

A relation between host states that every elementary action keeps to is kept to by every execution.
-/

namespace Dsn

open Go InMemoryState

/-! ### Elementary actions -/

/-- What a relation on host states has to allow so that every execution keeps it. Slots are written
only where there is a memory to name them. -/
structure HostRelation [Crypto] (R : HostState → HostState → Prop) : Prop where
  gas : ∀ cost, Steps R (deductGas cost)
  memory : ∀ h mem, (mem = [] ↔ h.memory = []) → R h { h with memory := mem }
  store : ∀ id key v h, h.memory ≠ [] → R h (finalState (storeView id key v h))
  depth : ∀ h depth, R h { h with callDepth := depth }
  log : ∀ h log, R h { h with eventLog := log }
  refresh : ∀ h, R h h.refresh

theorem memSize_reads : Steps Eq memSize := by
  intro h
  unfold memSize
  cases h.memory <;> rfl

theorem memRead_reads (offset n : UInt32) : Steps Eq (memRead offset n) := by
  intro h
  unfold memRead
  cases h.memory with
  | nil => rfl
  | cons current old => dsimp only; split_ifs <;> rfl

theorem viewBytes_reads (v : View) : Steps Eq (viewBytes v) := fun _ => rfl

theorem memory_ne_nil_of_memRead {offset n : UInt32} {v : Option View} {h h' : HostState}
    (hr : memRead offset n h = .ok v h') : h.memory ≠ [] := by
  intro hmem
  unfold memRead at hr
  rw [hmem] at hr
  cases hr

theorem advance_eq_nil (mem : Memory) (arrays : List Bytes) :
    mem.advance arrays = [] ↔ mem = [] := by
  unfold Memory.advance
  cases mem with
  | nil => simp
  | cons current old => dsimp only; split_ifs with h <;> simp [h]

section

variable [Crypto] {R : HostState → HostState → Prop} [Std.Refl R] [IsTrans HostState R]
  (hR : HostRelation R)
include hR

omit [IsTrans HostState R] in
theorem HostRelation.memWrite (offset : UInt32) (v : Bytes) :
    Steps R (memWrite offset v) := by
  intro h
  unfold Dsn.memWrite
  cases hmem : h.memory with
  | nil => exact Std.Refl.refl h
  | cons current old =>
    dsimp only
    split_ifs
    · exact hR.memory _ _ (by rw [hmem]; simp)
    · exact Std.Refl.refl h

omit [Std.Refl R] in
theorem HostRelation.sync (arrays : List Bytes) (h : HostState) :
    R h (h.sync arrays) :=
  IsTrans.trans _ _ _ (hR.memory h _ (advance_eq_nil _ _)) (hR.refresh _)

variable {α : Type}

omit [Std.Refl R] in
theorem HostRelation.ifGas (cost : UInt64) {x y : Exec HostState α} (hx : Steps R x)
    (hy : Steps R y) :
    Steps R (do if ← deductGas cost then x else y) :=
  (hR.gas cost).bind fun ok => by cases ok <;> assumption

/-! ### Host functions -/

theorem HostRelation.readStorage (idPtr idLen keyPtr keyLen outPtr : UInt32) :
    Steps R (readStorage idPtr idLen keyPtr keyLen outPtr) := by
  refine hR.ifGas _ ((Steps.of_reads memSize_reads).bind fun size => Steps.ite (Steps.pure _) ?_)
    (Steps.pure _)
  refine (Steps.of_reads (memRead_reads _ _)).bind fun idView =>
    (Steps.of_reads (memRead_reads _ _)).bind fun keyView => ?_
  split
  · refine (Steps.of_reads (viewBytes_reads _)).bind fun id =>
      (Steps.of_reads (viewBytes_reads _)).bind fun key => Steps.get.bind fun h => ?_
    split
    · exact Steps.pure _
    · refine Steps.ite (Steps.ite (Steps.pure _) ?_) (Steps.pure _)
      exact (hR.memWrite _ _).bind fun ok => by cases ok <;> exact Steps.pure _
  · exact Steps.pure _

theorem HostRelation.emitEvent (env : HostEnv) (topicPtr topicLen dataPtr dataLen : UInt32) :
    Steps R (emitEvent env topicPtr topicLen dataPtr dataLen) := by
  refine hR.ifGas _ ((Steps.of_reads memSize_reads).bind fun size => Steps.ite (Steps.pure _) ?_)
    (Steps.pure _)
  refine (Steps.of_reads (memRead_reads _ _)).bind fun topicView =>
    (Steps.of_reads (memRead_reads _ _)).bind fun dataView => ?_
  split
  · exact (Steps.of_reads (viewBytes_reads _)).bind fun topic => Steps.modify fun h => hR.log h _
  · exact Steps.pure _

theorem HostRelation.readCaller (env : HostEnv) (outPtr : UInt32) :
    Steps R (readCaller env outPtr) := by
  refine hR.ifGas _ ((Steps.of_reads memSize_reads).bind fun size => Steps.ite (Steps.pure _) ?_)
    (Steps.pure _)
  exact (hR.memWrite _ _).bind fun ok => by cases ok <;> exact Steps.pure _

theorem HostRelation.transferToken (recipientPtr recipientLen : UInt32) :
    Steps R (transferToken recipientPtr recipientLen) := by
  refine hR.ifGas _ ((Steps.of_reads memSize_reads).bind fun size => Steps.ite (Steps.pure _) ?_)
    (Steps.pure _)
  refine (Steps.of_reads (memRead_reads _ _)).bind fun recipient => ?_
  cases recipient with
  | none => exact Steps.pure _
  | some v => exact Steps.ite (Steps.pure _) (Steps.pure _)

theorem HostRelation.writeStorage (idPtr idLen keyPtr keyLen valuePtr valueLen : UInt32) :
    Steps R (writeStorage idPtr idLen keyPtr keyLen valuePtr valueLen) := by
  refine hR.ifGas _ (Steps.ite (Steps.pure _) (hR.ifGas _ ?_ (Steps.pure _))) (Steps.pure _)
  refine (Steps.of_reads memSize_reads).bind fun size => Steps.ite (Steps.pure _) fun h => ?_
  refine Steps.bind_at (Steps.of_reads (memRead_reads _ _) h) fun idView _ hid => ?_
  obtain rfl := (memRead_reads _ _).of_ok hid
  refine Steps.bind_at (Steps.of_reads (memRead_reads _ _) h) fun keyView _ hkey => ?_
  obtain rfl := (memRead_reads _ _).of_ok hkey
  refine Steps.bind_at (Steps.of_reads (memRead_reads _ _) h) fun valueView _ hvalue => ?_
  obtain rfl := (memRead_reads _ _).of_ok hvalue
  split
  · refine Steps.bind_at (Std.Refl.refl h) fun _ _ hbytes => ?_
    cases hbytes
    refine Steps.bind_at (Std.Refl.refl h) fun _ _ hbytes => ?_
    cases hbytes
    refine Steps.bind_at (hR.store _ _ _ h (memory_ne_nil_of_memRead hid)) fun ok h' _ => ?_
    cases ok <;> exact Std.Refl.refl h'
  · exact Std.Refl.refl h

/-! ### Guests -/

theorem HostRelation.hostCall (env : HostEnv) (f : HostCall) :
    Steps R (hostCall env f) := by
  cases f with
  | readStorage => exact hR.readStorage _ _ _ _ _
  | writeStorage => exact hR.writeStorage _ _ _ _ _ _
  | emitEvent => exact (hR.emitEvent _ _ _ _ _).bind fun _ => Steps.pure _
  | readCaller => exact hR.readCaller _ _
  | readBlockHeight => exact hR.ifGas _ (Steps.pure _) (Steps.pure _)
  | readBlockTimestamp => exact hR.ifGas _ (Steps.pure _) (Steps.pure _)
  | transferToken => exact hR.transferToken _ _

theorem HostRelation.runGuest (env : HostEnv) (g : Guest α) :
    Steps R (runGuest env g) := by
  intro h
  induction g generalizing h with
  | ret a arrays => exact hR.sync arrays h
  | trap err arrays => exact hR.sync arrays h
  | call f arrays k ih =>
    have hcall := IsTrans.trans _ _ _ (hR.sync arrays h) (hR.hostCall env f (h.sync arrays))
    rw [Dsn.runGuest]
    dsimp only
    cases hx : Dsn.hostCall env f (h.sync arrays) with
    | ok r h' =>
      rw [hx] at hcall
      exact IsTrans.trans _ _ _ hcall (ih r h'.current h')
    | error e h' =>
      rw [hx] at hcall
      exact IsTrans.trans _ _ _ hcall (hR.refresh h')

/-! ### Instances -/

theorem HostRelation.instantiateModule (env : HostEnv) (m : WasmModule) (h : HostState)
    (hload : R h { h with memory := m.memory.toList }) :
    R h (finalState (instantiateModule env m h)) := by
  unfold Dsn.instantiateModule
  cases m.linkError with
  | some e => exact Std.Refl.refl h
  | none => exact IsTrans.trans _ _ _ hload (hR.runGuest env m.start _)

theorem HostRelation.writeForGuest (offset : UInt32) (v : Bytes) (failure : String) :
    Steps R (writeForGuest offset v failure) :=
  (hR.memWrite offset v).bind fun _ => Steps.failIf _ _

theorem HostRelation.enterCall : Steps R enterCall :=
  Steps.get.bind fun _ => (Steps.failIf _ _).bind fun _ => Steps.modify fun h => hR.depth h _

omit [Std.Refl R] [IsTrans HostState R] in
theorem HostRelation.exitCall : Steps R exitCall :=
  Steps.modify fun h => hR.depth h _

theorem HostRelation.callFunction (env : HostEnv) (inst : Instance) (name : Bytes)
    (params : List UInt64) : Steps R (callFunction env inst name params) :=
  Steps.get.bind fun _ => hR.runGuest env _

theorem HostRelation.runConstructor (env : HostEnv) (m : WasmModule) (exportName : Bytes)
    (h : HostState) (hload : R h { h with memory := m.memory.toList }) :
    R h (finalState (runConstructor env m exportName h)) := by
  refine Steps.bind_at ?_ fun inst h' _ => ?_
  · rw [finalState_wrapErr]
    exact hR.instantiateModule env m h hload
  · exact ((hR.writeForGuest _ _ _).bind fun _ => hR.enterCall.bind fun _ =>
      (hR.callFunction env inst exportName []).attempt.bind fun r => hR.exitCall.bind fun _ =>
        ((Steps.ofResult r).wrapErr _).bind fun _ => Steps.get.bind fun _ => Steps.pure _) h'

theorem HostRelation.writeCalldata (calldata : Bytes) :
    Steps R (writeCalldata calldata) := by
  refine Steps.ite ?_ (Steps.pure _)
  refine (Steps.of_reads memSize_reads).bind fun size => (Steps.failIf _ _).bind fun _ => ?_
  exact (hR.writeForGuest _ _ _).bind fun _ => Steps.pure _

theorem HostRelation.callEntrypoint (env : HostEnv) (tx : CallContractTx) (m : WasmModule)
    (h : HostState) (hload : R h { h with memory := m.memory.toList }) :
    R h (finalState (callEntrypoint env tx m h)) := by
  refine Steps.bind_at ?_ fun inst h' _ => ?_
  · rw [finalState_wrapErr]
    exact hR.instantiateModule env m h hload
  · refine ((Steps.failIf _ _).bind fun _ => (hR.writeCalldata _).bind fun callParams =>
      (hR.writeForGuest _ _ _).bind fun _ => hR.enterCall.bind fun _ =>
        (hR.callFunction env inst tx.entrypoint callParams).attempt.bind fun r => ?_) h'
    cases r with
    | error e => exact Steps.get.bind fun _ => Steps.ite (Steps.pure _) (Steps.throw _)
    | ok results => exact Steps.get.bind fun _ => Steps.ite (Steps.pure _) (Steps.pure _)

end

variable {α : Type}

theorem finalState_withHost (meter : GasMeter) (x : Exec HostState α) (s : InMemoryState) :
    finalState (withHost meter x s) = (finalState (x (newHostState meter s))).state := by
  unfold withHost
  cases x (newHostState meter s) <;> rfl

/-! ### Deployments and calls -/

theorem withHost_eq_ok {meter : GasMeter} {x : Exec HostState α} {a : α}
    {s s' : InMemoryState} : withHost meter x s = .ok a s' ↔
      ∃ h, x (newHostState meter s) = .ok a h ∧ h.state = s' := by
  unfold withHost
  cases x (newHostState meter s) with
  | ok b h => simp
  | error e h => simp

theorem compileModule_error {vm : VM} {code : Bytes} {e : Error}
    (h : compileModule vm code = .error e) : e.isPanic = false := by
  unfold compileModule at h
  split_ifs at h
  · cases h
    rfl
  · cases hc : vm.compile code <;> rw [hc] at h <;> cases h
    rfl

theorem validateImports_error {m : WasmModule} {e : Error} (h : validateImports m = .error e) :
    e.isPanic = false := by
  obtain ⟨⟨modName, fnName⟩, -, h⟩ := exists_of_forM_eq_error h
  rcases except_bind_eq_error.1 h with h | ⟨_, -, h⟩ <;>
    obtain ⟨-, rfl⟩ := check_eq_error.1 h <;> rfl

variable [Crypto]

def deployEnv (tx : DeployContractTx) (height timestamp : UInt64) (txIndex : UInt32) : HostEnv :=
  ⟨tx.sender, deriveContractID tx.sender tx.nonce tx.codeHash, height, timestamp, txIndex⟩

def deployed (tx : DeployContractTx) (height : UInt64) (s : InMemoryState) : InMemoryState :=
  let contractID := deriveContractID tx.sender tx.nonce tx.codeHash
  (s.setCode (sha256 tx.wasmCode) tx.wasmCode).setContractMeta contractID
    ⟨contractID, sha256 tx.wasmCode, tx.sender, height⟩

structure Deploys (vm : VM) (tx : DeployContractTx) (s : InMemoryState) (m : WasmModule)
    (meter : GasMeter) : Prop where
  compiles : compileModule vm tx.wasmCode = .ok m
  fresh : ∃ e, s.getContractMeta (deriveContractID tx.sender tx.nonce tx.codeHash) = .error e
  pays : (newGasMeter tx.gasLimit).deduct
    (gasDeployBase + gasPerCodeByte * UInt64.ofNat tx.wasmCode.length) = some meter

theorem executeDeploy_cases (vm : VM) (tx : DeployContractTx) (height timestamp : UInt64)
    (txIndex : UInt32) (s : InMemoryState) :
    (∃ e, executeDeploy vm tx height timestamp txIndex s = .error e s ∧ e.isPanic = false ∧
      ∀ m meter, ¬ Deploys vm tx s m meter) ∨
    (executeDeploy vm tx height timestamp txIndex s =
        .ok (⟨0, [], [], true, none, tx.gasLimit⟩, some errGasLimitExceeded) s ∧
      ∀ m meter, ¬ Deploys vm tx s m meter) ∨
    ∃ m meter, Deploys vm tx s m meter ∧ executeDeploy vm tx height timestamp txIndex s =
      (runConstructors (deployEnv tx height timestamp txIndex) m meter >>= fun used =>
        let contractID := deriveContractID tx.sender tx.nonce tx.codeHash
        pure (⟨meter.used + used, contractID.bytes, [], false,
          some (FixedBytes.copy 20 (contractID.bytes.take 20)), tx.gasLimit⟩, none))
        (deployed tx height s) := by
  unfold executeDeploy
  cases hc : compileModule vm tx.wasmCode with
  | error e =>
    refine .inl ⟨e, rfl, compileModule_error hc, fun m meter h => ?_⟩
    cases hc.symm.trans h.compiles
  | ok m =>
    rw [ofResult_bind rfl, get_bind]
    dsimp only
    cases hmeta : s.getContractMeta (deriveContractID tx.sender tx.nonce tx.codeHash) with
    | ok c =>
      refine .inl ⟨_, rfl, rfl, fun m' meter h => ?_⟩
      obtain ⟨e, he⟩ := h.fresh
      cases hmeta.symm.trans he
    | error e =>
      dsimp only
      cases hd : (newGasMeter tx.gasLimit).deduct
        (gasDeployBase + gasPerCodeByte * UInt64.ofNat tx.wasmCode.length) with
      | none =>
        refine .inr (.inl ⟨rfl, fun m' meter h => ?_⟩)
        cases hd.symm.trans h.pays
      | some meter => exact .inr (.inr ⟨m, meter, ⟨hc, ⟨e, hmeta⟩, hd⟩, rfl⟩)

def callEnv (tx : CallContractTx) (height timestamp : UInt64) (txIndex : UInt32) : HostEnv :=
  ⟨tx.sender, tx.contractID, height, timestamp, txIndex⟩

structure Loads (vm : VM) (contractID : Hash) (s : InMemoryState) (m : WasmModule) : Prop where
  compiles : ∃ code, loadCode contractID s = .ok code ∧ compileModule vm code = .ok m
  imports : validateImports m = .ok ()

theorem executeCall_cases (vm : VM) (tx : CallContractTx) (height timestamp : UInt64)
    (txIndex : UInt32) (s : InMemoryState) :
    (∃ e, executeCall vm tx height timestamp txIndex s = .error e s ∧ e.isPanic = false ∧
      ∀ m, ¬ Loads vm tx.contractID s m) ∨
    ∃ m, Loads vm tx.contractID s m ∧ executeCall vm tx height timestamp txIndex s =
      (withHost (newGasMeter tx.gasLimit)
        (callEntrypoint (callEnv tx height timestamp txIndex) tx m)
        >>= fun result => pure (result, none)) s := by
  unfold executeCall
  rw [get_bind]
  cases hload : loadCode tx.contractID s with
  | error e =>
    refine .inl ⟨_, rfl, rfl, fun m h => ?_⟩
    obtain ⟨code, hcode, -⟩ := h.compiles
    cases hload.symm.trans hcode
  | ok code =>
    dsimp only
    cases hc : compileModule vm code with
    | error e =>
      refine .inl ⟨e, rfl, compileModule_error hc, fun m h => ?_⟩
      obtain ⟨code', hcode, hm⟩ := h.compiles
      cases hload.symm.trans hcode
      cases hc.symm.trans hm
    | ok m =>
      rw [ofResult_bind rfl]
      cases himp : validateImports m with
      | error e =>
        refine .inl ⟨e, rfl, validateImports_error himp, fun m' h => ?_⟩
        obtain ⟨code', hcode, hm⟩ := h.compiles
        cases hload.symm.trans hcode
        cases hc.symm.trans hm
        cases himp.symm.trans h.imports
      | ok u => exact .inr ⟨m, ⟨⟨code, hload, hc⟩, himp⟩, rfl⟩

/-! ### Runs of a guest that return -/

section

variable {env : HostEnv} {m : WasmModule} {h h' : HostState}

def prepareConstructor (env : HostEnv) : Exec HostState Unit := do
  writeForGuest contractIDMemOffset env.contractID.bytes
    "failed to write contractID for constructor"
  enterCall

theorem runConstructor_ok {exportName : Bytes} {used : UInt64}
    (hr : runConstructor env m exportName h = .ok used h') :
    ∃ inst h1 h2 results h3, instantiateModule env m h = .ok inst h1 ∧
      prepareConstructor env h1 = .ok () h2 ∧ callFunction env inst exportName [] h2 =
        .ok results h3 ∧ h' = { h3 with callDepth := h3.callDepth - 1 } ∧ used = h3.meter.used := by
  obtain ⟨inst, h1, hinst, hr⟩ := bind_eq_ok.1 hr
  obtain ⟨_, h2, hwrite, hr⟩ := bind_eq_ok.1 hr
  obtain ⟨_, h3, henter, hr⟩ := bind_eq_ok.1 hr
  obtain ⟨outcome, h4, hcall, hr⟩ := bind_eq_ok.1 hr
  obtain ⟨_, h5, hexit, hr⟩ := bind_eq_ok.1 hr
  cases hexit
  obtain ⟨results, rfl, hr⟩ := ofResult_bind_eq_ok.1 (wrapErr_bind_eq_ok.1 hr)
  obtain ⟨_, h7, hget, hr⟩ := bind_eq_ok.1 hr
  cases hget
  cases hr
  exact ⟨inst, h1, h3, results, h4, wrapErr_eq_ok.1 hinst, bind_eq_ok.2 ⟨_, h2, hwrite, henter⟩,
    attempt_eq_ok.1 hcall, rfl, rfl⟩

theorem callEntrypoint_ok {tx : CallContractTx} {result : ExecutionResult}
    (hr : callEntrypoint env tx m h = .ok result h') :
    ∃ inst h1 callParams h2, instantiateModule env m h = .ok inst h1 ∧
      prepareCall tx m h1 = .ok callParams h2 ∧ result.gasUsed = h'.meter.used ∧
      (result.reverted = false → ∃ results, callFunction env inst tx.entrypoint callParams h2 =
        .ok results h' ∧ result.events = h'.events) := by
  obtain ⟨inst, h1, hinst, hr⟩ := bind_eq_ok.1 hr
  obtain ⟨_, h2, hexport, hr⟩ := bind_eq_ok.1 hr
  obtain ⟨callParams, h3, hcalldata, hr⟩ := bind_eq_ok.1 hr
  obtain ⟨_, h4, hwrite, hr⟩ := bind_eq_ok.1 hr
  obtain ⟨_, h5, henter, hr⟩ := bind_eq_ok.1 hr
  have hprepare : prepareCall tx m h1 = .ok callParams h5 :=
    bind_eq_ok.2 ⟨_, h2, hexport, bind_eq_ok.2 ⟨_, h3, hcalldata, bind_eq_ok.2 ⟨_, h4, hwrite,
      bind_eq_ok.2 ⟨_, h5, henter, rfl⟩⟩⟩⟩
  obtain ⟨outcome, h6, hcall, hr⟩ := bind_eq_ok.1 hr
  refine ⟨inst, h1, callParams, h5, wrapErr_eq_ok.1 hinst, hprepare, ?_⟩
  cases outcome with
  | error e =>
    obtain ⟨_, h7, hget, hr⟩ := bind_eq_ok.1 hr
    cases hget
    split_ifs at hr
    · cases hr
      exact ⟨rfl, fun hrev => by cases hrev⟩
    · exact absurd hr throw_eq_ok
  | ok results =>
    obtain ⟨_, h7, hget, hr⟩ := bind_eq_ok.1 hr
    cases hget
    split_ifs at hr <;> cases hr
    · exact ⟨rfl, fun hrev => by cases hrev⟩
    · exact ⟨rfl, fun _ => ⟨results, attempt_eq_ok.1 hcall, rfl⟩⟩

end

end Dsn
