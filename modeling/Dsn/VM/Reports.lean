import Mathlib.Data.UInt
import Dsn.VM.Identity

/-!
# What an execution reports

The events of a report are slices of the guest's memory, and a deployment's are dropped. A trace is
what the guest really emitted and was charged.
-/

namespace Dsn

open Go InMemoryState

variable {result : ExecutionResult} {env : HostEnv} {s s' : InMemoryState} {vm : VM}

/-! ### Traces -/

structure Emission where
  topic : Bytes
  data : Bytes
  view : View

def Emission.event (env : HostEnv) (e : Emission) : Event :=
  ⟨env.contractID, e.topic, e.data, env.blockHeight, env.txIndex⟩

def Emission.entry (env : HostEnv) (e : Emission) : Event × View :=
  (⟨env.contractID, e.topic, [], env.blockHeight, env.txIndex⟩, e.view)

structure Trace where
  charges : List UInt64
  emissions : List Emission

namespace Trace

def empty : Trace := ⟨[], []⟩

def append (t t' : Trace) : Trace := ⟨t.charges ++ t'.charges, t.emissions ++ t'.emissions⟩

instance : Append Trace := ⟨append⟩

def total (t : Trace) : ℕ := (t.charges.map UInt64.toNat).sum

end Trace

def GasMeter.paid (gm : GasMeter) (cost : UInt64) : List UInt64 :=
  if (gm.deduct cost).isSome then [cost] else []

namespace HostCall

def charges (gm : GasMeter) : HostCall → List UInt64
  | .readStorage .. => gm.paid gasReadStorage
  | .writeStorage _ _ _ _ _ valueLen =>
    match gm.deduct gasWriteStorage with
    | none => []
    | some gm' => gasWriteStorage ::
      if valueLen > maxStorageValueSize then []
      else gm'.paid (gasPerStorageByte * valueLen.toUInt64)
  | .emitEvent .. => gm.paid gasEmitEvent
  | .readCaller _ => gm.paid gasReadCaller
  | .readBlockHeight => gm.paid gasReadBlockHeight
  | .readBlockTimestamp => gm.paid gasReadBlockTimestamp
  | .transferToken .. => gm.paid gasTransferToken

def slice (mem : Bytes) (ptr len : UInt32) : Option Bytes :=
  if ptr + len ≤ UInt32.ofNat mem.length ∧ ptr.toNat + len.toNat ≤ mem.length then
    some ((mem.drop ptr.toNat).take len.toNat)
  else none

def emissions (h : HostState) : HostCall → List Emission
  | .emitEvent topicPtr topicLen dataPtr dataLen =>
    match h.memory, h.meter.deduct gasEmitEvent with
    | current :: old, some _ =>
      match slice current topicPtr topicLen, slice current dataPtr dataLen with
      | some topic, some data => [⟨topic, data, ⟨old.length, dataPtr.toNat, dataLen.toNat⟩⟩]
      | _, _ => []
    | _, _ => []
  | _ => []

def trace (f : HostCall) (h : HostState) : Trace := ⟨f.charges h.meter, f.emissions h⟩

end HostCall

section

variable [Crypto]

def guestTrace {α : Type} (env : HostEnv) : Guest α → HostState → Trace
  | .ret _ _, _ => .empty
  | .trap _ _, _ => .empty
  | .call f arrays k, h => f.trace (h.sync arrays) ++
    match hostCall env f (h.sync arrays) with
    | .ok r h' => guestTrace env (k r h'.current) h'
    | .error _ _ => .empty

/-! ### Traces -/

structure Traces (env : HostEnv) (t : Trace) (h h' : HostState) : Prop where
  meter : h'.meter = { h.meter with used := h.meter.used + t.charges.sum }
  log : h'.eventLog = h.eventLog ++ t.emissions.map (Emission.entry env)

def Silent (h h' : HostState) : Prop := h'.meter = h.meter ∧ h'.eventLog = h.eventLog

instance : Std.Refl Silent := ⟨fun _ => ⟨rfl, rfl⟩⟩

instance : IsTrans HostState Silent :=
  ⟨fun _ _ _ h h' => ⟨h'.1.trans h.1, h'.2.trans h.2⟩⟩

section

variable {env : HostEnv} {t t' : Trace} {h h' h'' : HostState}

omit [Crypto]

theorem Traces.of_same (hsame : Silent h h') : Traces env .empty h h' where
  meter := by
    rw [hsame.1]
    simp [Trace.empty]
  log := by
    rw [hsame.2]
    simp [Trace.empty]

theorem Traces.trans (h1 : Traces env t h h') (h2 : Traces env t' h' h'') :
    Traces env (t ++ t') h h'' where
  meter := by
    rw [h2.meter, h1.meter]
    simp only [show (t ++ t').charges = t.charges ++ t'.charges from rfl, List.sum_append,
      UInt64.add_assoc]
  log := by
    rw [h2.log, h1.log]
    simp only [show (t ++ t').emissions = t.emissions ++ t'.emissions from rfl, List.map_append,
      List.append_assoc]

theorem Traces.same_left (hsame : Silent h h') (h2 : Traces env t h' h'') : Traces env t h h'' :=
  ⟨by rw [h2.meter, hsame.1], by rw [h2.log, hsame.2]⟩

theorem Traces.same_right (h1 : Traces env t h h') (hsame : Silent h' h'') : Traces env t h h'' :=
  ⟨by rw [hsame.1, h1.meter], by rw [hsame.2, h1.log]⟩

theorem sync_silent (arrays : List Bytes) (h : HostState) : Silent h (h.sync arrays) :=
  ⟨rfl, rfl⟩

theorem memWrite_silent (offset : UInt32) (v : Bytes) : Steps Silent (memWrite offset v) := by
  intro h
  unfold memWrite
  cases h.memory with
  | nil => exact ⟨rfl, rfl⟩
  | cons current old => dsimp only; split_ifs <;> exact ⟨rfl, rfl⟩

variable {cost : UInt64}

theorem deductGas_eq_ok (env : HostEnv) {b : Bool} (hr : deductGas cost h = .ok b h') :
    (b = true ∧ ∃ gm, h.meter.deduct cost = some gm ∧ h' = { h with meter := gm } ∧
      h.meter.paid cost = [cost] ∧ Traces env ⟨[cost], []⟩ h h') ∨
    (b = false ∧ h.meter.deduct cost = none ∧ h' = h ∧ h.meter.paid cost = []) := by
  unfold deductGas at hr
  cases hd : h.meter.deduct cost with
  | none =>
    rw [hd] at hr
    cases hr
    exact .inr ⟨rfl, rfl, rfl, by simp [GasMeter.paid, hd]⟩
  | some gm =>
    rw [hd] at hr
    cases hr
    obtain ⟨-, rfl⟩ := GasMeter.deduct_eq_some.1 hd
    refine .inl ⟨rfl, _, rfl, rfl, by simp [GasMeter.paid, hd], ⟨?_, ?_⟩⟩
    · simp
    · simp

theorem traces_ifGas {α : Type} {x y : Exec HostState α} {a : α}
    (hx : Steps Silent x) (hy : Steps Silent y)
    (hr : (do if ← deductGas cost then x else y) h = .ok a h') :
    Traces env ⟨h.meter.paid cost, []⟩ h h' := by
  obtain ⟨b, h1, hgas, hrest⟩ := bind_eq_ok.1 hr
  rcases deductGas_eq_ok env hgas with ⟨rfl, gm, -, -, hpaid, htraces⟩ | ⟨rfl, -, rfl, hpaid⟩
  · rw [hpaid]
    exact htraces.same_right (hx.of_ok hrest)
  · rw [hpaid]
    exact .of_same (hy.of_ok hrest)

end

theorem storeView_silent (contractID : Hash) (key : Bytes) (v : View) :
    Steps Silent (storeView contractID key v) := by
  intro h
  unfold storeView
  cases setContractStorage contractID key (v.bytes h.memory) h.state <;> exact ⟨rfl, rfl⟩

/-! ### Host functions -/

section

variable {env : HostEnv} {h h' : HostState} {r : UInt64}

theorem readStorage_traces {idPtr idLen keyPtr keyLen outPtr : UInt32}
    (hr : readStorage idPtr idLen keyPtr keyLen outPtr h = .ok r h') :
    Traces env ⟨h.meter.paid gasReadStorage, []⟩ h h' := by
  refine traces_ifGas ?_ (Steps.pure _) hr
  refine (Steps.of_reads memSize_reads).bind fun size => Steps.ite (Steps.pure _) ?_
  refine (Steps.of_reads (memRead_reads _ _)).bind fun idView =>
    (Steps.of_reads (memRead_reads _ _)).bind fun keyView => ?_
  split
  · refine (Steps.of_reads (viewBytes_reads _)).bind fun id =>
      (Steps.of_reads (viewBytes_reads _)).bind fun key => Steps.get.bind fun _ => ?_
    split
    · exact Steps.pure _
    · refine Steps.ite (Steps.ite (Steps.pure _) ?_) (Steps.pure _)
      exact (memWrite_silent _ _).bind fun ok => by cases ok <;> exact Steps.pure _
  · exact Steps.pure _

theorem writeStorage_traces {idPtr idLen keyPtr keyLen valuePtr valueLen : UInt32}
    (hr : writeStorage idPtr idLen keyPtr keyLen valuePtr valueLen h = .ok r h') :
    Traces env ((HostCall.writeStorage idPtr idLen keyPtr keyLen valuePtr valueLen).trace h) h
      h' := by
  obtain ⟨b, h1, hgas, hrest⟩ := bind_eq_ok.1 hr
  unfold HostCall.trace HostCall.charges
  rcases deductGas_eq_ok env hgas with ⟨rfl, gm, hgm, rfl, -, htraces⟩ | ⟨rfl, hgm, rfl, -⟩
  · rw [hgm]
    by_cases hlarge : valueLen > maxStorageValueSize
    · simp only [hlarge] at hrest ⊢
      obtain ⟨-, rfl⟩ := pure_eq_ok.1 hrest
      exact htraces
    · simp only [hlarge] at hrest ⊢
      refine htraces.trans (traces_ifGas ?_ (Steps.pure _) hrest)
      refine (Steps.of_reads memSize_reads).bind fun size => Steps.ite (Steps.pure _) ?_
      refine (Steps.of_reads (memRead_reads _ _)).bind fun idView =>
        (Steps.of_reads (memRead_reads _ _)).bind fun keyView =>
          (Steps.of_reads (memRead_reads _ _)).bind fun valueView => ?_
      split
      · refine (Steps.of_reads (viewBytes_reads _)).bind fun id =>
          (Steps.of_reads (viewBytes_reads _)).bind fun key => ?_
        exact (storeView_silent _ _ _).bind fun ok => by cases ok <;> exact Steps.pure _
      · exact Steps.pure _
  · rw [hgm]
    obtain ⟨-, rfl⟩ := pure_eq_ok.1 hrest
    exact .of_same ⟨rfl, rfl⟩

omit [Crypto] in
theorem readCaller_traces {outPtr : UInt32} (hr : readCaller env outPtr h = .ok r h') :
    Traces env ⟨h.meter.paid gasReadCaller, []⟩ h h' := by
  refine traces_ifGas ?_ (Steps.pure _) hr
  refine (Steps.of_reads memSize_reads).bind fun size => Steps.ite (Steps.pure _) ?_
  exact (memWrite_silent _ _).bind fun ok => by cases ok <;> exact Steps.pure _

omit [Crypto] in
theorem transferToken_traces {recipientPtr recipientLen : UInt32}
    (hr : transferToken recipientPtr recipientLen h = .ok r h') :
    Traces env ⟨h.meter.paid gasTransferToken, []⟩ h h' := by
  refine traces_ifGas ?_ (Steps.pure _) hr
  refine (Steps.of_reads memSize_reads).bind fun size => Steps.ite (Steps.pure _) ?_
  refine (Steps.of_reads (memRead_reads _ _)).bind fun recipient => ?_
  cases recipient with
  | none => exact Steps.pure _
  | some v => exact Steps.ite (Steps.pure _) (Steps.pure _)

variable {ptr len : UInt32}

section

omit [Crypto]

theorem slice_of_gt {mem : Bytes} (hgt : ptr + len > UInt32.ofNat mem.length) :
    HostCall.slice mem ptr len = none :=
  if_neg fun hle => absurd hle.1 (UInt32.not_le.2 hgt)

theorem memRead_cases {current : Bytes} {old : List Bytes} {v : Option View}
    (hmem : h.memory = current :: old) (hle : ptr + len ≤ UInt32.ofNat current.length)
    (hr : memRead ptr len h = .ok v h') :
    h' = h ∧ (v = none ∧ HostCall.slice current ptr len = none ∨
      v = some ⟨old.length, ptr.toNat, len.toNat⟩ ∧ HostCall.slice current ptr len =
        some (View.bytes h.memory ⟨old.length, ptr.toNat, len.toNat⟩)) := by
  unfold memRead at hr
  rw [hmem] at hr ⊢
  dsimp only at hr
  unfold HostCall.slice View.bytes
  by_cases hin : ptr.toNat + len.toNat ≤ current.length
  · rw [if_pos hin] at hr
    cases hr
    exact ⟨rfl, .inr ⟨rfl, by simp [hle, hin]⟩⟩
  · rw [if_neg hin] at hr
    cases hr
    exact ⟨rfl, .inl ⟨rfl, if_neg fun hboth => hin hboth.2⟩⟩

theorem emitEvent_traces {topicPtr topicLen dataPtr dataLen : UInt32} {u : Unit}
    (hr : emitEvent env topicPtr topicLen dataPtr dataLen h = .ok u h') :
    Traces env ((HostCall.emitEvent topicPtr topicLen dataPtr dataLen).trace h) h h' := by
  obtain ⟨meter, state, eventLog, callDepth, memory, slots⟩ := h
  obtain ⟨b, h1, hgas, hrest⟩ := bind_eq_ok.1 hr
  unfold HostCall.trace HostCall.charges HostCall.emissions
  rcases deductGas_eq_ok env hgas with ⟨rfl, gm, hgm, rfl, hpaid, htraces⟩ | ⟨rfl, hgm, rfl, hpaid⟩
  · rw [hpaid]
    obtain ⟨size, h2, hsize, hrest⟩ := bind_eq_ok.1 hrest
    cases memory with
    | nil => cases hsize
    | cons current old =>
      cases hsize
      simp only [hgm]
      by_cases hbounds : topicPtr + topicLen > UInt32.ofNat current.length ∨
          dataPtr + dataLen > UInt32.ofNat current.length
      · -- the check of the host fails
        simp only [hbounds] at hrest
        obtain ⟨-, rfl⟩ := pure_eq_ok.1 hrest
        rcases hbounds with htopic | hdata
        · rw [slice_of_gt htopic]
          exact htraces
        · rw [slice_of_gt hdata]
          cases HostCall.slice current topicPtr topicLen <;> exact htraces
      · simp only [hbounds] at hrest
        obtain ⟨htopic, hdata⟩ := not_or.1 hbounds
        obtain ⟨topicView, h3, htopicRead, hrest⟩ := bind_eq_ok.1 hrest
        obtain ⟨dataView, h4, hdataRead, hrest⟩ := bind_eq_ok.1 hrest
        obtain ⟨rfl, htopicView⟩ := memRead_cases rfl (UInt32.not_lt.1 htopic) htopicRead
        obtain ⟨rfl, hdataView⟩ := memRead_cases rfl (UInt32.not_lt.1 hdata) hdataRead
        rcases htopicView with ⟨rfl, htopicSlice⟩ | ⟨rfl, htopicSlice⟩
        · obtain ⟨-, rfl⟩ := pure_eq_ok.1 hrest
          rw [htopicSlice]
          exact htraces
        · rcases hdataView with ⟨rfl, hdataSlice⟩ | ⟨rfl, hdataSlice⟩
          · obtain ⟨-, rfl⟩ := pure_eq_ok.1 hrest
            rw [htopicSlice, hdataSlice]
            exact htraces
          · obtain ⟨topic, h5, hbytes, hlog⟩ := bind_eq_ok.1 hrest
            cases hbytes
            cases hlog
            rw [htopicSlice, hdataSlice]
            exact ⟨htraces.meter, rfl⟩
  · simp only [hpaid, hgm]
    obtain ⟨-, rfl⟩ := pure_eq_ok.1 hrest
    cases memory <;> exact .of_same ⟨rfl, rfl⟩

end

theorem hostCall_traces {f : HostCall} (hr : hostCall env f h = .ok r h') :
    Traces env (f.trace h) h h' := by
  cases f with
  | readStorage => exact readStorage_traces hr
  | writeStorage => exact writeStorage_traces hr
  | emitEvent =>
    obtain ⟨_, h1, hemit, hpure⟩ := bind_eq_ok.1 hr
    obtain ⟨-, rfl⟩ := pure_eq_ok.1 hpure
    exact emitEvent_traces hemit
  | readCaller => exact readCaller_traces hr
  | readBlockHeight => exact traces_ifGas (Steps.pure _) (Steps.pure _) hr
  | readBlockTimestamp => exact traces_ifGas (Steps.pure _) (Steps.pure _) hr
  | transferToken => exact transferToken_traces hr

theorem runGuest_traces {α : Type} {g : Guest α} {a : α} (hr : runGuest env g h = .ok a h') :
    Traces env (guestTrace env g h) h h' := by
  induction g generalizing h with
  | ret b arrays =>
    cases hr
    exact .of_same (sync_silent arrays h)
  | trap err arrays => cases hr
  | call f arrays k ih =>
    unfold runGuest at hr
    unfold guestTrace
    cases hcall : hostCall env f (h.sync arrays) with
    | error e h1 =>
      rw [hcall] at hr
      cases hr
    | ok v h1 =>
      rw [hcall] at hr
      exact Traces.same_left (sync_silent arrays h)
        ((hostCall_traces hcall).trans (ih v h1.current hr))

end

/-! ### Deployments and calls -/

def startTrace (env : HostEnv) (m : WasmModule) (h : HostState) : Trace :=
  match m.linkError with
  | some _ => .empty
  | none => guestTrace env m.start { h with memory := m.memory.toList }

def constructorTrace (env : HostEnv) (m : WasmModule) (exportName : Bytes) (h : HostState) :
    Trace :=
  startTrace env m h ++
    match instantiateModule env m h with
    | .error _ _ => .empty
    | .ok inst h₁ =>
      match prepareConstructor env h₁ with
      | .error _ _ => .empty
      | .ok _ h₂ => guestTrace env (inst.call exportName [] h₂.current) h₂

def entrypointTrace (env : HostEnv) (tx : CallContractTx) (m : WasmModule) (h : HostState) :
    Trace :=
  startTrace env m h ++
    match instantiateModule env m h with
    | .error _ _ => .empty
    | .ok inst h₁ =>
      match prepareCall tx m h₁ with
      | .error _ _ => .empty
      | .ok callParams h₂ => guestTrace env (inst.call tx.entrypoint callParams h₂.current) h₂

section

variable {env : HostEnv} {m : WasmModule} {h h' : HostState}

theorem instantiateModule_traces {inst : Instance} (hr : instantiateModule env m h = .ok inst h') :
    Traces env (startTrace env m h) h h' := by
  unfold instantiateModule at hr
  unfold startTrace
  cases hlink : m.linkError with
  | some e =>
    rw [hlink] at hr
    exact absurd hr throw_eq_ok
  | none =>
    rw [hlink] at hr
    have hstart := runGuest_traces hr
    exact ⟨hstart.meter, hstart.log⟩

section

omit [Crypto]

theorem writeForGuest_silent (offset : UInt32) (v : Bytes) (failure : String) :
    Steps Silent (writeForGuest offset v failure) :=
  (memWrite_silent offset v).bind fun _ => Steps.failIf _ _

theorem enterCall_silent : Steps Silent enterCall :=
  Steps.get.bind fun _ => (Steps.failIf _ _).bind fun _ => Steps.modify fun _ => ⟨rfl, rfl⟩

theorem prepareConstructor_silent (env : HostEnv) : Steps Silent (prepareConstructor env) :=
  (writeForGuest_silent _ _ _).bind fun _ => enterCall_silent

theorem prepareCall_silent (tx : CallContractTx) (m : WasmModule) :
    Steps Silent (prepareCall tx m) := by
  refine (Steps.failIf _ _).bind fun _ => Steps.bind ?_ fun callParams =>
    (writeForGuest_silent _ _ _).bind fun _ => enterCall_silent.bind fun _ => Steps.pure _
  refine Steps.ite ?_ (Steps.pure _)
  exact (Steps.of_reads memSize_reads).bind fun size => (Steps.failIf _ _).bind fun _ =>
    (writeForGuest_silent _ _ _).bind fun _ => Steps.pure _

end

theorem runConstructor_traces {exportName : Bytes} {used : UInt64}
    (hr : runConstructor env m exportName h = .ok used h') :
    Traces env (constructorTrace env m exportName h) h h' := by
  obtain ⟨inst, h1, h2, results, h3, hinst, hprepare, hcall, rfl, -⟩ := runConstructor_ok hr
  have hguest := runGuest_traces hcall
  unfold constructorTrace
  rw [hinst]
  dsimp only
  rw [hprepare]
  exact (instantiateModule_traces hinst).trans (Traces.same_left
    ((prepareConstructor_silent env).of_ok hprepare) ⟨hguest.meter, hguest.log⟩)

theorem callEntrypoint_traces {tx : CallContractTx} (hr : callEntrypoint env tx m h = .ok result h')
    (hrev : result.reverted = false) :
    Traces env (entrypointTrace env tx m h) h h' ∧ result.events = h'.events := by
  obtain ⟨inst, h1, callParams, h2, hinst, hprepare, -, hkept⟩ := callEntrypoint_ok hr
  obtain ⟨results, hcall, hevents⟩ := hkept hrev
  refine ⟨?_, hevents⟩
  unfold entrypointTrace
  rw [hinst]
  dsimp only
  rw [hprepare]
  exact (instantiateModule_traces hinst).trans (Traces.same_left
    ((prepareCall_silent tx m).of_ok hprepare) (runGuest_traces hcall))

end

def executionEnv (tx : ContractTx) (height timestamp : UInt64) (txIndex : UInt32) : HostEnv :=
  match tx with
  | .deploy t => deployEnv t height timestamp txIndex
  | .call t => callEnv t height timestamp txIndex

def constructorHost (tx : DeployContractTx) (height : UInt64) (meter : GasMeter)
    (s : InMemoryState) : HostState :=
  newHostState (newGasMeter meter.remaining) (deployed tx height s)

def entrypointHost (tx : CallContractTx) (s : InMemoryState) : HostState :=
  newHostState (newGasMeter tx.gasLimit) s

def deployTrace (vm : VM) (tx : DeployContractTx) (height timestamp : UInt64) (txIndex : UInt32)
    (s : InMemoryState) : Trace :=
  match compileModule vm tx.wasmCode, (newGasMeter tx.gasLimit).deduct
      (gasDeployBase + gasPerCodeByte * UInt64.ofNat tx.wasmCode.length) with
  | .ok m, some meter =>
    match m.constructor with
    | none => .empty
    | some exportName => constructorTrace (deployEnv tx height timestamp txIndex) m exportName
        (constructorHost tx height meter s)
  | _, _ => .empty

def contractModule (vm : VM) (contractID : Hash) (s : InMemoryState) : Except Error WasmModule := do
  compileModule vm (← loadCode contractID s)

def callTrace (vm : VM) (tx : CallContractTx) (height timestamp : UInt64) (txIndex : UInt32)
    (s : InMemoryState) : Trace :=
  match contractModule vm tx.contractID s with
  | .ok m => entrypointTrace (callEnv tx height timestamp txIndex) tx m (entrypointHost tx s)
  | .error _ => .empty

def callMemory (vm : VM) (tx : CallContractTx) (height timestamp : UInt64) (txIndex : UInt32)
    (s : InMemoryState) : Memory :=
  match contractModule vm tx.contractID s with
  | .ok m => (finalState (callEntrypoint (callEnv tx height timestamp txIndex) tx m
      (entrypointHost tx s))).memory
  | .error _ => []

def executionTrace (vm : VM) (tx : ContractTx) (height timestamp : UInt64) (txIndex : UInt32)
    (s : InMemoryState) : Trace :=
  match tx with
  | .deploy t => deployTrace vm t height timestamp txIndex s.saved
  | .call t => callTrace vm t height timestamp txIndex s.saved

def deploymentCharge : ContractTx → ℕ
  | .deploy t => gasDeployBase.toNat + gasPerCodeByte.toNat * t.wasmCode.length
  | .call _ => 0

/-- The result tells the events and the gas of the run. -/
structure Faithful (env : HostEnv) (charge : ℕ) (t : Trace) (result : ExecutionResult) : Prop where
  events : result.events = t.emissions.map (Emission.event env)
  gasUsed : result.gasUsed.toNat = charge + t.total

structure Reportable (vm : VM) (tx : ContractTx) (height timestamp : UInt64) (txIndex : UInt32)
    (s : InMemoryState) : Prop where
  events : match tx with
    | .deploy t => (deployTrace vm t height timestamp txIndex s.saved).emissions = []
    | .call t => ∀ e ∈ (callTrace vm t height timestamp txIndex s.saved).emissions,
        e.view.bytes (callMemory vm t height timestamp txIndex s.saved) = e.data
  gas : deploymentCharge tx + (executionTrace vm tx height timestamp txIndex s).total < 2 ^ 64

omit [Crypto] in
theorem toNat_sum_charges (t : Trace) : t.charges.sum.toNat = t.total % 2 ^ 64 := by
  unfold Trace.total
  induction t.charges with
  | nil => rfl
  | cons c cs ih =>
    rw [List.sum_cons, List.map_cons, List.sum_cons, UInt64.toNat_add, ih]
    omega

variable {h' : HostState} {t : Trace}

omit [Crypto] in
theorem Traces.used {limit : UInt64}
    (htraces : Traces env t (newHostState (newGasMeter limit) s) h') :
    h'.meter.used.toNat = t.total % 2 ^ 64 := by
  rw [htraces.meter]
  simp [newHostState, newGasMeter, toNat_sum_charges]

variable {meter : GasMeter}

omit [Crypto] in
theorem Traces.events_iff (htraces : Traces env t (newHostState meter s) h') :
    h'.events = t.emissions.map (Emission.event env) ↔
      ∀ e ∈ t.emissions, e.view.bytes h'.memory = e.data := by
  unfold HostState.events
  rw [htraces.log]
  simp [newHostState, Emission.entry, Emission.event]

variable {m : WasmModule}

omit [Crypto] in
theorem toNat_deploymentGas {code : Bytes} (hcompile : compileModule vm code = .ok m) :
    (gasDeployBase + gasPerCodeByte * UInt64.ofNat code.length).toNat =
      gasDeployBase.toNat + gasPerCodeByte.toNat * code.length := by
  have hlength : code.length ≤ maxContractSize := by
    unfold compileModule at hcompile
    split_ifs at hcompile with hlarge
    exact Nat.le_of_not_lt hlarge
  unfold maxContractSize at hlength
  rw [UInt64.toNat_add, UInt64.toNat_mul, UInt64.toNat_ofNat']
  simp only [gasDeployBase, gasPerCodeByte, UInt64.reduceToNat]
  omega

theorem runConstructors_used {used : UInt64} (hr : runConstructors env m meter s = .ok used s') :
    used.toNat = (match m.constructor with
      | none => Trace.empty
      | some exportName => constructorTrace env m exportName
          (newHostState (newGasMeter meter.remaining) s)).total % 2 ^ 64 := by
  unfold runConstructors at hr
  cases hc : m.constructor with
  | none =>
    rw [hc] at hr
    cases hr
    rfl
  | some exportName =>
    rw [hc] at hr
    obtain ⟨h', hrun, -⟩ := withHost_eq_ok.1 hr
    rw [runConstructor_gasUsed hrun]
    exact (runConstructor_traces hrun).used

variable {height timestamp : UInt64} {txIndex : UInt32}

theorem executeDeploy_report {tx : DeployContractTx}
    (hr : executeDeploy vm tx height timestamp txIndex s = .ok (result, none) s') :
    result.events = [] ∧ result.gasUsed.toNat = (deploymentCharge (.deploy tx) +
      (deployTrace vm tx height timestamp txIndex s).total) % 2 ^ 64 := by
  rcases executeDeploy_cases vm tx height timestamp txIndex s with
    ⟨e, hx, -⟩ | ⟨hx, -⟩ | ⟨m, meter, hdeploys, hx⟩ <;> rw [hx] at hr
  · cases hr
  · cases hr
  · obtain ⟨used, s1, hused, hr⟩ := bind_eq_ok.1 hr
    cases hr
    refine ⟨rfl, ?_⟩
    have hcharge := toNat_deploymentGas hdeploys.compiles
    have htrace := runConstructors_used hused
    unfold deployTrace deploymentCharge constructorHost
    rw [hdeploys.compiles, hdeploys.pays]
    dsimp only
    obtain ⟨-, rfl⟩ := GasMeter.deduct_eq_some.1 hdeploys.pays
    rw [UInt64.toNat_add, htrace, ← hcharge]
    simp [newGasMeter]

theorem executeCall_report {tx : CallContractTx}
    (hr : executeCall vm tx height timestamp txIndex s = .ok (result, none) s')
    (hrev : result.reverted = false) :
    (result.events = (callTrace vm tx height timestamp txIndex s).emissions.map
        (Emission.event (callEnv tx height timestamp txIndex)) ↔
      ∀ e ∈ (callTrace vm tx height timestamp txIndex s).emissions,
        e.view.bytes (callMemory vm tx height timestamp txIndex s) = e.data) ∧
    result.gasUsed.toNat = (callTrace vm tx height timestamp txIndex s).total % 2 ^ 64 := by
  rcases executeCall_cases vm tx height timestamp txIndex s with
    ⟨e, hx, -⟩ | ⟨m, ⟨⟨code, hcode, hm⟩, -⟩, hx⟩ <;> rw [hx] at hr
  · cases hr
  · obtain ⟨result', s1, hrun, hr⟩ := bind_eq_ok.1 hr
    cases hr
    obtain ⟨h', hrun, -⟩ := withHost_eq_ok.1 hrun
    obtain ⟨htraces, hevents⟩ := callEntrypoint_traces hrun hrev
    have hmodule : contractModule vm tx.contractID s = .ok m := by
      unfold contractModule
      rw [hcode]
      exact hm
    unfold callTrace callMemory entrypointHost
    rw [hmodule]
    dsimp only
    rw [hrun, hevents, callEntrypoint_gasUsed hrun]
    exact ⟨htraces.events_iff, htraces.used⟩

/-- When the report of an execution is faithful. -/
theorem execution_report_iff {vm : VM} {tx : ContractTx} {height timestamp : UInt64}
    {txIndex : UInt32} {result : ExecutionResult} {s s' : InMemoryState}
    (hr : vm.execute tx height timestamp txIndex s = .ok (result, none) s')
    (hrev : result.reverted = false) :
    Faithful (executionEnv tx height timestamp txIndex) (deploymentCharge tx)
        (executionTrace vm tx height timestamp txIndex s) result ↔
      Reportable vm tx height timestamp txIndex s := by
  rcases vm.execute_cases tx height timestamp txIndex s with
    ⟨e, t, -, -, hx⟩ | ⟨e, t, -, -, hx⟩ | ⟨result', err, t, -, hfail, hx⟩ |
      ⟨result', err, t, hbody, -, hx⟩ <;> rw [hx] at hr <;> cases hr
  · -- what is rolled back is an error or a revert
    rcases hfail with hfail | hfail
    · cases hfail
    · cases hfail.symm.trans hrev
  · cases tx with
    | deploy tx =>
      obtain ⟨hevents, hgas⟩ := executeDeploy_report hbody
      constructor
      · rintro ⟨hreported, hpaid⟩
        rw [hevents] at hreported
        refine ⟨List.map_eq_nil_iff.1 hreported.symm, ?_⟩
        rw [← hpaid]
        exact UInt64.toNat_lt _
      · rintro ⟨hnone, hsmall⟩
        refine ⟨?_, hgas.trans (Nat.mod_eq_of_lt hsmall)⟩
        rw [hevents]
        exact (List.map_eq_nil_iff.2 hnone).symm
    | call tx =>
      obtain ⟨hevents, hgas⟩ := executeCall_report hbody hrev
      constructor
      · rintro ⟨hreported, hpaid⟩
        refine ⟨hevents.1 hreported, ?_⟩
        rw [← hpaid]
        exact UInt64.toNat_lt _
      · rintro ⟨hkept, hsmall⟩
        refine ⟨hevents.2 hkept, ?_⟩
        rw [show deploymentCharge (.call tx) = 0 from rfl, Nat.zero_add] at hsmall ⊢
        exact hgas.trans (Nat.mod_eq_of_lt hsmall)

end

open Sample

def emittingEngine (exportName : Bytes) (arrays : List Bytes) : VM :=
  sampleEngine (sampleModule (some sampleMemory) exportName
    (.call (.emitEvent 0 1 1 1) [] fun _ _ => .ret [] arrays))

theorem reports_unfaithful :
    (¬ ∀ (_ : Crypto) (vm : VM) (tx : DeployContractTx) (height timestamp : UInt64)
      (txIndex : UInt32) (s s' : InMemoryState) (result : ExecutionResult),
      vm.execute (.deploy tx) height timestamp txIndex s = .ok (result, none) s' →
      result.reverted = false →
      Faithful (executionEnv (.deploy tx) height timestamp txIndex) (deploymentCharge (.deploy tx))
        (executionTrace vm (.deploy tx) height timestamp txIndex s) result) ∧
    ¬ ∀ (_ : Crypto) (vm : VM) (tx : CallContractTx) (height timestamp : UInt64)
      (txIndex : UInt32) (s s' : InMemoryState) (result : ExecutionResult),
      vm.execute (.call tx) height timestamp txIndex s = .ok (result, none) s' →
      result.reverted = false →
      Faithful (executionEnv (.call tx) height timestamp txIndex) (deploymentCharge (.call tx))
        (executionTrace vm (.call tx) height timestamp txIndex s) result := by
  constructor <;> intro h
  · obtain ⟨⟨result, err⟩, s', hrun, htest⟩ := exists_of_succeedsWith (show succeedsWith
      (fun a _ => decide (a.2 = none ∧ a.1.reverted = false ∧ a.1.events = []))
      ((emittingEngine (str "init") []).execute (.deploy (sampleDeploy zeroHash)) 1 1 0
        newInMemoryState) = true by decide +kernel)
    obtain ⟨rfl, hrev, hevents⟩ := of_decide_eq_true htest
    have hfaithful := (h sampleCrypto _ _ _ _ _ _ _ _ hrun hrev).events
    rw [hevents] at hfaithful
    exact absurd hfaithful (by decide +kernel)
  · obtain ⟨⟨result, err⟩, s', hrun, htest⟩ := exists_of_succeedsWith (show succeedsWith
      (fun a _ => decide (a.2 = none ∧ a.1.reverted = false ∧
        a.1.events = [⟨sampleContract, [0], [1], 1, 0⟩]))
      ((emittingEngine (str "run") [List.replicate 1056 1]).execute (.call callOfContract) 1 1 0
        ledgerWithContract) = true by decide +kernel)
    obtain ⟨rfl, hrev, hevents⟩ := of_decide_eq_true htest
    have hfaithful := (h sampleCrypto _ _ _ _ _ _ _ _ hrun hrev).events
    rw [hevents] at hfaithful
    exact absurd hfaithful (by decide +kernel)

theorem emitted_event_reported : ∃ result s',
    (emittingEngine (str "run") []).execute (.call callOfContract) 1 1 0 ledgerWithContract =
      .ok (result, none) s' ∧
    Faithful (executionEnv (.call callOfContract) 1 1 0) (deploymentCharge (.call callOfContract))
      (executionTrace (emittingEngine (str "run") []) (.call callOfContract) 1 1 0
        ledgerWithContract) result := by
  obtain ⟨⟨result, err⟩, s', hrun, htest⟩ := exists_of_succeedsWith (show succeedsWith
    (fun a _ => decide (a.2 = none ∧ a.1.reverted = false))
    ((emittingEngine (str "run") []).execute (.call callOfContract) 1 1 0 ledgerWithContract) = true
    by decide +kernel)
  obtain ⟨rfl, hrev⟩ := of_decide_eq_true htest
  exact ⟨result, s', hrun, (execution_report_iff hrun hrev).2
    ⟨by decide +kernel, by decide +kernel⟩⟩

end Dsn
