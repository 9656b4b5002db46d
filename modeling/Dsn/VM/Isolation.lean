import Dsn.VM.Panics

/-!
# Is a contract confined to its own storage?

The guest names the contract that `write_storage` writes to, and nothing compares the name with the
contract that runs. So an execution stays within its own storage exactly if the slots of other
contracts that it got written hold what they held before, or if all it did is rolled back.

* `Synced`: every slot written holds what the guest's memory has there. The store keeps a slice of
  that memory and no copy, so this is meant at the end of the execution, not at the call.
* `Unwritten`: a module without a memory writes nothing. This is the one case of a panic, after
  which nothing is rolled back.
* `Ends`: the host at the end of an execution whose effects are kept.
-/

namespace Dsn

open Go InMemoryState

section

variable [Crypto]

/-- Only slots of the contract change, and what a deployment stores. -/
def Confined (tx : ContractTx) (s s' : InMemoryState) : Prop :=
  s'.accounts = s.accounts ∧ ∀ key, s'.getBytes key ≠ s.getBytes key →
    (∃ slot, key = storageKey tx.contractID slot) ∨ key ∈ tx.deployKeys

/-! ### What a slot holds in the end -/

section

variable {h h' : HostState} {env : HostEnv} {m : WasmModule}

def Synced (h : HostState) : Prop :=
  ∀ e ∈ h.slots, h.state.getBytes e.1 = some (e.2.bytes h.memory)

omit [Crypto] in
theorem getBytes_foldl_setBytes {l : List (Bytes × View)} (hl : (l.map Prod.fst).Nodup)
    (mem : Memory) (s : InMemoryState) : ∀ e ∈ l,
      (l.foldl (fun st e => st.setBytes e.1 (e.2.bytes mem)) s).getBytes e.1 =
        some (e.2.bytes mem) := by
  induction l generalizing s with
  | nil => exact fun e he => absurd he List.not_mem_nil
  | cons a l ih =>
    obtain ⟨ha, hl⟩ := List.nodup_cons.1 hl
    refine List.forall_mem_cons.2 ⟨?_, ih hl _⟩
    -- no later slot has the key of the first
    have hframe := KeyFrame.foldl_setBytes (P := (· ∈ l.map Prod.fst))
      (fun e he => List.mem_map_of_mem he) mem (s.setBytes a.1 (a.2.bytes mem))
    rw [List.foldl_cons, hframe.keys _ ha, getBytes_setBytes_self]

omit [Crypto] in
theorem synced_refresh (hnodup : h.written.Nodup) : Synced h.refresh :=
  getBytes_foldl_setBytes hnodup h.memory h.state

section

variable (hproper : h.Proper)
include hproper

theorem runGuest_synced {α : Type} {g : Guest α} {a : α} (hr : runGuest env g h = .ok a h') :
    Synced h' := by
  induction g generalizing h with
  | ret b arrays =>
    cases hr
    exact synced_refresh hproper.1
  | trap err arrays => cases hr
  | call f arrays k ih =>
    have hcall := IsTrans.trans _ _ _ (Recorded.hostRelation.sync arrays h)
      (Recorded.hostRelation.hostCall env f (h.sync arrays))
    unfold runGuest at hr
    split at hr
    next r h1 hx =>
      rw [hx] at hcall
      exact ih r h1.current (hcall.proper hproper) hr
    next => cases hr

theorem instantiateModule_proper {inst : Instance} (hr : instantiateModule env m h = .ok inst h') :
    h'.Proper := by
  have hinst := Recorded.hostRelation.instantiateModule env m h (.of_eq rfl rfl)
  rw [hr] at hinst
  exact hinst.proper hproper

theorem runConstructor_synced {exportName : Bytes} {used : UInt64}
    (hr : runConstructor env m exportName h = .ok used h') : Synced h' := by
  obtain ⟨inst, h1, h2, results, h3, hinst, hprepare, hcall, rfl, -⟩ := runConstructor_ok hr
  have hprepared := ((Recorded.hostRelation.writeForGuest _ _ _).bind fun _ =>
    Recorded.hostRelation.enterCall).of_ok hprepare
  have hsynced := runGuest_synced (hprepared.proper (instantiateModule_proper hproper hinst)) hcall
  exact hsynced

theorem callEntrypoint_synced {tx : CallContractTx} {result : ExecutionResult}
    (hr : callEntrypoint env tx m h = .ok result h') (hrev : result.reverted = false) :
    Synced h' := by
  obtain ⟨inst, h1, callParams, h2, hinst, hprepare, -, hkept⟩ := callEntrypoint_ok hr
  obtain ⟨results, hcall, -⟩ := hkept hrev
  have hprepared := ((Steps.failIf _ _).bind fun _ =>
    (Recorded.hostRelation.writeCalldata _).bind fun _ =>
      (Recorded.hostRelation.writeForGuest _ _ _).bind fun _ =>
        Recorded.hostRelation.enterCall.bind fun _ => Steps.pure _).of_ok hprepare
  exact runGuest_synced (hprepared.proper (instantiateModule_proper hproper hinst)) hcall

end

def Unwritten (h h' : HostState) : Prop := h.memory = [] → h'.memory = [] ∧ h'.slots = h.slots

instance : Std.Refl Unwritten := ⟨fun _ hmem => ⟨hmem, rfl⟩⟩

instance : IsTrans HostState Unwritten :=
  ⟨fun _ _ _ h h' hmem => ⟨(h' (h hmem).1).1, (h' (h hmem).1).2.trans (h hmem).2⟩⟩

theorem unwritten : HostRelation Unwritten where
  gas cost h hmem := by
    unfold deductGas
    cases h.meter.deduct cost <;> exact ⟨hmem, rfl⟩
  memory _ _ hnil hmem := ⟨hnil.2 hmem, rfl⟩
  store _ _ _ _ hne hmem := absurd hmem hne
  depth _ _ hmem := ⟨hmem, rfl⟩
  log _ _ hmem := ⟨hmem, rfl⟩
  refresh _ hmem := ⟨hmem, rfl⟩

end

/-! ### Executions -/

inductive Ends (vm : VM) (height timestamp : UInt64) (txIndex : UInt32) (s : InMemoryState) :
    ContractTx → HostState → Prop
  | deploy {t : DeployContractTx} {m : WasmModule} {meter : GasMeter} {exportName : Bytes}
      {used : UInt64} {h : HostState} : Deploys vm t s m meter → m.constructor = some exportName →
      runConstructor (deployEnv t height timestamp txIndex) m exportName
        (newHostState (newGasMeter meter.remaining) (deployed t height s)) = .ok used h →
      Ends vm height timestamp txIndex s (.deploy t) h
  | call {t : CallContractTx} {m : WasmModule} {result : ExecutionResult} {h : HostState} :
      Loads vm t.contractID s m →
      callEntrypoint (callEnv t height timestamp txIndex) t m
        (newHostState (newGasMeter t.gasLimit) s) = .ok result h →
      result.reverted = false → Ends vm height timestamp txIndex s (.call t) h

variable {vm : VM} {height timestamp : UInt64} {txIndex : UInt32} {s : InMemoryState}
  {h : HostState} {tx : ContractTx}

structure Runs (vm : VM) (height timestamp : UInt64) (txIndex : UInt32) (s : InMemoryState)
    (tx : ContractTx) (h : HostState) : Prop where
  recorded : ∃ meter base, KeyFrame (· ∈ tx.deployKeys) s base ∧
    Recorded (newHostState meter base) h
  state : finalState (executeTx vm tx height timestamp txIndex s) = h.state
  panics : Panics (executeTx vm tx height timestamp txIndex) s → h.slots = []
  kept : ∀ result t, executeTx vm tx height timestamp txIndex s = .ok (result, none) t →
    result.reverted = false → Synced h ∧ Ends vm height timestamp txIndex s tx h
  ends : ∀ h', Ends vm height timestamp txIndex s tx h' → h' = h ∧
    ∃ result, executeTx vm tx height timestamp txIndex s = .ok (result, none) h.state ∧
      result.reverted = false

theorem executeDeploy_runs (vm : VM) (t : DeployContractTx) (height timestamp : UInt64)
    (txIndex : UInt32) (s : InMemoryState) :
    (KeyFrame (· ∈ (ContractTx.deploy t).deployKeys) s
        (finalState (executeTx vm (.deploy t) height timestamp txIndex s)) ∧
      ∀ h, ¬ Ends vm height timestamp txIndex s (.deploy t) h) ∨
    ∃ h, Runs vm height timestamp txIndex s (.deploy t) h := by
  have hrun : executeTx vm (.deploy t) height timestamp txIndex s =
    executeDeploy vm t height timestamp txIndex s := rfl
  rcases executeDeploy_cases vm t height timestamp txIndex s with
    ⟨e, hx, -, hnone⟩ | ⟨hx, hnone⟩ | ⟨m, meter, hdeploys, hx⟩
  · rw [hrun, hx]
    refine .inl ⟨Std.Refl.refl s, ?_⟩
    rintro h ⟨hdeploys, -⟩
    exact hnone _ _ hdeploys
  · rw [hrun, hx]
    refine .inl ⟨Std.Refl.refl s, ?_⟩
    rintro h ⟨hdeploys, -⟩
    exact hnone _ _ hdeploys
  unfold runConstructors at hx
  cases hc : m.constructor with
  | none =>
    rw [hc] at hx
    rw [hrun, hx]
    refine .inl ⟨deployed_keyFrame t height s, ?_⟩
    rintro h ⟨hdeploys', hc', -⟩
    obtain ⟨rfl, -⟩ := hdeploys.unique hdeploys'
    cases hc.symm.trans hc'
  | some exportName =>
    rw [hc] at hx
    refine .inr ⟨finalState (runConstructor (deployEnv t height timestamp txIndex) m exportName
      (newHostState (newGasMeter meter.remaining) (deployed t height s))), ?_⟩
    have hrecorded := Recorded.hostRelation.runConstructor (deployEnv t height timestamp txIndex) m
      exportName (newHostState (newGasMeter meter.remaining) (deployed t height s)) (.of_eq rfl rfl)
    refine ⟨⟨_, _, deployed_keyFrame t height s, hrecorded⟩, ?_, fun hp => ?_,
      fun result t' hr _ => ?_, fun h' hends => ?_⟩
    · rw [hrun, hx, finalState_bind_pure, finalState_withHost]
    · obtain ⟨m', meter', hdeploys', hmem, -⟩ := panics_executeDeploy.1 hp
      obtain ⟨rfl, rfl⟩ := hdeploys.unique hdeploys'
      have hload := unwritten.runConstructor (deployEnv t height timestamp txIndex) m exportName
        (newHostState (newGasMeter meter.remaining) (deployed t height s))
        fun _ => ⟨congrArg Option.toList hmem, rfl⟩
      exact (hload rfl).2
    · rw [hrun, hx] at hr
      obtain ⟨used, s', hused, -⟩ := bind_eq_ok.1 hr
      obtain ⟨h', hrun', -⟩ := withHost_eq_ok.1 hused
      rw [hrun'] at hrecorded ⊢
      have hproper : (newHostState (newGasMeter meter.remaining) (deployed t height s)).Proper :=
        Recorded.proper_of_new (Std.Refl.refl _)
      exact ⟨runConstructor_synced hproper hrun', .deploy hdeploys hc hrun'⟩
    · obtain ⟨hdeploys', hc', hrun'⟩ := hends
      obtain ⟨rfl, rfl⟩ := hdeploys.unique hdeploys'
      cases hc.symm.trans hc'
      rw [hrun']
      refine ⟨rfl, ?_⟩
      rw [hrun, hx, bind_eq_ok_of (withHost_eq_ok.2 ⟨_, hrun', rfl⟩)]
      exact ⟨_, rfl, rfl⟩

theorem executeCall_runs (vm : VM) (t : CallContractTx) (height timestamp : UInt64)
    (txIndex : UInt32) (s : InMemoryState) :
    (KeyFrame (· ∈ (ContractTx.call t).deployKeys) s
        (finalState (executeTx vm (.call t) height timestamp txIndex s)) ∧
      ∀ h, ¬ Ends vm height timestamp txIndex s (.call t) h) ∨
    ∃ h, Runs vm height timestamp txIndex s (.call t) h := by
  have hrun : executeTx vm (.call t) height timestamp txIndex s =
    executeCall vm t height timestamp txIndex s := rfl
  rcases executeCall_cases vm t height timestamp txIndex s with
    ⟨e, hx, -, hnone⟩ | ⟨m, hloads, hx⟩
  · rw [hrun, hx]
    refine .inl ⟨Std.Refl.refl s, fun h hends => ?_⟩
    cases hends with
    | call hloads => exact hnone _ hloads
  have hrecorded := Recorded.hostRelation.callEntrypoint (callEnv t height timestamp txIndex) t m
    (newHostState (newGasMeter t.gasLimit) s) (.of_eq rfl rfl)
  refine .inr ⟨_, ⟨_, _, Std.Refl.refl s, hrecorded⟩, ?_, fun hp => ?_, fun result t' hr hrev => ?_,
    fun h' hends => ?_⟩
  · rw [hrun, hx, finalState_bind_pure, finalState_withHost]
  · obtain ⟨m', hloads', hmem, -⟩ := panics_executeCall.1 hp
    obtain rfl := hloads.unique hloads'
    have hload := unwritten.callEntrypoint (callEnv t height timestamp txIndex) t m
      (newHostState (newGasMeter t.gasLimit) s) fun _ => ⟨congrArg Option.toList hmem, rfl⟩
    exact (hload rfl).2
  · rw [hrun, hx] at hr
    obtain ⟨result', s', hcall, hr⟩ := bind_eq_ok.1 hr
    cases hr
    obtain ⟨h', hrun', -⟩ := withHost_eq_ok.1 hcall
    rw [hrun']
    have hproper : (newHostState (newGasMeter t.gasLimit) s).Proper :=
      Recorded.proper_of_new (Std.Refl.refl _)
    exact ⟨callEntrypoint_synced hproper hrun' hrev, .call hloads hrun' hrev⟩
  · cases hends with
    | call hloads' hrun' hrev =>
      obtain rfl := hloads.unique hloads'
      rw [hrun']
      refine ⟨rfl, _, ?_, hrev⟩
      rw [hrun, hx]
      exact bind_eq_ok.2 ⟨_, _, withHost_eq_ok.2 ⟨_, hrun', rfl⟩, rfl⟩

/-- The slots of other contracts that were written hold what they held before. -/
def SparesOthers (tx : ContractTx) (s : InMemoryState) (h : HostState) : Prop :=
  ∀ id slot v, (storageKey id slot, v) ∈ h.slots → id ≠ tx.contractID →
    s.getBytes (storageKey id slot) = some (v.bytes h.memory)

theorem storageKey_not_mem_deployKeys (tx : ContractTx) (id : Hash) (slot : Bytes) :
    storageKey id slot ∉ tx.deployKeys := by
  intro hmem
  cases tx with
  | call t => cases hmem
  | deploy t =>
    have hstorage := storageKey_startsWith id slot
    rcases List.mem_pair.1 hmem with h | h <;> rw [h] at hstorage <;>
      exact not_startsWith_append (by decide) _ hstorage

theorem Runs.confined_iff (hruns : Runs vm height timestamp txIndex s.saved tx h)
    (hsynced : Synced h) : Confined tx s h.state ↔ SparesOthers tx s h := by
  obtain ⟨meter, base, hbase, hrec⟩ := hruns.recorded
  constructor
  · rintro ⟨-, hkeys⟩ id slot v hmem hid
    by_contra hne
    rw [← hsynced _ hmem] at hne
    rcases hkeys _ (Ne.symm hne) with ⟨slot', hslot⟩ | hmem
    · exact hid (storageKey_id_inj hslot)
    · exact storageKey_not_mem_deployKeys tx id slot hmem
  · refine fun hspares => ⟨hrec.accounts.trans hbase.accounts, fun key hne => ?_⟩
    by_cases hmem : key ∈ h.written
    · obtain ⟨id, slot, rfl⟩ := hrec.proper_of_new.2 key hmem
      obtain ⟨⟨_, v⟩, hv, rfl⟩ := List.mem_map.1 hmem
      by_cases hid : id = tx.contractID
      · exact .inl ⟨slot, by rw [← hid]⟩
      · exact absurd ((hsynced _ hv).trans (hspares id slot v hv hid).symm) hne
    · rw [hrec.keys key hmem] at hne
      exact .inr (by_contra fun hkey => hne (hbase.keys key hkey))

/-- An execution is confined to its own contract exactly if no kept write into another one has
changed what was there. -/
theorem storage_isolated_iff (vm : VM) (tx : ContractTx) (height timestamp : UInt64)
    (txIndex : UInt32) (s : InMemoryState) :
    Confined tx s (finalState (vm.execute tx height timestamp txIndex s)) ↔
      ∀ h, Ends vm height timestamp txIndex s.saved tx h → SparesOthers tx s h := by
  have hruns : (KeyFrame (· ∈ tx.deployKeys) s.saved
        (finalState (executeTx vm tx height timestamp txIndex s.saved)) ∧
      ∀ h, ¬ Ends vm height timestamp txIndex s.saved tx h) ∨
        ∃ h, Runs vm height timestamp txIndex s.saved tx h := by
    cases tx with
    | deploy t => exact executeDeploy_runs vm t height timestamp txIndex s.saved
    | call t => exact executeCall_runs vm t height timestamp txIndex s.saved
  -- what is rolled back differs in the tree only
  have hback (smt : SMT) : Confined tx s { s with smt := smt } :=
    ⟨rfl, fun key hne => absurd rfl hne⟩
  rcases hruns with ⟨hframe, hnone⟩ | ⟨h, hruns⟩
  · refine iff_of_true ?_ fun h hends => absurd hends (hnone h)
    have hkept : Confined tx s (finalState (executeTx vm tx height timestamp txIndex s.saved)) :=
      ⟨hframe.accounts, fun key hne => .inr (by_contra fun hkey => hne (hframe.keys key hkey))⟩
    rcases vm.execute_cases tx height timestamp txIndex s with
      ⟨e, t, hr, -, hx⟩ | ⟨e, t, hr, -, hx⟩ | ⟨result, err, t, hr, -, hx⟩ |
        ⟨result, err, t, hr, -, hx⟩ <;> rw [hr] at hkept <;> rw [hx]
    · exact hkept
    · exact hback t.smt
    · exact hback t.smt
    · exact hkept
  have hstate := hruns.state
  rcases vm.execute_cases tx height timestamp txIndex s with
    ⟨e, t, hr, he, hx⟩ | ⟨e, t, hr, -, hx⟩ | ⟨result, err, t, hr, hfail, hx⟩ |
      ⟨result, err, t, hr, hkept, hx⟩ <;> rw [hr] at hstate <;> rw [hx]
  · -- a panic is not rolled back, but there was no memory to write from
    have hslots := hruns.panics ⟨e, t, hr, he⟩
    have hsynced : Synced h := fun e he => absurd (hslots ▸ he) List.not_mem_nil
    refine iff_of_true ?_ fun h' hends => ?_
    · refine hstate ▸ (hruns.confined_iff hsynced).2 fun id slot v hv => ?_
      exact absurd (hslots ▸ hv) List.not_mem_nil
    · obtain ⟨-, result, hok, -⟩ := hruns.ends h' hends
      cases hr.symm.trans hok
  · refine iff_of_true (hback t.smt) fun h' hends => ?_
    obtain ⟨-, result, hok, -⟩ := hruns.ends h' hends
    cases hr.symm.trans hok
  · refine iff_of_true (hback t.smt) fun h' hends => ?_
    obtain ⟨-, result', hok, hrev⟩ := hruns.ends h' hends
    cases hr.symm.trans hok
    simp [hrev] at hfail
  · obtain ⟨herr, hrev⟩ := not_or.1 hkept
    obtain rfl : err = none := by simpa using herr
    obtain ⟨hsynced, hends⟩ := hruns.kept result t hr (by simpa using hrev)
    refine hstate ▸ (hruns.confined_iff hsynced).trans ⟨fun hspares h' hends' => ?_, fun hall =>
      hall h hends⟩
    rw [(hruns.ends h' hends').1]
    exact hspares

end

open Sample

def sampleWriter (ptr : UInt32) : VM :=
  sampleEngine (sampleModule (some sampleMemory) (str "run")
    (.call (.writeStorage ptr 32 0 1 0 1) [] fun _ _ => .ret [0] []))

theorem storage_of_another_written : ¬ ∀ (_ : Crypto) (vm : VM) (tx : ContractTx)
    (height timestamp : UInt64) (txIndex : UInt32) (s : InMemoryState),
      Confined tx s (finalState (vm.execute tx height timestamp txIndex s)) := by
  intro h
  obtain ⟨-, hkeys⟩ :=
    h sampleCrypto (sampleWriter 0) (.call callOfContract) 1 1 0 ledgerWithContract
  have hwritten : (finalState ((sampleWriter 0).execute (.call callOfContract) 1 1 0
      ledgerWithContract)).getBytes (storageKey zeroHash [0]) = some [0] := by
    decide +kernel
  have hbefore : ledgerWithContract.getBytes (storageKey zeroHash [0]) = none := by decide +kernel
  rcases hkeys (storageKey zeroHash [0]) (by rw [hwritten, hbefore]; simp) with ⟨slot, hslot⟩ | hmem
  · exact absurd (storageKey_id_inj hslot) (by decide)
  · exact absurd hmem List.not_mem_nil

end Dsn
