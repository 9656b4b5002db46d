import Dsn.VM.Frame

/-!
# Failed executions leave no trace

`Execute` reverts on every error, so an error leaves the state as it was.
-/

namespace Dsn

open Go InMemoryState

variable {height timestamp used : UInt64} {h h' : HostState} {s s' : InMemoryState} {env : HostEnv}
  {m : WasmModule} {vm : VM} {txIndex : UInt32} {result : ExecutionResult} {err : Option Error}

/-! ### Gas -/

theorem GasMeter.deduct_eq_some {gm gm' : GasMeter} {cost : UInt64} :
    gm.deduct cost = some gm' ↔
      gm.used + cost ≤ gm.limit ∧ gm' = { gm with used := gm.used + cost } := by
  unfold GasMeter.deduct
  split_ifs with h
  · simp [UInt64.not_le.2 h]
  · simp [UInt64.not_lt.1 h, eq_comm]

theorem add_le_of_le_sub {more limit : UInt64} (hle : used ≤ limit) (hmore : more ≤ limit - used) :
    used + more ≤ limit := by
  have hsub := UInt64.toNat_sub_of_le _ _ hle
  rw [UInt64.le_iff_toNat_le] at hle hmore ⊢
  rw [UInt64.toNat_add]
  exact (Nat.mod_le _ _).trans (by omega)

structure Metered (h h' : HostState) : Prop where
  limit : h'.meter.limit = h.meter.limit
  used : h.meter.used ≤ h.meter.limit → h'.meter.used ≤ h'.meter.limit

instance : Std.Refl Metered := ⟨fun _ => ⟨rfl, id⟩⟩

instance : IsTrans HostState Metered :=
  ⟨fun _ _ _ h h' => ⟨h'.limit.trans h.limit, fun hu => h'.used (h.used hu)⟩⟩

theorem Metered.of_eq (hm : h'.meter = h.meter) : Metered h h' := by
  constructor <;> rw [hm]
  exact id

theorem deductGas_metered (cost : UInt64) : Steps Metered (deductGas cost) := by
  intro h
  unfold deductGas
  cases hd : h.meter.deduct cost with
  | none => exact .of_eq rfl
  | some meter =>
    obtain ⟨hle, rfl⟩ := GasMeter.deduct_eq_some.1 hd
    exact ⟨rfl, fun _ => hle⟩

theorem Metered.used_le {limit : UInt64} (hm : Metered (newHostState (newGasMeter limit) s) h) :
    h.meter.used ≤ limit := by
  have hlimit : h.meter.limit = limit := hm.limit
  have hused := hm.used (UInt64.zero_le)
  rwa [hlimit] at hused

section

variable [Crypto]

theorem storeView_metered (contractID : Hash) (key : Bytes) (v : View) :
    Steps Metered (storeView contractID key v) := by
  intro h
  unfold storeView
  cases setContractStorage contractID key (v.bytes h.memory) h.state <;> exact .of_eq rfl

theorem metered : HostRelation Metered where
  gas := deductGas_metered
  memory _ _ _ := .of_eq rfl
  store _ _ _ h _ := storeView_metered _ _ _ h
  depth _ _ := .of_eq rfl
  log _ _ := .of_eq rfl
  refresh _ := .of_eq rfl

theorem runConstructor_gasUsed {exportName : Bytes}
    (hr : runConstructor env m exportName h = .ok used h') :
    used = h'.meter.used := by
  obtain ⟨_, _, _, _, _, -, -, -, rfl, hused⟩ := runConstructor_ok hr
  exact hused

theorem runConstructors_le {meter : GasMeter} (hr : runConstructors env m meter s = .ok used s') :
    used ≤ meter.remaining := by
  unfold runConstructors at hr
  cases hc : m.constructor with
  | none =>
    rw [hc] at hr
    cases hr
    exact UInt64.zero_le
  | some exportName =>
    rw [hc] at hr
    obtain ⟨h', hrun, -⟩ := withHost_eq_ok.1 hr
    have hm := metered.runConstructor env m exportName
      (newHostState (newGasMeter meter.remaining) s) (.of_eq rfl)
    rw [hrun] at hm
    rw [runConstructor_gasUsed hrun]
    exact hm.used_le

theorem executeDeploy_gasUsed {tx : DeployContractTx}
    (hr : executeDeploy vm tx height timestamp txIndex s = .ok (result, err) s') :
    result.gasUsed ≤ tx.gasLimit := by
  rcases executeDeploy_cases vm tx height timestamp txIndex s with
    ⟨e, hx, -⟩ | ⟨hx, -⟩ | ⟨m, meter, hdeploys, hx⟩ <;> rw [hx] at hr
  · cases hr
  · cases hr
    exact UInt64.zero_le
  · obtain ⟨used, s1, hused, hr⟩ := bind_eq_ok.1 hr
    cases hr
    obtain ⟨hle, rfl⟩ := GasMeter.deduct_eq_some.1 hdeploys.pays
    exact add_le_of_le_sub hle (runConstructors_le hused)

variable {tx : CallContractTx}

theorem callEntrypoint_gasUsed
    (hr : callEntrypoint env tx m h = .ok result h') : result.gasUsed = h'.meter.used := by
  obtain ⟨_, _, _, _, -, -, hused, -⟩ := callEntrypoint_ok hr
  exact hused

theorem executeCall_gasUsed
    (hr : executeCall vm tx height timestamp txIndex s = .ok (result, err) s') :
    result.gasUsed ≤ tx.gasLimit := by
  rcases executeCall_cases vm tx height timestamp txIndex s with ⟨e, hx, -⟩ | ⟨m, -, hx⟩ <;>
    rw [hx] at hr
  · cases hr
  · obtain ⟨result', s1, hcall, hr⟩ := bind_eq_ok.1 hr
    cases hr
    obtain ⟨h', hrun, -⟩ := withHost_eq_ok.1 hcall
    have hm := metered.callEntrypoint (callEnv tx height timestamp txIndex) tx m
      (newHostState (newGasMeter tx.gasLimit) s) (.of_eq rfl)
    rw [hrun] at hm
    rw [callEntrypoint_gasUsed hrun]
    exact hm.used_le

/-! ### Execution with rollback -/

def ContractTx.gasLimit : ContractTx → UInt64
  | .deploy tx => tx.gasLimit
  | .call tx => tx.gasLimit

theorem executeTx_gasUsed {tx : ContractTx}
    (hr : executeTx vm tx height timestamp txIndex s = .ok (result, err) s') :
    result.gasUsed ≤ tx.gasLimit := by
  cases tx with
  | deploy tx => exact executeDeploy_gasUsed hr
  | call tx => exact executeCall_gasUsed hr

/-- An error or a revert leaves accounts and store as they were. -/
theorem execute_rolls_back (vm : VM) (tx : ContractTx) (height timestamp : UInt64)
    (txIndex : UInt32) (s : InMemoryState) :
    (∀ e s', vm.execute tx height timestamp txIndex s = .error e s' → e.isPanic = false →
      s'.accounts = s.accounts ∧ s'.kvstore = s.kvstore) ∧
    ∀ result err s', vm.execute tx height timestamp txIndex s = .ok (result, err) s' →
      (err.isSome ∨ result.reverted →
        s'.accounts = s.accounts ∧ s'.kvstore = s.kvstore ∧ result.events = []) ∧
      result.gasUsed ≤ tx.gasLimit := by
  rcases vm.execute_cases tx height timestamp txIndex s with
    ⟨e, t, -, he, hx⟩ | ⟨e, t, -, -, hx⟩ | ⟨result, err, t, hr, -, hx⟩ |
      ⟨result, err, t, hr, hkept, hx⟩ <;> rw [hx]
  · refine ⟨?_, fun result err s' h => (by cases h)⟩
    rintro e' s' h hnot
    cases h
    rw [he] at hnot
    cases hnot
  · refine ⟨?_, fun result err s' h => (by cases h)⟩
    rintro e' s' h -
    cases h
    exact ⟨rfl, rfl⟩
  · refine ⟨fun e s' h => (by cases h), ?_⟩
    intro result' err' s' h
    cases h
    have hgas := executeTx_gasUsed hr
    exact ⟨fun _ => ⟨rfl, rfl, rfl⟩, hgas⟩
  · refine ⟨fun e s' h => (by cases h), ?_⟩
    intro result' err' s' h
    cases h
    exact ⟨fun hfail => absurd hfail hkept, executeTx_gasUsed hr⟩

end

open Sample

def sampleModule (memory : Option Bytes) (exportName : Bytes) (run : Guest (List UInt64)) :
    WasmModule :=
  ⟨[], [exportName], none, memory, .ret ⟨fun _ _ _ => run⟩ []⟩

def sampleEngine (m : WasmModule) : VM := ⟨fun _ => .ok m⟩

def sampleContract : Hash := .copy 32 [7]

def ledgerWithContract : InMemoryState :=
  (newInMemoryState.setCode (sha256 [1]) [1]).setContractMeta sampleContract
    ⟨sampleContract, sha256 [1], .copy 20 [], 1⟩

def callOfContract : CallContractTx := ⟨.copy 20 [], 0, sampleContract, str "run", [], 0, 100, []⟩

def sampleMemory : Bytes := List.replicate 1056 0

theorem execute_rolls_back_sample :
    ∃ result s', (sampleEngine (sampleModule (some sampleMemory) (str "run")
        (.call (.writeStorage 1024 32 0 1 0 1) [] fun _ _ => .ret [1] []))).execute
          (.call callOfContract) 1 1 0 ledgerWithContract = .ok (result, none) s' ∧
      result.gasUsed = 52 ∧ s'.accounts = ledgerWithContract.accounts ∧
      s'.kvstore = ledgerWithContract.kvstore := by
  obtain ⟨⟨result, err⟩, s', hrun, htest⟩ := exists_of_succeedsWith (show succeedsWith
    (fun a _ => decide (a.2 = none ∧ a.1.gasUsed = 52 ∧ a.1.reverted = true))
    ((sampleEngine (sampleModule (some sampleMemory) (str "run")
      (.call (.writeStorage 1024 32 0 1 0 1) [] fun _ _ => .ret [1] []))).execute
        (.call callOfContract) 1 1 0 ledgerWithContract) = true by decide +kernel)
  obtain ⟨rfl, hgas, hrev⟩ := of_decide_eq_true htest
  have hback := ((execute_rolls_back _ _ _ _ _ _).2 _ _ _ hrun).1 (.inr hrev)
  exact ⟨result, s', hrun, hgas, hback.1, hback.2.1⟩

end Dsn
