import Dsn.Rpc.Reachable

/-!
# The search for a gas limit

The search starts above the limit that `CallContract` admits and never gets below it.
-/

namespace Dsn

open Go InMemoryState Node

section

variable [Crypto]

theorem callContract_gas {gasLimit : UInt64} (h : gasLimit > maxCallGas) (address : String)
    (entrypoint data : Bytes) (n : Node) : callContract address entrypoint data gasLimit n =
      .error (.detail errInvalidParams "gas limit exceeds maximum (1,000,000)") n := by
  have hne : gasLimit ≠ 0 := by
    rintro rfl
    exact absurd h (by decide)
  unfold callContract
  rw [if_neg hne]
  exact bind_eq_error_of (failIf_of _ h n)

theorem searchRound_of_gas {b : GasSearch} (h : (b.lo + b.hi) / 2 > maxCallGas) (address : String)
    (data : Bytes) (n : Node) : searchRound address data b n =
      .ok ({ b with lo := (b.lo + b.hi) / 2 + 1 }, false) n :=
  bind_eq_ok_of (attempt_of_error (callContract_gas h address _ data n) rfl)

omit [Crypto] in
theorem toNat_mid {b : GasSearch} (hhi : b.hi.toNat ≤ 10000000) (hle : b.lo.toNat ≤ b.hi.toNat) :
    ((b.lo + b.hi) / 2).toNat = (b.lo.toNat + b.hi.toNat) / 2 := by
  have hsum : b.lo.toNat + b.hi.toNat < 2 ^ 64 := by omega
  rw [UInt64.toNat_div, UInt64.toNat_add, Nat.mod_eq_of_lt hsum]
  rfl

theorem searchLoop_done {b : GasSearch} (h : ¬ b.lo ≤ b.hi) (address : String) (data : Bytes)
    {fuel : ℕ} (hfuel : 0 < fuel) (n : Node) :
    searchLoop address data fuel b n = .ok (some b) n := by
  obtain ⟨fuel, rfl⟩ := Nat.exists_eq_succ_of_ne_zero hfuel.ne'
  rw [searchLoop, if_neg h]
  rfl

theorem searchLoop_eq (address : String) (data : Bytes) {k : ℕ} {b : GasSearch}
    (hhi : b.hi.toNat ≤ 10000000) (hmid : 2000002 ≤ b.lo.toNat + b.hi.toNat)
    (hk : b.hi.toNat + 1 - b.lo.toNat < 2 ^ k) {fuel : ℕ} (hfuel : k < fuel) (n : Node) :
    ∃ b', searchLoop address data fuel b n = .ok (some b') n ∧ b'.lastSuccess = b.lastSuccess := by
  induction k generalizing b fuel with
  | zero =>
    have hgt : ¬ b.lo ≤ b.hi := by
      rw [UInt64.le_iff_toNat_le]
      omega
    exact ⟨b, searchLoop_done hgt address data hfuel n, rfl⟩
  | succ k ih =>
    by_cases hle : b.lo ≤ b.hi
    · obtain ⟨fuel, rfl⟩ := Nat.exists_eq_succ_of_ne_zero (Nat.ne_zero_of_lt hfuel)
      have hleNat := UInt64.le_iff_toNat_le.1 hle
      have hmidNat := toNat_mid hhi hleNat
      have hgas : (b.lo + b.hi) / 2 > maxCallGas := by
        rw [gt_iff_lt, UInt64.lt_iff_toNat_lt]
        show 1000000 < _
        omega
      have hlo : ((b.lo + b.hi) / 2 + 1).toNat = (b.lo.toNat + b.hi.toNat) / 2 + 1 := by
        rw [UInt64.toNat_add, hmidNat]
        exact Nat.mod_eq_of_lt (by show _ + 1 < _; omega)
      rw [searchLoop, if_pos hle, bind_eq_ok_of (searchRound_of_gas hgas address data n)]
      refine ih ?_ ?_ ?_ (by omega)
      · exact hhi
      · show 2000002 ≤ ((b.lo + b.hi) / 2 + 1).toNat + b.hi.toNat
        omega
      · show b.hi.toNat + 1 - ((b.lo + b.hi) / 2 + 1).toNat < 2 ^ k
        omega
    · exact ⟨b, searchLoop_done hle address data (by omega) n, rfl⟩

theorem parseParam_error {address : String} {e : Error} (h : parseParam address = .error e) :
    e.isPanic = false := by
  unfold parseParam at h
  cases ha : parseAddress address with
  | ok addr => rw [ha] at h; cases h
  | error e' => rw [ha] at h; cases h; rfl

theorem estimateGas_eq (address : String) (data : Bytes) (n : Node) {fuel : ℕ} (hfuel : 24 < fuel) :
    ∃ e, estimateGas fuel address data n = .error e n ∧ e.isPanic = false := by
  unfold estimateGas
  cases hparam : parseParam address with
  | error e => exact ⟨e, bind_eq_error_of rfl, parseParam_error hparam⟩
  | ok addr =>
    obtain ⟨b', hloop, hlast⟩ := @searchLoop_eq _ address data 24 ⟨gasLimitMin, gasLimitMax, 0⟩
      (by decide) (by decide) (by decide) _ hfuel n
    rw [ofResult_bind rfl, bind_eq_ok_of hloop]
    exact ⟨_, bind_eq_error_of (failIf_of _ hlast n), rfl⟩

/-! ### What the search should find -/

def CallSucceeds (n : Node) (address : String) (data : Bytes) (gasLimit : UInt64) : Prop :=
  ∃ r n', callContract address (str "call") data gasLimit n = .ok r n' ∧ r.reverted = false

def AdmittedLimit (gasLimit : UInt64) : Prop := gasLimitMin ≤ gasLimit ∧ gasLimit ≤ maxCallGas

/-- More gas never makes a call fail. -/
def SuccessMonotone (n : Node) (address : String) (data : Bytes) : Prop :=
  ∀ g g', 0 < g → g ≤ g' → g' ≤ maxCallGas → CallSucceeds n address data g →
    CallSucceeds n address data g'

def LeastSuccess (n : Node) (address : String) (data : Bytes) (g : UInt64) : Prop :=
  AdmittedLimit g ∧ CallSucceeds n address data g ∧
    ∀ g', AdmittedLimit g' → CallSucceeds n address data g' → g ≤ g'

/-- With enough rounds the least limit is found, or an error says there is none. -/
def EstimatesGas (n : Node) (address : String) (data : Bytes) : Prop :=
  ∃ rounds, ∀ fuel ≥ rounds,
    (∀ g, LeastSuccess n address data g →
      ∃ n', estimateGas fuel address data n = .ok (some g) n') ∧
    ((∀ g, ¬ LeastSuccess n address data g) →
      ∃ e n', estimateGas fuel address data n = .error e n' ∧ e.isPanic = false)

theorem exists_leastSuccess {n : Node} {address : String} {data : Bytes} {g : UInt64}
    (hg : AdmittedLimit g) (h : CallSucceeds n address data g) :
    ∃ g, LeastSuccess n address data g := by
  obtain ⟨least, ⟨hadmitted, hsucceeds⟩, hmin⟩ := (measure UInt64.toNat).wf.has_min
    {g | AdmittedLimit g ∧ CallSucceeds n address data g} ⟨g, hg, h⟩
  refine ⟨least, hadmitted, hsucceeds, fun g' hg' h' => ?_⟩
  exact UInt64.le_iff_toNat_le.2 (Nat.le_of_not_lt (hmin g' ⟨hg', h'⟩))

theorem not_estimatesGas {n : Node} {address : String} {data : Bytes} {g : UInt64}
    (hg : AdmittedLimit g) (h : CallSucceeds n address data g) : ¬ EstimatesGas n address data := by
  rintro ⟨rounds, hrounds⟩
  obtain ⟨least, hleast⟩ := exists_leastSuccess hg h
  obtain ⟨e, herror, -⟩ := estimateGas_eq address data n
    (Nat.lt_succ_of_le (le_max_right rounds 24))
  obtain ⟨n', hok⟩ := (hrounds _ (Nat.le_succ_of_le (le_max_left rounds 24))).1 least hleast
  cases herror.symm.trans hok

/-- The estimate is right exactly when the call succeeds with no limit at all. -/
theorem estimatesGas_iff (n : Node) (address : String) (data : Bytes) :
    EstimatesGas n address data ↔ ∀ g, AdmittedLimit g → ¬ CallSucceeds n address data g := by
  constructor
  · intro h g hg hsucceeds
    exact not_estimatesGas hg hsucceeds h
  · intro hnone
    refine ⟨25, fun fuel hfuel => ⟨fun g hg => absurd hg.2.1 (hnone g hg.1), fun _ => ?_⟩⟩
    obtain ⟨e, herror, hpanic⟩ := estimateGas_eq address data n hfuel
    exact ⟨e, n, herror, hpanic⟩

/-! ### A contract that needs no gas -/

omit [Crypto] in
theorem writeForGuest_of_le {h : HostState} {current : Bytes} {old : Memory} {offset : UInt32}
    {v : Bytes} (hmem : h.memory = current :: old)
    (hle : offset.toNat + v.length ≤ current.length) (failure : String) :
    ∃ mem, writeForGuest offset v failure h = .ok () { h with memory := mem } := by
  have hwrite : memWrite offset v h = .ok true { h with memory :=
      (current.take offset.toNat ++ v ++ current.drop (offset.toNat + v.length)) :: old } := by
    unfold memWrite
    rw [hmem]
    exact if_pos hle
  unfold writeForGuest
  rw [bind_eq_ok_of hwrite]
  exact ⟨_, failIf_of_not _ (by simp) _⟩

def idleModule : WasmModule := sampleModule (some sampleMemory) (str "call") (.ret [] [])

theorem callEntrypoint_idle (env : HostEnv) {tx : CallContractTx}
    (hname : tx.entrypoint = str "call") (hdata : tx.calldata = []) (s : InMemoryState) :
    ∃ h, callEntrypoint env tx idleModule (newHostState (newGasMeter tx.gasLimit) s) =
      .ok ⟨0, [], [], false, none, tx.gasLimit⟩ h := by
  generalize hh : ({ newHostState (newGasMeter tx.gasLimit) s with memory := [sampleMemory] } :
    HostState) = h
  have hinst : instantiateModule env idleModule (newHostState (newGasMeter tx.gasLimit) s) =
      .ok ⟨fun _ _ _ => .ret [] []⟩ h := by
    rw [← hh]
    rfl
  have hmem : h.memory = [sampleMemory] := by rw [← hh]
  have hroom : contractIDMemOffset.toNat + tx.contractID.bytes.length ≤ sampleMemory.length := by
    rw [tx.contractID.length_eq, sampleMemory, List.length_replicate]
    decide
  obtain ⟨mem, hwrite⟩ := writeForGuest_of_le hmem hroom "failed to write contractID"
  have hcalldata : writeCalldata tx.calldata h = .ok [] h := by
    rw [hdata]
    rfl
  have hexport : ¬ ¬ tx.entrypoint ∈ idleModule.exports := by
    rw [hname]
    simp [idleModule, sampleModule]
  unfold callEntrypoint
  rw [wrapErr_bind hinst, failIf_bind hexport, bind_eq_ok_of hcalldata, bind_eq_ok_of hwrite, ← hh]
  exact ⟨_, rfl⟩

omit [Crypto] in
theorem compileModule_idle {code : Bytes} (h : code.length ≤ maxContractSize) :
    compileModule idleEngine code = .ok idleModule :=
  if_neg (Nat.not_lt.2 h)

theorem execute_idle {tx : CallContractTx} {s : InMemoryState} {code : Bytes}
    (hname : tx.entrypoint = str "call") (hdata : tx.calldata = [])
    (hload : loadCode tx.contractID s = .ok code) (hcode : code.length ≤ maxContractSize) :
    ∃ t, idleEngine.execute (.call tx) 0 0 0 s =
      .ok (⟨0, [], [], false, none, tx.gasLimit⟩, none) t := by
  have hbody : ∃ t, executeTx idleEngine (.call tx) 0 0 0 s.saved =
      .ok (⟨0, [], [], false, none, tx.gasLimit⟩, none) t := by
    rcases executeCall_cases idleEngine tx 0 0 0 s.saved with ⟨e, -, -, hnone⟩ | ⟨m, hloads, hx⟩
    · exact absurd ⟨⟨code, hload, compileModule_idle hcode⟩, rfl⟩ (hnone idleModule)
    · obtain ⟨code', hload', hcompile⟩ := hloads.compiles
      cases (show loadCode tx.contractID s.saved = _ from hload).symm.trans hload'
      cases (compileModule_idle hcode).symm.trans hcompile
      obtain ⟨h, hcall⟩ := callEntrypoint_idle (callEnv tx 0 0 0) hname hdata s.saved
      have hhost : withHost (newGasMeter tx.gasLimit)
          (callEntrypoint (callEnv tx 0 0 0) tx idleModule) s.saved =
            .ok ⟨0, [], [], false, none, tx.gasLimit⟩ h.state := by
        unfold withHost
        rw [hcall]
      exact ⟨h.state, hx.trans (bind_eq_ok_of hhost)⟩
  obtain ⟨t, hbody⟩ := hbody
  rcases idleEngine.execute_cases (.call tx) 0 0 0 s with
    ⟨e, t', hr, -, -⟩ | ⟨e, t', hr, -, -⟩ | ⟨r, err, t', hr, hfail, -⟩ | ⟨r, err, t', hr, -, hx⟩ <;>
    cases hbody.symm.trans hr
  · simp at hfail
  · exact ⟨_, hx⟩

theorem callSucceeds_idle {n : Node} {a : Address} {code : Bytes} (hvm : n.vm = some idleEngine)
    (hload : loadCode (contractIDOf a) n.state = .ok code) (hcode : code.length ≤ maxContractSize)
    {g : UInt64} (hg : g ≤ maxCallGas) : CallSucceeds n (addressString a) [] g := by
  have htx := @callTx_addressString _ a (str "call") [] [] g rfl hg
  generalize (if g = 0 then maxCallGas else g) = gas at htx
  obtain ⟨t, hexec⟩ := @execute_idle _ (simulatedCall (contractIDOf a) (str "call") [] gas)
    n.state.saved code rfl rfl hload hcode
  rcases callContract_cases (addressString a) (str "call") [] g n with
    ⟨e, htx', -⟩ | ⟨tx, htx', ⟨e, t', hpanics, -, -⟩ | ⟨outcome, t', houtcome, hcall⟩⟩ <;>
    cases htx.symm.trans htx'
  · rw [hvm] at hpanics
    cases hexec.symm.trans hpanics
  · rw [hvm] at houtcome
    cases (attempt_of_ok hexec).symm.trans houtcome
    exact ⟨_, _, hcall, rfl⟩

end

open Sample

theorem estimate_fails_idle : ∃ (n : Node) (a : Address),
    SuccessMonotone n (addressString a) [] ∧ ¬ EstimatesGas n (addressString a) [] := by
  have hload : loadCode (contractIDOf sampleContractAddress) ledgerWithContract = .ok [1] := by
    decide +kernel
  have hall (g : UInt64) (hg : g ≤ maxCallGas) : CallSucceeds
      (bareNode idleEngine ledgerWithContract) (addressString sampleContractAddress) [] g :=
    callSucceeds_idle rfl hload (by decide) hg
  refine ⟨bareNode idleEngine ledgerWithContract, sampleContractAddress,
    fun g g' _ _ hg' _ => hall g' hg', ?_⟩
  exact not_estimatesGas ⟨UInt64.le_refl gasLimitMin, by decide⟩ (hall gasLimitMin (by decide))

end Dsn
