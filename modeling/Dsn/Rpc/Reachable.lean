import Dsn.Rpc.Service
import Dsn.VM.Identity

/-!
# Are deployed contracts reachable?

A contract is stored under its 32-byte ID, and its address is the first 20 bytes of that. A call
through the RPC service names the address only, which is filled up with zeros to an ID again.
-/

namespace Dsn

open Go InMemoryState Node

section

variable [Crypto]

theorem execute_deploy_eq_ok {vm : VM} {tx : DeployContractTx} {height timestamp : UInt64}
    {txIndex : UInt32} {s t : InMemoryState} {result : ExecutionResult}
    (h : vm.execute (.deploy tx) height timestamp txIndex s = .ok (result, none) t)
    (hkept : result.reverted = false) :
    result.contractAddress = some (FixedBytes.copy 20
      ((deriveContractID tx.sender tx.nonce tx.codeHash).bytes.take 20)) ∧
    SameContracts (deployed tx height s) t := by
  rcases vm.execute_cases (.deploy tx) height timestamp txIndex s with
    ⟨e, t', -, -, hx⟩ | ⟨e, t', -, -, hx⟩ | ⟨r, err, t', -, hfail, hx⟩ | ⟨r, err, t', hr, -, hx⟩ <;>
    cases hx.symm.trans h
  · have hr : r.reverted = false := hkept
    simp [hr] at hfail
  · rcases executeDeploy_cases vm tx height timestamp txIndex s.saved with
      ⟨e, hx, -⟩ | ⟨hx, -⟩ | ⟨m, meter, -, hx⟩
    · cases hx.symm.trans hr
    · cases hx.symm.trans hr
    · obtain ⟨used, _, hrun, hpure⟩ := bind_eq_ok.1 (hx.symm.trans hr)
      cases hpure
      have hsaved : SameContracts (deployed tx height s) (deployed tx height s.saved) :=
        ⟨fun _ => rfl, fun _ => rfl⟩
      exact ⟨rfl, hsaved.trans (hrun ▸ runConstructors_sameRecords).sameContracts⟩

/-! ### What comes later -/

/-- What may happen to contracts without touching the one under an ID: other contracts come, also
with the same code. -/
inductive KeepsContract (id : Hash) (s : InMemoryState) : InMemoryState → Prop
  | same {t : InMemoryState} : SameContracts s t → KeepsContract id s t
  | deploy {t u : InMemoryState} {tx : DeployContractTx} {height : UInt64} : KeepsContract id s t →
      id ≠ deriveContractID tx.sender tx.nonce tx.codeHash →
      (∀ m, t.getContractMeta id = .ok m → m.codeHash = sha256 tx.wasmCode →
        t.getCode m.codeHash = .ok tx.wasmCode) →
      SameContracts (deployed tx height t) u → KeepsContract id s u

theorem KeepsContract.loadCode_eq {id : Hash} {s t : InMemoryState} (h : KeepsContract id s t) :
    loadCode id t = loadCode id s := by
  induction h with
  | same hsame => exact hsame.loadCode_eq id
  | @deploy t u tx height _ hid hcode hsame ih =>
    rw [hsame.loadCode_eq, ← ih]
    unfold loadCode
    rw [getContractMeta_deployed, if_neg hid]
    cases hm : t.getContractMeta id with
    | error e => rfl
    | ok m =>
      show (deployed tx height t).getCode m.codeHash = t.getCode m.codeHash
      rw [getCode_deployed]
      split_ifs with hhash
      · exact (hcode m hm hhash).symm
      · rfl

/-! ### Calls by address -/

omit [Crypto] in
theorem contractIDOf_take (id : Hash) : contractIDOf (FixedBytes.copy 20 (id.bytes.take 20)) = id ↔
    id.bytes.drop 20 = List.replicate 12 0 := by
  have hlen : (id.bytes.take 20).length = 20 := by simp
  have hbytes : (contractIDOf (FixedBytes.copy 20 (id.bytes.take 20))).bytes =
      id.bytes.take 20 ++ List.replicate 12 0 := by
    simp [contractIDOf, FixedBytes.copy, List.take_append]
  constructor
  · intro h
    rw [h] at hbytes
    have hsplit : id.bytes.take 20 ++ id.bytes.drop 20 = id.bytes.take 20 ++ List.replicate 12 0 :=
      (List.take_append_drop 20 id.bytes).trans hbytes
    exact List.append_cancel_left hsplit
  · intro h
    apply FixedBytes.ext
    rw [hbytes, ← h, List.take_append_drop]

def RunsCode (code : Bytes) (address : String) (entrypoint data : Bytes) (gasLimit : UInt64)
    (s : InMemoryState) : Prop :=
  ∃ tx, callTx address entrypoint data gasLimit = .ok tx ∧ loadCode tx.contractID s = .ok code

/-- `executeCall` from the code on: the module that is compiled from it is instantiated. -/
def runCode (vm : VM) (code : Bytes) (tx : CallContractTx) (blockHeight blockTimestamp : UInt64)
    (txIndex : UInt32) : Exec InMemoryState (ExecutionResult × Option Error) := do
  let compiled ← ofResult (compileModule vm code)
  ofResult (validateImports compiled)
  let env : HostEnv := ⟨tx.sender, tx.contractID, blockHeight, blockTimestamp, txIndex⟩
  let result ← withHost (newGasMeter tx.gasLimit) (callEntrypoint env tx compiled)
  return (result, none)

theorem executeTx_of_loadCode {vm : VM} {code : Bytes} {tx : CallContractTx} {s : InMemoryState}
    (h : loadCode tx.contractID s = .ok code) (height timestamp : UInt64) (txIndex : UInt32) :
    executeTx vm (.call tx) height timestamp txIndex s =
      runCode vm code tx height timestamp txIndex s := by
  show executeCall vm tx height timestamp txIndex s = _
  unfold executeCall
  rw [get_bind, h]
  rfl

theorem runsCode_addressString {code : Bytes} {a : Address} {entrypoint data calldata : Bytes}
    {gasLimit : UInt64} {s : InMemoryState} (hdata : decodeCalldata data = .ok calldata)
    (hgas : gasLimit ≤ maxCallGas) : RunsCode code (addressString a) entrypoint data gasLimit s ↔
      loadCode (contractIDOf a) s = .ok code := by
  have htx := callTx_addressString a entrypoint hdata hgas
  constructor
  · rintro ⟨tx, hcall, hload⟩
    cases htx.symm.trans hcall
    exact hload
  · intro hload
    exact ⟨_, htx, hload⟩

theorem execute_notFound {vm : VM} {tx : CallContractTx} {height timestamp : UInt64}
    {txIndex : UInt32} {s : InMemoryState} {e : Error} (h : loadCode tx.contractID s = .error e) :
    ∃ t, vm.execute (.call tx) height timestamp txIndex s =
      .error (.detail errVMContractNotFound e.text) t := by
  have hbody : executeTx vm (.call tx) height timestamp txIndex s.saved =
      .error (.detail errVMContractNotFound e.text) s.saved := by
    show executeCall vm tx height timestamp txIndex s.saved = _
    unfold executeCall
    rw [get_bind, show loadCode tx.contractID s.saved = .error e from h]
    rfl
  rcases vm.execute_cases (.call tx) height timestamp txIndex s with
    ⟨e', t, hr, he, -⟩ | ⟨e', t, hr, -, hx⟩ | ⟨r, err, t, hr, -, -⟩ | ⟨r, err, t, hr, -, -⟩ <;>
    cases hbody.symm.trans hr
  · cases he
  · exact ⟨_, hx⟩

theorem callContract_notFound {n : Node} {vm : VM} (hvm : n.vm = some vm) {a : Address} {e : Error}
    (hload : loadCode (contractIDOf a) n.state = .error e) (entrypoint : Bytes)
    {data calldata : Bytes} (hdata : decodeCalldata data = .ok calldata) {gasLimit : UInt64}
    (hgas : gasLimit ≤ maxCallGas) :
    ∃ n', callContract (addressString a) entrypoint data gasLimit n =
      .error (.detail errVMContractNotFound e.text) n' := by
  have htx := callTx_addressString a entrypoint hdata hgas
  generalize (if gasLimit = 0 then maxCallGas else gasLimit) = gas at htx
  obtain ⟨t, hexec⟩ := @execute_notFound _ vm
    (simulatedCall (contractIDOf a) entrypoint calldata gas) 0 0 0 n.state.saved e hload
  rcases callContract_cases (addressString a) entrypoint data gasLimit n with
    ⟨e', htx', -⟩ | ⟨tx, htx', ⟨e', t', hpanics, hpanic, -⟩ | ⟨outcome, t', houtcome, hcall⟩⟩ <;>
    cases htx.symm.trans htx'
  · rw [hvm] at hpanics
    cases hexec.symm.trans hpanics
    cases hpanic
  · rw [hvm] at houtcome
    cases (attempt_of_error hexec rfl).symm.trans houtcome
    exact ⟨_, hcall⟩

theorem loadCode_deployed (tx : DeployContractTx) (height : UInt64) (s : InMemoryState)
    (id : Hash) : loadCode id (deployed tx height s) = .ok tx.wasmCode ↔
      id = deriveContractID tx.sender tx.nonce tx.codeHash ∨
      ∃ m, s.getContractMeta id = .ok m ∧
        (m.codeHash = sha256 tx.wasmCode ∨ s.getCode m.codeHash = .ok tx.wasmCode) := by
  rw [loadCode_eq_ok]
  simp only [getContractMeta_deployed, getCode_deployed]
  by_cases hid : id = deriveContractID tx.sender tx.nonce tx.codeHash
  · simp only [hid, true_or, iff_true]
    exact ⟨_, rfl, if_pos rfl⟩
  · simp only [hid, false_or]
    refine exists_congr fun m => and_congr_right fun _ => ?_
    split_ifs with hhash
    · simp [hhash]
    · simp [hhash]

end

section

variable [Crypto] {vm : VM} {tx : DeployContractTx} {height timestamp : UInt64} {txIndex : UInt32}
  {s t : InMemoryState} {result : ExecutionResult} {a : Address} {n : Node}

/-- When calls by the text of its address run a deployed contract. -/
theorem deployed_reachable_iff
    (h : vm.execute (.deploy tx) height timestamp txIndex s = .ok (result, none) t)
    (hkept : result.reverted = false) (ha : result.contractAddress = some a)
    (hlater : KeepsContract (contractIDOf a) t n.state) :
    ((∀ entrypoint data calldata gasLimit, decodeCalldata data = .ok calldata →
      gasLimit ≤ maxCallGas →
        RunsCode tx.wasmCode (addressString a) entrypoint data gasLimit n.state) ↔
    (deriveContractID tx.sender tx.nonce tx.codeHash).bytes.drop 20 = List.replicate 12 0 ∨
      ∃ m, s.getContractMeta (contractIDOf a) = .ok m ∧
        (m.codeHash = sha256 tx.wasmCode ∨ s.getCode m.codeHash = .ok tx.wasmCode)) ∧
    -- the execution that `callContract` simulates
    ∀ address entrypoint data gasLimit, RunsCode tx.wasmCode address entrypoint data gasLimit
        n.state → ∃ call, callTx address entrypoint data gasLimit = .ok call ∧
      executeTx vm (.call call) 0 0 0 n.state.saved.saved =
        runCode vm tx.wasmCode call 0 0 0 n.state.saved.saved := by
  obtain ⟨haddr, hsame⟩ := execute_deploy_eq_ok h hkept
  cases ha.symm.trans haddr
  rw [← contractIDOf_take, ← loadCode_deployed, ← hsame.loadCode_eq, ← hlater.loadCode_eq]
  refine ⟨?_, fun address entrypoint data gasLimit ⟨call, hcall, hload⟩ =>
    ⟨call, hcall, executeTx_of_loadCode (s := n.state.saved.saved) hload 0 0 0⟩⟩
  constructor
  · intro hall
    exact (runsCode_addressString rfl (by decide)).1 (hall [] [] [] 0 rfl (by decide))
  · intro hload entrypoint data calldata gasLimit hdata hgas
    exact (runsCode_addressString hdata hgas).2 hload

end

/-! ### Two deployments -/

open Sample

theorem deployed_not_found : ∃ result t a e,
    idleEngine.execute (.deploy (sampleDeploy (.copy 32 (List.replicate 32 1)))) 1 0 0
      newInMemoryState = .ok (result, none) t ∧
    result.reverted = false ∧ result.contractAddress = some a ∧
    ∃ n', callContract (addressString a) (str "call") [] 100000 (bareNode idleEngine t) =
      .error (.detail errVMContractNotFound e) n' := by
  obtain ⟨⟨result, err⟩, t, hrun, htest⟩ := exists_of_succeedsWith (show succeedsWith
    (fun r _ => decide (r.2 = none ∧ r.1.reverted = false))
    (idleEngine.execute (.deploy (sampleDeploy (.copy 32 (List.replicate 32 1)))) 1 0 0
      newInMemoryState) = true by decide +kernel)
  obtain ⟨rfl, hkept⟩ := of_decide_eq_true htest
  obtain ⟨haddr, hsame⟩ := execute_deploy_eq_ok hrun hkept
  have hmissing : loadCode (contractIDOf (FixedBytes.copy 20 ((deriveContractID zeroAddress 0
      (.copy 32 (List.replicate 32 1))).bytes.take 20))) t = .error errContractNotFound := by
    rw [hsame.loadCode_eq]
    decide +kernel
  obtain ⟨n', hcall⟩ := @callContract_notFound _ (bareNode idleEngine t) idleEngine rfl _ _ hmissing
    (str "call") [] [] rfl 100000 (by decide)
  exact ⟨result, t, _, _, hrun, hkept, haddr, n', hcall⟩

theorem deployed_reachable_zero : ∃ result t a,
    idleEngine.execute (.deploy (sampleDeploy zeroHash)) 1 0 0 newInMemoryState =
      .ok (result, none) t ∧ result.contractAddress = some a ∧
    RunsCode [0] (addressString a) (str "call") [] 100000 (bareNode idleEngine t).state := by
  obtain ⟨⟨result, err⟩, t, hrun, htest⟩ := exists_of_succeedsWith (show succeedsWith
    (fun r _ => decide (r.2 = none ∧ r.1.reverted = false))
    (idleEngine.execute (.deploy (sampleDeploy zeroHash)) 1 0 0 newInMemoryState) = true by
      decide +kernel)
  obtain ⟨rfl, hkept⟩ := of_decide_eq_true htest
  obtain ⟨haddr, -⟩ := execute_deploy_eq_ok hrun hkept
  have hall := (@deployed_reachable_iff _ _ _ _ _ _ _ _ _ _ (bareNode idleEngine t) hrun hkept haddr
    (.same (.refl t))).1.2 (.inl (by decide +kernel))
  exact ⟨result, t, _, hrun, haddr, hall (str "call") [] [] 100000 rfl (by decide)⟩

end Dsn
