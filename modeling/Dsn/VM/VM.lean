import Dsn.VM.Host

/-!
# `vm`: deploying and calling contracts

Deployment, calls and `Execute` around both.
-/

namespace Dsn

open Go InMemoryState

structure Instance where
  call : Bytes → List UInt64 → Bytes → Guest (List UInt64)

structure WasmModule where
  imports : List (Bytes × Bytes)
  exports : List Bytes
  linkError : Option String
  memory : Option Bytes
  start : Guest Instance

structure VM where
  compile : Bytes → Except String WasmModule

/-- A contract transaction. -/
inductive ContractTx
  | deploy (tx : DeployContractTx)
  | call (tx : CallContractTx)

structure ExecutionResult where
  gasUsed : UInt64
  returnData : Bytes
  events : List Event
  reverted : Bool
  contractAddress : Option Address
  gasLimit : UInt64

def errVMContractNotFound : Error := .new "contract not found"
def errCallDepthExceeded : Error := .new "call depth exceeded"
def errCodeTooLarge : Error := .new "contract bytecode too large"
def errInvalidWasm : Error := .new "invalid WASM module"
def errHostFunction : Error := .new "host function error"
def errInvalidImport : Error :=
  .new "invalid import: only 'env' module with allowed host functions is permitted"

def maxContractSize : ℕ := 1024 * 1024

def maxCallDepth : ℕ := 64

def contractIDMemOffset : UInt32 := 1024

def compileModule (vm : VM) (code : Bytes) : Except Error WasmModule :=
  if code.length > maxContractSize then .error errCodeTooLarge
  else match vm.compile code with
    | .ok m => .ok m
    | .error e => .error (.detail errInvalidWasm e)

def deriveContractID [Crypto] (deployer : Address) (nonce : UInt64) (codeHash : Hash) : Hash :=
  sha256 (deployer.bytes ++ putUint64 nonce ++ codeHash.bytes)

def allowedHostFunctions : List Bytes :=
  [str "read_storage", str "write_storage", str "emit_event", str "read_caller",
    str "read_block_height", str "read_block_timestamp", str "transfer_token"]

def validateImports (m : WasmModule) : Except Error Unit :=
  m.imports.forM fun (modName, fnName) => do
    check (modName ≠ str "env") (.detail errInvalidImport
      s!"module '{text modName}' is not allowed (only 'env' is permitted)")
    check (¬ fnName ∈ allowedHostFunctions) (.detail errInvalidImport
      s!"function '{text fnName}' from module 'env' is not allowed")

variable [Crypto]

def instantiateModule (env : HostEnv) (m : WasmModule) : Exec HostState Instance :=
  match m.linkError with
  | some e => throw (.new e)
  | none => do
    modify fun h => { h with memory := m.memory.toList }
    runGuest env m.start

def enterCall : Exec HostState Unit := do
  failIf ((← get).callDepth ≥ maxCallDepth) errCallDepthExceeded
  modify fun h => { h with callDepth := h.callDepth + 1 }

def exitCall : Exec HostState Unit := modify fun h => { h with callDepth := h.callDepth - 1 }

def callFunction (env : HostEnv) (inst : Instance) (name : Bytes) (params : List UInt64) :
    Exec HostState (List UInt64) := do
  runGuest env (inst.call name params (← get).current)

def writeForGuest (offset : UInt32) (v : Bytes) (failure : String) : Exec HostState Unit := do
  failIf ((← memWrite offset v) = false) (.new failure)

def withHost {α : Type} (meter : GasMeter) (x : Exec HostState α) : Exec InMemoryState α := fun s =>
  match x (newHostState meter s) with
  | .ok a h => .ok a h.state
  | .error e h => .error e h.state

/-! ### Deployment -/

def runConstructor (env : HostEnv) (m : WasmModule) (exportName : Bytes) :
    Exec HostState UInt64 := do
  let inst ← wrapErr "constructor instantiation" (instantiateModule env m)
  writeForGuest contractIDMemOffset env.contractID.bytes
    "failed to write contractID for constructor"
  enterCall
  let constrErr ← attempt (callFunction env inst exportName [])
  exitCall
  let _ ← wrapErr "constructor execution failed" (ofResult constrErr)
  return (← get).meter.used

def WasmModule.constructor (m : WasmModule) : Option Bytes :=
  [str "init", str "constructor"].find? (· ∈ m.exports)

def runConstructors (env : HostEnv) (m : WasmModule) (meter : GasMeter) :
    Exec InMemoryState UInt64 :=
  match m.constructor with
  | none => pure 0
  | some exportName => withHost (newGasMeter meter.remaining) (runConstructor env m exportName)

def executeDeploy (vm : VM) (tx : DeployContractTx) (blockHeight blockTimestamp : UInt64)
    (txIndex : UInt32) : Exec InMemoryState (ExecutionResult × Option Error) := do
  let compiled ← ofResult (compileModule vm tx.wasmCode)
  let contractID := deriveContractID tx.sender tx.nonce tx.codeHash
  match (← get).getContractMeta contractID with
  | .ok _ => throw errContractAlreadyExists
  | .error _ =>
    let deploymentGas := gasDeployBase + gasPerCodeByte * UInt64.ofNat tx.wasmCode.length
    match (newGasMeter tx.gasLimit).deduct deploymentGas with
    | none => return (⟨0, [], [], true, none, tx.gasLimit⟩, some errGasLimitExceeded)
    | some meter =>
      -- the identifier comes from the hash in the message, the code is stored under its own
      let actualCodeHash := sha256 tx.wasmCode
      modify (setCode actualCodeHash tx.wasmCode)
      modify (setContractMeta contractID ⟨contractID, actualCodeHash, tx.sender, blockHeight⟩)
      let env : HostEnv := ⟨tx.sender, contractID, blockHeight, blockTimestamp, txIndex⟩
      let constructorGas ← runConstructors env compiled meter
      return (⟨meter.used + constructorGas, contractID.bytes, [], false,
        some (FixedBytes.copy 20 (contractID.bytes.take 20)), tx.gasLimit⟩, none)

/-! ### Calls -/

def loadCode (contractID : Hash) (s : InMemoryState) : Except Error Bytes := do
  let m ← s.getContractMeta contractID
  s.getCode m.codeHash

def writeCalldata (calldata : Bytes) : Exec HostState (List UInt64) := do
  if calldata.length > 0 then
    failIf (UInt32.ofNat calldata.length > (← memSize)) (.new "calldata too large")
    writeForGuest 0 calldata "failed to write calldata"
    return [0, UInt64.ofNat calldata.length]
  else return []

def callEntrypoint (env : HostEnv) (tx : CallContractTx) (compiled : WasmModule) :
    Exec HostState ExecutionResult := do
  let inst ← wrapErr "failed to instantiate contract module" (instantiateModule env compiled)
  failIf (¬ tx.entrypoint ∈ compiled.exports)
    (.detail errHostFunction s!"function '{text tx.entrypoint}' not found")
  let callParams ← writeCalldata tx.calldata
  writeForGuest contractIDMemOffset tx.contractID.bytes "failed to write contractID"
  enterCall
  match ← attempt (callFunction env inst tx.entrypoint callParams) with
  | .error e =>
    let used := (← get).meter.used
    if used ≥ tx.gasLimit then return ⟨used, [], [], true, none, 0⟩
    else throw (.detail errHostFunction e.text)
  | .ok results =>
    let h ← get
    if results.headD 0 ≠ 0 then return ⟨h.meter.used, [], [], true, none, tx.gasLimit⟩
    else return ⟨h.meter.used, [], h.events, false, none, tx.gasLimit⟩

def prepareCall (tx : CallContractTx) (compiled : WasmModule) : Exec HostState (List UInt64) := do
  failIf (¬ tx.entrypoint ∈ compiled.exports)
    (.detail errHostFunction s!"function '{text tx.entrypoint}' not found")
  let callParams ← writeCalldata tx.calldata
  writeForGuest contractIDMemOffset tx.contractID.bytes "failed to write contractID"
  enterCall
  return callParams

def executeCall (vm : VM) (tx : CallContractTx) (blockHeight blockTimestamp : UInt64)
    (txIndex : UInt32) : Exec InMemoryState (ExecutionResult × Option Error) := do
  match loadCode tx.contractID (← get) with
  | .error e => throw (.detail errVMContractNotFound e.text)
  | .ok code =>
    let compiled ← ofResult (compileModule vm code)
    -- imports are checked on a call, not on deployment
    ofResult (validateImports compiled)
    let env : HostEnv := ⟨tx.sender, tx.contractID, blockHeight, blockTimestamp, txIndex⟩
    let result ← withHost (newGasMeter tx.gasLimit) (callEntrypoint env tx compiled)
    return (result, none)

/-! ### Execution with rollback -/

def rollback (snapID : ℕ) (err : Option Error) : Exec InMemoryState Unit := fun s =>
  let original := (err.map Error.text).getD "<nil>"
  match revertToSnapshot snapID s with
  | .ok _ s' => .ok () s'
  | .error rbErr s' =>
    .error (.new s!"rollback failed: {rbErr.text} (original error: {original})") s'

def executeTx (vm : VM) (tx : ContractTx) (blockHeight blockTimestamp : UInt64)
    (txIndex : UInt32) : Exec InMemoryState (ExecutionResult × Option Error) :=
  match tx with
  | .deploy t => executeDeploy vm t blockHeight blockTimestamp txIndex
  | .call t => executeCall vm t blockHeight blockTimestamp txIndex

def VM.execute (vm : VM) (tx : ContractTx) (blockHeight blockTimestamp : UInt64)
    (txIndex : UInt32) : Exec InMemoryState (ExecutionResult × Option Error) := do
  let snapID ← snapshot
  let outcome ← attempt (executeTx vm tx blockHeight blockTimestamp txIndex)
  match outcome with
  | .error e => do
    rollback snapID (some e)
    throw e
  | .ok (result, err) =>
    if err.isSome ∨ result.reverted then do
      rollback snapID err
      return ({ result with events := [] }, err)
    else return (result, err)

end Dsn
