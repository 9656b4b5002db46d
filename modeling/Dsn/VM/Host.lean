import Dsn.State.Memory

/-!
# `vm`: gas, guest memory and host functions

A guest is an arbitrary tree of host calls that may change its memory between them.
-/

namespace Dsn

open Go InMemoryState

/-! ### Gas -/

structure GasMeter where
  limit : UInt64
  used : UInt64

def newGasMeter (limit : UInt64) : GasMeter := ⟨limit, 0⟩

def GasMeter.deduct (gm : GasMeter) (cost : UInt64) : Option GasMeter :=
  if gm.used + cost > gm.limit then none else some { gm with used := gm.used + cost }

def GasMeter.remaining (gm : GasMeter) : UInt64 := gm.limit - gm.used

def gasReadStorage : UInt64 := 20
def gasWriteStorage : UInt64 := 50
def gasEmitEvent : UInt64 := 30
def gasReadCaller : UInt64 := 10
def gasReadBlockHeight : UInt64 := 10
def gasReadBlockTimestamp : UInt64 := 10
def gasTransferToken : UInt64 := 100
def gasDeployBase : UInt64 := 1000
def gasPerCodeByte : UInt64 := 1
def gasPerStorageByte : UInt64 := 2

def maxStorageValueSize : UInt32 := 64 * 1024

/-! ### Memory -/

abbrev Memory := List Bytes

def Memory.advance (mem : Memory) (arrays : List Bytes) : Memory :=
  match mem with
  | [] => []
  | current :: old => if arrays = [] then current :: old else arrays ++ old

structure View where
  array : ℕ
  offset : ℕ
  length : ℕ

def View.bytes (mem : Memory) (v : View) : Bytes :=
  ((mem.reverse.getD v.array []).drop v.offset).take v.length

/-! ### Guests -/

inductive HostCall
  | readStorage (contractIDPtr contractIDLen keyPtr keyLen outPtr : UInt32)
  | writeStorage (contractIDPtr contractIDLen keyPtr keyLen valuePtr valueLen : UInt32)
  | emitEvent (topicPtr topicLen dataPtr dataLen : UInt32)
  | readCaller (outPtr : UInt32)
  | readBlockHeight
  | readBlockTimestamp
  | transferToken (recipientPtr recipientLen : UInt32) (amountHi amountLo : UInt64)

/-- Contract code as a tree of host calls; before each, it may write to its memory. -/
inductive Guest (α : Type)
  | ret (a : α) (arrays : List Bytes)
  | trap (err : String) (arrays : List Bytes)
  | call (f : HostCall) (arrays : List Bytes) (k : UInt64 → Bytes → Guest α)

/-! ### The host -/

structure HostEnv where
  caller : Address
  contractID : Hash
  blockHeight : UInt64
  timestamp : UInt64
  txIndex : UInt32

/-- Stored values and event data stay views into the memory of the guest. -/
structure HostState where
  meter : GasMeter
  state : InMemoryState
  eventLog : List (Event × View)
  callDepth : ℕ
  memory : Memory
  slots : List (Bytes × View)

def newHostState (meter : GasMeter) (state : InMemoryState) : HostState :=
  ⟨meter, state, [], 0, [], []⟩

namespace HostState

def refresh (h : HostState) : HostState :=
  { h with state := h.slots.foldl (fun st e => st.setBytes e.1 (e.2.bytes h.memory)) h.state }

def sync (arrays : List Bytes) (h : HostState) : HostState :=
  refresh { h with memory := h.memory.advance arrays }

def current (h : HostState) : Bytes := h.memory.headD []

def events (h : HostState) : List Event :=
  h.eventLog.map fun e => { e.1 with data := e.2.bytes h.memory }

end HostState

def nilMemory : Error := .panic "nil pointer dereference"

def deductGas (cost : UInt64) : Exec HostState Bool := fun h =>
  match h.meter.deduct cost with
  | some meter => .ok true { h with meter }
  | none => .ok false h

def memSize : Exec HostState UInt32 := fun h =>
  match h.memory with
  | [] => .error nilMemory h
  | current :: _ => .ok (UInt32.ofNat current.length) h

def memRead (offset n : UInt32) : Exec HostState (Option View) := fun h =>
  match h.memory with
  | [] => .error nilMemory h
  | current :: old =>
    if offset.toNat + n.toNat ≤ current.length then
      .ok (some ⟨old.length, offset.toNat, n.toNat⟩) h
    else .ok none h

def memWrite (offset : UInt32) (v : Bytes) : Exec HostState Bool := fun h =>
  match h.memory with
  | [] => .error nilMemory h
  | current :: old =>
    if offset.toNat + v.length ≤ current.length then
      .ok true { h with memory :=
        (current.take offset.toNat ++ v ++ current.drop (offset.toNat + v.length)) :: old }
    else .ok false h

def viewBytes (v : View) : Exec HostState Bytes := do return v.bytes (← get).memory

section HostFunctions

variable [Crypto]

def readStorage (contractIDPtr contractIDLen keyPtr keyLen outPtr : UInt32) :
    Exec HostState UInt64 := do
  if ← deductGas gasReadStorage then
    let size ← memSize
    if contractIDPtr + contractIDLen > size ∨ keyPtr + keyLen > size ∨ outPtr > size then
      return 2
    else
      match ← memRead contractIDPtr contractIDLen, ← memRead keyPtr keyLen with
      | some idView, some keyView =>
        let contractID : Hash := FixedBytes.copy 32 (← viewBytes idView)
        let key ← viewBytes keyView
        match (← get).state.getContractStorage contractID key with
        | .error _ => return 3
        | .ok value =>
          if value.length > 0 then
            if outPtr + UInt32.ofNat value.length > size then return 2
            else if ← memWrite outPtr value then return 0 else return 2
          else return 0
      | _, _ => return 2
  else return 1

def storeView (contractID : Hash) (key : Bytes) (v : View) : Exec HostState Bool := fun h =>
  match setContractStorage contractID key (v.bytes h.memory) h.state with
  | .ok _ st =>
    let slot := storageKey contractID key
    .ok true { h with state := st, slots := (slot, v) :: h.slots.filter fun e => e.1 ≠ slot }
  | .error _ st => .ok false { h with state := st }

def writeStorage (contractIDPtr contractIDLen keyPtr keyLen valuePtr valueLen : UInt32) :
    Exec HostState UInt64 := do
  if ← deductGas gasWriteStorage then
    if valueLen > maxStorageValueSize then return 4
    else if ← deductGas (gasPerStorageByte * valueLen.toUInt64) then
      let size ← memSize
      if contractIDPtr + contractIDLen > size ∨ keyPtr + keyLen > size ∨
          valuePtr + valueLen > size then
        return 2
      else
        match ← memRead contractIDPtr contractIDLen, ← memRead keyPtr keyLen,
            ← memRead valuePtr valueLen with
        | some idView, some keyView, some valueView =>
          let contractID : Hash := FixedBytes.copy 32 (← viewBytes idView)
          let key ← viewBytes keyView
          if ← storeView contractID key valueView then return 0 else return 5
        | _, _, _ => return 2
    else return 1
  else return 1

def logEvent (env : HostEnv) (topic : Bytes) (data : View) : Exec HostState Unit :=
  modify fun h => { h with eventLog := h.eventLog ++
    [(⟨env.contractID, topic, [], env.blockHeight, env.txIndex⟩, data)] }

def emitEvent (env : HostEnv) (topicPtr topicLen dataPtr dataLen : UInt32) :
    Exec HostState Unit := do
  if ← deductGas gasEmitEvent then
    let size ← memSize
    if topicPtr + topicLen > size ∨ dataPtr + dataLen > size then return
    else
      match ← memRead topicPtr topicLen, ← memRead dataPtr dataLen with
      | some topicView, some dataView => logEvent env (← viewBytes topicView) dataView
      | _, _ => return
  else return

def readCaller (env : HostEnv) (outPtr : UInt32) : Exec HostState UInt64 := do
  if ← deductGas gasReadCaller then
    let size ← memSize
    if outPtr + 20 > size then return 2
    else if ← memWrite outPtr env.caller.bytes then return 0 else return 2
  else return 1

def readBlockValue (cost value : UInt64) : Exec HostState UInt64 := do
  if ← deductGas cost then return value else return 0

def transferToken (recipientPtr recipientLen : UInt32) : Exec HostState UInt64 := do
  if ← deductGas gasTransferToken then
    let size ← memSize
    if recipientPtr + recipientLen > size then return 2
    else
      match ← memRead recipientPtr recipientLen with
      | some recipient => if recipient.length ≠ 20 then return 2 else return 0
      | none => return 2
  else return 1

def hostCall (env : HostEnv) : HostCall → Exec HostState UInt64
  | .readStorage idPtr idLen keyPtr keyLen outPtr => readStorage idPtr idLen keyPtr keyLen outPtr
  | .writeStorage idPtr idLen keyPtr keyLen valuePtr valueLen =>
    writeStorage idPtr idLen keyPtr keyLen valuePtr valueLen
  | .emitEvent topicPtr topicLen dataPtr dataLen => do
    emitEvent env topicPtr topicLen dataPtr dataLen
    return 0
  | .readCaller outPtr => readCaller env outPtr
  | .readBlockHeight => readBlockValue gasReadBlockHeight env.blockHeight
  | .readBlockTimestamp => readBlockValue gasReadBlockTimestamp env.timestamp
  | .transferToken recipientPtr recipientLen _ _ => transferToken recipientPtr recipientLen

def runGuest {α : Type} (env : HostEnv) : Guest α → Exec HostState α
  | .ret a arrays => fun h => .ok a (h.sync arrays)
  | .trap err arrays => fun h => .error (.new err) (h.sync arrays)
  | .call f arrays k => fun h =>
    match hostCall env f (h.sync arrays) with
    | .ok r h' => runGuest env (k r h'.current) h'
    | .error _ h' => .error (.new "host function panicked") h'.refresh

end HostFunctions

end Dsn
