import Dsn.Consensus.Block
import Dsn.Consensus.Persist
import Dsn.Mempool.Pool
import Dsn.State.Restore

/-!
# `node`: accepting, storing and recovering a chain

The methods of a node, without the connections that it serves.
-/

namespace Dsn

open Go

structure NodeConfig where
  validators : List Address
  maxTxPerBlock : ℤ
  mempoolMaxSize : ℤ
  mempoolTTL : ℤ
  snapshotInterval : UInt64

structure ReorgEntry where
  height : UInt64
  hash : Hash

/-- A node without its network and its services. -/
structure Node where
  cfg : NodeConfig
  state : InMemoryState
  persistent : Option PersistentState
  mempool : Mempool
  vm : Option VM
  wallet : Option KeyPair
  finalizedHeight : UInt64
  reorgBuffer : List ReorgEntry
  currentHeight : UInt64
  currentTipHash : Hash
  currentEpoch : UInt64

def zeroHeader : BlockHeader where
  version := 0
  height := 0
  previousHash := zeroHash
  stateRoot := zeroHash
  txRoot := zeroHash
  receiptRoot := zeroHash
  validatorRoot := zeroHash
  validatorSetHash := zeroHash
  epoch := 0
  timestamp := 0
  proposer := zeroAddress
  eventsRoot := zeroHash

/-! ### Copying entries -/

def InMemoryState.copyFrom (c : StateSnapshot) (s : InMemoryState) : InMemoryState :=
  { s with
    accounts := (s.contents.overlay c).accounts
    kvstore := (s.contents.overlay c).kvstore }

def PersistentState.copyFrom (c : StateSnapshot) (ps : PersistentState) : PersistentState :=
  { ps with
    cache := (ps.contents.overlay c).accounts
    kvstore := (ps.contents.overlay c).kvstore }

namespace Node

def onState {α : Type} (x : Exec InMemoryState α) : Exec Node α :=
  onPart Node.state (fun state n => { n with state }) x

def onPersistent {α : Type} (x : Exec PersistentState α) : Exec Node α := fun n =>
  match n.persistent with
  | none => .error (.panic "invalid memory address or nil pointer dereference") n
  | some ps => match x ps with
    | .ok a ps' => .ok a { n with persistent := some ps' }
    | .error e ps' => .error e { n with persistent := some ps' }

variable [Crypto]

def commitState : Exec Node Hash := do
  let n ← get
  if n.persistent.isSome then
    onPersistent (modify (PersistentState.copyFrom n.state.contents))
    let _ ← wrapErr "persistent commit" (onPersistent PersistentState.commit)
  onState InMemoryState.commit

def loadFromPersistent : Exec Node Unit := do
  let n ← get
  match n.persistent with
  | none => pure ()
  | some ps =>
    modify fun n => { n with state := n.state.copyFrom ps.contents }
    let _ ← onState InMemoryState.commit

/-! ### Accepted blocks -/

def checkpointEpoch (now : UInt64) (block : Block) : Exec Node Unit := do
  modify fun n => { n with currentEpoch := block.header.epoch }
  let n ← get
  let _ ← attempt (onPersistent (createCheckpoint block.header.height block.header.epoch
    block.header.stateRoot n.currentTipHash block.header.validatorSetHash now))
  if n.cfg.snapshotInterval > 0 ∧ block.header.epoch % n.cfg.snapshotInterval = 0 then
    let snap ← onState (InMemoryState.createSnapshot block.header.height block.header.epoch
      block.header.validatorSetHash block.header.timestamp)
    let _ ← attempt (onPersistent (storeSnapshot block.header.height (serializeSnapshot snap)))

def storeAccepted (block : Block) : Exec Node Unit := do
  let _ ← attempt (onPersistent (atomicStoreBlockAndTip block))
  match ← attempt commitState with
  | .ok _ => pure ()
  | .error e =>
    throw (.panic s!"commit state failed: {e.text} at height {block.header.height}")

def applyAcceptedBlock (now : UInt64) (block : Block) : Exec Node Unit := do
  modify fun n => { n with
    currentHeight := block.header.height
    currentTipHash := block.headerHash }
  let n ← get
  if n.persistent.isSome then storeAccepted block
  modify fun n => { n with
    mempool := block.transactions.foldl (fun mp tx => mp.remove true tx.intentID) n.mempool }
  if n.persistent.isSome ∧ block.header.epoch > 0 ∧ block.header.epoch ≠ n.currentEpoch then
    checkpointEpoch now block

/-! ### Blocks from the network -/

def finalityK : UInt64 := 6

def forkWeight (h tip : UInt64) : UInt64 :=
  if tip < finalityK then h
  else if h > tip - finalityK then tip - finalityK
  else h

def parentHash (default : Hash) (height : UInt64) (n : Node) : Hash :=
  match n.persistent with
  | none => default
  | some ps =>
    if height > 0 then
      match loadBlockHeader ps (height - 1) with
      | .ok parent => parent.headerHash
      | .error _ => zeroHash
    else default

def tryBlock (now : ℕ → UInt64) (default : Hash) (block : Block) :
    Exec Node (Except Error Unit) := do
  let n ← get
  let parentHeader := { zeroHeader with
    height := block.header.height - 1
    previousHash := block.header.previousHash }
  attempt (onState (validateBlock block parentHeader
    (n.parentHash default block.header.height) n.vm now))

structure MessageClock where
  txTime : ℕ → UInt64
  checkpointTime : UInt64

def pushReorg (block : Block) (n : Node) : Node :=
  let buffer := n.reorgBuffer ++ [⟨block.header.height, n.currentTipHash⟩]
  { n with reorgBuffer := if buffer.length > 10 then buffer.drop 1 else buffer }

def handleFork (clock : MessageClock) (block : Block) : Exec Node Unit := do
  let n ← get
  let weightNew := forkWeight block.header.height n.currentHeight
  let weightCurr := forkWeight n.currentHeight n.currentHeight
  if weightNew < weightCurr ∨ weightNew = weightCurr ∧ block.header.height ≤ n.currentHeight then
    pure ()
  else
    match ← tryBlock clock.txTime zeroHash block with
    | .error _ => pure ()
    | .ok _ => applyAcceptedBlock clock.checkpointTime block

def extendTip (clock : MessageClock) (block : Block) : Exec Node Unit := do
  let n ← get
  match ← tryBlock clock.txTime n.currentTipHash block with
  | .error _ => pure ()
  | .ok _ =>
    modify (pushReorg block)
    applyAcceptedBlock clock.checkpointTime block

def raiseFinalized (block : Block) (n : Node) : Node :=
  if block.header.height > 6 then { n with finalizedHeight := block.header.height - 6 } else n

def handleBlockMessage (clock : MessageClock) (data : Bytes) : Exec Node Unit :=
  match decodeBlockMessage data with
  | .error _ => pure ()
  | .ok block => do
    modify (raiseFinalized block)
    let n ← get
    if block.header.height ≤ n.finalizedHeight then pure ()
    else if block.header.previousHash ≠ n.currentTipHash then handleFork clock block
    else extendTip clock block

/-! ### Replay -/

def replayBlock (height : UInt64) : Exec Node Unit := do
  let n ← get
  let header ← wrapErr s!"load header at height {height}"
    (match n.persistent with
      | none => throw (.panic "invalid memory address or nil pointer dereference")
      | some ps => ofResult (loadBlockHeader ps height))
  let _ ← wrapErr s!"begin block at height {height}" (onState (beginBlock height))
  let stateRoot ← wrapErr s!"commit at height {height}" (onState InMemoryState.commit)
  failIf (stateRoot ≠ header.stateRoot) (.new (s!"state root mismatch at height {height}: " ++
    s!"got {hexText stateRoot}, expected {hexText header.stateRoot}"))
  modify fun n => { n with
    currentHeight := height
    currentTipHash := header.headerHash }
  wrapErr s!"store tip at height {height}" (onPersistent (storeTip header))

def heights (fromHeight toHeight : UInt64) : List UInt64 :=
  (List.range (toHeight.toNat + 1 - fromHeight.toNat)).map fun i => fromHeight + UInt64.ofNat i

def replayBlocks (fromHeight toHeight : UInt64) : Exec Node Unit := do
  failIf (fromHeight > toHeight)
    (.new s!"fromHeight ({fromHeight}) cannot be greater than toHeight ({toHeight})")
  let n ← get
  failIf (n.persistent.isNone) (.new "persistent storage required for block replay")
  (heights fromHeight toHeight).forM replayBlock

/-! ### Recovery -/

def setTip (tip : Except Error BlockHeader) (n : Node) : Node :=
  match tip with
  | .ok tip => { n with currentHeight := tip.height, currentTipHash := tip.headerHash }
  | .error _ => n

def restoreCheckpoint (ps : PersistentState) (cp : Checkpoint) (tip : Except Error BlockHeader) :
    Exec Node Unit := do
  failIf (snapshotExists ps cp.height = false) (.new (
    s!"recovery failed: state root {hexText ps.root} doesn't match checkpoint at height " ++
    s!"{cp.height} ({hexText cp.stateRoot}), and no snapshot available"))
  let snapData ← wrapErr "recovery: load snapshot" (ofResult (loadSnapshotData ps cp.height))
  wrapErr "recovery: restore" (onPersistent (restoreFromSnapshot snapData cp.snapshotHash))
  modify fun n => { n with state := newInMemoryState }
  loadFromPersistent
  match tip with
  | .error _ => pure ()
  | .ok tip =>
    if tip.height > cp.height then
      wrapErr "recovery: replay" (replayBlocks (cp.height + 1) tip.height)
    else pure ()

def recover : Exec Node Unit := do
  let n ← get
  match n.persistent with
  | none => pure ()
  | some ps =>
    modify (setTip (loadTip ps))
    if ps.root = zeroHash then pure ()
    else
      loadFromPersistent
      match latestCheckpoint ps with
      | .error _ => pure ()
      | .ok cp =>
        if ps.root = cp.stateRoot then pure () else restoreCheckpoint ps cp (loadTip ps)

def initial (cfg : NodeConfig) (vm : Option VM) (ps : PersistentState) : Node where
  cfg := cfg
  state := newInMemoryState
  persistent := some ps
  mempool := .new cfg.mempoolMaxSize cfg.mempoolTTL
  vm := vm
  wallet := none
  finalizedHeight := 0
  reorgBuffer := []
  currentHeight := 0
  currentTipHash := zeroHash
  currentEpoch := 0

def openNode (cfg : NodeConfig) (vm : Option VM) (db : Bolt.DB) : Except Error Node :=
  match wrapErr "failed to open persistent state" newPersistentState db with
  | .error e _ => .error e
  | .ok ps _ => match wrapErr "crash recovery" recover (initial cfg vm ps) with
    | .ok _ n => .ok n
    | .error e _ => .error e

/-! ### Fast sync and shutdown -/

def checkpointTip (cp : Checkpoint) : BlockHeader :=
  { zeroHeader with height := cp.height, stateRoot := cp.stateRoot, timestamp := cp.timestamp }

def fastSyncFromCheckpoint (cp : Checkpoint) (snapData : Bytes) (targetHeight : UInt64) :
    Exec Node Unit := do
  let n ← get
  failIf (n.persistent.isNone) (.new "fast sync requires persistent storage")
  let computedHash := snapshotHash snapData
  failIf (computedHash ≠ cp.snapshotHash) (.new
    s!"snapshot hash mismatch: got {hexText computedHash}, expected {hexText cp.snapshotHash}")
  wrapErr "restore from snapshot" (onPersistent (restoreFromSnapshot snapData cp.snapshotHash))
  loadFromPersistent
  -- the root that is compared is the one of the database
  let currentRoot ← onPersistent (asks fun ps => .ok ps.root)
  failIf (currentRoot ≠ cp.stateRoot) (.new (s!"state root mismatch after restore: " ++
    s!"got {hexText currentRoot}, expected {hexText cp.stateRoot}"))
  modify fun n => { n with currentHeight := cp.height, currentTipHash := cp.blockHash }
  wrapErr "store tip" (onPersistent (storeTip (checkpointTip cp)))
  if targetHeight > cp.height then
    wrapErr "replay blocks" (replayBlocks (cp.height + 1) targetHeight)

def shutdownTip (now height : UInt64) (ps : PersistentState) : BlockHeader :=
  { zeroHeader with height := height, stateRoot := ps.root, timestamp := now }

def shutdown (now : UInt64) : Exec Node Unit := do
  let n ← get
  match n.persistent with
  | none => pure ()
  | some ps =>
    if n.currentHeight > 0 then
      let _ ← attempt (onPersistent (storeTip (shutdownTip now n.currentHeight ps)))

end Node

end Dsn
