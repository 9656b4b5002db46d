import Dsn.Go.Slice
import Dsn.State.Supply

/-!
# `mempool`: pending transactions

`Submit`, `Remove` and `PendingTxs` with the index that they keep.
-/

namespace Dsn

open Go InMemoryState

def errMempoolFull : Error := .new "mempool is full"
def errAlreadyInPool : Error := .new "transaction already in pool"
def errPoolInsufficientStake : Error := .new "insufficient stake for validator registration"

structure PendingTx where
  tx : Transaction
  submitted : ℤ
  deriving DecidableEq

/-- The indexes, and the bucket behind them if there is one. -/
structure Mempool where
  txs : Map Hash PendingTx
  index : List Transaction
  maxSize : ℤ
  ttl : ℤ
  nextNonce : Map Address UInt64
  db : Option (Map Hash Bytes)

namespace Mempool

def new (maxSize ttl : ℤ) : Mempool := ⟨∅, [], maxSize, ttl, ∅, none⟩

def newWithPersistence (maxSize ttl : ℤ) (db : Option (Map Hash Bytes)) : Mempool :=
  { new maxSize ttl with db := db }

/-! ### The index -/

def indexRemove (intentID : Hash) (entries : List Transaction) : List Transaction :=
  entries.eraseP fun e => e.intentID = intentID

def feeLess (a b : Transaction) : Bool :=
  if a.maxFee ≠ b.maxFee then decide (a.maxFee > b.maxFee)
  else if a.timestamp ≠ b.timestamp then decide (a.timestamp < b.timestamp)
  else (compare a.intentID b.intentID).isLT

def sorted (entries : List Transaction) : List Transaction := sortSlice feeLess entries

/-! ### Submitting -/

def checkMessage (tx : Transaction) : Except Error Unit :=
  if tx.txType = txTypeDeployContract then do
    let contractTx ← tx.deployContract.mapError (Error.within "invalid deploy contract tx")
    contractTx.validate
  else if tx.txType = txTypeCallContract then do
    let contractTx ← tx.callContract.mapError (Error.within "invalid call contract tx")
    contractTx.validate
  else if tx.txType = txTypeValidatorRegistration then do
    let regMsg ← tx.validatorRegistration.mapError
      (Error.within "invalid validator registration tx")
    check (regMsg.stake.toNat < 100000) (.detail errPoolInsufficientStake "minimum stake is 100000")
    check (regMsg.commission.toNat > 10000)
      (.new s!"commission rate exceeds maximum: {regMsg.commission} > 10000")
  else .ok ()

def signatureValid [Crypto] (tx : Transaction) (acc : Account) : Bool :=
  if tx.txType = txTypeValidatorRegistration then
    match tx.validatorRegistration with
    | .ok regMsg => ed25519Verify regMsg.pubKey tx.intentID.bytes tx.signature
    | .error _ => true
  else ed25519Verify acc.publicKey tx.intentID.bytes tx.signature

def checkSender [Crypto] (tx : Transaction) (s : InMemoryState) : Except Error UInt64 := do
  let acc ← (s.getAccount tx.sender).mapError (Error.within "sender account not found")
  check (signatureValid tx acc = false) errSignatureMissing
  check (acc.balance.val < tx.maxFee.toNat + stakeOf tx)
    (if tx.txType = txTypeValidatorRegistration then
      .detail errPoolInsufficientStake "need stake + fee"
    else errMaxFeeExceeded)
  return acc.nonce

def expectedNonce [Crypto] (s : InMemoryState) (tx : Transaction) (mp : Mempool) :
    Except Error UInt64 :=
  let localNonce := (mp.nextNonce[tx.sender]?).getD 0
  if localNonce = 0 then checkSender tx s else .ok localNonce

def add (tx : Transaction) (submitted : ℤ) (mp : Mempool) : Mempool :=
  { mp with
    txs := mp.txs.insert tx.intentID ⟨tx, submitted⟩
    index := mp.index ++ [tx]
    nextNonce := mp.nextNonce.insert tx.sender tx.nonce }

def drop (intentID : Hash) (mp : Mempool) : Mempool :=
  { mp with
    txs := mp.txs.erase intentID
    index := indexRemove intentID mp.index }

def persist (dbErr : Option Error) (tx : Transaction) : Exec Mempool Unit := do
  match (← get).db with
  | none => return
  | some bucket =>
    match tx.encode [] with
    | .error e _ =>
      modify (drop tx.intentID)
      throw (.wrap "failed to encode tx for persistence" e)
    | .ok _ bytes =>
      match dbErr with
      | some e =>
        modify (drop tx.intentID)
        throw (.wrap "failed to persist tx" e)
      | none => modify fun mp => { mp with db := some (bucket.insert tx.intentID bytes) }

structure SubmitClock where
  now : UInt64
  submitted : ℤ

def submit [Crypto] (s : InMemoryState) (clock : SubmitClock) (dbErr : Option Error) :
    Option Transaction → Exec Mempool Unit
  | none => throw errInvalidEncoding
  | some tx => do
    ofResult (tx.validate clock.now)
    ofResult (checkMessage tx)
    let mp ← get
    failIf ((mp.txs.size : ℤ) ≥ mp.maxSize) errMempoolFull
    failIf ((mp.txs[tx.intentID]?).isSome) errAlreadyInPool
    let expectedNonce ← ofResult (mp.expectedNonce s tx)
    failIf (tx.nonce ≠ expectedNonce + 1) errNonceMismatch
    modify (add tx clock.submitted)
    persist dbErr tx

/-! ### Removing and listing -/

def remove (dbOk : Bool) (intentID : Hash) (mp : Mempool) : Mempool :=
  let mp := mp.drop intentID
  if dbOk then { mp with db := mp.db.map fun bucket => bucket.erase intentID } else mp

def expire (now : Hash → ℤ) (mp : Mempool) : Mempool :=
  mp.txs.toList.foldl (fun mp' e => if now e.1 - e.2.submitted > mp.ttl then mp'.drop e.1 else mp')
    mp

def pendingTxs (now later : Hash → ℤ) (mp : Mempool) : List Transaction × Mempool :=
  let mp := mp.expire now
  ((sorted mp.index).filter fun tx =>
    match mp.txs[tx.intentID]? with
    | some pt => decide (later tx.intentID - pt.submitted ≤ mp.ttl)
    | none => false, mp)

def loadPersistent (mp : Mempool) : List Transaction :=
  match mp.db with
  | none => []
  | some bucket => bucket.toList.filterMap fun e => (decodeFrom Transaction.decode e.2).toOption

end Mempool

end Dsn
