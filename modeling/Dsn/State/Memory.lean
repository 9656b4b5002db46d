import Dsn.State.SMT
import Dsn.State.Keys
import Dsn.Types.Block

/-!
# `state`: accounts and the in-memory state

Accounts, key-value store, contracts and snapshots of `InMemoryState`.
-/

namespace Dsn

open Go

variable {key : Bytes} {u : Unit} {texts : List Bytes}

/-! ### Accounts -/

structure Account where
  address : Address
  balance : Amount
  nonce : UInt64
  storageRoot : Hash
  codeHash : Hash
  permissions : UInt32
  publicKey : PublicKey
  deriving DecidableEq

def newAccount (addr : Address) (publicKey : PublicKey) : Account where
  address := addr
  balance := .ofUInt64 0
  nonce := 0
  storageRoot := zeroHash
  codeHash := zeroHash
  permissions := 0
  publicKey := publicKey

def Account.encode (a : Account) : Bytes :=
  a.address.bytes ++ a.balance.bytes16 ++ putUint64 a.nonce ++ a.storageRoot.bytes ++
    a.codeHash.bytes ++ beBytes 4 a.permissions.toNat ++ a.publicKey.bytes

def Account.decode : Reader Account := do
  let address ← readFixed 20
  let balBuf ← readFull 16
  let balance ← ofResult (Amount.unmarshalBinary balBuf)
  let nonce ← readUint64
  let storageRoot ← readFixed 32
  let codeHash ← readFixed 32
  let permissions ← readUint32
  let publicKey ← readFixed 32
  return { address, balance, nonce, storageRoot, codeHash, permissions, publicKey }

theorem Account.decode_encode (a : Account) : Reads decode a.encode a := by
  unfold encode
  simp only [List.append_assoc]
  refine (Reads.readFixed a.address).bind ?_
  refine a.balance.reads_bytes16.bind ?_
  rw [Amount.unmarshalBinary_bytes16]
  refine (Reads.pure a.balance).nil_bind ?_
  refine (Reads.readUint64 a.nonce).bind ?_
  refine (Reads.readFixed a.storageRoot).bind ?_
  refine (Reads.readFixed a.codeHash).bind ?_
  refine (Reads.readUint32 a.permissions).bind ?_
  exact (Reads.readFixed a.publicKey).bind_pure (Reads.pure a)

theorem Account.encode_injective : Function.Injective Account.encode := by
  intro a b h
  have ha := decodeFrom_of_reads a.decode_encode
  rw [h, decodeFrom_of_reads b.decode_encode] at ha
  exact (Except.ok.inj ha).symm

theorem Account.length_encode (a : Account) : a.encode.length = 144 := by
  simp [encode, Amount.bytes16, putUint64]

def Account.addBalance (a : Account) (amount : Amount) : Except Error Account := do
  let newBal ← a.balance.add amount
  return { a with balance := newBal }

def Account.subBalance (a : Account) (amount : Amount) : Except Error Account := do
  let newBal ← a.balance.sub amount
  return { a with balance := newBal }

/-! ### Contract metadata -/

structure ContractMetadata where
  contractID : Hash
  codeHash : Hash
  deployer : Address
  blockHeight : UInt64
  deriving DecidableEq

def varUint64 (v : UInt64) : Bytes :=
  if v.toNat < 0xFD then beBytes 1 v.toNat
  else if v.toNat ≤ 0xFFFF then 0xFD :: beBytes 2 v.toNat
  else if v.toNat ≤ 0xFFFFFFFF then 0xFE :: beBytes 4 v.toNat
  else 0xFF :: beBytes 8 v.toNat

def ContractMetadata.encode (m : ContractMetadata) : Bytes :=
  m.contractID.bytes ++ m.codeHash.bytes ++ m.deployer.bytes ++
    beBytes 4 (varUint64 m.blockHeight).length ++ varUint64 m.blockHeight

def readVarUint64 : Reader UInt64 := do
  let first ← readBE 1
  if first = 0xFD then return UInt64.ofNat (← readBE 2)
  else if first = 0xFE then return UInt64.ofNat (← readBE 4)
  else if first = 0xFF then return UInt64.ofNat (← readBE 8)
  else return UInt64.ofNat first

def ContractMetadata.decode : Reader ContractMetadata := do
  let contractID ← readFixed 32
  let codeHash ← readFixed 32
  let deployer ← readFixed 20
  let blockHeight ← readVarUint64
  return { contractID, codeHash, deployer, blockHeight }

theorem ContractMetadata.decodeFrom_encode (m : ContractMetadata) :
    decodeFrom decode m.encode = .ok { m with blockHeight := 0 } := by
  have hlen : (varUint64 m.blockHeight).length ∈ [1, 3, 5, 9] := by
    unfold varUint64
    split_ifs <;> simp
  have hzero : ∀ n ∈ [1, 3, 5, 9], beBytes 4 n = 0 :: beBytes 3 n := by decide
  have hfirst := hzero _ hlen
  have hheight : Reads readVarUint64 [0] 0 := (Reads.readBE_length [0]).bind_pure (Reads.pure 0)
  have hreads : Reads decode (m.contractID.bytes ++ (m.codeHash.bytes ++ (m.deployer.bytes ++ [0])))
      { m with blockHeight := 0 } := by
    refine (Reads.readFixed m.contractID).bind ((Reads.readFixed m.codeHash).bind ?_)
    exact (Reads.readFixed m.deployer).bind (hheight.bind_pure (Reads.pure _))
  have h := hreads (beBytes 3 (varUint64 m.blockHeight).length ++ varUint64 m.blockHeight)
  unfold decodeFrom encode
  simp only [hfirst, List.append_assoc, List.cons_append, List.nil_append] at h ⊢
  rw [h]

/-! ### The state -/

structure StateSnapshot where
  accounts : Map Address Account
  kvstore : Map Bytes Bytes

/-- The ledger, with the stack of its snapshots. -/
structure InMemoryState where
  accounts : Map Address Account
  kvstore : Map Bytes Bytes
  smt : SMT
  snapshots : List StateSnapshot

def newInMemoryState : InMemoryState := ⟨∅, ∅, .empty, []⟩

def errInvalidSnapshot : Error := .new "invalid snapshot id"

namespace InMemoryState

def getAccount [Crypto] (addr : Address) (s : InMemoryState) : Except Error Account :=
  match s.accounts[addr]? with
  | some acc => .ok acc
  | none => .error (.new s!"account not found: {addressString addr}")

def setAccount (addr : Address) (acc : Account) (s : InMemoryState) : InMemoryState :=
  { s with accounts := s.accounts.insert addr acc }

def getBytes (key : Bytes) (s : InMemoryState) : Option Bytes := s.kvstore[key]?

def setBytes (key value : Bytes) (s : InMemoryState) : InMemoryState :=
  { s with kvstore := s.kvstore.insert key value }

def deleteBytes (key : Bytes) (s : InMemoryState) : InMemoryState :=
  { s with kvstore := s.kvstore.erase key }

@[simp] theorem getBytes_setBytes_self (key value : Bytes) (s : InMemoryState) :
    (s.setBytes key value).getBytes key = some value :=
  Map.get_insert_self _ _ _

theorem getBytes_setBytes (key a value : Bytes) (s : InMemoryState) :
    (s.setBytes key value).getBytes a = if key = a then some value else s.getBytes a :=
  Map.get_insert _ _ _ _

theorem getBytes_setBytes_of_ne {a : Bytes} (h : key ≠ a) (value : Bytes) (s : InMemoryState) :
    (s.setBytes key value).getBytes a = s.getBytes a :=
  Map.get_insert_of_ne _ h _

@[simp] theorem getBytes_deleteBytes_self (key : Bytes) (s : InMemoryState) :
    (s.deleteBytes key).getBytes key = none := Map.get_erase_self _ _

theorem getBytes_deleteBytes (key a : Bytes) (s : InMemoryState) :
    (s.deleteBytes key).getBytes a = if key = a then none else s.getBytes a := by
  split_ifs with h
  · subst h
    exact getBytes_deleteBytes_self key s
  · exact Map.get_erase_of_ne _ h

theorem getBytes_deleteBytes_of_ne {a : Bytes} (h : key ≠ a) (s : InMemoryState) :
    (s.deleteBytes key).getBytes a = s.getBytes a :=
  Map.get_erase_of_ne _ h

def rebuildSMT [Crypto] (s : InMemoryState) : SMT :=
  let t := s.accounts.toList.foldl (fun t e => t.insert e.1.bytes e.2.encode) SMT.empty
  s.kvstore.toList.foldl (fun t e => t.insert e.1 e.2) t

def stateRoot [Crypto] (s : InMemoryState) : Hash := s.rebuildSMT.root

def commit [Crypto] : Exec InMemoryState Hash := fun s =>
  .ok s.stateRoot { s with smt := s.rebuildSMT }

/-! ### Contract code and storage -/

def getCode (contractID : Hash) (s : InMemoryState) : Except Error Bytes :=
  match s.getBytes (codeKey contractID) with
  | some val => .ok val
  | none => .error errContractNotFound

def setCode (contractID : Hash) (code : Bytes) (s : InMemoryState) : InMemoryState :=
  s.setBytes (codeKey contractID) code

def getContractMeta (contractID : Hash) (s : InMemoryState) : Except Error ContractMetadata :=
  match s.getBytes (metaKey contractID) with
  | some val => decodeFrom ContractMetadata.decode val
  | none => .error errContractNotFound

def setContractMeta (contractID : Hash) (m : ContractMetadata) (s : InMemoryState) :
    InMemoryState :=
  s.setBytes (metaKey contractID) m.encode

def getContractStorage [Crypto] (contractID : Hash) (key : Bytes) (s : InMemoryState) :
    Except Error Bytes :=
  match s.getBytes (storageKey contractID key) with
  | some val => .ok val
  | none => .error (.new "storage key not found")

def setContractStorage [Crypto] (contractID : Hash) (key value : Bytes) :
    Exec InMemoryState Unit := do
  failIf (value.length > 64 * 1024) (.new "storage value exceeds 64 KiB limit")
  modify (setBytes (storageKey contractID key) value)

/-! ### Snapshots -/

def snapshot : Exec InMemoryState ℕ := fun s =>
  .ok s.snapshots.length { s with snapshots := s.snapshots ++ [⟨s.accounts, s.kvstore⟩] }

def revertToSnapshot (id : ℕ) : Exec InMemoryState Unit := fun s =>
  match s.snapshots[id]? with
  | none => .error errInvalidSnapshot s
  | some snap => .ok () { s with
      accounts := snap.accounts
      kvstore := snap.kvstore
      snapshots := s.snapshots.take id }

/-! ### Updates through account pointers -/

def addBalance [Crypto] (addr : Address) (amount : Amount) : Exec InMemoryState Unit := do
  let acc ← asks (getAccount addr)
  let acc ← ofResult (acc.addBalance amount)
  modify (setAccount addr acc)

def subBalance [Crypto] (addr : Address) (amount : Amount) : Exec InMemoryState Unit := do
  let acc ← asks (getAccount addr)
  let acc ← ofResult (acc.subBalance amount)
  modify (setAccount addr acc)

def incrementNonce [Crypto] (addr : Address) : Exec InMemoryState Unit := do
  let acc ← asks (getAccount addr)
  modify (setAccount addr { acc with nonce := acc.nonce + 1 })

def accountOrNew (addr : Address) (s : InMemoryState) : Account :=
  (s.accounts[addr]?).getD (newAccount addr (FixedBytes.zero 32))

def credit (addr : Address) (amount : Amount) : Exec InMemoryState Unit := do
  let s ← get
  let acc ← ofResult ((s.accountOrNew addr).addBalance amount)
  modify (setAccount addr acc)

/-! ### Reading an account after a write -/

@[simp] theorem get_setAccount_self (addr : Address) (acc : Account) (s : InMemoryState) :
    (s.setAccount addr acc).accounts[addr]? = some acc :=
  Map.get_insert_self _ _ _

theorem get_setAccount_of_ne {addr a : Address} (h : a ≠ addr) (acc : Account)
    (s : InMemoryState) : (s.setAccount addr acc).accounts[a]? = s.accounts[a]? :=
  Map.get_insert_of_ne _ h.symm _

theorem accountOrNew_of_get {addr : Address} {acc : Account} {s : InMemoryState}
    (h : s.accounts[addr]? = some acc) : s.accountOrNew addr = acc := by
  simp [accountOrNew, h]

/-! ### Reading the metadata of a contract after a write -/

theorem getContractMeta_setContractMeta (contractID : Hash) (m : ContractMetadata)
    (s : InMemoryState) :
    getContractMeta contractID (setContractMeta contractID m s) =
      .ok { m with blockHeight := 0 } := by
  unfold getContractMeta setContractMeta
  rw [getBytes_setBytes_self]
  exact m.decodeFrom_encode

/-- Stored metadata is read back exactly when its height is zero. -/
theorem contract_meta_survives_iff (contractID : Hash) (m : ContractMetadata) (s : InMemoryState) :
    getContractMeta contractID (setContractMeta contractID m s) = .ok m ↔ m.blockHeight = 0 := by
  rw [getContractMeta_setContractMeta]
  constructor
  · intro h
    exact (congrArg ContractMetadata.blockHeight (Except.ok.inj h)).symm
  · intro h
    rw [← h]

theorem contract_height_lost : ¬ ∀ (contractID : Hash) (m : ContractMetadata) (s : InMemoryState),
    getContractMeta contractID (setContractMeta contractID m s) = .ok m := by
  intro h
  have hread := h zeroHash ⟨zeroHash, zeroHash, zeroAddress, 1⟩ newInMemoryState
  cases congrArg (Except.map ContractMetadata.blockHeight) hread

/-! ### What a successful update did, and a failed one did not -/

variable [Crypto] {addr : Address} {amount : Amount} {s s' : InMemoryState}

theorem addBalance_atomic : Atomic (addBalance addr amount) :=
  Atomic.bind (Steps.asks _) fun _ => Atomic.bind (Steps.ofResult _) fun _ => Atomic.modify _

theorem subBalance_atomic : Atomic (subBalance addr amount) :=
  Atomic.bind (Steps.asks _) fun _ => Atomic.bind (Steps.ofResult _) fun _ => Atomic.modify _

theorem incrementNonce_atomic : Atomic (incrementNonce addr) :=
  Atomic.bind (Steps.asks _) fun _ => Atomic.modify _

omit [Crypto] in
theorem credit_atomic : Atomic (credit addr amount) :=
  Atomic.bind Steps.get fun _ => Atomic.bind (Steps.ofResult _) fun _ => Atomic.modify _

theorem getAccount_eq_ok {acc : Account} :
    s.getAccount addr = .ok acc ↔ s.accounts[addr]? = some acc := by
  unfold getAccount
  cases s.accounts[addr]? <;> simp

theorem subBalance_eq_ok : subBalance addr amount s = .ok u s' ↔ ∃ acc bal,
    s.accounts[addr]? = some acc ∧ acc.balance.val = bal.val + amount.val ∧
      s' = s.setAccount addr { acc with balance := bal } := by
  unfold subBalance Account.subBalance
  simp only [asks_bind_eq_ok, ofResult_bind_eq_ok, modify_eq_ok, getAccount_eq_ok,
    except_bind_eq_ok, Amount.sub_eq_ok]
  constructor
  · rintro ⟨acc, hacc, _, ⟨bal, hbal, h⟩, rfl⟩
    cases h
    exact ⟨acc, bal, hacc, hbal, rfl⟩
  · rintro ⟨acc, bal, hacc, hbal, rfl⟩
    exact ⟨acc, hacc, _, ⟨bal, hbal, rfl⟩, rfl⟩

theorem addBalance_eq_ok : addBalance addr amount s = .ok u s' ↔ ∃ acc bal,
    s.accounts[addr]? = some acc ∧ acc.balance.val + amount.val = bal.val ∧
      s' = s.setAccount addr { acc with balance := bal } := by
  unfold addBalance Account.addBalance
  simp only [asks_bind_eq_ok, ofResult_bind_eq_ok, modify_eq_ok, getAccount_eq_ok,
    except_bind_eq_ok, Amount.add_eq_ok]
  constructor
  · rintro ⟨acc, hacc, _, ⟨bal, hbal, h⟩, rfl⟩
    cases h
    exact ⟨acc, bal, hacc, hbal, rfl⟩
  · rintro ⟨acc, bal, hacc, hbal, rfl⟩
    exact ⟨acc, hacc, _, ⟨bal, hbal, rfl⟩, rfl⟩

theorem incrementNonce_eq_ok : incrementNonce addr s = .ok u s' ↔ ∃ acc,
    s.accounts[addr]? = some acc ∧ s' = s.setAccount addr { acc with nonce := acc.nonce + 1 } := by
  unfold incrementNonce
  simp only [asks_bind_eq_ok, modify_eq_ok, getAccount_eq_ok, @eq_comm _ s']

omit [Crypto] in
theorem credit_eq_ok : credit addr amount s = .ok u s' ↔ ∃ bal,
    (s.accountOrNew addr).balance.val + amount.val = bal.val ∧
      s' = s.setAccount addr { s.accountOrNew addr with balance := bal } := by
  unfold credit Account.addBalance
  simp only [get_bind, ofResult_bind_eq_ok, modify_eq_ok, except_bind_eq_ok, Amount.add_eq_ok]
  constructor
  · rintro ⟨_, ⟨bal, hbal, h⟩, rfl⟩
    cases h
    exact ⟨bal, hbal, rfl⟩
  · rintro ⟨bal, hbal, rfl⟩
    exact ⟨_, ⟨bal, hbal, rfl⟩, rfl⟩

end InMemoryState

/-! ### Keys that stay -/

open InMemoryState

def SameOutside (texts : List Bytes) (s s' : InMemoryState) : Prop :=
  ∀ key, ¬ StartsWith texts key → s'.getBytes key = s.getBytes key

theorem sameOutside_setBytes (h : StartsWith texts key) (value : Bytes) (s : InMemoryState) :
    SameOutside texts s (s.setBytes key value) := by
  intro a ha
  refine getBytes_setBytes_of_ne ?_ value s
  rintro rfl
  exact ha h

theorem sameOutside_deleteBytes (h : StartsWith texts key) (s : InMemoryState) :
    SameOutside texts s (s.deleteBytes key) := by
  intro a ha
  refine getBytes_deleteBytes_of_ne ?_ s
  rintro rfl
  exact ha h

theorem SameOutside.mono {texts' : List Bytes} (h : texts ⊆ texts') {s s' : InMemoryState}
    (hs : SameOutside texts s s') : SameOutside texts' s s' :=
  fun key hk => hs key fun hk' => hk (hk'.mono h)

instance (texts : List Bytes) : Std.Refl (SameOutside texts) := ⟨fun _ _ _ => rfl⟩

instance (texts : List Bytes) : IsTrans InMemoryState (SameOutside texts) :=
  ⟨fun _ _ _ h h' key hk => (h' key hk).trans (h key hk)⟩

variable {texts : List Bytes}

theorem credit_keys (addr : Address) (amount : Amount) :
    Steps (SameOutside texts) (credit addr amount) := by
  refine Steps.of_atomic credit_atomic fun s _ s' hx => ?_
  obtain ⟨bal, -, rfl⟩ := credit_eq_ok.1 hx
  exact fun _ _ => rfl

theorem subBalance_keys [Crypto] (addr : Address) (amount : Amount) :
    Steps (SameOutside texts) (subBalance addr amount) := by
  refine Steps.of_atomic subBalance_atomic fun s _ s' hx => ?_
  obtain ⟨acc, bal, -, -, rfl⟩ := subBalance_eq_ok.1 hx
  exact fun _ _ => rfl

theorem incrementNonce_keys [Crypto] (addr : Address) :
    Steps (SameOutside texts) (incrementNonce addr) := by
  refine Steps.of_atomic incrementNonce_atomic fun s _ s' hx => ?_
  obtain ⟨acc, -, rfl⟩ := incrementNonce_eq_ok.1 hx
  exact fun _ _ => rfl

theorem setBytes_keys (h : StartsWith texts key) (value : Bytes) :
    Steps (SameOutside texts) (modify (setBytes key value) : Exec InMemoryState PUnit) :=
  Steps.modify fun s => sameOutside_setBytes h value s

end Dsn
