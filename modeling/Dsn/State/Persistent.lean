import Dsn.Go.Bolt
import Dsn.State.Memory

/-!
# `state`: the persistent state

The state over a database: opening, committing, and what a database holds (`Stored`).
-/

namespace Dsn

open Go

/-! ### Contents of a state -/

def emptyContents : StateSnapshot := ⟨∅, ∅⟩

def InMemoryState.contents (s : InMemoryState) : StateSnapshot := ⟨s.accounts, s.kvstore⟩

namespace StateSnapshot

def toMemory (c : StateSnapshot) : InMemoryState := ⟨c.accounts, c.kvstore, .empty, []⟩

def root [Crypto] (c : StateSnapshot) : Hash := c.toMemory.stateRoot

def overlay (c d : StateSnapshot) : StateSnapshot :=
  ⟨Map.insertAll c.accounts d.accounts.toList, Map.insertAll c.kvstore d.kvstore.toList⟩

structure KeysIn (c d : StateSnapshot) : Prop where
  accounts : ∀ addr ∈ c.accounts, addr ∈ d.accounts
  kvstore : ∀ key ∈ c.kvstore, key ∈ d.kvstore

theorem ext_iff_maps {c d : StateSnapshot} :
    c = d ↔ c.accounts = d.accounts ∧ c.kvstore = d.kvstore := by
  cases c
  cases d
  simp

theorem overlay_eq_iff {c d : StateSnapshot} : c.overlay d = d ↔ c.KeysIn d := by
  rw [ext_iff_maps]
  unfold overlay
  rw [Map.insertAll_toList_eq_iff, Map.insertAll_toList_eq_iff]
  exact ⟨fun h => ⟨h.1, h.2⟩, fun h => ⟨h.1, h.2⟩⟩

theorem keysIn_overlay {b c d : StateSnapshot} :
    (b.overlay c).KeysIn d ↔ b.KeysIn d ∧ c.KeysIn d := by
  constructor
  · rintro ⟨haccounts, hkvstore⟩
    exact ⟨⟨fun a ha => haccounts a (Map.mem_insertAll_toList.2 (.inl ha)),
        fun k hk => hkvstore k (Map.mem_insertAll_toList.2 (.inl hk))⟩,
      ⟨fun a ha => haccounts a (Map.mem_insertAll_toList.2 (.inr ha)),
        fun k hk => hkvstore k (Map.mem_insertAll_toList.2 (.inr hk))⟩⟩
  · rintro ⟨hb, hc⟩
    exact ⟨fun a ha => (Map.mem_insertAll_toList.1 ha).elim (hb.accounts a) (hc.accounts a),
      fun k hk => (Map.mem_insertAll_toList.1 hk).elim (hb.kvstore k) (hc.kvstore k)⟩

theorem keysIn_empty (d : StateSnapshot) : emptyContents.KeysIn d :=
  ⟨fun _ h => absurd h Std.ExtTreeMap.not_mem_empty,
    fun _ h => absurd h Std.ExtTreeMap.not_mem_empty⟩

end StateSnapshot

theorem root_emptyContents [Crypto] : emptyContents.root = zeroHash := rfl

variable {c : StateSnapshot}

theorem exists_root_contents [Crypto] (h : c ≠ emptyContents) : ∃ b, c.root = sha256 b := by
  have hfold {α : Type} (f : α → Bytes × Bytes) {l : List α} (hl : l ≠ []) (t : SMT) :
      ∃ b, (l.foldl (fun t e => t.insert (f e).1 (f e).2) t).root = sha256 b := by
    rw [← List.dropLast_append_getLast hl, List.foldl_append, List.foldl_cons, List.foldl_nil]
    exact SMT.exists_root_insert _ _ _
  have hempty {K V : Type} [Ord K] [Std.TransOrd K] [Std.LawfulEqOrd K] {m : Map K V}
      (hm : m.toList = []) : m = ∅ := by
    rw [← Map.insertAll_empty_toList m, hm]
    rfl
  by_cases hkv : c.kvstore.toList = []
  · have haccounts : c.accounts.toList ≠ [] := by
      intro hacc
      exact h (StateSnapshot.ext_iff_maps.2 ⟨hempty hacc, hempty hkv⟩)
    obtain ⟨b, hb⟩ := hfold (fun e : Address × Account => (e.1.bytes, e.2.encode)) haccounts .empty
    refine ⟨b, Eq.trans ?_ hb⟩
    unfold StateSnapshot.root InMemoryState.stateRoot InMemoryState.rebuildSMT
    rw [show c.toMemory.kvstore.toList = [] from hkv]
    rfl
  · exact hfold id hkv _

theorem InMemoryState.root_contents [Crypto] (s : InMemoryState) :
    s.contents.root = s.stateRoot := rfl

/-! ### The persistent state -/

def accountsBucket : Bytes := str "accounts"
def kvstoreBucket : Bytes := str "kvstore"
def metaBucket : Bytes := str "meta"
def stateRootKey : Bytes := str "state_root"

/-- The database, and what of it is in memory. -/
structure PersistentState where
  db : Bolt.DB
  cache : Map Address Account
  kvstore : Map Bytes Bytes
  root : Hash

def accountRecord (e : Address × Account) : Bytes × Bytes := (e.1.bytes, e.2.encode)

def loadAccount (cache : Map Address Account) (e : Bytes × Bytes) :
    Except Error (Map Address Account) := do
  let addr ← (addressFromBytes e.1).mapError (·.within s!"invalid account key {text (hex e.1)}")
  let acc ← (decodeFrom Account.decode e.2).mapError
    (·.within s!"corrupt account entry {text (hex e.1)}")
  return cache.insert addr acc

def loadAccounts : Exec Bolt.DB (Map Address Account) := do
  let b ← Bolt.bucket accountsBucket
  ofResult (b.toList.foldlM loadAccount ∅)

def loadKvstore : Exec Bolt.DB (Map Bytes Bytes) := do
  let b ← Bolt.bucket kvstoreBucket
  return Map.insertAll ∅ b.toList

def recoverRoot (b : Bolt.Bucket) : Hash :=
  match b[stateRootKey]? with
  | some root => FixedBytes.copy 32 root
  | none => zeroHash

def createBuckets : Exec Bolt.DB Unit := do
  Bolt.createBucketIfNotExists accountsBucket
  Bolt.createBucketIfNotExists kvstoreBucket
  Bolt.createBucketIfNotExists metaBucket

@[simp] theorem recoverRoot_insert (b : Bolt.Bucket) (root : Hash) :
    recoverRoot (b.insert stateRootKey root.bytes) = root := by
  unfold recoverRoot
  rw [Map.get_insert_self]
  exact FixedBytes.copy_bytes _

def newPersistentState : Exec Bolt.DB PersistentState := do
  wrapErr "failed to create buckets" (Bolt.update createBuckets)
  let b ← Bolt.bucket metaBucket
  let root := recoverRoot b
  if root ≠ zeroHash then do
    let cache ← wrapErr "failed to load accounts" loadAccounts
    let kvstore ← wrapErr "failed to load kvstore" loadKvstore
    let db ← get
    return { db, cache, kvstore, root }
  else do
    let db ← get
    return { db, cache := ∅, kvstore := ∅, root }

namespace PersistentState

def contents (s : PersistentState) : StateSnapshot := ⟨s.cache, s.kvstore⟩

def setAccount (addr : Address) (acc : Account) (s : PersistentState) : PersistentState :=
  { s with cache := s.cache.insert addr acc }

def deleteAccount (addr : Address) (s : PersistentState) : PersistentState :=
  { s with cache := s.cache.erase addr }

def setBytes (key value : Bytes) (s : PersistentState) : PersistentState :=
  { s with kvstore := s.kvstore.insert key value }

def deleteBytes (key : Bytes) (s : PersistentState) : PersistentState :=
  { s with kvstore := s.kvstore.erase key }

def updateDB {α : Type} (x : Exec Bolt.DB α) : Exec PersistentState α :=
  onPart PersistentState.db (fun db s => { s with db }) (Bolt.update x)

def buildSMT [Crypto] (s : PersistentState) : SMT :=
  let t := s.cache.toList.foldl (fun t e => t.insert e.1.bytes e.2.encode) SMT.empty
  s.kvstore.toList.foldl (fun t e => t.insert e.1 e.2) t

def writeAll (s : PersistentState) : Exec Bolt.DB Unit := do
  Bolt.putAll accountsBucket (s.cache.toList.map accountRecord)
  Bolt.putAll kvstoreBucket s.kvstore.toList
  Bolt.put metaBucket stateRootKey s.root.bytes

def commit [Crypto] : Exec PersistentState Hash := do
  modify fun s => { s with root := s.buildSMT.root }
  let s ← get
  updateDB s.writeAll
  return s.root

end PersistentState

/-! ### What a database holds -/

/-- The records of exactly these accounts. -/
structure StoresAccounts (b : Bolt.Bucket) (m : Map Address Account) : Prop where
  record (addr : Address) : b[addr.bytes]? = m[addr]?.map Account.encode
  key : ∀ key ∈ b, ∃ addr : Address, addr.bytes = key

structure Stored (db : Bolt.DB) (c : StateSnapshot) (root : Hash) : Prop where
  accounts : ∃ b, db[accountsBucket]? = some b ∧ StoresAccounts b c.accounts
  kvstore : db[kvstoreBucket]? = some c.kvstore
  root : ∃ b, db[metaBucket]? = some b ∧ recoverRoot b = root

structure Opened (db : Bolt.DB) : Prop where
  accounts : accountsBucket ∈ db
  kvstore : kvstoreBucket ∈ db
  info : metaBucket ∈ db

variable {db : Bolt.DB} {root : Hash}

theorem Stored.isOpened (h : Stored db c root) : Opened db := by
  obtain ⟨a, ha, -⟩ := h.accounts
  obtain ⟨m, hm, -⟩ := h.root
  exact ⟨Map.mem_of_get ha, Map.mem_of_get h.kvstore, Map.mem_of_get hm⟩

theorem Opened.insert (h : Opened db) (name : Bytes) (b : Bolt.Bucket) :
    Opened (db.insert name b) :=
  ⟨Std.ExtTreeMap.mem_insert.2 (.inr h.accounts), Std.ExtTreeMap.mem_insert.2 (.inr h.kvstore),
    Std.ExtTreeMap.mem_insert.2 (.inr h.info)⟩

theorem Stored.congr {db' : Bolt.DB} (h : Stored db c root)
    (hsame : ∀ name ∈ [accountsBucket, kvstoreBucket, metaBucket], db'[name]? = db[name]?) :
    Stored db' c root := by
  obtain ⟨hsameA, hsameK, hsameM⟩ : db'[accountsBucket]? = db[accountsBucket]? ∧
      db'[kvstoreBucket]? = db[kvstoreBucket]? ∧ db'[metaBucket]? = db[metaBucket]? := by
    simpa using hsame
  obtain ⟨a, ha, haccounts⟩ := h.accounts
  obtain ⟨m, hm, hroot⟩ := h.root
  exact ⟨⟨a, hsameA.trans ha, haccounts⟩, hsameK.trans h.kvstore, m, hsameM.trans hm, hroot⟩

theorem Stored.putIn {name key value : Bytes}
    (h : Stored db c root) (hname : name ∉ [accountsBucket, kvstoreBucket, metaBucket]) :
    Stored (Bolt.putIn name key value db) c root :=
  h.congr fun _ hmem => Bolt.get_putIn_of_ne fun heq => hname (heq ▸ hmem)

def loaded (c : StateSnapshot) (root : Hash) : StateSnapshot :=
  if root = zeroHash then emptyContents else c

theorem accountRecord_injective : Function.Injective accountRecord := by
  rintro ⟨addr, acc⟩ ⟨addr', acc'⟩ h
  obtain ⟨haddr, hacc⟩ := Prod.mk.inj h
  cases FixedBytes.ext haddr
  cases Account.encode_injective hacc
  rfl

theorem loadAccount_accountRecord (cache : Map Address Account) (e : Address × Account) :
    loadAccount cache (accountRecord e) = .ok (cache.insert e.1 e.2) := by
  unfold loadAccount accountRecord
  rw [addressFromBytes_bytes, decodeFrom_of_reads e.2.decode_encode]
  rfl

theorem foldlM_loadAccount (l : List (Address × Account)) (cache : Map Address Account) :
    (l.map accountRecord).foldlM loadAccount cache = .ok (Map.insertAll cache l) := by
  induction l generalizing cache with
  | nil => rfl
  | cons e l ih =>
    rw [List.map_cons, List.foldlM_cons, loadAccount_accountRecord]
    exact ih _

theorem storesAccounts_empty : StoresAccounts ∅ ∅ := by
  refine ⟨fun addr => ?_, fun key hkey => ?_⟩
  · rfl
  · exact absurd hkey Std.ExtTreeMap.not_mem_empty

namespace StoresAccounts

variable {b : Bolt.Bucket} {m : Map Address Account}

section

variable (h : StoresAccounts b m)
include h

theorem insert (addr : Address) (acc : Account) :
    StoresAccounts (b.insert addr.bytes acc.encode) (m.insert addr acc) := by
  refine ⟨fun a => ?_, fun key hkey => ?_⟩
  · rw [Map.get_insert, Map.get_insert]
    by_cases ha : addr = a
    · rw [if_pos ha, if_pos (congrArg FixedBytes.bytes ha), Option.map_some]
    · rw [if_neg ha, if_neg fun hb => ha (FixedBytes.ext hb), h.record]
  · rcases Std.ExtTreeMap.mem_insert.1 hkey with hkey | hkey
    · exact ⟨addr, Std.LawfulEqOrd.eq_of_compare hkey⟩
    · exact h.key key hkey

theorem insertAll (l : List (Address × Account)) :
    StoresAccounts (Map.insertAll b (l.map accountRecord)) (Map.insertAll m l) := by
  induction l generalizing b m with
  | nil => exact h
  | cons e l ih => exact ih (h.insert e.1 e.2)

theorem mem_toList (e : Address × Account) : accountRecord e ∈ b.toList ↔ m[e.1]? = some e.2 := by
  refine Std.ExtTreeMap.mem_toList_iff_getElem?_eq_some.trans ?_
  rw [h.record]
  constructor
  · intro hrec
    obtain ⟨acc, hacc, henc⟩ := Option.map_eq_some_iff.1 hrec
    rwa [Account.encode_injective henc] at hacc
  · intro hacc
    rw [hacc, Option.map_some]

theorem exists_toList : ∃ l : List (Address × Account), l.map accountRecord = b.toList := by
  have hrange : ∀ x ∈ b.toList, x ∈ Set.range accountRecord := by
    rintro ⟨key, value⟩ hx
    have hget := Std.ExtTreeMap.mem_toList_iff_getElem?_eq_some.1 hx
    obtain ⟨addr, rfl⟩ := h.key key
      (Map.mem_of_get hget)
    rw [h.record] at hget
    obtain ⟨acc, -, rfl⟩ := Option.map_eq_some_iff.1 hget
    exact ⟨(addr, acc), rfl⟩
  have hmem : b.toList ∈ Set.range (List.map accountRecord) := by
    rw [Set.range_list_map]
    exact hrange
  exact hmem

end

theorem of_cache (m : Map Address Account) :
    StoresAccounts (Map.insertAll ∅ (m.toList.map accountRecord)) m := by
  have h := storesAccounts_empty.insertAll m.toList
  rwa [Map.insertAll_empty_toList] at h

theorem load (h : StoresAccounts b m) : b.toList.foldlM loadAccount ∅ = .ok m := by
  obtain ⟨l, hl⟩ := h.exists_toList
  have hmem (e : Address × Account) : e ∈ l ↔ m[e.1]? = some e.2 := by
    rw [← h.mem_toList, ← hl, List.mem_map_of_injective accountRecord_injective]
  have hnodup : (l.map Prod.fst).Nodup := by
    have hkeys := Map.nodup_keys b
    rw [← hl, List.map_map] at hkeys
    refine List.Nodup.of_map FixedBytes.bytes ?_
    rwa [List.map_map]
  rw [← hl, foldlM_loadAccount]
  refine congrArg Except.ok (Std.ExtTreeMap.ext_getElem? fun addr => ?_)
  cases hacc : m[addr]? with
  | some acc => exact Map.get_insertAll_of_mem hnodup ((hmem (addr, acc)).2 hacc) ∅
  | none =>
    rw [Map.get_insertAll_of_notMem, Std.ExtTreeMap.getElem?_empty]
    rintro e he rfl
    rw [(hmem e).1 he] at hacc
    cases hacc

end StoresAccounts

/-! ### Opening and committing -/

section

variable {db : Bolt.DB} {c : StateSnapshot} {root : Hash}

theorem loadAccounts_of_stored (h : Stored db c root) : loadAccounts db = .ok c.accounts db := by
  obtain ⟨b, hb, haccounts⟩ := h.accounts
  unfold loadAccounts
  rw [bind_eq_ok_of (Bolt.bucket_run hb), haccounts.load]
  rfl

theorem loadKvstore_of_stored (h : Stored db c root) : loadKvstore db = .ok c.kvstore db := by
  unfold loadKvstore
  rw [bind_eq_ok_of (Bolt.bucket_run h.kvstore), Map.insertAll_empty_toList]
  rfl

theorem accountsBucket_ne_kvstoreBucket : accountsBucket ≠ kvstoreBucket := by decide

theorem accountsBucket_ne_metaBucket : accountsBucket ≠ metaBucket := by decide

theorem kvstoreBucket_ne_metaBucket : kvstoreBucket ≠ metaBucket := by decide

def setBuckets (db : Bolt.DB) (accounts kvstore info : Bolt.Bucket) : Bolt.DB :=
  ((db.insert accountsBucket accounts).insert kvstoreBucket kvstore).insert metaBucket info

section SetBuckets

variable (db : Bolt.DB) (accounts kvstore info : Bolt.Bucket)

@[simp] theorem setBuckets_accounts :
    (setBuckets db accounts kvstore info)[accountsBucket]? = some accounts := by
  unfold setBuckets
  rw [Map.get_insert_of_ne _ accountsBucket_ne_metaBucket.symm,
    Map.get_insert_of_ne _ accountsBucket_ne_kvstoreBucket.symm, Map.get_insert_self]

@[simp] theorem setBuckets_kvstore :
    (setBuckets db accounts kvstore info)[kvstoreBucket]? = some kvstore := by
  unfold setBuckets
  rw [Map.get_insert_of_ne _ kvstoreBucket_ne_metaBucket.symm, Map.get_insert_self]

@[simp] theorem setBuckets_meta :
    (setBuckets db accounts kvstore info)[metaBucket]? = some info :=
  Map.get_insert_self _ _ _

theorem setBuckets_other {name : Bytes} (h : name ∉ [accountsBucket, kvstoreBucket, metaBucket]) :
    (setBuckets db accounts kvstore info)[name]? = db[name]? := by
  simp only [List.mem_cons, List.not_mem_nil, or_false, not_or] at h
  unfold setBuckets
  rw [Map.get_insert_of_ne _ (Ne.symm h.2.2), Map.get_insert_of_ne _ (Ne.symm h.2.1),
    Map.get_insert_of_ne _ (Ne.symm h.1)]

end SetBuckets

def opened (db : Bolt.DB) : Bolt.DB :=
  setBuckets db (db[accountsBucket]?.getD ∅) (db[kvstoreBucket]?.getD ∅) (db[metaBucket]?.getD ∅)

theorem isOpened_opened (db : Bolt.DB) : Opened (opened db) :=
  ⟨Map.mem_of_get (setBuckets_accounts _ _ _ _), Map.mem_of_get (setBuckets_kvstore _ _ _ _),
    Map.mem_of_get (setBuckets_meta _ _ _ _)⟩

theorem createBuckets_run (db : Bolt.DB) : createBuckets db = .ok () (opened db) := by
  unfold createBuckets
  rw [bind_eq_ok_of (Bolt.createBucketIfNotExists_run _ _),
    bind_eq_ok_of (Bolt.createBucketIfNotExists_run _ _), Bolt.createBucketIfNotExists_run,
    Map.get_insert_of_ne _ kvstoreBucket_ne_metaBucket,
    Map.get_insert_of_ne _ accountsBucket_ne_metaBucket,
    Map.get_insert_of_ne _ accountsBucket_ne_kvstoreBucket]
  rfl

theorem Stored.opened_eq (h : Stored db c root) : opened db = db := by
  obtain ⟨b, hb, -⟩ := h.accounts
  obtain ⟨b', hb', -⟩ := h.root
  unfold opened setBuckets
  rw [hb, h.kvstore, hb', Option.getD_some, Option.getD_some, Option.getD_some,
    Map.insert_of_get hb, Map.insert_of_get h.kvstore, Map.insert_of_get hb']

theorem stored_opened_empty : Stored (opened ∅) emptyContents zeroHash := by
  unfold opened
  exact ⟨⟨∅, setBuckets_accounts _ _ _ _, storesAccounts_empty⟩, setBuckets_kvstore _ _ _ _,
    ∅, setBuckets_meta _ _ _ _, rfl⟩

theorem newPersistentState_of_stored (h : Stored (opened db) c root) : newPersistentState db =
    .ok ⟨opened db, (loaded c root).accounts, (loaded c root).kvstore, root⟩ (opened db) := by
  obtain ⟨b, hb, hroot⟩ := h.root
  have hcreate : wrapErr "failed to create buckets" (Bolt.update createBuckets) db =
      .ok () (opened db) := wrapErr_eq_ok.2 (Bolt.update_eq_ok.2 (createBuckets_run db))
  unfold newPersistentState loaded
  rw [bind_eq_ok_of hcreate, bind_eq_ok_of (Bolt.bucket_run hb), hroot]
  by_cases hzero : root = zeroHash
  · simp only [hzero, ne_eq, if_true]
    rfl
  · simp only [hzero, ne_eq, not_false_eq_true, if_true]
    rw [wrapErr_bind (loadAccounts_of_stored h), wrapErr_bind (loadKvstore_of_stored h)]
    rfl

theorem Stored.reopen (h : Stored db c root) : newPersistentState db =
    .ok ⟨db, (loaded c root).accounts, (loaded c root).kvstore, root⟩ db := by
  have hopened := h.opened_eq
  have hnew := newPersistentState_of_stored (hopened.symm ▸ h)
  rwa [hopened] at hnew

end

namespace PersistentState

def Storable (s : PersistentState) : Prop := ∀ e ∈ s.kvstore.toList, Bolt.Storable e.1 e.2

theorem storable_accountRecord (e : Address × Account) :
    Bolt.Storable (accountRecord e).1 (accountRecord e).2 := by
  have hkey : (accountRecord e).1.length = 20 := e.1.length_eq
  have hvalue : (accountRecord e).2.length = 144 := e.2.length_encode
  refine ⟨?_, ?_, ?_⟩
  · intro h
    rw [h] at hkey
    cases hkey
  · rw [hkey]
    decide
  · rw [hvalue]
    decide

theorem storable_stateRoot (root : Hash) : Bolt.Storable stateRootKey root.bytes := by
  refine ⟨by decide, by decide, ?_⟩
  rw [root.length_eq]
  decide

variable {s : PersistentState}

theorem writeAll_eq_ok {db' : Bolt.DB} {a k m : Bolt.Bucket} {u : Unit}
    (ha : db[accountsBucket]? = some a) (hk : db[kvstoreBucket]? = some k)
    (hm : db[metaBucket]? = some m) : s.writeAll db = .ok u db' ↔ s.Storable ∧
      db' = setBuckets db (Map.insertAll a (s.cache.toList.map accountRecord))
        (Map.insertAll k s.kvstore.toList) (m.insert stateRootKey s.root.bytes) := by
  have hrecords : ∀ e ∈ s.cache.toList.map accountRecord, Bolt.Storable e.1 e.2 := by
    intro e he
    obtain ⟨e, -, rfl⟩ := List.mem_map.1 he
    exact storable_accountRecord e
  set db1 := db.insert accountsBucket (Map.insertAll a (s.cache.toList.map accountRecord))
  set db2 := db1.insert kvstoreBucket (Map.insertAll k s.kvstore.toList)
  have hk1 : db1[kvstoreBucket]? = some k := by
    rw [Map.get_insert_of_ne _ accountsBucket_ne_kvstoreBucket, hk]
  have hm2 : db2[metaBucket]? = some m := by
    rw [Map.get_insert_of_ne _ kvstoreBucket_ne_metaBucket,
      Map.get_insert_of_ne _ accountsBucket_ne_metaBucket, hm]
  have haccounts := (Bolt.putAll_eq_ok (u := ()) ha).2 ⟨hrecords, rfl⟩
  unfold writeAll
  rw [bind_eq_ok_of haccounts]
  constructor
  · intro h
    obtain ⟨_, _, hkv, hput⟩ := bind_eq_ok.1 h
    obtain ⟨hst, rfl⟩ := (Bolt.putAll_eq_ok hk1).1 hkv
    obtain ⟨m', hm', -, rfl⟩ := Bolt.put_eq_ok.1 hput
    obtain rfl := Option.some.inj (hm2.symm.trans hm')
    exact ⟨hst, rfl⟩
  · rintro ⟨hst, rfl⟩
    rw [bind_eq_ok_of ((Bolt.putAll_eq_ok (u := ()) hk1).2 ⟨hst, rfl⟩)]
    exact Bolt.put_run hm2 (storable_stateRoot s.root)

variable {α : Type}

variable {x : Exec Bolt.DB α}

theorem updateDB_eq_ok {a : α} {s' : PersistentState} :
    updateDB x s = .ok a s' ↔ ∃ db, x s.db = .ok a db ∧ s' = { s with db } := by
  unfold updateDB
  simp only [onPart_eq_ok, Bolt.update_eq_ok]

theorem updateDB_atomic (x : Exec Bolt.DB α) : Atomic (updateDB x) := by
  intro s e s' h
  obtain ⟨db, hdb, rfl⟩ := onPart_eq_error.1 h
  rw [Bolt.update_atomic x s.db e db hdb]

variable [Crypto] {s s' : PersistentState} {c : StateSnapshot} {root root' : Hash}

theorem commit_eq_ok : commit s = .ok root s' ↔ root = s.contents.root ∧
    ∃ db, writeAll { s with root } s.db = .ok () db ∧ s' = { s with root, db } := by
  unfold commit
  rw [modify_bind, get_bind]
  simp only [bind_eq_ok, updateDB_eq_ok, pure_eq_ok]
  constructor
  · rintro ⟨_, _, ⟨db, hw, rfl⟩, rfl, rfl⟩
    exact ⟨rfl, db, hw, rfl⟩
  · rintro ⟨rfl, db, hw, rfl⟩
    exact ⟨(), _, ⟨db, hw, rfl⟩, rfl, rfl⟩

theorem commit_contents (h : commit s = .ok root s') :
    root = s.contents.root ∧ s'.contents = s.contents ∧ s'.root = root := by
  obtain ⟨hroot, db, -, rfl⟩ := commit_eq_ok.1 h
  exact ⟨hroot, rfl, rfl⟩

structure Commits (s : PersistentState) (c : StateSnapshot) (s' : PersistentState) : Prop where
  storable : s.Storable
  contents : s'.contents = s.contents
  root : s'.root = s.contents.root
  stored : Stored s'.db (c.overlay s.contents) s.contents.root
  other : ∀ name ∉ [accountsBucket, kvstoreBucket, metaBucket], s'.db[name]? = s.db[name]?

theorem commits_of_commit (h : Stored s.db c root') (hc : commit s = .ok root s') :
    Commits s c s' := by
  obtain ⟨a, ha, haccounts⟩ := h.accounts
  obtain ⟨m, hm, -⟩ := h.root
  obtain ⟨rfl, db, hw, rfl⟩ := commit_eq_ok.1 hc
  obtain ⟨hst, rfl⟩ := (writeAll_eq_ok ha h.kvstore hm).1 hw
  exact ⟨hst, rfl, rfl, ⟨⟨_, setBuckets_accounts _ _ _ _, haccounts.insertAll _⟩,
    setBuckets_kvstore _ _ _ _, _, setBuckets_meta _ _ _ _, recoverRoot_insert _ _⟩,
    fun name hname => setBuckets_other _ _ _ _ hname⟩

theorem commit_run (h : Opened s.db) (hst : s.Storable) :
    ∃ s', commit s = .ok s.contents.root s' := by
  obtain ⟨a, ha⟩ := Map.exists_get_of_mem h.accounts
  obtain ⟨k, hk⟩ := Map.exists_get_of_mem h.kvstore
  obtain ⟨m, hm⟩ := Map.exists_get_of_mem h.info
  have hw := (writeAll_eq_ok (s := { s with root := s.contents.root }) (u := ()) ha hk hm).2
    ⟨hst, rfl⟩
  exact ⟨_, commit_eq_ok.2 ⟨rfl, _, hw, rfl⟩⟩

end PersistentState

end Dsn
