import Dsn.State.SnapshotFile

/-!
# `state`: restoring a snapshot

A restore replaces the maps before it compares the root, and rewrites the database after that.
-/

namespace Dsn

open Go

def restoreAccount [Crypto] (entry : AccountEntry) : Exec PersistentState Unit := do
  let acc ← wrapErr s!"restore: decode account {addressString entry.address}"
    (ofResult (decodeFrom Account.decode entry.data))
  modify (PersistentState.setAccount entry.address acc)

def PersistentState.rewriteAll (ps : PersistentState) (stateRoot : Hash) : Exec Bolt.DB Unit := do
  wrapErr "restore: delete accounts bucket" (Bolt.deleteBucket accountsBucket)
  wrapErr "restore: create accounts bucket" (Bolt.createBucket accountsBucket)
  wrapErr "restore: write account"
    (Bolt.putAll accountsBucket (ps.cache.toList.map accountRecord))
  wrapErr "restore: delete kvstore bucket" (Bolt.deleteBucket kvstoreBucket)
  wrapErr "restore: create kvstore bucket" (Bolt.createBucket kvstoreBucket)
  wrapErr "restore: write kvstore" (Bolt.putAll kvstoreBucket ps.kvstore.toList)
  wrapErr "restore: write state root" (Bolt.put metaBucket stateRootKey stateRoot.bytes)

def checkSnapshot [Crypto] (snapData : Bytes) (expectedHash : Hash) : Except Error Snapshot := do
  let hash := sha256 snapData
  check (expectedHash ≠ zeroHash ∧ hash ≠ expectedHash)
    (.new s!"restore: snapshot hash mismatch: got {hexText hash}, expected {hexText expectedHash}")
  let snap ← (deserializeSnapshot maxAlloc snapData).mapError (·.within "restore: deserialize snapshot")
  check (snap.stateRoot = zeroHash) (.new "restore: zero state root in snapshot (genesis only)")
  return snap

def loadSnapshot [Crypto] (snap : Snapshot) : Exec PersistentState Unit := do
  modify fun ps => { ps with cache := ∅, kvstore := ∅ }
  snap.accounts.forM restoreAccount
  modify fun ps => { ps with
    kvstore := Map.insertAll ps.kvstore (snap.kvStore.map fun e => (e.key, e.value)) }

def restoreFromSnapshot [Crypto] (snapData : Bytes) (expectedHash : Hash) :
    Exec PersistentState Unit := do
  let snap ← ofResult (checkSnapshot snapData expectedHash)
  loadSnapshot snap
  let ps ← get
  let root := ps.buildSMT.root
  failIf (root ≠ snap.stateRoot)
    (.new s!"restore: state root mismatch: got {hexText root}, expected {hexText snap.stateRoot}")
  wrapErr "restore: persist to bolt" (PersistentState.updateDB (ps.rewriteAll snap.stateRoot))
  modify fun ps => { ps with root := snap.stateRoot }

/-! ### Rewriting the database -/

section Rewrite

variable {ps : PersistentState} {db : Bolt.DB} {stateRoot : Hash}

theorem rewriteAll_run (h : Opened db) (hst : ps.Storable) (stateRoot : Hash) :
    ∃ db', ps.rewriteAll stateRoot db = .ok () db' ∧ Stored db' ps.contents stateRoot ∧
      ∀ name ∉ [accountsBucket, kvstoreBucket, metaBucket], db'[name]? = db[name]? := by
  obtain ⟨m, hm⟩ := Map.exists_get_of_mem h.info
  have hrecords : ∀ e ∈ ps.cache.toList.map accountRecord, Bolt.Storable e.1 e.2 := by
    intro e he
    obtain ⟨e, -, rfl⟩ := List.mem_map.1 he
    exact PersistentState.storable_accountRecord e
  have hdeleteA : Bolt.deleteBucket accountsBucket db = .ok () (db.erase accountsBucket) :=
    Bolt.deleteBucket_eq_ok.2 ⟨h.accounts, rfl⟩
  have hputA := (Bolt.putAll_eq_ok (u := ()) (Map.get_insert_self db accountsBucket ∅)).2
    ⟨hrecords, rfl⟩
  rw [Map.insert_insert] at hputA
  set a := Map.insertAll ∅ (ps.cache.toList.map accountRecord)
  set db1 := db.insert accountsBucket a
  have hk1 : kvstoreBucket ∈ db1 := Std.ExtTreeMap.mem_insert.2 (.inr h.kvstore)
  have hdeleteK : Bolt.deleteBucket kvstoreBucket db1 = .ok () (db1.erase kvstoreBucket) :=
    Bolt.deleteBucket_eq_ok.2 ⟨hk1, rfl⟩
  have hputK := (Bolt.putAll_eq_ok (u := ()) (Map.get_insert_self db1 kvstoreBucket ∅)).2
    ⟨hst, rfl⟩
  rw [Map.insert_insert, Map.insertAll_empty_toList] at hputK
  set db2 := db1.insert kvstoreBucket ps.kvstore
  have hm2 : db2[metaBucket]? = some m := by
    rw [Map.get_insert_of_ne _ kvstoreBucket_ne_metaBucket,
      Map.get_insert_of_ne _ accountsBucket_ne_metaBucket, hm]
  have hroot := Bolt.put_run hm2 (PersistentState.storable_stateRoot stateRoot)
  refine ⟨setBuckets db a ps.kvstore (m.insert stateRootKey stateRoot.bytes), ?_,
    ⟨⟨a, setBuckets_accounts _ _ _ _, .of_cache ps.cache⟩, setBuckets_kvstore _ _ _ _, _,
      setBuckets_meta _ _ _ _, recoverRoot_insert m stateRoot⟩,
    fun name hname => setBuckets_other _ _ _ _ hname⟩
  unfold PersistentState.rewriteAll
  rw [wrapErr_bind hdeleteA, wrapErr_bind (Bolt.createBucket_erase_run _ db), wrapErr_bind hputA,
    wrapErr_bind hdeleteK, wrapErr_bind (Bolt.createBucket_erase_run _ db1), wrapErr_bind hputK]
  exact wrapErr_eq_ok.2 hroot

theorem steps_rewriteAll {name : Bytes} (h : name ∉ [accountsBucket, kvstoreBucket, metaBucket]) :
    Steps (Bolt.SameBucket name) (ps.rewriteAll stateRoot) := by
  simp only [List.mem_cons, List.not_mem_nil, or_false, not_or] at h
  have ha : accountsBucket ≠ name := Ne.symm h.1
  have hk : kvstoreBucket ≠ name := Ne.symm h.2.1
  have hm : metaBucket ≠ name := Ne.symm h.2.2
  refine .bind (.wrapErr _ (Bolt.steps_deleteBucket ha)) fun _ => ?_
  refine .bind (.wrapErr _ (Bolt.steps_createBucket ha)) fun _ => ?_
  refine .bind (.wrapErr _ (Bolt.steps_putAll ha _)) fun _ => ?_
  refine .bind (.wrapErr _ (Bolt.steps_deleteBucket hk)) fun _ => ?_
  refine .bind (.wrapErr _ (Bolt.steps_createBucket hk)) fun _ => ?_
  refine .bind (.wrapErr _ (Bolt.steps_putAll hk _)) fun _ => ?_
  exact .wrapErr _ (Bolt.steps_put hm _ _)

end Rewrite

/-! ### Loading a snapshot -/

def decodedAccounts : List AccountEntry → List (Address × Account)
  | [] => []
  | e :: l => match decodeFrom Account.decode e.data with
    | .ok acc => (e.address, acc) :: decodedAccounts l
    | .error _ => []

def Snapshot.loadedContents (snap : Snapshot) : StateSnapshot where
  accounts := Map.insertAll ∅ (decodedAccounts snap.accounts)
  kvstore :=
    if ∀ e ∈ snap.accounts, (decodeFrom Account.decode e.data).isOk then
      Map.insertAll ∅ (snap.kvStore.map fun e => (e.key, e.value))
    else ∅

section Load

variable [Crypto] {snap : Snapshot} {ps : PersistentState}

variable {entry : AccountEntry}

theorem restoreAccount_of_ok {acc : Account}
    (h : decodeFrom Account.decode entry.data = .ok acc) (ps : PersistentState) :
    restoreAccount entry ps = .ok () (ps.setAccount entry.address acc) := by
  unfold restoreAccount
  rw [h]
  rfl

theorem restoreAccount_of_error {e : Error}
    (h : decodeFrom Account.decode entry.data = .error e) (ps : PersistentState) :
    ∃ e', restoreAccount entry ps = .error e' ps := by
  unfold restoreAccount
  rw [h]
  exact ⟨_, bind_eq_error_of (wrapErr_of_error rfl)⟩

theorem finalState_restoreAccounts (l : List AccountEntry) (ps : PersistentState) :
    finalState (l.forM restoreAccount ps) =
      { ps with cache := Map.insertAll ps.cache (decodedAccounts l) } := by
  induction l generalizing ps with
  | nil => rfl
  | cons entry l ih =>
    rw [decodedAccounts]
    cases h : decodeFrom Account.decode entry.data with
    | ok acc =>
      have hstep := bind_eq_ok_of (f := fun _ => l.forM restoreAccount) (restoreAccount_of_ok h ps)
      exact (congrArg finalState hstep).trans (ih _)
    | error e =>
      obtain ⟨e', he⟩ := restoreAccount_of_error h ps
      exact congrArg finalState (bind_eq_error_of (f := fun _ => l.forM restoreAccount) he)

theorem restoreAccounts_ok_iff (l : List AccountEntry) (ps : PersistentState) :
    (∃ ps', l.forM restoreAccount ps = .ok () ps') ↔
      ∀ e ∈ l, (decodeFrom Account.decode e.data).isOk := by
  induction l generalizing ps with
  | nil => exact ⟨fun _ _ he => absurd he List.not_mem_nil, fun _ => ⟨ps, rfl⟩⟩
  | cons entry l ih =>
    rw [List.forall_mem_cons]
    cases h : decodeFrom Account.decode entry.data with
    | ok acc =>
      have hstep := bind_eq_ok_of (f := fun _ => l.forM restoreAccount) (restoreAccount_of_ok h ps)
      refine Iff.trans ?_ ((ih (ps.setAccount entry.address acc)).trans ?_)
      · exact exists_congr fun ps' => by rw [← hstep]; rfl
      · exact ⟨fun hl => ⟨rfl, hl⟩, fun hl => hl.2⟩
    | error e =>
      obtain ⟨e', he⟩ := restoreAccount_of_error h ps
      have hstep := bind_eq_error_of (f := fun _ => l.forM restoreAccount) he
      constructor
      · rintro ⟨ps', hps⟩
        cases hstep.symm.trans hps
      · rintro ⟨hok, -⟩
        cases hok

theorem finalState_loadSnapshot (snap : Snapshot) (ps : PersistentState) :
    finalState (loadSnapshot snap ps) =
      { ps with
        cache := snap.loadedContents.accounts
        kvstore := snap.loadedContents.kvstore } := by
  set ps0 : PersistentState := { ps with cache := ∅, kvstore := ∅ }
  have hfinal := finalState_restoreAccounts snap.accounts ps0
  have hiff := restoreAccounts_ok_iff snap.accounts ps0
  unfold loadSnapshot Snapshot.loadedContents
  rw [modify_bind]
  cases hloop : snap.accounts.forM restoreAccount ps0 with
  | ok u ps1 =>
    rw [hloop] at hfinal
    rw [bind_eq_ok_of hloop, if_pos (hiff.1 ⟨ps1, hloop⟩)]
    obtain rfl : ps1 = _ := hfinal
    rfl
  | error e ps1 =>
    have hnot : ¬ ∀ e ∈ snap.accounts, (decodeFrom Account.decode e.data).isOk := by
      intro hall
      obtain ⟨ps', hps⟩ := hiff.2 hall
      cases hloop.symm.trans hps
    rw [hloop] at hfinal
    rw [bind_eq_error_of hloop, if_neg hnot]
    exact hfinal

theorem loadSnapshot_run (h : ∀ e ∈ snap.accounts, (decodeFrom Account.decode e.data).isOk)
    (ps : PersistentState) : loadSnapshot snap ps = .ok () { ps with
      cache := snap.loadedContents.accounts, kvstore := snap.loadedContents.kvstore } := by
  have hfinal := finalState_loadSnapshot snap ps
  obtain ⟨ps1, hloop⟩ := (restoreAccounts_ok_iff snap.accounts
    { ps with cache := ∅, kvstore := ∅ }).2 h
  unfold loadSnapshot at hfinal ⊢
  rw [modify_bind, bind_eq_ok_of hloop] at hfinal ⊢
  rw [← hfinal]
  rfl

end Load

/-! ### Failed restores -/

section Failure

variable [Crypto] {ps ps' : PersistentState} {snapData : Bytes} {expectedHash : Hash} {e : Error}

theorem checkSnapshot_eq_ok {snap : Snapshot} : checkSnapshot snapData expectedHash = .ok snap ↔
    (expectedHash = zeroHash ∨ sha256 snapData = expectedHash) ∧
      deserializeSnapshot maxAlloc snapData = .ok snap ∧ snap.stateRoot ≠ zeroHash := by
  unfold checkSnapshot
  simp only [except_bind_eq_ok, mapError_eq_ok, check_eq_ok, exists_const]
  have hhash : ¬ (expectedHash ≠ zeroHash ∧ sha256 snapData ≠ expectedHash) ↔
      expectedHash = zeroHash ∨ sha256 snapData = expectedHash := by tauto
  rw [hhash]
  refine and_congr_right fun _ => ?_
  constructor
  · rintro ⟨snap', hsnap, hzero, hret⟩
    cases hret
    exact ⟨hsnap, hzero⟩
  · rintro ⟨hsnap, hzero⟩
    exact ⟨snap, hsnap, hzero, rfl⟩

theorem restore_error (h : restoreFromSnapshot snapData expectedHash ps = .error e ps') :
    checkSnapshot snapData expectedHash = .error e ∧ ps' = ps ∨
    ∃ snap, checkSnapshot snapData expectedHash = .ok snap ∧
      ps' = finalState (loadSnapshot snap ps) := by
  unfold restoreFromSnapshot at h
  cases hcheck : checkSnapshot snapData expectedHash with
  | error e0 =>
    rw [hcheck] at h
    cases h
    exact .inl ⟨rfl, rfl⟩
  | ok snap =>
    refine .inr ⟨snap, rfl, ?_⟩
    rw [hcheck, ofResult_bind rfl] at h
    rcases bind_eq_error.1 h with hload | ⟨_, ps1, hload, h⟩
    · rw [hload]
      rfl
    · rw [hload]
      rcases failIf_bind_eq_error h with rfl | ⟨-, h⟩
      · rfl
      · rcases bind_eq_error.1 h with hupdate | ⟨_, _, -, h⟩
        · exact (PersistentState.updateDB_atomic _).wrapErr _ _ _ _ hupdate
        · cases h

/-- When a restore that fails changes nothing. -/
theorem restore_error_unchanged_iff
    (h : restoreFromSnapshot snapData expectedHash ps = .error e ps') : ps' = ps ↔
      (∃ e', checkSnapshot snapData expectedHash = .error e') ∨
      ∃ snap, deserializeSnapshot maxAlloc snapData = .ok snap ∧ snap.loadedContents = ps.contents := by
  rcases restore_error h with ⟨hcheck, rfl⟩ | ⟨snap, hcheck, rfl⟩
  · exact ⟨fun _ => .inl ⟨e, hcheck⟩, fun _ => rfl⟩
  · obtain ⟨-, hsnap, -⟩ := checkSnapshot_eq_ok.1 hcheck
    rw [finalState_loadSnapshot]
    constructor
    · intro heq
      exact .inr ⟨snap, hsnap, congrArg PersistentState.contents heq⟩
    · rintro (⟨e', he'⟩ | ⟨snap', hsnap', hcontents⟩)
      · cases hcheck.symm.trans he'
      · cases hsnap.symm.trans hsnap'
        rw [hcontents]
        rfl

end Failure

structure Restores [Crypto] (snapData : Bytes) (expectedHash : Hash) (snap : Snapshot)
    (ps ps' : PersistentState) : Prop where
  checked : checkSnapshot snapData expectedHash = .ok snap
  decodes : ∀ e ∈ snap.accounts, (decodeFrom Account.decode e.data).isOk
  root_eq : snap.loadedContents.root = snap.stateRoot
  contents : ps'.contents = snap.loadedContents
  root : ps'.root = snap.stateRoot
  other : ∀ name ∉ [accountsBucket, kvstoreBucket, metaBucket], ps'.db[name]? = ps.db[name]?

theorem restores_of_restore [Crypto] {ps ps' : PersistentState} {snapData : Bytes}
    {expectedHash : Hash} (h : restoreFromSnapshot snapData expectedHash ps = .ok () ps') :
    ∃ snap, Restores snapData expectedHash snap ps ps' := by
  obtain ⟨snap, hcheck, h⟩ := ofResult_bind_eq_ok.1 h
  obtain ⟨_, ps1, hload, h⟩ := bind_eq_ok.1 h
  rw [get_bind] at h
  obtain ⟨hroot, h⟩ := failIf_bind_eq_ok.1 h
  obtain ⟨_, ps2, hupdate, h⟩ := bind_eq_ok.1 h
  obtain ⟨db, hrewrite, rfl⟩ := PersistentState.updateDB_eq_ok.1 (wrapErr_eq_ok.1 hupdate)
  have hdone := modify_eq_ok.1 h
  subst hdone
  have hloaded := finalState_loadSnapshot snap ps
  rw [hload] at hloaded
  obtain rfl : ps1 = _ := hloaded
  refine ⟨snap, hcheck, ?_, not_not.1 hroot, rfl, rfl,
    fun name hname => (steps_rewriteAll hname).of_ok hrewrite⟩
  unfold loadSnapshot at hload
  rw [modify_bind] at hload
  obtain ⟨_, ps3, hloop, -⟩ := bind_eq_ok.1 hload
  exact (restoreAccounts_ok_iff _ _).1 ⟨ps3, hloop⟩

/-! ### A file with the wrong root -/

def emptySnapshot (stateRoot : Hash) : Snapshot := ⟨0, 0, stateRoot, zeroHash, 0, [], []⟩

theorem wellFormed_emptySnapshot (stateRoot : Hash) : (emptySnapshot stateRoot).WellFormed where
  accounts := List.Pairwise.nil
  data := fun _ he => absurd he List.not_mem_nil
  accountCount := Nat.zero_le _
  kvStore := List.Pairwise.nil
  lengths := fun _ he => absurd he List.not_mem_nil
  kvCount := Nat.zero_le _

section

open Sample

theorem failed_restore_empties_cache : ∃ (ps ps' : PersistentState) (snapData : Bytes) (e : Error),
    restoreFromSnapshot snapData zeroHash ps = .error e ps' ∧ e.isPanic = false ∧
      ps'.kvstore ≠ ps.kvstore := by
  let stateRoot : Hash := FixedBytes.copy 32 [1]
  let ps : PersistentState := ⟨∅, ∅, (∅ : Map Bytes Bytes).insert (str "a") [1], zeroHash⟩
  have hne : stateRoot ≠ zeroHash := by decide
  have hcheck : checkSnapshot (serializeSnapshot (emptySnapshot stateRoot)) zeroHash =
      .ok (emptySnapshot stateRoot) := checkSnapshot_eq_ok.2
    ⟨.inl rfl, deserializeSnapshot_serializeSnapshot (wellFormed_emptySnapshot stateRoot), hne⟩
  have hload := @loadSnapshot_run _ (emptySnapshot stateRoot)
    (fun _ he => absurd he List.not_mem_nil) ps
  refine ⟨ps, { ps with cache := ∅, kvstore := ∅ }, serializeSnapshot (emptySnapshot stateRoot),
    .new s!"restore: state root mismatch: got {hexText zeroHash}, expected {hexText stateRoot}",
    ?_, rfl, ?_⟩
  · unfold restoreFromSnapshot
    rw [hcheck, ofResult_bind rfl, bind_eq_ok_of hload, get_bind]
    exact bind_eq_error_of (failIf_of _ hne.symm _)
  · intro heq
    have hmem : str "a" ∈ ps.kvstore := Std.ExtTreeMap.mem_insert_self
    rw [← heq] at hmem
    exact Std.ExtTreeMap.not_mem_empty hmem

/-- A snapshot that lacks its last byte. -/
def cutSnapshot : Bytes := (serializeSnapshot (emptySnapshot zeroHash)).dropLast

theorem restore_error_unchanged_cut : ∃ e ps', restoreFromSnapshot cutSnapshot zeroHash
    ⟨∅, ∅, (∅ : Map Bytes Bytes).insert (str "a") [1], zeroHash⟩ = .error e ps' ∧
      ps' = ⟨∅, ∅, (∅ : Map Bytes Bytes).insert (str "a") [1], zeroHash⟩ := by
  have hcut : (deserializeSnapshot maxAlloc cutSnapshot).toOption = none := by decide +kernel
  cases hcheck : checkSnapshot cutSnapshot zeroHash with
  | ok snap =>
    rw [(checkSnapshot_eq_ok.1 hcheck).2.1] at hcut
    cases hcut
  | error e =>
    have hfails (ps : PersistentState) : restoreFromSnapshot cutSnapshot zeroHash ps =
        .error e ps := by
      unfold restoreFromSnapshot
      rw [hcheck]
      rfl
    exact ⟨e, _, hfails _, (restore_error_unchanged_iff (hfails _)).2 (.inl ⟨e, hcheck⟩)⟩

end

/-! ### Restoring a committed state -/

theorem decodedAccounts_map (l : List (Address × Account)) :
    decodedAccounts (l.map fun e => ⟨e.1, e.2.encode⟩) = l := by
  induction l with
  | nil => rfl
  | cons e l ih =>
    rw [List.map_cons, decodedAccounts, decodeFrom_of_reads e.2.decode_encode]
    exact congrArg (List.cons e) ih

section

variable {c : StateSnapshot} {stateRoot valSetHash : Hash} {height epoch timestamp : UInt64}

theorem decodes_toSnapshot :
    ∀ e ∈ (c.toSnapshot stateRoot height epoch valSetHash timestamp).accounts,
      (decodeFrom Account.decode e.data).isOk := by
  intro e he
  obtain ⟨⟨addr, acc⟩, -, rfl⟩ := List.mem_map.1 he
  rw [decodeFrom_of_reads acc.decode_encode]
  rfl

theorem loadedContents_toSnapshot :
    (c.toSnapshot stateRoot height epoch valSetHash timestamp).loadedContents = c := by
  unfold Snapshot.loadedContents
  rw [if_pos decodes_toSnapshot]
  refine StateSnapshot.ext_iff_maps.2 ⟨?_, ?_⟩
  · show Map.insertAll ∅ (decodedAccounts (c.accounts.toList.map _)) = c.accounts
    rw [decodedAccounts_map, Map.insertAll_empty_toList]
  · show Map.insertAll ∅ ((c.kvstore.toList.map _).map _) = c.kvstore
    rw [List.map_map]
    exact (congrArg (Map.insertAll ∅) (List.map_id _)).trans (Map.insertAll_empty_toList _)

variable [Crypto] {ps : PersistentState} {expectedHash : Hash}

theorem restore_toSnapshot (hfits : c.FitsSnapshot) (hkeys : ∀ key ∈ c.kvstore, key ≠ [])
    (hroot : c.root ≠ zeroHash) (hopen : Opened ps.db)
    (hexpected : expectedHash = zeroHash ∨
      sha256 (serializeSnapshot (c.toSnapshot c.root height epoch valSetHash timestamp)) =
        expectedHash) :
    ∃ ps', restoreFromSnapshot
        (serializeSnapshot (c.toSnapshot c.root height epoch valSetHash timestamp))
        expectedHash ps = .ok () ps' ∧
      ps'.contents = c ∧ ps'.root = c.root ∧ Stored ps'.db c c.root ∧
      ∀ name ∉ [accountsBucket, kvstoreBucket, metaBucket], ps'.db[name]? = ps.db[name]? := by
  set snap := c.toSnapshot c.root height epoch valSetHash timestamp with hsnap
  have hcheck : checkSnapshot (serializeSnapshot snap) expectedHash = .ok snap :=
    checkSnapshot_eq_ok.2
      ⟨hexpected, deserializeSnapshot_serializeSnapshot hfits.wellFormed, hroot⟩
  have hload := @loadSnapshot_run _ snap decodes_toSnapshot ps
  rw [hsnap, loadedContents_toSnapshot] at hload
  set ps1 : PersistentState := { ps with cache := c.accounts, kvstore := c.kvstore }
  have hstorable : ps1.Storable := by
    rintro ⟨key, value⟩ he
    obtain ⟨hkeyLen, hvalLen⟩ := hfits.lengths _ he
    have hmem : key ∈ c.kvstore := Std.ExtTreeMap.isSome_getElem?_iff_mem.1
      (Option.isSome_iff_exists.2 ⟨value, Std.ExtTreeMap.mem_toList_iff_getElem?_eq_some.1 he⟩)
    exact ⟨hkeys key hmem, hkeyLen.trans (by decide), hvalLen.trans (by decide)⟩
  obtain ⟨db', hdb', hstored, hother⟩ := @rewriteAll_run ps1 _ hopen hstorable c.root
  have hupdate : PersistentState.updateDB (ps1.rewriteAll snap.stateRoot) ps1 =
      .ok () { ps1 with db := db' } := PersistentState.updateDB_eq_ok.2 ⟨db', hdb', rfl⟩
  refine ⟨{ ps1 with db := db', root := c.root }, ?_, rfl, rfl, hstored, hother⟩
  have hsame : ¬ ps1.buildSMT.root ≠ snap.stateRoot := not_not.2 rfl
  unfold restoreFromSnapshot
  rw [hcheck, ofResult_bind rfl, bind_eq_ok_of hload, get_bind, failIf_bind hsame,
    wrapErr_bind hupdate]
  rfl

/-- A restored snapshot gives accounts, store and root, also after reopening. -/
theorem restore_createSnapshot {s t : InMemoryState} {root : Hash}
    (hcommit : InMemoryState.commit s = .ok root t) (hroot : root ≠ zeroHash)
    (hfits : t.contents.FitsSnapshot) (hkeys : ∀ key ∈ t.kvstore, key ≠ [])
    (hopen : Opened ps.db) (height epoch : UInt64) (valSetHash : Hash) (timestamp : UInt64) :
    ∃ snap, t.createSnapshot height epoch valSetHash timestamp = .ok snap t ∧
      ∀ expectedHash, expectedHash = zeroHash ∨ snapshotHash (serializeSnapshot snap) =
          expectedHash →
        ∃ ps', restoreFromSnapshot (serializeSnapshot snap) expectedHash ps = .ok () ps' ∧
          ps'.contents = t.contents ∧ ps'.root = root ∧
          ∃ reopened, newPersistentState ps'.db = .ok reopened ps'.db ∧
            reopened.contents = t.contents ∧ reopened.root = root := by
  obtain ⟨hrootEq, rfl⟩ := EStateM.Result.ok.inj hcommit
  set t : InMemoryState := { s with smt := s.rebuildSMT }
  obtain rfl : t.contents.root = root := hrootEq
  refine ⟨t.contents.toSnapshot t.contents.root height epoch valSetHash timestamp, ?_,
    fun expectedHash hexpected => ?_⟩
  · exact (get_bind).trans (hfits.takeSnapshot_run t)
  obtain ⟨ps', hrun, hcontents, hroot', hstored, -⟩ :=
    restore_toSnapshot hfits hkeys hroot hopen hexpected
  refine ⟨ps', hrun, hcontents, hroot', _, hstored.reopen, ?_, rfl⟩
  exact if_neg hroot

end

attribute [local instance] constantCrypto

theorem restore_createSnapshot_entry : ∃ root t snap ps',
    InMemoryState.commit (newInMemoryState.setBytes (str "a") [1]) = .ok root t ∧
    InMemoryState.createSnapshot 1 0 zeroHash 0 t = .ok snap t ∧
    restoreFromSnapshot (serializeSnapshot snap) zeroHash ⟨opened ∅, ∅, ∅, zeroHash⟩ =
      .ok () ps' ∧ ps'.contents = t.contents ∧ ps'.root = root := by
  let t : InMemoryState := newInMemoryState.setBytes (str "a") [1]
  have hlist : t.kvstore.toList = [(str "a", [1])] := by decide
  have hne : t.contents ≠ emptyContents := by
    intro heq
    have hkv := congrArg (fun c => c.kvstore.toList) heq
    cases hkv
  obtain ⟨b, hb⟩ := exists_root_contents hne
  have hroot : t.stateRoot ≠ zeroHash := by
    rw [← t.root_contents, hb]
    show FixedBytes.copy 32 [1] ≠ zeroHash
    decide
  have hfits : t.contents.FitsSnapshot := by
    refine ⟨by decide, by decide, ?_⟩
    decide
  have hkeys : ∀ key ∈ t.kvstore, key ≠ [] := by
    rintro key hkey rfl
    exact absurd hkey (by decide)
  have hcommit : InMemoryState.commit t = .ok t.stateRoot { t with smt := t.rebuildSMT } := rfl
  generalize t.stateRoot = root at hcommit hroot
  generalize t.rebuildSMT = smt at hcommit
  have hopen : Opened (PersistentState.mk (opened ∅) ∅ ∅ zeroHash).db :=
    stored_opened_empty.isOpened
  obtain ⟨snap, hsnap, hrestore⟩ :=
    restore_createSnapshot hcommit hroot hfits hkeys hopen 1 0 zeroHash 0
  obtain ⟨ps', hrun, hcontents, hps', -⟩ := hrestore zeroHash (.inl rfl)
  exact ⟨root, _, snap, ps', hcommit, hsnap, hrun, hcontents, hps'⟩

end Dsn
