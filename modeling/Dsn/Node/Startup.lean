import Dsn.Genesis.InitState
import Dsn.Node.Restart

/-!
# Startup

`InitGenesisState` writes to the database, while the node goes on with the empty state that it has
opened before.
-/

namespace Dsn

open Go Genesis

def genesisBucket : Bytes := str "genesis"
def genesisHashKey : Bytes := str "genesis_hash"

namespace Node

def startupPhase6 : Exec Node Unit := do
  let n ← get
  if n.persistent.isSome then
    wrapErr "startup failed at InitBoltDB: failed to create genesis bucket"
      (onPersistent (PersistentState.updateDB (Bolt.createBucketIfNotExists genesisBucket)))

variable [Crypto]

def initFresh (doc : GenesisDoc) (genesisHash : Hash) : Exec Node Unit := do
  let _ ← wrapErr "startup failed at InitGenesisState: failed to initialize genesis state"
    (onPersistent (onPart PersistentState.db (fun db ps => { ps with db }) (initGenesisState doc)))
  wrapErr "startup failed at InitGenesisState: failed to store genesis hash"
    (onPersistent (PersistentState.updateDB
      (Bolt.put genesisBucket genesisHashKey genesisHash.bytes)))
  let _ ← wrapErr "startup failed at InitGenesisState: failed to commit genesis state"
    (onPersistent PersistentState.commit)
  modify fun n => { n with currentHeight := 0, currentTipHash := zeroHash }

def startupPhase7 (doc : GenesisDoc) (genesisHash : Hash) : Exec Node Unit := do
  let n ← get
  match n.persistent with
  | none => pure ()
  | some ps =>
    if ps.root = zeroHash then initFresh doc genesisHash
    else do
      modify fun n => { n with state := n.state.copyFrom ps.contents }
      match loadTip ps with
      | .error _ => pure ()
      | .ok tip => modify fun n => { setTip (.ok tip) n with currentEpoch := tip.epoch }

def startGenesis (doc : GenesisDoc) (genesisHash : Hash) : Exec Node Unit := do
  startupPhase6
  startupPhase7 doc genesisHash

end Node

/-! ### What the document asks for -/

def HoldsBalance (s : InMemoryState) (b : BalanceEntry) : Prop :=
  ∃ a acc, Genesis.parseAddress b.address = .ok a ∧ s.accounts[a]? = some acc ∧
    acc.balance = .ofUInt64 b.amount

section

variable [Crypto]

def HoldsValidator (s : InMemoryState) (v : ValidatorEntry) : Prop :=
  ∃ id val, getValidator id s = .ok val ∧
    hexDecode (stripHexPrefix v.pubKey) = .ok val.publicKey.bytes ∧
      val.bondedStake = .ofUInt64 v.stake

/-- All that the document asks for is there. -/
structure HoldsGenesis (doc : GenesisDoc) (s : InMemoryState) : Prop where
  treasury : doc.treasury.address ≠ [] → doc.treasury.initialBalance > 0 →
    HoldsBalance s doc.treasury.entry
  balances : ∀ b ∈ doc.initialBalances, HoldsBalance s b
  validators : ∀ v ∈ doc.initialValidators, HoldsValidator s v

/-- Memory and database hold the genesis state. -/
structure GenesisInEffect (doc : GenesisDoc) (root : Hash) (n : Node) : Prop where
  state : HoldsGenesis doc n.state
  persistent : ∃ ps, n.persistent = some ps ∧ HoldsGenesis doc ps.contents.toMemory ∧
    ps.root = root

/-! ### A fresh database -/

def FreshDB (db : Bolt.DB) : Prop := recoverRoot (db[metaBucket]?.getD ∅) = zeroHash

variable {doc : GenesisDoc} {genesisHash root : Hash} {db db' : Bolt.DB} {cfg : NodeConfig}
  {vm : Option VM}

omit [Crypto] in
theorem newPersistentState_fresh (h : FreshDB db) :
    newPersistentState db = .ok ⟨opened db, ∅, ∅, zeroHash⟩ (opened db) := by
  have hcreate : wrapErr "failed to create buckets" (Bolt.update createBuckets) db =
      .ok () (opened db) := wrapErr_eq_ok.2 (Bolt.update_eq_ok.2 (createBuckets_run db))
  have hmeta : (opened db)[metaBucket]? = some (db[metaBucket]?.getD ∅) := setBuckets_meta _ _ _ _
  unfold newPersistentState
  rw [bind_eq_ok_of hcreate, bind_eq_ok_of (Bolt.bucket_run hmeta),
    show recoverRoot (db[metaBucket]?.getD ∅) = zeroHash from h]
  rfl

def freshNode (cfg : NodeConfig) (vm : Option VM) (db : Bolt.DB) : Node :=
  let ps : PersistentState := ⟨opened db, ∅, ∅, zeroHash⟩
  Node.setTip (loadTip ps) (Node.initial cfg vm ps)

theorem openNode_fresh (h : FreshDB db) : Node.openNode cfg vm db = .ok (freshNode cfg vm db) :=
  Node.openNode_eq_ok.2 ⟨_, _, newPersistentState_fresh h, Node.recover_of_zero rfl rfl⟩

theorem initGenesisState_any (h : initGenesisState doc db = .ok root db') (db1 : Bolt.DB) :
    ∃ b, initGenesisState doc db1 = .ok root (db1.insert validatorBucketName b) := by
  obtain ⟨hparse, hrecord, hstorable, hroot, -⟩ := initGenesisState_eq_ok.1 h
  exact ⟨_, initGenesisState_eq_ok.2 ⟨hparse, hrecord, hstorable, hroot, rfl⟩⟩

variable {n : Node} {ps : PersistentState}

omit [Crypto] in
theorem startupPhase6_run (hps : n.persistent = some ps) :
    Node.startupPhase6 n = .ok () { n with persistent := some { ps with
      db := ps.db.insert genesisBucket (ps.db[genesisBucket]?.getD ∅) } } := by
  unfold Node.startupPhase6
  rw [get_bind, if_pos (by rw [hps]; rfl), wrapErr_eq_ok]
  exact Node.onPersistent_of_ok hps (PersistentState.updateDB_eq_ok.2
    ⟨_, Bolt.createBucketIfNotExists_run _ _, rfl⟩)

theorem initFresh_run (h : initGenesisState doc db = .ok root db') (genesisHash : Hash)
    (hps : n.persistent = some ps) (hopen : Opened ps.db) (hbucket : genesisBucket ∈ ps.db)
    (hst : ps.Storable) :
    ∃ ps', Node.initFresh doc genesisHash n = .ok () { n with
        persistent := some ps', currentHeight := 0, currentTipHash := zeroHash } ∧
      ps'.contents = ps.contents ∧ ps'.root = ps.contents.root := by
  obtain ⟨b, hinit⟩ := initGenesisState_any h ps.db
  set ps1 : PersistentState := { ps with db := ps.db.insert validatorBucketName b }
  have hinit1 : onPart PersistentState.db (fun db ps => { ps with db }) (initGenesisState doc) ps =
      .ok root ps1 := onPart_of_ok hinit
  have hstorable : Bolt.Storable genesisHashKey genesisHash.bytes := by
    refine ⟨by decide, by decide, ?_⟩
    rw [genesisHash.length_eq]
    decide
  have hput := Bolt.put_run_putIn (Std.ExtTreeMap.mem_insert.2 (.inr hbucket) :
    genesisBucket ∈ ps1.db) hstorable
  set ps2 : PersistentState := { ps1 with
    db := Bolt.putIn genesisBucket genesisHashKey genesisHash.bytes ps1.db }
  have hput2 : PersistentState.updateDB (Bolt.put genesisBucket genesisHashKey genesisHash.bytes)
      ps1 = .ok () ps2 := PersistentState.updateDB_eq_ok.2 ⟨_, hput, rfl⟩
  have hopen2 : Opened ps2.db := (hopen.insert _ _).insert _ _
  obtain ⟨ps3, hcommit⟩ := PersistentState.commit_run hopen2 (show ps2.Storable from hst)
  obtain ⟨-, hcontents, hroot⟩ := PersistentState.commit_contents hcommit
  refine ⟨ps3, ?_, hcontents, hroot⟩
  unfold Node.initFresh
  rw [wrapErr_bind (Node.onPersistent_of_ok hps hinit1),
    wrapErr_bind (Node.onPersistent_of_ok rfl hput2),
    wrapErr_bind (Node.onPersistent_of_ok rfl hcommit)]
  rfl

theorem startGenesis_fresh (h : initGenesisState doc db = .ok root db') (genesisHash : Hash)
    (hps : n.persistent = some ps) (hopen : Opened ps.db) (hempty : ps.contents = emptyContents)
    (hzero : ps.root = zeroHash) :
    ∃ ps', Node.startGenesis doc genesisHash n = .ok () { n with
        persistent := some ps', currentHeight := 0, currentTipHash := zeroHash } ∧
      ps'.contents = emptyContents ∧ ps'.root = zeroHash := by
  set ps1 : PersistentState := { ps with
    db := ps.db.insert genesisBucket (ps.db[genesisBucket]?.getD ∅) }
  have hst : ps1.Storable := by
    intro e he
    rw [show ps1.kvstore = ∅ from congrArg StateSnapshot.kvstore hempty] at he
    exact absurd he List.not_mem_nil
  have hopen1 : Opened ps1.db := hopen.insert _ _
  obtain ⟨ps', hrun, hcontents, hroot⟩ := initFresh_run
    (n := { n with persistent := some ps1 }) h genesisHash rfl hopen1
    Std.ExtTreeMap.mem_insert_self hst
  refine ⟨ps', ?_, hcontents.trans hempty, ?_⟩
  · unfold Node.startGenesis Node.startupPhase7
    rw [bind_eq_ok_of (startupPhase6_run hps), get_bind]
    dsimp only
    rw [if_pos hzero]
    exact hrun
  · rw [hroot, show ps1.contents = emptyContents from hempty]
    exact root_emptyContents

theorem not_holdsGenesis_empty {now : ℤ} {unicode : Bytes → Bytes} {s : InMemoryState}
    (hs : s.kvstore = ∅) (h : validateGenesis now unicode doc = .ok ()) : ¬ HoldsGenesis doc s := by
  intro hholds
  obtain ⟨v, hv⟩ := List.exists_mem_of_ne_nil _ (validateGenesis_eq_ok.1 h).validators
  obtain ⟨id, val, hval, -⟩ := hholds.validators v hv
  have hnone : s.getBytes (validatorKey id) = none := by
    unfold InMemoryState.getBytes
    rw [hs, Std.ExtTreeMap.getElem?_empty]
  unfold getValidator at hval
  rw [hnone] at hval
  cases hval

/-- A node never starts with the state of its genesis document. -/
theorem genesis_never_in_effect (now : ℤ) (unicode : Bytes → Bytes) (doc : GenesisDoc)
    (genesisHash root : Hash) (cfg : NodeConfig) (vm : Option VM) (db db' : Bolt.DB)
    (hvalid : validateGenesis now unicode doc = .ok ()) (hfresh : FreshDB db)
    (hinit : initGenesisState doc db = .ok root db') :
    ∃ n n', Node.openNode cfg vm db = .ok n ∧
      Node.startGenesis doc genesisHash n = .ok () n' ∧ ¬ GenesisInEffect doc root n' ∧
      ¬ HoldsGenesis doc n'.state ∧
        ∀ ps, n'.persistent = some ps → ¬ HoldsGenesis doc ps.contents.toMemory := by
  obtain ⟨hpersistent, hstate⟩ := Node.setTip_persistent (loadTip ⟨opened db, ∅, ∅, zeroHash⟩)
    (Node.initial cfg vm ⟨opened db, ∅, ∅, zeroHash⟩)
  obtain ⟨ps, hrun, hcontents, -⟩ := startGenesis_fresh (n := freshNode cfg vm db) hinit
    genesisHash hpersistent (isOpened_opened db) rfl rfl
  have hmemory : ¬ HoldsGenesis doc (freshNode cfg vm db).state :=
    not_holdsGenesis_empty (congrArg InMemoryState.kvstore hstate) hvalid
  refine ⟨_, _, openNode_fresh hfresh, hrun, fun h => hmemory h.state, hmemory, ?_⟩
  intro ps' hps'
  obtain rfl := Option.some.inj hps'
  exact not_holdsGenesis_empty (congrArg StateSnapshot.kvstore hcontents) hvalid

end

open Sample

theorem freshDB_empty : FreshDB ∅ := rfl

theorem sampleDoc_init : ∃ root db',
    initGenesisState (sampleDoc (List.replicate 40 49)) ∅ = .ok root db' := by
  have hok := validateGenesis_eq_ok.1 sampleDoc_valid
  obtain ⟨s, db', h⟩ : Sound (sampleDoc (List.replicate 40 49)) ∅ :=
    sampleDoc_initializable.sound hok
  exact ⟨_, _, h.init⟩

theorem genesis_never_in_effect_sample : ∃ root n n',
    Node.openNode sampleConfig none ∅ = .ok n ∧
      Node.startGenesis (sampleDoc (List.replicate 40 49)) zeroHash n = .ok () n' ∧
        ¬ GenesisInEffect (sampleDoc (List.replicate 40 49)) root n' := by
  obtain ⟨root, db', hinit⟩ := sampleDoc_init
  obtain ⟨n, n', hopen, hrun, hnot, -⟩ := genesis_never_in_effect 0 id _ zeroHash root sampleConfig
    none ∅ db' sampleDoc_valid freshDB_empty hinit
  exact ⟨root, n, n', hopen, hrun, hnot⟩

theorem genesis_without_validators : ¬ ∀ (_ : Crypto) (now : ℤ) (unicode : Bytes → Bytes)
    (doc : GenesisDoc) (genesisHash root : Hash) (cfg : NodeConfig) (vm : Option VM)
    (db db' : Bolt.DB) (n n' : Node), validateGenesis now unicode doc = .ok () →
      initGenesisState doc db = .ok root db' → FreshDB db → Node.openNode cfg vm db = .ok n →
        Node.startGenesis doc genesisHash n = .ok () n' → GenesisInEffect doc root n' := by
  intro h
  obtain ⟨root, db', hinit⟩ := sampleDoc_init
  obtain ⟨ps, hrun, -⟩ := startGenesis_fresh (n := freshNode sampleConfig none ∅) hinit zeroHash
    (Node.setTip_persistent _ _).1 (isOpened_opened ∅) rfl rfl
  have heffect := h sampleCrypto 0 id _ zeroHash root sampleConfig none ∅ db' _ _ sampleDoc_valid
    hinit freshDB_empty (openNode_fresh freshDB_empty) hrun
  refine not_holdsGenesis_empty ?_ sampleDoc_valid heffect.state
  exact congrArg InMemoryState.kvstore (Node.setTip_persistent _ _).2

end Dsn
