import Dsn.Node.FastSync
import Dsn.Node.ReplayBlocks

/-!
# Restart

A node stores a stub of its tip when it stops. Recovery takes the hash of the stub for the hash of
the tip, unless it has to go back to a checkpoint and replay.
-/

namespace Dsn

open Go

theorem newPersistentState_db {db db' : Bolt.DB} {ps : PersistentState}
    (h : newPersistentState db = .ok ps db') : ps.db = opened db := by
  have haccounts : Steps Eq loadAccounts := .bind (.asks _) fun _ => .ofResult _
  have hkvstore : Steps Eq loadKvstore := .bind (.asks _) fun _ => .pure _
  have hcreate : wrapErr "failed to create buckets" (Bolt.update createBuckets) db =
      .ok () (opened db) := wrapErr_eq_ok.2 (Bolt.update_eq_ok.2 (createBuckets_run db))
  unfold newPersistentState at h
  rw [bind_eq_ok_of hcreate] at h
  obtain ⟨b, _, hb, h⟩ := bind_eq_ok.1 h
  obtain ⟨-, rfl⟩ := Bolt.bucket_eq_ok.1 hb
  by_cases hroot : recoverRoot b ≠ zeroHash
  · rw [if_pos hroot] at h
    obtain ⟨cache, _, hcache, h⟩ := bind_eq_ok.1 h
    obtain rfl := (haccounts.wrapErr _).of_ok hcache
    obtain ⟨kvstore, _, hkv, h⟩ := bind_eq_ok.1 h
    obtain rfl := (hkvstore.wrapErr _).of_ok hkv
    cases h
    rfl
  · rw [if_neg hroot] at h
    cases h
    rfl

namespace Node

variable [Crypto] {n m : Node} {ps : PersistentState} {cfg : NodeConfig} {vm : Option VM}
  {db : Bolt.DB}

theorem openNode_eq_ok : openNode cfg vm db = .ok m ↔
    ∃ ps db', newPersistentState db = .ok ps db' ∧ recover (initial cfg vm ps) = .ok () m := by
  have hwrap {α σ : Type} {c : String} {x : Exec σ α} {s : σ} {e : Error} {s' : σ}
      (h : x s = .error e s') : ∃ e', wrapErr c x s = .error e' s' := ⟨_, wrapErr_of_error h⟩
  unfold openNode
  cases hopen : newPersistentState db with
  | error e db' =>
    obtain ⟨e', he'⟩ := hwrap (c := "failed to open persistent state") hopen
    simp [he']
  | ok ps db' =>
    rw [wrapErr_eq_ok.2 hopen]
    cases hrec : recover (initial cfg vm ps) with
    | error e n =>
      obtain ⟨e', he'⟩ := hwrap (c := "crash recovery") hrec
      simp [he', hrec]
    | ok u n => simp [wrapErr_eq_ok.2 hrec, hrec]

/-! ### The branches of recovery -/

def reloaded (ps : PersistentState) (n : Node) : Node :=
  { setTip (loadTip ps) n with
    state := committed (n.state.copyFrom ps.contents) }

theorem recover_of_zero (hps : n.persistent = some ps) (hroot : ps.root = zeroHash) :
    recover n = .ok () (setTip (loadTip ps) n) := by
  unfold recover
  rw [get_bind]
  simp only [hps]
  rw [if_pos hroot]
  rfl

theorem setTip_persistent (tip : Except Error BlockHeader) (n : Node) :
    (setTip tip n).persistent = n.persistent ∧ (setTip tip n).state = n.state := by
  cases tip <;> exact ⟨rfl, rfl⟩

theorem recover_of_root (hps : n.persistent = some ps) (hroot : ps.root ≠ zeroHash) :
    recover n = (match latestCheckpoint ps with
      | .error _ => pure ()
      | .ok cp => if ps.root = cp.stateRoot then pure ()
        else restoreCheckpoint ps cp (loadTip ps)) (reloaded ps n) := by
  obtain ⟨hsame, hstate⟩ := setTip_persistent (loadTip ps) n
  unfold recover
  rw [get_bind]
  simp only [hps]
  rw [modify_bind, if_neg hroot, bind_eq_ok_of (loadFromPersistent_run (hsame.trans hps)), hstate]
  rfl

theorem recover_of_settled (hps : n.persistent = some ps) (hroot : ps.root ≠ zeroHash)
    (hcp : ∀ cp, latestCheckpoint ps = .ok cp → ps.root = cp.stateRoot) :
    recover n = .ok () (reloaded ps n) := by
  rw [recover_of_root hps hroot]
  cases hlatest : latestCheckpoint ps with
  | error e => rfl
  | ok cp =>
    simp only [if_pos (hcp cp hlatest)]
    rfl

variable {cp : Checkpoint}

theorem recover_of_drifted (hps : n.persistent = some ps)
    (hroot : ps.root ≠ zeroHash) (hcp : latestCheckpoint ps = .ok cp)
    (hne : ps.root ≠ cp.stateRoot) :
    recover n = restoreCheckpoint ps cp (loadTip ps) (reloaded ps n) := by
  rw [recover_of_root hps hroot, hcp]
  simp only [if_neg hne]

/-! ### The end of a replay -/

variable {height : UInt64}

theorem replayBlock_ok (h : replayBlock height n = .ok () m) :
    ∃ ps header t, n.persistent = some ps ∧ loadBlockHeader ps height = .ok header ∧
      t.stateRoot = header.stateRoot ∧ m = replayed height header ps t n := by
  cases hps : n.persistent with
  | none =>
    unfold replayBlock at h
    rw [get_bind] at h
    simp only [hps] at h
    obtain ⟨_, _, hload, -⟩ := bind_eq_ok.1 h
    cases wrapErr_eq_ok.1 hload
  | some ps =>
    cases hheader : loadBlockHeader ps height with
    | error e =>
      unfold replayBlock at h
      rw [get_bind] at h
      simp only [hps, hheader] at h
      obtain ⟨_, _, hload, -⟩ := bind_eq_ok.1 h
      cases wrapErr_eq_ok.1 hload
    | ok header =>
      obtain ⟨start, t, -, hroot, rfl⟩ := (replayBlock_eq_ok hps hheader).1 h
      exact ⟨ps, header, t, rfl, hheader, hroot, rfl⟩

def SameHeaders (ps : PersistentState) (n : Node) : Prop :=
  ∃ ps', n.persistent = some ps' ∧ ps'.db[blocksBucket]? = ps.db[blocksBucket]?

theorem SameHeaders.replayBlock (hn : SameHeaders ps n)
    (h : replayBlock height n = .ok () m) : SameHeaders ps m := by
  obtain ⟨ps1, hps1, hsame⟩ := hn
  obtain ⟨ps2, header, t, hps2, -, -, rfl⟩ := replayBlock_ok h
  cases hps1.symm.trans hps2
  exact ⟨_, rfl, (Bolt.get_putIn_of_ne (by decide)).trans hsame⟩

omit [Crypto] in
theorem loadBlockHeader_congr {ps' : PersistentState}
    (h : ps'.db[blocksBucket]? = ps.db[blocksBucket]?) (height : UInt64) :
    loadBlockHeader ps' height = loadBlockHeader ps height := by
  unfold loadBlockHeader
  rw [h]

theorem replayBlocks_end {fromHeight toHeight : UInt64} (hle : fromHeight ≤ toHeight)
    (hn : SameHeaders ps n) (h : replayBlocks fromHeight toHeight n = .ok () m) :
    ∃ header, loadBlockHeader ps toHeight = .ok header ∧ m.currentHeight = toHeight ∧
      m.currentTipHash = header.headerHash := by
  have ⟨ps1, hps1, _⟩ := hn
  obtain ⟨l, hl⟩ := heights_eq_append hle
  rw [replayBlocks_eq hle hps1, hl] at h
  obtain ⟨n1, hfirst, hlast⟩ := forM_append_eq_ok.1 h
  have hn1 : SameHeaders ps n1 := forM_keeps (fun _ _ _ _ hs hr => hs.replayBlock hr) hfirst hn
  have hlast' : replayBlock toHeight n1 = .ok () m := (congrFun bind_pure_unit n1).symm.trans hlast
  obtain ⟨ps2, header, t, hps2, hheader, -, rfl⟩ := replayBlock_ok hlast'
  obtain ⟨ps3, hps3, hsame⟩ := hn1
  cases hps2.symm.trans hps3
  exact ⟨header, (loadBlockHeader_congr hsame _).symm.trans hheader, rfl, rfl⟩

/-- The headers in the database at the given heights follow a state by `BeginBlock` alone. -/
def Replays (ps : PersistentState) : InMemoryState → List UInt64 → Prop
  | _, [] => True
  | s, height :: heights => ∃ header start t, loadBlockHeader ps height = .ok header ∧
      beginBlock height s = .ok start t ∧ t.stateRoot = header.stateRoot ∧
      Replays ps (committed t) heights

theorem forM_replayBlock_iff {hs : List UInt64} (hn : SameHeaders ps n) :
    (∃ m, hs.forM replayBlock n = .ok () m) ↔ Replays ps n.state hs := by
  induction hs generalizing n with
  | nil => exact iff_of_true ⟨n, rfl⟩ trivial
  | cons height hs ih =>
    have ⟨ps1, hps1, hsame⟩ := hn
    have hload := loadBlockHeader_congr hsame height
    constructor
    · rintro ⟨m, h⟩
      obtain ⟨_, n1, hfirst, hrest⟩ := bind_eq_ok.1 h
      obtain ⟨ps2, header, -, hps2, hheader, -, -⟩ := replayBlock_ok hfirst
      cases hps1.symm.trans hps2
      obtain ⟨start, t, hbegin, hroot, rfl⟩ := (replayBlock_eq_ok hps1 hheader).1 hfirst
      exact ⟨header, start, t, hload.symm.trans hheader, hbegin, hroot,
        (ih (hn.replayBlock hfirst)).1 ⟨m, hrest⟩⟩
    · rintro ⟨header, start, t, hheader, hbegin, hroot, hrest⟩
      have hfirst := (replayBlock_eq_ok hps1 (hload.trans hheader)).2 ⟨start, t, hbegin, hroot, rfl⟩
      obtain ⟨m, h⟩ := (ih (hn.replayBlock hfirst)).2 hrest
      exact ⟨m, (forM_cons_run hfirst).trans h⟩

/-- What the database has to hold for a return to a checkpoint: the snapshot of the checkpoint,
which restores, and behind it headers up to the tip that follow by `BeginBlock` alone. -/
def RollsForward (ps : PersistentState) (cp : Checkpoint) (tip : BlockHeader) : Prop :=
  ∃ snapData ps₁, loadSnapshotData ps cp.height = .ok snapData ∧
    restoreFromSnapshot snapData cp.snapshotHash ps = .ok () ps₁ ∧
    (tip.height > cp.height → Replays ps (committed (newInMemoryState.copyFrom ps₁.contents))
      (heights (cp.height + 1) tip.height))

def restoredNode (ps₁ : PersistentState) (n : Node) : Node :=
  { n with
    persistent := some ps₁
    state := committed (newInMemoryState.copyFrom ps₁.contents) }

variable {tip : BlockHeader}

theorem restoreCheckpoint_eq_ok (hps : n.persistent = some ps) :
    restoreCheckpoint ps cp (.ok tip) n = .ok () m ↔
      ∃ snapData ps₁, loadSnapshotData ps cp.height = .ok snapData ∧
        restoreFromSnapshot snapData cp.snapshotHash ps = .ok () ps₁ ∧
        (if tip.height > cp.height then wrapErr "recovery: replay"
          (replayBlocks (cp.height + 1) tip.height) else pure ()) (restoredNode ps₁ n) =
            .ok () m := by
  have hexists (snapData : Bytes) (h : loadSnapshotData ps cp.height = .ok snapData) :
      ¬ snapshotExists ps cp.height = false := by
    unfold loadSnapshotData at h
    unfold snapshotExists
    cases hdata : Bolt.lookup ps.db snapshotsBucket (heightKey cp.height) with
    | none =>
      rw [hdata] at h
      cases h
    | some data => simp
  constructor
  · intro h
    obtain ⟨-, h⟩ := failIf_bind_eq_ok.1 h
    obtain ⟨snapData, hdata, h⟩ := ofResult_bind_eq_ok.1 (wrapErr_bind_eq_ok.1 h)
    obtain ⟨_, _, hrestore, h⟩ := bind_eq_ok.1 h
    obtain ⟨ps₁, hps₁, rfl⟩ := (onPersistent_eq_ok hps).1 (wrapErr_eq_ok.1 hrestore)
    exact ⟨snapData, ps₁, hdata, hps₁, h⟩
  · rintro ⟨snapData, ps₁, hdata, hps₁, h⟩
    unfold restoreCheckpoint
    rw [failIf_bind (hexists _ hdata), wrapErr_bind (ofResult_eq_ok.2 ⟨hdata, rfl⟩),
      wrapErr_bind (onPersistent_of_ok hps hps₁)]
    exact h

theorem SameHeaders.restored {snapData : Bytes} {hash : Hash} {ps₁ : PersistentState}
    (h : restoreFromSnapshot snapData hash ps = .ok () ps₁) :
    SameHeaders ps (restoredNode ps₁ n) := by
  obtain ⟨snap, hrestores⟩ := restores_of_restore h
  exact ⟨ps₁, rfl, hrestores.other _ (by decide)⟩

omit [Crypto] in
theorem succ_le_of_lt {a b : UInt64} (h : b > a) : a + 1 ≤ b :=
  (Nat.mod_le _ _).trans (UInt64.lt_iff_toNat_lt.1 h)

theorem restoreCheckpoint_ok_iff (hps : n.persistent = some ps) :
    (∃ m, restoreCheckpoint ps cp (.ok tip) n = .ok () m) ↔ RollsForward ps cp tip := by
  have hreplay {snapData : Bytes} {ps₁ : PersistentState}
      (h : restoreFromSnapshot snapData cp.snapshotHash ps = .ok () ps₁) :
      (∃ m, (if tip.height > cp.height then wrapErr "recovery: replay"
        (replayBlocks (cp.height + 1) tip.height) else pure ()) (restoredNode ps₁ n) = .ok () m) ↔
      (tip.height > cp.height → Replays ps (restoredNode ps₁ n).state
        (heights (cp.height + 1) tip.height)) := by
    by_cases hgt : tip.height > cp.height
    · rw [if_pos hgt, ← forM_replayBlock_iff (.restored h),
        ← replayBlocks_eq (n := restoredNode ps₁ n) (succ_le_of_lt hgt) rfl]
      simp only [wrapErr_eq_ok, hgt, forall_const]
    · exact iff_of_true ⟨_, congrFun (if_neg hgt) _⟩ fun h => absurd h hgt
  simp only [restoreCheckpoint_eq_ok hps]
  constructor
  · rintro ⟨m, snapData, ps₁, hdata, hrestore, h⟩
    exact ⟨snapData, ps₁, hdata, hrestore, (hreplay hrestore).1 ⟨m, h⟩⟩
  · rintro ⟨snapData, ps₁, hdata, hrestore, h⟩
    obtain ⟨m, hm⟩ := (hreplay hrestore).2 h
    exact ⟨m, snapData, ps₁, hdata, hrestore, hm⟩

def rolledTip (ps : PersistentState) (cp : Checkpoint) (tip : BlockHeader) :
    Except Error BlockHeader :=
  if tip.height > cp.height then loadBlockHeader ps tip.height else .ok tip

theorem restoreCheckpoint_tip (hps : n.persistent = some ps)
    (hheight : n.currentHeight = tip.height) (hhash : n.currentTipHash = tip.headerHash)
    (h : restoreCheckpoint ps cp (.ok tip) n = .ok () m) :
    m.currentHeight = tip.height ∧
      ∃ header, rolledTip ps cp tip = .ok header ∧ m.currentTipHash = header.headerHash := by
  obtain ⟨snapData, ps₁, -, hrestore, h⟩ := (restoreCheckpoint_eq_ok hps).1 h
  unfold rolledTip
  by_cases hgt : tip.height > cp.height
  · rw [if_pos hgt] at h ⊢
    obtain ⟨header, hheader, hheight', hhash'⟩ := replayBlocks_end (succ_le_of_lt hgt)
      (.restored hrestore) (wrapErr_eq_ok.1 h)
    exact ⟨hheight', header, hheader, hhash'⟩
  · rw [if_neg hgt] at h ⊢
    cases h
    exact ⟨hheight, tip, rfl, hhash⟩

end Node

/-! ### Restarts -/

section

variable [Crypto] {n : Node} {ps : PersistentState} {tip : BlockHeader}

def Settled (ps : PersistentState) : Prop :=
  ps.root = zeroHash ∨ ∀ cp, latestCheckpoint ps = .ok cp → ps.root = cp.stateRoot

/-- After a restart the node is at its height and tip again. -/
def RestartKeeps (n : Node) : Prop :=
  ∃ ps m, n.persistent = some ps ∧ Node.openNode n.cfg n.vm ps.db = .ok m ∧
    m.currentHeight = n.currentHeight ∧ m.currentTipHash = n.currentTipHash

/-- The two ways to store a tip that is not a block's header. -/
inductive Stopped : Node → BlockHeader → Prop
  | shutdown {n n' : Node} {ps : PersistentState} {now : UInt64} : n.persistent = some ps →
      n.currentHeight > 0 → Node.shutdown now n = .ok () n' →
      Stopped n' (Node.shutdownTip now n.currentHeight ps)
  | fastSync {n n' : Node} {cp : Checkpoint} {snapData : Bytes} {targetHeight : UInt64} :
      targetHeight ≤ cp.height →
      Node.fastSyncFromCheckpoint cp snapData targetHeight n = .ok () n' →
      Stopped n' (Node.checkpointTip cp)

/-- What the database has to hold so that recovery ends at a tip. -/
inductive RecoversTip (ps : PersistentState) (tip : BlockHeader) (hash : Hash) : Prop
  | settled : Settled ps → tip.headerHash = hash → RecoversTip ps tip hash
  | rolled {cp : Checkpoint} {header : BlockHeader} : ps.root ≠ zeroHash →
      latestCheckpoint ps = .ok cp → ps.root ≠ cp.stateRoot → Node.RollsForward ps cp tip →
      Node.rolledTip ps cp tip = .ok header → header.headerHash = hash → RecoversTip ps tip hash

def KeepsTip (n : Node) (tip : BlockHeader) : Prop :=
  ∃ ps ps₀ db₀, n.persistent = some ps ∧ newPersistentState ps.db = .ok ps₀ db₀ ∧
    RecoversTip ps₀ tip n.currentTipHash

def Node.stopped (tip : BlockHeader) (ps : PersistentState) (n : Node) : Node :=
  { n with
    persistent := some { ps with
      db := Bolt.putIn chainBucket tipKey (encodeHeader tip) ps.db } }

omit [Crypto] in
theorem Node.shutdown_run {now : UInt64} (hps : n.persistent = some ps)
    (hheight : n.currentHeight > 0) : Node.shutdown now n =
      .ok () (n.stopped (Node.shutdownTip now n.currentHeight ps) ps) := by
  unfold shutdown
  rw [get_bind]
  simp only [hps, if_pos hheight]
  rw [bind_eq_ok_of (attempt_of_ok (onPersistent_of_ok hps (storeTip_run _ _)))]
  rfl

theorem Stopped.stored (h : Stopped n tip) : tip.stripped = tip ∧ n.currentHeight = tip.height ∧
    ∃ ps, n.persistent = some ps ∧
      Bolt.lookup ps.db chainBucket tipKey = some (encodeHeader tip) := by
  cases h with
  | shutdown hps hheight hrun =>
    rw [Node.shutdown_run hps hheight] at hrun
    cases hrun
    exact ⟨rfl, rfl, _, rfl, Bolt.lookup_putIn_self ..⟩
  | fastSync htarget hrun =>
    obtain ⟨_, _, -, -, -, -, rfl⟩ := (Node.fastSync_eq_ok htarget).1 hrun
    exact ⟨rfl, rfl, _, rfl, Bolt.lookup_putIn_self ..⟩

section

variable {cfg : NodeConfig} {vm : Option VM}

theorem reloaded_of_tip (cfg : NodeConfig) (vm : Option VM) (htip : loadTip ps = .ok tip) :
    (Node.reloaded ps (.initial cfg vm ps)).persistent = some ps ∧
      (Node.reloaded ps (.initial cfg vm ps)).currentHeight = tip.height ∧
      (Node.reloaded ps (.initial cfg vm ps)).currentTipHash = tip.headerHash := by
  unfold Node.reloaded
  rw [htip]
  exact ⟨rfl, rfl, rfl⟩

theorem recover_settled (cfg : NodeConfig) (vm : Option VM) (htip : loadTip ps = .ok tip)
    (hs : Settled ps) :
    ∃ m, Node.recover (.initial cfg vm ps) = .ok () m ∧ m.currentHeight = tip.height ∧
      m.currentTipHash = tip.headerHash := by
  by_cases hroot : ps.root = zeroHash
  · refine ⟨_, Node.recover_of_zero rfl hroot, ?_⟩
    rw [htip]
    exact ⟨rfl, rfl⟩
  · obtain ⟨-, hheight, hhash⟩ := reloaded_of_tip cfg vm htip
    exact ⟨_, Node.recover_of_settled rfl hroot (hs.resolve_left hroot), hheight, hhash⟩

theorem recover_of_not_settled (cfg : NodeConfig) (vm : Option VM) (hs : ¬ Settled ps) :
    ∃ cp, ps.root ≠ zeroHash ∧ latestCheckpoint ps = .ok cp ∧ ps.root ≠ cp.stateRoot ∧
    Node.recover (.initial cfg vm ps) =
      Node.restoreCheckpoint ps cp (loadTip ps) (Node.reloaded ps (.initial cfg vm ps)) := by
  obtain ⟨hroot, hcp⟩ := not_or.1 hs
  push Not at hcp
  obtain ⟨cp, hlatest, hne⟩ := hcp
  exact ⟨cp, hroot, hlatest, hne, Node.recover_of_drifted rfl hroot hlatest hne⟩

theorem recover_tip_iff {hash : Hash} (htip : loadTip ps = .ok tip) :
    (∃ m, Node.recover (.initial cfg vm ps) = .ok () m ∧ m.currentHeight = tip.height ∧
      m.currentTipHash = hash) ↔ RecoversTip ps tip hash := by
  obtain ⟨hpersistent, hheight, hhash⟩ := reloaded_of_tip cfg vm htip
  constructor
  · rintro ⟨m, hm, -, rfl⟩
    by_cases hs : Settled ps
    · obtain ⟨m', hm', -, hhash'⟩ := recover_settled cfg vm htip hs
      cases hm.symm.trans hm'
      exact .settled hs hhash'.symm
    · obtain ⟨cp, hroot, hlatest, hne, hrun⟩ := recover_of_not_settled cfg vm hs
      rw [hrun, htip] at hm
      obtain ⟨-, header, hrolled, hhash'⟩ :=
        Node.restoreCheckpoint_tip hpersistent hheight hhash hm
      exact .rolled hroot hlatest hne ((Node.restoreCheckpoint_ok_iff hpersistent).1 ⟨m, hm⟩) hrolled
        hhash'.symm
  · intro h
    cases h with
    | settled hs hhash' =>
      obtain ⟨m, hm, hheight', hm'⟩ := recover_settled cfg vm htip hs
      exact ⟨m, hm, hheight', hm'.trans hhash'⟩
    | rolled hroot hlatest hne hforward hrolled hhash' =>
      obtain ⟨m, hm⟩ := (Node.restoreCheckpoint_ok_iff hpersistent).2 hforward
      obtain ⟨hheight', header', hrolled', hm'⟩ :=
        Node.restoreCheckpoint_tip hpersistent hheight hhash hm
      cases hrolled.symm.trans hrolled'
      refine ⟨m, ?_, hheight', hm'.trans hhash'⟩
      rw [Node.recover_of_drifted rfl hroot hlatest hne, htip]
      exact hm

end

/-- A node keeps its tip exactly when the stored header has the hash of the tip. -/
theorem restart_keeps_tip_iff (h : Stopped n tip) : RestartKeeps n ↔ KeepsTip n tip := by
  obtain ⟨hstripped, hheight, ps, hps, htip⟩ := h.stored
  have hload {ps₀ : PersistentState} {db₀ : Bolt.DB}
      (hopen : newPersistentState ps.db = .ok ps₀ db₀) : loadTip ps₀ = .ok tip := by
    rw [← hstripped]
    refine loadTip_of_lookup ?_
    rw [newPersistentState_db hopen, ← htip]
    exact Bolt.lookup_congr (setBuckets_other _ _ _ _ (by decide)) _
  unfold RestartKeeps KeepsTip
  simp only [hps, Option.some.injEq]
  constructor
  · rintro ⟨_, m, rfl, hm, hheight', hhash⟩
    obtain ⟨ps₀, db₀, hopen, hrec⟩ := Node.openNode_eq_ok.1 hm
    exact ⟨ps, ps₀, db₀, rfl, hopen, (recover_tip_iff (hload hopen)).1
      ⟨m, hrec, hheight'.trans hheight, hhash⟩⟩
  · rintro ⟨_, ps₀, db₀, rfl, hopen, hrecovers⟩
    obtain ⟨m, hrec, hheight', hhash⟩ := (recover_tip_iff (hload hopen)).2 hrecovers
    exact ⟨ps, m, rfl, Node.openNode_eq_ok.2 ⟨ps₀, db₀, hopen, hrec⟩, hheight'.trans hheight.symm,
      hhash⟩

end

/-! ### A node on a new database -/

open Sample

def sampleRunning (hash : Hash) : Node :=
  { Node.initial sampleConfig none freshPersistent with
    currentHeight := 1
    currentTipHash := hash }

def sampleTip : BlockHeader := Node.shutdownTip 0 1 freshPersistent

theorem shutdown_sampleRunning (hash : Hash) : Node.shutdown 0 (sampleRunning hash) =
    .ok () ((sampleRunning hash).stopped sampleTip freshPersistent) :=
  Node.shutdown_run rfl (show (1 : UInt64) > 0 by decide)

def sampleReopened : PersistentState :=
  ⟨Bolt.putIn chainBucket tipKey (encodeHeader sampleTip) (opened ∅), ∅, ∅, zeroHash⟩

theorem newPersistentState_sampleReopened :
    newPersistentState sampleReopened.db = .ok sampleReopened sampleReopened.db :=
  (stored_opened_empty.putIn (by decide)).reopen

theorem shutdown_loses_tip : ∃ n n' : Node, Node.shutdown 0 n = .ok () n' ∧ n.currentHeight > 0 ∧
    n.persistent.isSome ∧ ¬ RestartKeeps n' := by
  refine ⟨sampleRunning hashA, _, shutdown_sampleRunning hashA, show (1 : UInt64) > 0 by decide,
    rfl, ?_⟩
  rintro ⟨ps, m, hps, hm, hheight, hhash⟩
  cases hps
  obtain ⟨ps₀, db₀, hopen, hrec⟩ := Node.openNode_eq_ok.1 hm
  cases newPersistentState_sampleReopened.symm.trans hopen
  have htip : loadTip sampleReopened = .ok sampleTip.stripped :=
    loadTip_of_lookup (Bolt.lookup_putIn_self ..)
  rw [show sampleTip.stripped = sampleTip from rfl] at htip
  cases (recover_tip_iff htip).1 ⟨m, hrec, hheight, hhash⟩ with
  | settled _ hsame =>
    exact absurd hsame (by decide)
  | rolled hroot => exact hroot rfl

section

attribute [local instance] constantCrypto

/-- A node that has synced a snapshot with a key is at the same tip after a restart. -/
theorem restart_keeps_synced : ∃ cp snapData n', Node.fastSyncFromCheckpoint cp snapData 1
    (sampleUnsynced ∅) = .ok () n' ∧ RestartKeeps n' := by
  obtain ⟨cp, snap, n', hheight, hhash, hsync, -, -, ps', rfl, hstored, hother⟩ :=
    exists_sync_sampleTarget (n := sampleUnsynced ∅) rfl opened_freshPersistent (sha256 [])
  have hput : Stored (Bolt.putIn chainBucket tipKey (encodeHeader (Node.checkpointTip cp)) ps'.db)
      _ _ := hstored.putIn (by decide)
  refine ⟨cp, _, _, hsync, (restart_keeps_tip_iff (.fastSync (by rw [hheight]; decide) hsync)).2
    ⟨_, _, _, rfl, hput.reopen, .settled (.inr fun cp' hlatest => ?_) hhash.symm⟩⟩
  -- there is no checkpoint in the database
  have hnone : Bolt.lookup (Bolt.putIn chainBucket tipKey (encodeHeader (Node.checkpointTip cp))
      ps'.db) checkpointsBucket latestCheckpointKey = none := by
    rw [Bolt.lookup_congr ((Bolt.get_putIn_of_ne (by decide)).trans hother)]
    rfl
  unfold latestCheckpoint at hlatest
  rw [hnone] at hlatest
  cases hlatest

end

end Dsn
