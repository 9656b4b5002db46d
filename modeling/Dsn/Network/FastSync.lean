import Dsn.Network.Peers
import Dsn.State.Chunks

/-!
# `network/fastsync.go`: the fast sync engine

The engine holds its mutex as data: a call that locks it twice deadlocks, one that unlocks what it
does not hold aborts. `Safe` is what a call has to find in order to return.
-/

namespace Dsn

open Go Guarded

/-! ### The chunk scheduler -/

structure ChunkScheduler where
  totalChunks : UInt32
  received : List Bool
  peerChunks : Map PeerID (List UInt32)
  peerIndex : Map PeerID ℕ
  size : received.length = totalChunks.toNat

namespace ChunkScheduler

def new (totalChunks : UInt32) : ChunkScheduler :=
  ⟨totalChunks, List.replicate totalChunks.toNat false, ∅, ∅, List.length_replicate⟩

def markReceived (index : UInt32) (cs : ChunkScheduler) : Bool × ChunkScheduler :=
  if index ≥ cs.totalChunks then (false, cs)
  else if cs.received.getD index.toNat false then (false, cs)
  else (true, { cs with
    received := cs.received.set index.toNat true, size := by simpa using cs.size })

def isComplete (cs : ChunkScheduler) : Bool := cs.received.all id

theorem isComplete_of_set {cs cs' : ChunkScheduler} {i : ℕ}
    (h : cs'.received = cs.received.set i true) :
    cs'.isComplete = false ↔ ∃ j ≠ i, cs.received[j]? = some false := by
  have hfalse : cs'.isComplete = false ↔ ∃ j : ℕ, cs'.received[j]? = some false := by
    simp [isComplete, List.mem_iff_getElem?]
  rw [hfalse, h]
  refine exists_congr fun j => ?_
  rw [List.getElem?_set]
  split_ifs <;> grind

end ChunkScheduler

/-! ### The engine -/

inductive SyncState
  | idle | querying | selecting | downloading | verifying | restoring | replaying | live
  deriving DecidableEq

structure SnapshotInfo where
  height : UInt64
  snapshotHash : Hash
  epoch : UInt64
  timestamp : UInt64
  chunkCount : UInt32

inductive Lock
  | free | reading | writing
  deriving DecidableEq

structure FastSyncEngine where
  mu : Lock
  state : SyncState
  collectedInfos : List SnapshotInfo
  selectedSnapshot : Option SnapshotInfo
  scheduler : Option ChunkScheduler
  totalChunks : UInt32
  snapData : Bytes
  collectedChunks : Map UInt32 SnapshotChunk
  maxQueryRetries : ℕ
  queryRetryCount : ℕ

structure SyncEnv where
  tipHeight : UInt64
  restoreFails : Bool
  replayFails : Bool

def FastSyncEngine.new : FastSyncEngine := ⟨.free, .idle, [], none, none, 0, [], ∅, 3, 0⟩

def deadlock : Error := .panic "all goroutines are asleep - deadlock!"

namespace FastSyncEngine

def lock : Exec FastSyncEngine Unit := do
  failIf ((← get).mu ≠ .free) deadlock
  modify fun e => { e with mu := .writing }

def rlock : Exec FastSyncEngine Unit := do
  failIf ((← get).mu = .writing) deadlock
  modify fun e => { e with mu := .reading }

def unlock : Exec FastSyncEngine Unit := do
  failIf ((← get).mu ≠ .writing) (.panic "sync: Unlock of unlocked RWMutex")
  modify fun e => { e with mu := .free }

def locked (body : Exec FastSyncEngine Unit) : Exec FastSyncEngine Unit := do
  lock
  body
  unlock

def setState (state : SyncState) : Exec FastSyncEngine Unit :=
  modify fun e => { e with state }

def fallBackToLiveSync : Exec FastSyncEngine Unit := locked (setState .live)

def replayBlocks (env : SyncEnv) (snapshotHeight : UInt64) : Exec FastSyncEngine Unit :=
  if env.tipHeight ≤ snapshotHeight then locked (setState .live)
  else if env.replayFails then fallBackToLiveSync
  else locked (setState .live)

def bestSnapshot (infos : List SnapshotInfo) : Option SnapshotInfo :=
  infos.foldl (fun best info =>
    if info.snapshotHash = zeroHash then best
    else match best with
      | none => some info
      | some b =>
        if info.height > b.height ∨ (info.height = b.height ∧ info.timestamp > b.timestamp)
        then some info else some b) none

def selectBestSnapshot (advance : Exec FastSyncEngine Unit) : Exec FastSyncEngine Unit := do
  let e ← get
  if e.collectedInfos = [] then modify fun e => { e with selectedSnapshot := none }
  else
    match bestSnapshot e.collectedInfos with
    | some best => modify fun e => { e with
        selectedSnapshot := some best, totalChunks := best.chunkCount
        scheduler := some (.new best.chunkCount) }
    | none => modify fun e => { e with selectedSnapshot := none }
    advance

def advanceBody (env : SyncEnv) (advance : Exec FastSyncEngine Unit) :
    Exec FastSyncEngine Unit := do
  let e ← get
  match e.state with
  | .querying =>
    setState .selecting
    selectBestSnapshot advance
  | .selecting => setState (if e.selectedSnapshot.isSome then .downloading else .live)
  | .verifying =>
    setState .restoring
    unlock
    -- the result of the restore is not looked at
    lock
    setState .replaying
    unlock
    e.selectedSnapshot.forM fun info => replayBlocks env info.height
  | .restoring => setState .replaying
  | .replaying => setState .live
  | .idle | .downloading | .live => pure ()

/-- The calls nest at most `depth` deep. -/
def advance (env : SyncEnv) : ℕ → Exec FastSyncEngine Unit
  | 0 => throw (.panic "stack overflow")
  | depth + 1 => locked (advanceBody env (advance env depth))

def handleSnapshotInfo (info : SnapshotInfo) : Exec FastSyncEngine Unit :=
  locked <| modify fun e =>
    if e.state = .querying ∧ info.snapshotHash ∉ e.collectedInfos.map SnapshotInfo.snapshotHash
    then { e with collectedInfos := e.collectedInfos ++ [info] } else e

def handleQueryRetry : Exec FastSyncEngine Unit :=
  modify fun e => { e with
    queryRetryCount := e.queryRetryCount + 1
    state := if e.queryRetryCount + 1 ≥ e.maxQueryRetries then .live else e.state }

/-- The timer of `queryPeers` has fired. -/
def queryTimeout (env : SyncEnv) (depth : ℕ) : Exec FastSyncEngine Unit := locked do
  if (← get).collectedInfos ≠ [] then
    setState .selecting
    selectBestSnapshot (advance env depth)
  else handleQueryRetry

def getScheduler : Exec FastSyncEngine (Option ChunkScheduler) := do
  rlock
  let e ← get
  unlock
  return e.scheduler

def requestMissingChunks : Exec FastSyncEngine Unit := do
  let e ← get
  match e.scheduler, e.selectedSnapshot with
  | some cs, some _ =>
    failIf (cs.received.length < e.totalChunks.toNat) (.panic "index out of range")
  | _, _ => pure ()

/-! ### The mutex -/

/-- The call ends and leaves the mutex free. -/
def Returns (x : Exec FastSyncEngine Unit) (e : FastSyncEngine) : Prop :=
  ∃ e', x e = .ok () e' ∧ e'.mu = .free

variable {e e' : FastSyncEngine} {u : Unit} {body : Exec FastSyncEngine Unit} {env : SyncEnv}
  {chunk : SnapshotChunk} {cs : ChunkScheduler} {depth : ℕ}

theorem lock_eq_ok : lock e = .ok u e' ↔ e.mu = .free ∧ { e with mu := .writing } = e' := by
  simp [lock, bind_eq_ok]

theorem lock_of_free (h : e.mu = .free) : lock e = .ok () { e with mu := .writing } :=
  lock_eq_ok.2 ⟨h, rfl⟩

theorem lock_of_held (h : e.mu ≠ .free) : lock e = .error deadlock e := by
  rw [lock, get_bind]
  exact bind_eq_error_of (failIf_of _ h e)

theorem unlock_eq_ok : unlock e = .ok u e' ↔ e.mu = .writing ∧ { e with mu := .free } = e' := by
  simp [unlock, bind_eq_ok]

theorem returns_locked_iff (P : FastSyncEngine → Prop) (h : e.mu = .free)
    (hP : P { e with mu := .writing } ↔ P e) (hbody : ∀ t, t.mu = .writing →
      ((∃ e', body t = .ok () e' ∧ e'.mu = .writing) ↔ P t)) : Returns (locked body) e ↔ P e := by
  rw [← hP, ← hbody _ rfl]
  simp only [Returns, locked, bind_eq_ok, lock_eq_ok, unlock_eq_ok]
  constructor
  · rintro ⟨_, ⟨_, _, ⟨-, rfl⟩, _, t, hbody, hmu, rfl⟩, -⟩
    exact ⟨t, hbody, hmu⟩
  · rintro ⟨t, hbody, hmu⟩
    exact ⟨_, ⟨(), _, ⟨h, rfl⟩, (), t, hbody, hmu, rfl⟩, rfl⟩

theorem mu_of_locked (h : locked body e = .ok u e') : e'.mu = .free := by
  simp only [locked, bind_eq_ok, unlock_eq_ok] at h
  obtain ⟨_, _, -, _, _, -, -, rfl⟩ := h
  rfl

theorem mu_of_replayBlocks {height : UInt64} (h : replayBlocks env height e = .ok u e') :
    e'.mu = .free := by
  unfold replayBlocks at h
  split_ifs at h <;> exact mu_of_locked h

theorem advance_ne_ok (h : e.mu ≠ .free) : advance env depth e ≠ .ok u e' := by
  cases depth with
  | zero => simp [advance]
  | succ depth => simp [advance, locked, bind_eq_ok, lock_eq_ok, h]

theorem selectBestSnapshot_ok_iff (h : e.mu = .writing) :
    (∃ e', selectBestSnapshot (advance env depth) e = .ok () e' ∧ e'.mu = .writing) ↔
      e.collectedInfos = [] := by
  unfold selectBestSnapshot
  rw [get_bind]
  split_ifs with hinfos
  · simp [hinfos, h]
  · cases bestSnapshot e.collectedInfos <;>
      simp [hinfos, modify_bind, advance_ne_ok, h]

theorem advanceBody_ok_iff (h : e.mu = .writing) :
    (∃ e', advanceBody env (advance env depth) e = .ok () e' ∧ e'.mu = .writing) ↔
      e.state ≠ .verifying ∧ (e.state = .querying → e.collectedInfos = []) := by
  simp only [advanceBody, get_bind]
  cases e.state with
  | querying => simp [setState, modify_bind, selectBestSnapshot_ok_iff, h]
  | verifying =>
    refine iff_of_false ?_ (by simp)
    rintro ⟨e', hrun, hmu⟩
    simp only [setState, modify_bind, bind_eq_ok, unlock_eq_ok] at hrun
    obtain ⟨_, _, -, _, _, -, _, _, ⟨-, rfl⟩, hreplay⟩ := hrun
    cases hsel : e.selectedSnapshot with
    | none =>
      rw [hsel] at hreplay
      obtain rfl := (pure_eq_ok.1 hreplay).2
      cases hmu
    | some info =>
      rw [hsel] at hreplay
      cases (mu_of_replayBlocks hreplay).symm.trans hmu
  | _ => simp [setState, h]

/-! ### The download -/

section

variable [Crypto]

def restoreSnapshot (env : SyncEnv) : Exec FastSyncEngine Unit := do
  lock
  let e ← get
  if e.snapData = [] then
    unlock
    fallBackToLiveSync
  else
    match e.selectedSnapshot with
    | none => throw (.panic "nil pointer dereference")
    | some info =>
      unlock
      if env.restoreFails then fallBackToLiveSync
      else
        locked (setState .replaying)
        replayBlocks env info.height

def verifyDownloadedSnapshot (env : SyncEnv) : Exec FastSyncEngine Unit := locked do
  let e ← get
  if e.collectedChunks.isEmpty then fallBackToLiveSync
  else match reassembleSnapshot maxAlloc (e.collectedChunks.toList.map Prod.snd) with
    | .error err => if err.isPanic then throw err else setState .live
    | .ok assembled =>
      if e.selectedSnapshot.any fun info => snapshotHash assembled ≠ info.snapshotHash
      then setState .live
      else
        set { e with snapData := assembled, state := .restoring }
        unlock
        restoreSnapshot env

def advanceToVerifying (env : SyncEnv) : Exec FastSyncEngine Unit := do
  lock
  if (← get).state ≠ .downloading then unlock
  else
    setState .verifying
    unlock
    verifyDownloadedSnapshot env

def handleSnapshotChunk (env : SyncEnv) (chunk : SnapshotChunk) : Exec FastSyncEngine Unit :=
  locked do
    let e ← get
    match e.state, e.scheduler with
    | .downloading, some cs =>
      match cs.received[chunk.index.toNat]? with
      | none => throw (.panic "index out of range")
      | some true => pure ()
      | some false =>
        if verifyChunk chunk then
          let marked := cs.markReceived chunk.index
          modify fun e => { e with scheduler := some marked.2 }
          if marked.1 then
            modify fun e => { e with collectedChunks := e.collectedChunks.insert chunk.index chunk }
            if marked.2.isComplete then advanceToVerifying env
    | _, _ => pure ()

/-- A tick of the download manager. -/
def downloadTick (env : SyncEnv) : Exec FastSyncEngine Unit := locked do
  if (← get).state = .downloading then
    requestMissingChunks
    if ((← get).scheduler.any fun cs => cs.isComplete) then advanceToVerifying env

/-! ### The calls that return -/

inductive EntryPoint
  | advance (env : SyncEnv)
  | handleSnapshotInfo (info : Option SnapshotInfo)
  | handleSnapshotChunk (env : SyncEnv) (chunk : Option SnapshotChunk)
  | getScheduler
  | queryTimeout (env : SyncEnv)
  | downloadTick (env : SyncEnv)

def EntryPoint.run (depth : ℕ) : EntryPoint → Exec FastSyncEngine Unit
  | .advance env => FastSyncEngine.advance env (depth + 1)
  | .handleSnapshotInfo info => info.forM FastSyncEngine.handleSnapshotInfo
  | .handleSnapshotChunk env chunk => chunk.forM (FastSyncEngine.handleSnapshotChunk env)
  | .getScheduler => do let _ ← FastSyncEngine.getScheduler
  | .queryTimeout env => FastSyncEngine.queryTimeout env depth
  | .downloadTick env => FastSyncEngine.downloadTick env

/-- What a call may find the engine in. -/
def EntryPoint.Safe : EntryPoint → FastSyncEngine → Prop
  | .advance _, e => e.state ≠ .verifying ∧ (e.state = .querying → e.collectedInfos = [])
  | .handleSnapshotInfo _, _ => True
  | .handleSnapshotChunk _ chunk, e => e.state = .downloading → ∀ c ∈ chunk, ∀ cs ∈ e.scheduler,
    c.index < cs.totalChunks ∧ (cs.received[c.index.toNat]? = some false → verifyChunk c = true →
      ∃ i ≠ c.index.toNat, cs.received[i]? = some false)
  | .getScheduler, _ => False
  | .queryTimeout _, e => e.collectedInfos = []
  | .downloadTick _, e => e.state = .downloading → ∀ cs ∈ e.scheduler,
    cs.isComplete = false ∧ (e.selectedSnapshot.isSome → e.totalChunks ≤ cs.totalChunks)

theorem advanceToVerifying_of_held (h : e.mu = .writing) :
    advanceToVerifying env e = .error deadlock e :=
  bind_eq_error_of (lock_of_held (by simp [h]))

theorem handleSnapshotChunk_idle (hmu : e.mu = .free)
    (h : e.state = .downloading → e.scheduler = none) :
    handleSnapshotChunk env chunk e = .ok () e := by
  obtain ⟨mu, state, infos, selected, sched, total, data, chunks, max, count⟩ := e
  obtain rfl : mu = .free := hmu
  cases state
  case downloading =>
    obtain rfl : sched = none := h rfl
    rfl
  all_goals rfl

theorem handleSnapshotChunk_cases (env : SyncEnv) (chunk : SnapshotChunk) (hmu : e.mu = .free)
    (hs : e.state = .downloading) (hsched : e.scheduler = some cs) :
    ¬ chunk.index < cs.totalChunks ∧ (∃ e', handleSnapshotChunk env chunk e =
        .error (.panic "index out of range") e' ∧ e' = { e with mu := .writing }) ∨
    chunk.index < cs.totalChunks ∧ (cs.received[chunk.index.toNat]? = some true ∨
      verifyChunk chunk = false) ∧ handleSnapshotChunk env chunk e = .ok () e ∨
    chunk.index < cs.totalChunks ∧ cs.received[chunk.index.toNat]? = some false ∧
      verifyChunk chunk = true ∧ ∃ cs' e', cs'.totalChunks = cs.totalChunks ∧
        cs'.received = cs.received.set chunk.index.toNat true ∧ e' = { e with
          scheduler := some cs', collectedChunks := e.collectedChunks.insert chunk.index chunk } ∧
        handleSnapshotChunk env chunk e = if cs'.isComplete then
          .error deadlock { e' with mu := .writing } else .ok () e' := by
  have hlt : chunk.index < cs.totalChunks ↔ chunk.index.toNat < cs.received.length := by
    rw [cs.size, UInt32.lt_iff_toNat_lt]
  obtain ⟨mu, state, infos, selected, sched, total, data, chunks, max, count⟩ := e
  obtain ⟨rfl, rfl, rfl⟩ : mu = .free ∧ state = .downloading ∧ sched = some cs := ⟨hmu, hs, hsched⟩
  rw [handleSnapshotChunk, locked, bind_eq_ok_of (lock_of_free rfl), bind_assoc, get_bind]
  dsimp only
  rcases hrec : cs.received[chunk.index.toNat]? with _ | _ | _
  · exact .inl ⟨mt hlt.1 (not_lt.2 (List.getElem?_eq_none_iff.1 hrec)), _, rfl, rfl⟩
  · have hidx := hlt.2 (List.getElem?_eq_some_iff.1 hrec).1
    by_cases hv : verifyChunk chunk = true
    · obtain ⟨cs', hmark, htotal, hset⟩ : ∃ cs', cs.markReceived chunk.index = (true, cs') ∧
          cs'.totalChunks = cs.totalChunks ∧
            cs'.received = cs.received.set chunk.index.toNat true := by
        simp [ChunkScheduler.markReceived, UInt32.not_le.2 hidx, hrec]
      refine .inr (.inr ⟨hidx, rfl, hv, cs', _, htotal, hset, rfl, ?_⟩)
      simp only [hv, hmark, if_true, bind_assoc, modify_bind]
      split_ifs
      · exact bind_eq_error_of (advanceToVerifying_of_held rfl)
      · rfl
    · exact .inr (.inl ⟨hidx, .inr (by simpa using hv), by simp only [hv]; rfl⟩)
  · exact .inr (.inl ⟨hlt.2 (List.getElem?_eq_some_iff.1 hrec).1, .inl rfl, rfl⟩)

theorem returns_handleSnapshotChunk_iff (h : e.mu = .free) :
    Returns (handleSnapshotChunk env chunk) e ↔
    (EntryPoint.handleSnapshotChunk env chunk).Safe e := by
  unfold Returns
  simp only [EntryPoint.Safe]
  by_cases hidle : e.state = .downloading → e.scheduler = none
  · refine iff_of_true ⟨e, handleSnapshotChunk_idle h hidle, h⟩ fun hs _ _ cs hcs => ?_
    rw [hidle hs] at hcs
    cases hcs
  obtain ⟨hs, hne⟩ := Classical.not_imp.1 hidle
  obtain ⟨cs, hsched⟩ := Option.ne_none_iff_exists'.1 hne
  rcases handleSnapshotChunk_cases env chunk h hs hsched with
    ⟨hlt, _, hrun, -⟩ | ⟨hlt, hno, hrun⟩ | ⟨hlt, hrec, hv, cs', e', -, hset, rfl, hrun⟩
  · simp [hrun, hlt, hs, hsched]
  · rcases hno with hno | hno <;> simp [hrun, hlt, hno, h, hsched]
  · have hcomplete := ChunkScheduler.isComplete_of_set hset
    simp only [hs, hsched, hrun, hlt, hrec, hv, Option.mem_def, Option.some.injEq, forall_eq',
      forall_const, true_and, ← hcomplete]
    cases hc : cs'.isComplete with
    | true => exact iff_of_false (by rintro ⟨_, ⟨⟩, _⟩) Bool.false_ne_true.symm
    | false => exact iff_of_true ⟨_, rfl, h⟩ rfl

theorem returns_downloadTick_iff (h : e.mu = .free) :
    Returns (downloadTick env) e ↔ (EntryPoint.downloadTick env).Safe e := by
  refine returns_locked_iff (EntryPoint.Safe _) h Iff.rfl fun t ht => ?_
  rw [get_bind]
  unfold EntryPoint.Safe requestMissingChunks
  by_cases hs : t.state = .downloading
  swap
  · simp [hs, ht]
  rw [if_pos hs]
  cases hsched : t.scheduler with
  | none => simp [get_bind, hsched, ht]
  | some cs =>
    have hle : t.totalChunks ≤ cs.totalChunks ↔ ¬ cs.received.length < t.totalChunks.toNat := by
      rw [not_lt, cs.size, UInt32.le_iff_toNat_le]
    cases hsel : t.selectedSnapshot <;> cases hc : cs.isComplete <;>
      simp [bind_eq_ok, hsched, hsel, hs, hc, advanceToVerifying_of_held, ht, hle]

theorem EntryPoint.returns_iff (call : EntryPoint) (h : e.mu = .free) :
    Returns (call.run depth) e ↔ call.Safe e := by
  cases call with
  | advance env =>
    exact returns_locked_iff (Safe (.advance env)) h Iff.rfl fun t ht => advanceBody_ok_iff ht
  | handleSnapshotInfo info =>
    refine iff_of_true ?_ trivial
    cases info with
    | none => exact ⟨e, rfl, h⟩
    | some info =>
      refine (returns_locked_iff (fun _ => True) h Iff.rfl fun t ht => ?_).2 trivial
      refine iff_of_true ⟨_, rfl, ?_⟩ trivial
      dsimp only
      split_ifs <;> exact ht
  | handleSnapshotChunk env chunk =>
    cases chunk with
    | none => simp [run, Safe, Returns, h]
    | some c => exact returns_handleSnapshotChunk_iff h
  | getScheduler =>
    refine iff_of_false ?_ id
    simp [run, Returns, FastSyncEngine.getScheduler, rlock, bind_eq_ok, unlock_eq_ok]
  | queryTimeout env =>
    refine returns_locked_iff (Safe (.queryTimeout env)) h Iff.rfl fun t ht => ?_
    rw [get_bind, Safe]
    split_ifs with hinfos
    · simp [setState, modify_bind, selectBestSnapshot_ok_iff, ht]
    · simp [handleQueryRetry, not_not.1 hinfos, ht]
  | downloadTick env => exact returns_downloadTick_iff h

/-- The mutex is free after every call exactly if each finds the engine safe for it. -/
theorem lock_discipline_iff (depth : ℕ) (calls : List EntryPoint) (e : FastSyncEngine)
    (h : e.mu = .free) :
    Runs (fun call => Returns (call.run depth)) (fun call e => finalState (call.run depth e)) e
      calls ↔
      Runs EntryPoint.Safe (fun call e => finalState (call.run depth e)) e calls := by
  induction calls generalizing e with
  | nil => rfl
  | cons call rest ih =>
    rw [Runs, Runs, ← call.returns_iff h]
    refine and_congr_right ?_
    rintro ⟨e', hrun, hfree⟩
    rw [hrun]
    exact ih e' hfree

end

section

open Sample

theorem get_scheduler_aborts : ¬ ∀ (depth : ℕ) (calls : List EntryPoint),
    Runs (fun call => Returns (call.run depth)) (fun call e => finalState (call.run depth e)) new
      calls := fun h =>
  (EntryPoint.returns_iff .getScheduler rfl).1 (h 0 [.getScheduler]).1

def sampleInfo : SnapshotInfo := ⟨1, zeroHash, 0, 0, 2⟩

def sampleDownload : FastSyncEngine :=
  { new with
    state := .downloading, selectedSnapshot := some sampleInfo, scheduler := some (.new 2) }

/-- A chunk of a snapshot of three. -/
def foreignChunk : SnapshotChunk := ⟨0, 3, zeroHash, sha256 [], []⟩

/-- The first of two chunks arrives, the manager ticks, and a peer announces a snapshot. -/
theorem lock_discipline_of_chunk : Runs (fun call => Returns (EntryPoint.run 0 call))
    (fun call e => finalState (call.run 0 e)) sampleDownload
    [.handleSnapshotChunk ⟨0, false, false⟩ (some foreignChunk), .downloadTick ⟨0, false, false⟩,
      .handleSnapshotInfo (some sampleInfo)] := by
  refine (lock_discipline_iff 0 _ sampleDownload rfl).2 ⟨?_, ?_, trivial, trivial⟩
  · rintro - c hc cs hcs
    cases hc
    cases hcs
    exact ⟨by decide, fun _ _ => ⟨1, by decide, by decide⟩⟩
  · rintro - cs hcs
    cases hcs
    exact ⟨by decide, fun _ => by decide⟩

end

/-! ### What a download accepts -/

section

variable [Crypto]

def Fits (info : SnapshotInfo) (c : SnapshotChunk) : Prop :=
  c.index < info.chunkCount ∧ c.snapshotHash = info.snapshotHash ∧
    c.totalCount = info.chunkCount ∧ verifyChunk c = true

def deliver (env : SyncEnv) (c : SnapshotChunk) (e : FastSyncEngine) : FastSyncEngine :=
  finalState (handleSnapshotChunk env c e)

def AcceptsExactly (info : SnapshotInfo) (env : SyncEnv) (c : SnapshotChunk)
    (e : FastSyncEngine) : Prop :=
  (∀ err e', handleSnapshotChunk env c e = .error err e' → err = deadlock) ∧
    (Fits info c ∨ (deliver env c e).scheduler = e.scheduler ∧
      (deliver env c e).collectedChunks = e.collectedChunks)

def Deliverable (info : SnapshotInfo) (c : SnapshotChunk) (e : FastSyncEngine) : Prop :=
  e.mu = .free → e.state = .downloading → c.index < info.chunkCount ∧
    ∀ cs ∈ e.scheduler, cs.received[c.index.toNat]? = some false → verifyChunk c = true →
      c.snapshotHash = info.snapshotHash ∧ c.totalCount = info.chunkCount

def Selected (info : SnapshotInfo) (e : FastSyncEngine) : Prop :=
  e.selectedSnapshot = some info ∧ ∃ cs, e.scheduler = some cs ∧ cs.totalChunks = info.chunkCount

variable {info : SnapshotInfo}

theorem acceptsExactly_iff (h : Selected info e) :
    (AcceptsExactly info env chunk e ↔ Deliverable info chunk e) ∧
      Selected info (deliver env chunk e) := by
  obtain ⟨hsel, cs, hsched, hcount⟩ := h
  unfold AcceptsExactly Deliverable deliver
  by_cases hmu : e.mu = .free
  swap
  · rw [handleSnapshotChunk, locked, bind_eq_error_of (lock_of_held hmu)]
    exact ⟨by simp [hmu, finalState], hsel, cs, hsched, hcount⟩
  by_cases hs : e.state = .downloading
  swap
  · rw [handleSnapshotChunk_idle hmu fun h => absurd h hs]
    exact ⟨by simp [hs, finalState], hsel, cs, hsched, hcount⟩
  rcases handleSnapshotChunk_cases env chunk hmu hs hsched with
    ⟨hlt, _, hrun, rfl⟩ | ⟨hlt, hno, hrun⟩ | ⟨hlt, hrec, hv, cs', e', htotal, hset, rfl, hrun⟩
  · rw [hrun]
    refine ⟨iff_of_false (fun h => ?_) fun h => ?_, hsel, cs, hsched, hcount⟩
    · exact absurd (h.1 _ _ rfl) (by decide)
    · exact hlt (hcount ▸ (h hmu hs).1)
  · rw [hrun]
    refine ⟨iff_of_true ⟨nofun, .inr ⟨rfl, rfl⟩⟩ fun _ _ => ⟨hcount ▸ hlt, fun _ hcs hrec hv => ?_⟩,
      hsel, cs, hsched, hcount⟩
    cases hsched.symm.trans hcs
    rcases hno with hno | hno
    · cases hno.symm.trans hrec
    · cases hno.symm.trans hv
  · -- the chunk is stored, so it must fit
    have hne : some cs' ≠ e.scheduler := by
      rw [hsched]
      rintro ⟨⟩
      grind
    have hfits : Fits info chunk ↔
        chunk.snapshotHash = info.snapshotHash ∧ chunk.totalCount = info.chunkCount := by
      simp [Fits, ← hcount, hlt, hv]
    have hdeliver : Fits info chunk ↔ (e.mu = .free → e.state = .downloading →
        chunk.index < info.chunkCount ∧ ∀ cs ∈ e.scheduler,
          cs.received[chunk.index.toNat]? = some false → verifyChunk chunk = true →
            chunk.snapshotHash = info.snapshotHash ∧ chunk.totalCount = info.chunkCount) := by
      rw [hfits]
      constructor
      · rintro hsame - -
        exact ⟨hcount ▸ hlt, fun _ _ _ _ => hsame⟩
      · intro h
        exact (h hmu hs).2 cs hsched hrec hv
    rw [← hdeliver, hrun]
    cases hc : cs'.isComplete with
    | true =>
      refine ⟨⟨fun h => h.2.resolve_right fun hkept => hne hkept.1, fun hfit => ⟨?_, .inl hfit⟩⟩,
        hsel, cs', rfl, htotal.trans hcount⟩
      rintro _ _ ⟨⟩
      rfl
    | false =>
      refine ⟨⟨fun h => h.2.resolve_right fun hkept => hne hkept.1, fun hfit => ⟨?_, .inl hfit⟩⟩,
        hsel, cs', rfl, htotal.trans hcount⟩
      rintro _ _ ⟨⟩

/-- Exactly the chunks selected are accepted exactly if each may be delivered. -/
theorem download_exact_iff (env : SyncEnv) (info : SnapshotInfo) (chunks : List SnapshotChunk)
    (e : FastSyncEngine) (h : Selected info e) :
    Runs (AcceptsExactly info env) (deliver env) e chunks ↔
      Runs (Deliverable info) (deliver env) e chunks := by
  induction chunks generalizing e with
  | nil => rfl
  | cons chunk rest ih =>
    obtain ⟨hiff, hnext⟩ := acceptsExactly_iff h
    rw [Runs, Runs, hiff, ih _ hnext]

end

open Sample

theorem foreign_chunk_accepted : ¬ ∀ (env : SyncEnv) (info : SnapshotInfo)
    (chunks : List SnapshotChunk) (e : FastSyncEngine), Selected info e →
      Runs (AcceptsExactly info env) (deliver env) e chunks := by
  intro h
  have hsel : Selected sampleInfo sampleDownload := ⟨rfl, _, rfl, rfl⟩
  have haccepts := (h ⟨0, false, false⟩ sampleInfo [foreignChunk] _ hsel).1
  have hverified : verifyChunk foreignChunk = true := by simp [verifyChunk, foreignChunk]
  have hcount := (((acceptsExactly_iff hsel).1.1 haccepts rfl rfl).2 _ rfl rfl hverified).2
  exact absurd hcount (by decide)

theorem download_exact_of_fitting : Runs (AcceptsExactly sampleInfo ⟨0, false, false⟩)
    (deliver ⟨0, false, false⟩) sampleDownload [{ foreignChunk with totalCount := 2 }] :=
  (download_exact_iff _ _ _ _ ⟨rfl, _, rfl, rfl⟩).2
    ⟨fun _ _ => ⟨by decide, fun _ _ _ _ => ⟨rfl, rfl⟩⟩, trivial⟩

end FastSyncEngine

end Dsn
