import Dsn.Network.FastSync

/-!
# `network/fastsync.go`: the runs of the engine

`selectBestSnapshot` ends in `Advance`, which locks the mutex that its caller holds.
-/

namespace Dsn.FastSyncEngine

open Go

def start : Exec FastSyncEngine Unit :=
  locked <| modify fun e =>
    if e.state = .idle then { e with state := .querying, queryRetryCount := 0, collectedInfos := [] }
    else e

/-- `peers` says whether a peer is connected. -/
def startDownloading (peers : Bool) : Exec FastSyncEngine Unit := do
  lock
  let e ← get
  if e.selectedSnapshot.isNone || e.scheduler.isNone || !peers then
    unlock
    setState .live
  else
    modify fun e => { e with collectedChunks := ∅ }
    unlock
    requestMissingChunks

/-- The goroutines of the engine, and what the node calls. -/
inductive Call
  | start
  | startDownloading (peers : Bool)
  | entry (call : EntryPoint)

def Call.run [Crypto] (depth : ℕ) : Call → Exec FastSyncEngine Unit
  | .start => FastSyncEngine.start
  | .startDownloading peers => FastSyncEngine.startDownloading peers
  | .entry call => call.run depth

def Quiet (e : FastSyncEngine) : Prop :=
  e.state ∈ [.idle, .querying, .selecting, .live] ∧ e.snapData = []

/-- No download has started, and a snapshot is selected only where a call is stuck. -/
def Stalled (e : FastSyncEngine) : Prop := Quiet e ∧ (e.mu = .free → e.selectedSnapshot = none)

/-- The mutex is still held, and what selects a snapshot does not return. -/
def Kept (r : EStateM.Result Error FastSyncEngine Unit) : Prop :=
  Quiet (finalState r) ∧ (finalState r).mu = .writing ∧
    ∀ u e', r = .ok u e' → e'.selectedSnapshot = none

def Stalls (body : Exec FastSyncEngine Unit) : Prop :=
  ∀ e, e.mu = .writing → Quiet e → e.selectedSnapshot = none → Kept (body e)

variable {e : FastSyncEngine} {env : SyncEnv} {body : Exec FastSyncEngine Unit} {depth : ℕ}

theorem Quiet.ne_downloading (h : Quiet e) : e.state ≠ .downloading := by
  intro hs
  simp [Quiet, hs] at h

theorem Stalls.locked (hbody : Stalls body) (h : Stalled e) :
    Stalled (finalState (locked body e)) := by
  by_cases hmu : e.mu = .free
  swap
  · rw [FastSyncEngine.locked, bind_eq_error_of (lock_of_held hmu)]
    exact h
  obtain ⟨hquiet, hheld, hselected⟩ := hbody { e with mu := .writing } rfl h.1 (h.2 hmu)
  rw [FastSyncEngine.locked, bind_eq_ok_of (lock_of_free hmu)]
  cases hrun : body { e with mu := .writing } with
  | ok u t =>
    rw [hrun] at hquiet hheld
    have hunlock : unlock t = .ok () { t with mu := .free } := unlock_eq_ok.2 ⟨hheld, rfl⟩
    rw [bind_eq_ok_of hrun, hunlock]
    exact ⟨hquiet, fun _ => hselected u t hrun⟩
  | error err t =>
    rw [hrun] at hquiet hheld
    rw [bind_eq_error_of hrun]
    exact ⟨hquiet, fun hfree => absurd (hheld.symm.trans hfree) (by decide)⟩

theorem stalls_modify {f : FastSyncEngine → FastSyncEngine}
    (h : ∀ e, Quiet e → Quiet (f e) ∧ (f e).mu = e.mu ∧ (f e).selectedSnapshot = e.selectedSnapshot) :
    Stalls (modify f) := by
  intro e hmu hquiet hselected
  obtain ⟨hf, hfmu, hfsel⟩ := h e hquiet
  refine ⟨hf, hfmu.trans hmu, fun u e' hrun => ?_⟩
  rw [← modify_eq_ok.1 hrun, hfsel, hselected]

theorem stalls_setState {state : SyncState} (h : state ∈ [.idle, .querying, .selecting, .live]) :
    Stalls (setState state) := stalls_modify fun _ he => ⟨⟨h, he.2⟩, rfl, rfl⟩

theorem stalls_pure : Stalls (pure ()) := stalls_modify fun _ he => ⟨he, rfl, rfl⟩

theorem stalls_handleQueryRetry : Stalls handleQueryRetry := by
  refine stalls_modify fun e he => ⟨⟨?_, he.2⟩, rfl, rfl⟩
  dsimp only
  split_ifs
  · decide
  · exact he.1

theorem advance_kept (env : SyncEnv) (depth : ℕ) (hmu : e.mu = .writing) (h : Quiet e) :
    Kept (advance env depth e) := by
  cases depth with
  | zero => exact ⟨h, hmu, fun _ _ hrun => by cases hrun⟩
  | succ depth =>
    rw [advance, locked, bind_eq_error_of (lock_of_held (by simp [hmu]))]
    exact ⟨h, hmu, fun _ _ hrun => by cases hrun⟩

theorem stalls_selectBestSnapshot : Stalls (selectBestSnapshot (advance env depth)) := by
  intro e hmu hquiet hselected
  rw [selectBestSnapshot, get_bind]
  split_ifs with hinfos
  · exact ⟨hquiet, hmu, fun u e' hrun => by cases hrun; rfl⟩
  · cases bestSnapshot e.collectedInfos with
    | none => exact advance_kept env depth hmu hquiet
    | some best => exact advance_kept env depth hmu hquiet

theorem stalls_advanceBody : Stalls (advanceBody env (advance env depth)) := by
  intro e hmu hquiet hselected
  rw [advanceBody, get_bind]
  cases hs : e.state with
  | querying =>
    exact stalls_selectBestSnapshot { e with state := .selecting } hmu ⟨by simp, hquiet.2⟩ hselected
  | selecting =>
    rw [hselected]
    exact stalls_setState (by decide) e hmu hquiet hselected
  | idle | live => exact stalls_pure e hmu hquiet hselected
  | downloading | verifying | restoring | replaying =>
    have h := hquiet.1
    simp [hs] at h

variable [Crypto]

theorem stalls_call (call : Call) (h : Stalled e) : Stalled (finalState (call.run depth e)) := by
  cases call with
  | start =>
    refine Stalls.locked (stalls_modify fun e he => ?_) h
    split_ifs
    · exact ⟨⟨by simp, he.2⟩, rfl, rfl⟩
    · exact ⟨he, rfl, rfl⟩
  | startDownloading peers =>
    have hlive : SyncState.live ∈ [SyncState.idle, .querying, .selecting, .live] := by decide
    simp only [Call.run, FastSyncEngine.startDownloading]
    by_cases hmu : e.mu = .free
    · rw [bind_eq_ok_of (lock_of_free hmu), get_bind, if_pos (by simp [h.2 hmu])]
      exact ⟨⟨hlive, h.1.2⟩, fun _ => h.2 hmu⟩
    · rw [bind_eq_error_of (lock_of_held hmu)]
      exact h
  | entry call =>
    cases call with
    | advance env => exact stalls_advanceBody.locked h
    | handleSnapshotInfo info =>
      cases info with
      | none => exact h
      | some info =>
        refine Stalls.locked (stalls_modify fun e he => ?_) h
        split_ifs <;> exact ⟨he, rfl, rfl⟩
    | handleSnapshotChunk env chunk =>
      cases chunk with
      | none => exact h
      | some chunk =>
        refine Stalls.locked (fun e hmu hquiet hselected => ?_) h
        rw [get_bind]
        cases hs : e.state with
        | downloading => exact absurd hs hquiet.ne_downloading
        | _ => exact stalls_pure e hmu hquiet hselected
    | getScheduler =>
      obtain ⟨mu⟩ := e
      cases mu with
      | free | reading => exact ⟨h.1, fun hfree => by cases hfree⟩
      | writing => exact h
    | queryTimeout env =>
      refine Stalls.locked (fun e hmu hquiet hselected => ?_) h
      rw [get_bind]
      split_ifs
      · exact stalls_selectBestSnapshot { e with state := .selecting } hmu ⟨by simp, hquiet.2⟩
          hselected
      · exact stalls_handleQueryRetry e hmu hquiet hselected
    | downloadTick env =>
      refine Stalls.locked (fun e hmu hquiet hselected => ?_) h
      rw [get_bind, if_neg hquiet.ne_downloading]
      exact stalls_pure e hmu hquiet hselected

/-- No run of a new engine gets as far as a download. -/
theorem never_downloads (depth : ℕ) (calls : List Call) :
    Stalled (calls.foldl (fun e call => finalState (call.run depth e)) new) := by
  refine List.foldlRecOn calls _ ?_ fun e h call _ => stalls_call call h
  exact ⟨⟨by decide, rfl⟩, fun _ => rfl⟩

end Dsn.FastSyncEngine
