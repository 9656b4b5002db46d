import Dsn.VM.Walk

/-!
# The frame of contract code

Contract code writes code, metadata and storage keys, and nothing else.
-/

namespace Dsn

open Go InMemoryState

variable {key : Bytes} {s : InMemoryState} {vm : VM} {height timestamp : UInt64} {txIndex : UInt32}

structure KeyFrame (P : Bytes → Prop) (s s' : InMemoryState) : Prop where
  accounts : s'.accounts = s.accounts
  snapshots : s'.snapshots = s.snapshots
  keys : ∀ key, ¬ P key → s'.getBytes key = s.getBytes key

section

variable {P : Bytes → Prop}

instance : Std.Refl (KeyFrame P) := ⟨fun _ => ⟨rfl, rfl, fun _ _ => rfl⟩⟩

instance : IsTrans InMemoryState (KeyFrame P) :=
  ⟨fun _ _ _ h h' => ⟨h'.accounts.trans h.accounts, h'.snapshots.trans h.snapshots,
    fun key hk => (h'.keys key hk).trans (h.keys key hk)⟩⟩

theorem KeyFrame.mono {Q : Bytes → Prop} {s s' : InMemoryState} (h : KeyFrame P s s')
    (hPQ : ∀ key, P key → Q key) : KeyFrame Q s s' :=
  ⟨h.accounts, h.snapshots, fun key hkey => h.keys key fun hP => hkey (hPQ key hP)⟩

theorem KeyFrame.setBytes (h : P key) (value : Bytes) (s : InMemoryState) :
    KeyFrame P s (s.setBytes key value) := by
  refine ⟨rfl, rfl, fun a ha => getBytes_setBytes_of_ne ?_ value s⟩
  rintro rfl
  exact ha h

theorem KeyFrame.foldl_setBytes {l : List (Bytes × View)} (hl : ∀ e ∈ l, P e.1) (mem : Memory)
    (s : InMemoryState) :
    KeyFrame P s (l.foldl (fun st e => st.setBytes e.1 (e.2.bytes mem)) s) := by
  induction l generalizing s with
  | nil => exact Std.Refl.refl s
  | cons e l ih =>
    rw [List.forall_mem_cons] at hl
    exact IsTrans.trans _ _ _ (.setBytes hl.1 _ s) (ih hl.2 _)

end

/-! ### Host functions -/

variable [Crypto]

def IsStorage (key : Bytes) : Prop := ∃ id slot, key = storageKey id slot

/-- The keys of the slots that `SetContractStorage` has accepted a value for. -/
def HostState.written (h : HostState) : List Bytes := h.slots.map Prod.fst

def HostState.Proper (h : HostState) : Prop :=
  h.written.Nodup ∧ ∀ key ∈ h.written, IsStorage key

/-- The host keeps record of all that changes in the state. -/
structure Recorded (h h' : HostState) : Prop where
  accounts : h'.state.accounts = h.state.accounts
  snapshots : h'.state.snapshots = h.state.snapshots
  written : h.written ⊆ h'.written
  proper : h.Proper → h'.Proper
  keys : ∀ key ∉ h'.written, h'.state.getBytes key = h.state.getBytes key

namespace Recorded

theorem of_eq {h h' : HostState} (hstate : h'.state = h.state) (hslots : h'.slots = h.slots) :
    Recorded h h' := by
  have hwritten : h'.written = h.written := congrArg (List.map Prod.fst) hslots
  constructor <;> simp [HostState.Proper, hstate, hwritten]

instance : Std.Refl Recorded := ⟨fun _ => .of_eq rfl rfl⟩

instance : IsTrans HostState Recorded :=
  ⟨fun _ _ _ h h' => ⟨h'.accounts.trans h.accounts, h'.snapshots.trans h.snapshots,
    List.Subset.trans h.written h'.written, fun hp => h'.proper (h.proper hp),
    fun key hkey => (h'.keys key hkey).trans (h.keys key fun hmem => hkey (h'.written hmem))⟩⟩

theorem refresh (h : HostState) : Recorded h h.refresh := by
  have hframe := KeyFrame.foldl_setBytes (P := (· ∈ h.written))
    (fun e he => List.mem_map_of_mem he) h.memory h.state
  exact ⟨hframe.accounts, hframe.snapshots, List.Subset.refl _, id, hframe.keys⟩

theorem storeView (contractID : Hash) (key : Bytes) (v : View) (h : HostState) :
    Recorded h (finalState (storeView contractID key v h)) := by
  have hset : setContractStorage contractID key (v.bytes h.memory) h.state =
      if (v.bytes h.memory).length > 64 * 1024 then
        .error (.new "storage value exceeds 64 KiB limit") h.state
      else .ok () (h.state.setBytes (storageKey contractID key) (v.bytes h.memory)) := by
    unfold setContractStorage
    split_ifs with hlarge
    · exact bind_eq_error_of (failIf_of _ hlarge _)
    · rw [failIf_bind hlarge]
      rfl
  unfold Dsn.storeView
  rw [hset]
  split_ifs
  · exact Std.Refl.refl h
  have hframe := KeyFrame.setBytes (P := (· = storageKey contractID key)) rfl (v.bytes h.memory)
    h.state
  have hwritten : ∀ a, a ∈ (storageKey contractID key :: (h.slots.filter fun e =>
      e.1 ≠ storageKey contractID key).map Prod.fst) ↔
        a = storageKey contractID key ∨ a ∈ h.written := by
    intro a
    by_cases ha : a = storageKey contractID key
    · simp [ha]
    · simp [ha, HostState.written]
  refine ⟨hframe.accounts, hframe.snapshots, ?_, ?_, ?_⟩
  · exact fun a ha => (hwritten a).2 (.inr ha)
  · rintro ⟨hnodup, hstorage⟩
    refine ⟨List.nodup_cons.2 ⟨by simp, hnodup.sublist (List.filter_sublist.map _)⟩, ?_⟩
    intro a ha
    rcases (hwritten a).1 ha with rfl | ha
    · exact ⟨contractID, key, rfl⟩
    · exact hstorage a ha
  · exact fun a ha => hframe.keys a fun heq => ha ((hwritten a).2 (.inl heq))

theorem hostRelation : HostRelation Recorded where
  gas cost h := by
    unfold deductGas
    cases h.meter.deduct cost <;> exact .of_eq rfl rfl
  memory _ _ _ := .of_eq rfl rfl
  store _ _ _ _ _ := .storeView _ _ _ _
  depth _ _ := .of_eq rfl rfl
  log _ _ := .of_eq rfl rfl
  refresh := .refresh

variable {meter : GasMeter} {h : HostState}
  (hr : Recorded (newHostState meter s) h)
include hr

theorem proper_of_new : h.Proper :=
  hr.proper ⟨List.nodup_nil, fun _ hmem => absurd hmem List.not_mem_nil⟩

theorem keyFrame : KeyFrame IsStorage s h.state :=
  ⟨hr.accounts, hr.snapshots,
    fun key hkey => hr.keys key fun hmem => hkey (hr.proper_of_new.2 key hmem)⟩

end Recorded

/-! ### Deployments and calls -/

theorem runConstructors_keyFrame {env : HostEnv} {m : WasmModule} {meter : GasMeter} :
    KeyFrame IsStorage s (finalState (runConstructors env m meter s)) := by
  unfold runConstructors
  cases m.constructor with
  | none => exact Std.Refl.refl s
  | some exportName =>
    dsimp only
    rw [finalState_withHost]
    exact (Recorded.hostRelation.runConstructor env m exportName _ (.of_eq rfl rfl)).keyFrame

theorem executeCall_keyFrame {tx : CallContractTx} :
    KeyFrame IsStorage s (finalState (executeCall vm tx height timestamp txIndex s)) := by
  rcases executeCall_cases vm tx height timestamp txIndex s with ⟨e, hx, -⟩ | ⟨m, hloads, hx⟩ <;>
    rw [hx]
  · exact Std.Refl.refl s
  · rw [finalState_bind_pure, finalState_withHost]
    exact (Recorded.hostRelation.callEntrypoint _ tx m _ (.of_eq rfl rfl)).keyFrame

def ContractTx.contractID : ContractTx → Hash
  | .deploy tx => deriveContractID tx.sender tx.nonce tx.codeHash
  | .call tx => tx.contractID

def ContractTx.deployKeys : ContractTx → List Bytes
  | .deploy tx =>
    [codeKey (sha256 tx.wasmCode), metaKey (deriveContractID tx.sender tx.nonce tx.codeHash)]
  | .call _ => []

theorem deployed_keyFrame (tx : DeployContractTx) (height : UInt64) (s : InMemoryState) :
    KeyFrame (· ∈ (ContractTx.deploy tx).deployKeys) s (deployed tx height s) :=
  IsTrans.trans _ _ _ (.setBytes List.mem_cons_self _ s)
    (.setBytes (List.mem_cons_of_mem _ List.mem_cons_self) _ _)

theorem executeTx_keyFrame (tx : ContractTx) :
    KeyFrame (fun key => IsStorage key ∨ key ∈ tx.deployKeys) s
      (finalState (executeTx vm tx height timestamp txIndex s)) := by
  cases tx with
  | call t => exact executeCall_keyFrame.mono fun _ => .inl
  | deploy t =>
    have hrun : executeTx vm (.deploy t) height timestamp txIndex s =
      executeDeploy vm t height timestamp txIndex s := rfl
    rcases executeDeploy_cases vm t height timestamp txIndex s with
      ⟨e, hx, -⟩ | ⟨hx, -⟩ | ⟨m, meter, hdeploys, hx⟩ <;> rw [hrun, hx]
    · exact Std.Refl.refl s
    · exact Std.Refl.refl s
    · rw [finalState_bind_pure]
      exact IsTrans.trans _ _ _ ((deployed_keyFrame t height s).mono fun _ => .inr)
        (runConstructors_keyFrame.mono fun _ => .inl)

/-! ### All contract keys -/

abbrev ContractFrame : InMemoryState → InMemoryState → Prop :=
  KeyFrame (StartsWith contractTexts)

theorem executeTx_frame (vm : VM) (tx : ContractTx) (height timestamp : UInt64)
    (txIndex : UInt32) : Steps ContractFrame (executeTx vm tx height timestamp txIndex) := by
  intro s
  refine (executeTx_keyFrame tx).mono fun key hkey => ?_
  rcases hkey with ⟨id, slot, rfl⟩ | hkey
  · exact startsWith_storageKey id slot
  cases tx with
  | deploy t =>
    rcases List.mem_pair.1 hkey with rfl | rfl
    · exact startsWith_codeKey _
    · exact startsWith_metaKey _
  | call t => exact absurd hkey List.not_mem_nil

/-! ### Execution with rollback -/

structure VMFrame (s s' : InMemoryState) : Prop where
  accounts : s'.accounts = s.accounts
  keys : SameOutside contractTexts s s'

instance : Std.Refl VMFrame := ⟨fun _ => ⟨rfl, fun _ _ => rfl⟩⟩

instance : IsTrans InMemoryState VMFrame :=
  ⟨fun _ _ _ h h' => ⟨h'.accounts.trans h.accounts, IsTrans.trans _ _ _ h.keys h'.keys⟩⟩

def InMemoryState.saved (s : InMemoryState) : InMemoryState :=
  { s with snapshots := s.snapshots ++ [⟨s.accounts, s.kvstore⟩] }

omit [Crypto] in
theorem rollback_eq {t : InMemoryState} (h : ContractFrame s.saved t) (err : Option Error) :
    rollback s.snapshots.length err t = .ok () { s with smt := t.smt } := by
  have hsnap : t.snapshots = s.snapshots ++ [⟨s.accounts, s.kvstore⟩] := h.snapshots
  unfold rollback revertToSnapshot
  simp [hsnap]

theorem VM.execute_cases (vm : VM) (tx : ContractTx) (height timestamp : UInt64)
    (txIndex : UInt32) (s : InMemoryState) :
    (∃ e t, executeTx vm tx height timestamp txIndex s.saved = .error e t ∧ e.isPanic = true ∧
      vm.execute tx height timestamp txIndex s = .error e t) ∨
    (∃ e t, executeTx vm tx height timestamp txIndex s.saved = .error e t ∧ e.isPanic = false ∧
      vm.execute tx height timestamp txIndex s = .error e { s with smt := t.smt }) ∨
    (∃ result err t, executeTx vm tx height timestamp txIndex s.saved = .ok (result, err) t ∧
      (err.isSome ∨ result.reverted) ∧ vm.execute tx height timestamp txIndex s =
        .ok ({ result with events := [] }, err) { s with smt := t.smt }) ∨
    (∃ result err t, executeTx vm tx height timestamp txIndex s.saved = .ok (result, err) t ∧
      ¬ (err.isSome ∨ result.reverted) ∧
      vm.execute tx height timestamp txIndex s = .ok (result, err) t) := by
  have hframe := executeTx_frame vm tx height timestamp txIndex s.saved
  have hsnapshot : snapshot s = .ok s.snapshots.length s.saved := rfl
  unfold VM.execute
  rw [bind_eq_ok_of hsnapshot]
  cases hr : executeTx vm tx height timestamp txIndex s.saved with
  | error e t =>
    rw [hr] at hframe
    change ContractFrame s.saved t at hframe
    cases he : e.isPanic with
    | true => exact .inl ⟨e, t, rfl, he, bind_eq_error_of (attempt_of_panic hr he)⟩
    | false =>
      refine .inr (.inl ⟨e, t, rfl, he, ?_⟩)
      rw [bind_eq_ok_of (attempt_of_error hr he)]
      dsimp only
      rw [bind_eq_ok_of (rollback_eq hframe _)]
      rfl
  | ok outcome t =>
    rw [hr] at hframe
    change ContractFrame s.saved t at hframe
    obtain ⟨result, err⟩ := outcome
    rw [bind_eq_ok_of (attempt_of_ok hr)]
    by_cases hfail : err.isSome ∨ result.reverted
    · refine .inr (.inr (.inl ⟨result, err, t, rfl, hfail, ?_⟩))
      simp only [hfail, ↓reduceIte]
      rw [bind_eq_ok_of (rollback_eq hframe _)]
      rfl
    · refine .inr (.inr (.inr ⟨result, err, t, rfl, hfail, ?_⟩))
      simp only [hfail, ↓reduceIte]
      rfl

theorem VM.execute_frame (vm : VM) (tx : ContractTx) (height timestamp : UInt64)
    (txIndex : UInt32) : Steps VMFrame (vm.execute tx height timestamp txIndex) := by
  intro s
  have h := executeTx_frame vm tx height timestamp txIndex s.saved
  have hsame (smt : SMT) : VMFrame s { s with smt := smt } := ⟨rfl, fun _ _ => rfl⟩
  rcases vm.execute_cases tx height timestamp txIndex s with
    ⟨e, t, hr, -, hx⟩ | ⟨e, t, hr, -, hx⟩ | ⟨result, err, t, hr, -, hx⟩ |
      ⟨result, err, t, hr, -, hx⟩ <;> rw [hr] at h <;> rw [hx]
  · exact ⟨h.accounts, h.keys⟩
  · exact hsame t.smt
  · exact hsame t.smt
  · exact ⟨h.accounts, h.keys⟩

end Dsn
