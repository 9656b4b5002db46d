import Dsn.Consensus.Execution
import Dsn.Node.Node
import Dsn.Staking.Ledger

/-!
# Memory and disk

`CommitState` copies the entries of memory to the persistent state and never deletes there. So the
two agree as long as memory has lost nothing that it had at an earlier commit.
-/

namespace Dsn

open Go

namespace Node

/-! ### Calls on the parts of a node -/

section

variable {α : Type} {n n' : Node} {ps ps' : PersistentState} {x : Exec PersistentState α}

variable {a : α} {y : Exec InMemoryState α}

theorem onState_of_ok {s : InMemoryState}
    (h : y n.state = .ok a s) : onState y n = .ok a { n with state := s } := onPart_of_ok h

theorem onState_eq_ok :
    onState y n = .ok a n' ↔ ∃ s, y n.state = .ok a s ∧ n' = { n with state := s } := onPart_eq_ok

variable (h : n.persistent = some ps)
include h

theorem onPersistent_of_ok (hx : x ps = .ok a ps') :
    onPersistent x n = .ok a { n with persistent := some ps' } := by
  unfold onPersistent
  simp only [h, hx]

theorem onPersistent_of_error {e : Error} (hx : x ps = .error e ps') :
    onPersistent x n = .error e { n with persistent := some ps' } := by
  unfold onPersistent
  simp only [h, hx]

theorem onPersistent_eq_ok : onPersistent x n = .ok a n' ↔
      ∃ ps', x ps = .ok a ps' ∧ n' = { n with persistent := some ps' } := by
  cases hx : x ps with
  | ok b ps' =>
    rw [onPersistent_of_ok h hx]
    simp [eq_comm]
  | error e ps' =>
    rw [onPersistent_of_error h hx]
    simp

end

variable [Crypto] {n n' : Node} {ps ps' : PersistentState} {root : Hash}

theorem onState_commit_run (n : Node) : onState InMemoryState.commit n =
    .ok n.state.stateRoot { n with state := committed n.state } := rfl

theorem commitState_cases (h : n.persistent = some ps) :
    (∃ r ps', PersistentState.commit (ps.copyFrom n.state.contents) = .ok r ps' ∧
      commitState n = .ok n.state.stateRoot
        { n with persistent := some ps', state := committed n.state }) ∨
    ∃ e ps', PersistentState.commit (ps.copyFrom n.state.contents) = .error e ps' ∧
      commitState n = .error (e.within "persistent commit") { n with persistent := some ps' } := by
  set n1 : Node := { n with persistent := some (ps.copyFrom n.state.contents) }
  have hsome : n.persistent.isSome = true := by rw [h]; rfl
  have hcopy : onPersistent (modify (PersistentState.copyFrom n.state.contents)) n =
      .ok PUnit.unit n1 := onPersistent_of_ok h rfl
  have hcommit : commitState n = (wrapErr "persistent commit" (onPersistent PersistentState.commit)
      >>= fun _ => onState InMemoryState.commit) n1 := by
    unfold commitState
    rw [get_bind, hsome]
    exact bind_eq_ok_of hcopy
  rw [hcommit]
  cases hc : PersistentState.commit (ps.copyFrom n.state.contents) with
  | ok r ps' =>
    refine .inl ⟨r, ps', rfl, ?_⟩
    rw [wrapErr_bind (onPersistent_of_ok (n := n1) rfl hc)]
    rfl
  | error e ps' =>
    exact .inr ⟨e, ps', rfl, bind_eq_error_of
      (wrapErr_of_error (onPersistent_of_error (n := n1) rfl hc))⟩

theorem commitState_eq_ok (h : n.persistent = some ps) : commitState n = .ok root n' ↔
    ∃ r ps', PersistentState.commit (ps.copyFrom n.state.contents) = .ok r ps' ∧
      root = n.state.stateRoot ∧
      n' = { n with persistent := some ps', state := committed n.state } := by
  rcases commitState_cases h with ⟨r, ps', hc, hrun⟩ | ⟨e, ps', hc, hrun⟩
  · rw [hrun]
    constructor
    · intro heq
      cases heq
      exact ⟨r, ps', hc, rfl, rfl⟩
    · rintro ⟨r', ps'', hc', rfl, rfl⟩
      cases hc.symm.trans hc'
      rfl
  · rw [hrun]
    constructor
    · intro heq
      cases heq
    · rintro ⟨r', ps'', hc', -⟩
      cases hc.symm.trans hc'

end Node

theorem PersistentState.commit_keeps [Crypto] (ps : PersistentState) :
    (finalState (PersistentState.commit ps)).contents = ps.contents := by
  unfold PersistentState.commit
  rw [modify_bind, get_bind, finalState_bind_pure]
  unfold PersistentState.updateDB
  rw [finalState_onPart]
  rfl

/-! ### Runs of a node -/

inductive LedgerStep
  | transaction (now : UInt64) (tx : Transaction)
  | staking (step : StakingStep)
  | contract (vm : VM) (tx : ContractTx) (height timestamp : UInt64) (txIndex : UInt32)

section

variable [Crypto]

def LedgerStep.run : LedgerStep → InMemoryState → InMemoryState
  | .transaction now tx, s => finalState (applyTransaction now tx s)
  | .staking step, s => finalState (step.run s)
  | .contract vm tx height timestamp txIndex, s =>
    finalState (vm.execute tx height timestamp txIndex s)

/-- A run of a node, with what each commit was given. -/
inductive NodeRun : List StateSnapshot → Node → Prop
  | start {n : Node} {ps : PersistentState} : n.persistent = some ps → NodeRun [ps.contents] n
  | ledger {given : List StateSnapshot} {n : Node} (step : LedgerStep) :
      NodeRun given n → NodeRun given { n with state := step.run n.state }
  | commit {given : List StateSnapshot} {n : Node} : NodeRun given n →
      NodeRun (n.state.contents :: given) (finalState (Node.commitState n))

variable {given : List StateSnapshot} {n n' : Node} {root : Hash}

theorem NodeRun.keysIn_iff (h : NodeRun given n) : ∃ ps, n.persistent = some ps ∧
    ∀ c, ps.contents.KeysIn c ↔ ∀ d ∈ given, d.KeysIn c := by
  induction h with
  | start hps => exact ⟨_, hps, fun c => by simp⟩
  | ledger step _ ih => exact ih
  | @commit given n _ ih =>
    obtain ⟨ps, hps, hkeys⟩ := ih
    have hkeeps := PersistentState.commit_keeps (ps.copyFrom n.state.contents)
    have hcontents : (ps.copyFrom n.state.contents).contents =
        ps.contents.overlay n.state.contents := rfl
    have hiff {ps' : PersistentState} (h' : ps'.contents = ps.contents.overlay n.state.contents)
        (c : StateSnapshot) :
        ps'.contents.KeysIn c ↔ ∀ d ∈ n.state.contents :: given, d.KeysIn c := by
      rw [h', StateSnapshot.keysIn_overlay, hkeys, List.forall_mem_cons, and_comm]
    rcases Node.commitState_cases hps with ⟨r, ps', hc, hrun⟩ | ⟨e, ps', hc, hrun⟩
    all_goals
      rw [hc] at hkeeps
      rw [hrun]
      exact ⟨ps', rfl, hiff (hkeeps.trans hcontents)⟩

/-- Memory and database hold the same, with this root. -/
def Agrees (n : Node) (root : Hash) : Prop :=
  ∃ ps, n.persistent = some ps ∧ ps.contents = n.state.contents ∧ ps.root = root

variable {ps : PersistentState}

theorem agrees_iff_keysIn (hps : n.persistent = some ps) (hc : Node.commitState n = .ok root n') :
    Agrees n' root ↔ ps.contents.KeysIn n.state.contents := by
  obtain ⟨r, ps', hcommit, rfl, rfl⟩ := (Node.commitState_eq_ok hps).1 hc
  obtain ⟨hr, hcontents, hroot⟩ := PersistentState.commit_contents hcommit
  have hover : ps'.contents = ps.contents.overlay n.state.contents := hcontents
  rw [← StateSnapshot.overlay_eq_iff, ← hover]
  constructor
  · rintro ⟨_, hsome, hsame, -⟩
    cases hsome
    exact hsame
  · intro hsame
    refine ⟨ps', rfl, hsame, ?_⟩
    rw [hroot, hr, ← hcontents, hsame]
    rfl

/-- Memory and disk agree exactly when memory had all that the disk was given. -/
theorem commit_agrees_iff (h : NodeRun given n) (hc : Node.commitState n = .ok root n') :
    Agrees n' root ↔ ∀ c ∈ given, c.KeysIn n.state.contents := by
  obtain ⟨ps, hps, hkeys⟩ := h.keysIn_iff
  rw [agrees_iff_keysIn hps hc, hkeys]

/-! ### A validator that leaves -/

theorem NodeRun.staking (h : NodeRun given n) (steps : List StakingStep) :
    NodeRun given { n with state := reached n.state steps } := by
  induction steps using List.reverseRecOn with
  | nil => exact h
  | append_singleton steps step ih =>
    rw [reached_append_singleton]
    exact ih.ledger (.staking step)

theorem Node.commitState_run {c : StateSnapshot} {root' : Hash}
    (hps : n.persistent = some ps) (hdb : Stored ps.db c root') (hcache : ps.Storable)
    (hmemory : ∀ e ∈ n.state.kvstore.toList, Bolt.Storable e.1 e.2) :
    ∃ ps', Node.commitState n = .ok n.state.stateRoot
        { n with persistent := some ps', state := committed n.state } ∧
      ps'.Storable ∧ PersistentState.Commits (ps.copyFrom n.state.contents) c ps' := by
  have hst : (ps.copyFrom n.state.contents).Storable := by
    rintro ⟨key, value⟩ he
    have hget := Std.ExtTreeMap.mem_toList_iff_getElem?_eq_some.1 he
    change (Map.insertAll ps.kvstore n.state.kvstore.toList)[key]? = some value at hget
    rw [Map.get_insertAll_toList] at hget
    rcases Option.or_eq_some_iff.1 hget with hget | ⟨-, hget⟩
    · exact hmemory _ (Std.ExtTreeMap.mem_toList_iff_getElem?_eq_some.2 hget)
    · exact hcache _ (Std.ExtTreeMap.mem_toList_iff_getElem?_eq_some.2 hget)
  obtain ⟨ps', hcommit⟩ := PersistentState.commit_run
    (s := ps.copyFrom n.state.contents) hdb.isOpened hst
  have hcommits := PersistentState.commits_of_commit (s := ps.copyFrom n.state.contents) hdb
    hcommit
  refine ⟨ps', (Node.commitState_eq_ok hps).2 ⟨_, ps', hcommit, rfl, rfl⟩, ?_, hcommits⟩
  have hkv : ps'.kvstore = (ps.copyFrom n.state.contents).kvstore :=
    congrArg StateSnapshot.kvstore hcommits.contents
  intro e he
  rw [hkv] at he
  exact hst e he

variable {s s' : InMemoryState}

theorem LedgerStep.run_remove {id : Address} {u : Unit}
    (h : removeValidator id s = .ok u s') : run (.staking (.op (.remove id))) s = s' := by
  show finalState (removeValidator id s) = s'
  rw [h]
  rfl

def freshPersistent : PersistentState := ⟨opened ∅, ∅, ∅, zeroHash⟩

def sampleConfig : NodeConfig := ⟨[], 100, 100, 0, 0⟩

variable {steps : List StakingStep}
  (hreached : reached newInMemoryState steps = s)
include hreached

variable (hst : ∀ e ∈ s.kvstore.toList, Bolt.Storable e.1 e.2)
include hst

theorem exists_first_commit :
    ∃ n ps, NodeRun [emptyContents] n ∧ Node.commitState n = .ok s.stateRoot
        { n with persistent := some ps, state := committed s } ∧ n.state = s ∧
      ps.Storable ∧ PersistentState.Commits (freshPersistent.copyFrom s.contents) emptyContents
        ps := by
  subst hreached
  have hrun : NodeRun [emptyContents] { Node.initial sampleConfig none freshPersistent with
      state := reached newInMemoryState steps } :=
    (NodeRun.start (n := Node.initial sampleConfig none freshPersistent) rfl).staking steps
  generalize reached newInMemoryState steps = s at hrun hst
  have hfresh : freshPersistent.Storable := fun e he => absurd he List.not_mem_nil
  obtain ⟨ps, hc, hps, hcommits⟩ := Node.commitState_run
    (n := { Node.initial sampleConfig none freshPersistent with state := s }) rfl
    stored_opened_empty hfresh hst
  exact ⟨_, ps, hrun, hc, rfl, hps, hcommits⟩

theorem exists_disagreement {step : LedgerStep} {key : Bytes} (hstep : step.run (committed s) = s')
    (hst' : ∀ e ∈ s'.kvstore.toList, Bolt.Storable e.1 e.2) (hbefore : key ∈ s.kvstore)
    (hafter : key ∉ s'.kvstore) :
    ∃ (given : List StateSnapshot) (n n' : Node) (root : Hash),
      NodeRun given n ∧ Node.commitState n = .ok root n' ∧ ¬ Agrees n' root := by
  obtain ⟨n, ps, hrun, hc, -, hps, hcommits⟩ := exists_first_commit hreached hst
  have hrun' := hrun.commit.ledger step
  rw [hc] at hrun'
  simp only [finalState, hstep] at hrun'
  obtain ⟨ps', hc', -, -⟩ := @Node.commitState_run _
    { n with persistent := some ps, state := s' } ps _ _ rfl hcommits.stored hps hst'
  refine ⟨_, _, _, _, hrun', hc', fun hagrees => hafter ?_⟩
  have hin := (agrees_iff_keysIn rfl hc').1 hagrees
  refine hin.kvstore key ?_
  rw [hcommits.contents]
  exact Map.mem_insertAll_toList.2 (.inr hbefore)

end

open Sample

def sampleLeaving : InMemoryState := reached newInMemoryState (sampleLeave.take 4)

theorem reached_sampleLeaving : reached newInMemoryState (sampleLeave.take 4) = sampleLeaving := rfl

def sampleKey : Bytes := validatorPubkeyKey (samplePubKey 1)

theorem storable_sampleLeaving :
    ∀ e ∈ sampleLeaving.kvstore.toList, Bolt.Storable e.1 e.2 := by decide +kernel

theorem remove_sampleLeaving : succeedsWith (fun _ s =>
    decide (∀ e ∈ s.kvstore.toList, Bolt.Storable e.1 e.2) &&
      decide (sampleKey ∈ sampleLeaving.kvstore ∧ sampleKey ∉ s.kvstore))
    (removeValidator (sampleID 1) (committed sampleLeaving)) = true := by decide +kernel

theorem removed_validator_stays : ∃ (given : List StateSnapshot) (n n' : Node) (root : Hash),
    NodeRun given n ∧ Node.commitState n = .ok root n' ∧ ¬ Agrees n' root := by
  obtain ⟨_, s', hremove, hs'⟩ := exists_of_succeedsWith remove_sampleLeaving
  obtain ⟨hst', hkeys⟩ := Bool.and_eq_true_iff.1 hs'
  obtain ⟨hbefore, hafter⟩ := of_decide_eq_true hkeys
  exact exists_disagreement reached_sampleLeaving storable_sampleLeaving
    (LedgerStep.run_remove hremove) (of_decide_eq_true hst') hbefore hafter

theorem commit_agrees_first : ∃ n n' root, NodeRun [emptyContents] n ∧
    Node.commitState n = .ok root n' ∧ Agrees n' root := by
  obtain ⟨n, ps, hrun, hc, -⟩ := exists_first_commit reached_sampleLeaving storable_sampleLeaving
  refine ⟨n, _, _, hrun, hc, (commit_agrees_iff hrun hc).2 fun c hmem => ?_⟩
  rw [List.mem_singleton.1 hmem]
  exact StateSnapshot.keysIn_empty _

end Dsn
