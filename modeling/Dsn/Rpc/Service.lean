import Dsn.Go.Hex
import Dsn.Node.Commit
import Dsn.Types.Address
import Dsn.VM.Rollback
import Dsn.VM.Snapshots

/-!
# `rpc/service`: calls of contracts

`CallContract` runs on the state of the node and reverts; `EstimateGas` calls it repeatedly.
-/

namespace Dsn

open Go InMemoryState Node

def errInvalidParams : Error := .new "invalid parameters"

structure EventResult where
  contract : Bytes
  topics : List Bytes
  data : Bytes

structure CallResult where
  data : Bytes
  gasUsed : UInt64
  reverted : Bool
  events : List EventResult

def eventsToResults (events : List Event) : List EventResult :=
  events.map fun ev => ⟨hex ev.contractID.bytes, [ev.topic], hex ev.data⟩

def maxCallGas : UInt64 := 1000000

def decodeCalldata (data : Bytes) : Except Error Bytes :=
  if data = [] then .ok [] else hexDecode (trimPrefix data (str "0x"))

def contractIDOf (addr : Address) : Hash := FixedBytes.copy 32 addr.bytes

def simulatedCall (contractID : Hash) (entrypoint calldata : Bytes) (gasLimit : UInt64) :
    CallContractTx :=
  ⟨zeroAddress, 0, contractID, entrypoint, calldata, 0, gasLimit, []⟩

section

variable [Crypto]

def parseParam (address : String) : Except Error Address :=
  (parseAddress address).mapError fun e =>
    .detail errInvalidParams s!"invalid address: {e.text}"

def executeOn (vm : Option VM) (tx : ContractTx) (blockHeight blockTimestamp : UInt64)
    (txIndex : UInt32) : Exec InMemoryState (ExecutionResult × Option Error) :=
  match vm with
  | some vm => vm.execute tx blockHeight blockTimestamp txIndex
  | none => do
    let _ ← snapshot
    throw (.panic "invalid memory address or nil pointer dereference")

def simulate (snapID : ℕ) (tx : CallContractTx) : Exec Node CallResult := do
  let outcome ← attempt (onState (executeOn (← get).vm (.call tx) 0 0 0))
  let _ ← attempt (onState (revertToSnapshot snapID))
  match outcome with
  | .error e => throw e
  | .ok (_, some e) => throw e
  | .ok (result, none) => return ⟨hex result.returnData, result.gasUsed, result.reverted,
      eventsToResults result.events⟩

def callContract (address : String) (entrypoint data : Bytes) (gasLimit : UInt64) :
    Exec Node CallResult := do
  let gasLimit := if gasLimit = 0 then maxCallGas else gasLimit
  failIf (gasLimit > maxCallGas)
    (.detail errInvalidParams "gas limit exceeds maximum (1,000,000)")
  let addr ← ofResult (parseParam address)
  let snapID ← onState snapshot
  match decodeCalldata data with
  | .error e =>
    let _ ← attempt (onState (revertToSnapshot snapID))
    throw (.detail errInvalidParams s!"invalid calldata: {e.text}")
  | .ok calldata => simulate snapID (simulatedCall (contractIDOf addr) entrypoint calldata gasLimit)

/-! ### The search for a gas limit -/

def gasLimitMin : UInt64 := 21000

def gasLimitMax : UInt64 := 10000000

/-- The variables of the search. -/
structure GasSearch where
  lo : UInt64
  hi : UInt64
  lastSuccess : UInt64

def searchRound (address : String) (data : Bytes) (b : GasSearch) :
    Exec Node (GasSearch × Bool) := do
  let mid := (b.lo + b.hi) / 2
  match ← attempt (callContract address (str "call") data mid) with
  | .error _ => return ({ b with lo := mid + 1 }, false)
  | .ok result =>
    if result.reverted then return ({ b with lo := mid + 1 }, false)
    else if mid = gasLimitMin then return ({ b with lastSuccess := mid }, true)
    else return ({ b with hi := mid - 1, lastSuccess := mid }, false)

def searchLoop (address : String) (data : Bytes) : ℕ → GasSearch → Exec Node (Option GasSearch)
  | 0, _ => pure none
  | fuel + 1, b =>
    if b.lo ≤ b.hi then do
      let (b', done) ← searchRound address data b
      if done then return some b' else searchLoop address data fuel b'
    else return some b

def estimateGas (fuel : ℕ) (address : String) (data : Bytes) : Exec Node (Option UInt64) := do
  let _ ← ofResult (parseParam address)
  match ← searchLoop address data fuel ⟨gasLimitMin, gasLimitMax, 0⟩ with
  | none => return none
  | some b =>
    failIf (b.lastSuccess = 0) (.new "gas estimation failed: call reverts at all gas limits")
    return some b.lastSuccess

/-! ### How a call ends -/

def callTx (address : String) (entrypoint data : Bytes) (gasLimit : UInt64) :
    Except Error CallContractTx := do
  let gasLimit := if gasLimit = 0 then maxCallGas else gasLimit
  check (gasLimit > maxCallGas) (.detail errInvalidParams "gas limit exceeds maximum (1,000,000)")
  let addr ← parseParam address
  let calldata ← (decodeCalldata data).mapError fun e =>
    .detail errInvalidParams s!"invalid calldata: {e.text}"
  return simulatedCall (contractIDOf addr) entrypoint calldata gasLimit

theorem callTx_addressString (a : Address) (entrypoint : Bytes) {data calldata : Bytes}
    {gasLimit : UInt64} (hdata : decodeCalldata data = .ok calldata)
    (hgas : gasLimit ≤ maxCallGas) : callTx (addressString a) entrypoint data gasLimit =
      .ok (simulatedCall (contractIDOf a) entrypoint calldata
        (if gasLimit = 0 then maxCallGas else gasLimit)) := by
  have hparam : parseParam (addressString a) = .ok a :=
    mapError_eq_ok.2 (parseAddress_addressString a)
  refine except_bind_eq_ok.2 ⟨(), check_eq_ok.2 ?_, except_bind_eq_ok.2 ⟨a, hparam,
    except_bind_eq_ok.2 ⟨calldata, mapError_eq_ok.2 hdata, rfl⟩⟩⟩
  split_ifs
  · exact UInt64.lt_irrefl _
  · exact UInt64.not_lt.2 hgas

def callOutcome : Except Error (ExecutionResult × Option Error) → Except Error CallResult
  | .error e => .error e
  | .ok (_, some e) => .error e
  | .ok (result, none) => .ok ⟨hex result.returnData, result.gasUsed, result.reverted,
      eventsToResults result.events⟩

omit [Crypto] in
theorem revertToSnapshot_of_saved {s t : InMemoryState}
    (h : s.saved.snapshots <+: t.snapshots) :
    revertToSnapshot s.snapshots.length t = .ok () { s with smt := t.smt } := by
  obtain ⟨later, hlater⟩ := h
  have hsnap : t.snapshots = s.snapshots ++ ([⟨s.accounts, s.kvstore⟩] ++ later) := by
    rw [← hlater]
    simp [saved]
  unfold revertToSnapshot
  simp [hsnap]

omit [Crypto] in
theorem attempt_revert_of_saved (n : Node) {s t : InMemoryState}
    (h : s.saved.snapshots <+: t.snapshots) :
    attempt (onState (revertToSnapshot s.snapshots.length)) { n with state := t } =
      .ok (.ok ()) { n with state := { s with smt := t.smt } } :=
  attempt_of_ok (onState_of_ok (revertToSnapshot_of_saved h))

theorem executeOn_snapshots (vm : Option VM) (tx : ContractTx) (height timestamp : UInt64)
    (txIndex : UInt32) (s : InMemoryState) :
    s.snapshots <+: (finalState (executeOn vm tx height timestamp txIndex s)).snapshots := by
  cases vm with
  | none => exact List.prefix_append _ _
  | some vm =>
    have hafter := Execution.after_snapshots ⟨vm, tx, height, timestamp, txIndex, s⟩
    exact ⟨_, hafter.symm⟩

theorem simulate_cases (tx : CallContractTx) (n : Node) :
    (∃ e t, executeOn n.vm (.call tx) 0 0 0 n.state.saved = .error e t ∧ e.isPanic = true ∧
      simulate n.state.snapshots.length tx { n with state := n.state.saved } =
        .error e { n with state := t }) ∨
    ∃ outcome t, attempt (executeOn n.vm (.call tx) 0 0 0) n.state.saved = .ok outcome t ∧
      simulate n.state.snapshots.length tx { n with state := n.state.saved } =
        ofResult (callOutcome outcome) { n with state := { n.state with smt := t.smt } } := by
  have hkept := executeOn_snapshots n.vm (.call tx) 0 0 0 n.state.saved
  unfold simulate
  rw [get_bind]
  dsimp only
  cases hexec : executeOn n.vm (.call tx) 0 0 0 n.state.saved with
  | ok r t =>
    rw [hexec] at hkept
    change n.state.saved.snapshots <+: t.snapshots at hkept
    have hrun : onState (executeOn n.vm (.call tx) 0 0 0) { n with state := n.state.saved } =
        .ok r { n with state := t } := onPart_of_ok hexec
    refine .inr ⟨.ok r, t, attempt_of_ok hexec, ?_⟩
    rw [bind_eq_ok_of (attempt_of_ok hrun), bind_eq_ok_of (attempt_revert_of_saved n hkept)]
    obtain ⟨result, _ | e⟩ := r <;> rfl
  | error e t =>
    rw [hexec] at hkept
    change n.state.saved.snapshots <+: t.snapshots at hkept
    have hrun : onState (executeOn n.vm (.call tx) 0 0 0) { n with state := n.state.saved } =
        .error e { n with state := t } := onPart_of_error hexec
    cases hpanic : e.isPanic with
    | true => exact .inl ⟨e, t, rfl, hpanic, bind_eq_error_of (attempt_of_panic hrun hpanic)⟩
    | false =>
      refine .inr ⟨.error e, t, attempt_of_error hexec hpanic, ?_⟩
      rw [bind_eq_ok_of (attempt_of_error hrun hpanic),
        bind_eq_ok_of (attempt_revert_of_saved n hkept)]
      rfl

theorem callContract_cases (address : String) (entrypoint data : Bytes) (gasLimit : UInt64)
    (n : Node) :
    (∃ e, callTx address entrypoint data gasLimit = .error e ∧
      callContract address entrypoint data gasLimit n = .error e n) ∨
    ∃ tx, callTx address entrypoint data gasLimit = .ok tx ∧
      ((∃ e t, executeOn n.vm (.call tx) 0 0 0 n.state.saved = .error e t ∧ e.isPanic = true ∧
        callContract address entrypoint data gasLimit n = .error e { n with state := t }) ∨
      ∃ outcome t, attempt (executeOn n.vm (.call tx) 0 0 0) n.state.saved = .ok outcome t ∧
        callContract address entrypoint data gasLimit n =
          ofResult (callOutcome outcome) { n with state := { n.state with smt := t.smt } }) := by
  unfold callContract callTx
  dsimp only
  generalize (if gasLimit = 0 then maxCallGas else gasLimit) = gas
  by_cases hgas : gas > maxCallGas
  · refine .inl ⟨_, except_bind_eq_error.2 (.inl (check_eq_error.2 ⟨hgas, rfl⟩)), ?_⟩
    exact bind_eq_error_of (failIf_of _ hgas n)
  rw [failIf_bind hgas]
  cases haddr : parseParam address with
  | error e =>
    refine .inl ⟨e, ?_, bind_eq_error_of rfl⟩
    exact except_bind_eq_error.2 (.inr ⟨(), check_eq_ok.2 hgas, rfl⟩)
  | ok addr =>
    have hsnap : onState snapshot n =
        .ok n.state.snapshots.length { n with state := n.state.saved } := onState_of_ok rfl
    rw [ofResult_bind rfl, bind_eq_ok_of hsnap]
    cases hdata : decodeCalldata data with
    | error e =>
      refine .inl ⟨.detail errInvalidParams s!"invalid calldata: {e.text}", ?_, ?_⟩
      · exact except_bind_eq_error.2 (.inr ⟨(), check_eq_ok.2 hgas, rfl⟩)
      · dsimp only
        rw [bind_eq_ok_of (attempt_revert_of_saved n (List.prefix_refl _))]
        rfl
    | ok calldata =>
      exact .inr ⟨_, except_bind_eq_ok.2 ⟨(), check_eq_ok.2 hgas, rfl⟩, simulate_cases _ n⟩

/-! ### Read-only calls -/

section

omit [Crypto]

variable {α β : Type}

/-- Only the tree of the state may differ. -/
structure Untouched (n n' : Node) : Prop where
  accounts : n'.state.accounts = n.state.accounts
  kvstore : n'.state.kvstore = n.state.kvstore
  snapshots : n'.state.snapshots = n.state.snapshots
  rest : n' = { n with state := n'.state }

theorem Untouched.refl (n : Node) : Untouched n n := ⟨rfl, rfl, rfl, rfl⟩

theorem Untouched.trans {n n' n'' : Node} (h : Untouched n n') (h' : Untouched n' n'') :
    Untouched n n'' := by
  refine ⟨h'.accounts.trans h.accounts, h'.kvstore.trans h.kvstore,
    h'.snapshots.trans h.snapshots, ?_⟩
  rw [h'.rest, h.rest]

inductive Returned {σ α : Type} : EStateM.Result Error σ α → Prop
  | ok (a : α) (s : σ) : Returned (.ok a s)
  | error {e : Error} (s : σ) (h : e.isPanic = false) : Returned (.error e s)

theorem returned_error {σ α : Type} {e : Error} {s : σ} :
    Returned (.error e s : EStateM.Result Error σ α) ↔ e.isPanic = false :=
  ⟨fun h => by cases h; assumption, .error s⟩

instance {σ α : Type} (r : EStateM.Result Error σ α) : Decidable (Returned r) :=
  match r with
  | .ok a s => isTrue (.ok a s)
  | .error _ _ => decidable_of_iff _ returned_error.symm

def ReadOnly (x : Exec Node α) : Prop := ∀ n, Returned (x n) → Untouched n (finalState (x n))

namespace ReadOnly

theorem of_reads {x : Exec Node α} (h : Steps Eq x) : ReadOnly x := by
  intro n _
  rw [← h n]
  exact .refl n

theorem bind {x : Exec Node α} {f : α → Exec Node β} (hx : ReadOnly x)
    (hf : ∀ a, ReadOnly (f a)) : ReadOnly (x >>= f) := by
  intro n hn
  have hxn := hx n
  cases hr : x n with
  | ok a n1 =>
    rw [hr] at hxn
    rw [bind_eq_ok_of hr] at hn ⊢
    exact (hxn (.ok a n1)).trans (hf a n1 hn)
  | error e n1 =>
    rw [hr] at hxn
    rw [bind_eq_error_of hr] at hn ⊢
    exact hxn (.error n1 (returned_error.1 hn))

theorem attempt {x : Exec Node α} (hx : ReadOnly x) : ReadOnly (attempt x) := by
  intro n hn
  rw [finalState_attempt]
  refine hx n ?_
  unfold Go.attempt at hn
  cases hr : x n with
  | ok a n1 => exact .ok a n1
  | error e n1 =>
    rw [hr] at hn
    dsimp only at hn
    split_ifs at hn with hpanic
    · exact .error n1 (returned_error.1 hn)
    · exact .error n1 (Bool.eq_false_iff.2 hpanic)

theorem ite {p : Prop} [Decidable p] {x y : Exec Node α} (hx : ReadOnly x) (hy : ReadOnly y) :
    ReadOnly (if p then x else y) := by
  split_ifs
  · exact hx
  · exact hy

end ReadOnly

end

theorem callContract_readOnly (address : String) (entrypoint data : Bytes) (gasLimit : UInt64) :
    ReadOnly (callContract address entrypoint data gasLimit) := by
  intro n h
  rcases callContract_cases address entrypoint data gasLimit n with
    ⟨e, -, hcall⟩ | ⟨tx, -, ⟨e, t, -, hpanic, hcall⟩ | ⟨outcome, t, -, hcall⟩⟩ <;>
    rw [hcall] at h ⊢
  · exact .refl n
  · exact absurd hpanic (Bool.eq_false_iff.1 (returned_error.1 h))
  · cases callOutcome outcome <;> exact ⟨rfl, rfl, rfl, rfl⟩

theorem execute_call_eq_ok {vm : VM} {tx : CallContractTx} {height timestamp : UInt64}
    {txIndex : UInt32} {s t : InMemoryState} {result : ExecutionResult} {err : Option Error}
    (h : vm.execute (.call tx) height timestamp txIndex s = .ok (result, err) t) : err = none := by
  have hnone {u u' : InMemoryState} {r : ExecutionResult} {err' : Option Error}
      (hr : executeTx vm (.call tx) height timestamp txIndex u = .ok (r, err') u') :
      err' = none := by
    rcases executeCall_cases vm tx height timestamp txIndex u with ⟨e, hx, -⟩ | ⟨m, -, hx⟩
    · cases hx.symm.trans hr
    · obtain ⟨result, _, -, hpure⟩ := bind_eq_ok.1 (hx.symm.trans hr)
      cases hpure
      rfl
  rcases vm.execute_cases (.call tx) height timestamp txIndex s with
    ⟨e, t', -, -, hx⟩ | ⟨e, t', -, -, hx⟩ | ⟨r, err', t', hr, -, hx⟩ | ⟨r, err', t', hr, -, hx⟩ <;>
    cases hx.symm.trans h
  · exact hnone hr
  · exact hnone hr

theorem callContract_returned {address : String} {entrypoint data : Bytes} {gasLimit : UInt64}
    {tx : CallContractTx} {n : Node} (htx : callTx address entrypoint data gasLimit = .ok tx)
    (hexec : Returned (executeOn n.vm (.call tx) 0 0 0 n.state.saved)) :
    Returned (callContract address entrypoint data gasLimit n) := by
  rcases callContract_cases address entrypoint data gasLimit n with
    ⟨e, htx', -⟩ | ⟨tx', htx', ⟨e, t, hpanics, hpanic, -⟩ | ⟨outcome, t, houtcome, hcall⟩⟩ <;>
    cases htx.symm.trans htx'
  · rw [hpanics] at hexec
    exact absurd hpanic (Bool.eq_false_iff.1 (returned_error.1 hexec))
  · rw [hcall]
    cases hx : executeOn n.vm (.call tx) 0 0 0 n.state.saved with
    | error e t' =>
      rw [hx] at hexec
      cases (attempt_of_error hx (returned_error.1 hexec)).symm.trans houtcome
      exact .error _ (returned_error.1 hexec)
    | ok r t' =>
      cases (attempt_of_ok hx).symm.trans houtcome
      obtain ⟨result, err⟩ := r
      cases hvm : n.vm with
      | none =>
        rw [hvm] at hx
        cases hx
      | some vm =>
        rw [hvm] at hx
        cases execute_call_eq_ok hx
        exact .ok _ _

theorem searchRound_readOnly (address : String) (data : Bytes) (b : GasSearch) :
    ReadOnly (searchRound address data b) := by
  refine (callContract_readOnly _ _ _ _).attempt.bind fun outcome => ?_
  cases outcome with
  | error e => exact .of_reads (Steps.pure _)
  | ok result =>
    exact .of_reads (Steps.ite (Steps.pure _) (Steps.ite (Steps.pure _) (Steps.pure _)))

theorem searchLoop_readOnly (address : String) (data : Bytes) (fuel : ℕ) (b : GasSearch) :
    ReadOnly (searchLoop address data fuel b) := by
  induction fuel generalizing b with
  | zero => exact .of_reads (Steps.pure _)
  | succ fuel ih =>
    refine ReadOnly.ite ((searchRound_readOnly address data b).bind fun r => ?_)
      (.of_reads (Steps.pure _))
    exact ReadOnly.ite (.of_reads (Steps.pure _)) (ih r.1)

theorem estimateGas_readOnly (fuel : ℕ) (address : String) (data : Bytes) :
    ReadOnly (estimateGas fuel address data) := by
  refine (ReadOnly.of_reads (Steps.ofResult _)).bind fun _ => ?_
  refine (searchLoop_readOnly address data fuel _).bind fun r => .of_reads ?_
  cases r with
  | none => exact Steps.pure _
  | some b => exact (Steps.failIf _ _).bind fun _ => Steps.pure _

/-- A call and a search for its gas limit leave the state as it was. -/
theorem calls_read_only (address : String) (entrypoint data : Bytes) (gasLimit : UInt64)
    (n : Node) :
    (Returned (callContract address entrypoint data gasLimit n) →
      Untouched n (finalState (callContract address entrypoint data gasLimit n))) ∧
    ∀ fuel, Returned (estimateGas fuel address data n) →
      Untouched n (finalState (estimateGas fuel address data n)) :=
  ⟨callContract_readOnly address entrypoint data gasLimit n,
    fun fuel => estimateGas_readOnly fuel address data n⟩

end

/-! ### A call of a contract that writes -/

def bareNode (vm : VM) (s : InMemoryState) : Node where
  cfg := ⟨[], 1, 10, 10, 0⟩
  state := s
  persistent := none
  mempool := .new 10 10
  vm := some vm
  wallet := none
  finalizedHeight := 0
  reorgBuffer := []
  currentHeight := 0
  currentTipHash := zeroHash
  currentEpoch := 0

open Sample

def writingEngine : VM := sampleEngine (sampleModule (some sampleMemory) (str "run")
  (.call (.writeStorage 1024 32 0 1 0 1) [] fun _ _ => .ret [0] []))

def sampleContractAddress : Address := .copy 20 [7]

theorem callContract_writes {n : Node} {a : Address} (ha : a = sampleContractAddress)
    (hvm : n.vm = some writingEngine) (hstate : n.state = ledgerWithContract) :
    Returned (callContract (addressString a) (str "run") [] 100 n) := by
  have htx := @callTx_addressString _ a (str "run") [] [] 100 rfl (by decide)
  refine callContract_returned htx ?_
  rw [hvm, hstate, ha]
  decide +kernel

theorem calls_read_only_sample : ∃ n : Node, n.vm = some writingEngine ∧
    n.state = ledgerWithContract ∧
    Untouched n (finalState
      (callContract (addressString sampleContractAddress) (str "run") [] 100 n)) := by
  obtain ⟨n, hvm, hstate⟩ : ∃ n : Node, n.vm = some writingEngine ∧ n.state = ledgerWithContract :=
    ⟨bareNode writingEngine ledgerWithContract, rfl, rfl⟩
  have hreturned := @callContract_writes n sampleContractAddress rfl hvm hstate
  have hcall := (calls_read_only (addressString sampleContractAddress) (str "run") [] 100 n).1
  exact ⟨n, hvm, hstate, hcall hreturned⟩

end Dsn
