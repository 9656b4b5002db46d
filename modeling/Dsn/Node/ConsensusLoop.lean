import Dsn.Consensus.Completeness
import Dsn.Consensus.Jail
import Dsn.Consensus.Proposer
import Dsn.Node.Commit

/-!
# `runConsensusLoop`: proposing blocks

One turn of the loop, and whether `ValidateBlock` expects the proposer that built the block.
-/

namespace Dsn

open Go InMemoryState

def KeyPair.address (kp : KeyPair) : Address := FixedBytes.copy 20 (kp.publicKey.bytes.take 20)

namespace Node

def nodeAddress (n : Node) : Address :=
  match n.wallet with
  | some kp => kp.address
  | none => zeroAddress

def walletSigner (wallet : Option KeyPair) (hash : Hash) : Except Error Bytes :=
  match wallet with
  | some kp => .ok (kp.signHash hash)
  | none => .error (.panic "invalid memory address or nil pointer dereference")

structure TurnClock where
  expireTime : Hash → ℤ
  listTime : Hash → ℤ
  build : BuildClock
  checkpointTime : UInt64

section

def buildInput (clock : TurnClock) (height : UInt64) (proposer : Address) (n : Node) :
    BuildInput where
  vm := n.vm
  pending := (n.mempool.pendingTxs clock.expireTime clock.listTime).1
  height := height
  prevHash := n.currentTipHash
  proposer := proposer
  sign := walletSigner n.wallet
  maxTxs := n.cfg.maxTxPerBlock
  evidence := []
  clock := clock.build

variable [Crypto]

def askPool (clock : TurnClock) (height : UInt64) (n : Node) : Node :=
  match beginBlock height n.state with
  | .ok _ _ => { n with mempool := (n.mempool.pendingTxs clock.expireTime clock.listTime).2 }
  | .error _ _ => n

def proposeBlock (clock : TurnClock) (height : UInt64) (proposer : Address) : Exec Node Block := do
  let n ← get
  modify (askPool clock height)
  onState (buildBlock (n.buildInput clock height proposer))

def storeBuilt (block : Block) : Exec Node Unit := do
  let _ ← attempt (onPersistent (storeBlockHeader block.header))
  let _ ← attempt (onPersistent (storeTip block.header))
  match ← attempt commitState with
  | .ok _ => pure ()
  | .error e =>
    throw (.panic s!"commit state failed: {e.text} at height {block.header.height}")

def adoptBuilt (now : UInt64) (block : Block) : Exec Node Unit := do
  let n ← get
  if n.persistent.isSome then storeBuilt block
  modify fun n => { n with
    currentHeight := block.header.height
    currentTipHash := block.headerHash
    mempool := block.transactions.foldl (fun mp tx => mp.remove true tx.intentID) n.mempool }
  if n.persistent.isSome ∧ block.header.epoch > 0 ∧ block.header.epoch ≠ n.currentEpoch then
    checkpointEpoch now block

def consensusTurn (clock : TurnClock) (height : UInt64) : Exec Node (UInt64 × Option Block) := do
  let n ← get
  let proposer ← ofResult (proposerAtHeight height n.cfg.validators)
  if proposer = n.nodeAddress then
    match ← attempt (proposeBlock clock height proposer) with
    | .ok block =>
      adoptBuilt clock.checkpointTime block
      -- the height goes up here, and once more after the wait
      return (height + 1 + 1, some block)
    | .error _ => return (height + 1, none)
  else return (height + 1, none)

variable {n n' : Node} {clock : TurnClock} {height next : UInt64} {block : Block}
  {proposer : Address} {wallets : List KeyPair}

/-! ### What is built -/

structure Proposed (height : UInt64) (proposer : Address) (n : Node) (block : Block) : Prop where
  height_eq : block.header.height = height
  previousHash_eq : block.header.previousHash = n.currentTipHash
  proposer_eq : block.header.proposer = proposer
  evidence_eq : block.evidence = []

theorem askPool_state (clock : TurnClock) (height : UInt64) (n : Node) :
    (askPool clock height n).state = n.state := by
  unfold askPool
  split <;> rfl

theorem proposeBlock_eq_ok (h : proposeBlock clock height proposer n = .ok block n') :
    Proposed height proposer n block := by
  obtain ⟨_, _, hget, h⟩ := bind_eq_ok.1 h
  cases hget
  obtain ⟨_, _, hpool, hbuild⟩ := bind_eq_ok.1 h
  cases hpool
  obtain ⟨s, hs, -⟩ := onState_eq_ok.1 hbuild
  obtain ⟨s1, s2, s3, start, rs, active, hb, -⟩ := buildBlock_eq_ok.1 hs
  have hheader := hb.header_eq
  exact ⟨by rw [hheader]; rfl, by rw [hheader]; rfl, by rw [hheader]; rfl, hb.evidence_eq⟩

theorem consensusTurn_built (h : consensusTurn clock height n = .ok (next, some block) n') :
    n.cfg.validators[height.toNat % n.cfg.validators.length]? = some n.nodeAddress ∧
      Proposed height n.nodeAddress n block := by
  obtain ⟨_, _, hget, h⟩ := bind_eq_ok.1 h
  cases hget
  obtain ⟨proposer, hlisted, h⟩ := ofResult_bind_eq_ok.1 h
  split_ifs at h with hself
  · subst hself
    obtain ⟨result, n1, hattempt, h⟩ := bind_eq_ok.1 h
    cases result with
    | ok built =>
      obtain ⟨_, n2, -, h⟩ := bind_eq_ok.1 h
      cases h
      exact ⟨proposerAtHeight_eq_ok.1 hlisted, proposeBlock_eq_ok (attempt_eq_ok.1 hattempt)⟩
    | error e => cases h
  · cases h

theorem consensusTurn_of_built {n1 n2 : Node}
    (hlisted : proposerAtHeight height n.cfg.validators = .ok n.nodeAddress)
    (hpropose : proposeBlock clock height n.nodeAddress n = .ok block n1)
    (hadopt : adoptBuilt clock.checkpointTime block n1 = .ok () n2) :
    consensusTurn clock height n = .ok (height + 1 + 1, some block) n2 := by
  refine bind_eq_ok.2 ⟨n, n, get_eq_ok.2 ⟨rfl, rfl⟩, bind_eq_ok.2 ⟨n.nodeAddress, n,
    ofResult_eq_ok.2 ⟨hlisted, rfl⟩, ?_⟩⟩
  rw [if_pos rfl]
  exact bind_eq_ok.2 ⟨.ok block, n1, attempt_of_ok hpropose, bind_eq_ok.2 ⟨(), n2, hadopt, rfl⟩⟩

/-! ### Agreement on the proposer -/

def TurnOf (height : UInt64) (s : InMemoryState) (key : PublicKey) : Prop :=
  ∃ active v, activeAt height s = .ok active ∧ weightedTurn height active = some v ∧
    v.publicKey = key

/-- The address whose turn it is by the loop is the identity expected. -/
def TurnsMeet (wallets : List KeyPair) (height : UInt64) (s : InMemoryState) : Prop :=
  ∃ w w', wallets[height.toNat % wallets.length]? = some w ∧ w' ∈ wallets ∧
    TurnOf height s w'.publicKey ∧ w.address = deriveConsensusID w'.publicKey.bytes

section

variable (hconfig : n.cfg.validators = wallets.map KeyPair.address)
  (h : consensusTurn clock height n = .ok (next, some block) n')
include hconfig h

theorem proposer_of_built :
    ∃ w, wallets[height.toNat % wallets.length]? = some w ∧ block.header.proposer = w.address := by
  obtain ⟨hself, hproposed⟩ := consensusTurn_built h
  rw [hconfig, List.length_map, List.getElem?_map, Option.map_eq_some_iff] at hself
  obtain ⟨w, hw, haddress⟩ := hself
  exact ⟨w, hw, hproposed.proposer_eq.trans haddress.symm⟩

theorem turnsMeet_of_expected (hkeys : RegisteredWith (wallets.map KeyPair.publicKey) n.state)
    (hexpected : expectedProposer height n.state = .ok block.header.proposer) :
    TurnsMeet wallets height n.state := by
  obtain ⟨w, hw, hproposer⟩ := proposer_of_built hconfig h
  obtain ⟨active, v, hactive, hturn, hid⟩ := expectedProposer_eq_ok.1 hexpected
  obtain ⟨hkey, hderived⟩ := hkeys.turn hactive hturn
  obtain ⟨w', hw', hkey⟩ := List.mem_map.1 hkey
  refine ⟨w, w', hw, hw', ⟨active, v, hactive, hturn, hkey.symm⟩, ?_⟩
  rw [← hproposer, ← hid, hderived, hkey]

end

/-- Builder and validator expect one proposer exactly when the two turns meet. -/
theorem proposer_agrees_iff (hconfig : n.cfg.validators = wallets.map KeyPair.address)
    (hkeys : RegisteredWith (wallets.map KeyPair.publicKey) n.state)
    (h : consensusTurn clock height n = .ok (next, some block) n') :
    expectedProposer height n.state = .ok block.header.proposer ↔
      TurnsMeet wallets height n.state := by
  refine ⟨turnsMeet_of_expected hconfig h hkeys, ?_⟩
  rintro ⟨w, w', hw, -, ⟨active, v, hactive, hturn, hkey⟩, hid⟩
  obtain ⟨w₁, hw₁, hproposer⟩ := proposer_of_built hconfig h
  cases hw.symm.trans hw₁
  refine expectedProposer_eq_ok.2 ⟨active, v, hactive, hturn, ?_⟩
  rw [(hkeys.turn hactive hturn).2, hkey, hproposer, hid]

/-! ### A node on its own -/

def alone (kp : KeyPair) (s : InMemoryState) : Node where
  cfg := ⟨[kp.address], 1, 10, 10, 0⟩
  state := s
  persistent := none
  mempool := .new 10 10
  vm := none
  wallet := some kp
  finalizedHeight := 0
  reorgBuffer := []
  currentHeight := 0
  currentTipHash := hashA
  currentEpoch := 0

def stoppedClock : TurnClock := ⟨fun _ => 0, fun _ => 0, ⟨0, fun _ => 0, 0⟩, 0⟩

theorem adoptBuilt_of_none (h : n.persistent = none) (now : UInt64) (block : Block) :
    adoptBuilt now block n = .ok () { n with
      currentHeight := block.header.height
      currentTipHash := block.headerHash
      mempool := block.transactions.foldl
        (fun mp tx => mp.remove true tx.intentID) n.mempool } := by
  have hsome : ¬ n.persistent.isSome = true := by simp [h]
  refine bind_eq_ok.2 ⟨n, n, get_eq_ok.2 ⟨rfl, rfl⟩, ?_⟩
  rw [if_neg hsome]
  refine bind_eq_ok.2 ⟨(), _, rfl, ?_⟩
  rw [if_neg fun hc => hsome hc.1]
  rfl

theorem proposeBlock_empty {kp : KeyPair} {s1 : InMemoryState} {start : UInt64 × Hash}
    {active : List Validator} (hwallet : n.wallet = some kp)
    (htake : takeTxs (n.mempool.pendingTxs clock.expireTime clock.listTime).1 n.cfg.maxTxPerBlock =
      .ok []) (hstart : startBlock [] height n.state = .ok start s1)
    (hactive : getActiveValidators s1 = .ok active) : ∃ block n1,
      proposeBlock clock height proposer n = .ok block n1 ∧ n1.persistent = n.persistent := by
  let inp := n.buildInput clock height proposer
  let header := inp.header [] start s1.stateRoot active
  let block : Block := ⟨header, [], newFeeSummary 0, kp.signHash header.headerHash, none, [], []⟩
  have hsign : inp.sign header.headerHash = .ok (kp.signHash header.headerHash) := by
    show walletSigner n.wallet header.headerHash = _
    rw [hwallet]
    rfl
  have hbuild : buildBlock inp n.state = .ok block (committed s1) :=
    buildBlock_eq_ok.2 ⟨s1, s1, s1, start, [], active,
      ⟨⟨[], htake, rfl⟩, ⟨hstart, rfl, rfl⟩, hactive, rfl, hsign, rfl, rfl, rfl, rfl⟩, rfl⟩
  refine ⟨block, _, bind_eq_ok.2 ⟨_, _, get_eq_ok.2 ⟨rfl, rfl⟩, bind_eq_ok.2 ⟨(), _, rfl,
    onState_of_ok (s := committed s1) ?_⟩⟩, ?_⟩
  · rw [askPool_state]
    exact hbuild
  · unfold askPool
    split <;> rfl

omit [Crypto] in
theorem takeTxs_new :
    takeTxs ((Mempool.new 10 10).pendingTxs (fun _ => 0) fun _ => 0).1 1 = .ok [] := by
  decide +kernel

theorem consensusTurn_alone (kp : KeyPair) {s s1 : InMemoryState} {start : UInt64 × Hash}
    {active : List Validator} (hstart : startBlock [] 1 s = .ok start s1)
    (hactive : getActiveValidators s1 = .ok active) :
    ∃ block n', consensusTurn stoppedClock 1 (alone kp s) = .ok (3, some block) n' := by
  obtain ⟨block, n1, hpropose, hnone⟩ := @proposeBlock_empty _ (alone kp s) stoppedClock 1
    kp.address kp _ _ _ rfl takeTxs_new hstart hactive
  have hlisted : proposerAtHeight 1 [kp.address] = .ok kp.address :=
    proposerAtHeight_eq_ok.2 (by simp)
  exact ⟨block, _, consensusTurn_of_built hlisted hpropose (adoptBuilt_of_none hnone _ block)⟩

theorem registeredWith_singleRegistry {v : Validator}
    (h : v.consensusID = deriveConsensusID v.publicKey.bytes) :
    RegisteredWith [v.publicKey] (singleRegistry v) := by
  intro id w hw
  obtain ⟨-, rfl⟩ := getValidator_singleRegistry hw
  exact ⟨List.mem_singleton_self _, h⟩

end

open Sample

theorem getBytes_singleRegistry {key : Bytes} (hkey : ¬ str "validator/" <+: key) (v : Validator) :
    (singleRegistry v).getBytes key = none := by
  have hne {k : Bytes} (hk : str "validator/" <+: k) : k ≠ key := fun h => hkey (h ▸ hk)
  unfold singleRegistry
  rw [getBytes_setBytes_of_ne (hne (validatorKey_starts _)),
    getBytes_setBytes_of_ne (hne (by decide)), getBytes_setBytes_of_ne (hne (by decide))]
  rfl

theorem startBlock_singleRegistry {height : UInt64} (hinside : height % 100 ≠ 0) (v : Validator)
    (hv : v.status = validatorActive) :
    ∃ start s1, startBlock [] height (singleRegistry v) = .ok start s1 ∧
      getActiveValidators s1 = .ok [v] := by
  have hactive := getActiveValidators_singleRegistry v hv
  refine ⟨_, _, startBlock_first hinside ?_ ?_ ?_ ?_ hactive,
    (getActiveValidators_setBytes (by decide +kernel) _ _).trans hactive⟩
  all_goals exact getBytes_singleRegistry (by decide) v

def validatorOf (kp : KeyPair) : Validator :=
  { sampleValidator with
    consensusID := deriveConsensusID kp.publicKey.bytes
    publicKey := kp.publicKey }

def walletOf (key : Bytes) : KeyPair := ⟨FixedBytes.copy 32 key, fun _ => [0]⟩

def loneNode (kp : KeyPair) : Node := alone kp (singleRegistry (validatorOf kp))

theorem loneNode_builds (kp : KeyPair) : ∃ block n',
    consensusTurn stoppedClock 1 (loneNode kp) = .ok (3, some block) n' ∧
    RegisteredWith ([kp].map KeyPair.publicKey) (loneNode kp).state ∧
    activeAt 1 (loneNode kp).state = .ok [validatorOf kp] := by
  obtain ⟨start, s1, hstart, hactive⟩ :=
    startBlock_singleRegistry (show (1 : UInt64) % 100 ≠ 0 by decide) (validatorOf kp) rfl
  obtain ⟨block, n', hturn⟩ := consensusTurn_alone kp hstart hactive
  exact ⟨block, n', hturn, registeredWith_singleRegistry (v := validatorOf kp) rfl,
    (activeAt_of_ok hstart).trans hactive⟩

theorem weightedTurn_single (kp : KeyPair) :
    weightedTurn 1 [validatorOf kp] = some (validatorOf kp) := by
  simp [weightedTurn, sumUint64, firstCovering, validatorOf, sampleValidator]

theorem address_not_expected : ¬ ∀ (_ : Crypto) (wallets : List KeyPair) (n n' : Node)
    (clock : TurnClock) (height next : UInt64) (block : Block),
    n.cfg.validators = wallets.map KeyPair.address →
    RegisteredWith (wallets.map KeyPair.publicKey) n.state →
    consensusTurn clock height n = .ok (next, some block) n' →
    expectedProposer height n.state = .ok block.header.proposer := by
  intro h
  obtain ⟨block, n', hturn, hkeys, hactive⟩ := loneNode_builds (walletOf [1])
  have hexpected := h sampleCrypto [walletOf [1]] _ _ _ _ _ _ rfl hkeys hturn
  obtain ⟨active, v, hactive', hv, hid⟩ := expectedProposer_eq_ok.1 hexpected
  cases hactive.symm.trans hactive'
  cases (weightedTurn_single _).symm.trans hv
  rw [(consensusTurn_built hturn).2.proposer_eq] at hid
  exact absurd hid (by decide +kernel)

/-- A key whose first 20 bytes are the identity derived from it. -/
def fixedKey : Bytes :=
  [0, 0, 0, 0] ++ List.replicate 12 7 ++ [0, 0, 0, 0] ++ List.replicate 12 7

theorem proposer_agrees_fixedKey : ∃ block n',
    consensusTurn stoppedClock 1 (loneNode (walletOf fixedKey)) = .ok (3, some block) n' ∧
    expectedProposer 1 (loneNode (walletOf fixedKey)).state = .ok block.header.proposer := by
  obtain ⟨block, n', hturn, hkeys, hactive⟩ := loneNode_builds (walletOf fixedKey)
  refine ⟨block, n', hturn, (proposer_agrees_iff rfl hkeys hturn).2 ?_⟩
  exact ⟨walletOf fixedKey, walletOf fixedKey, rfl, List.mem_singleton_self _,
    ⟨_, _, hactive, weightedTurn_single _, rfl⟩, by decide +kernel⟩

end Node

end Dsn
