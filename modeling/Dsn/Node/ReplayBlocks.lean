import Dsn.Consensus.Replay
import Dsn.Node.Commit

/-!
# Replay

Replay calls `BeginBlock` for each stored header and compares roots; it applies no transaction.
-/

namespace Dsn

open Go

variable {fromHeight height toHeight : UInt64}

/-! ### Heights -/

theorem heights_succ_self (hmax : height.toNat + 1 < 2 ^ 64) :
    Node.heights (height + 1) height = [] := by
  refine uint64Range_eq_nil (UInt64.lt_iff_toNat_lt.2 ?_)
  rw [toNat_succ_of_le (UInt64.le_refl height) (by omega)]
  exact Nat.lt_succ_self _

theorem heights_of_le (h : fromHeight ≤ toHeight) (hmax : toHeight.toNat + 1 < 2 ^ 64) :
    Node.heights fromHeight toHeight = fromHeight :: Node.heights (fromHeight + 1) toHeight :=
  uint64Range_eq_cons h (by omega)

theorem heights_eq_append (h : fromHeight ≤ toHeight) :
    ∃ l, Node.heights fromHeight toHeight = l ++ [toHeight] := by
  have hle : fromHeight.toNat ≤ toHeight.toNat := UInt64.le_iff_toNat_le.1 h
  unfold Node.heights
  rw [show toHeight.toNat + 1 - fromHeight.toNat = (toHeight.toNat - fromHeight.toNat) + 1 by omega,
    List.range_succ, List.map_append, List.map_singleton, ← UInt64.toNat_sub_of_le _ _ h,
    UInt64.ofNat_toNat, UInt64.add_comm, UInt64.sub_add_cancel]
  exact ⟨_, rfl⟩

/-! ### Chains -/

/-- A block and the state after it. -/
structure Link where
  block : Block
  after : InMemoryState

def tipOf (parent : BlockHeader) (links : List Link) : BlockHeader :=
  links.foldl (fun _ l => l.block.header) parent

def stateOf (s : InMemoryState) (links : List Link) : InMemoryState :=
  links.foldl (fun _ l => l.after) s

theorem tipOf_append (parent : BlockHeader) (links links' : List Link) :
    tipOf parent (links ++ links') = tipOf (tipOf parent links) links' := List.foldl_append

theorem stateOf_append (s : InMemoryState) (links links' : List Link) :
    stateOf s (links ++ links') = stateOf (stateOf s links) links' := List.foldl_append

section

variable [Crypto]

/-- Each block is accepted on the state that the one before left. -/
inductive AcceptedChain (vm : Option VM) : BlockHeader → InMemoryState → List Link → Prop
  | nil {parent : BlockHeader} {s : InMemoryState} : AcceptedChain vm parent s []
  | cons {parent : BlockHeader} {s s' : InMemoryState} {block : Block} {prevHash : Hash}
      {now : ℕ → UInt64} {links : List Link} :
      validateBlock block parent prevHash vm now s = .ok () s' →
      AcceptedChain vm block.header s' links → AcceptedChain vm parent s (⟨block, s'⟩ :: links)

/-- The blocks are stored in order; what else happens spares the headers. -/
inductive StoresChain : List Link → PersistentState → PersistentState → Prop
  | nil {ps : PersistentState} : StoresChain [] ps ps
  | cons {l : Link} {links : List Link} {ps ps₁ ps₂ : PersistentState} :
      atomicStoreBlockAndTip l.block ps = .ok () ps₁ → StoresChain links ps₁ ps₂ →
      StoresChain (l :: links) ps ps₂
  | other {links : List Link} {ps ps₁ ps₂ : PersistentState} :
      ps₁.db[blocksBucket]? = ps.db[blocksBucket]? → StoresChain links ps₁ ps₂ →
      StoresChain links ps ps₂

variable {vm : Option VM} {parent : BlockHeader} {s : InMemoryState} {l : Link}
  {links : List Link} {ps ps' : PersistentState}

namespace AcceptedChain

section

variable (h : AcceptedChain vm parent s (l :: links))
include h

theorem height_cons : l.block.header.height = parent.height + 1 := by
  cases h with
  | cons hvalid _ =>
    obtain ⟨_, _, _, _, _, _, haccepted, -⟩ := validateBlock_eq_ok.1 hvalid
    exact haccepted.height_eq

theorem tail : AcceptedChain vm l.block.header l.after links := by
  cases h with
  | cons _ htail => exact htail

theorem root_cons : l.after.smt.root = l.block.header.stateRoot := by
  cases h with
  | cons hvalid _ =>
    obtain ⟨_, _, _, _, _, _, haccepted, rfl⟩ := validateBlock_eq_ok.1 hvalid
    exact haccepted.stateRoot_eq

theorem toNat_height_cons (hmax : parent.height.toNat + 1 < 2 ^ 64) :
    l.block.header.height.toNat = parent.height.toNat + 1 := by
  rw [h.height_cons]
  exact Nat.mod_eq_of_lt hmax

end

section

variable (h : AcceptedChain vm parent s links)
include h

theorem drop (k : ℕ) :
    AcceptedChain vm (tipOf parent (links.take k)) (stateOf s (links.take k)) (links.drop k) := by
  induction k generalizing parent s links with
  | zero => exact h
  | succ k ih =>
    cases h with
    | nil => exact .nil
    | cons _ htail => exact ih htail

theorem take (k : ℕ) : AcceptedChain vm parent s (links.take k) := by
  induction h generalizing k with
  | nil => rw [List.take_nil]; exact .nil
  | cons hvalid _ ih =>
    cases k with
    | zero => exact .nil
    | succ k => exact .cons hvalid (ih k)

variable (hmax : parent.height.toNat + links.length < 2 ^ 64)
include hmax

theorem height_tipOf : (tipOf parent links).height.toNat = parent.height.toNat + links.length := by
  induction links generalizing parent s with
  | nil => rfl
  | cons l links ih =>
    rw [List.length_cons] at hmax ⊢
    have hheight := h.toNat_height_cons (by omega)
    have htip := ih h.tail (by omega)
    show (tipOf l.block.header links).height.toNat = _
    omega

theorem height_lt : ∀ l ∈ links, parent.height.toNat < l.block.header.height.toNat := by
  induction links generalizing parent s with
  | nil => exact fun _ hl => absurd hl List.not_mem_nil
  | cons l links ih =>
    rw [List.length_cons] at hmax
    have hheight := h.toNat_height_cons (by omega)
    refine List.forall_mem_cons.2 ⟨by omega, fun l' hl' => ?_⟩
    have hlt := ih h.tail (by omega) l' hl'
    omega

end

variable (h : AcceptedChain vm parent s (l :: links))
include h

theorem le_tip (hmax : parent.height.toNat + (l :: links).length < 2 ^ 64) :
    parent.height + 1 ≤ (tipOf parent (l :: links)).height := by
  have hlen : (l :: links).length = links.length + 1 := rfl
  have hheight := h.toNat_height_cons (by omega)
  have htip := h.height_tipOf hmax
  rw [← h.height_cons]
  exact UInt64.le_iff_toNat_le.2 (by omega)

theorem heights_cons (hmax : parent.height.toNat + (l :: links).length + 1 < 2 ^ 64) :
    Node.heights (parent.height + 1) (tipOf parent (l :: links)).height =
      l.block.header.height ::
        Node.heights (l.block.header.height + 1) (tipOf l.block.header links).height := by
  have htip := h.height_tipOf (by omega)
  rw [heights_of_le (h.le_tip (by omega)) (by omega), ← h.height_cons]
  rfl

end AcceptedChain

/-! ### Headers in the database -/

def HasHeaders (links : List Link) (db : Bolt.DB) : Prop :=
  ∀ l ∈ links, Bolt.lookup db blocksBucket (heightKey l.block.header.height) =
    some (encodeHeader l.block.header)

omit [Crypto] in
theorem StoresChain.lookup_eq (h : StoresChain links ps ps')
    (hne : ∀ l ∈ links, l.block.header.height ≠ height) :
    Bolt.lookup ps'.db blocksBucket (heightKey height) =
      Bolt.lookup ps.db blocksBucket (heightKey height) := by
  induction h with
  | nil => rfl
  | cons hstore _ ih =>
    obtain ⟨data, -, -, rfl⟩ := atomicStoreBlockAndTip_eq_ok.1 hstore
    rw [ih fun l hl => hne l (List.mem_cons_of_mem _ hl)]
    exact lookup_storedBlock_of_ne (hne _ List.mem_cons_self) data _
  | other hsame _ ih => rw [ih hne, Bolt.lookup_congr hsame]

theorem StoresChain.hasHeaders (hstored : StoresChain links ps ps')
    (hchain : AcceptedChain vm parent s links)
    (hmax : parent.height.toNat + links.length < 2 ^ 64) : HasHeaders links ps'.db := by
  induction hstored generalizing parent s with
  | nil => exact fun _ hl => absurd hl List.not_mem_nil
  | @cons l links ps ps1 ps2 hstore hrest ih =>
    obtain ⟨data, -, -, rfl⟩ := atomicStoreBlockAndTip_eq_ok.1 hstore
    rw [List.length_cons] at hmax
    have hheight := hchain.toNat_height_cons (by omega)
    have hrestMax : l.block.header.height.toNat + links.length < 2 ^ 64 := by omega
    refine List.forall_mem_cons.2 ⟨?_, ih hchain.tail hrestMax⟩
    rw [hrest.lookup_eq fun l' hl' heq => ?_]
    · exact lookup_storedBlock_self l.block data _
    · have hlt := hchain.tail.height_lt hrestMax l' hl'
      rw [heq] at hlt
      exact Nat.lt_irrefl _ hlt
  | other _ _ ih => exact ih hchain hmax

omit [Crypto] in
theorem HasHeaders.congr {db db' : Bolt.DB} (h : HasHeaders links db)
    (hsame : db'[blocksBucket]? = db[blocksBucket]?) : HasHeaders links db' := by
  intro l hl
  rw [Bolt.lookup_congr hsame]
  exact h l hl

/-! ### One turn of the loop -/

namespace Node

variable {n n' : Node} {height : UInt64} {header : BlockHeader}

def replayed (height : UInt64) (header : BlockHeader) (ps : PersistentState) (t : InMemoryState)
    (n : Node) : Node :=
  { n with
    state := committed t
    persistent := some { ps with
      db := Bolt.putIn chainBucket tipKey (encodeHeader header) ps.db }
    currentHeight := height
    currentTipHash := header.headerHash }

theorem replayBlock_eq_ok (hps : n.persistent = some ps)
    (hheader : loadBlockHeader ps height = .ok header) :
    replayBlock height n = .ok () n' ↔ ∃ start t, beginBlock height n.state = .ok start t ∧
      t.stateRoot = header.stateRoot ∧ n' = replayed height header ps t n := by
  unfold replayBlock
  rw [get_bind]
  simp only [hps]
  rw [wrapErr_bind (ofResult_eq_ok.2 ⟨hheader, rfl⟩)]
  constructor
  · intro h
    obtain ⟨start, n1, hbegin, h⟩ := bind_eq_ok.1 h
    obtain ⟨t, ht, rfl⟩ := onState_eq_ok.1 (wrapErr_eq_ok.1 hbegin)
    rw [wrapErr_bind (onState_commit_run _)] at h
    obtain ⟨hroot, h⟩ := failIf_bind_eq_ok.1 h
    obtain ⟨ps', hstore, rfl⟩ := (onPersistent_eq_ok (by exact hps)).1 (wrapErr_eq_ok.1 h)
    rw [storeTip_run] at hstore
    cases hstore
    exact ⟨start, t, ht, not_not.1 hroot, rfl⟩
  · rintro ⟨start, t, ht, hroot, rfl⟩
    rw [wrapErr_bind (onState_of_ok ht), wrapErr_bind (onState_commit_run _),
      failIf_bind (not_not.2 hroot)]
    exact wrapErr_eq_ok.2 (onPersistent_of_ok (by exact hps) (storeTip_run _ _))

theorem replayBlocks_eq (h : fromHeight ≤ toHeight) (hps : n.persistent = some ps) :
    replayBlocks fromHeight toHeight n = (heights fromHeight toHeight).forM replayBlock n := by
  have hsome : ¬ n.persistent.isNone = true := by
    rw [hps]
    exact Bool.false_ne_true
  unfold replayBlocks
  rw [failIf_bind (UInt64.not_lt.2 h), get_bind, failIf_bind hsome]

end Node

/-! ### The whole loop -/

/-- `BeginBlock` and `Commit` alone lead from block to block. -/
def ReplayFollows : InMemoryState → List Link → Prop
  | _, [] => True
  | s, l :: links =>
    (∃ start t, beginBlock l.block.header.height s = .ok start t ∧ committed t = l.after) ∧
      l.block.header.stripped.headerHash = l.block.headerHash ∧ ReplayFollows l.after links

theorem ReplayFollows.drop (h : ReplayFollows s links) (k : ℕ) :
    ReplayFollows (stateOf s (links.take k)) (links.drop k) := by
  induction k generalizing s links with
  | zero => exact h
  | succ k ih =>
    cases links with
    | nil => trivial
    | cons l links => exact ih h.2.2

theorem ReplayFollows.take (h : ReplayFollows s links) (k : ℕ) :
    ReplayFollows s (links.take k) := by
  induction k generalizing s links with
  | zero => trivial
  | succ k ih =>
    cases links with
    | nil => trivial
    | cons l links => exact ⟨h.1, h.2.1, ih h.2.2⟩

/-- The node is at the end of a chain. -/
structure AtTip (header : BlockHeader) (s : InMemoryState) (n : Node) : Prop where
  state : n.state = s
  currentHeight : n.currentHeight = header.height
  currentTipHash : n.currentTipHash = header.headerHash

variable {n n' : Node}

theorem forM_cons_run {hs : List UInt64} (h : Node.replayBlock height n = .ok () n') :
    (height :: hs).forM Node.replayBlock n = hs.forM Node.replayBlock n' := bind_eq_ok_of h

theorem replayBlock_run (hchain : AcceptedChain vm parent s (l :: links))
    (hreplay : ReplayFollows s (l :: links)) (hheaders : HasHeaders (l :: links) ps.db)
    (hps : n.persistent = some ps) (hs : n.state = s) :
    ∃ n' ps', Node.replayBlock l.block.header.height n = .ok () n' ∧
      AtTip l.block.header l.after n' ∧ n'.persistent = some ps' ∧
      ps'.db[blocksBucket]? = ps.db[blocksBucket]? := by
  obtain ⟨⟨start, t, hbegin, hafter⟩, hhash, -⟩ := hreplay
  have hload := loadBlockHeader_of_lookup (hheaders l List.mem_cons_self)
  have hroot : t.stateRoot = l.block.header.stripped.stateRoot := by
    rw [show l.block.header.stripped.stateRoot = l.block.header.stateRoot from rfl,
      ← hchain.root_cons, ← hafter]
    rfl
  refine ⟨_, _, (Node.replayBlock_eq_ok hps hload).2 ⟨start, t, by rw [hs]; exact hbegin, hroot,
    rfl⟩, ⟨hafter, rfl, hhash⟩, rfl, ?_⟩
  exact Bolt.get_putIn_of_ne (by decide)

theorem replay_rest (hchain : AcceptedChain vm parent s links) (hreplay : ReplayFollows s links)
    (hheaders : HasHeaders links ps.db) (hmax : parent.height.toNat + links.length + 1 < 2 ^ 64)
    (hps : n.persistent = some ps) (hs : n.state = s) (htip : links = [] → AtTip parent s n) :
    ∃ n', (Node.heights (parent.height + 1) (tipOf parent links).height).forM Node.replayBlock n =
        .ok () n' ∧ AtTip (tipOf parent links) (stateOf s links) n' := by
  induction links generalizing parent s ps n with
  | nil =>
    refine ⟨n, ?_, htip rfl⟩
    rw [show tipOf parent [] = parent from rfl, heights_succ_self hmax]
    rfl
  | cons l links ih =>
    -- the loop does not read the tip that it sets
    obtain ⟨n1, ps1, hrun, htip1, hps1, hsame⟩ := replayBlock_run hchain hreplay hheaders hps hs
    have hlen : (l :: links).length = links.length + 1 := rfl
    have hheight := hchain.toNat_height_cons (by omega)
    obtain ⟨n', hrest, htip'⟩ := ih hchain.tail hreplay.2.2
      (HasHeaders.congr (fun l' hl' => hheaders l' (List.mem_cons_of_mem _ hl')) hsame)
      (by omega) hps1 htip1.state fun _ => htip1
    refine ⟨n', ?_, htip'⟩
    rw [hchain.heights_cons (by omega), forM_cons_run hrun]
    exact hrest

theorem replay_run (hchain : AcceptedChain vm parent s (l :: links))
    (hreplay : ReplayFollows s (l :: links)) (hheaders : HasHeaders (l :: links) ps.db)
    (hmax : parent.height.toNat + (l :: links).length + 1 < 2 ^ 64)
    (hps : n.persistent = some ps) (hs : n.state = s) :
    ∃ n', Node.replayBlocks (parent.height + 1) (tipOf parent (l :: links)).height n =
        .ok () n' ∧ AtTip (tipOf parent (l :: links)) (stateOf s (l :: links)) n' := by
  rw [Node.replayBlocks_eq (hchain.le_tip (by omega)) hps]
  exact replay_rest hchain hreplay hheaders hmax hps hs
    fun hnil => absurd hnil (List.cons_ne_nil l links)

/-! ### Replay of a stored chain -/

def ReplaysExactly (parent : BlockHeader) (s : InMemoryState) (links : List Link)
    (ps : PersistentState) : Prop :=
  ∀ k m, k < m → m ≤ links.length → ∀ n : Node, n.persistent = some ps →
    n.state = stateOf s (links.take k) →
    ∃ n', Node.replayBlocks ((tipOf parent (links.take k)).height + 1)
        (tipOf parent (links.take m)).height n = .ok () n' ∧
      AtTip (tipOf parent (links.take m)) (stateOf s (links.take m)) n'

theorem replayBlocks_single (hchain : AcceptedChain vm parent s [l])
    (hmax : parent.height.toNat + 2 < 2 ^ 64) (hps : n.persistent = some ps) :
    Node.replayBlocks (parent.height + 1) l.block.header.height n =
      Node.replayBlock l.block.header.height n := by
  have hheight := hchain.toNat_height_cons (by omega)
  have hle : parent.height + 1 ≤ l.block.header.height := hchain.le_tip (by simpa using by omega)
  rw [Node.replayBlocks_eq hle hps, ← hchain.height_cons,
    heights_of_le (UInt64.le_refl _) (by omega), heights_succ_self (by omega)]
  exact congrFun bind_pure_unit n

theorem ReplaysExactly.tail (h : ReplaysExactly parent s (l :: links) ps) :
    ReplaysExactly l.block.header l.after links ps :=
  fun k m hkm hm => h (k + 1) (m + 1) (by omega) (Nat.succ_le_succ hm)

section

variable (hchain : AcceptedChain vm parent s links)
include hchain

theorem AcceptedChain.replayFollows
    (hempty : ∀ l ∈ links, l.block.transactions = [] ∧ l.block.evidence = []) :
    ReplayFollows s links := by
  induction hchain with
  | nil => trivial
  | @cons parent s s' block prevHash now links hvalid _ ih =>
    obtain ⟨⟨htxs, hevidence⟩, hrest⟩ := List.forall_mem_cons.1 hempty
    obtain ⟨s1, s2, s3, start, epoch, rs, haccepted, rfl⟩ := validateBlock_eq_ok.1 hvalid
    obtain ⟨hstart, hloop, hfinish⟩ := haccepted.executed
    have hevents := haccepted.eventsRoot_eq
    rw [htxs] at hloop hfinish
    rw [hevidence] at hstart
    cases hloop
    cases hfinish
    have hstripped : block.header.stripped = block.header := by
      unfold BlockHeader.stripped
      rw [show zeroHash = block.header.eventsRoot from hevents]
    exact ⟨⟨start, s1, hstart, rfl⟩, congrArg BlockHeader.headerHash hstripped, ih hrest⟩

theorem AcceptedChain.replayFollows_iff (hplain : ∀ l ∈ links, l.block.evidence = [] ∧
      ∀ tx ∈ l.block.transactions, contractCall vm tx = none) :
    ReplayFollows s links ↔ ∀ l ∈ links, l.block.transactions = [] := by
  refine ⟨fun h => ?_, fun h => hchain.replayFollows fun l hl => ⟨h l hl, (hplain l hl).1⟩⟩
  induction hchain with
  | nil => simp
  | @cons parent s s' block prevHash now links hvalid _ ih =>
    obtain ⟨⟨hevidence, htxs⟩, hrest⟩ := List.forall_mem_cons.1 hplain
    obtain ⟨⟨start, t, hbegin, hafter⟩, -, hlinks⟩ := h
    refine List.forall_mem_cons.2 ⟨?_, ih hrest hlinks⟩
    obtain ⟨s1, s2, s3, start', epoch, rs, haccepted, rfl⟩ := validateBlock_eq_ok.1 hvalid
    obtain ⟨hstart, hloop, hfinish⟩ := haccepted.executed
    rw [hevidence] at hstart
    cases hbegin.symm.trans hstart
    -- the replayed state has the nonces from before the transactions
    have haccounts : (committed t).accounts = (committed s3).accounts :=
      congrArg InMemoryState.accounts hafter
    have hback : Accounts NonceGrows s2 t := IsTrans.trans _ _ _
      ((finalizeBlock_accounts nonceGrows_credits _).of_ok hfinish) (.of_eq haccounts)
    cases hblock : block.transactions with
    | nil => rfl
    | cons tx rest =>
      rw [hblock] at hloop htxs
      exact absurd (htxs tx List.mem_cons_self) (runLoop_not_plain hloop hback)

variable (hheaders : HasHeaders links ps.db)
  (hmax : parent.height.toNat + links.length + 1 < 2 ^ 64)
include hheaders hmax

theorem replaysExactly_of_replayFollows (hreplay : ReplayFollows s links) :
    ReplaysExactly parent s links ps := by
  intro k m hkm hm n hps hs
  obtain ⟨j, rfl⟩ := Nat.exists_eq_add_of_lt hkm
  have hchain' := (hchain.drop k).take (j + 1)
  have hreplay' := (hreplay.drop k).take (j + 1)
  have hmem : ∀ l ∈ (links.drop k).take (j + 1), l ∈ links := fun l hl =>
    List.mem_of_mem_drop (List.mem_of_mem_take hl)
  have hlen : ((links.drop k).take (j + 1)).length = j + 1 := by
    rw [List.length_take, List.length_drop]
    omega
  have hheight := (hchain.take k).height_tipOf (by rw [List.length_take]; omega)
  rw [List.length_take] at hheight
  have hsplit : links.take (k + (j + 1)) = links.take k ++ (links.drop k).take (j + 1) :=
    List.take_add
  rw [Nat.add_assoc, hsplit, tipOf_append, stateOf_append]
  generalize (links.drop k).take (j + 1) = replayed at *
  cases replayed with
  | nil => cases hlen
  | cons l rest =>
    exact replay_run hchain' hreplay' (fun l hl => hheaders l (hmem l hl)) (by omega) hps hs

theorem replayFollows_of_replaysExactly (h : ReplaysExactly parent s links ps) :
    ReplayFollows s links := by
  induction links generalizing parent s with
  | nil => trivial
  | cons l links ih =>
    rw [List.length_cons] at hmax
    have hheight := hchain.toNat_height_cons (by omega)
    -- the replay of the first block alone
    let n : Node := { Node.initial sampleConfig none ps with state := s }
    obtain ⟨n', hrun, htip⟩ := h 0 1 Nat.one_pos (Nat.succ_le_succ (Nat.zero_le _)) n rfl rfl
    have hone : Node.replayBlock l.block.header.height n = .ok () n' :=
      (replayBlocks_single (hchain.take 1) (by omega) rfl).symm.trans hrun
    obtain ⟨start, t, hbegin, -, rfl⟩ := (Node.replayBlock_eq_ok rfl
      (loadBlockHeader_of_lookup (hheaders l List.mem_cons_self))).1 hone
    exact ⟨⟨start, t, hbegin, htip.state⟩, htip.currentTipHash, ih hchain.tail
      (fun l' hl' => hheaders l' (List.mem_cons_of_mem _ hl')) (by omega) h.tail⟩

end

/-- Replay is exact exactly when `BeginBlock` alone leads through the chain, which without evidence
and contract transactions means that no block has a transaction. -/
theorem replay_exact_iff {ps₀ : PersistentState} (hchain : AcceptedChain vm parent s links)
    (hstored : StoresChain links ps₀ ps)
    (hmax : parent.height.toNat + links.length + 1 < 2 ^ 64) :
    (ReplaysExactly parent s links ps ↔ ReplayFollows s links) ∧
    ((∀ l ∈ links, l.block.evidence = [] ∧
        ∀ tx ∈ l.block.transactions, contractCall vm tx = none) →
      (ReplaysExactly parent s links ps ↔ ∀ l ∈ links, l.block.transactions = [])) := by
  have hheaders := hstored.hasHeaders hchain (Nat.lt_of_succ_lt hmax)
  have hiff : ReplaysExactly parent s links ps ↔ ReplayFollows s links :=
    ⟨replayFollows_of_replaysExactly hchain hheaders hmax,
      replaysExactly_of_replayFollows hchain hheaders hmax⟩
  exact ⟨hiff, fun hplain => hiff.trans (hchain.replayFollows_iff hplain)⟩

/-! ### A payment -/

theorem chain_single {block : Block} {prevHash : Hash} {now : ℕ → UInt64} {s' : InMemoryState}
    (h : validateBlock block parent prevHash vm now s = .ok () s') :
    AcceptedChain vm parent s [⟨block, s'⟩] := .cons h .nil

omit [Crypto] in
theorem exists_storesChain_single (h : StorableBlock l.block) (ps : PersistentState) :
    ∃ ps', StoresChain [l] ps ps' := by
  obtain ⟨data, hdata, hlen⟩ := h
  exact ⟨_, .cons (atomicStoreBlockAndTip_eq_ok.2 ⟨data, hdata, hlen, rfl⟩) .nil⟩

end

open Sample

theorem payment_not_replayed : ∃ (block : Block) (s s' : InMemoryState) (ps ps' : PersistentState),
    AcceptedChain (some sampleVM) sampleParent s [⟨block, s'⟩] ∧ StoresChain [⟨block, s'⟩] ps ps' ∧
      ¬ ReplaysExactly sampleParent s [⟨block, s'⟩] ps' := by
  obtain ⟨r, s₂, s₃, hrun, hfin, htotal, -⟩ := runTx_samplePayment
  let block := firstBlock (sampleSeal zeroHash [1] []) sampleContext [samplePayment] [r] s₃
  have hchain := chain_single (firstBlock_accepted zeroHash [1] [] rfl (by decide)
    (runLoop_singleton hrun) hfin)
  have hstorable : StorableBlock block := storableBlock_of_no_events rfl
    (List.forall_mem_singleton.2 ⟨by decide, by decide, by decide⟩)
    (show ([samplePayment].map Transaction.encodedSize).sum + 1 + 293 ≤ Bolt.maxValueSize by decide)
  obtain ⟨ps', hstored⟩ := exists_storesChain_single (l := ⟨block, committed s₃⟩) hstorable
    freshPersistent
  refine ⟨block, _, _, _, ps', hchain, hstored, fun hexact => ?_⟩
  obtain ⟨⟨start, t, hbegin, hafter⟩, -⟩ := replayFollows_of_replaysExactly hchain
    (hstored.hasHeaders hchain (show sampleParent.height.toNat + 1 < 2 ^ 64 by decide))
    (show sampleParent.height.toNat + 1 + 1 < 2 ^ 64 by decide) hexact
  -- `BeginBlock` does not touch the accounts
  cases (startBlock_sampleLedger sampleAccounts).symm.trans hbegin
  have haccounts : sampleAccounts = s₃.accounts := congrArg InMemoryState.accounts hafter
  rw [← haccounts] at htotal
  exact absurd htotal (by decide)

theorem replay_exact_empty : ∃ (block : Block) (s s' : InMemoryState) (ps ps' : PersistentState),
    AcceptedChain (some sampleVM) sampleParent s [⟨block, s'⟩] ∧ StoresChain [⟨block, s'⟩] ps ps' ∧
      ReplaysExactly sampleParent s [⟨block, s'⟩] ps' := by
  let begun := sampleLedgerBegun sampleAccounts
  let block := firstBlock (sampleSeal zeroHash [1] []) sampleContext [] [] begun
  have haccepted : validateBlock block sampleParent hashA (some sampleVM) (fun _ => 0)
      (sampleLedger sampleAccounts) = .ok () (committed begun) :=
    firstBlock_accepted zeroHash [1] [] rfl (by decide) rfl rfl
  have hchain := chain_single haccepted
  have hstorable : StorableBlock block := storableBlock_of_no_events rfl
    (fun _ h => absurd h List.not_mem_nil) (show 0 + 1 + 293 ≤ Bolt.maxValueSize by decide)
  obtain ⟨ps', hstored⟩ := exists_storesChain_single (l := ⟨block, committed begun⟩) hstorable
    freshPersistent
  have hplain : ∀ l ∈ [(⟨block, committed begun⟩ : Link)], l.block.evidence = [] ∧
      ∀ tx ∈ l.block.transactions, contractCall (some sampleVM) tx = none :=
    List.forall_mem_singleton.2 ⟨rfl, fun _ h => absurd h List.not_mem_nil⟩
  exact ⟨block, _, _, _, ps', hchain, hstored,
    ((replay_exact_iff hchain hstored
      (show sampleParent.height.toNat + 1 + 1 < 2 ^ 64 by decide)).2 hplain).2
      (List.forall_mem_singleton.2 rfl)⟩

end Dsn
