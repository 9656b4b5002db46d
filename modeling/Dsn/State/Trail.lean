import Dsn.Lib.PrefixTree
import Dsn.State.SMT

/-!
# The tree as a run over prefixes

The sparse Merkle tree as an instance of the tree of prefixes.
-/

namespace Dsn

open Go

/-! ### The bits of a path -/

theorem shiftRight_and_one : ∀ n < 256, ∀ k < 8, (UInt8.ofNat n >>> UInt8.ofNat k) &&& 1 =
    if n.testBit k then 1 else 0 := by
  decide +kernel

theorem testBit_mask : ∀ k < 8, ∀ j < 8, (1 <<< UInt8.ofNat k : UInt8).toNat.testBit j =
    decide (k = j) := by
  decide

theorem testBit_not_mask : ∀ k < 8, ∀ j < 8, (~~~ (1 <<< UInt8.ofNat k) : UInt8).toNat.testBit j =
    !decide (k = j) := by
  decide

def pathBit (path : Hash) (i : ℕ) : Bool := (path.bytes.getD (i / 8) 0).toNat.testBit (7 - i % 8)

theorem bitAt_eq (path : Hash) (i : ℕ) : bitAt path i = if pathBit path i then 1 else 0 := by
  unfold bitAt pathBit
  generalize path.bytes.getD (i / 8) 0 = x
  have h := shiftRight_and_one x.toNat x.toNat_lt (7 - i % 8) (by omega)
  rwa [UInt8.ofNat_toNat] at h

variable {d : ℕ}

theorem pathBit_modifyByte (f : UInt8 → UInt8) (path : Hash) (hd : d < smtDepth) (i : ℕ) :
    pathBit (modifyByte f path d) i = if i / 8 = d / 8 then
      (f (path.bytes.getD (i / 8) 0)).toNat.testBit (7 - i % 8) else pathBit path i := by
  have hlen : d / 8 < path.bytes.length := by
    rw [path.length_eq]
    unfold smtDepth at hd
    omega
  unfold pathBit modifyByte
  by_cases h : i / 8 = d / 8
  · simp [h, List.getElem?_eq_getElem hlen]
  · simp [h, Ne.symm h]

theorem pathBit_clear (path : Hash) (hd : d < smtDepth) (i : ℕ) :
    pathBit (modifyByte (fun x => x &&& ~~~ bitMask d) path d) i =
      (pathBit path i && !decide (i = d)) := by
  rw [pathBit_modifyByte _ _ hd]
  split_ifs with h
  · have hmask := testBit_not_mask (7 - d % 8) (by omega) (7 - i % 8) (by omega)
    have hiff : decide (7 - d % 8 = 7 - i % 8) = decide (i = d) := decide_eq_decide.2 (by omega)
    rw [UInt8.toNat_and, Nat.testBit_and, bitMask, hmask, hiff]
    rfl
  · have hne : ¬ i = d := fun h' => h (by rw [h'])
    simp [hne]

theorem pathBit_flip (path : Hash) {i : ℕ} (hd : d < smtDepth) (hi : i ≠ d) :
    pathBit (modifyByte (fun x => x ^^^ bitMask d) path d) i = pathBit path i := by
  rw [pathBit_modifyByte _ _ hd]
  split_ifs with h
  · have hmask := testBit_mask (7 - d % 8) (by omega) (7 - i % 8) (by omega)
    have hne : ¬ 7 - d % 8 = 7 - i % 8 := by omega
    rw [UInt8.toNat_xor, Nat.testBit_xor, bitMask, hmask, decide_eq_false hne, Bool.xor_false]
    rfl
  · rfl

theorem pathBit_clearBitsFrom (path : Hash) (d : ℕ) {i : ℕ} (hi : i < smtDepth) :
    pathBit (clearBitsFrom path d) i = (decide (i < d) && pathBit path i) := by
  -- after `n` turns of the loop the bits from `d` to `d + n` are cleared
  have hloop (n : ℕ) (hn : d + n ≤ smtDepth ∨ n = 0) : pathBit ((List.range' d n).foldl
      (fun p d => modifyByte (fun x => x &&& ~~~ bitMask d) p d) path) i =
        (!decide (d ≤ i ∧ i < d + n) && pathBit path i) := by
    induction n with
    | zero =>
      have hnone : ¬ (d ≤ i ∧ i < d + 0) := by omega
      rw [decide_eq_false hnone]
      rfl
    | succ n ih =>
      have hlt : d + n < smtDepth := by omega
      rw [List.range'_concat, List.foldl_append, List.foldl_cons, List.foldl_nil, Nat.one_mul,
        pathBit_clear _ hlt, ih (by omega)]
      by_cases h : i = d + n
      · simp [h]
      · have hiff : (d ≤ i ∧ i < d + n) ↔ (d ≤ i ∧ i < d + (n + 1)) := by omega
        simp [h, hiff]
  unfold clearBitsFrom
  rw [hloop _ (by omega)]
  congr 1
  by_cases h : i < d
  · simp [h]
  · have : d ≤ i ∧ i < d + (smtDepth - d) := by omega
    simp [h, this]

theorem path_ext {p q : Hash} (h : ∀ i < smtDepth, pathBit p i = pathBit q i) : p = q := by
  apply FixedBytes.ext
  refine List.ext_getElem (p.length_eq.trans q.length_eq.symm) fun b hb hb' => ?_
  have hb32 : b < 32 := by simpa using hb
  apply UInt8.toNat_inj.1
  apply Nat.eq_of_testBit_eq
  intro j
  by_cases hj : j < 8
  · have hbit := h (8 * b + (7 - j)) (by unfold smtDepth; omega)
    unfold pathBit at hbit
    rw [show (8 * b + (7 - j)) / 8 = b by omega,
      show 7 - (8 * b + (7 - j)) % 8 = j by omega] at hbit
    rwa [List.getD_eq_getElem?_getD, List.getD_eq_getElem?_getD, List.getElem?_eq_getElem hb,
      List.getElem?_eq_getElem hb', Option.getD_some] at hbit
  · have hlow (x : UInt8) : x.toNat.testBit j = false :=
      Nat.testBit_lt_two_pow (x.toNat_lt.trans_le (Nat.pow_le_pow_right (by norm_num) (by omega)))
    rw [hlow, hlow]

theorem pathBit_zeroHash (i : ℕ) : pathBit zeroHash i = false := by
  have hbyte : (zeroHash.bytes.getD (i / 8) 0) = 0 := by
    show ((List.replicate 32 (0 : UInt8))[i / 8]?).getD 0 = 0
    rw [List.getElem?_replicate]
    split_ifs <;> rfl
  unfold pathBit
  rw [hbyte]
  exact Nat.zero_testBit _

def pathPositions : PrefixTree.Positions Hash where
  depth := smtDepth
  depth_pos := by decide
  bit := pathBit
  cut := clearBitsFrom
  origin := zeroHash
  bit_cut p d _ hi := pathBit_clearBitsFrom p d hi
  bit_origin i _ := pathBit_zeroHash i
  ext _ _ := path_ext

theorem clearBitsFrom_flip (path : Hash) (hd : d < smtDepth) :
    clearBitsFrom (modifyByte (fun x => x ^^^ bitMask d) path d) d = clearBitsFrom path d := by
  refine path_ext fun i hi => ?_
  rw [pathBit_clearBitsFrom _ _ hi, pathBit_clearBitsFrom _ _ hi]
  by_cases h : i < d
  · rw [pathBit_flip _ hd h.ne]
  · simp [h]

/-! ### The entries of the tree -/

def SMT.nodes (t : SMT) (x : Hash) : Hash := (t.siblings[x]?).getD zeroHash

theorem SMT.nodes_setNode (t : SMT) (path : Hash) (d : ℕ) (h : Hash) :
    (t.setNode path d h).nodes = Function.update t.nodes (clearBitsFrom path d) h := by
  funext x
  unfold SMT.setNode SMT.nodes
  by_cases hx : x = clearBitsFrom path d
  · subst hx
    rw [Function.update_self]
    split_ifs with hz
    · rw [Map.get_insert_self]
      rfl
    · rw [Map.get_erase_self]
      exact (not_not.1 hz).symm
  · rw [Function.update_of_ne hx]
    split_ifs with hz
    · rw [Map.get_insert_of_ne _ (Ne.symm hx)]
    · rw [Map.get_erase_of_ne _ (Ne.symm hx)]

theorem SMT.getNode_eq (t : SMT) (path : Hash) (d : ℕ) :
    t.getNode path d = t.nodes (clearBitsFrom path d) := rfl

theorem SMT.siblingAt_eq (t : SMT) (path : Hash) (hd : d < smtDepth) :
    t.siblingAt path d = t.nodes (clearBitsFrom path d) := by
  unfold SMT.siblingAt
  rw [SMT.getNode_eq, clearBitsFrom_flip path hd]

section

variable [Crypto]

open PrefixTree

def stepInput (path : Hash) (acc : SMT × Hash) (depth : ℕ) : Bytes :=
  let (t, currentHash) := acc
  if bitAt path depth = 0 then 1 :: currentHash.bytes ++ (t.siblingAt path depth).bytes
  else 1 :: (t.siblingAt path depth).bytes ++ currentHash.bytes

def hashedUp (path : Hash) : ℕ → SMT × Hash → List Bytes
  | 0, _ => []
  | depth + 1, acc =>
    stepInput path acc depth :: hashedUp path depth (SMT.recomputeStep path acc depth)

theorem recomputeUp_eq {t : SMT} {path : Hash} {r : SMT × Hash}
    (h : (List.range smtDepth).reverse.foldl (SMT.recomputeStep path) (t, t.getNode path smtDepth) =
      r) : t.recomputeUp path = { r.1 with root := r.2 } := by
  unfold SMT.recomputeUp
  rw [h]

structure Climbed (E : Hash → Hash) (path c : Hash) (n : ℕ) (acc : SMT × Hash) : Prop where
  nodes_eq : acc.1.nodes = writeTo pathPositions SMT.internalHash E path c n
  hash_eq : acc.2 = climb pathPositions SMT.internalHash E path c n

variable {E : Hash → Hash} {path c : Hash} {n : ℕ} {acc : SMT × Hash}

theorem Climbed.stepInput_eq (h : Climbed E path c n acc) (hn : n < smtDepth) :
    stepInput path acc (smtDepth - (n + 1)) =
      1 :: (leftAt pathPositions SMT.internalHash E path c n).bytes ++
        (climb pathPositions SMT.internalHash E path c n).bytes := by
  have hsib : acc.1.siblingAt path (smtDepth - (n + 1)) =
      leftAt pathPositions SMT.internalHash E path c n := by
    rw [SMT.siblingAt_eq _ _ (by omega), h.nodes_eq]
    exact writeTo_cut hn
  unfold stepInput
  simp only [hsib, h.hash_eq, bitAt_eq]
  cases hbit : pathBit path (smtDepth - (n + 1)) with
  | true => rfl
  | false =>
    -- the sibling is the entry that was just written
    have hleft : leftAt pathPositions SMT.internalHash E path c n =
        climb pathPositions SMT.internalHash E path c n := if_neg (Bool.eq_false_iff.1 hbit)
    rw [hleft]
    rfl

theorem recomputeStep_snd (path : Hash) (acc : SMT × Hash) (depth : ℕ) :
    (SMT.recomputeStep path acc depth).2 = sha256 (stepInput path acc depth) := by
  unfold SMT.recomputeStep stepInput
  split_ifs <;> rfl

theorem Climbed.step (h : Climbed E path c n acc) (hn : n < smtDepth) :
    Climbed E path c (n + 1) (SMT.recomputeStep path acc (smtDepth - (n + 1))) := by
  have hhash : (SMT.recomputeStep path acc (smtDepth - (n + 1))).2 =
      climb pathPositions SMT.internalHash E path c (n + 1) := by
    rw [recomputeStep_snd, h.stepInput_eq hn]
    rfl
  refine ⟨?_, hhash⟩
  have hcut := pathPositions.cut_cut path (smtDepth - (n + 1)) (smtDepth - (n + 1))
  rw [min_self] at hcut
  show (acc.1.setNode _ _ (SMT.recomputeStep path acc (smtDepth - (n + 1))).2).nodes = _
  rw [SMT.nodes_setNode, hhash, h.nodes_eq, writeTo_succ hn]
  exact congrArg (fun x => Function.update _ x _) hcut

theorem Climbed.loop {m : ℕ} (h : Climbed E path c (smtDepth - m) acc) (hm : m ≤ smtDepth) :
    Climbed E path c smtDepth ((List.range m).reverse.foldl (SMT.recomputeStep path) acc) := by
  induction m generalizing acc with
  | zero => exact h
  | succ m ih =>
    have hn : smtDepth - (m + 1) < smtDepth := by omega
    have hidx : smtDepth - (smtDepth - (m + 1) + 1) = m := by omega
    have hnext : smtDepth - (m + 1) + 1 = smtDepth - m := by omega
    have hstep := h.step hn
    rw [hidx, hnext] at hstep
    rw [List.range_succ, List.reverse_append, List.reverse_singleton, List.singleton_append]
    exact ih hstep (Nat.le_of_succ_le hm)

theorem Climbed.mem_hashedUp {m : ℕ} (h : Climbed E path c (smtDepth - m) acc) (hm : m ≤ smtDepth)
    {b : Bytes} : b ∈ hashedUp path m acc ↔ ∃ n, smtDepth - m ≤ n ∧ n < smtDepth ∧
      b = 1 :: (leftAt pathPositions SMT.internalHash E path c n).bytes ++
        (climb pathPositions SMT.internalHash E path c n).bytes := by
  induction m generalizing acc with
  | zero =>
    refine iff_of_false (List.not_mem_nil) ?_
    rintro ⟨n, hn, hn', -⟩
    omega
  | succ m ih =>
    have hlt : smtDepth - (m + 1) < smtDepth := by omega
    have hidx : smtDepth - (smtDepth - (m + 1) + 1) = m := by omega
    have hnext : smtDepth - (m + 1) + 1 = smtDepth - m := by omega
    have hinput := h.stepInput_eq hlt
    have hstep := h.step hlt
    rw [hidx] at hinput
    rw [hidx, hnext] at hstep
    rw [hashedUp, List.mem_cons, hinput, ih hstep (Nat.le_of_succ_le hm)]
    constructor
    · rintro (rfl | ⟨n, hn, hn', rfl⟩)
      · exact ⟨_, le_rfl, hlt, rfl⟩
      · exact ⟨n, by omega, hn', rfl⟩
    · rintro ⟨n, hn, hn', rfl⟩
      by_cases hhead : n = smtDepth - (m + 1)
      · exact .inl (by rw [hhead])
      · exact .inr ⟨n, by omega, hn', rfl⟩

end

/-! ### Calls -/

variable [Crypto]

open PrefixTree

namespace Update

def key : Update → Bytes
  | insert key _ => key
  | delete key => key

def path (u : Update) : Hash := sha256 u.key

def value : Update → Option Bytes
  | insert _ value => some value
  | delete _ => none

def label (path : Hash) : Option Bytes → Hash
  | some value => SMT.leafHash path value
  | none => zeroHash

def call (u : Update) : Hash × Hash := (u.path, label u.path u.value)

def withLeaf (t : SMT) : Update → SMT
  | insert key value =>
    { t with values := t.values.insert (sha256 key) value }.setNode (sha256 key) smtDepth
      (SMT.leafHash (sha256 key) value)
  | delete key =>
    { t with
      values := t.values.erase (sha256 key)
      siblings := t.siblings.erase (sha256 key) }

def hashed (t : SMT) (u : Update) : List Bytes :=
  (match u with
    | insert key value => [key, value, 0 :: (sha256 key).bytes ++ (sha256 value).bytes]
    | delete key => [key]) ++
  hashedUp u.path smtDepth (u.withLeaf t, (u.withLeaf t).getNode u.path smtDepth)

variable (t : SMT)
include t

variable (u : Update)
include u

theorem update_eq : t.update u = (u.withLeaf t).recomputeUp u.path := by
  cases u <;> rfl

theorem nodes_withLeaf : (u.withLeaf t).nodes = Function.update t.nodes u.call.1 u.call.2 := by
  cases u with
  | insert key value =>
    show (SMT.setNode _ _ _ _).nodes = _
    rw [SMT.nodes_setNode]
    rfl
  | delete key =>
    funext x
    show ((t.siblings.erase (sha256 key))[x]?).getD zeroHash =
      Function.update t.nodes (sha256 key) zeroHash x
    by_cases hx : x = sha256 key
    · subst hx
      rw [Map.get_erase_self, Function.update_self]
      rfl
    · rw [Map.get_erase_of_ne _ (Ne.symm hx), Function.update_of_ne hx]
      rfl

theorem climbed_withLeaf : Climbed t.nodes u.path u.call.2 0
    (u.withLeaf t, (u.withLeaf t).getNode u.path smtDepth) := by
  refine ⟨(nodes_withLeaf t u).trans (writeTo_zero _ _ _).symm, ?_⟩
  rw [SMT.getNode_eq, nodes_withLeaf]
  exact Function.update_self _ _ _

theorem nodes_update :
    (t.update u).nodes = write pathPositions SMT.internalHash t.nodes u.call.1 u.call.2 ∧
      (t.update u).root = (t.update u).nodes zeroHash := by
  have hstart := climbed_withLeaf t u
  have hloop := hstart.loop le_rfl
  generalize hr : (List.range smtDepth).reverse.foldl (SMT.recomputeStep u.path)
    (u.withLeaf t, (u.withLeaf t).getNode u.path smtDepth) = r at hloop
  rw [update_eq, recomputeUp_eq hr]
  refine ⟨hloop.nodes_eq, hloop.hash_eq.trans ?_⟩
  show _ = r.1.nodes zeroHash
  rw [hloop.nodes_eq]
  exact write_origin.symm

theorem mem_hashedUp_withLeaf {b : Bytes} :
    b ∈ hashedUp u.path smtDepth (u.withLeaf t, (u.withLeaf t).getNode u.path smtDepth) ↔
      ∃ n < smtDepth, b = 1 ::
        (leftAt pathPositions SMT.internalHash t.nodes u.call.1 u.call.2 n).bytes ++
        (climb pathPositions SMT.internalHash t.nodes u.call.1 u.call.2 n).bytes := by
  have hstart := climbed_withLeaf t u
  rw [hstart.mem_hashedUp le_rfl]
  simp only [Nat.sub_self, Nat.zero_le, true_and]
  rfl

theorem joins_subset_hashed {a : Hash × Hash}
    (h : a ∈ joins pathPositions SMT.internalHash t.nodes u.call.1 u.call.2) :
    1 :: a.1.bytes ++ a.2.bytes ∈ u.hashed t := by
  obtain ⟨n, hn, rfl⟩ := h
  exact List.mem_append_right _ ((mem_hashedUp_withLeaf t u).2 ⟨n, hn, rfl⟩)

end Update

def hashedBy (t : SMT) : List Update → List Bytes
  | [] => []
  | u :: us => u.hashed t ++ hashedBy (t.update u) us

theorem SMT.updates_append (t : SMT) (us vs : List Update) :
    t.updates (us ++ vs) = (t.updates us).updates vs := List.foldl_append

theorem hashedBy_append (t : SMT) (us vs : List Update) :
    hashedBy t (us ++ vs) = hashedBy t us ++ hashedBy (t.updates us) vs := by
  induction us generalizing t with
  | nil => rfl
  | cons u us ih =>
    rw [List.cons_append, hashedBy, hashedBy, ih, List.append_assoc]
    rfl

theorem nodes_updates (us : List Update) :
    (SMT.empty.updates us).nodes =
        run pathPositions SMT.internalHash zeroHash (us.map Update.call) ∧
      (SMT.empty.updates us).root = (SMT.empty.updates us).nodes zeroHash := by
  induction us using List.reverseRecOn with
  | nil => exact ⟨rfl, rfl⟩
  | append_singleton us u ih =>
    have hupdate := Update.nodes_update (SMT.empty.updates us) u
    rw [SMT.updates_append, List.map_append, List.map_singleton, run_append_singleton, ← ih.1]
    exact hupdate

end Dsn
