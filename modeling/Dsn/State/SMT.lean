import Dsn.Go.Map
import Dsn.Types.Basic

/-!
# `state`: the sparse Merkle tree

Nodes by prefix, and the root that an update climbs to.
-/

namespace Dsn

open Go

def smtDepth : ℕ := 256

structure SMT where
  root : Hash
  siblings : Map Hash Hash
  values : Map Hash Bytes

def SMT.empty : SMT := ⟨zeroHash, ∅, ∅⟩

def bitAt (path : Hash) (depth : ℕ) : UInt8 :=
  (path.bytes.getD (depth / 8) 0 >>> UInt8.ofNat (7 - depth % 8)) &&& 1

def bitMask (depth : ℕ) : UInt8 := 1 <<< UInt8.ofNat (7 - depth % 8)

def modifyByte (f : UInt8 → UInt8) (path : Hash) (depth : ℕ) : Hash :=
  ⟨path.bytes.modify (depth / 8) f, by simp⟩

def clearBitsFrom (path : Hash) (depth : ℕ) : Hash :=
  (List.range' depth (smtDepth - depth)).foldl
    (fun p d => modifyByte (fun x => x &&& ~~~ bitMask d) p d) path

namespace SMT

variable [Crypto]

def leafHash (path : Hash) (value : Bytes) : Hash :=
  sha256 (0 :: path.bytes ++ (sha256 value).bytes)

def internalHash (left right : Hash) : Hash := sha256 (1 :: left.bytes ++ right.bytes)

def getNode (t : SMT) (path : Hash) (depth : ℕ) : Hash :=
  (t.siblings[clearBitsFrom path depth]?).getD zeroHash

def setNode (t : SMT) (path : Hash) (depth : ℕ) (hash : Hash) : SMT :=
  if hash ≠ zeroHash then { t with siblings := t.siblings.insert (clearBitsFrom path depth) hash }
  else { t with siblings := t.siblings.erase (clearBitsFrom path depth) }

def siblingAt (t : SMT) (path : Hash) (depth : ℕ) : Hash :=
  t.getNode (modifyByte (fun x => x ^^^ bitMask depth) path depth) depth

def recomputeStep (path : Hash) (acc : SMT × Hash) (depth : ℕ) : SMT × Hash :=
  let (t, currentHash) := acc
  let ih := if bitAt path depth = 0 then internalHash currentHash (t.siblingAt path depth)
    else internalHash (t.siblingAt path depth) currentHash
  (t.setNode (clearBitsFrom path depth) depth ih, ih)

def recomputeUp (t : SMT) (path : Hash) : SMT :=
  let (t', currentHash) := (List.range smtDepth).reverse.foldl (recomputeStep path)
    (t, t.getNode path smtDepth)
  { t' with root := currentHash }

def insert (t : SMT) (key value : Bytes) : SMT :=
  let path := sha256 key
  let t := { t with values := t.values.insert path value }
  (t.setNode path smtDepth (leafHash path value)).recomputeUp path

omit [Crypto] in
theorem reverse_range_smtDepth : ∃ l, (List.range smtDepth).reverse = l ++ [0] :=
  ⟨((List.range 255).map Nat.succ).reverse, by
    rw [show smtDepth = 255 + 1 from rfl, List.range_succ_eq_map, List.reverse_cons]⟩

theorem exists_recomputeStep (path : Hash) (acc : SMT × Hash) (depth : ℕ) :
    ∃ b, (recomputeStep path acc depth).2 = sha256 b := by
  unfold recomputeStep
  split_ifs <;> exact ⟨_, rfl⟩

theorem exists_root_insert (t : SMT) (key value : Bytes) :
    ∃ b, (t.insert key value).root = sha256 b := by
  obtain ⟨l, hl⟩ := reverse_range_smtDepth
  unfold insert recomputeUp
  simp only [hl, List.foldl_append]
  exact exists_recomputeStep _ _ _

def delete (t : SMT) (key : Bytes) : SMT :=
  let path := sha256 key
  let t := { t with values := t.values.erase path }
  { t with siblings := t.siblings.erase path }.recomputeUp path

end SMT

/-- A call that changes the tree. -/
inductive Update
  | insert (key value : Bytes)
  | delete (key : Bytes)

def SMT.update [Crypto] (t : SMT) : Update → SMT
  | .insert key value => t.insert key value
  | .delete key => t.delete key

def SMT.updates [Crypto] (t : SMT) (us : List Update) : SMT := us.foldl SMT.update t

end Dsn
