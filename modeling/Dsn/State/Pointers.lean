import Dsn.Lib.Versions
import Dsn.State.Memory

/-!
# `state`: account pointers and nested snapshots

Accounts on an explicit heap, as `GetAccount` hands out the pointer in the map. Snapshots copy the
accounts, so they stay apart from the live ones; where no pointer stands at two addresses, the heap
behaves like the model with accounts as values.
-/

namespace Dsn

open Go

inductive Ptr where
  /-- made by the caller, with this number of pointers in its hands -/
  | made (n : ℕ)
  /-- made for `addr` by the `n`-th call of `copyAccounts` -/
  | copied (n : ℕ) (addr : Address)
  deriving DecidableEq

abbrev AccountMap := Map Address (Option Ptr)

variable {q : Ptr} {src : AccountMap} {n : ℕ} {id : ℤ}

structure SavedState where
  accounts : AccountMap
  kvstore : Map Bytes Bytes

structure Process where
  heap : Ptr → Account
  copies : ℕ
  held : List (Option Ptr)
  accounts : AccountMap
  kvstore : Map Bytes Bytes
  snapshots : List SavedState

structure StateView where
  accounts : Map Address (Option Account)
  kvstore : Map Bytes Bytes

def AccountMap.contents (m : AccountMap) (heap : Ptr → Account) : Map Address (Option Account) :=
  m.map fun _ q => q.map heap

def AccountMap.Has (m : AccountMap) (q : Ptr) : Prop := ∃ a : Address, m[a]? = some (some q)

def AccountMap.noNil (m : AccountMap) : Bool := m.toList.all fun e => e.2.isSome

namespace AccountMap

variable {m : AccountMap} {heap heap' : Ptr → Account}

theorem get_contents (m : AccountMap) (heap : Ptr → Account) (a : Address) :
    (m.contents heap)[a]? = m[a]?.map (Option.map heap) :=
  Std.ExtTreeMap.getElem?_map

theorem contents_congr (h : ∀ q, m.Has q → heap' q = heap q) :
    m.contents heap' = m.contents heap := by
  refine Std.ExtTreeMap.ext_getElem? fun a => ?_
  rw [get_contents, get_contents]
  match hq : m[a]? with
  | none => rfl
  | some none => rfl
  | some (some q) => simp [h q ⟨a, hq⟩]

theorem exists_of_noNil (h : m.noNil = true) {a : Address} {q : Option Ptr} (ha : m[a]? = some q) :
    ∃ ptr, q = some ptr := by
  have hall := List.all_eq_true.1 h (a, q) (Std.ExtTreeMap.mem_toList_iff_getElem?_eq_some.2 ha)
  exact Option.isSome_iff_exists.1 hall

end AccountMap

def SavedState.view (heap : Ptr → Account) (s : SavedState) : StateView :=
  ⟨s.accounts.contents heap, s.kvstore⟩

namespace Process

def view (p : Process) : StateView := ⟨p.accounts.contents p.heap, p.kvstore⟩

def versions (p : Process) : Versions StateView :=
  ⟨p.view, p.snapshots.map (SavedState.view p.heap)⟩

def start : Process where
  heap _ := newAccount (FixedBytes.zero 20) (FixedBytes.zero 32)
  copies := 0
  held := []
  accounts := ∅
  kvstore := ∅
  snapshots := []

/-! ### The methods -/

def getAccount [Crypto] (addr : Address) (p : Process) : Except Error (Option Ptr) :=
  match p.accounts[addr]? with
  | some acc => .ok acc
  | none => .error (.new s!"account not found: {addressString addr}")

def setAccount (addr : Address) (acc : Option Ptr) (p : Process) : Process :=
  { p with accounts := p.accounts.insert addr acc }

def deleteAccount (addr : Address) (p : Process) : Process :=
  { p with accounts := p.accounts.erase addr }

def setBytes (key value : Bytes) (p : Process) : Process :=
  { p with kvstore := p.kvstore.insert key value }

def deleteBytes (key : Bytes) (p : Process) : Process :=
  { p with kvstore := p.kvstore.erase key }

def setContractStorage [Crypto] (contractID : Hash) (key value : Bytes) : Exec Process Unit := do
  failIf (value.length > 64 * 1024) (.new "storage value exceeds 64 KiB limit")
  modify (setBytes (storageKey contractID key) value)

def heapWithCopies (src : AccountMap) (p : Process) : Ptr → Account
  | .made n => p.heap (.made n)
  | .copied n a =>
    if n = p.copies then (src[a]?.join.map p.heap).getD (p.heap (.copied n a))
    else p.heap (.copied n a)

def copyAccounts (src : AccountMap) : Exec Process AccountMap := do
  failIf (src.noNil = false) (.panic "invalid memory address or nil pointer dereference")
  let p ← get
  set { p with heap := p.heapWithCopies src, copies := p.copies + 1 }
  return src.map fun a _ => some (.copied p.copies a)

def snapshot : Exec Process ℕ := do
  let p ← get
  let accounts ← copyAccounts p.accounts
  modify fun p => { p with snapshots := p.snapshots ++ [⟨accounts, p.kvstore⟩] }
  return p.snapshots.length

def revertToSnapshot (id : ℤ) : Exec Process Unit := do
  let p ← get
  failIf (id < 0) errInvalidSnapshot
  let snap ← ofResult (p.snapshots[id.toNat]?.elim (.error errInvalidSnapshot) .ok)
  let accounts ← copyAccounts snap.accounts
  modify fun p => { p with
    accounts := accounts
    kvstore := snap.kvstore
    snapshots := p.snapshots.take id.toNat }

end Process

/-! ### What the caller can do -/

inductive Op where
  | make (acc : Account)
  | getAccount (addr : Address)
  | setAccount (addr : Address) (i : Option ℕ)
  | deleteAccount (addr : Address)
  /-- a change in place, such as `AddBalance` and `IncrementNonce` -/
  | update (i : Option ℕ) (f : Account → Account)
  | setBytes (key value : Bytes)
  | deleteBytes (key : Bytes)
  | setContractStorage (contractID : Hash) (key value : Bytes)
  | snapshot
  | revertToSnapshot (id : ℤ)

variable {ops : List Op} {op : Op}

namespace Process

def pointer (i : Option ℕ) (p : Process) : Option Ptr := i.bind fun i => p.held[i]?.join

def make (acc : Account) (p : Process) : Process :=
  { p with
    heap := Function.update p.heap (.made p.held.length) acc
    held := p.held ++ [some (.made p.held.length)] }

def hold (q : Option Ptr) (p : Process) : Process := { p with held := p.held ++ [q] }

def update (q : Ptr) (f : Account → Account) (p : Process) : Process :=
  { p with heap := Function.update p.heap q (f (p.heap q)) }

def step [Crypto] (op : Op) (p : Process) : Process :=
  match op with
  | .make acc => p.make acc
  | .getAccount addr =>
    match p.getAccount addr with
    | .ok q => p.hold q
    | .error _ => p.hold none
  | .setAccount addr i => p.setAccount addr (p.pointer i)
  | .deleteAccount addr => p.deleteAccount addr
  | .update i f =>
    match p.pointer i with
    | some q => p.update q f
    | none => p  -- nil cannot be followed
  | .setBytes key value => p.setBytes key value
  | .deleteBytes key => p.deleteBytes key
  | .setContractStorage contractID key value =>
    finalState (setContractStorage contractID key value p)
  | .snapshot => finalState (snapshot p)
  | .revertToSnapshot id => finalState (revertToSnapshot id p)

def run [Crypto] (ops : List Op) (p : Process) : Process := ops.foldl (fun p op => p.step op) p

/-! ### Who can reach what -/

def Allocated (p : Process) : Ptr → Prop
  | .made n => n < p.held.length
  | .copied n _ => n < p.copies

def Reaches (p : Process) (q : Ptr) : Prop := some q ∈ p.held ∨ p.accounts.Has q

def Saves (p : Process) (q : Ptr) : Prop := ∃ s ∈ p.snapshots, s.accounts.Has q

structure Apart (p : Process) : Prop where
  allocated : ∀ q, p.Reaches q → p.Allocated q
  saved : ∀ q, p.Saves q → p.Allocated q ∧ ¬ p.Reaches q
  noNil : ∀ s ∈ p.snapshots, s.accounts.noNil = true

theorem start_apart : start.Apart where
  allocated := by
    rintro q (hq | ⟨a, ha⟩)
    · cases hq
    · cases ha
  saved := by
    rintro q ⟨s, hs, -⟩
    cases hs
  noNil := by
    intro s hs
    cases hs

structure CallerStep (p p' : Process) : Prop where
  copies : p'.copies = p.copies
  held : p.held.length ≤ p'.held.length
  snapshots : p'.snapshots = p.snapshots
  reaches : ∀ q, p'.Reaches q → p.Reaches q ∨ ¬ p.Allocated q ∧ p'.Allocated q
  heap : ∀ q, p'.heap q = p.heap q ∨ p.Reaches q ∨ ¬ p.Allocated q

variable {p p' : Process}

theorem Allocated.mono (hq : p.Allocated q) (hheld : p.held.length ≤ p'.held.length)
    (hcopies : p.copies ≤ p'.copies) : p'.Allocated q := by
  cases q with
  | made n => exact lt_of_lt_of_le hq hheld
  | copied n a => exact lt_of_lt_of_le hq hcopies

section

variable (h : CallerStep p p')
include h

theorem CallerStep.allocated (hq : p.Allocated q) :
    p'.Allocated q := hq.mono h.held h.copies.ge

theorem CallerStep.saves : p'.Saves q ↔ p.Saves q := by
  unfold Saves
  rw [h.snapshots]

theorem CallerStep.apart (hp : p.Apart) : p'.Apart where
  allocated q hq := (h.reaches q hq).elim (fun hr => h.allocated (hp.allocated q hr)) And.right
  saved q hq := by
    obtain ⟨hold, hout⟩ := hp.saved q (h.saves.1 hq)
    refine ⟨h.allocated hold, fun hr => ?_⟩
    exact (h.reaches q hr).elim hout fun hnew => hnew.1 hold
  noNil := by
    rw [h.snapshots]
    exact hp.noNil

theorem CallerStep.versions (hp : p.Apart) :
    p'.versions = { p.versions with current := p'.view } := by
  unfold Process.versions
  rw [h.snapshots]
  refine congrArg _ (List.map_congr_left fun s hs => ?_)
  unfold SavedState.view
  rw [AccountMap.contents_congr fun q hq => ?_]
  obtain ⟨hold, hout⟩ := hp.saved q ⟨s, hs, hq⟩
  exact (h.heap q).resolve_right (not_or.2 ⟨hout, not_not.2 hold⟩)

end

theorem reaches_of_pointer {i : Option ℕ} (h : p.pointer i = some q) : p.Reaches q := by
  obtain ⟨n, -, hn⟩ := Option.bind_eq_some_iff.1 h
  exact .inl (List.mem_of_getElem? (Option.join_eq_some_iff.1 hn))

theorem hold_callerStep {q : Option Ptr} (h : ∀ ptr, q = some ptr → p.Reaches ptr) :
    CallerStep p (p.hold q) where
  copies := rfl
  held := by simp [hold]
  snapshots := rfl
  heap _ := .inl rfl
  reaches ptr hr := by
    refine .inl (hr.elim (fun hheld => ?_) .inr)
    obtain hold | hnew := List.mem_append.1 hheld
    · exact .inl hold
    · exact h ptr (List.mem_singleton.1 hnew).symm

theorem make_callerStep (acc : Account) : CallerStep p (p.make acc) where
  copies := rfl
  held := by simp [make]
  snapshots := rfl
  heap q := by
    by_cases hq : q = .made p.held.length
    · subst hq
      exact .inr (.inr (lt_irrefl p.held.length))
    · exact .inl (Function.update_of_ne hq _ _)
  reaches q hr := by
    obtain hheld | hmap := hr
    · obtain hold | hnew := List.mem_append.1 hheld
      · exact .inl (.inl hold)
      · cases List.mem_singleton.1 hnew
        refine .inr ⟨lt_irrefl p.held.length, ?_⟩
        show p.held.length < (p.held ++ [some (Ptr.made p.held.length)]).length
        simp
    · exact .inl (.inr hmap)

theorem setAccount_callerStep (addr : Address) {q : Option Ptr}
    (h : ∀ ptr, q = some ptr → p.Reaches ptr) : CallerStep p (p.setAccount addr q) where
  copies := rfl
  held := le_refl _
  snapshots := rfl
  heap _ := .inl rfl
  reaches ptr hr := by
    refine .inl (hr.elim .inl fun ⟨a, ha⟩ => ?_)
    rw [show (p.setAccount addr q).accounts = p.accounts.insert addr q from rfl,
      Map.get_insert] at ha
    split_ifs at ha with heq
    · exact h ptr (Option.some.inj ha)
    · exact .inr ⟨a, ha⟩

theorem deleteAccount_callerStep (addr : Address) : CallerStep p (p.deleteAccount addr) where
  copies := rfl
  held := le_refl _
  snapshots := rfl
  heap _ := .inl rfl
  reaches ptr hr := by
    refine .inl (hr.elim .inl fun ⟨a, ha⟩ => ?_)
    exact .inr ⟨a, (Map.get_erase_eq_some.1 ha).2⟩

theorem update_callerStep (f : Account → Account) (h : p.Reaches q) :
    CallerStep p (p.update q f) where
  copies := rfl
  held := le_refl _
  snapshots := rfl
  reaches _ hr := .inl hr
  heap ptr := by
    by_cases hq : ptr = q
    · exact .inr (.inl (hq ▸ h))
    · exact .inl (Function.update_of_ne hq _ _)

theorem kvstore_callerStep (kvstore : Map Bytes Bytes) : CallerStep p { p with kvstore } where
  copies := rfl
  held := le_refl _
  snapshots := rfl
  heap _ := .inl rfl
  reaches _ hr := .inl hr

/-! ### Copies -/

theorem noNil_copies (src : AccountMap) (n : ℕ) :
    AccountMap.noNil (src.map fun a _ => some (.copied n a)) = true := by
  refine List.all_eq_true.2 fun e he => ?_
  have hget := Std.ExtTreeMap.mem_toList_iff_getElem?_eq_some.1 he
  rw [Std.ExtTreeMap.getElem?_map] at hget
  obtain ⟨-, -, hval⟩ := Option.map_eq_some_iff.1 hget
  rw [← hval]
  rfl

theorem eq_of_has_copies (h : AccountMap.Has (src.map fun a _ => some (.copied n a)) q) :
    ∃ a, q = .copied n a := by
  obtain ⟨a, ha⟩ := h
  rw [Std.ExtTreeMap.getElem?_map] at ha
  obtain ⟨-, -, hval⟩ := Option.map_eq_some_iff.1 ha
  exact ⟨a, (Option.some.inj hval).symm⟩

theorem contents_copies (h : src.noNil = true) (p : Process) :
    AccountMap.contents (src.map fun a _ => some (.copied p.copies a)) (p.heapWithCopies src) =
      src.contents p.heap := by
  refine Std.ExtTreeMap.ext_getElem? fun a => ?_
  rw [AccountMap.get_contents, AccountMap.get_contents, Std.ExtTreeMap.getElem?_map]
  cases ha : src[a]? with
  | none => rfl
  | some q =>
    obtain ⟨ptr, rfl⟩ := AccountMap.exists_of_noNil h ha
    simp [heapWithCopies, ha]

theorem heapWithCopies_of_allocated (src : AccountMap) (h : p.Allocated q) :
    p.heapWithCopies src q = p.heap q := by
  cases q with
  | made n => rfl
  | copied n a => exact if_neg (Nat.ne_of_lt h)

theorem copyAccounts_eq_ok {m : AccountMap} : copyAccounts src p = .ok m p' ↔
    src.noNil = true ∧ m = src.map (fun a _ => some (.copied p.copies a)) ∧
      p' = { p with heap := p.heapWithCopies src, copies := p.copies + 1 } := by
  unfold copyAccounts
  cases h : src.noNil with
  | false =>
    rw [bind_eq_ok]
    simp
  | true =>
    simp only [true_and]
    constructor
    · rintro ⟨⟩
      exact ⟨rfl, rfl⟩
    · rintro ⟨rfl, rfl⟩
      rfl

def withSnapshot (p : Process) : Process :=
  { p with
    heap := p.heapWithCopies p.accounts
    copies := p.copies + 1
    snapshots := p.snapshots ++
      [⟨p.accounts.map fun a _ => some (.copied p.copies a), p.kvstore⟩] }

def reverted (id : ℕ) (snap : SavedState) (p : Process) : Process :=
  { p with
    heap := p.heapWithCopies snap.accounts
    copies := p.copies + 1
    accounts := snap.accounts.map fun a _ => some (.copied p.copies a)
    kvstore := snap.kvstore
    snapshots := p.snapshots.take id }

theorem snapshot_eq_ok {id : ℕ} : snapshot p = .ok id p' ↔
    p.accounts.noNil = true ∧ id = p.snapshots.length ∧ p' = p.withSnapshot := by
  unfold snapshot
  rw [get_bind]
  simp only [bind_eq_ok, copyAccounts_eq_ok, modify_eq_ok, pure_eq_ok]
  constructor
  · rintro ⟨_, _, ⟨hnil, rfl, rfl⟩, _, _, rfl, rfl, rfl⟩
    exact ⟨hnil, rfl, rfl⟩
  · rintro ⟨hnil, rfl, rfl⟩
    exact ⟨_, _, ⟨hnil, rfl, rfl⟩, (), _, rfl, rfl, rfl⟩

theorem finalState_snapshot_of_nil (h : p.accounts.noNil = false) :
    finalState (snapshot p) = p := by
  unfold snapshot copyAccounts
  rw [get_bind, bind_eq_error_of (bind_eq_error_of (failIf_of _ h p))]
  rfl

theorem revertToSnapshot_eq_ok (hp : p.Apart) {u : Unit} :
    revertToSnapshot id p = .ok u p' ↔
      0 ≤ id ∧ ∃ snap, p.snapshots[id.toNat]? = some snap ∧ p' = p.reverted id.toNat snap := by
  unfold revertToSnapshot
  rw [get_bind]
  simp only [↓failIf_bind_eq_ok, ↓ofResult_bind_eq_ok, bind_eq_ok, copyAccounts_eq_ok, modify_eq_ok]
  constructor
  · rintro ⟨h0, snap, hsnap, _, _, ⟨-, rfl, rfl⟩, rfl⟩
    refine ⟨not_lt.1 h0, snap, ?_, rfl⟩
    cases hget : p.snapshots[id.toNat]? with
    | none =>
      rw [hget] at hsnap
      cases hsnap
    | some s =>
      rw [hget] at hsnap
      cases hsnap
      rfl
  · rintro ⟨h0, snap, hget, rfl⟩
    have hnil := hp.noNil snap (List.mem_of_getElem? hget)
    refine ⟨not_lt.2 h0, snap, ?_, _, _, ⟨hnil, rfl, rfl⟩, rfl⟩
    rw [hget]
    rfl

theorem revertToSnapshot_of_invalid (h : ¬ (0 ≤ id ∧ id < p.snapshots.length)) :
    revertToSnapshot id p = .error errInvalidSnapshot p := by
  unfold revertToSnapshot
  rw [get_bind]
  by_cases h0 : id < 0
  · exact bind_eq_error_of (failIf_of _ h0 p)
  · have hnone : p.snapshots[id.toNat]? = none := List.getElem?_eq_none (by omega)
    rw [failIf_bind h0, hnone]
    exact bind_eq_error_of rfl

/-! ### The copies stay apart -/

section

variable (hp : p.Apart)
include hp

theorem withSnapshot_apart : p.withSnapshot.Apart where
  allocated q hq := (hp.allocated q hq).mono le_rfl (Nat.le_succ _)
  saved q := by
    rintro ⟨s, hs, hq⟩
    obtain hs | hs := List.mem_append.1 hs
    · obtain ⟨hold, hout⟩ := hp.saved q ⟨s, hs, hq⟩
      exact ⟨hold.mono le_rfl (Nat.le_succ _), hout⟩
    · -- the new copies: nobody had these pointers
      cases List.mem_singleton.1 hs
      obtain ⟨a, rfl⟩ := eq_of_has_copies hq
      exact ⟨Nat.lt_succ_self _, fun hr => lt_irrefl p.copies (hp.allocated _ hr)⟩
  noNil s hs := by
    obtain hs | hs := List.mem_append.1 hs
    · exact hp.noNil s hs
    · cases List.mem_singleton.1 hs
      exact noNil_copies _ _

theorem reverted_apart (id : ℕ) (snap : SavedState) :
    (p.reverted id snap).Apart where
  allocated q hq := by
    obtain hheld | hmap := hq
    · exact (hp.allocated q (.inl hheld)).mono le_rfl (Nat.le_succ _)
    · obtain ⟨a, rfl⟩ := eq_of_has_copies hmap
      exact Nat.lt_succ_self _
  saved q := by
    rintro ⟨s, hs, hq⟩
    obtain ⟨hold, hout⟩ := hp.saved q ⟨s, List.mem_of_mem_take hs, hq⟩
    refine ⟨hold.mono le_rfl (Nat.le_succ _), ?_⟩
    rintro (hheld | hmap)
    · exact hout (.inl hheld)
    · obtain ⟨a, rfl⟩ := eq_of_has_copies hmap
      exact lt_irrefl p.copies hold
  noNil s hs := hp.noNil s (List.mem_of_mem_take hs)

theorem view_of_saved (src : AccountMap) {s : SavedState} (hs : s ∈ p.snapshots) :
    s.view (p.heapWithCopies src) = s.view p.heap := by
  unfold SavedState.view
  rw [AccountMap.contents_congr fun q hq => ?_]
  exact heapWithCopies_of_allocated src (hp.saved q ⟨s, hs, hq⟩).1

theorem withSnapshot_versions (h : p.accounts.noNil = true) :
    p.withSnapshot.versions = p.versions.save := by
  have hcurrent : p.accounts.contents (p.heapWithCopies p.accounts) = p.accounts.contents p.heap :=
    AccountMap.contents_congr fun q hq =>
      heapWithCopies_of_allocated _ (hp.allocated q (.inr hq))
  have hold : p.snapshots.map (SavedState.view (p.heapWithCopies p.accounts)) =
      p.snapshots.map (SavedState.view p.heap) :=
    List.map_congr_left fun s hs => view_of_saved hp _ hs
  simp only [versions, view, withSnapshot, Versions.save, List.map_append, List.map_cons,
    List.map_nil, SavedState.view, hcurrent, contents_copies h] at hold ⊢
  rw [hold]

theorem reverted_versions {id : ℕ} {snap : SavedState} (h : p.snapshots[id]? = some snap) :
    (p.reverted id snap).versions = ⟨snap.view p.heap, p.versions.saved.take id⟩ := by
  have hnil := hp.noNil snap (List.mem_of_getElem? h)
  have hold : (p.snapshots.take id).map (SavedState.view (p.heapWithCopies snap.accounts)) =
      (p.snapshots.take id).map (SavedState.view p.heap) :=
    List.map_congr_left fun s hs => view_of_saved hp _ (List.mem_of_mem_take hs)
  simp only [versions, view, reverted, SavedState.view, contents_copies hnil, ← List.map_take]
    at hold ⊢
  rw [hold]

theorem revertToSnapshot_versions {u : Unit} (h : revertToSnapshot id p = .ok u p') :
    p'.Apart ∧ p.versions.restore id = some p'.versions := by
  obtain ⟨h0, snap, hget, rfl⟩ := (revertToSnapshot_eq_ok hp).1 h
  refine ⟨reverted_apart hp _ _, ?_⟩
  rw [reverted_versions hp hget]
  refine Versions.restore_eq_some.2 ⟨h0, ?_, rfl⟩
  simp [versions, hget]

theorem exists_revertToSnapshot {s : Versions StateView} (h : p.versions.restore id = some s) :
    ∃ p', revertToSnapshot id p = .ok () p' ∧ p'.versions = s := by
  have hlt := Versions.lt_of_restore h
  obtain ⟨snap, hget⟩ : ∃ snap, p.snapshots[id.toNat]? = some snap := by
    refine ⟨_, List.getElem?_eq_getElem (?_ : id.toNat < p.snapshots.length)⟩
    simp only [versions, List.length_map] at hlt
    omega
  have hrun : revertToSnapshot id p = .ok () (p.reverted id.toNat snap) :=
    (revertToSnapshot_eq_ok hp).2 ⟨hlt.1, snap, hget, rfl⟩
  refine ⟨_, hrun, ?_⟩
  have hs := (revertToSnapshot_versions hp hrun).2
  rw [h] at hs
  exact (Option.some.inj hs).symm

end

/-! ### Runs -/

def change [Crypto] (op : Op) (p : Process) : Versions.Change StateView :=
  match op with
  | .snapshot => if p.accounts.noNil then .save else .assign p.view
  | .revertToSnapshot id => .restore id
  | op => .assign (p.step op).view

def changes [Crypto] : List Op → Process → List (Versions.Change StateView)
  | [], _ => []
  | op :: ops, p => p.change op :: changes ops (p.step op)

variable [Crypto]

theorem step_versions (hp : p.Apart) (op : Op) :
    (p.step op).Apart ∧ (p.step op).versions = (p.change op).apply p.versions := by
  have caller : ∀ p', CallerStep p p' →
      p'.Apart ∧ p'.versions = (Versions.Change.assign p'.view).apply p.versions :=
    fun p' h => ⟨h.apart hp, h.versions hp⟩
  cases op with
  | make acc => exact caller _ (make_callerStep acc)
  | getAccount addr =>
    refine caller _ ?_
    cases hget : p.accounts[addr]? with
    | none =>
      simp only [step, getAccount, hget]
      exact hold_callerStep fun ptr h => nomatch h
    | some q =>
      simp only [step, getAccount, hget]
      exact hold_callerStep fun ptr h => .inr ⟨addr, h ▸ hget⟩
  | setAccount addr i =>
    exact caller _ (setAccount_callerStep addr fun ptr h => reaches_of_pointer h)
  | deleteAccount addr => exact caller _ (deleteAccount_callerStep addr)
  | update i f =>
    refine caller _ ?_
    cases hq : p.pointer i with
    | none =>
      simp only [step, hq]
      exact kvstore_callerStep p.kvstore
    | some q =>
      simp only [step, hq]
      exact update_callerStep f (reaches_of_pointer hq)
  | setBytes key value => exact caller _ (kvstore_callerStep _)
  | deleteBytes key => exact caller _ (kvstore_callerStep _)
  | setContractStorage contractID key value =>
    refine caller _ ?_
    simp only [step, setContractStorage]
    by_cases hlen : value.length > 64 * 1024
    · rw [bind_eq_error_of (failIf_of _ hlen p)]
      exact kvstore_callerStep p.kvstore
    · rw [failIf_bind hlen]
      exact kvstore_callerStep _
  | snapshot =>
    cases hnil : p.accounts.noNil with
    | true =>
      have hrun := snapshot_eq_ok.2 ⟨hnil, rfl, rfl⟩
      simp only [step, hrun, change, hnil, if_true]
      exact ⟨withSnapshot_apart hp, withSnapshot_versions hp hnil⟩
    | false =>
      simp only [step, finalState_snapshot_of_nil hnil, change, hnil]
      exact ⟨hp, rfl⟩
  | revertToSnapshot id =>
    simp only [step, change, Versions.Change.apply]
    by_cases hid : 0 ≤ id ∧ id < p.snapshots.length
    · obtain ⟨s, hs⟩ := @Versions.exists_restore _ p.versions id hid.1
        (by simpa [versions] using hid.2)
      obtain ⟨p', hrun, rfl⟩ := exists_revertToSnapshot hp hs
      rw [hrun, hs]
      exact ⟨(revertToSnapshot_versions hp hrun).1, rfl⟩
    · rw [revertToSnapshot_of_invalid hid]
      refine ⟨hp, ?_⟩
      cases hr : p.versions.restore id with
      | none => rfl
      | some s => exact absurd (by simpa [versions] using Versions.lt_of_restore hr) hid

theorem run_versions (hp : p.Apart) (ops : List Op) :
    (p.run ops).Apart ∧ (p.run ops).versions = Versions.run (p.changes ops) p.versions := by
  induction ops generalizing p with
  | nil => exact ⟨hp, rfl⟩
  | cons op ops ih =>
    obtain ⟨hap, hv⟩ := step_versions hp op
    rw [changes, Versions.run_cons, ← hv]
    exact ih hap

theorem run_append (ops ops' : List Op) (p : Process) :
    p.run (ops ++ ops') = (p.run ops).run ops' := List.foldl_append

/-! ### Live snapshots -/

def KeepsLiveStep (id : ℤ) (op : Op) (p : Process) : Prop :=
  ∀ k p', op = .revertToSnapshot k → revertToSnapshot k p = .ok () p' → id < k

def KeepsLive (id : ℤ) : List Op → Process → Prop
  | [], _ => True
  | op :: ops, p => KeepsLiveStep id op p ∧ KeepsLive id ops (p.step op)

/-- The snapshot `id` was taken at `q` and is still on the stack. -/
def LiveSince (ops : List Op) (id : ℤ) (q : Process) : Prop :=
  ∃ before later n q', ops = before ++ .snapshot :: later ∧ q = start.run before ∧
    snapshot q = .ok n q' ∧ id = n ∧ KeepsLive id later q'

theorem keepsLive_concat :
    KeepsLive id (ops ++ [op]) p ↔ KeepsLive id ops p ∧ KeepsLiveStep id op (p.run ops) := by
  induction ops generalizing p with
  | nil => simp [KeepsLive, run]
  | cons o ops ih =>
    simp only [List.cons_append, KeepsLive, ih, and_assoc]
    rfl

theorem keepsLiveStep_iff (hp : p.Apart) :
    KeepsLiveStep n op p ↔ (p.change op).Spares n p.versions := by
  constructor
  · intro h id s hc hs
    cases op with
    | revertToSnapshot k =>
      cases hc
      obtain ⟨p', hrun, -⟩ := exists_revertToSnapshot hp hs
      exact h _ p' rfl hrun
    | snapshot =>
      unfold change at hc
      split_ifs at hc
    | _ => cases hc
  · rintro h k p' rfl hrun
    exact h k p'.versions rfl (revertToSnapshot_versions hp hrun).2

theorem keepsLive_iff (hp : p.Apart) :
    KeepsLive n ops p ↔ Versions.Spares n (p.changes ops) p.versions := by
  induction ops generalizing p with
  | nil => exact Iff.rfl
  | cons op ops ih =>
    obtain ⟨hap, hv⟩ := step_versions hp op
    rw [KeepsLive, changes, Versions.Spares, keepsLiveStep_iff hp, ih hap, hv]

theorem change_eq_save (h : p.change op = .save) :
    op = .snapshot ∧ p.accounts.noNil = true := by
  cases op with
  | snapshot =>
    unfold change at h
    split_ifs at h with hnil
    exact ⟨rfl, hnil⟩
  | _ => cases h

theorem exists_of_changes {cs ds : List (Versions.Change StateView)} {c : Versions.Change StateView}
    (h : p.changes ops = cs ++ c :: ds) :
    ∃ before op later, ops = before ++ op :: later ∧ p.changes before = cs ∧
      (p.run before).change op = c ∧ ((p.run before).step op).changes later = ds := by
  induction ops generalizing p cs with
  | nil => simp [changes] at h
  | cons op ops ih =>
    cases cs with
    | nil =>
      obtain ⟨hc, hds⟩ := List.cons.inj h
      exact ⟨[], op, ops, rfl, rfl, hc, hds⟩
    | cons c' cs =>
      obtain ⟨hc', hrest⟩ := List.cons.inj h
      obtain ⟨before, op', later, rfl, hcs, hc, hds⟩ := ih hrest
      exact ⟨op :: before, op', later, rfl, by rw [changes, hc', hcs], hc, hds⟩

theorem run_apart (ops : List Op) : (start.run ops).Apart := (run_versions start_apart ops).1

theorem restore_of_liveSince {q : Process} (h : LiveSince ops id q) :
    (start.run ops).versions.restore id = some q.versions := by
  obtain ⟨before, later, n, q', rfl, rfl, hsnap, rfl, hkeeps⟩ := h
  have hstep : (start.run before).step .snapshot = q' := congrArg finalState hsnap
  obtain ⟨hnil, rfl, rfl⟩ := snapshot_eq_ok.1 hsnap
  have hap := run_apart before
  have hsave := withSnapshot_versions hap hnil
  have hap' := withSnapshot_apart hap
  have hspares := (keepsLive_iff hap').1 hkeeps
  have hlen : (start.run before).versions.saved.length = (start.run before).snapshots.length :=
    List.length_map _
  rw [hsave, ← hlen] at hspares
  have hrestore := Versions.restore_run_save hspares
  rw [← hsave, ← (run_versions hap' later).2, hlen] at hrestore
  rw [run_append, ← hrestore, ← hstep]
  rfl

theorem exists_liveSince (h0 : 0 ≤ id) (h : id < (start.run ops).snapshots.length) :
    ∃ q, LiveSince ops id q := by
  obtain ⟨n, rfl⟩ := Int.eq_ofNat_of_zero_le h0
  have hlt : n < (Versions.run (start.changes ops) ⟨start.view, []⟩).saved.length := by
    have hv : (start.run ops).versions = Versions.run (start.changes ops) ⟨start.view, []⟩ :=
      (run_versions start_apart ops).2
    rw [← hv, versions, List.length_map]
    exact Int.ofNat_lt.1 h
  obtain ⟨cs, ds, hchanges, hlen, hspares⟩ := Versions.exists_save_of_lt hlt
  obtain ⟨before, op, later, rfl, rfl, hsave, rfl⟩ := exists_of_changes hchanges
  obtain ⟨rfl, hnil⟩ := change_eq_save hsave
  have hap := run_apart before
  have hv : (start.run before).versions = Versions.run (start.changes before) ⟨start.view, []⟩ :=
    (run_versions start_apart before).2
  have hsnap : snapshot (start.run before) = .ok n (start.run before).withSnapshot := by
    refine snapshot_eq_ok.2 ⟨hnil, ?_, rfl⟩
    rw [← hlen, ← hv, versions, List.length_map]
  have hstep : (start.run before).step .snapshot = (start.run before).withSnapshot :=
    congrArg finalState hsnap
  refine ⟨start.run before, before, later, n, _, rfl, rfl, hsnap, rfl, ?_⟩
  rw [keepsLive_iff (withSnapshot_apart hap), withSnapshot_versions hap hnil, hv, ← hstep]
  exact hspares

theorem liveSince_revert {k : ℤ} {r : Process}
    (h : revertToSnapshot id (start.run ops) = .ok () p') :
    LiveSince (ops ++ [.revertToSnapshot id]) k r ↔ LiveSince ops k r ∧ k < id := by
  constructor
  · rintro ⟨before, later, n, q', hops, rfl, hsnap, rfl, hkeeps⟩
    obtain rfl | ⟨later, op, rfl⟩ := List.eq_nil_or_concat' later
    · cases (List.append_inj' hops rfl).2
    · rw [show before ++ Op.snapshot :: (later ++ [op]) = (before ++ .snapshot :: later) ++ [op] by
        simp] at hops
      obtain ⟨rfl, hop⟩ := List.append_inj' hops rfl
      cases hop
      obtain ⟨hkeeps, hlast⟩ := keepsLive_concat.1 hkeeps
      have hstep : (start.run before).step .snapshot = q' := congrArg finalState hsnap
      refine ⟨⟨before, later, n, q', rfl, rfl, hsnap, rfl, hkeeps⟩, hlast id p' rfl ?_⟩
      rw [← h, run_append, ← hstep]
      rfl
  · rintro ⟨⟨before, later, n, q', rfl, rfl, hsnap, rfl, hkeeps⟩, hlt⟩
    refine ⟨before, later ++ [.revertToSnapshot id], n, q', by simp, rfl, hsnap, rfl, ?_⟩
    refine keepsLive_concat.2 ⟨hkeeps, ?_⟩
    rintro k p'' hk -
    cases hk
    exact hlt

/-- Going back to a live snapshot brings it back, and keeps the earlier ones. -/
theorem snapshots_nested (ops : List Op) (id : ℤ) :
    (∀ q, LiveSince ops id q → ∃ p', revertToSnapshot id (start.run ops) = .ok () p' ∧
      p'.view = q.view ∧
      ∀ k r, LiveSince (ops ++ [.revertToSnapshot id]) k r ↔ LiveSince ops k r ∧ k < id) ∧
    ((∀ q, ¬ LiveSince ops id q) →
      revertToSnapshot id (start.run ops) = .error errInvalidSnapshot (start.run ops)) := by
  constructor
  · intro q hq
    obtain ⟨p', hrun, hv⟩ := exists_revertToSnapshot (run_apart ops) (restore_of_liveSince hq)
    exact ⟨p', hrun, congrArg Versions.current hv, fun k r => liveSince_revert hrun⟩
  · intro h
    refine revertToSnapshot_of_invalid fun hid => ?_
    obtain ⟨q, hq⟩ := exists_liveSince hid.1 hid.2
    exact h q hq

end Process

section

open Sample

open Process

def sampleOps : List Op :=
  [.make (newAccount (FixedBytes.zero 20) (FixedBytes.zero 32)),
    .setAccount (FixedBytes.zero 20) (some 0), .snapshot,
    .update (some 0) fun acc => { acc with nonce := 1 }]

theorem sampleOps_live : LiveSince sampleOps 0 (start.run (sampleOps.take 2)) := by
  have hsnap : snapshot (start.run (sampleOps.take 2)) =
      .ok 0 (start.run (sampleOps.take 2)).withSnapshot :=
    snapshot_eq_ok.2 ⟨by decide +kernel, by decide +kernel, rfl⟩
  exact ⟨_, sampleOps.drop 3, 0, _, rfl, rfl, hsnap, rfl, ⟨(fun k p' h => nomatch h), trivial⟩⟩

theorem sampleOps_not_live (q : Process) : ¬ LiveSince sampleOps 1 q := by
  intro h
  have hlt := (Versions.lt_of_restore (restore_of_liveSince h)).2
  exact lt_irrefl _ hlt

theorem snapshots_nested_sample :
    (∃ p', revertToSnapshot 0 (start.run sampleOps) = .ok () p' ∧
      p'.view = (start.run (sampleOps.take 2)).view) ∧
    revertToSnapshot 1 (start.run sampleOps) =
      .error errInvalidSnapshot (start.run sampleOps) := by
  obtain ⟨p', hrun, hview, -⟩ := (snapshots_nested sampleOps 0).1 _ sampleOps_live
  exact ⟨⟨p', hrun, hview⟩, (snapshots_nested sampleOps 1).2 sampleOps_not_live⟩

end

/-! ### The state with accounts as values -/

def StateView.values (v : StateView) : StateSnapshot :=
  ⟨v.accounts.filterMap fun _ acc => acc, v.kvstore⟩

namespace Process

def toState (smt : SMT) (p : Process) : InMemoryState where
  accounts := p.view.values.accounts
  kvstore := p.view.values.kvstore
  smt := smt
  snapshots := p.versions.saved.map StateView.values

variable {p p' : Process} {smt : SMT}

theorem toState_snapshot (hp : p.Apart) {id : ℕ} (h : snapshot p = .ok id p') :
    InMemoryState.snapshot (p.toState smt) = .ok id (p'.toState smt) := by
  obtain ⟨hnil, rfl, rfl⟩ := snapshot_eq_ok.1 h
  have hv := withSnapshot_versions hp hnil
  have hview : p.withSnapshot.view = p.view := congrArg Versions.current hv
  have hlen : p.versions.saved.length = p.snapshots.length := List.length_map _
  simp only [InMemoryState.snapshot, toState, hv, hview, Versions.save_saved, List.map_append,
    List.length_map, hlen]
  rfl

theorem toState_revertToSnapshot (hp : p.Apart) (h : revertToSnapshot id p = .ok () p') :
    InMemoryState.revertToSnapshot id.toNat (p.toState smt) = .ok () (p'.toState smt) := by
  obtain ⟨-, hget, hsaved⟩ := Versions.restore_eq_some.1 (revertToSnapshot_versions hp h).2
  simp only [InMemoryState.revertToSnapshot, toState, hsaved, List.getElem?_map, hget,
    List.map_take]
  rfl

/-- No entry is nil, and no account stands at two addresses. -/
structure Unshared (p : Process) : Prop where
  noNil : p.accounts.noNil = true
  inj : ∀ (q : Ptr) (a b : Address), p.accounts[a]? = some (some q) →
    p.accounts[b]? = some (some q) → b = a

def owner (q : Ptr) (p : Process) : Option Address :=
  (p.accounts.toList.find? fun e => e.2 = some q).map Prod.fst

/-- A step of the caller, on accounts as values. -/
def valueStep [Crypto] (op : Op) (p : Process) (s : InMemoryState) : InMemoryState :=
  match op with
  | .make _ | .getAccount _ => s
  | .setAccount addr i => (p.pointer i).elim { s with accounts := s.accounts.erase addr }
      fun q => s.setAccount addr (p.heap q)
  | .deleteAccount addr => { s with accounts := s.accounts.erase addr }
  | .update i f => ((p.pointer i).bind fun q => (p.owner q).map fun a =>
      s.setAccount a (f (p.heap q))).getD s
  | .setBytes key value => s.setBytes key value
  | .deleteBytes key => s.deleteBytes key
  | .setContractStorage contractID key value =>
    finalState (InMemoryState.setContractStorage contractID key value s)
  | .snapshot => finalState (InMemoryState.snapshot s)
  | .revertToSnapshot id =>
    if id < 0 then s else finalState (InMemoryState.revertToSnapshot id.toNat s)

theorem get_accounts_toState (p : Process) (a : Address) :
    (p.toState smt).accounts[a]? = p.accounts[a]?.join.map p.heap := by
  simp only [toState, StateView.values, view, Std.ExtTreeMap.getElem?_filterMap',
    AccountMap.get_contents]
  rcases p.accounts[a]? with _ | _ | _ <;> rfl

theorem toState_of_callerStep (hp : p.Apart) (h : CallerStep p p') {m : Map Address Account}
    (hm : ∀ a : Address, p'.accounts[a]?.join.map p'.heap = m[a]?) :
    p'.toState smt = { p.toState smt with accounts := m, kvstore := p'.kvstore } := by
  have hsaved : p'.versions.saved = p.versions.saved := by rw [h.versions hp]
  have haccounts : (p'.toState smt).accounts = m := by
    refine Std.ExtTreeMap.ext_getElem? fun a => ?_
    rw [get_accounts_toState, hm]
  simp only [toState, hsaved] at haccounts ⊢
  rw [haccounts]
  rfl

theorem map_update (smt : SMT) (p : Process) (q : Ptr) (acc : Account) (b : Address) :
    p.accounts[b]?.join.map (Function.update p.heap q acc) =
      if p.accounts[b]? = some (some q) then some acc else (p.toState smt).accounts[b]? := by
  rw [get_accounts_toState]
  rcases p.accounts[b]? with _ | _ | r
  · rfl
  · rfl
  · by_cases hr : r = q <;> simp [hr]

theorem not_has_of_owner (h : p.owner q = none) : ¬ p.accounts.Has q := by
  rintro ⟨a, ha⟩
  have hne := List.find?_eq_none.1 (Option.map_eq_none_iff.1 h) _
    (Std.ExtTreeMap.mem_toList_iff_getElem?_eq_some.2 ha)
  simp at hne

theorem get_of_owner {a : Address} (h : p.owner q = some a) : p.accounts[a]? = some (some q) := by
  obtain ⟨e, he, rfl⟩ := Option.map_eq_some_iff.1 h
  have hq : e.2 = some q := by simpa using List.find?_some he
  rw [← hq, ← Std.ExtTreeMap.mem_toList_iff_getElem?_eq_some]
  exact List.mem_of_find?_eq_some he

variable [Crypto]

theorem toState_step (hp : p.Apart) (h : p.Unshared) (op : Op) :
    (p.step op).toState smt = p.valueStep op (p.toState smt) := by
  cases op with
  | make acc =>
    refine toState_of_callerStep hp (make_callerStep acc) fun b => ?_
    refine (map_update smt p _ acc b).trans (if_neg fun hnew => ?_)
    exact lt_irrefl p.held.length (hp.allocated _ (.inr ⟨b, hnew⟩))
  | getAccount addr =>
    simp only [step, getAccount]
    cases p.accounts[addr]? <;> rfl
  | setAccount addr i =>
    have hcaller := setAccount_callerStep addr fun ptr h => reaches_of_pointer (i := i) (p := p) h
    simp only [step, valueStep]
    cases hq : p.pointer i with
    | none =>
      refine toState_of_callerStep hp (hq ▸ hcaller) fun a => ?_
      simp only [setAccount, Map.get_insert]
      split_ifs with ha
      · rw [ha, Map.get_erase_self]
        rfl
      · rw [Map.get_erase_of_ne _ ha, get_accounts_toState]
    | some q =>
      refine toState_of_callerStep hp (hq ▸ hcaller) fun a => ?_
      simp only [setAccount, Map.get_insert]
      split_ifs
      · rfl
      · exact (get_accounts_toState p a).symm
  | deleteAccount addr =>
    refine toState_of_callerStep hp (deleteAccount_callerStep addr) fun a => ?_
    simp only [deleteAccount]
    by_cases ha : addr = a
    · rw [ha, Map.get_erase_self, Map.get_erase_self]
      rfl
    · rw [Map.get_erase_of_ne _ ha, Map.get_erase_of_ne _ ha, get_accounts_toState]
  | update i f =>
    simp only [step, valueStep]
    cases hq : p.pointer i with
    | none => rfl
    | some q =>
      have hcaller := update_callerStep f (reaches_of_pointer hq)
      cases ha : p.owner q with
      | none =>
        simp only [Option.bind_some, ha, Option.map_none, Option.getD_none]
        refine toState_of_callerStep hp hcaller fun b => (map_update smt p q _ b).trans ?_
        exact if_neg fun hb => not_has_of_owner ha ⟨b, hb⟩
      | some a =>
        have hown := get_of_owner ha
        simp only [Option.bind_some, ha, Option.map_some, Option.getD_some]
        refine toState_of_callerStep hp hcaller fun b => (map_update smt p q _ b).trans ?_
        rw [Map.get_insert]
        refine if_congr ⟨fun hb => (h.inj q a b hown hb).symm, fun hb => hb ▸ hown⟩ rfl rfl
  | setBytes key value => rfl
  | deleteBytes key => rfl
  | setContractStorage contractID key value =>
    simp only [step, valueStep, setContractStorage, InMemoryState.setContractStorage]
    by_cases hlen : value.length > 64 * 1024
    · rw [bind_eq_error_of (failIf_of _ hlen _), bind_eq_error_of (failIf_of _ hlen _)]
      rfl
    · rw [failIf_bind hlen, failIf_bind hlen]
      rfl
  | snapshot =>
    have hrun := snapshot_eq_ok.2 ⟨h.noNil, rfl, rfl⟩
    rw [step, valueStep, toState_snapshot hp hrun, hrun]
    rfl
  | revertToSnapshot id =>
    rw [step, valueStep]
    by_cases hid : 0 ≤ id ∧ id < p.snapshots.length
    · obtain ⟨snap, hget⟩ : ∃ snap, p.snapshots[id.toNat]? = some snap :=
        ⟨_, List.getElem?_eq_getElem (by omega)⟩
      have hrun := (revertToSnapshot_eq_ok hp (u := ())).2 ⟨hid.1, snap, hget, rfl⟩
      rw [if_neg (by omega), toState_revertToSnapshot hp hrun, hrun]
      rfl
    · rw [revertToSnapshot_of_invalid hid]
      split_ifs with hneg
      · rfl
      · have hnone : (p.toState smt).snapshots[id.toNat]? = none := by
          simp only [toState, versions, List.getElem?_eq_none_iff, List.length_map]
          omega
        rw [InMemoryState.revertToSnapshot, hnone]
        rfl

/-- In every reachable state that shares no account, a step on pointers is a step on values. -/
theorem pointers_refine_values (smt : SMT) (ops : List Op) (op : Op)
    (h : (start.run ops).Unshared) : (start.run (ops ++ [op])).toState smt =
      (start.run ops).valueStep op ((start.run ops).toState smt) := by
  rw [run_append]
  exact toState_step (run_apart ops) h op

end Process

open Process Sample

theorem sampleOps_unshared : (start.run sampleOps).Unshared where
  noNil := by decide +kernel
  inj q a b ha hb := by
    have hone : (start.run sampleOps).accounts =
        (∅ : AccountMap).insert (FixedBytes.zero 20) (some (.made 0)) := rfl
    rw [hone, Map.get_insert] at ha hb
    split_ifs at ha hb with ha' hb'
    · exact hb'.symm.trans ha'
    all_goals cases ha
    all_goals cases hb

theorem pointers_refine_sample : (start.run (sampleOps ++ [.revertToSnapshot 0])).toState .empty =
      (start.run sampleOps).valueStep (.revertToSnapshot 0) ((start.run sampleOps).toState .empty) :=
  pointers_refine_values _ _ _ sampleOps_unshared

end Dsn
