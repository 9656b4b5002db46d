import Dsn.State.History
import Dsn.State.Memory

/-!
# What the state root binds

Accounts and entries are hashed in one list without a mark between them.
-/

namespace Dsn

open Go InMemoryState

def accountEntries (s : InMemoryState) : List (Bytes × Bytes) :=
  s.accounts.toList.map fun e => (e.1.bytes, e.2.encode)

def commitCalls (s : InMemoryState) : List Update :=
  (accountEntries s ++ s.kvstore.toList).map fun e => .insert e.1 e.2

structure SameContents (s s' : InMemoryState) : Prop where
  accounts (addr : Address) :
    (s.accounts[addr]?).map Account.encode = (s'.accounts[addr]?).map Account.encode
  kvstore : s.kvstore = s'.kvstore

/-- Some entries are accounts in one state and stored bytes in the other. -/
def Moved (s s' : InMemoryState) : Prop :=
  ∃ moved ≠ [], accountEntries s = accountEntries s' ++ moved ∧
    s'.kvstore.toList = moved ++ s.kvstore.toList

section

variable [Crypto] {s s' : InMemoryState}

/-- States that commit to the same root have the same contents. -/
def Binds (s s' : InMemoryState) : Prop :=
  ∀ root t t', commit s = .ok root t → commit s' = .ok root t' → SameContents s s'

theorem rebuildSMT_eq (s : InMemoryState) : s.rebuildSMT = SMT.empty.updates (commitCalls s) := by
  unfold commitCalls accountEntries SMT.updates
  simp only [List.foldl_append, List.foldl_map]
  rfl

theorem binds_iff : Binds s s' ↔ (s.stateRoot = s'.stateRoot → SameContents s s') := by
  constructor
  · intro h heq
    exact h s.stateRoot { s with smt := s.rebuildSMT } { s' with smt := s'.rebuildSMT } rfl
      (by rw [heq]; rfl)
  · intro h root t t' ht ht'
    obtain ⟨hroot, -⟩ := EStateM.Result.ok.inj ht
    obtain ⟨hroot', -⟩ := EStateM.Result.ok.inj ht'
    exact h (hroot.trans hroot'.symm)

section

omit [Crypto]

theorem mem_accountEntries {key value : Bytes} : (key, value) ∈ accountEntries s ↔
    ∃ (addr : Address) (acc : Account),
      s.accounts[addr]? = some acc ∧ addr.bytes = key ∧ acc.encode = value := by
  unfold accountEntries
  simp only [List.mem_map, Prod.exists, Std.ExtTreeMap.mem_toList_iff_getElem?_eq_some,
    Prod.mk.injEq]

variable (h : accountEntries s = accountEntries s')
include h

theorem encode_of_accountEntries_eq {addr : Address} {acc : Account}
    (hacc : s.accounts[addr]? = some acc) :
    ∃ acc', s'.accounts[addr]? = some acc' ∧ acc'.encode = acc.encode := by
  have hmem := mem_accountEntries.2 ⟨addr, acc, hacc, rfl, rfl⟩
  rw [h] at hmem
  obtain ⟨addr', acc', hacc', haddr, henc⟩ := mem_accountEntries.1 hmem
  rw [FixedBytes.ext haddr] at hacc'
  exact ⟨acc', hacc', henc⟩

theorem sameContents_of_entries (hkv : s.kvstore.toList = s'.kvstore.toList) :
    SameContents s s' := by
  refine ⟨fun addr => ?_, Std.ExtTreeMap.ext_toList (hkv ▸ List.Perm.refl _)⟩
  cases hacc : s.accounts[addr]? with
  | some acc =>
    obtain ⟨acc', hacc', henc⟩ := encode_of_accountEntries_eq h hacc
    rw [hacc', Option.map_some, Option.map_some, henc]
  | none =>
    cases hacc' : s'.accounts[addr]? with
    | none => rfl
    | some acc' =>
      obtain ⟨acc, hacc0, -⟩ := encode_of_accountEntries_eq h.symm hacc'
      rw [hacc] at hacc0
      cases hacc0

end

theorem stateRoot_eq_iff (h : CollisionFree (hashedBy SMT.empty (commitCalls s) ++
    hashedBy SMT.empty (commitCalls s'))) :
    s.stateRoot = s'.stateRoot ↔ commitCalls s = commitCalls s' := by
  have hus := List.subset_append_left (hashedBy SMT.empty (commitCalls s))
    (hashedBy SMT.empty (commitCalls s'))
  have hvs := List.subset_append_right (hashedBy SMT.empty (commitCalls s))
    (hashedBy SMT.empty (commitCalls s'))
  have hinserts (t : InMemoryState) : ∀ u ∈ commitCalls t, u.value ≠ none := by
    intro u hu
    obtain ⟨e, -, rfl⟩ := List.mem_map.1 hu
    exact Option.some_ne_none _
  unfold stateRoot
  rw [rebuildSMT_eq, rebuildSMT_eq, root_eq_iff h hus hvs, effective_of_inserts (hinserts s),
    effective_of_inserts (hinserts s')]
  refine ⟨eq_of_map_eq fun u hu v hv heq => ?_, fun heq => by rw [heq]⟩
  obtain ⟨hpath, hvalue⟩ := Prod.mk.inj heq
  have hkey := h.inj _ (hus (key_mem_hashedBy hu)) _ (hvs (key_mem_hashedBy hv)) hpath
  obtain ⟨e, -, rfl⟩ := List.mem_map.1 hu
  obtain ⟨e', -, rfl⟩ := List.mem_map.1 hv
  have hkey : e.1 = e'.1 := hkey
  rw [hkey, Option.some.inj hvalue]

section

omit [Crypto]

theorem commitCalls_eq_iff : commitCalls s = commitCalls s' ↔
    accountEntries s ++ s.kvstore.toList = accountEntries s' ++ s'.kvstore.toList := by
  refine ⟨eq_of_map_eq fun e _ e' _ heq => ?_, fun heq => by unfold commitCalls; rw [heq]⟩
  cases e
  cases e'
  cases heq
  rfl

theorem Moved.kvstore_ne (h : Moved s s') : s.kvstore ≠ s'.kvstore := by
  obtain ⟨moved, hne, -, hkv⟩ := h
  intro heq
  rw [← heq] at hkv
  have hlen := congrArg List.length hkv
  rw [List.length_append] at hlen
  exact hne (List.eq_nil_of_length_eq_zero (by omega))

theorem Moved.commitCalls_eq (h : Moved s s') : commitCalls s = commitCalls s' := by
  obtain ⟨moved, -, hacc, hkv⟩ := h
  rw [commitCalls_eq_iff, hacc, hkv, List.append_assoc]

end

/-- One root has one contents, unless accounts of one are entries of the other. -/
theorem state_root_binds_iff (h : CollisionFree (hashedBy SMT.empty (commitCalls s) ++
    hashedBy SMT.empty (commitCalls s'))) : Binds s s' ↔ ¬ Moved s s' ∧ ¬ Moved s' s := by
  rw [binds_iff, stateRoot_eq_iff h]
  constructor
  · intro hbinds
    refine ⟨fun hm => hm.kvstore_ne (hbinds hm.commitCalls_eq).kvstore, fun hm => ?_⟩
    exact hm.kvstore_ne (hbinds hm.commitCalls_eq.symm).kvstore.symm
  · rintro ⟨hnot, hnot'⟩ hcalls
    rcases List.append_eq_append_iff.1 (commitCalls_eq_iff.1 hcalls) with
      ⟨moved, hacc, hkv⟩ | ⟨moved, hacc, hkv⟩
    · obtain rfl : moved = [] := by_contra fun hne => hnot' ⟨moved, hne, hacc, hkv⟩
      exact sameContents_of_entries (hacc.trans (List.append_nil _)).symm hkv
    · obtain rfl : moved = [] := by_contra fun hne => hnot ⟨moved, hne, hacc, hkv⟩
      exact sameContents_of_entries (hacc.trans (List.append_nil _)) hkv.symm

end

/-! ### An account in the store -/

attribute [local instance] countingCrypto

def sampleHolder : Address := .copy 20 [2]

def sampleHolding : Account := newAccount sampleHolder (.copy 32 [])

def accountState : InMemoryState := newInMemoryState.setAccount sampleHolder sampleHolding

def storeState : InMemoryState := newInMemoryState.setBytes sampleHolder.bytes sampleHolding.encode

theorem commitCalls_accountState : commitCalls accountState =
    [.insert (2 :: List.replicate 19 0) (2 :: sampleHolding.encode.tail)] := rfl

theorem moved_accountState : Moved accountState storeState :=
  ⟨[(sampleHolder.bytes, sampleHolding.encode)], by decide, rfl, rfl⟩

theorem collisionFree_accountState :
    CollisionFree (hashedBy SMT.empty (commitCalls accountState) ++
      hashedBy SMT.empty (commitCalls storeState)) := by
  have hfree := @collisionFree_sampleUpdates (List.replicate 19 0) sampleHolding.encode.tail rfl
    (by decide +kernel)
  refine hfree.mono ?_
  rw [← moved_accountState.commitCalls_eq, List.append_subset, and_self, commitCalls_accountState]
  rw [hashedBy, hashedBy, List.append_nil]
  exact List.subset_append_left _ _

theorem state_root_binds_iff_accountState :
    CollisionFree (hashedBy SMT.empty (commitCalls accountState) ++
      hashedBy SMT.empty (commitCalls storeState)) ∧
      (Binds accountState storeState ↔
        ¬ Moved accountState storeState ∧ ¬ Moved storeState accountState) ∧
      Moved accountState storeState :=
  ⟨collisionFree_accountState, state_root_binds_iff collisionFree_accountState,
    moved_accountState⟩

theorem account_or_store_entry : ¬ ∀ (_ : Crypto) (s s' : InMemoryState),
    CollisionFree (hashedBy SMT.empty (commitCalls s) ++ hashedBy SMT.empty (commitCalls s')) →
      Binds s s' := by
  intro h
  have hsame := binds_iff.1 (h countingCrypto accountState storeState collisionFree_accountState)
  have hroot := (stateRoot_eq_iff collisionFree_accountState).2 moved_accountState.commitCalls_eq
  exact moved_accountState.kvstore_ne (hsame hroot).kvstore

end Dsn
