import Dsn.Go.Exec

/-!
# `network`: the peers a block is sent to

Peers are drawn by random bytes without repetition.
-/

namespace Dsn

open Go

variable {α : Type}

def index (l : List α) (i : ℕ) : Except Error α :=
  match l[i]? with
  | some a => .ok a
  | none => .error (.panic "index out of range")

def selectLoop (peers : List α) (rand : ℕ → FixedBytes 4) : ℕ → ℕ → List ℕ → Except Error (List α)
  | 0, _, _ => .ok []
  | turns + 1, i, indices => do
    if indices.length - i = 0 then .error (.panic "integer divide by zero")
    let randIdx := i + beNat (rand i).bytes % (indices.length - i)
    let chosen ← index indices randIdx
    let peer ← index peers chosen
    let own ← index indices i
    let selected ← selectLoop peers rand turns (i + 1) ((indices.set i chosen).set randIdx own)
    return peer :: selected

def selectPeers (peers : List α) (n : ℕ) (rand : ℕ → FixedBytes 4) : Except Error (List α) :=
  if peers.length = 0 then .ok []
  else if n ≥ peers.length then .ok peers
  else selectLoop peers rand n 0 (List.range peers.length)

variable {i : ℕ}

theorem index_of_lt {l : List α} (h : i < l.length) : index l i = .ok l[i] := by
  simp [index, h]

/-- The peers in the order of the indices. -/
def Arranges (peers : List α) (indices : List ℕ) (l : List α) : Prop :=
  indices.map (peers[·]?) = l.map some

variable {peers l : List α} {indices : List ℕ} {rand : ℕ → FixedBytes 4}

section

variable (h : Arranges peers indices l)
include h

theorem Arranges.length_eq : indices.length = l.length := by
  simpa using congrArg List.length h

theorem Arranges.getElem? (hi : i < l.length) (hi' : i < indices.length) :
    peers[indices[i]]? = some l[i] := by
  have hget : (indices.map (peers[·]?))[i]? = (l.map some)[i]? := by rw [show _ = _ from h]
  simpa [hi, hi'] using hget

theorem Arranges.swap {r : ℕ} (hi : i < l.length) (hr : r < l.length) (hi' : i < indices.length)
    (hr' : r < indices.length) :
    Arranges peers ((indices.set i indices[r]).set r indices[i]) ((l.set i l[r]).set r l[i]) := by
  have hmap : indices.map (peers[·]?) = l.map some := h
  unfold Arranges
  rw [List.map_set, List.map_set, List.map_set, List.map_set, hmap, h.getElem? hr hr',
    h.getElem? hi hi']

end

theorem drop_swap_perm {r : ℕ} (hi : i < l.length) (hr : r < l.length) (hir : i ≤ r) :
    (l[r] :: ((l.set i l[r]).set r l[i]).drop (i + 1)).Perm (l.drop i) := by
  have htake : ((l.set i l[r]).set r l[i]).take i = l.take i := by
    rw [List.take_set_of_le hir, List.take_set_of_le le_rfl]
  have hhead : ((l.set i l[r]).set r l[i]).drop i =
      l[r] :: ((l.set i l[r]).set r l[i]).drop (i + 1) := by
    rw [List.drop_eq_getElem_cons (by simpa using hi), List.getElem_set]
    split_ifs with heq
    · simp only [heq]
    · rw [List.getElem_set_self]
  rw [← hhead, ← List.perm_append_left_iff (l.take i), List.take_append_drop, ← htake,
    List.take_append_drop]
  exact List.set_set_perm hi hr

theorem selectLoop_eq {turns : ℕ} (hl : Arranges peers indices l) (hlen : i + turns ≤ l.length) :
    ∃ selected rest, selectLoop peers rand turns i indices = .ok selected ∧
      selected.length = turns ∧ (selected ++ rest).Perm (l.drop i) := by
  induction turns generalizing i indices l with
  | zero => exact ⟨[], l.drop i, rfl, rfl, .refl _⟩
  | succ turns ih =>
    have hlength := hl.length_eq
    have hmod : beNat (rand i).bytes % (indices.length - i) < indices.length - i :=
      Nat.mod_lt _ (by omega)
    rw [selectLoop]
    generalize hr : i + beNat (rand i).bytes % (indices.length - i) = r
    have hi : i < l.length := by omega
    have hrl : r < l.length := by omega
    have hpeer : index peers indices[r] = .ok l[r] := by
      rw [index, hl.getElem? hrl]
    obtain ⟨selected, rest, hloop, hcount, hperm⟩ :=
      ih (i := i + 1) (hl.swap hi hrl (by omega) (by omega)) (by simp; omega)
    refine ⟨l[r] :: selected, rest, ?_, ?_, ?_⟩
    · simp only [if_neg (show ¬ indices.length - i = 0 by omega),
        index_of_lt (show r < indices.length by omega),
        index_of_lt (show i < indices.length by omega), hpeer, hloop, bind, Except.bind, pure,
        Except.pure]
    · rw [List.length_cons, hcount]
    · exact (hperm.cons _).trans (drop_swap_perm hi hrl (by omega))

theorem arranges_range (peers : List α) : Arranges peers (List.range peers.length) peers := by
  refine List.ext_getElem (by simp) fun i hi hi' => ?_
  simp

/-- `selectPeers` returns distinct peers, whatever the random source gives. -/
theorem selected_peers_distinct (peers : List α) (hdistinct : peers.Nodup) (n : ℕ)
    (rand : ℕ → FixedBytes 4) :
    ∃ selected, selectPeers peers n rand = .ok selected ∧
      selected.length = min n peers.length ∧ selected ⊆ peers ∧ selected.Nodup := by
  unfold selectPeers
  split_ifs with hempty hall
  · rw [hempty]
    exact ⟨[], rfl, (Nat.min_zero n).symm, List.nil_subset _, .nil⟩
  · exact ⟨peers, rfl, (Nat.min_eq_right hall).symm, List.Subset.refl _, hdistinct⟩
  · have hlen : 0 + n ≤ peers.length := by omega
    obtain ⟨selected, rest, hloop, hcount, hperm⟩ := selectLoop_eq (arranges_range peers) hlen
    refine ⟨selected, hloop, by omega, fun a ha => ?_, ?_⟩
    · exact hperm.subset (List.mem_append_left _ ha)
    · exact (hperm.nodup_iff.2 hdistinct).of_append_left

theorem selected_peers_distinct_two : [7, 8, 9].Nodup ∧
    ∃ selected, selectPeers [7, 8, 9] 2 (fun _ => FixedBytes.copy 4 [0, 0, 0, 5]) = .ok selected ∧
      selected.length = 2 ∧ selected ⊆ [7, 8, 9] ∧ selected.Nodup :=
  ⟨by decide, selected_peers_distinct [7, 8, 9] (by decide) 2 _⟩

end Dsn
