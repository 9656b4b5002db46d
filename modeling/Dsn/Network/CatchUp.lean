import Dsn.Network.BlockSync

/-!
# `network/blocksync.go`: the loops

Both loops run over a `uint64` that may wrap, so they are given fuel and shown to end.
-/

namespace Dsn

open Go

/-! ### Answering a range -/

theorem handleBlockRangeRequest_returns_iff {ps : PersistentState} {payload : Bytes} :
    (∃ response, handleBlockRangeRequest 102 ps payload = some response) ↔
      ∀ startHeight, ¬ AcceptsRange payload startHeight (UInt64.ofNat (2 ^ 64 - 1)) := by
  constructor
  · rintro ⟨response, hresponse⟩ startHeight haccepts
    rw [handleBlockRangeRequest_eq haccepts, rangeLoop_last rfl] at hresponse
    cases hresponse
  · intro h
    by_cases haccepts : ∃ startHeight endHeight, AcceptsRange payload startHeight endHeight
    · obtain ⟨startHeight, endHeight, haccepts⟩ := haccepts
      have hlast : endHeight.toNat < 2 ^ 64 - 1 := by
        have hlt := endHeight.toNat_lt
        by_contra hge
        obtain rfl : endHeight = UInt64.ofNat (2 ^ 64 - 1) :=
          UInt64.toNat_inj.1 (by rw [UInt64.toNat_ofNat']; omega)
        exact h startHeight haccepts
      have hshort := UInt64.le_iff_toNat_le.1 haccepts.short
      rw [UInt64.toNat_sub_of_le _ _ haccepts.ordered,
        show (100 : UInt64).toNat = 100 from rfl] at hshort
      rw [handleBlockRangeRequest_eq haccepts, rangeLoop_eq hlast, if_pos (by omega)]
      exact ⟨_, rfl⟩
    · refine ⟨none, ?_⟩
      unfold handleBlockRangeRequest
      split
      · rfl
      · rename_i startHeight endHeight hdecodes
        split_ifs with hordered hshort
        · rfl
        · rfl
        · exact absurd ⟨_, _, hdecodes, UInt64.not_lt.1 hordered, UInt64.not_lt.1 hshort⟩ haccepts

/-! ### Catching up -/

/-- The last height of a batch. -/
def batchEnd (start maxPeerHeight : UInt64) : UInt64 :=
  if start + 99 > maxPeerHeight then maxPeerHeight else start + 99

def batchLoop (targetPeer : Option String) :
    ℕ → UInt64 → UInt64 → Option (List (String × UInt64 × UInt64))
  | 0, _, _ => none
  | fuel + 1, start, maxPeerHeight =>
    if start ≤ maxPeerHeight then
      (batchLoop targetPeer fuel (start + 100) maxPeerHeight).map
        (targetPeer.toList.map (·, start, batchEnd start maxPeerHeight) ++ ·)
    else some []

def highestPeer (currentHeight : UInt64) (bestPeers : List (String × UInt64)) :
    UInt64 × Option String :=
  bestPeers.foldl (fun best p => if p.2 > best.1 then (p.2, some p.1) else best)
    (currentHeight, none)

def startCatchUp (fuel : ℕ) (isSyncing : Bool) (currentHeight : UInt64)
    (bestPeers : List (String × UInt64)) : Option (List (String × UInt64 × UInt64)) :=
  if isSyncing then some []
  else if bestPeers = [] then some []
  else
    let (maxPeerHeight, targetPeer) := highestPeer currentHeight bestPeers
    if maxPeerHeight ≤ currentHeight then some []
    else batchLoop targetPeer fuel (currentHeight + 1) maxPeerHeight

/-- The heights that are asked for. -/
def covered (requests : List (String × UInt64 × UInt64)) : List UInt64 :=
  requests.flatMap fun request => uint64Range request.2.1 request.2.2

variable {fuel k : ℕ} {address : String} {start maxPeerHeight currentHeight x : UInt64}
  {requests : List (String × UInt64 × UInt64)} {bestPeers : List (String × UInt64)}

theorem highestPeer_cases (currentHeight : UInt64) (bestPeers : List (String × UInt64)) :
    (highestPeer currentHeight bestPeers).1 = currentHeight ∨
      ∃ address, (highestPeer currentHeight bestPeers).2 = some address := by
  unfold highestPeer
  induction bestPeers using List.reverseRecOn with
  | nil => exact .inl rfl
  | append_singleton l p ih =>
    rw [List.foldl_append, List.foldl_cons]
    split_ifs
    · exact .inr ⟨p.1, rfl⟩
    · exact ih

theorem batchLoop_eq_some (hle : start ≤ maxPeerHeight)
    (h : batchLoop (some address) fuel start maxPeerHeight = some requests) : ∃ fuel' rest,
      fuel = fuel' + 1 ∧ batchLoop (some address) fuel' (start + 100) maxPeerHeight = some rest ∧
      requests = (address, start, batchEnd start maxPeerHeight) :: rest := by
  cases fuel with
  | zero => cases h
  | succ fuel =>
    unfold batchLoop at h
    rw [if_pos hle] at h
    obtain ⟨rest, hrest, rfl⟩ := Option.map_eq_some_iff.1 h
    exact ⟨fuel, rest, rfl, hrest, rfl⟩

theorem covered_cons (start stop : UInt64) :
    covered ((address, start, stop) :: requests) = uint64Range start stop ++ covered requests := rfl

theorem mem_batch (hroom : start.toNat + 99 < 2 ^ 64) :
    x ∈ uint64Range start (batchEnd start maxPeerHeight) ↔
      start.toNat ≤ x.toNat ∧ x.toNat ≤ maxPeerHeight.toNat ∧ x.toNat ≤ start.toNat + 99 := by
  have hstop : (start + 99).toNat = start.toNat + 99 := toNat_add_of_lt hroom
  unfold batchEnd
  rw [mem_uint64Range, UInt64.le_iff_toNat_le, UInt64.le_iff_toNat_le]
  split_ifs with h <;> rw [gt_iff_lt, UInt64.lt_iff_toNat_lt, hstop] at h
  · omega
  · omega

section

variable (hle : start.toNat + 100 * k ≤ maxPeerHeight.toNat)
include hle

theorem batchLoop_of_room (hlast : maxPeerHeight.toNat < start.toNat + 100 * (k + 1))
    (hroom : start.toNat + 100 * (k + 1) < 2 ^ 64) : ∃ requests,
      batchLoop (some address) (k + 2) start maxPeerHeight = some requests ∧
      (covered requests).Nodup ∧ ∀ x, x ∈ covered requests ↔ start ≤ x ∧ x ≤ maxPeerHeight := by
  induction k generalizing start with
  | zero =>
    have hnext : (start + 100).toNat = start.toNat + 100 := toNat_add_of_lt hroom
    have hlt : maxPeerHeight < start + 100 := UInt64.lt_iff_toNat_lt.2 (by omega)
    refine ⟨[(address, start, batchEnd start maxPeerHeight)], ?_, ?_, fun x => ?_⟩
    · rw [batchLoop, if_pos (UInt64.le_iff_toNat_le.2 hle), batchLoop, if_neg (UInt64.not_le.2 hlt)]
      rfl
    · rw [covered_cons]
      exact (List.append_nil _).symm ▸ nodup_uint64Range _ _
    · rw [covered_cons, show covered [] = [] from rfl, List.append_nil, mem_batch (by omega),
        UInt64.le_iff_toNat_le, UInt64.le_iff_toNat_le]
      omega
  | succ k ih =>
    have hnext : (start + 100).toNat = start.toNat + 100 :=
      toNat_add_of_lt (show start.toNat + 100 < 2 ^ 64 by omega)
    obtain ⟨rest, hloop, hnodup, hmem⟩ := @ih (start + 100) (by omega) (by omega) (by omega)
    simp only [UInt64.le_iff_toNat_le] at hmem
    refine ⟨(address, start, batchEnd start maxPeerHeight) :: rest, ?_, ?_, fun x => ?_⟩
    · rw [batchLoop, if_pos (UInt64.le_iff_toNat_le.2 (by omega)), hloop]
      rfl
    · rw [covered_cons]
      refine List.nodup_append.2 ⟨nodup_uint64Range _ _, hnodup, fun x hx y hy hxy => ?_⟩
      rw [mem_batch (by omega), hxy] at hx
      have hy' := (hmem y).1 hy
      omega
    · rw [covered_cons, List.mem_append, mem_batch (by omega), hmem, UInt64.le_iff_toNat_le,
        UInt64.le_iff_toNat_le]
      omega

theorem mem_covered_of_wraps (hwraps : 2 ^ 64 ≤ start.toNat + 100 * (k + 1))
    (h : batchLoop (some address) fuel start maxPeerHeight = some requests) :
    ∃ x ∈ covered requests, x.toNat + 2 ^ 64 = start.toNat + 100 * (k + 1) := by
  have hmax := maxPeerHeight.toNat_lt
  induction k generalizing start fuel requests with
  | zero =>
    have hnext : (start + 100).toNat = start.toNat + 100 - 2 ^ 64 := by
      rw [UInt64.toNat_add, show (100 : UInt64).toNat = 100 from rfl]
      omega
    obtain ⟨fuel, rest, rfl, hrest, rfl⟩ := batchLoop_eq_some (UInt64.le_iff_toNat_le.2 hle) h
    obtain ⟨fuel, rest, rfl, -, rfl⟩ :=
      batchLoop_eq_some (UInt64.le_iff_toNat_le.2 (by omega)) hrest
    have hfirst : start + 100 ∈ uint64Range (start + 100) (batchEnd (start + 100) maxPeerHeight) :=
      (mem_batch (by omega)).2 (by omega)
    exact ⟨start + 100, List.mem_append_right _ (List.mem_append_left _ hfirst), by omega⟩
  | succ k ih =>
    have hnext : (start + 100).toNat = start.toNat + 100 :=
      toNat_add_of_lt (show start.toNat + 100 < 2 ^ 64 by omega)
    obtain ⟨fuel, rest, rfl, hrest, rfl⟩ :=
      batchLoop_eq_some (UInt64.le_iff_toNat_le.2 (by omega)) h
    obtain ⟨x, hx, heq⟩ := ih (by omega) (by omega) hrest
    exact ⟨x, List.mem_append_right _ hx, by omega⟩

end

/-- Each missing height is asked for once. -/
def CatchesUp (currentHeight : UInt64) (bestPeers : List (String × UInt64)) : Prop :=
  ∃ fuel requests, startCatchUp fuel false currentHeight bestPeers = some requests ∧
    (covered requests).Nodup ∧ ∀ x, x ∈ covered requests ↔
      currentHeight < x ∧ x ≤ (highestPeer currentHeight bestPeers).1

theorem catchesUp_of_le (h : (highestPeer currentHeight bestPeers).1 ≤ currentHeight) :
    CatchesUp currentHeight bestPeers := by
  refine ⟨0, [], ?_, List.nodup_nil, fun x => ?_⟩
  · unfold startCatchUp
    simp [h]
  · exact iff_of_false List.not_mem_nil fun hx => UInt64.not_le.2 hx.1 (UInt64.le_trans hx.2 h)

theorem startCatchUp_eq (h : currentHeight < (highestPeer currentHeight bestPeers).1) :
    ∃ address, ∀ fuel, startCatchUp fuel false currentHeight bestPeers = batchLoop (some address)
      fuel (currentHeight + 1) (highestPeer currentHeight bestPeers).1 := by
  have hne : bestPeers ≠ [] := by
    rintro rfl
    exact UInt64.lt_irrefl _ h
  obtain ⟨address, haddress⟩ :=
    (highestPeer_cases currentHeight bestPeers).resolve_left fun heq =>
      UInt64.lt_irrefl currentHeight (by rwa [heq] at h)
  refine ⟨address, fun fuel => ?_⟩
  unfold startCatchUp
  simp [hne, UInt64.not_le.2 h, haddress]

def BatchesFit (currentHeight maxPeerHeight : UInt64) : Prop :=
  currentHeight.toNat + 1 + 100 * ((maxPeerHeight.toNat - currentHeight.toNat - 1) / 100 + 1) <
    2 ^ 64

theorem catchesUp_iff : CatchesUp currentHeight bestPeers ↔
    (highestPeer currentHeight bestPeers).1 ≤ currentHeight ∨
      BatchesFit currentHeight (highestPeer currentHeight bestPeers).1 := by
  by_cases hle : (highestPeer currentHeight bestPeers).1 ≤ currentHeight
  · exact iff_of_true (catchesUp_of_le hle) (.inl hle)
  have hlt := UInt64.not_le.1 hle
  obtain ⟨address, hrun⟩ := startCatchUp_eq hlt
  unfold CatchesUp
  simp only [hrun, or_iff_right hle]
  generalize (highestPeer currentHeight bestPeers).1 = maxPeerHeight at hlt ⊢
  have hnat := UInt64.lt_iff_toNat_lt.1 hlt
  have hmax := maxPeerHeight.toNat_lt
  have hstart : (currentHeight + 1).toNat = currentHeight.toNat + 1 :=
    toNat_add_of_lt (show currentHeight.toNat + 1 < 2 ^ 64 by omega)
  have hbound (x : UInt64) : currentHeight < x ↔ currentHeight + 1 ≤ x := by
    rw [UInt64.lt_iff_toNat_lt, UInt64.le_iff_toNat_le, hstart, Nat.lt_iff_add_one_le]
  unfold BatchesFit
  obtain ⟨k, hk⟩ : ∃ k, k = (maxPeerHeight.toNat - currentHeight.toNat - 1) / 100 := ⟨_, rfl⟩
  simp only [hbound]
  constructor
  · rintro ⟨fuel, requests, hloop, hnodup, hmem⟩
    by_contra hwraps
    obtain ⟨fuel, rest, rfl, hrest, rfl⟩ :=
      batchLoop_eq_some (UInt64.le_iff_toNat_le.2 (by omega)) hloop
    have hle : (currentHeight + 1).toNat + 100 * k ≤ maxPeerHeight.toNat := by omega
    obtain ⟨x, hx, heq⟩ := mem_covered_of_wraps hle (by omega) hloop
    have hge := UInt64.le_iff_toNat_le.1 ((hmem x).1 hx).1
    -- the first batch has the height, and a later one has it too
    cases k with
    | zero => omega
    | succ k =>
      have hnext : (currentHeight + 1 + 100).toNat = (currentHeight + 1).toNat + 100 :=
        toNat_add_of_lt (show (currentHeight + 1).toNat + 100 < 2 ^ 64 by omega)
      obtain ⟨y, hy, heq'⟩ := @mem_covered_of_wraps _ k _ _ _ _ (by omega) (by omega) hrest
      rw [covered_cons] at hnodup
      refine (List.nodup_append.1 hnodup).2.2 y ?_ y hy rfl
      rw [mem_batch (by omega)]
      omega
  · intro hroom
    obtain ⟨requests, hloop, hcovered⟩ := @batchLoop_of_room k address (currentHeight + 1)
      maxPeerHeight (by omega) (by omega) (by omega)
    exact ⟨_, requests, hloop, hcovered⟩

/-- Both loops end as they should exactly if no counter passes the last height. -/
theorem block_sync_loops_iff (ps : PersistentState) (payload : Bytes) (currentHeight : UInt64)
    (bestPeers : List (String × UInt64)) :
    ((∃ response, handleBlockRangeRequest 102 ps payload = some response) ∧
      CatchesUp currentHeight bestPeers) ↔
      (∀ startHeight, ¬ AcceptsRange payload startHeight (UInt64.ofNat (2 ^ 64 - 1))) ∧
        ((highestPeer currentHeight bestPeers).1 ≤ currentHeight ∨
          BatchesFit currentHeight (highestPeer currentHeight bestPeers).1) :=
  and_congr handleBlockRangeRequest_returns_iff catchesUp_iff

theorem last_height_not_answered : ¬ ∀ (ps : PersistentState) (payload : Bytes)
    (currentHeight : UInt64) (bestPeers : List (String × UInt64)),
    (∃ response, handleBlockRangeRequest 102 ps payload = some response) ∧
      CatchesUp currentHeight bestPeers := by
  intro h
  have hrequest := (h ⟨∅, ∅, ∅, zeroHash⟩ (encodeBlockRangeRequest (UInt64.ofNat (2 ^ 64 - 1))
    (UInt64.ofNat (2 ^ 64 - 1))) 0 []).1
  exact handleBlockRangeRequest_returns_iff.1 hrequest _
    (acceptsRange_encode (by decide) (by decide))

end Dsn
