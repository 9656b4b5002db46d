import Dsn.Network.PeerExchange

/-!
# `network/peer.go`: peers in the database

`Persist` writes the registered peers over the bucket and never deletes.
-/

namespace Dsn

open Go Guarded

def leBytes (n v : ℕ) : Bytes := (beBytes n v).reverse

def readLE (n : ℕ) : Reader ℕ := do
  let b ← readFull n
  return beNat b.reverse

theorem reads_readLE {n v : ℕ} (h : v < 256 ^ n) : Reads (readLE n) (leBytes n v) v := by
  have hread := Reads.readFull (leBytes n v)
  rw [leBytes, List.length_reverse, length_beBytes] at hread
  refine hread.bind_pure ?_
  rw [List.reverse_reverse, beNat_beBytes h]
  exact Reads.pure v

/-- A signed integer in `n` bytes. -/
def intBytes (n : ℕ) (i : ℤ) : Bytes := leBytes n (i % 256 ^ n).toNat

def readInt (n : ℕ) : Reader ℤ := do
  return Int.bmod (← readLE n) (256 ^ n)

theorem reads_readInt {n : ℕ} {i : ℤ} (h : Int.bmod i (256 ^ n) = i) :
    Reads (readInt n) (intBytes n i) i := by
  have hpos : (0 : ℤ) < 256 ^ n := by positivity
  have hnonneg := Int.emod_nonneg i hpos.ne'
  have hlt := Int.emod_lt_of_pos i hpos
  refine (reads_readLE ?_).bind_pure ?_
  · zify
    rwa [Int.toNat_of_nonneg hnonneg]
  · have hmod := Int.emod_bmod i (256 ^ n)
    push_cast at hmod
    rw [Int.toNat_of_nonneg hnonneg, hmod, h]
    exact Reads.pure i

def PeerState.code : PeerState → ℕ
  | .disconnected => 0
  | .connecting => 1
  | .connected => 2
  | .banned => 3

def PeerState.ofCode : ℤ → PeerState
  | 1 => .connecting
  | 2 => .connected
  | 3 => .banned
  | _ => .disconnected

structure PeerRecord where
  version : UInt8
  id : PeerID
  address : Bytes
  score : ℤ
  latency : ℤ
  lastSeen : ℤ
  firstSeen : ℤ
  isBanned : Bool
  state : PeerState
  syncHeight : UInt64
  messageCount : UInt64
  failCount : UInt64
  connectedSince : ℤ
  banExpiry : ℤ

def PeerRecord.marshalBinary (r : PeerRecord) : Bytes :=
  leBytes 1 r.version.toNat ++ (r.id.bytes ++ (intBytes 8 r.latency ++ (intBytes 8 r.lastSeen ++
    (intBytes 8 r.firstSeen ++ (leBytes 8 r.syncHeight.toNat ++ (leBytes 8 r.messageCount.toNat ++
    (leBytes 8 r.failCount.toNat ++ (intBytes 8 r.connectedSince ++ (intBytes 8 r.banExpiry ++
    (leBytes 2 (r.address.length % 2 ^ 16) ++ (r.address ++ (intBytes 4 r.score ++
    (leBytes 1 r.isBanned.toNat ++ intBytes 4 r.state.code)))))))))))))

def readPeerRecord : Reader PeerRecord := do
  let version ← readLE 1
  let id ← readFixed 32
  let latency ← readInt 8
  let lastSeen ← readInt 8
  let firstSeen ← readInt 8
  let syncHeight ← readLE 8
  let messageCount ← readLE 8
  let failCount ← readLE 8
  let connectedSince ← readInt 8
  let banExpiry ← readInt 8
  let address ← readFull (← readLE 2)
  let score ← readInt 4
  let isBanned ← readLE 1
  let state ← readInt 4
  return ⟨.ofNat version, id, address, score, latency, lastSeen, firstSeen, isBanned ≠ 0,
    .ofCode state, .ofNat syncHeight, .ofNat messageCount, .ofNat failCount, connectedSince,
    banExpiry⟩

def peerToRecord (p : Peer) : PeerRecord where
  version := 2
  id := p.id
  address := p.address
  score := p.score
  latency := p.latency
  lastSeen := unix p.lastSeen
  firstSeen := 0
  isBanned := p.state = .banned
  state := p.state
  syncHeight := p.syncHeight
  messageCount := p.messageCount
  failCount := p.failCount
  connectedSince := unix p.connectedSince
  banExpiry := unix p.banExpiry

def recordToPeer (r : PeerRecord) : Peer where
  id := r.id
  address := r.address
  state := if r.isBanned then .banned else r.state
  score := r.score
  latency := r.latency
  lastSeen := unixTime r.lastSeen
  syncHeight := r.syncHeight
  messageCount := r.messageCount
  failCount := r.failCount
  connectedSince := unixTime r.connectedSince
  banExpiry := unixTime r.banExpiry

def Peer.restored (p : Peer) : Peer :=
  { p with
    lastSeen := unixTime (unix p.lastSeen), connectedSince := unixTime (unix p.connectedSince)
    banExpiry := unixTime (unix p.banExpiry), lastBlockSuccess := 0, blockSuccesses := 0 }

structure Peer.Persistable (p : Peer) : Prop where
  address : p.address.length < 2 ^ 16
  score : -2 ^ 31 ≤ p.score ∧ p.score < 2 ^ 31
  latency : -2 ^ 63 ≤ p.latency ∧ p.latency < 2 ^ 63
  lastSeen : Representable p.lastSeen
  connectedSince : Representable p.connectedSince
  banExpiry : Representable p.banExpiry

def readPeer (v : Bytes) : Option Peer :=
  match readPeerRecord v with
  | .ok r _ => some (recordToPeer r)
  | .error _ _ => none

theorem readPeer_marshalBinary {p : Peer} (h : p.Persistable) :
    readPeer (peerToRecord p).marshalBinary = some p.restored := by
  have hread : Reads readPeerRecord (peerToRecord p).marshalBinary (peerToRecord p) := by
    have hbmod (i : ℤ) (hi : -2 ^ 63 ≤ i ∧ i < 2 ^ 63) : Int.bmod i (256 ^ 8) = i := by
      rw [Int.bmod_def]
      omega
    have hscore : Int.bmod p.score (256 ^ 4) = p.score := by
      have := h.score
      rw [Int.bmod_def]
      omega
    unfold PeerRecord.marshalBinary
    rw [peerToRecord, Nat.mod_eq_of_lt h.address]
    dsimp only
    refine (reads_readLE (by decide)).bind <| (Reads.readFixed _).bind <|
      (reads_readInt (hbmod _ h.latency)).bind <| (reads_readInt (hbmod _ h.lastSeen)).bind <|
      (reads_readInt (by decide)).bind <| (reads_readLE (UInt64.toNat_lt _)).bind <|
      (reads_readLE (UInt64.toNat_lt _)).bind <| (reads_readLE (UInt64.toNat_lt _)).bind <|
      (reads_readInt (hbmod _ h.connectedSince)).bind <|
      (reads_readInt (hbmod _ h.banExpiry)).bind <| (reads_readLE h.address).bind <|
      (Reads.readFull _).bind <| (reads_readInt hscore).bind <|
      (reads_readLE ((Bool.toNat_le _).trans_lt (by decide))).bind <|
      (reads_readInt (by cases p.state <;> decide)).bind_pure ?_
    simp only [UInt64.ofNat_toNat]
    cases p.state <;> exact Reads.pure _
  have := hread []
  rw [List.append_nil] at this
  rw [readPeer, this]
  cases hs : p.state <;> simp [recordToPeer, peerToRecord, Peer.restored, hs]

namespace PeerManager

/-- The bucket after `Persist`. -/
def persist (pm : PeerManager) (b : Map PeerID Bytes) : Map PeerID Bytes :=
  Map.insertAll b (pm.peers.map fun _ p => (peerToRecord p).marshalBinary).toList

def loadPeers (b : Map PeerID Bytes) : PeerManager :=
  let peers := b.filterMap fun _ v => readPeer v
  ⟨peers, Map.insertAll ∅ (peers.toList.map fun e => (e.2.address, e.1))⟩

inductive StoreCall
  | call (c : Call)
  | persist

def storeStep (c : Time × StoreCall) (s : PeerManager × Map PeerID Bytes) :
    PeerManager × Map PeerID Bytes :=
  match c.2 with
  | .call call => (call.run c.1 s.1, s.2)
  | .persist => (s.1, s.1.persist s.2)

/-- The registry and the bucket after a run of calls. -/
def stored (start : PeerManager × Map PeerID Bytes) (calls : List (Time × StoreCall)) :
    PeerManager × Map PeerID Bytes :=
  after storeStep start calls

/-- Every entry of the bucket is one that `LoadPeers` reads. -/
def ReadableBucket (b : Map PeerID Bytes) : Prop :=
  ∀ (id : PeerID) (v : Bytes), b[id]? = some v → (readPeer v).isSome

theorem get_persist (pm : PeerManager) (b : Map PeerID Bytes) (id : PeerID) : (pm.persist b)[id]? =
    ((pm.peers[id]?).map fun p => (peerToRecord p).marshalBinary).or b[id]? := by
  rw [persist, Map.get_insertAll_toList, Std.ExtTreeMap.getElem?_map]

variable {start : PeerManager × Map PeerID Bytes} {calls later : List (Time × StoreCall)}

theorem readable_stored (hstart : ReadableBucket start.2)
    (hfit : ∀ pre post, calls = pre ++ post → ∀ (id : PeerID) (p : Peer),
      (stored start pre).1.peers[id]? = some p → p.Persistable) {id : PeerID} {v : Bytes}
    (h : (stored start calls).2[id]? = some v) : (readPeer v).isSome := by
  induction calls using List.reverseRecOn generalizing v with
  | nil => exact hstart id v h
  | append_singleton calls c ih =>
    have ih := @ih fun pre post heq => hfit pre (post ++ [c]) (by rw [heq, List.append_assoc])
    rw [stored, after, List.foldl_append] at h
    obtain ⟨now, call | _⟩ := c
    · exact ih h
    · replace h : ((stored start calls).1.persist (stored start calls).2)[id]? = some v := h
      rw [get_persist] at h
      cases hp : (stored start calls).1.peers[id]? with
      | none =>
        rw [hp] at h
        exact ih h
      | some p =>
        rw [hp] at h
        obtain rfl := Option.some.inj h
        rw [readPeer_marshalBinary (hfit calls [_] rfl id p hp), Option.isSome_some]

theorem snd_stored_append (h : ∀ c ∈ later, c.2 ≠ .persist) :
    (stored start (calls ++ later)).2 = (stored start calls).2 := by
  induction later using List.reverseRecOn with
  | nil => rw [List.append_nil]
  | append_singleton later c ih =>
    rw [← ih fun d hd => h d (List.mem_append_left _ hd)]
    obtain ⟨now, call | _⟩ := c
    · simp [stored, after, storeStep]
    · exact absurd rfl (h (now, .persist) (by simp))

/-- The last `Persist` is what is loaded exactly if no peer of the bucket is gone by then. -/
theorem persisted_peers_iff (start : PeerManager × Map PeerID Bytes)
    (calls later : List (Time × StoreCall)) (now : Time) (hstart : ReadableBucket start.2)
    (hfit : ∀ pre post, calls = pre ++ post → ∀ (id : PeerID) (p : Peer),
      (stored start pre).1.peers[id]? = some p → p.Persistable)
    (hlater : ∀ c ∈ later, c.2 ≠ .persist) :
    (∀ id : PeerID, (loadPeers (stored start (calls ++ (now, .persist) :: later)).2).peers[id]? =
      ((stored start calls).1.peers[id]?).map Peer.restored) ↔
    ∀ id : PeerID, id ∈ (stored start calls).2 → id ∈ (stored start calls).1.peers := by
  have hbucket : (stored start (calls ++ (now, .persist) :: later)).2 =
      (stored start calls).1.persist (stored start calls).2 := by
    rw [List.append_cons, snd_stored_append hlater, stored, after, List.foldl_append]
    rfl
  refine forall_congr' fun id => ?_
  rw [hbucket, loadPeers, Std.ExtTreeMap.getElem?_filterMap, get_persist]
  cases hp : (stored start calls).1.peers[id]? with
  | some p =>
    refine iff_of_true ?_ fun _ => Map.mem_of_get hp
    exact readPeer_marshalBinary (hfit calls [] (by simp) id p hp)
  | none =>
    have hnot : id ∉ (stored start calls).1.peers := fun h => by
      obtain ⟨p, h⟩ := Map.exists_get_of_mem h
      cases hp.symm.trans h
    cases hv : (stored start calls).2[id]? with
    | none =>
      refine iff_of_true rfl fun h => ?_
      obtain ⟨v, h⟩ := Map.exists_get_of_mem h
      cases hv.symm.trans h
    | some v =>
      obtain ⟨p, hread⟩ := Option.isSome_iff_exists.1 (readable_stored hstart hfit hv)
      exact iff_of_false (by simp [hread]) fun h => hnot (h (Map.mem_of_get hv))

def removedCalls : List (Time × StoreCall) :=
  [(0, .call (.addPeer (FixedBytes.zero 32) [])), (0, .persist),
    (0, .call (.removePeer (FixedBytes.zero 32)))]

theorem persistable_zero :
    ({ id := FixedBytes.zero 32, address := [], lastSeen := 0 } : Peer).Persistable := by
  constructor <;> simp [Representable, unix]

theorem removed_peer_returns : ¬ ∀ (calls : List (Time × StoreCall)) (now : Time),
    (∀ pre post, calls = pre ++ post → ∀ (id : PeerID) (p : Peer),
      (stored (⟨∅, ∅⟩, ∅) pre).1.peers[id]? = some p → p.Persistable) →
    ∀ id : PeerID, (loadPeers (stored (⟨∅, ∅⟩, ∅) (calls ++ [(now, .persist)])).2).peers[id]? =
      ((stored (⟨∅, ∅⟩, ∅) calls).1.peers[id]?).map Peer.restored := by
  intro h
  have hread := readPeer_marshalBinary persistable_zero
  have := h removedCalls 0 (fun pre post heq id p hp => ?_) (FixedBytes.zero 32)
  · simp [removedCalls, stored, after, storeStep, Call.run, addPeer, removePeer, loadPeers,
      get_persist, hread] at this
  · have hpre : pre ∈ removedCalls.inits := (List.mem_inits _ _).2 ⟨post, heq.symm⟩
    simp [removedCalls] at hpre
    rcases hpre with rfl | rfl | rfl | rfl <;>
      simp [stored, after, storeStep, Call.run, addPeer, removePeer, Map.get_insert] at hp
    all_goals exact hp.2 ▸ persistable_zero

/-- A bucket with a peer of an earlier run. -/
def usedBucket : Map PeerID Bytes :=
  (∅ : Map PeerID Bytes).insert (FixedBytes.zero 32)
    (peerToRecord { id := FixedBytes.zero 32, address := [1], lastSeen := 7 }).marshalBinary

theorem readable_usedBucket : ReadableBucket usedBucket := by
  intro id v h
  rw [usedBucket, Map.get_insert] at h
  split_ifs at h with hid
  · obtain rfl := Option.some.inj h
    rw [readPeer_marshalBinary (by constructor <;> simp [Representable, unix]), Option.isSome_some]
  · cases h

theorem persisted_peers_used_bucket : (loadPeers (stored (⟨∅, ∅⟩, usedBucket)
      (removedCalls.take 1 ++ [(0, .persist)])).2).peers[FixedBytes.zero 32]? =
    ((stored (⟨∅, ∅⟩, usedBucket) (removedCalls.take 1)).1.peers[FixedBytes.zero 32]?).map
      Peer.restored := by
  refine (persisted_peers_iff (⟨∅, ∅⟩, usedBucket) (removedCalls.take 1) [] 0 readable_usedBucket
    (fun pre post heq id p hp => ?_) (by simp)).2 (fun id hid => ?_) _
  · have hpre : pre ∈ (removedCalls.take 1).inits := (List.mem_inits _ _).2 ⟨post, heq.symm⟩
    simp [removedCalls] at hpre
    rcases hpre with rfl | rfl <;>
      simp [stored, after, storeStep, Call.run, addPeer, Map.get_insert] at hp
    exact hp.2 ▸ persistable_zero
  · simpa [removedCalls, stored, after, storeStep, Call.run, addPeer, usedBucket] using hid

end PeerManager

end Dsn
