import Dsn.Go.Codec
import Dsn.Network.Peers

/-!
# `network/peer_discovery.go`: scores and the peer exchange

Reports keep a score within bounds, a received list sets it to anything. On the wire a score has 32
bits and a length 16.
-/

namespace Dsn

open Go Guarded

namespace PeerManager

def ScoreBounds (score : ℤ) : Prop := -100 ≤ score ∧ score ≤ 100

def Bounded (pm : PeerManager) : Prop :=
  ∀ (id : PeerID) (p : Peer), pm.peers[id]? = some p → ScoreBounds p.score

def Call.Moderate (now : Time) : Call → PeerManager → Prop
  | .learn info, pm =>
    pm.resolve info.id info.address ∈ (pm.addPeer now info.id info.address).peers →
    ScoreBounds info.score
  | _, _ => True

variable {pm : PeerManager} {id : PeerID} {f : Peer → Peer} {now : Time} {addr : Bytes}

theorem bounded_update_iff (h : Bounded pm) : Bounded (pm.update id f) ↔
    ∀ p, pm.peers[id]? = some p → ScoreBounds (f p).score := by
  unfold Bounded at *
  simp only [get_update]
  constructor
  · intro hf p hp
    exact hf id (f p) (by simp [hp])
  · intro hf a p hp
    split_ifs at hp with ha
    · subst ha
      obtain ⟨q, hq, rfl⟩ := Option.map_eq_some_iff.1 hp
      exact hf q hq
    · exact h a p hp

theorem bounded_addPeer (h : Bounded pm) : Bounded (pm.addPeer now id addr) := by
  unfold addPeer
  split_ifs
  · exact h
  · intro a p hp
    simp only [Map.get_insert] at hp
    split_ifs at hp
    · obtain rfl := Option.some.inj hp
      exact ⟨by norm_num, by norm_num⟩
    · exact h a p hp

theorem Call.bounded_run_iff (call : Call) (h : Bounded pm)
    (hseverity : ∀ id severity, call = .reportFailure id severity → 0 ≤ severity) :
    Bounded (call.run now pm) ↔ call.Moderate now pm := by
  cases call with
  | addPeer id addr => exact iff_of_true (bounded_addPeer h) trivial
  | removePeer id =>
    refine iff_of_true ?_ trivial
    rw [run, PeerManager.removePeer]
    cases pm.peers[id]? with
    | none => exact h
    | some p => exact fun a q hq => h a q (Map.get_erase_eq_some.1 hq).2
  | cleanupExpiredBans =>
    refine iff_of_true (fun a p hp => ?_) trivial
    simp only [run, Std.ExtTreeMap.getElem?_map, Option.map_eq_some_iff] at hp
    obtain ⟨q, hq, rfl⟩ := hp
    have hkeep : (q.cleanup now).score = q.score := by
      unfold Peer.cleanup
      split_ifs <;> rfl
    exact hkeep ▸ h a q hq
  | learn info =>
    rw [run, bounded_update_iff (bounded_addPeer h), Moderate,
      ← Std.ExtTreeMap.isSome_getElem?_iff_mem, Option.isSome_iff_exists, forall_exists_index]
  | connect id addr dialed =>
    rw [run, bounded_update_iff (bounded_addPeer h)]
    refine iff_of_true (fun p hp => ?_) trivial
    have := bounded_addPeer h _ p hp
    cases dialed <;> exact this
  | reportFailure id severity =>
    rw [run, bounded_update_iff h]
    refine iff_of_true (fun p hp => ?_) trivial
    have := h id p hp
    have := hseverity id severity rfl
    simp only [Peer.reportFailure, ScoreBounds] at *
    split_ifs <;> dsimp only <;> omega
  | ban id duration => exact iff_of_true ((bounded_update_iff h).2 fun p hp => h id p hp) trivial
  | disconnect id => exact iff_of_true ((bounded_update_iff h).2 fun p hp => h id p hp) trivial
  | _ =>
    rw [run, bounded_update_iff h]
    refine iff_of_true (fun p hp => ?_) trivial
    have := h _ p hp
    simp only [Peer.reportSuccess, Peer.updateScore, ScoreBounds] at *
    split_ifs <;> dsimp only <;> omega

end PeerManager

/-! ### The message -/

def Peer.wire (p : Peer) : Bytes :=
  p.id.bytes ++ (beBytes 2 (p.address.length % 2 ^ 16) ++ (p.address ++
    (beBytes 4 (p.score % 2 ^ 32).toNat ++ beBytes 8 (unix p.lastSeen % 2 ^ 64).toNat)))

def serializePeerInfo (peers : List Peer) : Bytes :=
  beBytes 2 (peers.length % 2 ^ 16) ++ peers.flatMap Peer.wire

/-- What a message is to say of the peer. -/
def Peer.info (p : Peer) : PeerInfo := ⟨p.id, p.address, p.score, unixTime (unix p.lastSeen)⟩

/-- The seconds of a time of Go. -/
def Representable (t : Time) : Prop := -2 ^ 63 ≤ unix t ∧ unix t < 2 ^ 63

def Peer.Exchangeable (p : Peer) : Prop :=
  p.address.length < 2 ^ 16 ∧ 0 ≤ p.score ∧ p.score < 2 ^ 32

variable {p : Peer} {peers : List Peer}

theorem reads_wire (hseen : Representable p.lastSeen) (h : p.address.length < 2 ^ 16) :
    Reads readPeerInfo p.wire { p.info with score := p.score % 2 ^ 32 } := by
  obtain ⟨hlow, hhigh⟩ := hseen
  have hscore : (((p.score % 2 ^ 32).toNat : ℕ) : ℤ) = p.score % 2 ^ 32 := by omega
  have hsec : Int.bmod ((unix p.lastSeen % 2 ^ 64).toNat : ℕ) (2 ^ 64) = unix p.lastSeen := by
    rw [Int.bmod_def]
    omega
  unfold readPeerInfo Peer.wire
  rw [Nat.mod_eq_of_lt h]
  refine (Reads.readFixed _).bind ((Reads.readBE h).bind ((Reads.readFull _).bind
    ((Reads.readBE (by omega)).bind ((Reads.readBE (by omega)).bind_pure ?_))))
  rw [hscore, hsec]
  exact Reads.pure _

theorem length_of_readPeerInfo {rest r : Bytes} {info : PeerInfo}
    (h : readPeerInfo (p.wire ++ rest) = .ok info r) :
    info.address.length = p.address.length % 2 ^ 16 := by
  have hlen : p.address.length % 2 ^ 16 < 256 ^ 2 := by omega
  unfold readPeerInfo Peer.wire at h
  simp only [List.append_assoc] at h
  rw [bind_eq_ok_of (Reads.readFixed p.id _), bind_eq_ok_of (Reads.readBE hlen _)] at h
  obtain ⟨address, _, hread, h⟩ := bind_eq_ok.1 h
  obtain ⟨_, _, -, h⟩ := bind_eq_ok.1 h
  obtain ⟨_, _, -, h⟩ := bind_eq_ok.1 h
  obtain ⟨rfl, -⟩ := pure_eq_ok.1 h
  exact (readFull_eq_ok.1 hread).1

theorem readPeerInfos_flatMap_iff (hseen : ∀ p ∈ peers, Representable p.lastSeen) (n : ℕ) :
    readPeerInfos n (peers.flatMap Peer.wire) = peers.map Peer.info ↔
      (peers.length ≤ n ∧ ∀ p ∈ peers, p.Exchangeable) := by
  induction peers generalizing n with
  | nil => cases n <;> simp [readPeerInfos, readPeerInfo, readFixed, readFull, bind, EStateM.bind]
  | cons p rest ih =>
    cases n with
    | zero => simp [readPeerInfos]
    | succ n =>
      rw [List.flatMap_cons, readPeerInfos, List.map_cons, List.forall_mem_cons]
      by_cases haddr : p.address.length < 2 ^ 16
      · rw [reads_wire (hseen p List.mem_cons_self) haddr]
        simp only [List.cons.injEq, ih fun q hq => hseen q (List.mem_cons_of_mem _ hq)]
        have hscore : ({ p.info with score := p.score % 2 ^ 32 } : PeerInfo) = p.info ↔
            p.Exchangeable := by
          simp [Peer.info, Peer.Exchangeable]
          omega
        rw [hscore, List.length_cons]
        simp
        tauto
      · refine iff_of_false ?_ fun h => haddr h.2.1.1
        cases hread : readPeerInfo (p.wire ++ rest.flatMap Peer.wire) with
        | error e r => simp
        | ok info r =>
          intro h
          have hlen := length_of_readPeerInfo hread
          rw [(List.cons.inj h).1, Peer.info] at hlen
          dsimp only at hlen
          omega

theorem parsePeerInfo_serializePeerInfo_iff (hseen : ∀ p ∈ peers, Representable p.lastSeen) :
    parsePeerInfo (serializePeerInfo peers) = peers.map Peer.info ↔
      (peers.length < 2 ^ 16 ∧ ∀ p ∈ peers, p.Exchangeable) := by
  have hcount : peers.length % 2 ^ 16 < 256 ^ 2 := by omega
  rw [parsePeerInfo, serializePeerInfo, Reads.readBE hcount, readPeerInfos_flatMap_iff hseen]
  refine and_congr_left fun _ => ?_
  omega

namespace PeerManager

theorem bounded_run_iff {pm : PeerManager} (hpm : Bounded pm) {calls : List (Time × Call)}
    (hseverity : ∀ c ∈ calls, ∀ id severity, c.2 = .reportFailure id severity → 0 ≤ severity) :
    (∀ pre post, calls = pre ++ post → Bounded (after step pm pre)) ↔
      Runs (fun call => call.2.Moderate call.1) step pm calls :=
  forall_after_iff (fun _ => True) Bounded (fun _ _ _ _ => trivial)
    (fun c hc _ _ h => c.2.bounded_run_iff h (hseverity c hc)) trivial hpm

/-- When scores stay in bounds and messages carry over what they are to say. -/
theorem scores_and_exchange_iff (pm : PeerManager) (hpm : Bounded pm) (events : List (Time × Event))
    (hseverity : ∀ c ∈ callsOf events, ∀ id severity, c.2 = .reportFailure id severity →
      0 ≤ severity) (peers : List Peer) (hseen : ∀ p ∈ peers, Representable p.lastSeen) :
    ((∀ pre post, callsOf events = pre ++ post → Bounded (after step pm pre)) ∧
      parsePeerInfo (serializePeerInfo peers) = peers.map Peer.info) ↔
    Runs (fun call => call.2.Moderate call.1) step pm (callsOf events) ∧
      peers.length < 2 ^ 16 ∧ ∀ p ∈ peers, p.Exchangeable :=
  and_congr (bounded_run_iff hpm hseverity) (parsePeerInfo_serializePeerInfo_iff hseen)

/-- A peer that is praised too much. -/
def praised : Peer := { id := FixedBytes.zero 32, address := [], lastSeen := 0, score := 101 }

theorem praised_out_of_bounds : ¬ ∀ (pm : PeerManager) (events : List (Time × Event)),
    Bounded pm → (∀ c ∈ callsOf events, ∀ id severity, c.2 = .reportFailure id severity →
      0 ≤ severity) →
    ∀ pre post, callsOf events = pre ++ post → Bounded (after step pm pre) := by
  intro h
  have hempty : Bounded ⟨∅, ∅⟩ := by simp [Bounded]
  have hseen : ∀ p ∈ [praised], Representable p.lastSeen := by
    simp [Representable, praised, unix]
  have hparse : parsePeerInfo (serializePeerInfo [praised]) = [praised.info] :=
    (parsePeerInfo_serializePeerInfo_iff hseen).2 (by simp [Peer.Exchangeable, praised])
  have hcalls : callsOf [(0, .peerExchange (FixedBytes.zero 32) (serializePeerInfo [praised]))] =
      [(0, .learn praised.info)] := by
    simp [callsOf, Event.calls, handlePeerExchange, hparse]
  have hafter := h ⟨∅, ∅⟩ _ hempty (by simp [hcalls]) [(0, .learn praised.info)] [] hcalls
  have := hafter praised.id { praised with lastSeen := praised.info.lastSeen }
    (by simp [after, step, Call.run, addPeer, get_update, Peer.info, resolve, praised])
  exact absurd this.2 (by simp [praised])

theorem scores_and_exchange_of_reports :
    let events : List (Time × Event) := [(0, .call (.addPeer praised.id [])),
      (1, .call (.reportFailure praised.id 130)), (2, .call (.reportSuccess praised.id 1))]
    (∀ pre post, callsOf events = pre ++ post → Bounded (after step ⟨∅, ∅⟩ pre)) ∧
      parsePeerInfo (serializePeerInfo [praised]) = [praised].map Peer.info :=
  (scores_and_exchange_iff ⟨∅, ∅⟩ (by simp [Bounded]) _ (by simp [callsOf, Event.calls]) [praised]
    (by simp [Representable, praised, unix])).2
    ⟨⟨trivial, trivial, trivial, trivial⟩, by simp [Peer.Exchangeable, praised]⟩

end PeerManager

end Dsn
