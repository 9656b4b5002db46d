import Dsn.Go.Map
import Dsn.Go.Reader
import Dsn.Lib.Guarded
import Dsn.Network.Message
import Dsn.Types.Basic

/-!
# `network/peer.go`: the peer manager

A ban ends when its time comes, but also with a new connection, a disconnect or a shorter ban.
-/

namespace Dsn

open Go Guarded

abbrev PeerID := FixedBytes 32

inductive PeerState
  | disconnected | connecting | connected | banned
  deriving DecidableEq

abbrev Time := ℤ

def unix (t : Time) : ℤ := t / 10 ^ 9 - 62135596800

def unixTime (sec : ℤ) : Time := (sec + 62135596800) * 10 ^ 9

structure Peer where
  id : PeerID
  address : Bytes
  lastSeen : Time
  state : PeerState := .disconnected
  score : ℤ := 0
  latency : ℤ := 0
  syncHeight : UInt64 := 0
  messageCount : UInt64 := 0
  failCount : UInt64 := 0
  connectedSince : Time := 0
  banExpiry : Time := 0
  lastBlockSuccess : Time := 0
  blockSuccesses : ℤ := 0

def banTime : ℤ := 5 * 60 * 10 ^ 9

def day : ℤ := 24 * 60 * 60 * 10 ^ 9

namespace Peer

def reportSuccess (now : Time) (msgType : UInt8) (p : Peer) : Peer :=
  let p := { p with messageCount := p.messageCount + 1 }
  let p := if now - p.lastBlockSuccess > day then
    { p with blockSuccesses := 0, lastBlockSuccess := now } else p
  let p := if msgType = msgTypeBlock then
      if p.blockSuccesses < 10 then
        { p with score := p.score + 1, blockSuccesses := p.blockSuccesses + 1 } else p
    else if msgType = msgTypeSnapshotChunk then { p with score := p.score + 2 }
    else if msgType = msgTypePeerExchange then { p with score := p.score + 1 } else p
  { p with score := min p.score 100, lastSeen := now }

def reportFailure (now : Time) (severity : ℤ) (p : Peer) : Peer :=
  let p := { p with failCount := p.failCount + 1, score := max (p.score - severity) (-100) }
  let p := if p.score < -20 then { p with state := .banned, banExpiry := now + banTime } else p
  { p with lastSeen := now }

def updateScore (now : Time) (delta : ℤ) (p : Peer) : Peer :=
  let p := { p with score := max (min (p.score + delta) 100) (-100) }
  if p.score < -20 ∧ p.state ≠ .banned then
    { p with state := .banned, banExpiry := now + banTime } else p

def ban (now : Time) (duration : ℤ) (p : Peer) : Peer :=
  { p with state := .banned, banExpiry := now + duration }

def connect (now : Time) (dialed : Bool) (p : Peer) : Peer :=
  if dialed then { p with state := .connected, connectedSince := now, lastSeen := now }
  else { p with state := .disconnected }

def disconnect (p : Peer) : Peer := { p with state := .disconnected }

def cleanup (now : Time) (p : Peer) : Peer :=
  if p.state = .banned ∧ p.banExpiry ≠ 0 ∧ now > p.banExpiry then
    { p with state := .disconnected, banExpiry := 0 } else p

end Peer

/-- An entry of a peer exchange message. -/
structure PeerInfo where
  id : PeerID
  address : Bytes
  score : ℤ
  lastSeen : Time

def readPeerInfo : Reader PeerInfo := do
  let id ← readFixed 32
  let address ← readFull (← readBE 2)
  let score ← readBE 4
  let seen ← readBE 8
  return ⟨id, address, score, unixTime (Int.bmod seen (2 ^ 64))⟩

def readPeerInfos : ℕ → Bytes → List PeerInfo
  | 0, _ => []
  | n + 1, data =>
    match readPeerInfo data with
    | .ok info rest => info :: readPeerInfos n rest
    | .error _ _ => []

def parsePeerInfo (data : Bytes) : List PeerInfo :=
  match readBE 2 data with
  | .ok count rest => readPeerInfos count rest
  | .error _ _ => []

structure PeerManager where
  peers : Map PeerID Peer
  peersByAddr : Map Bytes PeerID

namespace PeerManager

def update (id : PeerID) (f : Peer → Peer) (pm : PeerManager) : PeerManager :=
  match pm.peers[id]? with
  | some p => { pm with peers := pm.peers.insert id (f p) }
  | none => pm

/-- The peer that `AddPeer` returns. -/
def resolve (id : PeerID) (addr : Bytes) (pm : PeerManager) : PeerID :=
  if id ∈ pm.peers then id else (pm.peersByAddr[addr]?).getD id

def addPeer (now : Time) (id : PeerID) (addr : Bytes) (pm : PeerManager) : PeerManager :=
  if id ∈ pm.peers ∨ addr ∈ pm.peersByAddr then pm
  else ⟨pm.peers.insert id { id, address := addr, lastSeen := now }, pm.peersByAddr.insert addr id⟩

def removePeer (id : PeerID) (pm : PeerManager) : PeerManager :=
  match pm.peers[id]? with
  | some p => ⟨pm.peers.erase id, pm.peersByAddr.erase p.address⟩
  | none => pm

inductive Call
  | addPeer (id : PeerID) (addr : Bytes)
  | removePeer (id : PeerID)
  | reportSuccess (id : PeerID) (msgType : UInt8)
  | reportFailure (id : PeerID) (severity : ℤ)
  | updateScore (id : PeerID) (delta : ℤ)
  | ban (id : PeerID) (duration : ℤ)
  | connect (id : PeerID) (addr : Bytes) (dialed : Bool)
  | disconnect (id : PeerID)
  | cleanupExpiredBans
  | learn (info : PeerInfo)

def Call.run (now : Time) : Call → PeerManager → PeerManager
  | .addPeer id addr, pm => pm.addPeer now id addr
  | .removePeer id, pm => pm.removePeer id
  | .reportSuccess id msgType, pm => pm.update id (Peer.reportSuccess now msgType)
  | .reportFailure id severity, pm => pm.update id (Peer.reportFailure now severity)
  | .updateScore id delta, pm => pm.update id (Peer.updateScore now delta)
  | .ban id duration, pm => pm.update id (Peer.ban now duration)
  | .connect id addr dialed, pm =>
    (pm.addPeer now id addr).update (pm.resolve id addr) (Peer.connect now dialed)
  | .disconnect id, pm => pm.update id Peer.disconnect
  | .cleanupExpiredBans, pm => { pm with peers := pm.peers.map fun _ => Peer.cleanup now }
  | .learn info, pm => (pm.addPeer now info.id info.address).update
    (pm.resolve info.id info.address) fun p =>
      { p with score := info.score, lastSeen := info.lastSeen }

def handlePeerExchange (peerID : PeerID) (payload : Bytes) : List Call :=
  match parsePeerInfo payload with
  | [] => [.reportFailure peerID 2]
  | infos => infos.map .learn

/-- A call, or a message of another peer. -/
inductive Event
  | call (c : Call)
  | peerExchange (peerID : PeerID) (payload : Bytes)

def Event.calls : Event → List Call
  | .call c => [c]
  | .peerExchange peerID payload => handlePeerExchange peerID payload

def callsOf (events : List (Time × Event)) : List (Time × Call) :=
  events.flatMap fun e => e.2.calls.map (e.1, ·)

def step (call : Time × Call) (pm : PeerManager) : PeerManager := call.2.run call.1 pm

/-! ### Bans -/

def BanHolds (t : Time) (id : PeerID) (pm : PeerManager) : Prop :=
  ∃ p, pm.peers[id]? = some p ∧ p.state = .banned ∧ t ≤ p.banExpiry

def BansHold (pm : PeerManager) (events : List (Time × Event)) : Prop :=
  ∀ pre mid post id t, callsOf events = pre ++ mid ++ post → BanHolds t id (after step pm pre) →
    (∀ c ∈ mid, c.1 ≤ t ∧ c.2 ≠ .removePeer id) → BanHolds t id (after step pm (pre ++ mid))

/-- The call does not end or shorten a ban. -/
def Call.Spares (now : Time) : Call → PeerManager → Prop
  | .reportFailure id severity, pm => ∀ p, pm.peers[id]? = some p → p.state = .banned →
    now ≤ p.banExpiry → p.score - severity < -20 → p.banExpiry ≤ now + banTime
  | .ban id duration, pm => ∀ p, pm.peers[id]? = some p → p.state = .banned →
    now ≤ p.banExpiry → p.banExpiry ≤ now + duration
  | .connect id addr _, pm => ¬ BanHolds now (pm.resolve id addr) pm
  | .disconnect id, pm => ¬ BanHolds now id pm
  | _, _ => True

variable {pm : PeerManager} {id a : PeerID} {f : Peer → Peer} {now t : Time} {addr : Bytes}

theorem get_update (id a : PeerID) (f : Peer → Peer) (pm : PeerManager) :
    (pm.update id f).peers[a]? = if id = a then (pm.peers[a]?).map f else pm.peers[a]? := by
  unfold update
  split_ifs with h
  · subst h
    cases hp : pm.peers[id]? <;> simp [hp]
  · cases pm.peers[id]? with
    | none => rfl
    | some p => exact Map.get_insert_of_ne _ h _

theorem banHolds_update_iff : (∀ a t, BanHolds t a pm → now ≤ t → BanHolds t a (pm.update id f)) ↔
    ∀ p, pm.peers[id]? = some p → p.state = .banned → now ≤ p.banExpiry →
      (f p).state = .banned ∧ p.banExpiry ≤ (f p).banExpiry := by
  simp only [BanHolds, get_update]
  constructor
  · intro h p hp hban hnow
    simpa [hp] using h id _ ⟨p, hp, hban, le_rfl⟩ hnow
  · rintro h a t ⟨p, hp, hban, ht⟩ hnow
    split_ifs with ha
    · subst ha
      obtain ⟨hban', hle⟩ := h p hp hban (hnow.trans ht)
      exact ⟨f p, by simp [hp], hban', ht.trans hle⟩
    · exact ⟨p, hp, hban, ht⟩

theorem banHolds_addPeer_iff : BanHolds t a (pm.addPeer now id addr) ↔ BanHolds t a pm := by
  unfold addPeer
  split_ifs with h
  · rfl
  · have hnew : pm.peers[id]? = none := Std.ExtTreeMap.getElem?_eq_none (not_or.1 h).1
    simp only [BanHolds, Map.get_insert]
    split_ifs with ha
    · subst ha
      simp [hnew]
    · rfl

theorem not_banHolds_iff : ¬ BanHolds t id pm ↔
    ∀ p, pm.peers[id]? = some p → p.state = .banned → ¬ t ≤ p.banExpiry := by
  simp [BanHolds]

/-- What an update of one peer has to keep, where registering it touched no ban. -/
theorem spares_update_iff {call : Call} {pm' : PeerManager} (hne : ∀ a, call ≠ .removePeer a)
    (hsame : ∀ t a, BanHolds t a pm' ↔ BanHolds t a pm)
    (hrun : call.run now pm = pm'.update id f) :
    (∀ a t, call ≠ .removePeer a → BanHolds t a pm → now ≤ t → BanHolds t a (call.run now pm)) ↔
      ∀ p, pm'.peers[id]? = some p → p.state = .banned → now ≤ p.banExpiry →
        (f p).state = .banned ∧ p.banExpiry ≤ (f p).banExpiry := by
  rw [hrun, ← banHolds_update_iff]
  refine forall₂_congr fun a t => ?_
  rw [hsame]
  exact ⟨fun h => h (hne a), fun h _ => h⟩

theorem not_banHolds_iff_of_lifts (hlifts : ∀ p, (f p).state ≠ .banned) : ¬ BanHolds now id pm ↔
    ∀ p, pm.peers[id]? = some p → p.state = .banned → now ≤ p.banExpiry →
      (f p).state = .banned ∧ p.banExpiry ≤ (f p).banExpiry := by
  rw [not_banHolds_iff]
  refine forall₃_congr fun p _ _ => ⟨fun h hnow => absurd hnow h, fun h hnow => ?_⟩
  exact hlifts p (h hnow).1

theorem Call.spares_iff (call : Call) (pm : PeerManager) : call.Spares now pm ↔
    ∀ a t, call ≠ .removePeer a → BanHolds t a pm → now ≤ t → BanHolds t a (call.run now pm) := by
  cases call with
  | addPeer id addr => exact iff_of_true trivial fun a t _ h _ => banHolds_addPeer_iff.2 h
  | removePeer id =>
    refine iff_of_true trivial fun a t hne h _ => ?_
    have ha : id ≠ a := fun ha => hne (by rw [ha])
    rw [run, PeerManager.removePeer]
    cases pm.peers[id]? with
    | none => exact h
    | some p => simpa only [BanHolds, Map.get_erase_of_ne _ ha] using h
  | cleanupExpiredBans =>
    refine iff_of_true trivial fun a t _ ⟨p, hp, hban, ht⟩ hnow => ?_
    have hkeep : p.cleanup now = p := if_neg fun h => absurd h.2.2 (not_lt.2 (hnow.trans ht))
    exact ⟨p, by simp [run, hp, hkeep], hban, ht⟩
  | connect id addr dialed =>
    have hnever (p : Peer) : (p.connect now dialed).state ≠ .banned := by
      cases dialed <;> simp [Peer.connect]
    rw [spares_update_iff (by simp) (fun _ _ => banHolds_addPeer_iff) rfl,
      ← not_banHolds_iff_of_lifts hnever, banHolds_addPeer_iff]
    rfl
  | learn info =>
    rw [spares_update_iff (by simp) (fun _ _ => banHolds_addPeer_iff) rfl]
    exact iff_of_true trivial fun p _ hban _ => ⟨hban, le_rfl⟩
  | reportSuccess id msgType =>
    have hkeep (p : Peer) : (p.reportSuccess now msgType).state = p.state ∧
        (p.reportSuccess now msgType).banExpiry = p.banExpiry := by
      simp only [Peer.reportSuccess]
      split_ifs <;> exact ⟨rfl, rfl⟩
    rw [spares_update_iff (by simp) (fun _ _ => Iff.rfl) rfl]
    refine iff_of_true trivial fun p _ hban _ => ?_
    rw [(hkeep p).1, (hkeep p).2]
    exact ⟨hban, le_rfl⟩
  | reportFailure id severity =>
    rw [spares_update_iff (by simp) (fun _ _ => Iff.rfl) rfl]
    refine forall₄_congr fun p _ hban _ => ?_
    simp only [Peer.reportFailure]
    split_ifs with hlow
    · exact ⟨fun h => ⟨rfl, h (by omega)⟩, fun h _ => h.2⟩
    · exact ⟨fun _ => ⟨hban, le_rfl⟩, fun _ h => by omega⟩
  | updateScore id delta =>
    rw [spares_update_iff (by simp) (fun _ _ => Iff.rfl) rfl]
    refine iff_of_true trivial fun p _ hban _ => ?_
    -- a peer that is banned already is not banned again
    have hagain : ∀ c : Prop, ¬ (c ∧ p.state ≠ .banned) := fun c h => h.2 hban
    simp only [Peer.updateScore, if_neg (hagain _)]
    exact ⟨hban, le_rfl⟩
  | ban id duration =>
    rw [spares_update_iff (by simp) (fun _ _ => Iff.rfl) rfl]
    exact forall₄_congr fun p _ _ _ => ⟨fun h => ⟨rfl, h⟩, fun h => h.2⟩
  | disconnect id =>
    have hnever (p : Peer) : p.disconnect.state ≠ .banned := by simp [Peer.disconnect]
    rw [spares_update_iff (by simp) (fun _ _ => Iff.rfl) rfl, ← not_banHolds_iff_of_lifts hnever]
    rfl

/-- Bans hold exactly if every call spares them. -/
theorem bans_hold_iff (pm : PeerManager) (events : List (Time × Event)) :
    BansHold pm events ↔ Runs (fun call => call.2.Spares call.1) step pm (callsOf events) := by
  unfold BansHold
  generalize callsOf events = calls
  rw [runs_iff]
  constructor
  · intro h pre c post hcalls
    refine (c.2.spares_iff _).2 fun a t hne hban hnow => ?_
    have := h pre [c] post a t (by simp [hcalls]) hban (by simpa using ⟨hnow, hne⟩)
    rwa [after, List.foldl_append] at this
  · intro h pre mid post id t hcalls hban hmid
    induction mid generalizing pre with
    | nil => simpa using hban
    | cons c mid ih =>
      obtain ⟨hnow, hne⟩ := hmid c List.mem_cons_self
      have hstep := (c.2.spares_iff _).1 (h pre c (mid ++ post) (by simp [hcalls])) id t hne hban
        hnow
      have := ih (pre ++ [c]) (by simp [hcalls]) (by rwa [after, List.foldl_append]) fun d hd =>
        hmid d (List.mem_cons_of_mem _ hd)
      simpa using this

theorem banned_peer_disconnected : ¬ ∀ events, BansHold ⟨∅, ∅⟩ events := by
  intro h
  let id : PeerID := FixedBytes.zero 32
  have hafter := h [(0, .call (.addPeer id [])), (0, .call (.ban id 10)),
    (1, .call (.disconnect id))]
    [(0, .addPeer id []), (0, .ban id 10)] [(1, .disconnect id)] [] id 10 rfl
    ⟨_, by simp [after, step, Call.run, addPeer, get_update]; rfl, rfl, le_rfl⟩ (by simp)
  simp [after, step, Call.run, get_update, BanHolds, Peer.disconnect] at hafter

end PeerManager

end Dsn
