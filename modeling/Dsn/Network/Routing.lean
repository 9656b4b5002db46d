import Dsn.Consensus.Canonical
import Dsn.Network.Framing

/-!
# Where messages go

The receiver tells messages apart by their first byte, which the senders do not agree on.
-/

namespace Dsn

open Go

/-! ### Receiving -/

inductive Route
  | snapshot (msgType : UInt8) (msgData : Bytes)
  | block (msgBuf : Bytes)
  | transaction (data : Bytes)
  | unhandled (msgType : UInt8)
  | empty

def route : Bytes → Route
  | [] => .empty
  | msgType :: msgData =>
    if msgTypeSnapshotQuery ≤ msgType ∧ msgType ≤ msgTypeSnapshotChunk then
      .snapshot msgType msgData
    else if msgType = msgTypeBlock then .block (msgType :: msgData)
    else if msgType = msgTypeTransaction then .transaction msgData
    else if isKnownType msgType then .unhandled msgType
    else .transaction (msgType :: msgData)

def handleTransaction (data : Bytes) : Except Error Transaction :=
  decodeFrom Transaction.decode data

def handleConnection (socket : Socket) : List Route := (received (.new socket)).map route

/-! ### Sending -/

def encodeTransaction (tx : Transaction) : Except Error Bytes :=
  match tx.encode [] with
  | .ok _ buf => .ok buf
  | .error e _ => .error e

inductive Sending
  | gossipTransaction (tx : Transaction)
  | broadcastBlock (block : Block)
  | engineBlock (data : Bytes)
  | engineTransaction (data : Bytes)
  | sendTo (msgType : UInt8) (payload : Bytes)

namespace Sending

def message : Sending → Except Error Bytes
  | gossipTransaction tx => encodeTransaction tx
  | broadcastBlock block => encodeBlockMessage block
  | engineBlock data => .ok (frameMessage msgTypeBlock data)
  | engineTransaction data => .ok (frameMessage msgTypeTransaction data)
  | sendTo msgType payload => .ok (frameMessage msgType payload)

def payload (message : Bytes) : Sending → Bytes
  | gossipTransaction _ => message
  | broadcastBlock _ => message
  | engineBlock data => data
  | engineTransaction data => data
  | sendTo _ payload => payload

def typed (msgType : UInt8) (payload : Bytes) : Route :=
  if msgTypeSnapshotQuery ≤ msgType ∧ msgType ≤ msgTypeSnapshotChunk then .snapshot msgType payload
  else if msgType = msgTypeBlock then .block payload
  else if msgType = msgTypeTransaction then .transaction payload
  else .unhandled msgType

/-- The receiver's handler is given what was sent. -/
def Arrives (message : Bytes) (routes : List Route) : Sending → Prop
  | gossipTransaction tx => routes = [.transaction message] ∧ handleTransaction message = .ok tx
  | broadcastBlock _ => routes = [.block message]
  | engineBlock data => routes = [.block data]
  | engineTransaction data => routes = [.transaction data]
  | sendTo msgType payload => routes = [typed msgType payload]

def Routable : Sending → Prop
  | gossipTransaction tx => isKnownType (UInt8.ofNat (tx.version.toNat / 256)) = false
  | broadcastBlock _ => True
  | engineBlock _ => False
  | engineTransaction _ => False
  | sendTo _ _ => False

end Sending

/-! ### First bytes -/

theorem isKnownType_of_snapshot {x : UInt8} (hge : msgTypeSnapshotQuery ≤ x)
    (hle : x ≤ msgTypeSnapshotChunk) : isKnownType x = true := by
  rw [UInt8.le_iff_toNat_le] at hge hle
  simp only [msgTypeSnapshotQuery, msgTypeSnapshotChunk, UInt8.reduceToNat] at hge hle
  have hcases : x.toNat = 16 ∨ x.toNat = 17 ∨ x.toNat = 18 ∨ x.toNat = 19 := by omega
  rcases hcases with h | h | h | h
  · rw [show x = msgTypeSnapshotQuery from UInt8.toNat_inj.1 h]
    rfl
  · rw [show x = msgTypeSnapshotInfo from UInt8.toNat_inj.1 h]
    rfl
  · rw [show x = msgTypeSnapshotRequest from UInt8.toNat_inj.1 h]
    rfl
  · rw [show x = msgTypeSnapshotChunk from UInt8.toNat_inj.1 h]
    rfl

theorem route_old_iff {x : UInt8} {rest : Bytes} :
    route (x :: rest) = .transaction (x :: rest) ↔ isKnownType x = false := by
  rw [route]
  constructor
  · intro h
    split_ifs at h with hsnapshot hblock htx hknown
    · have hlength := congrArg List.length (Route.transaction.inj h)
      simp at hlength
    · simpa using hknown
  · intro hunknown
    have hne (t : UInt8) (ht : isKnownType t = true) : x ≠ t := by
      rintro rfl
      cases ht.symm.trans hunknown
    rw [if_neg fun h => hne x (isKnownType_of_snapshot h.1 h.2) rfl, if_neg (hne _ rfl),
      if_neg (hne _ rfl), if_neg (by simp [hunknown])]

theorem route_frameMessage {msgType : UInt8} {payload : Bytes}
    (hsize : payload.length ≤ maxPayloadSize) :
    route (frameMessage msgType payload) = .transaction (frameMessage msgType payload) := by
  have hzero : UInt8.ofNat ((1 + payload.length) / 256 / 256 / 256) = 0 := by
    have hsmall : (1 + payload.length) / 256 / 256 / 256 = 0 := by
      unfold maxPayloadSize at hsize
      omega
    rw [hsmall]
    rfl
  refine route_old_iff.2 ?_
  rw [hzero]
  rfl

theorem length_frameMessage (msgType : UInt8) (payload : Bytes) :
    (frameMessage msgType payload).length = payload.length + 5 := by
  simp only [frameMessage, List.length_append, length_beBytes, List.length_cons]
  omega

theorem encodeTransaction_eq_ok {tx : Transaction} {data : Bytes}
    (h : encodeTransaction tx = .ok data) : handleTransaction data = .ok tx ∧
      ∃ rest, data = beBytes 2 tx.version.toNat ++ rest := by
  unfold encodeTransaction at h
  cases hencode : tx.encode [] with
  | error e buf =>
    rw [hencode] at h
    cases h
  | ok u buf =>
    rw [hencode] at h
    cases h
    obtain ⟨b, rfl, hreads⟩ := Transaction.transmits tx [] u data hencode
    refine ⟨decodeFrom_of_reads hreads, ?_⟩
    obtain ⟨version, rest, hversion, h⟩ := bind_eq_ok.1 (hreads [])
    iterate 11 obtain ⟨_, _, -, h⟩ := bind_eq_ok.1 h
    obtain ⟨rfl, -⟩ := pure_eq_ok.1 h
    refine ⟨rest, ?_⟩
    rw [List.append_nil] at hversion
    exact readUint16_eq_ok hversion

/-! ### Single messages -/

section

variable {socket : Socket} {m : Bytes} (hsocket : socket.bytes = lengthPrefixed m)
  (hwhole : Supply.serves [4, m.length] ⟨0, socket.map fun p => p.1.length⟩ = true)
include hsocket hwhole

theorem received_single (hm : m.length ≤ maxPayloadSize) : received (.new socket) = [m] := by
  refine received_of_serves (by simpa using hm) ?_ hwhole
  show socket.bytes = stream [m]
  rw [hsocket]
  simp [lengthPrefixed]

theorem received_long (hm : maxPayloadSize < m.length) (hcount : m.length < 256 ^ 4) :
    received (.new socket) = [] := by
  obtain ⟨got, r, hread, hlength, -⟩ :=
    (BufReader.serves_cons_iff (r := .new socket)).1 hwhole
  have hbytes : lengthPrefixed m = got ++ r.bytes :=
    hsocket.symm.trans (BufReader.read_eq_some hread).1
  obtain ⟨rfl, -⟩ := List.append_inj hbytes (by rw [length_beBytes, hlength])
  refine received_of_none ?_
  cases hnext : readMessage (.new socket) with
  | none => rfl
  | some p =>
    obtain ⟨lenGot, r1, msgGot, hlen, hmax, -⟩ := readMessage_eq_some.1 hnext
    cases hread.symm.trans hlen
    have hfilled := filled_length (beBytes 4 m.length)
    rw [hlength] at hfilled
    rw [hfilled, beNat_beBytes hcount] at hmax
    omega

theorem handleConnection_frame {msgType : UInt8} {payload : Bytes}
    (hm : m = frameMessage msgType payload) (hsize : payload.length ≤ maxPayloadSize) :
    handleConnection socket = [.transaction m] ∨ handleConnection socket = [] := by
  have hlength := length_frameMessage msgType payload
  rw [← hm] at hlength
  unfold handleConnection
  by_cases hle : m.length ≤ maxPayloadSize
  · rw [received_single hsocket hwhole hle, List.map_singleton, hm, route_frameMessage hsize]
    exact .inl rfl
  · refine .inr ?_
    unfold maxPayloadSize at hsize
    rw [received_long hsocket hwhole (Nat.lt_of_not_le hle) (by omega)]
    rfl

/-- Which messages come to the handler that their sender meant. -/
theorem arrives_iff {s : Sending} (hm : s.message = .ok m)
    (hsize : (s.payload m).length ≤ maxPayloadSize) :
    s.Arrives m (handleConnection socket) ↔ s.Routable := by
  -- a frame is longer than its payload
  have hframe {msgType : UInt8} {payload : Bytes} {r : Route}
      (hm : m = frameMessage msgType payload) (hsize : payload.length ≤ maxPayloadSize)
      (hr : ∀ data, r = .transaction data → data = payload) : handleConnection socket ≠ [r] := by
    intro h
    rcases handleConnection_frame hsocket hwhole hm hsize with h' | h'
    · have hlength := congrArg List.length (hr m (List.cons.inj (h.symm.trans h')).1)
      rw [hm, length_frameMessage] at hlength
      omega
    · cases h.symm.trans h'
  cases s with
  | gossipTransaction tx =>
    obtain ⟨hdecode, rest, hrest⟩ := encodeTransaction_eq_ok hm
    have hfirst : m = UInt8.ofNat (tx.version.toNat / 256) ::
        (UInt8.ofNat tx.version.toNat :: rest) := hrest
    unfold handleConnection
    rw [received_single hsocket hwhole hsize]
    simp only [Sending.Arrives, hdecode, and_true, List.map_singleton, List.cons.injEq]
    rw [hfirst]
    exact route_old_iff
  | broadcastBlock block =>
    obtain ⟨buf, -, rfl⟩ := encodeBlockMessage_eq_ok.1 hm
    unfold handleConnection
    rw [received_single hsocket hwhole hsize]
    exact iff_of_true rfl trivial
  | engineBlock data =>
    refine iff_of_false (hframe (Except.ok.inj hm).symm hsize fun _ h => ?_) id
    cases h
  | engineTransaction data =>
    refine iff_of_false (hframe (Except.ok.inj hm).symm hsize fun _ h => ?_) id
    exact (Route.transaction.inj h).symm
  | sendTo msgType payload =>
    refine iff_of_false (hframe (Except.ok.inj hm).symm hsize fun _ h => ?_) id
    unfold Sending.typed at h
    split_ifs at h
    exact (Route.transaction.inj h).symm

end

/-! ### Two messages -/

theorem engine_block_lost : ¬ ∀ (s : Sending) (m : Bytes) (socket : Socket),
    s.message = .ok m → (s.payload m).length ≤ maxPayloadSize →
    socket.bytes = lengthPrefixed m →
    Supply.serves [4, m.length] ⟨0, socket.map fun p => p.1.length⟩ = true →
      s.Arrives m (handleConnection socket) := by
  intro h
  let socket : Socket := [⟨lengthPrefixed (frameMessage msgTypeBlock []), by decide⟩]
  have hbytes : socket.bytes = lengthPrefixed (frameMessage msgTypeBlock []) := rfl
  have hwhole : Supply.serves [4, 5] ⟨0, socket.map fun p => p.1.length⟩ = true := by decide
  have harrives := h (.engineBlock []) _ socket rfl (by decide) hbytes hwhole
  rcases handleConnection_frame hbytes hwhole rfl (by decide) with hroute | hroute <;>
    cases hroute.symm.trans harrives

def plainTransaction : Transaction :=
  ⟨1, 0, zeroHash, zeroAddress, 1, [], [], 1, 0, 0, [], txTypeStandard⟩

theorem plain_transaction_arrives :
    (Sending.gossipTransaction plainTransaction).Arrives (written plainTransaction.encode)
      (handleConnection [⟨lengthPrefixed (written plainTransaction.encode), by decide⟩]) :=
  (arrives_iff (by simp) (by decide) (by decide +kernel) (by decide)).2
    (show isKnownType 0 = false by decide)

end Dsn
