import Dsn.Go.Exec

/-!
# `network/message.go`: typed messages

A length, a type and a payload. The parser panics on the length zero.
-/

namespace Dsn

open Go

def msgTypeBlock : UInt8 := 0x01
def msgTypeTransaction : UInt8 := 0x02
def msgTypeSnapshotQuery : UInt8 := 0x10
def msgTypeSnapshotInfo : UInt8 := 0x11
def msgTypeSnapshotRequest : UInt8 := 0x12
def msgTypeSnapshotChunk : UInt8 := 0x13
def msgTypePeerExchange : UInt8 := 0x20
def msgTypeBlockRangeRequest : UInt8 := 0x30
def msgTypeBlockRangeResponse : UInt8 := 0x31
def msgTypePing : UInt8 := 0x40
def msgTypePong : UInt8 := 0x41

def maxPayloadSize : ℕ := 1 * 1024 * 1024

def maxBlocksPerRangeResponse : ℕ := 100

def errUnknownMessageType : Error := .new "unknown message type"
def errNetworkPayloadTooLarge : Error := .new "payload exceeds maximum size for message type"

def knownMessageTypes : List UInt8 :=
  [msgTypeBlock, msgTypeTransaction, msgTypeSnapshotQuery, msgTypeSnapshotInfo,
    msgTypeSnapshotRequest, msgTypeSnapshotChunk, msgTypePeerExchange, msgTypeBlockRangeRequest,
    msgTypeBlockRangeResponse, msgTypePing, msgTypePong]

def isKnownType (msgType : UInt8) : Bool := msgType ∈ knownMessageTypes

def frameMessage (msgType : UInt8) (payload : Bytes) : Bytes :=
  beBytes 4 (1 + payload.length) ++ msgType :: payload

def parseMessage (data : Bytes) : Except Error (UInt8 × Bytes) := do
  check (data.length < 5)
    (.new "message too short: need at least 5 bytes for length prefix + type")
  let msgLen := beNat (data.take 4)
  check (msgLen > maxPayloadSize) errNetworkPayloadTooLarge
  check (data.length < 4 + msgLen)
    (.new "message truncated: declared length exceeds available data")
  let msgType := data.getD 4 0
  check (isKnownType msgType = false) errUnknownMessageType
  -- a declared length of zero makes the slice of the payload end before it begins
  if 4 + msgLen < 5 then .error (.panic "slice bounds out of range")
  else return (msgType, (data.take (4 + msgLen)).drop 5)

variable {msgType : UInt8} {payload data : Bytes}

theorem parseMessage_eq_ok : parseMessage data = .ok (msgType, payload) ↔
    5 ≤ data.length ∧ beNat (data.take 4) ≤ maxPayloadSize ∧
      4 + beNat (data.take 4) ≤ data.length ∧ isKnownType (data.getD 4 0) = true ∧
      0 < beNat (data.take 4) ∧ data.getD 4 0 = msgType ∧
      (data.take (4 + beNat (data.take 4))).drop 5 = payload := by
  unfold parseMessage
  simp only [except_bind_eq_ok, check_eq_ok, not_lt, exists_const]
  split_ifs with hzero
  · simp only [and_false, false_iff]
    omega
  · simp [pure, Except.pure, show 0 < beNat (data.take 4) by omega]

theorem parseMessage_panics_iff : (∃ e, parseMessage data = .error e ∧ e.isPanic = true) ↔
    5 ≤ data.length ∧ beNat (data.take 4) = 0 ∧ isKnownType (data.getD 4 0) = true := by
  unfold parseMessage
  simp only [except_bind_eq_error, check_eq_error, check_eq_ok, exists_const, not_lt,
    Bool.not_eq_false]
  constructor
  · rintro ⟨e, h, he⟩
    rcases h with ⟨-, rfl⟩ | ⟨hlen, ⟨-, rfl⟩ | ⟨-, ⟨-, rfl⟩ | ⟨-, ⟨-, rfl⟩ | ⟨hknown, h⟩⟩⟩⟩
    iterate 4 cases he
    split_ifs at h with hzero
    · exact ⟨hlen, by omega, hknown⟩
    · cases h
  · rintro ⟨hlen, hzero, hknown⟩
    refine ⟨_, .inr ⟨hlen, .inr ⟨?_, .inr ⟨?_, .inr ⟨hknown, if_pos ?_⟩⟩⟩⟩, rfl⟩ <;>
      rw [hzero] <;> omega

theorem parseMessage_frameMessage_iff (hknown : isKnownType msgType = true)
    (hsize : payload.length ≤ maxPayloadSize) :
    parseMessage (frameMessage msgType payload) = .ok (msgType, payload) ↔
      payload.length < maxPayloadSize := by
  have hfour : (beBytes 4 (1 + payload.length)).length = 4 := length_beBytes _ _
  have hmax : maxPayloadSize + 1 < 256 ^ 4 := by decide
  have hlength : (frameMessage msgType payload).length = 5 + payload.length := by
    simp [frameMessage]
    omega
  have hcount : beNat ((frameMessage msgType payload).take 4) = 1 + payload.length := by
    unfold frameMessage
    rw [List.take_left' hfour, beNat_beBytes (by omega)]
  have htype : (frameMessage msgType payload).getD 4 0 = msgType := by
    rfl
  have hpayload : ((frameMessage msgType payload).take (5 + payload.length)).drop 5 = payload := by
    rw [← hlength, List.take_length, frameMessage, List.drop_append]
    simp
  rw [parseMessage_eq_ok, hcount, htype,
    show 4 + (1 + payload.length) = 5 + payload.length by omega, hpayload]
  constructor
  · rintro ⟨-, hle, -⟩
    omega
  · intro hlt
    exact ⟨by omega, by omega, by omega, hknown, by omega, rfl, rfl⟩

/-- Which messages get through, and which make the parser panic. -/
theorem framing_iff (hknown : isKnownType msgType = true)
    (hsize : payload.length ≤ maxPayloadSize) :
    (parseMessage (frameMessage msgType payload) = .ok (msgType, payload) ∧
      ((∃ t p, parseMessage data = .ok (t, p) ∧ isKnownType t = true) ∨
        ∃ e, parseMessage data = .error e ∧ e.isPanic = false)) ↔
      payload.length < maxPayloadSize ∧ ¬ (5 ≤ data.length ∧ beNat (data.take 4) = 0 ∧
        isKnownType (data.getD 4 0) = true) := by
  rw [parseMessage_frameMessage_iff hknown hsize, ← parseMessage_panics_iff]
  refine and_congr_right fun _ => ?_
  cases h : parseMessage data with
  | error e => simp
  | ok r =>
    obtain ⟨-, -, -, hr, -, htype, -⟩ := parseMessage_eq_ok.1 h
    exact iff_of_true (.inl ⟨r.1, r.2, rfl, htype ▸ hr⟩) (by simp)

theorem framing_of_transaction :
    parseMessage (frameMessage msgTypeTransaction [1, 2, 3]) = .ok (msgTypeTransaction, [1, 2, 3]) ∧
      ((∃ t p, parseMessage (frameMessage msgTypePong [4]) = .ok (t, p) ∧ isKnownType t = true) ∨
        ∃ e, parseMessage (frameMessage msgTypePong [4]) = .error e ∧ e.isPanic = false) :=
  (framing_iff (by decide) (by decide)).2 ⟨by decide, by decide⟩

theorem empty_message_panics : ¬ ∀ (msgType : UInt8) (payload data : Bytes),
    isKnownType msgType = true → payload.length ≤ maxPayloadSize →
      parseMessage (frameMessage msgType payload) = .ok (msgType, payload) ∧
        ((∃ t p, parseMessage data = .ok (t, p) ∧ isKnownType t = true) ∨
          ∃ e, parseMessage data = .error e ∧ e.isPanic = false) := by
  intro h
  have hping := h msgTypePing [] [0, 0, 0, 0, msgTypePing] (by decide) (by decide)
  have hzero := ((framing_iff (by decide) (by decide)).1 hping).2
  exact hzero (by decide)

end Dsn
