import Dsn.Go.Bufio
import Dsn.Network.Message

/-!
# `network/p2p.go`: messages on a connection

The reader takes one `Read` for a whole message. When does it get the messages that were sent?
-/

namespace Dsn

open Go

variable {r r' : BufReader} {got m rest tail : Bytes} {i n : ℕ}

def lengthPrefixed (data : Bytes) : Bytes := beBytes 4 data.length ++ data

def filled (n : ℕ) (got : Bytes) : Bytes := got ++ List.replicate (n - got.length) 0

def readMessage (reader : BufReader) : Option (Bytes × BufReader) := do
  let (lenGot, reader) ← reader.read 4
  let msgLen := beNat (filled 4 lenGot)
  if msgLen > maxPayloadSize then none
  else
    let (msgGot, reader) ← reader.read msgLen
    return (filled msgLen msgGot, reader)

theorem readMessage_eq_some : readMessage r = some (m, r') ↔
    ∃ lenGot r1 msgGot, r.read 4 = some (lenGot, r1) ∧ beNat (filled 4 lenGot) ≤ maxPayloadSize ∧
      r1.read (beNat (filled 4 lenGot)) = some (msgGot, r') ∧
      m = filled (beNat (filled 4 lenGot)) msgGot := by
  constructor
  · intro h
    obtain ⟨⟨lenGot, r1⟩, hlen, h⟩ := Option.bind_eq_some_iff.1 h
    dsimp only at h
    split_ifs at h with hmax
    obtain ⟨⟨msgGot, r2⟩, hmsg, h⟩ := Option.bind_eq_some_iff.1 h
    cases h
    exact ⟨lenGot, r1, msgGot, hlen, Nat.le_of_not_lt hmax, hmsg, rfl⟩
  · rintro ⟨lenGot, r1, msgGot, hlen, hmax, hmsg, rfl⟩
    refine Option.bind_eq_some_iff.2 ⟨(lenGot, r1), hlen, ?_⟩
    dsimp only
    rw [if_neg (Nat.not_lt.2 hmax)]
    exact Option.bind_eq_some_iff.2 ⟨(msgGot, r'), hmsg, rfl⟩

theorem readMessage_lt (h : readMessage r = some (m, r')) :
    r'.bytes.length < r.bytes.length := by
  obtain ⟨lenGot, r1, msgGot, hlen, -, hmsg, -⟩ := readMessage_eq_some.1 h
  obtain ⟨hbytes, -, hne⟩ := BufReader.read_eq_some hlen
  obtain ⟨hbytes1, -⟩ := BufReader.read_eq_some hmsg
  have hpos := List.length_pos_iff.2 (hne (by decide))
  rw [hbytes, hbytes1]
  simp only [List.length_append]
  omega

def received (reader : BufReader) : List Bytes :=
  match h : readMessage reader with
  | none => []
  | some (msgBuf, reader') =>
    have := readMessage_lt h
    msgBuf :: received reader'
termination_by reader.bytes.length

theorem received_of_none (h : readMessage r = none) : received r = [] := by
  rw [received]
  split
  · rfl
  · next _ _ hsome => cases h.symm.trans hsome

theorem received_of_some (h : readMessage r = some (m, r')) :
    received r = m :: received r' := by
  rw [received]
  split
  · next hnone => cases h.symm.trans hnone
  · next _ _ hsome =>
    cases h.symm.trans hsome
    rfl

theorem received_eq_cons {rest : List Bytes} (h : received r = m :: rest) :
    ∃ r', readMessage r = some (m, r') ∧ received r' = rest := by
  cases hread : readMessage r with
  | none => cases (received_of_none hread).symm.trans h
  | some p =>
    obtain ⟨m', r'⟩ := p
    cases (received_of_some hread).symm.trans h
    exact ⟨r', rfl, rfl⟩

/-! ### Short reads -/

theorem length_filled (h : got.length ≤ n) : (filled n got).length = n := by
  unfold filled
  rw [List.length_append, List.length_replicate]
  omega

@[simp] theorem filled_length (got : Bytes) : filled got.length got = got := by
  simp [filled]

@[simp] theorem beNat_replicate_zero (n : ℕ) : beNat (List.replicate n 0) = 0 := by
  induction n with
  | zero => rfl
  | succ n ih =>
    rw [List.replicate_succ', beNat_append_singleton, ih]
    rfl

theorem beNat_filled_le (h : (got ++ tail).length = n) :
    beNat (filled n got) ≤ beNat (got ++ tail) := by
  have htail : n - got.length = tail.length := by
    rw [List.length_append] at h
    omega
  unfold filled
  rw [htail, beNat_append, beNat_append, beNat_replicate_zero, List.length_replicate]
  omega

theorem eq_replicate_of_shift (tail : Bytes) {c k : ℕ} (hc : 0 < c) (hk : k ≤ m.length)
    (h : filled m.length ((List.replicate c 0 ++ m ++ tail).take k) = m) :
    m = List.replicate m.length 0 := by
  have hget (i : ℕ) (hi : i < m.length) : m[i]? = some 0 := by
    induction i using Nat.strong_induction_on with
    | _ i ih =>
      rw [← h]
      unfold filled
      by_cases hik : i < k
      · rw [List.getElem?_append_left (by simp; omega), List.getElem?_take, if_pos hik,
          List.append_assoc]
        by_cases hic : i < c
        · rw [List.getElem?_append_left (by simpa using hic), List.getElem?_replicate, if_pos hic]
        · rw [List.getElem?_append_right (by simp; omega), List.length_replicate,
            List.getElem?_append_left (by omega)]
          exact ih (i - c) (by omega) (by omega)
      · rw [List.getElem?_append_right (by simp; omega), List.getElem?_replicate, if_pos]
        simp
        omega
  refine List.ext_getElem? fun i => ?_
  by_cases hi : i < m.length
  · rw [hget i hi, List.getElem?_replicate, if_pos hi]
  · rw [List.getElem?_eq_none (by omega), List.getElem?_eq_none (by simp; omega)]

/-! ### Streams of messages -/

def stream (messages : List Bytes) : Bytes := messages.flatMap lengthPrefixed

@[simp] theorem stream_nil : stream [] = [] := rfl

@[simp] theorem stream_cons (m : Bytes) (rest : List Bytes) :
    stream (m :: rest) = beBytes 4 m.length ++ (m ++ stream rest) := by
  simp [stream, lengthPrefixed]

def readSizes (messages : List Bytes) : List ℕ := messages.flatMap fun m => [4, m.length]

theorem readMessage_eq_none (h : r.bytes = []) : readMessage r = none := by
  unfold readMessage
  rw [BufReader.read_eq_none.2 ⟨by decide, h⟩]
  rfl

theorem bytes_after_zeros (hi : got.length ≤ i) (h : got ++ rest = List.replicate i 0 ++ tail) :
    got = List.replicate got.length 0 ∧ rest = List.replicate (i - got.length) 0 ++ tail := by
  have hsplit : got ++ rest = List.replicate got.length 0 ++
      (List.replicate (i - got.length) 0 ++ tail) := by
    rw [h, ← List.append_assoc, List.replicate_append_replicate, Nat.add_sub_cancel' hi]
  exact List.append_inj hsplit (by simp)

theorem bytes_after_early {c : ℕ} (hc : 0 < c) (hgot : got.length ≤ m.length)
    (hm : m = filled m.length got) (h : List.replicate c 0 ++ m ++ tail = got ++ rest) :
    rest = List.replicate (c + m.length - got.length) 0 ++ tail := by
  have htake : got = (List.replicate c 0 ++ m ++ tail).take got.length := by
    rw [h, List.take_left]
  have hzero : m = List.replicate m.length 0 :=
    eq_replicate_of_shift tail hc hgot (by rw [← htake, ← hm])
  rw [hzero, List.replicate_append_replicate] at h
  exact (bytes_after_zeros (by omega) h.symm).2

theorem beNat_early_le (hi : 0 < i) (hn : n < 256 ^ 4) (hgot : got.length ≤ 4)
    (h : got ++ rest = List.replicate i 0 ++ (beBytes 4 n ++ tail)) :
    beNat (filled 4 got) ≤ n / 256 := by
  let early := (List.replicate i 0 ++ beBytes 4 n).take 4
  have hlength : (List.replicate i 0 ++ beBytes 4 n).length = 4 + i := by
    simp [Nat.add_comm]
  have hbegins : got <+: early := by
    have hlonger : early <+: got ++ rest := by
      rw [h, ← List.append_assoc]
      exact (List.take_prefix _ _).trans (List.prefix_append _ _)
    refine List.prefix_of_prefix_length_le (List.prefix_append _ _) hlonger ?_
    rw [List.length_take, hlength]
    omega
  obtain ⟨missing, hmissing⟩ := hbegins
  have hearly : beNat early = n / 256 ^ i := by
    rw [beNat_take hlength, beNat_append, beNat_replicate_zero, beNat_beBytes hn]
    simp
  calc beNat (filled 4 got) ≤ beNat (got ++ missing) := beNat_filled_le (by
        rw [hmissing, List.length_take, hlength]
        omega)
    _ = n / 256 ^ i := by rw [hmissing, hearly]
    _ ≤ n / 256 := Nat.div_le_div_left (Nat.le_self_pow hi.ne' 256) (by decide)

theorem received_ne_of_zeros {messages : List Bytes} (hsize : ∀ m ∈ messages, m.length < 256 ^ 4)
    (hi : 0 < i) (hr : r.bytes = List.replicate i 0 ++ stream messages) :
    received r ≠ messages := by
  induction messages generalizing r i with
  | nil =>
    -- the zeros are taken for the length of an empty message
    intro hreceived
    obtain ⟨⟨got, r1⟩, hread⟩ : ∃ p, r.read 4 = some p := by
      refine Option.ne_none_iff_exists'.1 fun hnone => ?_
      have hnil := (BufReader.read_eq_none.1 hnone).2
      rw [hr, stream_nil, List.append_nil, List.replicate_eq_nil_iff] at hnil
      omega
    obtain ⟨hbytes, hlength, -⟩ := BufReader.read_eq_some hread
    rw [hr, stream_nil, List.append_nil, eq_comm, List.append_eq_replicate_iff] at hbytes
    have hzero : beNat (filled 4 got) = 0 := by
      rw [hbytes.2.1]
      simp [filled]
    have hmessage : readMessage r = some ([], r1) :=
      readMessage_eq_some.2 ⟨got, r1, [], hread, by simp [hzero], by simp [hzero],
        by rw [hzero]; rfl⟩
    cases (received_of_some hmessage).symm.trans hreceived
  | cons m rest ih =>
    intro hreceived
    obtain ⟨r', hmessage, hrest⟩ := received_eq_cons hreceived
    obtain ⟨lenGot, r1, msgGot, hlen, -, hmsg, hm⟩ := readMessage_eq_some.1 hmessage
    obtain ⟨hbytes, hlength, -⟩ := BufReader.read_eq_some hlen
    rw [hr, stream_cons] at hbytes
    have hearly := beNat_early_le hi (hsize m List.mem_cons_self) hlength hbytes.symm
    have hmlength : m.length = beNat (filled 4 lenGot) := by
      rw [hm]
      exact length_filled (BufReader.read_eq_some hmsg).2.1
    have hnil : m.length = 0 := by omega
    rw [← hmlength, hnil] at hmsg
    cases hmsg
    obtain rfl := List.length_eq_zero_iff.1 hnil
    have hzeros : lenGot ++ r'.bytes = List.replicate (i + 4) 0 ++ stream rest := by
      rw [← hbytes, ← List.replicate_append_replicate, List.append_assoc]
      rfl
    obtain ⟨-, hleft⟩ := bytes_after_zeros (by omega) hzeros
    exact ih (fun m hm => hsize m (List.mem_cons_of_mem _ hm)) (by omega) hleft hrest

/-! ### Whole reads -/

section

variable {messages : List Bytes} (hsize : ∀ m ∈ messages, m.length ≤ maxPayloadSize)
include hsize

theorem received_of_serves (hr : r.bytes = stream messages)
    (hserves : r.supply.serves (readSizes messages) = true) : received r = messages := by
  induction messages generalizing r with
  | nil => exact received_of_none (readMessage_eq_none hr)
  | cons m rest ih =>
    have hmax := hsize m List.mem_cons_self
    obtain ⟨lenGot, r1, hlen, hlenLength, hserves⟩ := BufReader.serves_cons_iff.1 hserves
    obtain ⟨msgGot, r2, hmsg, hmsgLength, hserves⟩ := BufReader.serves_cons_iff.1 hserves
    have hbytes := (BufReader.read_eq_some hlen).1
    rw [hr, stream_cons] at hbytes
    obtain ⟨rfl, hbytes1⟩ := List.append_inj hbytes (by simp [hlenLength])
    rw [(BufReader.read_eq_some hmsg).1] at hbytes1
    obtain ⟨rfl, hbytes2⟩ := List.append_inj hbytes1 hmsgLength.symm
    have hcount : beNat (filled 4 (beBytes 4 m.length)) = m.length := by
      have hfilled := filled_length (beBytes 4 m.length)
      rw [length_beBytes] at hfilled
      rw [hfilled, beNat_beBytes (lt_of_le_of_lt hmax (by decide))]
    have hmessage : readMessage r = some (m, r2) :=
      readMessage_eq_some.2 ⟨_, r1, m, hlen, by rwa [hcount], by rwa [hcount], by simp [hcount]⟩
    rw [received_of_some hmessage,
      ih (fun m hm => hsize m (List.mem_cons_of_mem _ hm)) hbytes2.symm hserves]

theorem serves_of_received (hr : r.bytes = stream messages) (hreceived : received r = messages) :
    r.supply.serves (readSizes messages) = true := by
  induction messages generalizing r with
  | nil => rfl
  | cons m rest ih =>
    have hmax := hsize m List.mem_cons_self
    have hfits : ∀ m ∈ rest, m.length < 256 ^ 4 := fun m hm =>
      lt_of_le_of_lt (hsize m (List.mem_cons_of_mem _ hm)) (by decide)
    obtain ⟨r', hmessage, hrest⟩ := received_eq_cons hreceived
    obtain ⟨lenGot, r1, msgGot, hlen, -, hmsg, hm⟩ := readMessage_eq_some.1 hmessage
    obtain ⟨hbytes, hlength, -⟩ := BufReader.read_eq_some hlen
    obtain ⟨hbytes1, hmsgLength, -⟩ := BufReader.read_eq_some hmsg
    have hcount : beNat (filled 4 lenGot) = m.length := by
      rw [hm]
      exact (length_filled hmsgLength).symm
    rw [hcount] at hmsg hm hmsgLength
    -- the length was read right, so what it is short of is zero
    have hheader : filled 4 lenGot = beBytes 4 m.length := by
      refine beNat_inj (by rw [length_filled hlength, length_beBytes]) ?_
      rw [hcount, beNat_beBytes (lt_of_le_of_lt hmax (by decide))]
    rw [hr, stream_cons, ← hheader, filled, List.append_assoc] at hbytes
    have hleft := List.append_cancel_left hbytes
    rw [← List.append_assoc, hbytes1] at hleft
    by_cases hwhole : lenGot.length = 4
    · rw [hwhole, Nat.sub_self, List.replicate_zero, List.nil_append] at hleft
      by_cases hwhole' : msgGot.length = m.length
      · have hbytes' := (List.append_inj hleft hwhole'.symm).2
        refine BufReader.serves_cons_iff.2 ⟨lenGot, r1, hlen, hwhole, ?_⟩
        refine BufReader.serves_cons_iff.2 ⟨msgGot, r', hmsg, hwhole', ?_⟩
        exact ih (fun m hm => hsize m (List.mem_cons_of_mem _ hm)) hbytes'.symm hrest
      · -- the zeros at the end of the message are left over
        rw [hm, filled, List.append_assoc] at hleft
        have hzeros := (List.append_cancel_left hleft).symm
        exact absurd hrest (received_ne_of_zeros hfits (by omega) hzeros)
    · -- the message was read too early
      have hzeros := bytes_after_early (by omega) hmsgLength hm hleft
      exact absurd hrest (received_ne_of_zeros hfits (by omega) hzeros)

/-- The messages arrive exactly if each length and each message is served whole. -/
theorem received_eq_messages_iff {socket : Socket} (hsocket : socket.bytes = stream messages) :
    received (.new socket) = messages ↔
      Supply.serves (readSizes messages) ⟨0, socket.map fun p => p.1.length⟩ = true :=
  have hbytes : (BufReader.new socket).bytes = stream messages := hsocket
  ⟨serves_of_received hsize hbytes, received_of_serves hsize hbytes⟩

end

/-! ### Two connections -/

theorem received_depends_on_pieces : ¬ ∀ (messages : List Bytes) (socket : Socket),
    (∀ m ∈ messages, m.length ≤ maxPayloadSize) → socket.bytes = stream messages →
      received (.new socket) = messages := by
  intro h
  have hserves := serves_of_received (by decide) rfl
    (h [[1, 2, 3]] [⟨[0, 0, 0, 3, 1, 2], by decide⟩, ⟨[3], by decide⟩] (by decide) rfl)
  exact absurd hserves (by decide)

theorem received_in_one_piece :
    received (.new [⟨stream [[1, 2, 3], [4]], by decide⟩]) = [[1, 2, 3], [4]] :=
  (received_eq_messages_iff (by decide) (List.append_nil _)).2 (by decide)

end Dsn
