import Dsn.Go.Bytes

/-!
# Reading a connection through a buffer

A socket yields its bytes in pieces, and a read returns what is there.
-/

namespace Go

/-! ### Sockets -/

abbrev Socket := List {p : Bytes // p ≠ []}

namespace Socket

def bytes (s : Socket) : Bytes := (s.map Subtype.val).flatten

@[simp] theorem bytes_nil : bytes [] = [] := rfl

@[simp] theorem bytes_cons (p : {p : Bytes // p ≠ []}) (s : Socket) :
    bytes (p :: s) = p.1 ++ bytes s := rfl

def read (room : ℕ) : Socket → Option (Bytes × Socket)
  | [] => none
  | p :: rest =>
    if h : room < p.1.length then
      some (p.1.take room, ⟨p.1.drop room, fun hnil => by simp at hnil; omega⟩ :: rest)
    else some (p.1, rest)

theorem read_cons (room : ℕ) (p : {p : Bytes // p ≠ []}) (rest : Socket) :
    read room (p :: rest) = if h : room < p.1.length then
      some (p.1.take room, ⟨p.1.drop room, fun hnil => by simp at hnil; omega⟩ :: rest)
    else some (p.1, rest) := rfl

variable {room : ℕ}

theorem read_eq_none {s : Socket} : s.read room = none ↔ s.bytes = [] := by
  cases s with
  | nil => simp [read]
  | cons p rest =>
    rw [read_cons]
    split_ifs <;> simp [p.2]

theorem read_eq_some {s s' : Socket} {got : Bytes} (h : s.read room = some (got, s')) :
    s.bytes = got ++ s'.bytes ∧ got.length ≤ room ∧ (0 < room → got ≠ []) := by
  cases s with
  | nil => cases h
  | cons p rest =>
    rw [read_cons] at h
    split_ifs at h with hroom <;> cases h
    · refine ⟨?_, List.length_take_le _ _, fun hpos => ?_⟩
      · rw [bytes_cons, bytes_cons, ← List.append_assoc, List.take_append_drop]
      · rw [← List.length_pos_iff, List.length_take]
        omega
    · exact ⟨rfl, Nat.le_of_not_lt hroom, fun _ => p.2⟩

end Socket

/-! ### Buffered readers -/

def bufioSize : ℕ := 4096

structure BufReader where
  buffered : Bytes
  socket : Socket

namespace BufReader

def new (s : Socket) : BufReader := ⟨[], s⟩

def bytes (r : BufReader) : Bytes := r.buffered ++ r.socket.bytes

def read (n : ℕ) (r : BufReader) : Option (Bytes × BufReader) :=
  if n = 0 then some ([], r)
  else if r.buffered ≠ [] then some (r.buffered.take n, { r with buffered := r.buffered.drop n })
  else if n ≥ bufioSize then (r.socket.read n).map fun (got, s) => (got, ⟨[], s⟩)
  else (r.socket.read bufioSize).map fun (got, s) => (got.take n, ⟨got.drop n, s⟩)

@[simp] theorem read_zero (r : BufReader) : r.read 0 = some ([], r) := rfl

theorem read_eq_some {n : ℕ} {r r' : BufReader} {got : Bytes} (h : r.read n = some (got, r')) :
    r.bytes = got ++ r'.bytes ∧ got.length ≤ n ∧ (0 < n → got ≠ []) := by
  obtain ⟨buffered, socket⟩ := r
  unfold read at h
  split_ifs at h with hzero hbuffered hlarge
  · cases h
    exact ⟨rfl, Nat.zero_le n, fun hpos => absurd hzero hpos.ne'⟩
  · cases h
    have hpos := List.length_pos_iff.2 hbuffered
    refine ⟨?_, List.length_take_le _ _, fun hn => ?_⟩
    · unfold bytes
      rw [← List.append_assoc, List.take_append_drop]
    · rw [← List.length_pos_iff, List.length_take]
      exact lt_min hn hpos
  · obtain rfl := not_not.1 hbuffered
    obtain ⟨⟨b, s⟩, hread, hr⟩ := Option.map_eq_some_iff.1 h
    cases hr
    exact Socket.read_eq_some hread
  · obtain rfl := not_not.1 hbuffered
    obtain ⟨⟨b, s⟩, hread, hr⟩ := Option.map_eq_some_iff.1 h
    cases hr
    obtain ⟨hbytes, -, hne⟩ := Socket.read_eq_some hread
    have hpos := List.length_pos_iff.2 (hne (by decide))
    refine ⟨?_, List.length_take_le _ _, fun hn => ?_⟩
    · unfold bytes
      rw [← List.append_assoc, List.take_append_drop]
      exact hbytes
    · rw [← List.length_pos_iff, List.length_take]
      exact lt_min hn hpos

theorem read_eq_none {n : ℕ} {r : BufReader} : r.read n = none ↔ 0 < n ∧ r.bytes = [] := by
  obtain ⟨buffered, socket⟩ := r
  unfold read bytes
  split_ifs with hzero hbuffered hlarge
  · simp [hzero]
  · simp [hbuffered]
  all_goals
    obtain rfl := not_not.1 hbuffered
    simp [Socket.read_eq_none, Nat.pos_of_ne_zero hzero]

end BufReader

/-! ### Numbers of bytes -/

structure Supply where
  buffered : ℕ
  pieces : List ℕ

namespace Supply

def remaining (k : ℕ) (rest : List ℕ) : List ℕ := if k = 0 then rest else k :: rest

def take (n : ℕ) (s : Supply) : Option Supply :=
  if n ≤ s.buffered then some { s with buffered := s.buffered - n }
  else if s.buffered ≠ 0 then none
  else match s.pieces with
    | [] => none
    | p :: rest =>
      if p < n then none
      else if n ≥ bufioSize then some ⟨0, remaining (p - n) rest⟩
      else some ⟨min p bufioSize - n, remaining (p - bufioSize) rest⟩

def serves : List ℕ → Supply → Bool
  | [], _ => true
  | n :: sizes, s =>
    match s.take n with
    | some s' => s'.serves sizes
    | none => false

end Supply

namespace BufReader

def supply (r : BufReader) : Supply := ⟨r.buffered.length, r.socket.map fun p => p.1.length⟩

variable {got : Bytes}

theorem read_pieces {room : ℕ} {p : {p : Bytes // p ≠ []}} {s s' : Socket}
    (h : Socket.read room (p :: s) = some (got, s')) :
    got.length = min p.1.length room ∧ (s'.map fun p => p.1.length) =
      Supply.remaining (p.1.length - room) (s.map fun p => p.1.length) := by
  rw [Socket.read_cons] at h
  unfold Supply.remaining
  split_ifs at h with hroom <;> cases h
  · rw [if_neg (by omega)]
    simp [Nat.min_comm]
  · rw [if_pos (by omega), Nat.min_eq_left (by omega)]
    exact ⟨rfl, rfl⟩

theorem take_supply {n : ℕ} {r r' : BufReader} (h : r.read n = some (got, r')) :
    r.supply.take n = if got.length = n then some r'.supply else none := by
  obtain ⟨buffered, socket⟩ := r
  unfold read at h
  unfold Supply.take supply
  split_ifs at h with hzero hbuffered hlarge
  · cases h
    simp [hzero]
  · cases h
    by_cases hn : n ≤ buffered.length
    · simp [hn]
    · have hne : ¬ min n buffered.length = n := by omega
      simp [hn, hbuffered, hne]
  · obtain rfl := not_not.1 hbuffered
    obtain ⟨⟨b, s⟩, hread, hr⟩ := Option.map_eq_some_iff.1 h
    cases hr
    cases socket with
    | nil => cases hread
    | cons p rest =>
      obtain ⟨hlength, hpieces⟩ := read_pieces hread
      have hiff : p.1.length < n ↔ ¬ got.length = n := by omega
      simp [hzero, hlarge, hpieces, hiff]
  · obtain rfl := not_not.1 hbuffered
    obtain ⟨⟨b, s⟩, hread, hr⟩ := Option.map_eq_some_iff.1 h
    cases hr
    cases socket with
    | nil => cases hread
    | cons p rest =>
      obtain ⟨hlength, hpieces⟩ := read_pieces hread
      have hiff : p.1.length < n ↔ ¬ (b.take n).length = n := by
        rw [List.length_take]
        omega
      simp only [hzero, hpieces, hlength, hiff, List.length_nil, List.map_cons, List.length_drop,
        Nat.le_zero, ne_eq, not_true, if_false]
      split_ifs <;> rfl

theorem serves_cons_iff {n : ℕ} {sizes : List ℕ} {r : BufReader} :
    r.supply.serves (n :: sizes) = true ↔ ∃ got r', r.read n = some (got, r') ∧ got.length = n ∧
      r'.supply.serves sizes = true := by
  rw [Supply.serves]
  cases hread : r.read n with
  | none =>
    obtain ⟨hpos, hbytes⟩ := read_eq_none.1 hread
    obtain ⟨hbuffered, hsocket⟩ := List.append_eq_nil_iff.1 hbytes
    have hend : r.socket = [] := by
      cases hs : r.socket with
      | nil => rfl
      | cons p rest =>
        rw [hs] at hsocket
        exact absurd (List.append_eq_nil_iff.1 hsocket).1 p.2
    have hnone : r.supply.take n = none := by
      simp [Supply.take, supply, hbuffered, hend, hpos.ne']
    simp [hnone]
  | some p =>
    obtain ⟨got, r'⟩ := p
    rw [take_supply hread]
    by_cases hlength : got.length = n <;> simp [hlength]

end BufReader

end Go
