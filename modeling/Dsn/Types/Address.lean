import Dsn.Types.Basic

/-!
# `types`: addresses as text

Base58Check with a checksum of four bytes.
-/

namespace Dsn

open Go

def bigBytes (n : ℕ) : Bytes := (Nat.digits 256 n).reverse.map UInt8.ofNat

def base58Digit (num : ℕ) (c : Char) : ℕ :=
  let b := UInt8.ofNat c.toNat
  if b ∈ base58Alphabet then num * 58 + base58Alphabet.idxOf b else num

def base58Decode (s : String) : Bytes :=
  let zeros := (s.toList.takeWhile (· = '1')).length
  List.replicate zeros 0 ++ bigBytes (s.toList.foldl base58Digit 0)

section

variable [Crypto]

def base58CheckDecode (s : String) : Except Error Bytes :=
  let data := base58Decode s
  if data.length < 5 then .error errInvalidAddress
  else
    let payload := data.take (data.length - 4)
    let checksum := data.drop (data.length - 4)
    if checksum ≠ (sha256 (sha256 payload).bytes).bytes.take 4 then .error errInvalidAddress
    else .ok payload

def parseAddress (s : String) : Except Error Address := do
  check (s = "") errInvalidAddress
  let payload ← base58CheckDecode s
  check (payload.length ≠ 21) errInvalidAddress
  addressFromBytes payload.tail

end

/-! ### The round trip -/

theorem map_ofNat_toNat (b : Bytes) : b.map (UInt8.ofNat ∘ UInt8.toNat) = b :=
  (List.map_congr_left fun _ _ => UInt8.ofNat_toNat).trans (List.map_id b)

theorem beNat_eq_ofDigits (b : Bytes) : beNat b = Nat.ofDigits 256 (b.reverse.map UInt8.toNat) := by
  rw [← beNat_digits]
  · rw [← List.map_reverse, List.reverse_reverse, List.map_map, map_ofNat_toNat]
  · intro d hd
    obtain ⟨x, -, rfl⟩ := List.mem_map.1 hd
    exact x.toNat_lt

theorem beNat_replicate_append (k : ℕ) (b : Bytes) : beNat (List.replicate k 0 ++ b) = beNat b := by
  induction k with
  | zero => rfl
  | succ k ih =>
    exact ih

theorem beNat_bigBytes (n : ℕ) : beNat (bigBytes n) = n := by
  rw [bigBytes, beNat_digits fun d hd => Nat.digits_lt_base (by norm_num) hd, Nat.ofDigits_digits]

variable {b : Bytes}

theorem digits_ofDigits_reverse {base : ℕ} (hbase : 1 < base) {digit : UInt8 → ℕ}
    (hlt : ∀ x ∈ b, digit x < base) (hhead : ∀ x, b.head? = some x → digit x ≠ 0) :
    Nat.digits base (Nat.ofDigits base (b.reverse.map digit)) = b.reverse.map digit := by
  refine Nat.digits_ofDigits base hbase _ ?_ ?_
  · intro d hd
    obtain ⟨x, hx, rfl⟩ := List.mem_map.1 hd
    exact hlt x (List.mem_reverse.1 hx)
  · intro hne
    cases b with
    | nil => simp at hne
    | cons x b =>
      simp only [List.reverse_cons, List.map_append, List.map_cons, List.map_nil,
        List.getLast_append_singleton]
      exact hhead x rfl

theorem bigBytes_beNat (h : b.head? ≠ some 0) : bigBytes (beNat b) = b := by
  have hdigits : Nat.digits 256 (beNat b) = b.reverse.map UInt8.toNat := by
    rw [beNat_eq_ofDigits]
    refine digits_ofDigits_reverse (by norm_num) (fun x _ => x.toNat_lt) fun x hx hzero => h ?_
    exact hx.trans (congrArg some (UInt8.toNat_inj.1 hzero))
  rw [bigBytes, hdigits, ← List.map_reverse, List.reverse_reverse, List.map_map, map_ofNat_toNat]

theorem takeWhile_byte (c : UInt8) (b : Bytes) : ∃ k rest, b = List.replicate k c ++ rest ∧
    rest.head? ≠ some c ∧ (b.takeWhile (· = c)).length = k := by
  induction b with
  | nil => exact ⟨0, [], rfl, by simp, rfl⟩
  | cons x b ih =>
    by_cases hx : x = c
    · obtain ⟨k, rest, hb, hrest, hk⟩ := ih
      refine ⟨k + 1, rest, ?_, hrest, ?_⟩
      · rw [hx, hb, List.replicate_succ, List.cons_append]
      · simp [hx, hk]
    · exact ⟨0, x :: b, rfl, by simpa using hx, by simp [hx]⟩

theorem toList_text (b : Bytes) : (text b).toList = b.map fun x => Char.ofNat x.toNat := by
  simp [text]

theorem toNat_ofNat_byte (x : UInt8) : (Char.ofNat x.toNat).toNat = x.toNat := by
  have hx := x.toNat_lt
  rw [Char.ofNat, dif_pos (.inl (by omega) : x.toNat.isValidChar)]
  rfl

theorem foldl_base58Digit (h : ∀ x ∈ b, x ∈ base58Alphabet) :
    (text b).toList.foldl base58Digit 0 = base58Value b := by
  rw [toList_text]
  induction b using List.reverseRecOn with
  | nil => rfl
  | append_singleton b x ih =>
    have hx := h x (by simp)
    have hvalue : base58Value (b ++ [x]) = base58Value b * 58 + base58Alphabet.idxOf x := by
      simp only [base58Value, List.reverse_append, List.reverse_singleton, List.singleton_append,
        List.map_cons, Nat.ofDigits_cons]
      ring
    rw [List.map_append, List.foldl_append, ih fun y hy => h y (by simp [hy]), hvalue]
    simp [base58Digit, toNat_ofNat_byte, hx]

variable {data : Bytes}

theorem base58Encode_mem : ∀ x ∈ base58Encode data, x ∈ base58Alphabet := by
  have hone : (49 : UInt8) ∈ base58Alphabet := by decide
  have hdigit : ∀ d < 58, base58Alphabet.getD d 0 ∈ base58Alphabet := by decide
  intro x hx
  unfold base58Encode at hx
  dsimp only at hx
  split_ifs at hx with hnil
  · have hstr : str "1" = [49] := by decide
    rw [hstr, List.mem_singleton] at hx
    exact hx ▸ hone
  · rcases List.mem_append.1 hx with hx | hx
    · rw [List.eq_of_mem_replicate hx]
      exact hone
    · obtain ⟨d, hd, rfl⟩ := List.mem_map.1 hx
      exact hdigit d (Nat.digits_lt_base (by norm_num) (List.mem_reverse.1 hd))

theorem head?_base58Digits (n : ℕ) :
    ((Nat.digits 58 n).reverse.map fun d => base58Alphabet.getD d 0).head? ≠ some 49 := by
  rw [List.head?_map, List.head?_reverse]
  cases hlast : (Nat.digits 58 n).getLast? with
  | none => simp
  | some d =>
    obtain ⟨hne, rfl⟩ := List.mem_getLast?_eq_getLast hlast
    intro h
    have hd := Nat.digits_lt_base (by norm_num) (List.getLast_mem hne)
    have hidx := idxOf_base58Alphabet _ hd
    rw [show base58Alphabet.getD _ 0 = 49 from Option.some.inj h] at hidx
    have hone : base58Alphabet.idxOf 49 = 0 := by decide
    exact Nat.getLast_digit_ne_zero 58 (Nat.digits_ne_nil_iff_ne_zero.1 hne) (hidx.symm.trans hone)

theorem length_takeWhile_one (k : ℕ) (h : b.head? ≠ some 49) :
    ((text (List.replicate k 49 ++ b)).toList.takeWhile (· = '1')).length = k := by
  rw [toList_text]
  induction k with
  | zero =>
    cases b with
    | nil => rfl
    | cons x b =>
      have hx : Char.ofNat x.toNat ≠ '1' := by
        intro hx
        have := congrArg Char.toNat hx
        rw [toNat_ofNat_byte] at this
        exact h (congrArg some (UInt8.toNat_inj.1 this))
      simp [hx]
  | succ k ih =>
    have hone : Char.ofNat (UInt8.toNat 49) = '1' := by decide
    rw [List.replicate_succ, List.cons_append, List.map_cons,
      List.takeWhile_cons_of_pos (by decide), List.length_cons, ih]

theorem base58Decode_encode (hne : data ≠ []) : base58Decode (text (base58Encode data)) = data := by
  obtain ⟨k, rest, hdata, hrest, hk⟩ := takeWhile_byte 0 data
  have hvalue : (text (base58Encode data)).toList.foldl base58Digit 0 = beNat rest := by
    rw [foldl_base58Digit base58Encode_mem, base58Value_encode, hdata, beNat_replicate_append]
  have hform : base58Encode data = List.replicate k 49 ++
      (Nat.digits 58 (beNat data)).reverse.map fun d => base58Alphabet.getD d 0 := by
    unfold base58Encode
    rw [hk]
    refine if_neg fun hnil => ?_
    -- without leading zeros and digits there is no byte
    obtain ⟨hzeros, hdigits⟩ := List.append_eq_nil_iff.1 hnil
    have hzero : beNat data = 0 := Nat.digits_eq_nil_iff_eq_zero.1 (by simpa using hdigits)
    rw [hdata, beNat_replicate_append] at hzero
    have hempty := bigBytes_beNat hrest
    rw [hzero] at hempty
    refine hne ?_
    rw [hdata, ← hempty, (List.replicate_eq_nil_iff _).1 hzeros]
    rfl
  unfold base58Decode
  rw [hvalue, bigBytes_beNat hrest]
  rw [hform, length_takeWhile_one k (head?_base58Digits _), ← hdata]

variable [Crypto]

theorem base58CheckDecode_encode (payload : Bytes) (version : UInt8) :
    base58CheckDecode (text (base58CheckEncode payload version)) = .ok (version :: payload) := by
  unfold base58CheckDecode base58CheckEncode
  dsimp only
  rw [base58Decode_encode (by simp)]
  have hcheck : ((sha256 (sha256 (version :: payload)).bytes).bytes.take 4).length = 4 := by simp
  have hlen : (version :: payload ++
      (sha256 (sha256 (version :: payload)).bytes).bytes.take 4).length - 4 =
        (version :: payload).length := by
    rw [List.length_append, hcheck, Nat.add_sub_cancel]
  rw [hlen, List.take_left, List.drop_left, if_neg (by simp), if_neg (not_not.2 rfl)]

theorem ne_empty_of_parseAddress {text : String} {a : Address} (h : parseAddress text = .ok a) :
    text ≠ "" := by
  rintro rfl
  cases h

theorem parseAddress_addressString (a : Address) : parseAddress (addressString a) = .ok a := by
  have hdecode := base58CheckDecode_encode a.bytes 0
  have hne : addressString a ≠ "" := by
    intro h
    rw [← addressString, h] at hdecode
    have hempty : base58CheckDecode "" = .error errInvalidAddress := by
      simp [base58CheckDecode, base58Decode, bigBytes]
    cases hempty.symm.trans hdecode
  unfold parseAddress
  rw [except_bind_eq_ok]
  refine ⟨(), check_eq_ok.2 hne, except_bind_eq_ok.2 ⟨_, hdecode, except_bind_eq_ok.2 ⟨(), ?_, ?_⟩⟩⟩
  · simp
  · exact addressFromBytes_bytes a

end Dsn
