import Dsn.Go.Utf8
import Dsn.State.Keys
import Dsn.Types.Address

/-!
# Texts of one address

The parser lets other bytes and other versions pass, so one address has several texts.
-/

namespace Dsn

open Go

variable {b : Bytes} {s : String}

/-! ### Base 58 -/

theorem ascii_base58Alphabet : ∀ x ∈ base58Alphabet, x < 0x80 := by decide +kernel

theorem getD_idxOf_base58Alphabet :
    ∀ x ∈ base58Alphabet, base58Alphabet.getD (base58Alphabet.idxOf x) 0 = x := by decide +kernel

theorem idxOf_eq_zero_iff : ∀ x ∈ base58Alphabet, base58Alphabet.idxOf x = 0 ↔ x = 49 := by
  decide +kernel

theorem head?_bigBytes (n : ℕ) : (bigBytes n).head? ≠ some 0 := by
  rw [bigBytes, List.head?_map, List.head?_reverse]
  cases hlast : (Nat.digits 256 n).getLast? with
  | none => simp
  | some d =>
    obtain ⟨hne, rfl⟩ := List.mem_getLast?_eq_getLast hlast
    have hd := Nat.digits_lt_base (by norm_num) (List.getLast_mem hne)
    have hpos := Nat.getLast_digit_ne_zero 256 (Nat.digits_ne_nil_iff_ne_zero.1 hne)
    intro h
    have hzero := congrArg UInt8.toNat (Option.some.inj h)
    rw [UInt8.toNat_ofNat', Nat.mod_eq_of_lt hd] at hzero
    exact hpos hzero

theorem length_takeWhile_replicate (k : ℕ) {c : UInt8} (h : b.head? ≠ some c) :
    ((List.replicate k c ++ b).takeWhile (· = c)).length = k := by
  induction k with
  | zero =>
    cases b with
    | nil => rfl
    | cons x b =>
      have hx : x ≠ c := fun hx => h (congrArg some hx)
      simp [hx]
  | succ k ih => simpa [List.replicate_succ] using ih

section

variable (h : ∀ x ∈ b, x ∈ base58Alphabet)
include h

theorem digits_base58Value (k : ℕ) (hhead : b.head? ≠ some 49) :
    (Nat.digits 58 (base58Value (List.replicate k 49 ++ b))).reverse.map
      (fun d => base58Alphabet.getD d 0) = b := by
  have hone : base58Alphabet.idxOf 49 = 0 := by decide
  have hlt : ∀ x ∈ base58Alphabet, base58Alphabet.idxOf x < 58 := by decide +kernel
  have hdigits : Nat.digits 58 (base58Value (List.replicate k 49 ++ b)) =
      b.reverse.map base58Alphabet.idxOf := by
    rw [base58Value, List.reverse_append, List.map_append, List.reverse_replicate,
      List.map_replicate, hone, Nat.ofDigits_append_replicate_zero]
    refine digits_ofDigits_reverse (by norm_num) (fun x hx => hlt x (h x hx)) fun x hx hzero => ?_
    have hx' : x ∈ b := List.mem_of_head? hx
    exact hhead (hx.trans (congrArg some ((idxOf_eq_zero_iff x (h x hx')).1 hzero)))
  rw [hdigits, ← List.map_reverse, List.reverse_reverse, List.map_map]
  refine (List.map_congr_left fun x hx => ?_).trans (List.map_id b)
  exact getD_idxOf_base58Alphabet x (h x hx)

theorem base58Decode_text {k : ℕ} {rest : Bytes} (hb : b = List.replicate k 49 ++ rest)
    (hrest : rest.head? ≠ some 49) :
    base58Decode (text b) = List.replicate k 0 ++ bigBytes (base58Value b) := by
  unfold base58Decode
  rw [foldl_base58Digit h, hb, length_takeWhile_one k hrest]

theorem base58Encode_decode (hne : b ≠ []) : base58Encode (base58Decode (text b)) = b := by
  obtain ⟨k, rest, hb, hrest, -⟩ := takeWhile_byte 49 b
  have hmem : ∀ x ∈ rest, x ∈ base58Alphabet := fun x hx =>
    h x (hb ▸ List.mem_append_right _ hx)
  have hdigits := digits_base58Value hmem k hrest
  rw [← hb] at hdigits
  unfold base58Encode
  rw [base58Decode_text h hb hrest, length_takeWhile_replicate k (head?_bigBytes _),
    beNat_replicate_append, beNat_bigBytes, hdigits]
  dsimp only
  rw [← hb]
  exact if_neg hne

end

theorem head?_base58Encode (data : Bytes) : (base58Encode (0 :: data)).head? = some 49 := by
  unfold base58Encode
  rw [List.takeWhile_cons_of_pos (by decide), List.length_cons]
  dsimp only
  rw [List.replicate_succ, List.cons_append, if_neg (List.cons_ne_nil _ _), List.head?_cons]

theorem base58Decode_append_skipped {c : Char} (hc : UInt8.ofNat c.toNat ∉ base58Alphabet) :
    base58Decode (s ++ String.ofList [c]) = base58Decode s := by
  have hone : c ≠ '1' := by
    rintro rfl
    exact hc (by decide)
  have hzeros : (s.toList ++ [c]).takeWhile (· = '1') = s.toList.takeWhile (· = '1') := by
    rw [List.takeWhile_append]
    split_ifs with hall
    · rw [List.takeWhile_cons_of_neg (by simpa using hone), List.append_nil]
      exact ((List.takeWhile_prefix _).eq_of_length hall).symm
    · rfl
  unfold base58Decode
  rw [String.toList_append, String.toList_ofList, hzeros]
  simp [base58Digit, hc]

/-! ### Addresses -/

section

variable [Crypto]

def addressText (a : Address) : Bytes := base58CheckEncode a.bytes 0

theorem addressText_mem (a : Address) : ∀ x ∈ addressText a, x ∈ base58Alphabet := by
  unfold addressText base58CheckEncode
  exact base58Encode_mem

omit [Crypto] in
theorem utf8Text_of_digits {s : Bytes} (h : ∀ x ∈ s, x ∈ base58Alphabet) : utf8Text s = text s :=
  utf8Text_of_ascii fun x hx => ascii_base58Alphabet x (h x hx)

theorem utf8Text_addressText (a : Address) : utf8Text (addressText a) = addressString a :=
  utf8Text_of_digits (addressText_mem a)

variable {a : Address}

theorem parseAddress_eq_ok : parseAddress s = .ok a ↔
    ∃ version, base58Decode s = version :: a.bytes ++
      (sha256 (sha256 (version :: a.bytes)).bytes).bytes.take 4 := by
  unfold parseAddress base58CheckDecode
  simp only [except_bind_eq_ok, check_eq_ok]
  constructor
  · rintro ⟨-, -, payload, hpayload, -, hlen, haddr⟩
    split_ifs at hpayload with hshort hsum
    cases hpayload
    set data := base58Decode s
    set payload := data.take (data.length - 4)
    obtain ⟨version, rest, hcons⟩ := List.exists_cons_of_length_eq_add_one (not_not.1 hlen)
    have ha : rest = a.bytes := by
      rw [hcons] at haddr
      unfold addressFromBytes at haddr
      split_ifs at haddr with hrest
      cases haddr
      rfl
    refine ⟨version, ?_⟩
    rw [← ha, ← hcons, ← not_not.1 hsum]
    exact (List.take_append_drop _ _).symm
  · rintro ⟨version, hdata⟩
    have hdrop : (version :: a.bytes ++
        (sha256 (sha256 (version :: a.bytes)).bytes).bytes.take 4).length - 4 =
          (version :: a.bytes).length := by simp
    refine ⟨(), ?_, version :: a.bytes, ?_, (), by simp, addressFromBytes_bytes a⟩
    · rintro rfl
      cases hdata.symm.trans (show base58Decode "" = [] by simp [base58Decode, bigBytes])
    · rw [hdata, hdrop, List.take_left, List.drop_left, if_neg (by simp), if_neg (not_not.2 rfl)]

theorem parseAddress_append_skipped {c : Char} (h : parseAddress s = .ok a)
    (hc : UInt8.ofNat c.toNat ∉ base58Alphabet) :
    parseAddress (s ++ String.ofList [c]) = .ok a := by
  rw [parseAddress_eq_ok, base58Decode_append_skipped hc]
  exact parseAddress_eq_ok.1 h

/-- Addresses are read back from their text. -/
theorem address_text_round_trip :
    (∀ a : Address, parseAddress (utf8Text (addressText a)) = .ok a) ∧
      Function.Injective addressText ∧ Function.Injective validatorOperatorKey := by
  have hround (a : Address) : parseAddress (utf8Text (addressText a)) = .ok a := by
    rw [utf8Text_addressText]
    exact parseAddress_addressString a
  refine ⟨hround, fun a b hab => ?_, validatorOperatorKey_injective⟩
  have hb := hround b
  rw [← hab] at hb
  exact Except.ok.inj ((hround a).symm.trans hb)

theorem parseAddress_blank (a : Address) :
    parseAddress (utf8Text (addressText a ++ [32])) = .ok a := by
  have hblank : utf8Text (addressText a ++ [32]) = addressString a ++ String.ofList [' '] := by
    rw [utf8Text_of_ascii, text, List.map_append, String.ofList_append]
    · rfl
    · intro x hx
      rcases List.mem_append.1 hx with hx | hx
      · exact ascii_base58Alphabet x (addressText_mem _ x hx)
      · rw [List.mem_singleton.1 hx]
        decide
  rw [hblank]
  exact parseAddress_append_skipped (parseAddress_addressString _) (by decide)

/-- An accepted text is canonical exactly if it is all digits and starts with `1`. -/
theorem eq_addressText_iff_digits {s : Bytes} {a : Address}
    (h : parseAddress (utf8Text s) = .ok a) :
    s = addressText a ↔ (∀ x ∈ s, x ∈ base58Alphabet) ∧ s.head? = some 49 := by
  constructor
  · rintro rfl
    exact ⟨addressText_mem a, head?_base58Encode _⟩
  · rintro ⟨hmem, hhead⟩
    have hne : s ≠ [] := by
      rintro rfl
      cases hhead
    obtain ⟨version, hdecode⟩ := parseAddress_eq_ok.1 h
    rw [utf8Text_of_digits hmem] at hdecode
    have hversion : version = 0 := by
      obtain ⟨k, rest, hs, hrest, -⟩ := takeWhile_byte 49 s
      rw [base58Decode_text hmem hs hrest] at hdecode
      cases k with
      | zero =>
        rw [hs] at hhead
        exact absurd hhead hrest
      | succ k =>
        exact (List.cons.inj hdecode).1.symm
    rw [← base58Encode_decode hmem hne, hdecode, hversion]
    rfl

end

open Sample

theorem parseAddress_not_canonical : ¬ ∀ (s : Bytes) (a : Address),
    parseAddress (utf8Text s) = .ok a → s = addressText a := by
  intro h
  have hlen := congrArg List.length (h _ _ (parseAddress_blank default))
  rw [List.length_append, List.length_singleton] at hlen
  omega

theorem blank_not_addressText :
    parseAddress (utf8Text (addressText default ++ [32])) = .ok default ∧
      (addressText default ++ [32] = addressText default ↔
        (∀ x ∈ addressText default ++ [32], x ∈ base58Alphabet) ∧
          (addressText default ++ [32]).head? = some 49) :=
  ⟨parseAddress_blank default, eq_addressText_iff_digits (parseAddress_blank default)⟩

end Dsn
