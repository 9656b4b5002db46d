import Dsn.Go.Exec

/-!
# `encoding/hex` and `strings`

Encoding and decoding, and trimming of white space.
-/

namespace Go

/-! ### Hexadecimal text -/

def hexValue (c : UInt8) : Option ℕ :=
  if 48 ≤ c.toNat ∧ c.toNat ≤ 57 then some (c.toNat - 48)
  else if 97 ≤ c.toNat ∧ c.toNat ≤ 102 then some (c.toNat - 87)
  else if 65 ≤ c.toNat ∧ c.toNat ≤ 70 then some (c.toNat - 55)
  else none

def unicodeText (c : UInt8) : String :=
  let code := "U+00" ++ (text (hex [c])).toUpper
  if (32 ≤ c.toNat ∧ c.toNat ≤ 126) ∨ (161 ≤ c.toNat ∧ c ≠ 173) then
    code ++ s!" '{Char.ofNat c.toNat}'"
  else code

def invalidByte (c : UInt8) : Error := .new s!"encoding/hex: invalid byte: {unicodeText c}"

def errHexLength : Error := .new "encoding/hex: odd length hex string"

def hexDecode : Bytes → Except Error Bytes
  | [] => .ok []
  | [p] =>
    match hexValue p with
    | none => .error (invalidByte p)
    | some _ => .error errHexLength
  | p :: q :: rest =>
    match hexValue p, hexValue q with
    | none, _ => .error (invalidByte p)
    | some _, none => .error (invalidByte q)
    | some a, some b => (hexDecode rest).map (UInt8.ofNat (16 * a + b) :: ·)

theorem hexValue_hexDigit : ∀ d < 16, hexValue (hexDigit d) = some d := by decide

theorem hexDecode_hex (b : Bytes) : hexDecode (hex b) = .ok b := by
  induction b with
  | nil => rfl
  | cons x b ih =>
    have hx := x.toNat_lt
    have hhex : hex (x :: b) = hexDigit (x.toNat / 16) :: hexDigit (x.toNat % 16) :: hex b := rfl
    have hback : 16 * (x.toNat / 16) + x.toNat % 16 = x.toNat := by omega
    rw [hhex, hexDecode, hexValue_hexDigit _ (by omega), hexValue_hexDigit _ (by omega)]
    dsimp only
    rw [ih, hback, UInt8.ofNat_toNat]
    rfl

def lowerByte (c : UInt8) : UInt8 := if 65 ≤ c.toNat ∧ c.toNat ≤ 90 then c + 32 else c

theorem hexDigit_of_hexValue {c : UInt8} {d : ℕ} (h : hexValue c = some d) :
    d < 16 ∧ hexDigit d = lowerByte c := by
  have hall : ∀ n < 256, ∀ e ∈ hexValue (UInt8.ofNat n),
      e < 16 ∧ hexDigit e = lowerByte (UInt8.ofNat n) := by decide +kernel
  have hc := hall c.toNat c.toNat_lt
  rw [UInt8.ofNat_toNat] at hc
  exact hc d h

variable {s : Bytes}

theorem hex_of_hexDecode {b : Bytes} (h : hexDecode s = .ok b) : hex b = s.map lowerByte := by
  fun_induction hexDecode s generalizing b with
  | case1 =>
    cases h
    rfl
  | case2 => cases h
  | case3 => cases h
  | case4 => cases h
  | case5 => cases h
  | case6 p q rest x y hy hx ih =>
    obtain ⟨hx16, hp⟩ := hexDigit_of_hexValue hx
    obtain ⟨hy16, hq⟩ := hexDigit_of_hexValue hy
    cases hr : hexDecode rest with
    | error e =>
      rw [hr] at h
      cases h
    | ok b' =>
      rw [hr] at h
      cases h
      have hnat : (UInt8.ofNat (16 * x + y)).toNat = 16 * x + y := by
        rw [UInt8.toNat_ofNat', Nat.mod_eq_of_lt (by omega)]
      have hcons (z : UInt8) :
          hex (z :: b') = hexDigit (z.toNat / 16) :: hexDigit (z.toNat % 16) :: hex b' := rfl
      rw [hcons, hnat, show (16 * x + y) / 16 = x by omega, show (16 * x + y) % 16 = y by omega,
        hp, hq, ih hr]
      rfl

theorem length_of_hexDecode {b : Bytes} (h : hexDecode s = .ok b) : s.length = 2 * b.length := by
  have hlengths := congrArg List.length (hex_of_hexDecode h)
  rwa [length_hex, List.length_map, eq_comm] at hlengths

theorem hexDecode_inj_iff {t b c : Bytes} (hs : hexDecode s = .ok b) (ht : hexDecode t = .ok c) :
    b = c ↔ s.map lowerByte = t.map lowerByte := by
  rw [← hex_of_hexDecode hs, ← hex_of_hexDecode ht, hex_injective.eq_iff]

theorem exists_hexDecode :
    (∃ b, hexDecode s = .ok b) ↔ s.length % 2 = 0 ∧ ∀ c ∈ s, (hexValue c).isSome := by
  fun_induction hexDecode s with
  | case1 => simp
  | case2 => simp
  | case3 => simp
  | case4 p q rest hp => simp [hp]
  | case5 p q rest x hq hp => simp [hq]
  | case6 p q rest x y hy hx ih =>
    have hdecode : (∃ b, (hexDecode rest).map (UInt8.ofNat (16 * x + y) :: ·) = .ok b) ↔
        ∃ b, hexDecode rest = .ok b := by
      cases hexDecode rest with
      | error e => simp [Except.map]
      | ok b => simp [Except.map]
    have hlen : (p :: q :: rest).length % 2 = rest.length % 2 := by
      simp only [List.length_cons]
      omega
    rw [hdecode, ih, hlen]
    simp [hx, hy]

/-! ### Trimming -/

section Trim

variable {α : Type} [DecidableEq α]

def trimPrefix (s p : List α) : List α := if p <+: s then s.drop p.length else s

def trimSuffix (s p : List α) : List α := if p <:+ s then s.take (s.length - p.length) else s

variable {s : List α}

theorem mem_or_mem_trimPrefix (p : List α) {x : α} (h : x ∈ s) : x ∈ p ∨ x ∈ trimPrefix s p := by
  unfold trimPrefix
  split_ifs with hp
  · rw [List.prefix_iff_eq_take.1 hp, List.length_take_of_le hp.length_le, ← List.mem_append,
      List.take_append_drop]
    exact h
  · exact .inr h

theorem mem_or_mem_trimSuffix (p : List α) {x : α} (h : x ∈ s) : x ∈ p ∨ x ∈ trimSuffix s p := by
  unfold trimSuffix
  split_ifs with hp
  · rw [List.suffix_iff_eq_drop.1 hp, or_comm, List.length_drop,
      Nat.sub_sub_self hp.length_le, ← List.mem_append, List.take_append_drop]
    exact h
  · exact .inr h

end Trim

def spaces : List Bytes :=
  [[9], [10], [11], [12], [13], [32], [0xC2, 0x85], [0xC2, 0xA0], [0xE1, 0x9A, 0x80],
    [0xE2, 0x80, 0x80], [0xE2, 0x80, 0x81], [0xE2, 0x80, 0x82], [0xE2, 0x80, 0x83],
    [0xE2, 0x80, 0x84], [0xE2, 0x80, 0x85], [0xE2, 0x80, 0x86], [0xE2, 0x80, 0x87],
    [0xE2, 0x80, 0x88], [0xE2, 0x80, 0x89], [0xE2, 0x80, 0x8A], [0xE2, 0x80, 0xA8],
    [0xE2, 0x80, 0xA9], [0xE2, 0x80, 0xAF], [0xE2, 0x81, 0x9F], [0xE3, 0x80, 0x80]]

def dropAll (ps : List Bytes) : ℕ → Bytes → Bytes
  | 0, s => s
  | fuel + 1, s =>
    match ps.find? (· <+: s) with
    | some p => dropAll ps fuel (s.drop p.length)
    | none => s

def trimSpace (s : Bytes) : Bytes :=
  let s := dropAll spaces s.length s
  (dropAll (spaces.map List.reverse) s.length s.reverse).reverse

theorem dropAll_of_none {ps : List Bytes} (h : ∀ p ∈ ps, ¬ p <+: s) (fuel : ℕ) :
    dropAll ps fuel s = s := by
  cases fuel with
  | zero => rfl
  | succ fuel =>
    have hnone : ps.find? (· <+: s) = none := by simpa using h
    rw [dropAll, hnone]

theorem trimSpace_of_visible (h : ∀ c ∈ s, 32 < c.toNat ∧ c.toNat < 127) : trimSpace s = s := by
  have hspaces : ∀ p ∈ spaces, ∃ c ∈ p, ¬ (32 < c.toNat ∧ c.toNat < 127) := by decide
  have hfront : dropAll spaces s.length s = s := by
    refine dropAll_of_none (fun p hp hstart => ?_) _
    obtain ⟨c, hc, hnot⟩ := hspaces p hp
    exact hnot (h c (hstart.subset hc))
  have hback : dropAll (spaces.map List.reverse) s.length s.reverse = s.reverse := by
    refine dropAll_of_none (fun p hp hstart => ?_) _
    obtain ⟨q, hq, rfl⟩ := List.mem_map.1 hp
    obtain ⟨c, hc, hnot⟩ := hspaces q hq
    exact hnot (h c (List.mem_reverse.1 (hstart.subset (List.mem_reverse.2 hc))))
  unfold trimSpace
  rw [hfront]
  exact (congrArg List.reverse hback).trans (List.reverse_reverse s)

def toLower (unicode : Bytes → Bytes) (s : Bytes) : Bytes :=
  if s.all (·.toNat < 128) then s.map lowerByte else unicode s

end Go
