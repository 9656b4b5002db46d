import Mathlib.Data.Nat.Digits.Lemmas
import Mathlib.Tactic

/-!
# Byte strings

Bytes, fixed-size arrays and `copy`, big-endian numbers, texts.
-/

namespace Go

abbrev Bytes := List UInt8

def str (s : String) : Bytes := s.toUTF8.data.toList

/-! ### Big-endian integers -/

def beBytes : ℕ → ℕ → Bytes
  | 0, _ => []
  | n + 1, v => beBytes n (v / 256) ++ [UInt8.ofNat v]

def beNat (b : Bytes) : ℕ := b.foldl (fun a x => a * 256 + x.toNat) 0

@[simp] theorem length_beBytes (n v : ℕ) : (beBytes n v).length = n := by
  induction n generalizing v with
  | zero => rfl
  | succ n ih => simp [beBytes, ih]

theorem beNat_append_singleton (b : Bytes) (x : UInt8) :
    beNat (b ++ [x]) = beNat b * 256 + x.toNat := by simp [beNat]

theorem beNat_append (b c : Bytes) : beNat (b ++ c) = beNat b * 256 ^ c.length + beNat c := by
  induction c using List.reverseRecOn with
  | nil => simp [beNat]
  | append_singleton c x ih =>
    rw [← List.append_assoc, beNat_append_singleton, beNat_append_singleton, ih, List.length_append,
      List.length_singleton]
    ring

theorem beNat_beBytes {n v : ℕ} (h : v < 256 ^ n) : beNat (beBytes n v) = v := by
  induction n generalizing v with
  | zero =>
    have : v = 0 := by simpa using h
    subst this
    rfl
  | succ n ih =>
    rw [beBytes, beNat_append_singleton, ih (by rw [pow_succ] at h; omega),
      UInt8.toNat_ofNat']
    omega

theorem beNat_lt (b : Bytes) : beNat b < 256 ^ b.length := by
  induction b using List.reverseRecOn with
  | nil => simp [beNat]
  | append_singleton b x ih =>
    rw [beNat_append_singleton, List.length_append, List.length_singleton]
    have := x.toNat_lt
    omega

variable {b : Bytes}

theorem beNat_take {k m : ℕ} (h : b.length = k + m) : beNat (b.take k) = beNat b / 256 ^ m := by
  have hm : (b.drop k).length = m := by rw [List.length_drop, h, Nat.add_sub_cancel_left]
  have hlt := beNat_lt (b.drop k)
  have hsplit := beNat_append (b.take k) (b.drop k)
  rw [List.take_append_drop] at hsplit
  rw [hm] at hlt hsplit
  rw [hsplit, Nat.mul_comm, Nat.mul_add_div (by positivity), Nat.div_eq_of_lt hlt, Nat.add_zero]

theorem beNat_inj {c : Bytes} (hlen : b.length = c.length) (h : beNat b = beNat c) : b = c := by
  induction b using List.reverseRecOn generalizing c with
  | nil => exact (List.length_eq_zero_iff.1 hlen.symm).symm
  | append_singleton b x ih =>
    rcases List.eq_nil_or_concat' c with rfl | ⟨c, y, rfl⟩
    · simp at hlen
    · rw [beNat_append_singleton, beNat_append_singleton] at h
      have hx := x.toNat_lt
      have hy := y.toNat_lt
      rw [ih (by simpa using hlen) (by omega), UInt8.toNat_inj.1 (by omega : x.toNat = y.toNat)]

theorem beNat_digits {l : List ℕ} (h : ∀ d ∈ l, d < 256) :
    beNat (l.reverse.map UInt8.ofNat) = Nat.ofDigits 256 l := by
  induction l with
  | nil => rfl
  | cons d l ih =>
    have hd := h d List.mem_cons_self
    rw [List.reverse_cons, List.map_append, List.map_singleton, beNat_append_singleton,
      ih fun x hx => h x (List.mem_cons_of_mem _ hx), Nat.ofDigits_cons, UInt8.toNat_ofNat',
      Nat.mod_eq_of_lt hd]
    ring

/-! ### Text -/

def hexDigit (d : ℕ) : UInt8 := if d < 10 then UInt8.ofNat (48 + d) else UInt8.ofNat (87 + d)

def hex (b : Bytes) : Bytes :=
  b.flatMap fun x => [hexDigit (x.toNat / 16), hexDigit (x.toNat % 16)]

def decimal (n : ℕ) : Bytes :=
  if n = 0 then [48] else (Nat.digits 10 n).reverse.map fun d => UInt8.ofNat (48 + d)

def text (b : Bytes) : String := String.ofList (b.map fun x => Char.ofNat x.toNat)

@[simp] theorem length_hex (b : Bytes) : (hex b).length = 2 * b.length := by
  induction b with
  | nil => rfl
  | cons x b ih => simp only [hex, List.flatMap_cons] at ih ⊢; simp [ih]; omega

def IsHexDigit (x : UInt8) : Prop := x ∈ str "0123456789abcdef"

instance : DecidablePred IsHexDigit :=
  fun x => inferInstanceAs (Decidable (x ∈ str "0123456789abcdef"))

theorem isHexDigit_hexDigit : ∀ d < 16, IsHexDigit (hexDigit d) := by decide

theorem hexDigit_inj : ∀ d < 16, ∀ e < 16, hexDigit d = hexDigit e → d = e := by decide

theorem isHexDigit_of_mem {x : UInt8} (h : x ∈ hex b) : IsHexDigit x := by
  obtain ⟨y, -, hx⟩ := List.mem_flatMap.1 h
  have hy := y.toNat_lt
  simp only [List.mem_cons, List.not_mem_nil, or_false] at hx
  rcases hx with rfl | rfl
  · exact isHexDigit_hexDigit _ (by omega)
  · exact isHexDigit_hexDigit _ (by omega)

theorem hex_injective : Function.Injective hex := by
  intro b
  induction b with
  | nil =>
    intro c h
    cases c with
    | nil => rfl
    | cons y c => simp [hex] at h
  | cons x b ih =>
    intro c h
    cases c with
    | nil => simp [hex] at h
    | cons y c =>
      have hx := x.toNat_lt
      have hy := y.toNat_lt
      simp only [hex, List.flatMap_cons, List.cons_append, List.cons.injEq] at h
      obtain ⟨h1, h2, h3⟩ := h
      have hdiv := hexDigit_inj _ (by omega) _ (by omega) h1
      have hmod := hexDigit_inj _ (by omega) _ (by omega) h2
      rw [UInt8.toNat_inj.1 (by omega : x.toNat = y.toNat), ih h3]

theorem mem_decimal {n : ℕ} {x : UInt8} (h : x ∈ decimal n) : 48 ≤ x.toNat ∧ x.toNat ≤ 57 := by
  unfold decimal at h
  split_ifs at h with hn
  · simp only [List.mem_singleton] at h
    subst h
    decide
  · obtain ⟨d, hd, rfl⟩ := List.mem_map.1 h
    have hlt : d < 10 := Nat.digits_lt_base (by norm_num) (List.mem_reverse.1 hd)
    rw [UInt8.toNat_ofNat']
    omega

theorem ofDigits_decimal (n : ℕ) :
    Nat.ofDigits 10 ((decimal n).reverse.map fun x => x.toNat - 48) = n := by
  unfold decimal
  split_ifs with hn
  · subst hn
    rfl
  · have hback : ((Nat.digits 10 n).map fun d => (UInt8.ofNat (48 + d)).toNat - 48) =
        Nat.digits 10 n := by
      refine (List.map_congr_left fun d hd => ?_).trans (List.map_id _)
      have hlt : d < 10 := Nat.digits_lt_base (by norm_num) hd
      rw [UInt8.toNat_ofNat', id]
      omega
    rw [← List.map_reverse, List.reverse_reverse, List.map_map]
    exact (congrArg _ hback).trans (Nat.ofDigits_digits 10 n)

theorem decimal_injective : Function.Injective decimal := fun n m h => by
  rw [← ofDigits_decimal n, h, ofDigits_decimal]

theorem decimal_ne_nil (n : ℕ) : decimal n ≠ [] := by
  unfold decimal
  split_ifs with h
  · exact List.cons_ne_nil _ _
  · intro hnil
    rw [List.map_eq_nil_iff, List.reverse_eq_nil_iff, Nat.digits_eq_nil_iff_eq_zero] at hnil
    exact h hnil

theorem length_decimal_le {n k : ℕ} (h : n < 10 ^ (k + 1)) : (decimal n).length ≤ k + 1 := by
  unfold decimal
  split_ifs
  · exact Nat.le_add_left 1 k
  · rw [List.length_map, List.length_reverse]
    exact (Nat.digits_length_le_iff (by norm_num) n).2 h

/-! ### Arrays -/

/-- `[n]byte`. -/
structure FixedBytes (n : ℕ) where
  bytes : Bytes
  length_eq : bytes.length = n
  deriving DecidableEq

namespace FixedBytes

variable {n : ℕ}

attribute [simp] length_eq

@[ext] theorem ext {a b : FixedBytes n} (h : a.bytes = b.bytes) : a = b := by
  cases a; cases b; cases h; rfl

instance : Finite (FixedBytes n) := by
  have hlt (a : FixedBytes n) : beNat a.bytes < 256 ^ n := by
    simpa using beNat_lt a.bytes
  refine Finite.of_injective (fun a => (⟨beNat a.bytes, hlt a⟩ : Fin (256 ^ n))) fun a b h => ?_
  exact ext (beNat_inj (a.length_eq.trans b.length_eq.symm) (Fin.mk.inj h))

def zero (n : ℕ) : FixedBytes n := ⟨List.replicate n 0, List.length_replicate⟩

instance : Inhabited (FixedBytes n) := ⟨zero n⟩

def copy (n : ℕ) (b : Bytes) : FixedBytes n :=
  ⟨(b ++ List.replicate n 0).take n, by simp⟩

@[simp] theorem copy_bytes (a : FixedBytes n) : copy n a.bytes = a := by
  apply ext
  simp [copy]

instance : Ord (FixedBytes n) := ⟨fun a b => compare a.bytes b.bytes⟩

instance : Std.TransOrd (FixedBytes n) where
  eq_swap := by
    intro a b
    exact Std.OrientedOrd.eq_swap (α := Bytes)
  isLE_trans := by
    intro a b c hab hbc
    exact Std.TransOrd.isLE_trans (α := Bytes) hab hbc

instance : Std.LawfulEqOrd (FixedBytes n) where
  compare_self := by
    intro a
    exact Std.ReflOrd.compare_self (α := Bytes)
  eq_of_compare := by
    intro a b h
    exact ext (Std.LawfulEqOrd.eq_of_compare (α := Bytes) h)

end FixedBytes

end Go
