import Dsn.Go.Bytes

/-!
# `unicode/utf8`

The runes of a byte string; an invalid byte counts as U+FFFD.
-/

namespace Go

def runeError : Char := Char.ofNat 0xFFFD

def leadByte (b : ℕ) : Option (ℕ × ℕ × ℕ) :=
  if b < 0xC2 then none
  else if b < 0xE0 then some (1, 0x80, 0xBF)
  else if b = 0xE0 then some (2, 0xA0, 0xBF)
  else if b = 0xED then some (2, 0x80, 0x9F)
  else if b < 0xF0 then some (2, 0x80, 0xBF)
  else if b = 0xF0 then some (3, 0x90, 0xBF)
  else if b < 0xF4 then some (3, 0x80, 0xBF)
  else if b = 0xF4 then some (3, 0x80, 0x8F)
  else none

def decodeRune (b : UInt8) (rest : Bytes) : Char × ℕ :=
  if b < 0x80 then (Char.ofNat b.toNat, 0)
  else
    match leadByte b.toNat with
    | none => (runeError, 0)
    | some (n, lo, hi) =>
      let tail := rest.take n
      let second := (tail.headD 0).toNat
      if tail.length = n ∧ lo ≤ second ∧ second ≤ hi ∧ tail.all (·.toNat / 64 = 2) then
        (Char.ofNat (tail.foldl (fun v x => v * 64 + x.toNat % 64) (b.toNat % 2 ^ (6 - n))), n)
      else (runeError, 0)

def runesFrom : ℕ → Bytes → List Char
  | _, [] => []
  | skip + 1, _ :: rest => runesFrom skip rest
  | 0, b :: rest =>
    let (c, n) := decodeRune b rest
    c :: runesFrom n rest

def runes (s : Bytes) : List Char := runesFrom 0 s

-- a character of two bytes, and a byte that starts none
example : runes [0xC3, 0xA9, 0xFF, 49] = ['é', runeError, '1'] := by decide +kernel

def utf8Text (s : Bytes) : String := String.ofList (runes s)

theorem runes_of_ascii {s : Bytes} (h : ∀ x ∈ s, x < 0x80) :
    runes s = s.map fun x => Char.ofNat x.toNat := by
  unfold runes
  induction s with
  | nil => rfl
  | cons b s ih =>
    have hb : decodeRune b s = (Char.ofNat b.toNat, 0) := if_pos (h b List.mem_cons_self)
    rw [runesFrom, hb, List.map_cons, ← ih fun x hx => h x (List.mem_cons_of_mem _ hx)]

theorem utf8Text_of_ascii {s : Bytes} (h : ∀ x ∈ s, x < 0x80) : utf8Text s = text s :=
  congrArg String.ofList (runes_of_ascii h)

end Go
