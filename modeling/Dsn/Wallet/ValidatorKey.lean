import Dsn.Go.Hex
import Dsn.Go.Map
import Dsn.Types.Basic

/-!
# `wallet/validator.go`: validator key files

Lines of hexadecimal text. Loading compares them with each other, but derives no public key.
-/

namespace Dsn

open Go

abbrev PrivateKey := FixedBytes 64

namespace PrivateKey

def seed (priv : PrivateKey) : FixedBytes 32 := FixedBytes.copy 32 (priv.bytes.take 32)

def publicKey (priv : PrivateKey) : PublicKey := FixedBytes.copy 32 (priv.bytes.drop 32)

def join (seed : FixedBytes 32) (pub : PublicKey) : PrivateKey :=
  ⟨seed.bytes ++ pub.bytes, by rw [List.length_append, seed.length_eq, pub.length_eq]⟩

@[simp] theorem seed_join (seed : FixedBytes 32) (pub : PublicKey) :
    (join seed pub).seed = seed := by
  unfold PrivateKey.seed join
  rw [List.take_left' seed.length_eq, FixedBytes.copy_bytes]

@[simp] theorem publicKey_join (seed : FixedBytes 32) (pub : PublicKey) :
    (join seed pub).publicKey = pub := by
  unfold publicKey join
  rw [List.drop_left' seed.length_eq, FixedBytes.copy_bytes]

theorem join_self (priv : PrivateKey) : join priv.seed priv.publicKey = priv := by
  have htake : (priv.bytes.take 32).length = 32 := by rw [List.length_take, priv.length_eq]; rfl
  have hdrop : (priv.bytes.drop 32).length = 32 := by rw [List.length_drop, priv.length_eq]
  apply FixedBytes.ext
  unfold join PrivateKey.seed publicKey
  have hcopy {b : Bytes} (hb : b.length = 32) : FixedBytes.copy 32 b = ⟨b, hb⟩ :=
    FixedBytes.copy_bytes ⟨b, hb⟩
  rw [hcopy htake, hcopy hdrop]
  exact List.take_append_drop 32 priv.bytes

end PrivateKey

class Ed25519 extends Crypto where
  publicOf : FixedBytes 32 → PublicKey
  sign : PrivateKey → Bytes → Bytes
  verify_sign (priv : PrivateKey) (message : Bytes) :
    ed25519Verify priv.publicKey message (sign priv message) = true ↔
      priv.publicKey = publicOf priv.seed

structure ValidatorKey where
  privateKey : PrivateKey
  publicKey : PublicKey
  address : Address
  deriving DecidableEq

def errInvalidKeyFile : Error := .new "invalid key file"

def deriveAddress [Crypto] (pubKey : PublicKey) : Address :=
  FixedBytes.copy 20 ((sha256 pubKey.bytes).bytes.take 20)

def generateKey [Ed25519] (seed : FixedBytes 32) : PrivateKey :=
  PrivateKey.join seed (Ed25519.publicOf seed)

def generateValidatorKey [Ed25519] (random : Except Error (FixedBytes 32)) :
    Except Error ValidatorKey := do
  let priv ← (random.map generateKey).mapError (·.within "generate key")
  return ⟨priv, priv.publicKey, deriveAddress priv.publicKey⟩

/-! ### Lines -/

def byteString (c : UInt8) : Bytes :=
  if c.toNat < 128 then [c]
  else [UInt8.ofNat (192 + c.toNat / 64), UInt8.ofNat (128 + c.toNat % 64)]

def splitStep (lines : List Bytes) (c : UInt8) : List Bytes :=
  if c = 10 then
    match lines with
    | [] => []
    | last :: before => if last.length > 0 then [] :: last :: before else last :: before
  else if c ≠ 13 then
    match lines with
    | [] => [byteString c]
    | last :: before => (last ++ byteString c) :: before
  else lines

def dropTrailing : List Bytes → List Bytes
  | [] :: before => before
  | lines => lines

def splitLines (s : Bytes) : List Bytes := (dropTrailing (s.foldl splitStep [])).reverse

/-! ### Files -/

abbrev Files := Map Bytes Bytes

def readFile (files : Files) (path : Bytes) : Except Error Bytes :=
  match files[path]? with
  | some data => .ok data
  | none => .error (.new s!"open {text path}: no such file or directory")

def keyFile [Crypto] (priv : PrivateKey) (pub : PublicKey) : Bytes :=
  hex priv.bytes ++ [10] ++ (hex pub.bytes ++ [10] ++ (hex (deriveAddress pub).bytes ++ [10]))

def saveValidatorKey [Crypto] (path : Bytes) (priv : PrivateKey) (pub : PublicKey)
    (files : Files) : Files :=
  files.insert path (keyFile priv pub)

def decodeLine (what : String) (n : ℕ) (line : Bytes) : Except Error (FixedBytes n) :=
  match hexDecode line with
  | .error e => .error (.detail errInvalidKeyFile s!"invalid {what} hex: {e.text}")
  | .ok b => do
    check (b.length ≠ n) (.detail errInvalidKeyFile s!"{what} must be {n} bytes, got {b.length}")
    return FixedBytes.copy n b

def parseValidatorKey [Crypto] (data : Bytes) : Except Error ValidatorKey :=
  match splitLines data with
  | privLine :: pubLine :: addrLine :: _ => do
    let priv : PrivateKey ← decodeLine "private key" 64 privLine
    let pub ← decodeLine "public key" 32 pubLine
    let storedAddr ← decodeLine "address" 20 addrLine
    check (hex priv.publicKey.bytes ≠ hex pub.bytes)
      (.detail errInvalidKeyFile "public key does not match private key")
    check (deriveAddress pub ≠ storedAddr)
      (.detail errInvalidKeyFile "address does not match public key")
    return ⟨priv, pub, storedAddr⟩
  | lines => .error (.detail errInvalidKeyFile s!"expected 3 lines, got {lines.length}")

def loadValidatorKey [Crypto] (path : Bytes) (files : Files) : Except Error ValidatorKey := do
  let data ← (readFile files path).mapError (·.within "read key file")
  parseValidatorKey data

/-! ### What was saved is loaded -/

def Plain (c : UInt8) : Prop := c ≠ 10 ∧ c ≠ 13 ∧ c.toNat < 128

theorem plain_hex {b : Bytes} : ∀ c ∈ hex b, Plain c := by
  have hdigits : ∀ c ∈ str "0123456789abcdef", c ≠ 10 ∧ c ≠ 13 ∧ c.toNat < 128 := by
    decide +kernel
  exact fun c hc => hdigits c (isHexDigit_of_mem hc)

theorem splitStep_plain {c : UInt8} (h : Plain c) (last : Bytes) (before : List Bytes) :
    splitStep (last :: before) c = (last ++ [c]) :: before := by
  unfold splitStep byteString
  rw [if_neg h.1, if_pos h.2.1, if_pos h.2.2]

variable {line : Bytes}

section

variable (h : ∀ c ∈ line, Plain c)
include h

theorem foldl_splitStep_plain (last : Bytes) (before : List Bytes) :
    line.foldl splitStep (last :: before) = (last ++ line) :: before := by
  induction line generalizing last with
  | nil => rw [List.append_nil]; rfl
  | cons c line ih =>
    obtain ⟨hc, hline⟩ := List.forall_mem_cons.1 h
    rw [List.foldl_cons, splitStep_plain hc, ih hline, List.append_assoc]
    rfl

theorem foldl_splitStep_line (hne : line ≠ []) (before : List Bytes) :
    (line ++ [10]).foldl splitStep ([] :: before) = [] :: line :: before := by
  have hpos : line.length > 0 := List.length_pos_iff.2 hne
  rw [List.foldl_append, foldl_splitStep_plain h, List.nil_append, List.foldl_cons]
  unfold splitStep
  simp only [if_pos hpos]
  rfl

theorem foldl_splitStep_first (hne : line ≠ []) :
    (line ++ [10]).foldl splitStep [] = [[], line] := by
  obtain ⟨c, rest, rfl⟩ := List.exists_cons_of_ne_nil hne
  have hfirst : splitStep [] c = splitStep [[]] c := by
    obtain ⟨h10, h13, -⟩ := h c List.mem_cons_self
    unfold splitStep
    rw [if_neg h10, if_pos h13, if_neg h10, if_pos h13]
    rfl
  have hline := foldl_splitStep_line h hne []
  rw [List.cons_append, List.foldl_cons, hfirst]
  rwa [List.cons_append] at hline

end

theorem splitLines_three {a b c : Bytes} (ha : ∀ x ∈ a, Plain x) (hb : ∀ x ∈ b, Plain x)
    (hc : ∀ x ∈ c, Plain x) (ha' : a ≠ []) (hb' : b ≠ []) (hc' : c ≠ []) :
    splitLines (a ++ [10] ++ (b ++ [10] ++ (c ++ [10]))) = [a, b, c] := by
  unfold splitLines
  rw [List.foldl_append, foldl_splitStep_first ha ha', List.foldl_append,
    foldl_splitStep_line hb hb', foldl_splitStep_line hc hc']
  rfl

theorem decodeLine_hex (what : String) {n : ℕ} (b : FixedBytes n) :
    decodeLine what n (hex b.bytes) = .ok b := by
  unfold decodeLine
  rw [hexDecode_hex]
  refine except_bind_eq_ok.2 ⟨(), check_eq_ok.2 (not_not.2 b.length_eq), ?_⟩
  rw [FixedBytes.copy_bytes]
  rfl

theorem hex_ne_nil {n : ℕ} (b : FixedBytes n) (hn : n ≠ 0) : hex b.bytes ≠ [] := by
  intro h
  have hlen := length_hex b.bytes
  rw [h, b.length_eq, List.length_nil] at hlen
  omega

section

variable [Crypto]

theorem parseValidatorKey_keyFile (priv : PrivateKey) : parseValidatorKey
    (keyFile priv priv.publicKey) = .ok ⟨priv, priv.publicKey, deriveAddress priv.publicKey⟩ := by
  unfold parseValidatorKey keyFile
  rw [splitLines_three plain_hex plain_hex plain_hex (hex_ne_nil priv (by decide))
    (hex_ne_nil _ (by decide)) (hex_ne_nil _ (by decide))]
  simp only [decodeLine_hex]
  refine except_bind_eq_ok.2 ⟨_, rfl, ?_⟩
  refine except_bind_eq_ok.2 ⟨_, rfl, except_bind_eq_ok.2 ⟨_, rfl, ?_⟩⟩
  refine except_bind_eq_ok.2 ⟨(), check_eq_ok.2 (not_not.2 rfl), ?_⟩
  exact except_bind_eq_ok.2 ⟨(), check_eq_ok.2 (not_not.2 rfl), rfl⟩

theorem loadValidatorKey_saveValidatorKey (path : Bytes) (priv : PrivateKey) (files : Files) :
    loadValidatorKey path (saveValidatorKey path priv priv.publicKey files) =
      .ok ⟨priv, priv.publicKey, deriveAddress priv.publicKey⟩ := by
  have hread : readFile (saveValidatorKey path priv priv.publicKey files) path =
      .ok (keyFile priv priv.publicKey) := by
    unfold readFile saveValidatorKey
    rw [Map.get_insert_self]
  unfold loadValidatorKey
  rw [hread]
  exact parseValidatorKey_keyFile priv

/-! ### What is loaded -/

theorem parseValidatorKey_eq_ok {data : Bytes} {key : ValidatorKey}
    (h : parseValidatorKey data = .ok key) :
    key.publicKey = key.privateKey.publicKey ∧ key.address = deriveAddress key.publicKey := by
  unfold parseValidatorKey at h
  split at h
  · obtain ⟨priv, -, h⟩ := except_bind_eq_ok.1 h
    obtain ⟨pub, -, h⟩ := except_bind_eq_ok.1 h
    obtain ⟨addr, -, h⟩ := except_bind_eq_ok.1 h
    obtain ⟨_, hpub, h⟩ := except_bind_eq_ok.1 h
    obtain ⟨_, haddr, h⟩ := except_bind_eq_ok.1 h
    cases h
    have hhex := hex_injective (not_not.1 (check_eq_ok.1 hpub))
    exact ⟨(FixedBytes.ext hhex).symm, (not_not.1 (check_eq_ok.1 haddr)).symm⟩
  · cases h

end

section

variable [Ed25519]

structure ValidatorKey.Usable (key : ValidatorKey) : Prop where
  signs : ∀ message,
    ed25519Verify key.publicKey message (Ed25519.sign key.privateKey message) = true
  address_eq : key.address = deriveAddress key.publicKey

theorem usable_iff_of_load {path : Bytes} {files : Files} {key : ValidatorKey}
    (h : loadValidatorKey path files = .ok key) :
    key.Usable ↔ key.publicKey = Ed25519.publicOf key.privateKey.seed := by
  obtain ⟨data, -, hparse⟩ := except_bind_eq_ok.1 h
  obtain ⟨hpub, haddr⟩ := parseValidatorKey_eq_ok hparse
  have hsign := Ed25519.verify_sign key.privateKey
  rw [← hpub] at hsign
  constructor
  · intro husable
    exact (hsign []).1 (husable.signs [])
  · intro hseed
    exact ⟨fun message => (hsign message).2 hseed, haddr⟩

/-- A loaded key signs exactly when its public key is the one of the seed. -/
theorem validator_key_file :
    (∀ (path : Bytes) (files : Files) (key : ValidatorKey),
      loadValidatorKey path files = .ok key →
        (key.Usable ↔ key.publicKey = Ed25519.publicOf key.privateKey.seed)) ∧
    ∀ (random : Except Error (FixedBytes 32)) (path : Bytes) (files : Files) (key : ValidatorKey),
      generateValidatorKey random = .ok key →
        loadValidatorKey path (saveValidatorKey path key.privateKey key.publicKey files) =
          .ok key := by
  refine ⟨fun path files key => usable_iff_of_load, ?_⟩
  intro random path files key hgenerate
  obtain ⟨priv, -, h⟩ := except_bind_eq_ok.1 hgenerate
  cases h
  exact loadValidatorKey_saveValidatorKey path priv files

end

/-! ### Samples -/

@[reducible] def mirrorEd25519 : Ed25519 where
  sha256 _ := FixedBytes.copy 32 [1]
  verifies pub _ sig := decide (sig = pub.bytes ++ pub.bytes)
  publicOf seed := seed
  sign priv _ := priv.bytes
  verify_sign priv message := by
    obtain ⟨seed, pub, rfl⟩ : ∃ seed pub, priv = PrivateKey.join seed pub :=
      ⟨_, _, priv.join_self.symm⟩
    unfold ed25519Verify
    rw [Bool.and_eq_true, decide_eq_true_iff, PrivateKey.publicKey_join, PrivateKey.seed_join,
      and_iff_right (show (PrivateKey.join seed pub).bytes.length = signatureSize from
        (PrivateKey.join seed pub).length_eq)]
    show decide (seed.bytes ++ pub.bytes = pub.bytes ++ pub.bytes) = true ↔ pub = seed
    rw [decide_eq_true_iff, List.append_left_inj]
    exact ⟨fun h => (FixedBytes.ext h).symm, fun h => congrArg FixedBytes.bytes h.symm⟩

attribute [local instance] mirrorEd25519

theorem validator_key_file_generated :
    generateValidatorKey (.ok (FixedBytes.zero 32)) =
      .ok ⟨generateKey (FixedBytes.zero 32), FixedBytes.zero 32, FixedBytes.copy 20 [1]⟩ ∧
    loadValidatorKey (str "key") (saveValidatorKey (str "key") (generateKey (FixedBytes.zero 32))
      (FixedBytes.zero 32) ∅) =
        .ok ⟨generateKey (FixedBytes.zero 32), FixedBytes.zero 32, FixedBytes.copy 20 [1]⟩ ∧
    (ValidatorKey.mk (generateKey (FixedBytes.zero 32)) (FixedBytes.zero 32)
      (FixedBytes.copy 20 [1])).Usable := by
  have hgenerate : generateValidatorKey (.ok (FixedBytes.zero 32)) =
      .ok ⟨generateKey (FixedBytes.zero 32), FixedBytes.zero 32, FixedBytes.copy 20 [1]⟩ := by
    decide
  have hload := validator_key_file.2 _ (str "key") ∅ _ hgenerate
  exact ⟨hgenerate, hload, (validator_key_file.1 _ _ _ hload).2 (by decide)⟩

def brokenKey : PrivateKey := PrivateKey.join (FixedBytes.zero 32) (FixedBytes.copy 32 [1])

theorem broken_key_loaded : ¬ ∀ (_ : Ed25519) (path : Bytes) (files : Files) (key : ValidatorKey),
    loadValidatorKey path files = .ok key → key.Usable := by
  intro h
  have hload := loadValidatorKey_saveValidatorKey (str "key") brokenKey ∅
  have hseed := (usable_iff_of_load hload).1 (h _ _ _ _ hload)
  exact absurd hseed (by decide)

end Dsn
