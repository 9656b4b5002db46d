import Dsn.Types.Transaction

/-!
# Keys of the key-value store

The key of every entry, and which keys can never be equal.
-/

namespace Dsn

open Go

variable {l : List Bytes} {key t : Bytes}

/-! ### Staking -/

def keyValidatorCount : Bytes := str "validator/count"
def keyTotalBonded : Bytes := str "staking/total_bonded"
def keySlashParams : Bytes := str "staking/slash_params"
def keyCurrentEpoch : Bytes := str "epoch/current"
def keyBlocksPerEpoch : Bytes := str "epoch/blocks_per_epoch"
def keyLatestEpoch : Bytes := str "snapshot/latest"
def keyTotalSupply : Bytes := str "economics/total_supply"
def keyTreasurySupply : Bytes := str "economics/treasury_supply"
def keyIssuedSupply : Bytes := str "economics/issued_supply"

def validatorKey (consensusID : Address) : Bytes := str "validator/" ++ hex consensusID.bytes

def validatorBySeqKey (seq : UInt64) : Bytes := str "validator/by-seq/" ++ decimal seq.toNat

def validatorPubkeyKey (pubKey : PublicKey) : Bytes := str "validator/pubkey/" ++ hex pubKey.bytes

def validatorOperatorKey [Crypto] (addr : Address) : Bytes :=
  str "validator/operator/" ++ base58CheckEncode addr.bytes 0

def snapshotKey (epoch : UInt64) : Bytes := str "snapshot/" ++ decimal epoch.toNat

def epochIssuanceKey (epoch : UInt64) : Bytes :=
  str "economics/epoch_issuance/" ++ decimal epoch.toNat

def epochValidatorPoolKey (epoch : UInt64) : Bytes :=
  str "economics/epoch_validator_pool/" ++ decimal epoch.toNat

def evidenceProcessedKey (evidenceHash : Hash) : Bytes :=
  str "evidence/processed/" ++ hex evidenceHash.bytes

/-! ### Contracts -/

def codeKey (contractID : Hash) : Bytes := str "code:" ++ hex contractID.bytes

def metaKey (contractID : Hash) : Bytes := str "meta:" ++ hex contractID.bytes

def storageKey [Crypto] (contractID : Hash) (key : Bytes) : Bytes :=
  str "storage:" ++ hex contractID.bytes ++ str ":" ++ hex (sha256 key).bytes

def contractTexts : List Bytes := [str "code:", str "meta:", str "storage:"]

def transactionTexts : List Bytes := contractTexts ++ [str "validator/", str "staking/"]

def registryTexts : List Bytes := [str "validator/", str "staking/"]

def StartsWith (texts : List Bytes) (key : Bytes) : Prop := ∃ t ∈ texts, t <+: key

theorem StartsWith.mono {l' : List Bytes} (h : l ⊆ l') (hk : StartsWith l key) :
    StartsWith l' key := by
  obtain ⟨t, ht, hp⟩ := hk
  exact ⟨t, h ht, hp⟩

theorem startsWith_append (h : t ∈ l) (b : Bytes) :
    StartsWith l (t ++ b) := ⟨t, h, t.prefix_append b⟩

theorem not_startsWith_append (h : ∀ u ∈ l, ¬ u <+: t ∧ ¬ t <+: u) (b : Bytes) :
    ¬ StartsWith l (t ++ b) := by
  rintro ⟨u, hu, hp⟩
  rcases List.prefix_or_prefix_of_prefix hp (t.prefix_append b) with h' | h'
  · exact (h u hu).1 h'
  · exact (h u hu).2 h'

theorem append_ne_append {u : Bytes} (h : ¬ u <+: t ∧ ¬ t <+: u) (a b : Bytes) :
    t ++ a ≠ u ++ b := by
  intro heq
  have hp : u <+: t ++ a := heq ▸ u.prefix_append b
  rcases List.prefix_or_prefix_of_prefix hp (t.prefix_append a) with h' | h'
  · exact h.1 h'
  · exact h.2 h'

theorem contractTexts_subset : contractTexts ⊆ transactionTexts := List.subset_append_left _ _

theorem startsWith_keyTotalBonded : StartsWith registryTexts keyTotalBonded :=
  ⟨str "staking/", by decide, by decide⟩

theorem startsWith_codeKey (id : Hash) : StartsWith contractTexts (codeKey id) :=
  startsWith_append (by decide) _

theorem startsWith_metaKey (id : Hash) : StartsWith contractTexts (metaKey id) :=
  startsWith_append (by decide) _

theorem storageKey_startsWith [Crypto] (id : Hash) (slot : Bytes) :
    StartsWith [str "storage:"] (storageKey id slot) := by
  unfold storageKey
  rw [List.append_assoc, List.append_assoc]
  exact startsWith_append (by decide) _

theorem startsWith_storageKey [Crypto] (id : Hash) (key : Bytes) :
    StartsWith contractTexts (storageKey id key) :=
  (storageKey_startsWith id key).mono (by decide)

theorem metaKey_injective : Function.Injective metaKey := fun _ _ h =>
  FixedBytes.ext (hex_injective (List.append_cancel_left h))

theorem codeKey_injective : Function.Injective codeKey := fun _ _ h =>
  FixedBytes.ext (hex_injective (List.append_cancel_left h))

theorem codeKey_ne_metaKey (hash id : Hash) : codeKey hash ≠ metaKey id :=
  append_ne_append (by decide) _ _

theorem storageKey_id_inj [Crypto] {id id' : Hash} {key' : Bytes}
    (h : storageKey id key = storageKey id' key') : id = id' := by
  have hlength : (hex id.bytes).length = (hex id'.bytes).length := by
    rw [length_hex, length_hex, id.length_eq, id'.length_eq]
  unfold storageKey at h
  simp only [List.append_assoc] at h
  exact FixedBytes.ext (hex_injective (List.append_inj_left (List.append_cancel_left h) hlength))

theorem not_startsWith_snapshotKey (epoch : UInt64) :
    ¬ StartsWith transactionTexts (snapshotKey epoch) :=
  not_startsWith_append (by decide) _

theorem snapshotKey_injective : Function.Injective snapshotKey := fun _ _ h =>
  UInt64.toNat_inj.1 (decimal_injective (List.append_cancel_left h))

theorem validatorKey_injective : Function.Injective validatorKey := fun _ _ h =>
  FixedBytes.ext (hex_injective (List.append_cancel_left h))

theorem validatorOperatorKey_injective [Crypto] : Function.Injective validatorOperatorKey := by
  intro a b h
  exact FixedBytes.ext (base58CheckEncode_inj (a.length_eq.trans b.length_eq.symm)
    (List.append_cancel_left h))

theorem validatorPubkeyKey_injective : Function.Injective validatorPubkeyKey := fun _ _ h =>
  FixedBytes.ext (hex_injective (List.append_cancel_left h))

theorem validatorBySeqKey_injective : Function.Injective validatorBySeqKey := fun _ _ h =>
  UInt64.toNat_inj.1 (decimal_injective (List.append_cancel_left h))

/-! ### The keys of the registry -/

theorem validatorKey_starts (id : Address) : str "validator/" <+: validatorKey id :=
  List.prefix_append _ _

theorem validatorBySeqKey_starts (seq : UInt64) : str "validator/" <+: validatorBySeqKey seq :=
  (by decide : str "validator/" <+: str "validator/by-seq/").trans (List.prefix_append _ _)

theorem validatorPubkeyKey_starts (k : PublicKey) : str "validator/" <+: validatorPubkeyKey k :=
  (by decide : str "validator/" <+: str "validator/pubkey/").trans (List.prefix_append _ _)

theorem validatorOperatorKey_starts [Crypto] (addr : Address) :
    str "validator/" <+: validatorOperatorKey addr :=
  (by decide : str "validator/" <+: str "validator/operator/").trans (List.prefix_append _ _)

theorem keyValidatorCount_starts : str "validator/" <+: keyValidatorCount := by decide

theorem validatorKey_ne_append (id : Address) {c : UInt8} (hc : c ∈ t) (h : ¬ IsHexDigit c) :
    validatorKey id ≠ str "validator/" ++ t := by
  intro heq
  have ht : t = hex id.bytes := (List.append_cancel_left heq).symm
  rw [ht] at hc
  exact h (isHexDigit_of_mem hc)

theorem validatorKey_ne_count (id : Address) : validatorKey id ≠ keyValidatorCount :=
  validatorKey_ne_append (c := 111) id (t := str "count") (by decide) (by decide)

theorem validatorKey_ne_pubkey (id : Address) (k : PublicKey) :
    validatorKey id ≠ validatorPubkeyKey k := by
  have hsplit : validatorPubkeyKey k = str "validator/" ++ (str "pubkey/" ++ hex k.bytes) := by
    rfl
  rw [hsplit]
  exact validatorKey_ne_append (c := 112) id (List.mem_append_left _ (by decide)) (by decide)

theorem validatorKey_ne_operator [Crypto] (id addr : Address) :
    validatorKey id ≠ validatorOperatorKey addr := by
  have hsplit : validatorOperatorKey addr =
      str "validator/" ++ (str "operator/" ++ base58CheckEncode addr.bytes 0) := by
    rfl
  rw [hsplit]
  exact validatorKey_ne_append (c := 112) id (List.mem_append_left _ (by decide)) (by decide)

theorem validatorKey_ne_bySeq (id : Address) (seq : UInt64) :
    validatorKey id ≠ validatorBySeqKey seq := by
  have hsplit : validatorBySeqKey seq =
      str "validator/" ++ (str "by-seq/" ++ decimal seq.toNat) := by
    rfl
  rw [hsplit]
  exact validatorKey_ne_append (c := 121) id (List.mem_append_left _ (by decide)) (by decide)

theorem validatorPubkeyKey_ne_count (k : PublicKey) : validatorPubkeyKey k ≠ keyValidatorCount :=
  append_ne_append (u := keyValidatorCount) (by decide) _ []

theorem validatorOperatorKey_ne_count [Crypto] (addr : Address) :
    validatorOperatorKey addr ≠ keyValidatorCount :=
  append_ne_append (u := keyValidatorCount) (by decide) _ []

theorem validatorPubkeyKey_ne_bySeq (k : PublicKey) (seq : UInt64) :
    validatorPubkeyKey k ≠ validatorBySeqKey seq := append_ne_append (by decide) _ _

theorem validatorOperatorKey_ne_bySeq [Crypto] (addr : Address) (seq : UInt64) :
    validatorOperatorKey addr ≠ validatorBySeqKey seq := append_ne_append (by decide) _ _

theorem validatorPubkeyKey_ne_operator [Crypto] (k : PublicKey) (addr : Address) :
    validatorPubkeyKey k ≠ validatorOperatorKey addr := append_ne_append (by decide) _ _

theorem ne_validatorKey_of_not_starts (h : ¬ str "validator/" <+: key) (id : Address) :
    key ≠ validatorKey id := by
  rintro rfl
  exact h (List.prefix_append _ _)

theorem validatorKey_ne_totalBonded (id : Address) : validatorKey id ≠ keyTotalBonded :=
  (ne_validatorKey_of_not_starts (by decide) id).symm

theorem validatorPubkeyKey_ne_totalBonded (k : PublicKey) :
    validatorPubkeyKey k ≠ keyTotalBonded := by
  intro h
  have hpre : str "validator/" <+: keyTotalBonded := h ▸ validatorPubkeyKey_starts k
  exact absurd hpre (by decide)

theorem validatorOperatorKey_ne_totalBonded [Crypto] (addr : Address) :
    validatorOperatorKey addr ≠ keyTotalBonded := by
  intro h
  have hpre : str "validator/" <+: keyTotalBonded := h ▸ validatorOperatorKey_starts addr
  exact absurd hpre (by decide)

theorem not_startsWith_registryKey (b : Bytes) :
    ¬ StartsWith contractTexts (str "validator/" ++ b) :=
  not_startsWith_append (by decide) _

end Dsn
