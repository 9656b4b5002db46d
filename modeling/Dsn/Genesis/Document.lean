import Dsn.Go.Hex
import Dsn.Go.Map

/-!
# `genesis`: the document and its validation

The JSON document, its parser and `Validate` with every error it collects.
-/

namespace Dsn.Genesis

open Go

/-! ### The document -/

structure ConsensusParams where
  maxTxPerBlock : UInt64
  maxBytesPerBlock : UInt64
  maxGasPerBlock : UInt64

structure EpochParams where
  blocksPerEpoch : UInt64
  unstakeCooldownEpochs : UInt64
  maxValidators : UInt64
  minimumStake : UInt64

/-- An initial validator. -/
structure ValidatorEntry where
  address : Bytes
  pubKey : Bytes
  stake : UInt64
  commission : Bytes

/-- An initial account balance. -/
structure BalanceEntry where
  address : Bytes
  amount : UInt64

structure TreasuryEntry where
  address : Bytes
  initialBalance : UInt64

structure GenesisDoc where
  genesisTime : ℤ
  chainID : Bytes
  consensusParams : ConsensusParams
  epochParams : EpochParams
  initialValidators : List ValidatorEntry
  initialBalances : List BalanceEntry
  treasury : TreasuryEntry

/-! ### Parsing -/

def errInvalidAddress : Error := .new "INVALID_ADDRESS: address is invalid"

def errInvalidCommission : Error := .new "INVALID_COMMISSION: commission rate is invalid"

def validateHexAddress (addr : Bytes) : Except Error Unit :=
  if addr = [] then .ok ()
  else
    let addr := trimPrefix addr (str "0x")
    if addr.length > 40 then .error errInvalidAddress
    else if addr.length > 0 then
      match hexDecode addr with
      | .error _ => .error errInvalidAddress
      | .ok _ => .ok ()
    else .ok ()

def parseDigits : Bytes → UInt64 → Except Error UInt64
  | [], n => .ok n
  | c :: s, n =>
    if c.toNat < 48 ∨ c.toNat > 57 then .error errInvalidCommission
    else parseDigits s (n * 10 + UInt64.ofNat (c.toNat - 48))

def parseSimpleNumber (s : Bytes) : Except Error UInt64 :=
  let s := trimSpace s
  if s = [] then .error errInvalidCommission else parseDigits (trimSuffix s (str "%")) 0

def parseCommission (c : Bytes) : Except Error UInt64 := parseSimpleNumber c

def uint64ToHex (n : UInt64) : Bytes :=
  if n = 0 then str "0" else (Nat.digits 16 n.toNat).reverse.map hexDigit

def formatStake (stake : UInt64) : Bytes := trimPrefix (uint64ToHex stake) (str "0x")

/-! ### Validation -/

def errorIf (p : Prop) [Decidable p] (message : Bytes) : List Bytes := if p then [message] else []

def duplicateErrors (unicode : Bytes → Bytes) :
    List ValidatorEntry → (addrSeen pubkeySeen : Map Bytes Bool) → List Bytes
  | [], _, _ => []
  | v :: vs, addrSeen, pubkeySeen =>
    let addrLower := toLower unicode v.address
    let pubkeyLower := toLower unicode v.pubKey
    errorIf (addrSeen[addrLower]?.getD false) (str "duplicate validator address: " ++ v.address) ++
      errorIf (pubkeySeen[pubkeyLower]?.getD false)
        (str "duplicate validator pubkey: " ++ v.pubKey) ++
      duplicateErrors unicode vs (addrSeen.insert addrLower true)
        (pubkeySeen.insert pubkeyLower true)

def stakeErrors (minStake : UInt64) (v : ValidatorEntry) : List Bytes :=
  errorIf (v.stake < minStake) (str "validator stake below minimum: " ++ formatStake v.stake)

def addressErrors (addr : Bytes) : List Bytes :=
  match validateHexAddress addr with
  | .error _ => [str "invalid address: " ++ addr]
  | .ok _ => []

def commissionErrors (v : ValidatorEntry) : List Bytes :=
  match parseCommission v.commission with
  | .error _ => [str "invalid validator commission: " ++ v.commission]
  | .ok commission =>
    errorIf (commission > 10000) (str "commission rate exceeds 100%: " ++ v.commission)

def fiveMinutes : ℤ := 300000000000

def negativeErrors (value : UInt64) (name : String) : List Bytes :=
  errorIf (value < 0) (str "negative value for " ++ str name)

def collectErrors (now : ℤ) (unicode : Bytes → Bytes) (doc : GenesisDoc) : List Bytes :=
  errorIf (doc.chainID = []) (str "missing required field: chain_id") ++
  errorIf (doc.genesisTime > now + fiveMinutes) (str "genesis_time is too far in the future") ++
  negativeErrors doc.consensusParams.maxTxPerBlock "max_tx_per_block" ++
  negativeErrors doc.consensusParams.maxBytesPerBlock "max_bytes_per_block" ++
  negativeErrors doc.consensusParams.maxGasPerBlock "max_gas_per_block" ++
  negativeErrors doc.epochParams.blocksPerEpoch "blocks_per_epoch" ++
  negativeErrors doc.epochParams.unstakeCooldownEpochs "unstake_cooldown_epochs" ++
  negativeErrors doc.epochParams.maxValidators "max_validators" ++
  negativeErrors doc.epochParams.minimumStake "minimum_stake" ++
  errorIf (doc.initialValidators.length = 0) (str "no initial validators defined") ++
  duplicateErrors unicode doc.initialValidators ∅ ∅ ++
  doc.initialValidators.flatMap (stakeErrors doc.epochParams.minimumStake) ++
  doc.initialValidators.flatMap (fun v => addressErrors v.address) ++
  doc.initialBalances.flatMap (fun b => addressErrors b.address) ++
  addressErrors doc.treasury.address ++
  doc.initialValidators.flatMap commissionErrors

structure ValidationErrors where
  errors : List Bytes
  deriving DecidableEq

def validateGenesis (now : ℤ) (unicode : Bytes → Bytes) (doc : GenesisDoc) :
    Except ValidationErrors Unit :=
  let errs := collectErrors now unicode doc
  if errs.length > 0 then .error ⟨errs⟩ else .ok ()

/-! ### What is accepted -/

def IsHexAddress (addr : Bytes) : Prop :=
  (trimPrefix addr (str "0x")).length ≤ 40 ∧ ∃ b, hexDecode (trimPrefix addr (str "0x")) = .ok b

/-- A document without errors. -/
structure Accepted (now : ℤ) (unicode : Bytes → Bytes) (doc : GenesisDoc) : Prop where
  chainID : doc.chainID ≠ []
  genesisTime : doc.genesisTime ≤ now + fiveMinutes
  validators : doc.initialValidators ≠ []
  addresses_differ : (doc.initialValidators.map fun v => toLower unicode v.address).Nodup
  pubKeys_differ : (doc.initialValidators.map fun v => toLower unicode v.pubKey).Nodup
  stake : ∀ v ∈ doc.initialValidators, doc.epochParams.minimumStake ≤ v.stake
  addresses : ∀ v ∈ doc.initialValidators, IsHexAddress v.address
  balances : ∀ b ∈ doc.initialBalances, IsHexAddress b.address
  treasury : IsHexAddress doc.treasury.address
  commissions : ∀ v ∈ doc.initialValidators,
    ∃ c, parseCommission v.commission = .ok c ∧ c ≤ 10000

variable {now : ℤ} {unicode : Bytes → Bytes} {doc : GenesisDoc}

@[simp] theorem errorIf_eq_nil {p : Prop} [Decidable p] {message : Bytes} :
    errorIf p message = [] ↔ ¬ p := by
  unfold errorIf
  split_ifs with h <;> simp [h]

variable {addr : Bytes} {u : Unit}

theorem validateHexAddress_eq_ok : validateHexAddress addr = .ok u ↔ IsHexAddress addr := by
  have hnil : IsHexAddress [] := ⟨by decide, [], rfl⟩
  unfold validateHexAddress
  split_ifs with h
  · simp [h, hnil]
  · unfold IsHexAddress
    dsimp only
    generalize trimPrefix addr (str "0x") = digits
    by_cases hlong : digits.length > 40
    · rw [if_pos hlong]
      simp only [reduceCtorEq, false_iff]
      omega
    · rw [if_neg hlong]
      cases digits with
      | nil => simp [hexDecode]
      | cons c digits =>
        rw [if_pos (by simp)]
        cases hexDecode (c :: digits) with
        | error e => simp
        | ok b => simpa using hlong

@[simp] theorem addressErrors_eq_nil : addressErrors addr = [] ↔ IsHexAddress addr := by
  unfold addressErrors
  cases h : validateHexAddress addr with
  | ok u => simp [validateHexAddress_eq_ok.1 h]
  | error e =>
    have hnot : ¬ IsHexAddress addr := by
      intro hok
      rw [validateHexAddress_eq_ok (u := ()).2 hok] at h
      cases h
    simp [hnot]

variable {v : ValidatorEntry}

@[simp] theorem commissionErrors_eq_nil :
    commissionErrors v = [] ↔ ∃ c, parseCommission v.commission = .ok c ∧ c ≤ 10000 := by
  unfold commissionErrors
  cases parseCommission v.commission with
  | error e => simp
  | ok c => simp

def AllNew (f : ValidatorEntry → Bytes) (seen : Map Bytes Bool) (vs : List ValidatorEntry) : Prop :=
  (vs.map f).Nodup ∧ ∀ v ∈ vs, seen[f v]?.getD false = false

variable {f : ValidatorEntry → Bytes} {vs : List ValidatorEntry}

theorem allNew_cons {seen : Map Bytes Bool} : AllNew f seen (v :: vs) ↔
      seen[f v]?.getD false = false ∧ AllNew f (seen.insert (f v) true) vs := by
  have hseen : (∀ w ∈ vs, (seen.insert (f v) true)[f w]?.getD false = false) ↔
      f v ∉ vs.map f ∧ ∀ w ∈ vs, seen[f w]?.getD false = false := by
    simp only [List.mem_map, not_exists, not_and, ← forall_and]
    refine forall_congr' fun w => forall_congr' fun hw => ?_
    rw [Map.get_insert]
    by_cases h : f v = f w
    · simp [h]
    · simp [h, Ne.symm h]
  unfold AllNew
  rw [hseen, List.map_cons, List.nodup_cons, List.forall_mem_cons]
  tauto

theorem allNew_empty : AllNew f ∅ vs ↔ (vs.map f).Nodup := by
  simp [AllNew]

theorem duplicateErrors_eq_nil {addrSeen pubkeySeen : Map Bytes Bool} :
    duplicateErrors unicode vs addrSeen pubkeySeen = [] ↔
      AllNew (fun v => toLower unicode v.address) addrSeen vs ∧
        AllNew (fun v => toLower unicode v.pubKey) pubkeySeen vs := by
  induction vs generalizing addrSeen pubkeySeen with
  | nil => simp [duplicateErrors, AllNew]
  | cons v vs ih =>
    unfold duplicateErrors
    simp only [List.append_eq_nil_iff, errorIf_eq_nil, ih, allNew_cons, Bool.not_eq_true]
    tauto

theorem validateGenesis_eq_ok :
    validateGenesis now unicode doc = .ok u ↔ Accepted now unicode doc := by
  have hnonneg (value : UInt64) (name : String) : negativeErrors value name = [] := by
    simp [negativeErrors]
  have hnil : validateGenesis now unicode doc = .ok u ↔ collectErrors now unicode doc = [] := by
    unfold validateGenesis
    cases collectErrors now unicode doc <;> simp
  rw [hnil]
  unfold collectErrors
  simp only [List.append_eq_nil_iff, errorIf_eq_nil, hnonneg, and_true, duplicateErrors_eq_nil,
    allNew_empty, List.flatMap_eq_nil_iff, stakeErrors, addressErrors_eq_nil,
    commissionErrors_eq_nil, List.length_eq_zero_iff, gt_iff_lt, not_lt, UInt64.not_lt]
  constructor
  · rintro ⟨⟨⟨⟨⟨⟨⟨⟨h1, h2⟩, h3⟩, h4, h5⟩, h6⟩, h7⟩, h8⟩, h9⟩, h10⟩
    exact ⟨h1, h2, h3, h4, h5, h6, h7, h8, h9, h10⟩
  · rintro ⟨h1, h2, h3, h4, h5, h6, h7, h8, h9, h10⟩
    exact ⟨⟨⟨⟨⟨⟨⟨⟨h1, h2⟩, h3⟩, h4, h5⟩, h6⟩, h7⟩, h8⟩, h9⟩, h10⟩

end Dsn.Genesis
