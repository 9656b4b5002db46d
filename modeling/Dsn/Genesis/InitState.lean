import Dsn.Genesis.Document
import Dsn.Go.Bolt
import Dsn.State.Supply

/-!
# `genesis`: the initial state

`InitGenesisState` parses the texts of the document again, in its own way. `Sound` is what it needs
beyond what validation has checked.
-/

namespace Dsn.Genesis

open Go

variable {s : Bytes} {a : Address} {n : UInt64} {v : ValidatorEntry}

/-! ### Parsing -/

def stripHexPrefix (s : Bytes) : Bytes :=
  if s.length ≥ 2 ∧ s.take 2 = str "0x" then s.drop 2 else s

def parseAddress (addrStr : Bytes) : Except Error Address := do
  let addrStr := stripHexPrefix addrStr
  check (addrStr = []) errInvalidAddress
  let addrBytes ← (hexDecode addrStr).mapError fun _ => errInvalidAddress
  addressFromBytes addrBytes

def parseCommissionToUint64 (c : Bytes) : Except Error UInt64 :=
  parseDigits (trimSuffix (stripHexPrefix c) (str "%")) 0

/-! ### The initial state -/

def validatorBucketName : Bytes := str "validators"

def insertBalance (s : InMemoryState) (b : BalanceEntry) : Except Error InMemoryState := do
  let addr ← parseAddress b.address
  let acc ← (newAccount addr (FixedBytes.zero 32)).addBalance (.ofUInt64 b.amount)
  return s.setAccount addr acc

def insertTreasury (t : TreasuryEntry) (s : InMemoryState) : Except Error InMemoryState :=
  if t.address ≠ [] ∧ t.initialBalance > 0 then insertBalance s ⟨t.address, t.initialBalance⟩
  else .ok s

def genesisAccounts (doc : GenesisDoc) : Except Error InMemoryState := do
  let s ← insertTreasury doc.treasury newInMemoryState
  doc.initialBalances.foldlM insertBalance s

def encodeValidatorEntry (addr : Address) (pubKey : Bytes) (stake commission : UInt64) : Bytes :=
  addr.bytes ++ [UInt8.ofNat pubKey.length] ++ pubKey ++ putUint64 stake ++ putUint64 commission

def validatorRecord (v : ValidatorEntry) : Except Error (Bytes × Bytes) := do
  let addr ← parseAddress v.address
  let pubKey ← hexDecode (stripHexPrefix v.pubKey)
  let commission ← parseCommissionToUint64 v.commission
  return (addr.bytes, encodeValidatorEntry addr pubKey v.stake commission)

def insertValidator (v : ValidatorEntry) : Exec Bolt.DB Unit := do
  let e ← ofResult (validatorRecord v)
  Bolt.update (Bolt.put validatorBucketName e.1 e.2)

def initGenesisState [Crypto] (doc : GenesisDoc) : Exec Bolt.DB Hash :=
  wrapErr "GENESIS_VALIDATION_FAILED: genesis validation failed" do
    let s ← ofResult (genesisAccounts doc)
    Bolt.update (Bolt.createBucketIfNotExists validatorBucketName)
    doc.initialValidators.forM insertValidator
    return s.stateRoot

/-! ### What the parsers accept -/

theorem stripHexPrefix_eq (s : Bytes) : stripHexPrefix s = trimPrefix s (str "0x") := by
  have hlen : (str "0x").length = 2 := by decide
  have hiff : str "0x" <+: s ↔ s.length ≥ 2 ∧ s.take 2 = str "0x" := by
    rw [List.prefix_iff_eq_take]
    constructor
    · intro h
      refine ⟨?_, h.symm⟩
      have hle := congrArg List.length h
      rw [List.length_take] at hle
      omega
    · exact fun h => h.2.symm
  unfold trimPrefix
  exact if_congr hiff.symm rfl rfl

theorem parseAddress_eq_ok :
    parseAddress s = .ok a ↔ hexDecode (stripHexPrefix s) = .ok a.bytes := by
  unfold parseAddress
  simp only [except_bind_eq_ok, check_eq_ok, mapError_eq_ok]
  constructor
  · rintro ⟨-, -, b, hb, ha⟩
    unfold addressFromBytes at ha
    split_ifs at ha
    cases ha
    exact hb
  · intro h
    refine ⟨(), fun hnil => ?_, a.bytes, h, addressFromBytes_bytes a⟩
    have hlen := length_of_hexDecode h
    rw [hnil, a.length_eq] at hlen
    cases hlen

def digits (s : Bytes) : Bytes := (stripHexPrefix s).map lowerByte

theorem exists_parseAddress (h : IsHexAddress s) :
    (∃ a, parseAddress s = .ok a) ↔ (stripHexPrefix s).length = 40 := by
  obtain ⟨-, b, hb⟩ := h
  rw [← stripHexPrefix_eq] at hb
  have hlen := length_of_hexDecode hb
  constructor
  · rintro ⟨a, ha⟩
    rw [parseAddress_eq_ok, hb] at ha
    rw [hlen, Except.ok.inj ha, a.length_eq]
  · intro h40
    exact ⟨⟨b, by omega⟩, parseAddress_eq_ok.2 hb⟩

theorem parseAddress_eq_iff {t : Bytes} {b : Address} (hs : parseAddress s = .ok a)
    (ht : parseAddress t = .ok b) : a = b ↔ digits s = digits t := by
  rw [parseAddress_eq_ok] at hs ht
  exact FixedBytes.ext_iff.trans (hexDecode_inj_iff hs ht)

theorem forall_digit {m : UInt64} (h : parseDigits s n = .ok m) :
    ∀ c ∈ s, 48 ≤ c.toNat ∧ c.toNat ≤ 57 := by
  induction s generalizing n with
  | nil => simp
  | cons c s ih =>
    unfold parseDigits at h
    split_ifs at h with hc
    rw [List.forall_mem_cons]
    exact ⟨by omega, ih h⟩

theorem trimSpace_of_parseCommissionToUint64 {c : Bytes} (h : parseCommissionToUint64 c = .ok n) :
    trimSpace c = c := by
  have hpercent : ∀ x ∈ str "%", 32 < x.toNat ∧ x.toNat < 127 := by decide +kernel
  have hstart : ∀ x ∈ str "0x", 32 < x.toNat ∧ x.toNat < 127 := by decide +kernel
  refine trimSpace_of_visible fun x hx => ?_
  rcases mem_or_mem_trimPrefix (str "0x") hx with hx | hx
  · exact hstart x hx
  · rw [← stripHexPrefix_eq] at hx
    rcases mem_or_mem_trimSuffix (str "%") hx with hx | hx
    · exact hpercent x hx
    · have := forall_digit h x hx
      omega

theorem parseCommissionToUint64_of_trim {c : Bytes} (h : parseCommission c = .ok n)
    (htrim : trimSpace c = c) :
    parseCommissionToUint64 c = .ok n := by
  unfold parseCommission parseSimpleNumber at h
  dsimp only at h
  rw [htrim] at h
  split_ifs at h with hne
  -- there is no `x` among digits and a percent sign
  have hno : ¬ str "0x" <+: c := by
    intro hstart
    have hx : (120 : UInt8) ∈ c := hstart.subset (by decide)
    rcases mem_or_mem_trimSuffix (str "%") hx with hx | hx
    · revert hx
      decide
    · exact absurd (forall_digit h _ hx).2 (by decide)
  unfold parseCommissionToUint64
  rw [stripHexPrefix_eq, trimPrefix, if_neg hno]
  exact h

/-! ### The accounts -/

def addressOf (s : Bytes) : Address :=
  match parseAddress s with
  | .ok a => a
  | .error _ => zeroAddress

theorem addressOf_eq (h : parseAddress s = .ok a) : addressOf s = a := by
  unfold addressOf
  rw [h]

def BalanceEntry.opened (b : BalanceEntry) : Address × Account :=
  (addressOf b.address, { newAccount (addressOf b.address) (FixedBytes.zero 32) with
    balance := .ofUInt64 b.amount })

def GenesisDoc.funded (doc : GenesisDoc) : List BalanceEntry :=
  if doc.treasury.address ≠ [] ∧ doc.treasury.initialBalance > 0 then
    ⟨doc.treasury.address, doc.treasury.initialBalance⟩ :: doc.initialBalances
  else doc.initialBalances

def sumAmounts (l : List BalanceEntry) : ℕ := (l.map fun b => b.amount.toNat).sum

section

variable {doc : GenesisDoc} {s s' : InMemoryState}

theorem insertBalance_eq_ok {b : BalanceEntry} : insertBalance s b = .ok s' ↔
    (∃ a, parseAddress b.address = .ok a) ∧ s' = s.setAccount b.opened.1 b.opened.2 := by
  have hadd (a : Address) (acc : Account) :
      (newAccount a (FixedBytes.zero 32)).addBalance (.ofUInt64 b.amount) = .ok acc ↔
        acc = { newAccount a (FixedBytes.zero 32) with balance := .ofUInt64 b.amount } := by
    have hsum : (newAccount a (FixedBytes.zero 32)).balance.add (.ofUInt64 b.amount) =
        .ok (.ofUInt64 b.amount) := by
      refine Amount.add_eq_ok.2 ?_
      simp [newAccount]
    unfold Account.addBalance
    rw [hsum]
    exact ⟨fun h => (Except.ok.inj h).symm, fun h => congrArg Except.ok h.symm⟩
  unfold insertBalance
  simp only [except_bind_eq_ok, hadd]
  constructor
  · rintro ⟨a, ha, acc, rfl, h⟩
    cases h
    refine ⟨⟨a, ha⟩, ?_⟩
    rw [BalanceEntry.opened, addressOf_eq ha]
  · rintro ⟨⟨a, ha⟩, rfl⟩
    refine ⟨a, ha, _, rfl, ?_⟩
    rw [BalanceEntry.opened, addressOf_eq ha]
    rfl

theorem foldlM_insertBalance_eq_ok {l : List BalanceEntry} : l.foldlM insertBalance s = .ok s' ↔
    (∀ b ∈ l, ∃ a, parseAddress b.address = .ok a) ∧
      s' = { s with accounts := Map.insertAll s.accounts (l.map BalanceEntry.opened) } := by
  induction l generalizing s with
  | nil =>
    simp only [List.foldlM_nil, List.not_mem_nil, false_implies, implies_true, true_and,
      List.map_nil]
    exact ⟨fun h => (Except.ok.inj h).symm, fun h => congrArg Except.ok h.symm⟩
  | cons b l ih =>
    rw [List.foldlM_cons, except_bind_eq_ok, List.forall_mem_cons, List.map_cons]
    constructor
    · rintro ⟨s1, h1, h2⟩
      obtain ⟨ha, rfl⟩ := insertBalance_eq_ok.1 h1
      obtain ⟨hall, rfl⟩ := ih.1 h2
      exact ⟨⟨ha, hall⟩, rfl⟩
    · rintro ⟨⟨ha, hall⟩, rfl⟩
      exact ⟨_, insertBalance_eq_ok.2 ⟨ha, rfl⟩, ih.2 ⟨hall, rfl⟩⟩

theorem genesisAccounts_eq (doc : GenesisDoc) :
    genesisAccounts doc = doc.funded.foldlM insertBalance newInMemoryState := by
  unfold genesisAccounts insertTreasury GenesisDoc.funded
  split_ifs with h
  · rfl
  · rfl

def GenesisDoc.ledger (doc : GenesisDoc) : InMemoryState :=
  { newInMemoryState with accounts := Map.insertAll ∅ (doc.funded.map BalanceEntry.opened) }

theorem genesisAccounts_eq_ok : genesisAccounts doc = .ok s ↔
    (∀ b ∈ doc.funded, ∃ a, parseAddress b.address = .ok a) ∧ s = doc.ledger := by
  rw [genesisAccounts_eq]
  exact foldlM_insertBalance_eq_ok

theorem sum_opened (l : List BalanceEntry) :
    ((l.map BalanceEntry.opened).map fun e => e.2.balance.val).sum = sumAmounts l := by
  rw [List.map_map]
  rfl

theorem supply_ledger_le (doc : GenesisDoc) : supply doc.ledger ≤ sumAmounts doc.funded := by
  have hle := Map.total_insertAll_le (fun acc : Account => acc.balance.val) ∅
    (doc.funded.map BalanceEntry.opened)
  rw [sum_opened] at hle
  rwa [Map.total_empty, zero_add] at hle

theorem supply_ledger_eq_iff (h : ∀ b ∈ doc.funded, ∃ a, parseAddress b.address = .ok a) :
    supply doc.ledger = sumAmounts doc.funded ↔
      doc.funded.Pairwise fun b b' => digits b.address = digits b'.address → b.amount = 0 := by
  have htotal := Map.total_insertAll_eq_iff (fun acc : Account => acc.balance.val) ∅
    (doc.funded.map BalanceEntry.opened)
  rw [sum_opened, List.pairwise_map] at htotal
  simp only [Map.total_empty, zero_add, Std.ExtTreeMap.getElem?_empty, Option.elim_none,
    implies_true, and_true] at htotal
  refine htotal.trans ⟨fun hpair => ?_, fun hpair => ?_⟩
  all_goals
    refine hpair.imp_of_mem fun {b b'} hb hb' hzero heq => ?_
    obtain ⟨a, ha⟩ := h b hb
    obtain ⟨a', ha'⟩ := h b' hb'
    have hiff := parseAddress_eq_iff ha ha'
    rw [← addressOf_eq ha, ← addressOf_eq ha'] at hiff
  · exact UInt64.toNat_inj.1 (hzero (hiff.2 heq))
  · exact congrArg UInt64.toNat (hzero (hiff.1 heq))

end

/-! ### The validators -/

def recordOf (v : ValidatorEntry) : Bytes × Bytes :=
  match validatorRecord v with
  | .ok e => e
  | .error _ => ([], [])

variable {e : Bytes × Bytes}

theorem recordOf_eq (h : validatorRecord v = .ok e) : recordOf v = e := by
  unfold recordOf
  rw [h]

theorem validatorRecord_eq_ok :
    validatorRecord v = .ok e ↔ ∃ a key c, parseAddress v.address = .ok a ∧
      hexDecode (stripHexPrefix v.pubKey) = .ok key ∧ parseCommissionToUint64 v.commission = .ok c ∧
        e = (a.bytes, encodeValidatorEntry a key v.stake c) := by
  unfold validatorRecord
  simp only [except_bind_eq_ok]
  constructor
  · rintro ⟨a, ha, key, hkey, c, hc, h⟩
    cases h
    exact ⟨a, key, c, ha, hkey, hc, rfl⟩
  · rintro ⟨a, key, c, ha, hkey, hc, rfl⟩
    exact ⟨a, ha, key, hkey, c, hc, rfl⟩

section

variable {db db' : Bolt.DB}

theorem forM_insertValidator_eq_ok {vs : List ValidatorEntry} {u : Unit} :
    vs.forM insertValidator db = .ok u db' ↔ (∀ v ∈ vs, ∃ e, validatorRecord v = .ok e) ∧
      Bolt.putAll validatorBucketName (vs.map recordOf) db = .ok u db' := by
  induction vs generalizing db with
  | nil => simp [Bolt.putAll]
  | cons v vs ih =>
    have hone {db1 : Bolt.DB} {u : Unit} : insertValidator v db = .ok u db1 ↔
        (∃ e, validatorRecord v = .ok e) ∧
          Bolt.put validatorBucketName (recordOf v).1 (recordOf v).2 db = .ok u db1 := by
      unfold insertValidator
      simp only [ofResult_bind_eq_ok, Bolt.update_eq_ok]
      constructor
      · rintro ⟨e, he, hput⟩
        exact ⟨⟨e, he⟩, recordOf_eq he ▸ hput⟩
      · rintro ⟨⟨e, he⟩, hput⟩
        exact ⟨e, he, recordOf_eq he ▸ hput⟩
    rw [List.forall_mem_cons]
    constructor
    · intro h
      obtain ⟨_, db1, h1, h2⟩ := bind_eq_ok.1 h
      obtain ⟨he, hput⟩ := hone.1 h1
      obtain ⟨hall, hrest⟩ := ih.1 h2
      exact ⟨⟨he, hall⟩, bind_eq_ok.2 ⟨(), db1, hput, hrest⟩⟩
    · rintro ⟨⟨he, hall⟩, h⟩
      obtain ⟨_, db1, hput, hrest⟩ := bind_eq_ok.1 h
      exact bind_eq_ok.2 ⟨(), db1, hone.2 ⟨he, hput⟩, ih.2 ⟨hall, hrest⟩⟩

variable [Crypto] {doc : GenesisDoc}

theorem initGenesisState_eq_ok {root : Hash} : initGenesisState doc db = .ok root db' ↔
    (∀ b ∈ doc.funded, ∃ a, parseAddress b.address = .ok a) ∧
    (∀ v ∈ doc.initialValidators, ∃ e, validatorRecord v = .ok e) ∧
    (∀ v ∈ doc.initialValidators, Bolt.Storable (recordOf v).1 (recordOf v).2) ∧
      root = doc.ledger.stateRoot ∧
      db' = db.insert validatorBucketName (Map.insertAll (db[validatorBucketName]?.getD ∅)
        (doc.initialValidators.map recordOf)) := by
  have hbucket := Map.get_insert_self db validatorBucketName (db[validatorBucketName]?.getD ∅)
  have hcreate : Bolt.update (Bolt.createBucketIfNotExists validatorBucketName) db =
      .ok () (db.insert validatorBucketName (db[validatorBucketName]?.getD ∅)) :=
    Bolt.update_eq_ok.2 (Bolt.createBucketIfNotExists_run _ _)
  unfold initGenesisState
  rw [wrapErr_eq_ok]
  constructor
  · intro h
    obtain ⟨s, haccounts, h⟩ := ofResult_bind_eq_ok.1 h
    obtain ⟨hparse, rfl⟩ := genesisAccounts_eq_ok.1 haccounts
    rw [bind_eq_ok_of hcreate] at h
    obtain ⟨_, db1, hloop, hroot⟩ := bind_eq_ok.1 h
    obtain ⟨hrecord, hput⟩ := forM_insertValidator_eq_ok.1 hloop
    obtain ⟨hstorable, rfl⟩ := (Bolt.putAll_eq_ok hbucket).1 hput
    obtain ⟨rfl, rfl⟩ := pure_eq_ok.1 hroot
    refine ⟨hparse, hrecord, fun v hv => hstorable _ (List.mem_map_of_mem hv), rfl, ?_⟩
    exact Map.insert_insert _ _ _ _
  · rintro ⟨hparse, hrecord, hstorable, rfl, rfl⟩
    refine bind_eq_ok.2 ⟨_, db, ofResult_eq_ok.2 ⟨genesisAccounts_eq_ok.2 ⟨hparse, rfl⟩, rfl⟩, ?_⟩
    rw [bind_eq_ok_of hcreate]
    refine bind_eq_ok.2 ⟨(), _, forM_insertValidator_eq_ok.2 ⟨hrecord, (Bolt.putAll_eq_ok hbucket).2
      ⟨List.forall_mem_map.2 hstorable, rfl⟩⟩, pure_eq_ok.2 ⟨rfl, ?_⟩⟩
    exact Map.insert_insert _ _ _ _

end

/-! ### Documents that pass validation -/

structure SoundInit [Crypto] (doc : GenesisDoc) (db : Bolt.DB) (s : InMemoryState)
    (db' : Bolt.DB) : Prop where
  accounts : genesisAccounts doc = .ok s
  init : initGenesisState doc db = .ok s.stateRoot db'
  addresses : ∀ v ∈ doc.initialValidators, ∃ a : Address, parseAddress v.address = .ok a
  addresses_differ :
    doc.initialValidators.Pairwise fun v w => parseAddress v.address ≠ parseAddress w.address
  pubKeys : ∀ v ∈ doc.initialValidators,
    ∃ key : PublicKey, hexDecode (stripHexPrefix v.pubKey) = .ok key.bytes
  pubKeys_differ : doc.initialValidators.Pairwise fun v w =>
    hexDecode (stripHexPrefix v.pubKey) ≠ hexDecode (stripHexPrefix w.pubKey)
  commissions : ∀ v ∈ doc.initialValidators, ∃ a key c, parseAddress v.address = .ok a ∧
    Bolt.lookup db' validatorBucketName a.bytes = some (encodeValidatorEntry a key v.stake c) ∧
      c ≤ 10000
  supply : supply s = doc.treasury.initialBalance.toNat + sumAmounts doc.initialBalances

def Sound [Crypto] (doc : GenesisDoc) (db : Bolt.DB) : Prop := ∃ s db', SoundInit doc db s db'

def TreasuryEntry.entry (t : TreasuryEntry) : BalanceEntry := ⟨t.address, t.initialBalance⟩

structure Initializable (doc : GenesisDoc) : Prop where
  addresses : ∀ v ∈ doc.initialValidators, (stripHexPrefix v.address).length = 40
  addresses_differ : doc.initialValidators.Pairwise fun v w => digits v.address ≠ digits w.address
  pubKeys : ∀ v ∈ doc.initialValidators, (stripHexPrefix v.pubKey).length = 64 ∧
    ∀ c ∈ stripHexPrefix v.pubKey, (hexValue c).isSome
  pubKeys_differ : doc.initialValidators.Pairwise fun v w => digits v.pubKey ≠ digits w.pubKey
  commissions : ∀ v ∈ doc.initialValidators, trimSpace v.commission = v.commission
  balances : ∀ b ∈ doc.initialBalances, (stripHexPrefix b.address).length = 40
  treasury : doc.treasury.initialBalance = 0 ∨ (stripHexPrefix doc.treasury.address).length = 40
  kept : (doc.treasury.entry :: doc.initialBalances).Pairwise fun b b' =>
    digits b.address = digits b'.address → b.amount = 0

section

variable {now : ℤ} {unicode : Bytes → Bytes} {doc : GenesisDoc}

theorem supply_ledger_iff (h : ∀ b ∈ doc.funded, ∃ a, parseAddress b.address = .ok a) :
    supply doc.ledger = doc.treasury.initialBalance.toNat + sumAmounts doc.initialBalances ↔
      (doc.treasury.initialBalance = 0 ∨ doc.treasury.address ≠ []) ∧
        (doc.treasury.entry :: doc.initialBalances).Pairwise fun b b' =>
          digits b.address = digits b'.address → b.amount = 0 := by
  have hle := supply_ledger_le doc
  have hiff := supply_ledger_eq_iff h
  by_cases hzero : doc.treasury.initialBalance = 0
  · have hfunded : doc.funded = doc.initialBalances := if_neg (by simp [hzero])
    rw [hfunded] at hiff
    rw [hzero, UInt64.toNat_zero, zero_add, hiff, List.pairwise_cons]
    refine ⟨fun hpair => ⟨.inl rfl, fun b _ _ => hzero, hpair⟩, fun hpair => hpair.2.2⟩
  · have hpos : doc.treasury.initialBalance > 0 := UInt64.pos_iff_ne_zero.2 hzero
    by_cases hempty : doc.treasury.address = []
    · -- the balance of a treasury without an address is nowhere
      have hfunded : doc.funded = doc.initialBalances := if_neg (by simp [hempty])
      rw [hfunded] at hle
      have hlt : 0 < doc.treasury.initialBalance.toNat := UInt64.lt_iff_toNat_lt.1 hpos
      refine iff_of_false (by omega) ?_
      rintro ⟨h | h, -⟩
      · exact hzero h
      · exact h hempty
    · have hfunded : doc.funded = doc.treasury.entry :: doc.initialBalances :=
        if_pos ⟨hempty, hpos⟩
      have hsum : sumAmounts doc.funded =
          doc.treasury.initialBalance.toNat + sumAmounts doc.initialBalances := by
        rw [hfunded]
        rfl
      rw [← hsum, hiff, hfunded]
      exact ⟨fun hpair => ⟨.inr hempty, hpair⟩, fun hpair => hpair.2⟩

theorem Initializable.parse_funded (hinit : Initializable doc) (hok : Accepted now unicode doc) :
    ∀ b ∈ doc.funded, ∃ a, parseAddress b.address = .ok a := by
  have hbalances : ∀ b ∈ doc.initialBalances, ∃ a, parseAddress b.address = .ok a :=
    fun b hb => (exists_parseAddress (hok.balances b hb)).2 (hinit.balances b hb)
  unfold GenesisDoc.funded
  split_ifs with h
  · refine List.forall_mem_cons.2 ⟨(exists_parseAddress hok.treasury).2 ?_, hbalances⟩
    refine hinit.treasury.resolve_left fun hzero => ?_
    rw [hzero] at h
    exact absurd h.2 (by decide)
  · exact hbalances

theorem Initializable.record (hinit : Initializable doc) (hok : Accepted now unicode doc)
    (hv : v ∈ doc.initialValidators) :
    ∃ (a : Address) (key : PublicKey) (c : UInt64), parseAddress v.address = .ok a ∧
      hexDecode (stripHexPrefix v.pubKey) = .ok key.bytes ∧ c ≤ 10000 ∧
        validatorRecord v = .ok (a.bytes, encodeValidatorEntry a key.bytes v.stake c) := by
  obtain ⟨a, ha⟩ := (exists_parseAddress (hok.addresses v hv)).2 (hinit.addresses v hv)
  obtain ⟨hlen, hhex⟩ := hinit.pubKeys v hv
  obtain ⟨key, hkey⟩ := exists_hexDecode.2 ⟨by omega, hhex⟩
  have hkeylen := length_of_hexDecode hkey
  obtain ⟨c, hc, hle⟩ := hok.commissions v hv
  have hcommission := parseCommissionToUint64_of_trim hc (hinit.commissions v hv)
  exact ⟨a, ⟨key, by omega⟩, c, ha, hkey, hle,
    validatorRecord_eq_ok.2 ⟨a, key, c, ha, hkey, hcommission, rfl⟩⟩

theorem storable_record (a : Address) (key : PublicKey) (stake c : UInt64) :
    Bolt.Storable a.bytes (encodeValidatorEntry a key.bytes stake c) := by
  have hvalue : (encodeValidatorEntry a key.bytes stake c).length = 69 := by
    simp [encodeValidatorEntry, putUint64]
  refine ⟨fun hnil => ?_, ?_, ?_⟩
  · have hlen := a.length_eq
    rw [hnil] at hlen
    cases hlen
  · rw [a.length_eq]
    decide
  · rw [hvalue]
    decide

theorem Initializable.nodup_keys (hinit : Initializable doc) (hok : Accepted now unicode doc) :
    ((doc.initialValidators.map recordOf).map Prod.fst).Nodup := by
  rw [List.map_map]
  refine List.pairwise_map.2 (hinit.addresses_differ.imp_of_mem fun {v w} hv hw hne heq => ?_)
  obtain ⟨a, key, c, ha, -, -, hrecord⟩ := hinit.record hok hv
  obtain ⟨b, key', c', hb, -, -, hrecord'⟩ := hinit.record hok hw
  simp only [Function.comp_apply, recordOf_eq hrecord, recordOf_eq hrecord'] at heq
  exact hne ((parseAddress_eq_iff ha hb).1 (FixedBytes.ext heq))

variable [Crypto] {db : Bolt.DB}

theorem Initializable.init_run (hinit : Initializable doc) (hok : Accepted now unicode doc) :
    initGenesisState doc db = .ok doc.ledger.stateRoot
      (db.insert validatorBucketName (Map.insertAll (db[validatorBucketName]?.getD ∅)
        (doc.initialValidators.map recordOf))) := by
  refine initGenesisState_eq_ok.2 ⟨hinit.parse_funded hok, fun v hv => ?_, fun v hv => ?_, rfl, rfl⟩
  all_goals obtain ⟨a, key, c, -, -, -, hrecord⟩ := hinit.record hok hv
  · exact ⟨_, hrecord⟩
  · rw [recordOf_eq hrecord]
    exact storable_record a key v.stake c

theorem Initializable.sound (hinit : Initializable doc) (hok : Accepted now unicode doc) :
    Sound doc db := by
  have hparse := hinit.parse_funded hok
  refine ⟨doc.ledger, _, genesisAccounts_eq_ok.2 ⟨hparse, rfl⟩, hinit.init_run hok,
    fun v hv => ?_, hinit.addresses_differ.imp_of_mem fun {v w} hv hw hne => ?_, fun v hv => ?_,
    hinit.pubKeys_differ.imp_of_mem fun {v w} hv hw hne => ?_, fun v hv => ?_,
    (supply_ledger_iff hparse).2 ⟨hinit.treasury.imp_right fun hlen hnil => ?_, hinit.kept⟩⟩
  · obtain ⟨a, -, -, ha, -⟩ := hinit.record hok hv
    exact ⟨a, ha⟩
  · obtain ⟨a, -, -, ha, -⟩ := hinit.record hok hv
    obtain ⟨b, -, -, hb, -⟩ := hinit.record hok hw
    rw [ha, hb]
    exact fun h => hne ((parseAddress_eq_iff ha hb).1 (Except.ok.inj h))
  · obtain ⟨-, key, -, -, hkey, -⟩ := hinit.record hok hv
    exact ⟨key, hkey⟩
  · obtain ⟨-, key, -, -, hkey, -⟩ := hinit.record hok hv
    obtain ⟨-, key', -, -, hkey', -⟩ := hinit.record hok hw
    rw [hkey, hkey']
    exact fun h => hne ((hexDecode_inj_iff hkey hkey').1 (Except.ok.inj h))
  · obtain ⟨a, key, c, ha, -, hle, hrecord⟩ := hinit.record hok hv
    refine ⟨a, key.bytes, c, ha, ?_, hle⟩
    rw [Bolt.lookup_of_bucket (Map.get_insert_self _ _ _)]
    have hget := Map.get_insertAll_of_mem (hinit.nodup_keys hok) (List.mem_map_of_mem hv)
      (db[validatorBucketName]?.getD ∅)
    rwa [recordOf_eq hrecord] at hget
  · rw [hnil] at hlen
    cases hlen

theorem Sound.initializable (hsound : Sound doc db) (hok : Accepted now unicode doc) :
    Initializable doc := by
  obtain ⟨s, db', h⟩ := hsound
  obtain ⟨hparse, hrecord, -, -, -⟩ := initGenesisState_eq_ok.1 h.init
  obtain ⟨-, rfl⟩ := genesisAccounts_eq_ok.1 h.accounts
  obtain ⟨htreasury, hkept⟩ := (supply_ledger_iff hparse).1 h.supply
  refine ⟨fun v hv => (exists_parseAddress (hok.addresses v hv)).1 (h.addresses v hv),
    h.addresses_differ.imp_of_mem fun {v w} hv hw hne heq => ?_, fun v hv => ?_,
    h.pubKeys_differ.imp_of_mem fun {v w} hv hw hne heq => ?_, fun v hv => ?_, fun b hb => ?_,
    ?_, hkept⟩
  · obtain ⟨a, ha⟩ := h.addresses v hv
    obtain ⟨b, hb⟩ := h.addresses w hw
    refine hne ?_
    rw [ha, hb, (parseAddress_eq_iff ha hb).2 heq]
  · obtain ⟨key, hkey⟩ := h.pubKeys v hv
    have hlen := length_of_hexDecode hkey
    rw [key.length_eq] at hlen
    exact ⟨hlen, (exists_hexDecode.1 ⟨_, hkey⟩).2⟩
  · obtain ⟨key, hkey⟩ := h.pubKeys v hv
    obtain ⟨key', hkey'⟩ := h.pubKeys w hw
    refine hne ?_
    rw [hkey, hkey', (hexDecode_inj_iff hkey hkey').2 heq]
  · obtain ⟨e, he⟩ := hrecord v hv
    obtain ⟨-, -, c, -, -, hc, -⟩ := validatorRecord_eq_ok.1 he
    exact trimSpace_of_parseCommissionToUint64 hc
  · refine (exists_parseAddress (hok.balances b hb)).1 (hparse b ?_)
    unfold GenesisDoc.funded
    split_ifs
    · exact List.mem_cons_of_mem _ hb
    · exact hb
  · by_cases hzero : doc.treasury.initialBalance = 0
    · exact .inl hzero
    · have hne := htreasury.resolve_left hzero
      have hfunded : doc.funded = doc.treasury.entry :: doc.initialBalances :=
        if_pos ⟨hne, UInt64.pos_iff_ne_zero.2 hzero⟩
      refine .inr ((exists_parseAddress hok.treasury).1 (hparse doc.treasury.entry ?_))
      rw [hfunded]
      exact List.mem_cons_self

/-- The initial state is what the document says exactly when its texts can be read. -/
theorem sound_iff (now : ℤ) (unicode : Bytes → Bytes) (doc : GenesisDoc) (db : Bolt.DB)
    (h : validateGenesis now unicode doc = .ok ()) : Sound doc db ↔ Initializable doc := by
  have hok := validateGenesis_eq_ok.1 h
  exact ⟨fun hsound => hsound.initializable hok, fun hinit => hinit.sound hok⟩

end

open Sample

def sampleDoc (address : Bytes) : GenesisDoc where
  genesisTime := 0
  chainID := str "dsn"
  consensusParams := ⟨100, 1000, 1000⟩
  epochParams := ⟨100, 2, 10, 1⟩
  initialValidators := [⟨address, List.replicate 64 97, 5, str "10%"⟩]
  initialBalances := [⟨str "0x" ++ List.replicate 40 65, 7⟩]
  treasury := ⟨List.replicate 40 98, 1000⟩

theorem sampleDoc_valid : validateGenesis 0 id (sampleDoc (List.replicate 40 49)) = .ok () := by
  decide +kernel

theorem sampleDoc_initializable : Initializable (sampleDoc (List.replicate 40 49)) := by
  constructor
  all_goals decide +kernel

theorem sound_sample : validateGenesis 0 id (sampleDoc (List.replicate 40 49)) = .ok () ∧
    Sound (sampleDoc (List.replicate 40 49)) ∅ :=
  ⟨sampleDoc_valid, (sound_iff 0 id _ ∅ sampleDoc_valid).2 sampleDoc_initializable⟩

theorem empty_address_accepted : ¬ ∀ (_ : Crypto) (now : ℤ) (unicode : Bytes → Bytes)
    (doc : GenesisDoc) (db : Bolt.DB), validateGenesis now unicode doc = .ok () → Sound doc db := by
  intro h
  obtain ⟨s, db', hsound⟩ := h sampleCrypto 0 id (sampleDoc []) ∅ (by decide +kernel)
  obtain ⟨-, hrecord, -⟩ := initGenesisState_eq_ok.1 hsound.init
  obtain ⟨e, he⟩ := hrecord _ List.mem_cons_self
  obtain ⟨a, -, -, ha, -⟩ := validatorRecord_eq_ok.1 he
  have hfail : parseAddress [] = .error errInvalidAddress := by decide
  cases hfail.symm.trans ha

end Dsn.Genesis
