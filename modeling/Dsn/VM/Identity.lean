import Dsn.VM.Rollback

/-!
# The identity of a contract

An identity is derived from the code hash that the transaction claims, which nothing computes.
-/

namespace Dsn

open Go InMemoryState

variable {s s' : InMemoryState} {tx : DeployContractTx} {height : UInt64}

/-! ### Code and metadata -/

structure SameRecords (s s' : InMemoryState) : Prop where
  metadata : ∀ id, s'.getBytes (metaKey id) = s.getBytes (metaKey id)
  code : ∀ hash, s'.getBytes (codeKey hash) = s.getBytes (codeKey hash)

theorem SameRecords.of_kvstore (h : s'.kvstore = s.kvstore) :
    SameRecords s s' :=
  ⟨fun _ => congrArg (fun kv : Map Bytes Bytes => kv[_]?) h,
    fun _ => congrArg (fun kv : Map Bytes Bytes => kv[_]?) h⟩

variable {s'' : InMemoryState}

theorem SameRecords.trans (h : SameRecords s s') (h' : SameRecords s' s'') : SameRecords s s'' :=
  ⟨fun id => (h'.metadata id).trans (h.metadata id), fun hash => (h'.code hash).trans (h.code hash)⟩

/-- The same contracts with the same code. -/
structure SameContracts (s s' : InMemoryState) : Prop where
  metadata : ∀ id, s'.getContractMeta id = s.getContractMeta id
  code : ∀ hash, s'.getCode hash = s.getCode hash

theorem SameContracts.refl (s : InMemoryState) : SameContracts s s := ⟨fun _ => rfl, fun _ => rfl⟩

theorem SameContracts.trans (h : SameContracts s s')
    (h' : SameContracts s' s'') : SameContracts s s'' :=
  ⟨fun id => (h'.metadata id).trans (h.metadata id), fun hash => (h'.code hash).trans (h.code hash)⟩

theorem SameRecords.sameContracts (h : SameRecords s s') :
    SameContracts s s' where
  metadata id := by
    unfold getContractMeta
    rw [h.metadata]
  code hash := by
    unfold getCode
    rw [h.code]

theorem SameContracts.loadCode_eq (h : SameContracts s s') (id : Hash) :
    loadCode id s' = loadCode id s := by
  unfold loadCode
  rw [h.metadata]
  cases s.getContractMeta id with
  | error e => rfl
  | ok m => exact h.code m.codeHash

theorem loadCode_eq_ok {id : Hash} {code : Bytes} :
    loadCode id s = .ok code ↔
      ∃ m, s.getContractMeta id = .ok m ∧ s.getCode m.codeHash = .ok code :=
  except_bind_eq_ok

section

variable [Crypto]

theorem sameRecords_of_keyFrame (h : KeyFrame IsStorage s s') : SameRecords s s' := by
  have hframe : KeyFrame (StartsWith [str "storage:"]) s s' :=
    h.mono fun _ ⟨id, slot, hkey⟩ => hkey ▸ storageKey_startsWith id slot
  exact ⟨fun _ => hframe.keys _ (not_startsWith_append (by decide) _),
    fun _ => hframe.keys _ (not_startsWith_append (by decide) _)⟩

variable {m : WasmModule} {meter : GasMeter}

theorem runConstructors_sameRecords {env : HostEnv} :
    SameRecords s (finalState (runConstructors env m meter s)) :=
  sameRecords_of_keyFrame runConstructors_keyFrame

theorem getContractMeta_deployed (tx : DeployContractTx) (height : UInt64) (s : InMemoryState)
    (id : Hash) : (deployed tx height s).getContractMeta id =
      if id = deriveContractID tx.sender tx.nonce tx.codeHash then
        .ok ⟨id, sha256 tx.wasmCode, tx.sender, 0⟩
      else s.getContractMeta id := by
  unfold deployed getContractMeta setContractMeta setCode
  split_ifs with hid
  · rw [hid, getBytes_setBytes_self]
    exact ContractMetadata.decodeFrom_encode _
  · rw [getBytes_setBytes_of_ne (fun h => hid (metaKey_injective h.symm)),
      getBytes_setBytes_of_ne (codeKey_ne_metaKey _ _)]

theorem getCode_deployed (tx : DeployContractTx) (height : UInt64) (s : InMemoryState)
    (hash : Hash) : (deployed tx height s).getCode hash =
      if hash = sha256 tx.wasmCode then .ok tx.wasmCode else s.getCode hash := by
  unfold deployed getCode setContractMeta setCode
  rw [getBytes_setBytes_of_ne (codeKey_ne_metaKey _ _).symm]
  split_ifs with hhash
  · rw [hhash, getBytes_setBytes_self]
  · rw [getBytes_setBytes_of_ne fun h => hhash (codeKey_injective h.symm)]

theorem VM.execute_records (vm : VM) (tx : ContractTx) (height timestamp : UInt64)
    (txIndex : UInt32) (s : InMemoryState) :
    SameRecords s (finalState (vm.execute tx height timestamp txIndex s)) ∨
    ∃ t m meter, tx = .deploy t ∧ Deploys vm t s m meter ∧ SameRecords (deployed t height s)
      (finalState (vm.execute tx height timestamp txIndex s)) := by
  have hkept : SameRecords s (finalState (executeTx vm tx height timestamp txIndex s.saved)) ∨
      ∃ t m meter, tx = .deploy t ∧ Deploys vm t s m meter ∧ SameRecords (deployed t height s)
        (finalState (executeTx vm tx height timestamp txIndex s.saved)) := by
    have hsaved : SameRecords s s.saved := .of_kvstore rfl
    cases tx with
    | call t =>
      exact .inl (hsaved.trans (sameRecords_of_keyFrame executeCall_keyFrame))
    | deploy t =>
      have hrun : executeTx vm (.deploy t) height timestamp txIndex s.saved =
        executeDeploy vm t height timestamp txIndex s.saved := rfl
      rcases executeDeploy_cases vm t height timestamp txIndex s.saved with
        ⟨e, hx, -⟩ | ⟨hx, -⟩ | ⟨m, meter, hdeploys, hx⟩ <;> rw [hrun, hx]
      · exact .inl hsaved
      · exact .inl hsaved
      · refine .inr ⟨t, m, meter, rfl, ⟨hdeploys.compiles, hdeploys.fresh, hdeploys.pays⟩, ?_⟩
        have hdeployed : SameRecords (deployed t height s) (deployed t height s.saved) :=
          .of_kvstore rfl
        rw [finalState_bind_pure]
        exact hdeployed.trans runConstructors_sameRecords
  rcases vm.execute_cases tx height timestamp txIndex s with
    ⟨e, t, hr, -, hx⟩ | ⟨e, t, hr, -, hx⟩ | ⟨result, err, t, hr, -, hx⟩ |
      ⟨result, err, t, hr, -, hx⟩ <;> rw [hr] at hkept <;> rw [hx]
  · exact hkept
  · exact .inl (.of_kvstore rfl)
  · exact .inl (.of_kvstore rfl)
  · exact hkept

/-! ### Identities -/

/-- Each contract has the identity derived from the code it runs. -/
def Identified (s : InMemoryState) : Prop :=
  ∀ c m, s.getContractMeta c = .ok m → ∃ nonce code, loadCode c s = .ok code ∧
    c = deriveContractID m.deployer nonce (sha256 code)

/-- Every contract keeps its record and its code. -/
def ContractsStay (s s' : InMemoryState) : Prop :=
  ∀ c m, s.getContractMeta c = .ok m →
    s'.getBytes (metaKey c) = s.getBytes (metaKey c) ∧ loadCode c s' = loadCode c s

def HonestDeployment (tx : DeployContractTx) (s : InMemoryState) : Prop :=
  tx.codeHash = sha256 tx.wasmCode ∧
    ∀ code, s.getCode (sha256 tx.wasmCode) = .ok code → code = tx.wasmCode

theorem Identified.of_same (h : Identified s) (hsame : SameContracts s s') :
    Identified s' := by
  intro c m hm
  rw [hsame.metadata] at hm
  obtain ⟨nonce, code, hcode, hc⟩ := h c m hm
  exact ⟨nonce, code, (hsame.loadCode_eq c).trans hcode, hc⟩

theorem loadCode_deployed_of_honest {c : Hash} (hhonest : HonestDeployment tx s)
    (hne : c ≠ deriveContractID tx.sender tx.nonce tx.codeHash) {code : Bytes}
    (h : loadCode c s = .ok code) : loadCode c (deployed tx height s) = .ok code := by
  obtain ⟨m, hm, hcode⟩ := loadCode_eq_ok.1 h
  refine loadCode_eq_ok.2 ⟨m, ?_, ?_⟩
  · rw [getContractMeta_deployed, if_neg hne]
    exact hm
  · rw [getCode_deployed]
    split_ifs with hhash
    · rw [hhash] at hcode
      rw [hhonest.2 code hcode]
    · exact hcode

theorem Identified.deployed (h : Identified s) (hhonest : HonestDeployment tx s) :
    Identified (deployed tx height s) := by
  intro c m hm
  rw [getContractMeta_deployed] at hm
  split_ifs at hm with hc
  · cases hm
    refine ⟨tx.nonce, tx.wasmCode, loadCode_eq_ok.2 ⟨⟨c, sha256 tx.wasmCode, tx.sender, 0⟩, ?_, ?_⟩,
      ?_⟩
    · rw [getContractMeta_deployed, if_pos hc]
    · rw [getCode_deployed, if_pos rfl]
    · rw [← hhonest.1]
      exact hc
  · obtain ⟨nonce, code, hcode, hid⟩ := h c m hm
    exact ⟨nonce, code, loadCode_deployed_of_honest hhonest hc hcode, hid⟩

theorem contractsStay_deployed {vm : VM} (hs : Identified s)
    (hdeploys : Deploys vm tx s m meter) (hhonest : HonestDeployment tx s) :
    ContractsStay s (deployed tx height s) := by
  intro c mc hmc
  have hne : c ≠ deriveContractID tx.sender tx.nonce tx.codeHash := by
    rintro rfl
    obtain ⟨e, he⟩ := hdeploys.fresh
    cases he.symm.trans hmc
  obtain ⟨-, code, hcode, -⟩ := hs c mc hmc
  refine ⟨?_, (loadCode_deployed_of_honest hhonest hne hcode).trans hcode.symm⟩
  unfold Dsn.deployed setContractMeta setCode
  rw [getBytes_setBytes_of_ne (fun h => hne (metaKey_injective h.symm)),
    getBytes_setBytes_of_ne (codeKey_ne_metaKey _ _)]

omit [Crypto] in
theorem ContractsStay.trans_same {t : InMemoryState} (h : ContractsStay s t)
    (hsame : SameRecords t s') : ContractsStay s s' := by
  intro c m hm
  obtain ⟨hmeta, hcode⟩ := h c m hm
  exact ⟨(hsame.metadata c).trans hmeta, (hsame.sameContracts.loadCode_eq c).trans hcode⟩

/-! ### Runs -/

/-- A call of `VM.Execute`. -/
structure VMCall where
  vm : VM
  tx : ContractTx
  height : UInt64
  timestamp : UInt64
  txIndex : UInt32

def VMCall.run (c : VMCall) (s : InMemoryState) : InMemoryState :=
  finalState (c.vm.execute c.tx c.height c.timestamp c.txIndex s)

def runVM (calls : List VMCall) (s : InMemoryState) : InMemoryState :=
  calls.foldl (fun s c => c.run s) s

def VMCall.Honest (c : VMCall) (s : InMemoryState) : Prop :=
  ∀ tx m meter, c.tx = .deploy tx → Deploys c.vm tx s m meter → HonestDeployment tx s

theorem VMCall.run_identified {c : VMCall} (hs : Identified s) (hhonest : c.Honest s) :
    Identified (c.run s) ∧ ContractsStay s (c.run s) := by
  rcases c.vm.execute_records c.tx c.height c.timestamp c.txIndex s with
    hsame | ⟨tx, m, meter, htx, hdeploys, hsame⟩
  · exact ⟨hs.of_same hsame.sameContracts, ContractsStay.trans_same (fun _ _ _ => ⟨rfl, rfl⟩) hsame⟩
  · have hdeployment := hhonest tx m meter htx hdeploys
    exact ⟨(hs.deployed hdeployment).of_same hsame.sameContracts,
      (contractsStay_deployed hs hdeploys hdeployment).trans_same hsame⟩

/-- After honest deployments every contract has its code and its identity. -/
theorem contracts_identified (s : InMemoryState) (calls : List VMCall)
    (hnew : ∀ c, s.getBytes (metaKey c) = none)
    (hhonest : ∀ pre c post, calls = pre ++ c :: post → c.Honest (runVM pre s)) :
    (∀ pre, pre <+: calls → Identified (runVM pre s)) ∧
      ∀ pre c post, calls = pre ++ c :: post →
        ContractsStay (runVM pre s) (c.run (runVM pre s)) := by
  have hall : ∀ pre, pre <+: calls → Identified (runVM pre s) := by
    intro pre
    induction pre using List.reverseRecOn with
    | nil =>
      intro _ c m hm
      unfold getContractMeta at hm
      rw [show (runVM [] s).getBytes (metaKey c) = none from hnew c] at hm
      cases hm
    | append_singleton pre c ih =>
      rintro ⟨post, hpost⟩
      rw [List.append_assoc] at hpost
      unfold runVM at ih ⊢
      rw [List.foldl_append]
      exact (VMCall.run_identified (ih ⟨_, hpost⟩) (hhonest pre c post hpost.symm)).1
  refine ⟨hall, fun pre c post hcalls => ?_⟩
  exact (VMCall.run_identified (hall pre ⟨_, hcalls.symm⟩) (hhonest pre c post hcalls)).2

end

/-! ### One deployment -/

def sampleDeploy (codeHash : Hash) : DeployContractTx :=
  ⟨zeroAddress, 0, [0], codeHash, 0, 100000, []⟩

def idleEngine : VM := sampleEngine (sampleModule (some sampleMemory) (str "call") (.ret [] []))

@[reducible] def codeHashCrypto : Crypto :=
  ⟨fun b => FixedBytes.copy 32 (b.drop 28), fun _ _ _ => true⟩

attribute [local instance] codeHashCrypto

theorem deriveContractID_codeHash (deployer : Address) (nonce : UInt64) (codeHash : Hash) :
    deriveContractID deployer nonce codeHash = codeHash := by
  have hdrop : (deployer.bytes ++ putUint64 nonce ++ codeHash.bytes).drop 28 = codeHash.bytes :=
    List.drop_left' (by simp [putUint64])
  show FixedBytes.copy 32 ((deployer.bytes ++ putUint64 nonce ++ codeHash.bytes).drop 28) = codeHash
  rw [hdrop, FixedBytes.copy_bytes]

def deploySample (codeHash : Hash) : VMCall :=
  ⟨idleEngine, .deploy (sampleDeploy codeHash), 1, 0, 0⟩

theorem claimed_hash_identity : ¬ ∀ (_ : Crypto) (calls : List VMCall),
    Identified (runVM calls newInMemoryState) := by
  intro h
  have hmeta : (runVM [deploySample (.copy 32 [1])] newInMemoryState).getContractMeta
      (.copy 32 [1]) = .ok ⟨.copy 32 [1], zeroHash, zeroAddress, 0⟩ := by decide +kernel
  have hcode : loadCode (.copy 32 [1]) (runVM [deploySample (.copy 32 [1])] newInMemoryState) =
      .ok [0] := by decide +kernel
  obtain ⟨nonce, code, hload, hid⟩ := h codeHashCrypto [deploySample (.copy 32 [1])] _ _ hmeta
  cases hcode.symm.trans hload
  rw [deriveContractID_codeHash] at hid
  exact absurd hid (by decide)

theorem honest_deployment_identified :
    Identified (runVM [deploySample zeroHash] newInMemoryState) ∧
      loadCode zeroHash (runVM [deploySample zeroHash] newInMemoryState) = .ok [0] := by
  refine ⟨(contracts_identified newInMemoryState [deploySample zeroHash] (fun _ => rfl) ?_).1 _
    (List.prefix_refl _), by decide +kernel⟩
  intro pre c post hcalls tx m meter htx _
  obtain ⟨rfl, hc⟩ | ⟨pre', rfl, hnil⟩ := List.cons_eq_append_iff.1 hcalls
  · cases hc
    cases htx
    refine ⟨by decide, fun code hcode => ?_⟩
    cases hcode
  · simp at hnil

end Dsn
