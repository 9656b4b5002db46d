import Dsn.Lib.Guarded
import Dsn.VM.Rollback

/-!
# Gas metering

`Deduct` adds in 64 bits before it compares.
-/

namespace Dsn

open Go Guarded

namespace GasMeter

def charge (cost : UInt64) (gm : GasMeter) : GasMeter := (gm.deduct cost).getD gm

def accepted : GasMeter → List UInt64 → ℕ
  | _, [] => 0
  | gm, cost :: costs =>
    (if (gm.deduct cost).isSome then cost.toNat else 0) + accepted (gm.charge cost) costs

structure Meters (gm : GasMeter) (sum : ℕ) (next : Option UInt64) : Prop where
  used : gm.used.toNat = sum
  le_limit : gm.used ≤ gm.limit
  refuses : ∀ cost ∈ next, gm.deduct cost = none ↔ gm.limit.toNat < sum + cost.toNat

def NoWrap (cost : UInt64) (gm : GasMeter) : Prop := gm.used.toNat + cost.toNat < 2 ^ 64

variable {gm : GasMeter} {cost : UInt64}

theorem deduct_eq_none : gm.deduct cost = none ↔ gm.limit < gm.used + cost := by
  simp [deduct]

theorem refuses_iff (hle : gm.used ≤ gm.limit) :
    (gm.deduct cost = none ↔ gm.limit.toNat < gm.used.toNat + cost.toNat) ↔ NoWrap cost gm := by
  rw [deduct_eq_none, UInt64.lt_iff_toNat_lt, UInt64.toNat_add, NoWrap]
  rw [UInt64.le_iff_toNat_le] at hle
  have hlimit := gm.limit.toNat_lt
  have hcost := cost.toNat_lt
  by_cases hwrap : gm.used.toNat + cost.toNat < 2 ^ 64
  · rw [Nat.mod_eq_of_lt hwrap]
    exact iff_of_true Iff.rfl hwrap
  · -- the sum that wraps is below the gas used so far, and the cost is accepted
    have hmod : (gm.used.toNat + cost.toNat) % 2 ^ 64 = gm.used.toNat + cost.toNat - 2 ^ 64 := by
      omega
    omega

theorem charge_le (hle : gm.used ≤ gm.limit) : (gm.charge cost).used ≤ (gm.charge cost).limit := by
  unfold charge
  cases hd : gm.deduct cost with
  | none => exact hle
  | some gm' =>
    obtain ⟨hle', rfl⟩ := deduct_eq_some.1 hd
    exact hle'

theorem charge_used (h : NoWrap cost gm) : (gm.charge cost).used.toNat =
    gm.used.toNat + if (gm.deduct cost).isSome then cost.toNat else 0 := by
  unfold charge
  cases hd : gm.deduct cost with
  | none => rfl
  | some gm' =>
    obtain ⟨-, rfl⟩ := deduct_eq_some.1 hd
    exact toNat_add_of_lt h

variable {costs : List UInt64}

theorem after_le (hle : gm.used ≤ gm.limit) :
    (after charge gm costs).used ≤ (after charge gm costs).limit := by
  induction costs generalizing gm with
  | nil => exact hle
  | cons cost costs ih => exact ih (charge_le hle)

theorem after_used (h : Runs NoWrap charge gm costs) :
    (after charge gm costs).used.toNat = gm.used.toNat + accepted gm costs := by
  induction costs generalizing gm with
  | nil => rfl
  | cons cost costs ih =>
    rw [accepted, ← add_assoc, ← charge_used h.1]
    exact ih h.2

theorem deploy_total_le [Crypto] {vm : VM} {tx : DeployContractTx} {m : WasmModule} {env : HostEnv}
    {used : UInt64} {s s1 s2 : InMemoryState} (hdeploys : Deploys vm tx s m gm)
    (hrun : runConstructors env m gm s1 = .ok used s2) :
    gm.used.toNat + used.toNat ≤ tx.gasLimit.toNat := by
  obtain ⟨hle, rfl⟩ := deduct_eq_some.1 hdeploys.pays
  have hsub := UInt64.toNat_sub_of_le _ _ hle
  have hused := UInt64.le_iff_toNat_le.1 (runConstructors_le hrun)
  rw [UInt64.le_iff_toNat_le] at hle
  simp only [newGasMeter, remaining] at hle hsub hused ⊢
  omega

/-- A meter is exact exactly if no cost wraps the gas used around. -/
theorem gas_metering_iff [Crypto] :
    (∀ (limit : UInt64) (costs : List UInt64),
      (∀ pre post, costs = pre ++ post → Meters (after charge (newGasMeter limit) pre)
        (accepted (newGasMeter limit) pre) post.head?) ↔
      Runs NoWrap charge (newGasMeter limit) costs) ∧
    (∀ (vm : VM) (tx : DeployContractTx) (m : WasmModule) (gm : GasMeter) (env : HostEnv)
      (used : UInt64) (s s₁ s₂ : InMemoryState), Deploys vm tx s m gm →
      runConstructors env m gm s₁ = .ok used s₂ →
        gm.used.toNat + used.toNat ≤ tx.gasLimit.toNat) ∧
    ∀ (vm : VM) (tx : DeployContractTx) (height timestamp : UInt64) (txIndex : UInt32)
      (result : ExecutionResult) (err : Option Error) (s s' : InMemoryState),
      executeDeploy vm tx height timestamp txIndex s = .ok (result, err) s' →
        result.gasUsed ≤ tx.gasLimit := by
  refine ⟨fun limit costs => ?_, fun _ _ _ _ _ _ _ _ _ => deploy_total_le,
    fun _ _ _ _ _ _ _ _ _ => executeDeploy_gasUsed⟩
  have hle (pre : List UInt64) := @after_le (newGasMeter limit) pre UInt64.zero_le
  rw [runs_iff]
  constructor
  · intro h pre cost post heq
    obtain ⟨hused, -, hrefuses⟩ := h pre (cost :: post) heq
    rw [← refuses_iff (hle pre), hused]
    exact hrefuses cost rfl
  · rintro h pre post rfl
    have hused : (after charge (newGasMeter limit) pre).used.toNat =
        accepted (newGasMeter limit) pre := by
      refine (after_used (runs_iff.2 ?_)).trans (Nat.zero_add _)
      rintro front cost rest rfl
      exact h front cost (rest ++ post) (by simp)
    refine ⟨hused, hle pre, fun cost hcost => ?_⟩
    obtain ⟨rest, rfl⟩ := List.head?_eq_some_iff.1 hcost
    rw [← hused, refuses_iff (hle pre)]
    exact h pre cost rest rfl

end GasMeter

open Sample

theorem gas_metering_of_small : GasMeter.Meters (after GasMeter.charge (newGasMeter 10) [3, 20, 7])
    (GasMeter.accepted (newGasMeter 10) [3, 20, 7]) none :=
  (GasMeter.gas_metering_iff.1 10 [3, 20, 7]).2 (by simp [Runs, GasMeter.NoWrap]; decide) _ [] rfl

theorem wrapping_cost_accepted : ¬ ∀ (limit : UInt64) (costs pre post : List UInt64),
    costs = pre ++ post → GasMeter.Meters (after GasMeter.charge (newGasMeter limit) pre)
      (GasMeter.accepted (newGasMeter limit) pre) post.head? := by
  intro h
  have hrefuses := (h 10 [5, 18446744073709551615] [5] [18446744073709551615] rfl).refuses _ rfl
  revert hrefuses
  decide

end Dsn
