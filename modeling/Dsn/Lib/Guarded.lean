import Mathlib.Algebra.BigOperators.Group.List.Basic
import Mathlib.Tactic

/-!
# Guarded runs

A run in which every step finds its guard, step by step.
-/

namespace Guarded

variable {τ α : Type*}

/-- Each guard holds when its turn comes. -/
def Runs (guard : τ → α → Prop) (step : τ → α → α) : α → List τ → Prop
  | _, [] => True
  | a, t :: ts => guard t a ∧ Runs guard step (step t a) ts

def after (step : τ → α → α) (a : α) (ts : List τ) : α := ts.foldl (fun a t => step t a) a

variable {guard : τ → α → Prop} {step : τ → α → α} {a : α} {ts : List τ}

theorem runs_iff : Runs guard step a ts ↔
    ∀ pre t post, ts = pre ++ t :: post → guard t (after step a pre) := by
  induction ts generalizing a with
  | nil => simp [Runs]
  | cons t ts ih =>
    rw [Runs, ih]
    constructor
    · rintro ⟨hguard, hrest⟩ pre t' post heq
      cases pre with
      | nil =>
        cases heq
        exact hguard
      | cons u pre =>
        obtain ⟨rfl, rfl⟩ := List.cons.inj heq
        exact hrest pre t' post rfl
    · intro h
      refine ⟨h [] t ts rfl, fun pre t' post heq => h (t :: pre) t' post ?_⟩
      rw [heq, List.cons_append]

theorem forall_after_iff (inv prop : α → Prop) (hinv : ∀ t ∈ ts, ∀ a, inv a → inv (step t a))
    (hstep : ∀ t ∈ ts, ∀ a, inv a → prop a → (prop (step t a) ↔ guard t a)) (ha : inv a)
    (hprop : prop a) :
    (∀ pre post, ts = pre ++ post → prop (after step a pre)) ↔ Runs guard step a ts := by
  induction ts generalizing a with
  | nil =>
    refine iff_of_true (fun pre post h => ?_) trivial
    rw [(List.append_eq_nil_iff.1 h.symm).1]
    exact hprop
  | cons t ts ih =>
    have hinv' : ∀ u ∈ ts, ∀ a, inv a → inv (step u a) := fun u hu =>
      hinv u (List.mem_cons_of_mem _ hu)
    have hstep' : ∀ u ∈ ts, ∀ a, inv a → prop a → (prop (step u a) ↔ guard u a) := fun u hu =>
      hstep u (List.mem_cons_of_mem _ hu)
    have hnext := hinv t List.mem_cons_self a ha
    have hkeeps := hstep t List.mem_cons_self a ha hprop
    constructor
    · intro h
      have hone : prop (step t a) := h [t] ts rfl
      refine ⟨hkeeps.1 hone, (ih hinv' hstep' hnext hone).1 fun pre post heq => ?_⟩
      exact h (t :: pre) post (by rw [heq, List.cons_append])
    · rintro ⟨hguard, hrest⟩ pre post heq
      have hone := hkeeps.2 hguard
      cases pre with
      | nil => exact hprop
      | cons u pre =>
        obtain ⟨rfl, rfl⟩ := List.cons.inj heq
        exact (ih hinv' hstep' hnext hone).2 hrest pre post rfl

end Guarded
