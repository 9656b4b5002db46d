import Mathlib.Data.List.Perm.Subperm
import Mathlib.Data.Nat.Count
import Mathlib.Tactic

/-!
# Weighted lists

Sums of weights over lists, and a wheel with as many places as the weights add up to.
-/

namespace Weight

variable {α : Type} (w : α → ℕ)

def weight (l : List α) : ℕ := (l.map w).sum

@[simp] theorem weight_cons (a : α) (l : List α) : weight w (a :: l) = w a + weight w l := by
  simp [weight]

variable {w}

theorem weight_perm {l l' : List α} (h : l.Perm l') : weight w l = weight w l' :=
  (h.map w).sum_eq

theorem weight_le_of_subperm {l l' : List α} (h : l.Subperm l') : weight w l ≤ weight w l' := by
  obtain ⟨m, hm, hs⟩ := h
  rw [← weight_perm hm]
  exact (hs.map w).sum_le_sum fun _ _ => Nat.zero_le _

theorem weight_le_of_subset {l l' : List α} (hnd : l.Nodup) (h : l ⊆ l') :
    weight w l ≤ weight w l' :=
  weight_le_of_subperm (hnd.subperm h)

theorem weight_filter_add (p q : α → Bool) (l : List α) :
    weight w (l.filter p) + weight w (l.filter q) =
      weight w (l.filter fun a => p a || q a) + weight w (l.filter fun a => p a && q a) := by
  induction l with
  | nil => rfl
  | cons a l ih =>
    simp only [List.filter_cons]
    cases hp : p a <;> cases hq : q a <;> simp <;> omega

variable {l : List α}

theorem weight_inter_of_quorums {p q : α → Bool} (hp : 2 * weight w l ≤ 3 * weight w (l.filter p))
    (hq : 2 * weight w l ≤ 3 * weight w (l.filter q)) :
    weight w l ≤ 3 * weight w (l.filter fun a => p a && q a) := by
  have hsum := weight_filter_add (w := w) p q l
  have hor : weight w (l.filter fun a => p a || q a) ≤ weight w l :=
    weight_le_of_subperm List.filter_sublist.subperm
  omega

/-! ### The wheel -/

def slot (w : α → ℕ) (o : ℕ) : List α → Option α
  | [] => none
  | a :: l => if o < w a then some a else slot w (o - w a) l

variable {a : α} {o : ℕ}

theorem slot_cons_of_lt (h : o < w a) (l : List α) : slot w o (a :: l) = some a :=
  if_pos h

theorem slot_cons_add (a : α) (o : ℕ) (l : List α) : slot w (w a + o) (a :: l) = slot w o l := by
  rw [slot, if_neg (by omega), Nat.add_sub_cancel_left]

theorem slot_mem (h : slot w o l = some a) : a ∈ l := by
  induction l generalizing o with
  | nil => cases h
  | cons b l ih =>
    unfold slot at h
    split_ifs at h with hb
    · cases h
      exact List.mem_cons_self
    · exact List.mem_cons_of_mem _ (ih h)

theorem pos_of_slot (h : slot w o l = some a) : 0 < w a := by
  induction l generalizing o with
  | nil => cases h
  | cons b l ih =>
    unfold slot at h
    split_ifs at h with hb
    · cases h
      omega
    · exact ih h

theorem count_slot [DecidableEq α] (hnd : l.Nodup) (ha : a ∈ l) :
    Nat.count (fun o => slot w o l = some a) (weight w l) = w a := by
  induction l with
  | nil => cases ha
  | cons b l ih =>
    obtain ⟨hb, hnd⟩ := List.nodup_cons.1 hnd
    rw [weight_cons, Nat.count_add]
    simp only [slot_cons_add]
    rcases List.mem_cons.1 ha with rfl | ha
    · -- the slots of the head, and none behind them
      have hhead : Nat.count (fun o => slot w o (a :: l) = some a) (w a) = w a := by
        rw [Nat.count_iff_forall]
        exact fun o ho => slot_cons_of_lt ho l
      have htail : Nat.count (fun o => slot w o l = some a) (weight w l) = 0 := by
        rw [Nat.count_iff_forall_not]
        exact fun o _ h => hb (slot_mem h)
      rw [hhead, htail, Nat.add_zero]
    · have hne : b ≠ a := fun h => hb (h ▸ ha)
      have hhead : Nat.count (fun o => slot w o (b :: l) = some a) (w b) = 0 := by
        rw [Nat.count_iff_forall_not]
        intro o ho h
        rw [slot_cons_of_lt ho] at h
        exact hne (Option.some.inj h)
      rw [hhead, Nat.zero_add]
      exact ih hnd ha

end Weight
