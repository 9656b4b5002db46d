import Dsn.Lib.Weight
import Mathlib.Algebra.BigOperators.Ring.Finset

/-!
# Proportional shares, exact and wrapped

An amount split by weights with floor division, the first taking the rest; exactly, and in
arithmetic that wraps.
-/

namespace Shares

open Weight

/-! ### One share -/

theorem mod_div_le (x m d : ℕ) : x % m / d ≤ x / d := Nat.div_le_div_right (Nat.mod_le x m)

theorem mod_div_eq_iff {x m d : ℕ} (hd : 0 < d) (hdm : d ≤ m) : x % m / d = x / d ↔ x < m := by
  constructor
  · intro h
    by_contra hge
    have hle : x % m + d ≤ x := by
      have hdiv := Nat.mod_add_div x m
      have hpos : 1 ≤ x / m := Nat.div_pos (not_lt.1 hge) (hd.trans_le hdm)
      have hm : m ≤ m * (x / m) := Nat.le_mul_of_pos_right m hpos
      omega
    have hquot := Nat.div_le_div_right (c := d) hle
    rw [Nat.add_div_right _ hd] at hquot
    omega
  · intro h
    rw [Nat.mod_eq_of_lt h]

/-! ### The split -/

variable {α : Type} (w : α → ℕ)

def floors (amount total : ℕ) (l : List α) : List ℕ := l.map fun a => amount * w a / total

theorem sum_floors_mul_le (amount total : ℕ) (l : List α) :
    (floors w amount total l).sum * total ≤ amount * weight w l := by
  induction l with
  | nil => simp [floors]
  | cons a l ih =>
    have hhead := Nat.div_mul_le_self (amount * w a) total
    rw [weight_cons, Nat.mul_add, show floors w amount total (a :: l) =
      amount * w a / total :: floors w amount total l from rfl, List.sum_cons, Nat.add_mul]
    exact Nat.add_le_add hhead ih

theorem sum_floors_le {amount total : ℕ} {l : List α} (hpos : 0 < total)
    (h : weight w l ≤ total) : (floors w amount total l).sum ≤ amount := by
  refine Nat.le_of_mul_le_mul_right ((sum_floors_mul_le w amount total l).trans ?_) hpos
  exact Nat.mul_le_mul_left _ h

def split (amount total : ℕ) : List α → List ℕ
  | [] => []
  | a :: l => (amount * w a / total + (amount - (floors w amount total (a :: l)).sum)) ::
      floors w amount total l

theorem sum_floors_cons (amount total : ℕ) (a : α) (l : List α) :
    (floors w amount total (a :: l)).sum =
      amount * w a / total + (floors w amount total l).sum := List.sum_cons

theorem sum_floors_tail_le {amount total : ℕ} {a : α} {l : List α} (hpos : 0 < total)
    (h : weight w (a :: l) ≤ total) : (floors w amount total l).sum ≤ amount := by
  refine le_trans ?_ (sum_floors_le w hpos h)
  exact Nat.le_add_left _ _

theorem split_cons {amount total : ℕ} {a : α} {l : List α} (hpos : 0 < total)
    (h : weight w (a :: l) ≤ total) :
    split w amount total (a :: l) =
      (amount - (floors w amount total l).sum) :: floors w amount total l := by
  have hle : (floors w amount total (a :: l)).sum ≤ amount := sum_floors_le w hpos h
  show (amount * w a / total + (amount - (floors w amount total (a :: l)).sum)) :: _ = _
  rw [sum_floors_cons] at hle ⊢
  rw [← Nat.sub_sub, Nat.sub_right_comm, Nat.add_sub_of_le (by omega)]

theorem sum_split {amount : ℕ} {l : List α} (h : 0 < weight w l) :
    (split w amount (weight w l) l).sum = amount := by
  cases l with
  | nil => exact absurd h (Nat.lt_irrefl 0)
  | cons a l =>
    rw [split_cons w h le_rfl]
    exact Nat.sub_add_cancel (sum_floors_tail_le w h le_rfl)

/-! ### Accounts -/

variable {β : Type} [DecidableEq β] (dest : α → β)

def received (b : β) : List α → List ℕ → ℕ
  | a :: l, r :: rs => (if dest a = b then r else 0) + received b l rs
  | _, _ => 0

@[simp] theorem received_cons (b : β) (a : α) (l : List α) (r : ℕ) (rs : List ℕ) :
    received dest b (a :: l) (r :: rs) = (if dest a = b then r else 0) + received dest b l rs :=
  rfl

variable {dest}

theorem received_cons_self (a : α) (l : List α) (r : ℕ) (rs : List ℕ) :
    received dest (dest a) (a :: l) (r :: rs) = r + received dest (dest a) l rs := by
  rw [received_cons, if_pos rfl]

theorem received_cons_of_ne {a : α} {b : β} (h : b ≠ dest a) (l : List α) (r : ℕ) (rs : List ℕ) :
    received dest b (a :: l) (r :: rs) = received dest b l rs := by
  rw [received_cons, if_neg (Ne.symm h), Nat.zero_add]

variable {rs : List ℕ}

theorem sum_received {l : List α} {accounts : Finset β} (hlen : rs.length = l.length)
    (h : ∀ a ∈ l, dest a ∈ accounts) : ∑ b ∈ accounts, received dest b l rs = rs.sum := by
  induction l generalizing rs with
  | nil =>
    rw [List.length_eq_zero_iff.1 hlen]
    simp [received]
  | cons a l ih =>
    cases rs with
    | nil => cases hlen
    | cons r rs =>
      rw [List.sum_cons, ← ih (Nat.succ.inj hlen) fun x hx => h x (List.mem_cons_of_mem _ hx)]
      simp only [received_cons, Finset.sum_add_distrib, Finset.sum_ite_eq, h a List.mem_cons_self,
        if_true]

theorem received_add_others {l : List α} (hlen : rs.length = l.length) (b : β) :
    received dest b l rs + ∑ c ∈ (insert b (l.map dest).toFinset).erase b, received dest c l rs =
      rs.sum := by
  have hmem : ∀ a ∈ l, dest a ∈ insert b (l.map dest).toFinset := fun a ha =>
    Finset.mem_insert_of_mem (List.mem_toFinset.2 (List.mem_map_of_mem ha))
  rw [← sum_received hlen hmem]
  exact Finset.add_sum_erase _ (fun c => received dest c l rs) (Finset.mem_insert_self _ _)

theorem received_add_sum_comm {l : List α} {rs' : List ℕ} (hlen : rs.length = l.length)
    (hlen' : rs'.length = l.length) {b : β}
    (h : ∀ c, c ≠ b → received dest c l rs = received dest c l rs') :
    received dest b l rs + rs'.sum = received dest b l rs' + rs.sum := by
  have hothers : ∑ c ∈ (insert b (l.map dest).toFinset).erase b, received dest c l rs = _ :=
    Finset.sum_congr rfl fun c hc => h c (Finset.ne_of_mem_erase hc)
  have hsum : received dest b l rs + _ = rs.sum := received_add_others hlen b
  have hsum' : received dest b l rs' + _ = rs'.sum := received_add_others hlen' b
  omega

theorem received_eq_zero_iff {l : List α} (hlen : rs.length = l.length) :
    (∀ b, received dest b l rs = 0) ↔ rs.sum = 0 := by
  have hmem : ∀ a ∈ l, dest a ∈ (l.map dest).toFinset := fun a ha =>
    List.mem_toFinset.2 (List.mem_map_of_mem ha)
  constructor
  · intro h
    rw [← sum_received hlen hmem, Finset.sum_eq_zero fun b _ => h b]
  · intro h b
    have hsum : received dest b l rs + _ = rs.sum := received_add_others hlen b
    omega

theorem received_le {f g : α → ℕ} {l : List α} (hle : ∀ a ∈ l, f a ≤ g a) (b : β) :
    received dest b l (l.map f) ≤ received dest b l (l.map g) := by
  induction l with
  | nil => exact le_rfl
  | cons a l ih =>
    have hhead := hle a List.mem_cons_self
    have htail := ih fun x hx => hle x (List.mem_cons_of_mem _ hx)
    rw [List.map_cons, List.map_cons, received_cons, received_cons]
    split_ifs <;> omega

theorem received_eq_iff_of_le {f g : α → ℕ} {l : List α} (hle : ∀ a ∈ l, f a ≤ g a) (b : β) :
    (∀ c, c ≠ b → received dest c l (l.map f) = received dest c l (l.map g)) ↔
      ∀ a ∈ l, dest a ≠ b → f a = g a := by
  induction l with
  | nil => simp [received]
  | cons a l ih =>
    have hhead := hle a List.mem_cons_self
    have htail : ∀ x ∈ l, f x ≤ g x := fun x hx => hle x (List.mem_cons_of_mem _ hx)
    have hsplit (c : β) : received dest c (a :: l) ((a :: l).map f) =
        received dest c (a :: l) ((a :: l).map g) ↔
          (dest a = c → f a = g a) ∧ received dest c l (l.map f) = received dest c l (l.map g) := by
      have hle : received dest c l (l.map f) ≤ _ := received_le htail c
      rw [List.map_cons, List.map_cons, received_cons, received_cons]
      split_ifs with h <;> simp only [h, true_imp_iff, false_imp_iff, true_and] <;> omega
    rw [List.forall_mem_cons, ← ih htail]
    simp only [hsplit]
    constructor
    · exact fun h => ⟨fun ha => (h (dest a) ha).1 rfl, fun c hc => (h c hc).2⟩
    · rintro ⟨ha, hrest⟩ c hc
      refine ⟨?_, hrest c hc⟩
      rintro rfl
      exact ha hc

/-! ### The wrapped split -/

def wrappedShare (m amount total : ℕ) (a : α) : ℕ := amount * w a % m / total

variable {w} {m amount total top : ℕ} {a : α} {l : List α}

theorem received_eq_iff (hpos : 0 < weight w (a :: l)) (htop : top < m)
    (hsum : ∃ k, top + (l.map (wrappedShare w m amount total)).sum = amount + k * m) :
    (∀ b, received dest b (a :: l) (top :: l.map (wrappedShare w m amount total)) =
        received dest b (a :: l) (split w amount (weight w (a :: l)) (a :: l))) ↔
      (l.map (wrappedShare w m amount total)).sum ≤ amount ∧
        ∀ b, b ≠ dest a → received dest b l (l.map (wrappedShare w m amount total)) =
          received dest b l (floors w amount (weight w (a :: l)) l) := by
  have hfloors : (floors w amount (weight w (a :: l)) l).sum ≤ amount :=
    sum_floors_tail_le w hpos le_rfl
  have hlen : (l.map (wrappedShare w m amount total)).length = l.length := List.length_map _
  have hlen' : (floors w amount (weight w (a :: l)) l).length = l.length := List.length_map _
  rw [split_cons w hpos le_rfl]
  constructor
  · intro h
    have hothers : ∀ b, b ≠ dest a → received dest b l (l.map (wrappedShare w m amount total)) =
        received dest b l (floors w amount (weight w (a :: l)) l) := by
      intro b hb
      have hb' := h b
      rwa [received_cons_of_ne hb, received_cons_of_ne hb] at hb'
    have hfirst := h (dest a)
    rw [received_cons_self, received_cons_self] at hfirst
    have hcomm := received_add_sum_comm hlen hlen' hothers
    exact ⟨by omega, hothers⟩
  · rintro ⟨hle, hothers⟩ b
    by_cases hb : b = dest a
    · subst hb
      obtain ⟨k, hk⟩ := hsum
      -- without a wrap the first share is what the others leave
      have hk0 : k = 0 := by
        by_contra hne
        have : m ≤ k * m := Nat.le_mul_of_pos_left m (Nat.pos_of_ne_zero hne)
        omega
      rw [hk0] at hk
      have hcomm := received_add_sum_comm hlen hlen' hothers
      rw [received_cons_self, received_cons_self]
      omega
    · rw [received_cons_of_ne hb, received_cons_of_ne hb]
      exact hothers b hb

theorem received_eq_iff_of_total (hpos : 0 < weight w (a :: l)) (htop : top < m)
    (htotal : weight w (a :: l) ≤ m)
    (hsum : ∃ k, top + (l.map (wrappedShare w m amount (weight w (a :: l)))).sum =
      amount + k * m) :
    (∀ b, received dest b (a :: l) (top :: l.map (wrappedShare w m amount (weight w (a :: l)))) =
        received dest b (a :: l) (split w amount (weight w (a :: l)) (a :: l))) ↔
      ∀ x ∈ l, dest x ≠ dest a → amount * w x < m := by
  have hle : ∀ x ∈ l, wrappedShare w m amount (weight w (a :: l)) x ≤
      amount * w x / weight w (a :: l) := fun x _ => mod_div_le _ _ _
  have hbound : (l.map (wrappedShare w m amount (weight w (a :: l)))).sum ≤ amount := by
    exact (List.sum_le_sum hle).trans (sum_floors_tail_le w hpos le_rfl)
  rw [received_eq_iff hpos htop hsum, and_iff_right hbound]
  refine (received_eq_iff_of_le hle (dest a)).trans ?_
  refine forall₂_congr fun x _ => imp_congr_right fun _ => ?_
  exact mod_div_eq_iff hpos htotal

end Shares
