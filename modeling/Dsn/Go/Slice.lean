import Mathlib.Data.List.Forall2
import Mathlib.Data.List.Sort
import Mathlib.Tactic

/-!
# Slices

Sorting, counting loops, and lists that run in step.
-/

namespace Go

variable {α : Type}

def sortSlice (less : α → α → Bool) (l : List α) : List α :=
  l.insertionSort fun a b => less b a = false

theorem sortSlice_perm (less : α → α → Bool) (l : List α) : (sortSlice less l).Perm l :=
  List.perm_insertionSort _ l

@[simp] theorem length_sortSlice (less : α → α → Bool) (l : List α) :
    (sortSlice less l).length = l.length :=
  (sortSlice_perm less l).length_eq

theorem pairwise_sortSlice_of {less : α → α → Bool}
    (htotal : ∀ a b, less b a = false ∨ less a b = false)
    (htrans : ∀ a b c, less b a = false → less c b = false → less c a = false) (l : List α) :
    (sortSlice less l).Pairwise fun a b => less b a = false := by
  have : Std.Total fun a b : α => less b a = false := ⟨htotal⟩
  have : IsTrans α fun a b : α => less b a = false := ⟨htrans⟩
  exact List.pairwise_insertionSort _ l

section Compare

variable (cmp : α → α → Ordering) [Std.TransCmp cmp]

theorem cmp_isLT_eq_false_iff (a b : α) : (cmp b a).isLT = false ↔ (cmp a b).isLE := by
  rw [show cmp b a = (cmp a b).swap from Std.OrientedCmp.eq_swap]
  cases cmp a b <;> decide

theorem cmp_isLE_total (a b : α) : (cmp a b).isLE ∨ (cmp b a).isLE := by
  rw [show cmp b a = (cmp a b).swap from Std.OrientedCmp.eq_swap]
  cases cmp a b <;> decide

theorem pairwise_sortSlice_cmp (l : List α) :
    (sortSlice (fun a b => (cmp a b).isLT) l).Pairwise
      fun a b => (cmp b a).isLT = false := by
  refine pairwise_sortSlice_of (fun a b => ?_) (fun a b c hab hbc => ?_) l
  · rw [cmp_isLT_eq_false_iff, cmp_isLT_eq_false_iff]
    exact cmp_isLE_total cmp a b
  · rw [cmp_isLT_eq_false_iff] at hab hbc ⊢
    exact Std.TransCmp.isLE_trans hab hbc

end Compare

section Key

variable {K : Type} [Ord K] [Std.TransOrd K]

theorem isLT_eq_false_iff (a b : K) : (compare b a).isLT = false ↔ (compare a b).isLE :=
  cmp_isLT_eq_false_iff compare a b

theorem isLE_total (a b : K) : (compare a b).isLE ∨ (compare b a).isLE := cmp_isLE_total compare a b

theorem pairwise_sortSlice (key : α → K) (l : List α) :
    (sortSlice (fun a b => (compare (key a) (key b)).isLT) l).Pairwise
      fun a b => (compare (key b) (key a)).isLT = false :=
  pairwise_sortSlice_cmp (compareOn key) l

theorem sortSlice_eq_of_perm_of_inj [Std.LawfulEqOrd K] {key : α → K} {l l' : List α}
    (hinj : ∀ a ∈ l, ∀ b ∈ l, key a = key b → a = b) (h : l.Perm l') :
    sortSlice (fun a b => (compare (key a) (key b)).isLT) l =
      sortSlice (fun a b => (compare (key a) (key b)).isLT) l' := by
  refine List.Perm.eq_of_pairwise (fun a b ha hb hab hba => ?_) (pairwise_sortSlice key l)
    (pairwise_sortSlice key l') ((sortSlice_perm _ l).trans (h.trans (sortSlice_perm _ l').symm))
  rw [isLT_eq_false_iff] at hab hba
  exact hinj a ((sortSlice_perm _ l).mem_iff.1 ha) b
    (h.mem_iff.2 ((sortSlice_perm _ l').mem_iff.1 hb))
    (Std.LawfulEqOrd.eq_of_compare (Std.OrientedCmp.isLE_antisymm hab hba))

theorem sortSlice_eq_of_perm [Std.LawfulEqOrd K] {key : α → K} {l l' : List α}
    (hkeys : (l.map key).Nodup) (h : l.Perm l') :
    sortSlice (fun a b => (compare (key a) (key b)).isLT) l =
      sortSlice (fun a b => (compare (key a) (key b)).isLT) l' :=
  sortSlice_eq_of_perm_of_inj (fun _ ha _ hb => List.inj_on_of_nodup_map hkeys ha hb) h

end Key

def sumUint64 (f : α → UInt64) (l : List α) : UInt64 := l.foldl (fun total x => total + f x) 0

theorem foldl_add_toNat (f : α → UInt64) (l : List α) (c : UInt64) :
    (l.foldl (fun total x => total + f x) c).toNat =
      (c.toNat + (l.map fun x => (f x).toNat).sum) % 2 ^ 64 := by
  induction l generalizing c with
  | nil => simp [Nat.mod_eq_of_lt c.toNat_lt]
  | cons a l ih =>
    rw [List.foldl_cons, ih, UInt64.toNat_add, List.map_cons, List.sum_cons, ← add_assoc,
      Nat.mod_add_mod]

theorem sumUint64_toNat (f : α → UInt64) (l : List α) :
    (sumUint64 f l).toNat = (l.map fun x => (f x).toNat).sum % 2 ^ 64 := by
  simp [sumUint64, foldl_add_toNat]

theorem sumUint64_perm {f : α → UInt64} {l l' : List α} (h : l.Perm l') :
    sumUint64 f l = sumUint64 f l' := by
  apply UInt64.toNat_inj.1
  rw [sumUint64_toNat, sumUint64_toNat, (h.map _).sum_eq]

/-! ### Counting loops -/

def uint64Range (first last : UInt64) : List UInt64 :=
  (List.range (last.toNat + 1 - first.toNat)).map fun i => first + UInt64.ofNat i

section Range

variable {first last x : UInt64}

theorem toNat_succ_of_le (h : first ≤ last) (hlast : last.toNat < 2 ^ 64 - 1) :
    (first + 1).toNat = first.toNat + 1 := by
  rw [UInt64.le_iff_toNat_le] at h
  rw [UInt64.toNat_add, show (1 : UInt64).toNat = 1 from rfl]
  omega

@[simp] theorem length_uint64Range (first last : UInt64) :
    (uint64Range first last).length = last.toNat + 1 - first.toNat := by
  simp [uint64Range]

theorem uint64Range_eq_nil (h : last < first) : uint64Range first last = [] := by
  rw [UInt64.lt_iff_toNat_lt] at h
  exact List.length_eq_zero_iff.1 (by rw [length_uint64Range]; omega)

theorem uint64Range_eq_cons (h : first ≤ last) (hlast : last.toNat < 2 ^ 64 - 1) :
    uint64Range first last = first :: uint64Range (first + 1) last := by
  have hle := UInt64.le_iff_toNat_le.1 h
  unfold uint64Range
  rw [toNat_succ_of_le h hlast, show last.toNat + 1 - first.toNat =
      (last.toNat + 1 - (first.toNat + 1)) + 1 by omega, List.range_succ_eq_map, List.map_cons,
    List.map_map, show first + UInt64.ofNat 0 = first from UInt64.add_zero first]
  refine congrArg _ (List.map_congr_left fun i _ => ?_)
  rw [Function.comp, Nat.succ_eq_one_add, UInt64.ofNat_add, ← UInt64.add_assoc]
  rfl

theorem nodup_uint64Range (first last : UInt64) : (uint64Range first last).Nodup := by
  have hend := last.toNat_lt
  refine List.Nodup.map_on (fun i hi j hj h => ?_) List.nodup_range
  have hnat := congrArg UInt64.toNat h
  rw [List.mem_range] at hi hj
  rw [UInt64.toNat_add, UInt64.toNat_add, UInt64.toNat_ofNat', UInt64.toNat_ofNat'] at hnat
  omega

theorem mem_uint64Range : x ∈ uint64Range first last ↔ first ≤ x ∧ x ≤ last := by
  have hend := last.toNat_lt
  unfold uint64Range
  simp only [List.mem_map, List.mem_range, UInt64.le_iff_toNat_le]
  constructor
  · rintro ⟨i, hi, rfl⟩
    rw [UInt64.toNat_add, UInt64.toNat_ofNat']
    omega
  · rintro ⟨hge, hle⟩
    refine ⟨x.toNat - first.toNat, by omega, ?_⟩
    apply UInt64.toNat_inj.1
    rw [UInt64.toNat_add, UInt64.toNat_ofNat']
    omega

end Range

/-! ### Lists in step -/

theorem exists_forall₂ {β : Type} {R : α → β → Prop} {l : List α} (h : ∀ a ∈ l, ∃ b, R a b) :
    ∃ l', List.Forall₂ R l l' := by
  induction l with
  | nil => exact ⟨[], .nil⟩
  | cons a l ih =>
    obtain ⟨b, hb⟩ := h a List.mem_cons_self
    obtain ⟨l', hl'⟩ := ih fun x hx => h x (List.mem_cons_of_mem _ hx)
    exact ⟨b :: l', .cons hb hl'⟩

theorem forall₂_mem_left {β : Type} {R : α → β → Prop} {l : List α} {l' : List β}
    (h : List.Forall₂ R l l') {a : α} (ha : a ∈ l) : ∃ b ∈ l', R a b := by
  induction h with
  | nil => cases ha
  | cons hab _ ih =>
    rcases List.mem_cons.1 ha with rfl | ha
    · exact ⟨_, List.mem_cons_self, hab⟩
    · obtain ⟨b, hb, hr⟩ := ih ha
      exact ⟨b, List.mem_cons_of_mem _ hb, hr⟩

theorem filterMap_eq_map_filter {β : Type} (f : α → Option β) (d : β) (l : List α) :
    l.filterMap f = (l.filter fun a => (f a).isSome).map fun a => (f a).getD d := by
  induction l with
  | nil => rfl
  | cons a l ih => cases h : f a <;> simp [h, ih]

end Go
