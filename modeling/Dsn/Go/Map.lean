import Dsn.Go.Bytes

/-!
# Maps

Go maps as extensional trees: lookups after writes, sums over all entries.
-/

namespace Go

abbrev Map (K V : Type) [Ord K] := Std.ExtTreeMap K V compare

namespace Map

variable {K V : Type} [Ord K] [Std.TransOrd K] [Std.LawfulEqOrd K]

theorem get_insert [DecidableEq K] (m : Map K V) (k a : K) (v : V) :
    (m.insert k v)[a]? = if k = a then some v else m[a]? := by
  rw [Std.ExtTreeMap.getElem?_insert]
  simp only [Std.LawfulEqCmp.compare_eq_iff_eq]

@[simp] theorem get_insert_self (m : Map K V) (k : K) (v : V) : (m.insert k v)[k]? = some v := by
  rw [Std.ExtTreeMap.getElem?_insert, if_pos (Std.LawfulEqCmp.compare_eq_iff_eq.2 rfl)]

variable {a : K}

theorem get_insert_of_ne (m : Map K V) {k : K} (h : k ≠ a) (v : V) :
    (m.insert k v)[a]? = m[a]? := by
  rw [Std.ExtTreeMap.getElem?_insert, if_neg fun hc => h (Std.LawfulEqCmp.compare_eq_iff_eq.1 hc)]

theorem get_erase_of_ne (m : Map K V) {k : K} (h : k ≠ a) : (m.erase k)[a]? = m[a]? := by
  have hne : compare k a ≠ .eq := fun he => h (Std.LawfulEqOrd.eq_of_compare he)
  rw [Std.ExtTreeMap.getElem?_erase, if_neg hne]

theorem get_erase_self (m : Map K V) (k : K) : (m.erase k)[k]? = none := by
  rw [Std.ExtTreeMap.getElem?_erase, if_pos (Std.LawfulEqCmp.compare_eq_iff_eq.2 rfl)]

variable {m : Map K V} {v : V}

theorem get_erase_eq_some {k : K} : (m.erase k)[a]? = some v ↔ k ≠ a ∧ m[a]? = some v := by
  by_cases h : k = a
  · subst h
    simp
  · rw [get_erase_of_ne m h, and_iff_right h]

variable {k : K}

omit [Std.LawfulEqOrd K] in
theorem exists_get_of_mem (h : k ∈ m) : ∃ v, m[k]? = some v :=
  Option.isSome_iff_exists.1 (Std.ExtTreeMap.isSome_getElem?_iff_mem.2 h)

omit [Std.LawfulEqOrd K] in
theorem mem_of_get (h : m[k]? = some v) : k ∈ m :=
  Std.ExtTreeMap.isSome_getElem?_iff_mem.1 (Option.isSome_iff_exists.2 ⟨v, h⟩)

theorem nodup_keys (m : Map K V) : (m.toList.map Prod.fst).Nodup := by
  refine List.pairwise_map.2 ((Std.ExtTreeMap.distinct_keys_toList (t := m)).imp ?_)
  intro a b h heq
  exact h (Std.LawfulEqCmp.compare_eq_iff_eq.2 heq)

theorem nodup_toList (m : Map K V) : m.toList.Nodup := (nodup_keys m).of_map

theorem toList_insert_perm [DecidableEq K] (m : Map K V) (k : K) (v : V) :
    (m.insert k v).toList.Perm ((k, v) :: m.toList.filter fun e => e.1 ≠ k) := by
  refine (List.perm_ext_iff_of_nodup (nodup_toList _) ?_).2 ?_
  · refine List.nodup_cons.2 ⟨by simp, (nodup_toList m).filter _⟩
  · rintro ⟨a, w⟩
    rw [Std.ExtTreeMap.mem_toList_iff_getElem?_eq_some, get_insert]
    split_ifs with h
    · subst h; simp [eq_comm]
    · simp [Ne.symm h]

def total (f : V → ℕ) (m : Map K V) : ℕ := (m.toList.map fun e => f e.2).sum

omit [Std.LawfulEqOrd K] in
@[simp] theorem total_empty (f : V → ℕ) : total f (∅ : Map K V) = 0 := rfl

theorem toList_insert_perm_of_none [DecidableEq K] (h : m[k]? = none)
    (v : V) : (m.insert k v).toList.Perm ((k, v) :: m.toList) := by
  have hkeep : m.toList.filter (fun e => e.1 ≠ k) = m.toList := by
    refine List.filter_eq_self.2 ?_
    rintro ⟨a, w⟩ hmem
    rw [Std.ExtTreeMap.mem_toList_iff_getElem?_eq_some] at hmem
    refine decide_eq_true ?_
    rintro rfl
    rw [h] at hmem
    cases hmem
  have hperm := toList_insert_perm m k v
  rwa [hkeep] at hperm

theorem sum_filter_key [DecidableEq K] (f : V → ℕ) (m : Map K V) (k : K) :
    ((m.toList.filter fun e => ¬ e.1 ≠ k).map fun e => f e.2).sum = m[k]?.elim 0 f := by
  cases h : m[k]? with
  | none =>
    have hnil : m.toList.filter (fun e => ¬ e.1 ≠ k) = [] := by
      refine List.filter_eq_nil_iff.2 ?_
      rintro ⟨a, w⟩ ha hc
      rw [Std.ExtTreeMap.mem_toList_iff_getElem?_eq_some] at ha
      simp only [not_not, decide_eq_true_eq] at hc
      rw [hc, h] at ha
      cases ha
    rw [hnil]
    rfl
  | some w =>
    have hone : (m.toList.filter (fun e => ¬ e.1 ≠ k)).Perm [(k, w)] := by
      refine (List.perm_ext_iff_of_nodup ((nodup_toList m).filter _) (by simp)).2 ?_
      rintro ⟨a, x⟩
      simp only [List.mem_filter, Std.ExtTreeMap.mem_toList_iff_getElem?_eq_some, not_not,
        decide_eq_true_eq, List.mem_singleton, Prod.mk.injEq]
      constructor
      · rintro ⟨ha, rfl⟩
        rw [h] at ha
        exact ⟨rfl, (Option.some.inj ha).symm⟩
      · rintro ⟨rfl, rfl⟩
        exact ⟨h, rfl⟩
    rw [(hone.map _).sum_eq]
    simp

theorem total_insert [DecidableEq K] (f : V → ℕ) (m : Map K V) (k : K) (v : V) :
    total f (m.insert k v) + (m[k]?.elim 0 f) = total f m + f v := by
  have hins : total f (m.insert k v) =
      f v + ((m.toList.filter fun e => e.1 ≠ k).map fun e => f e.2).sum := by
    unfold total
    rw [((toList_insert_perm m k v).map _).sum_eq, List.map_cons, List.sum_cons]
  have hsplit : total f m = ((m.toList.filter fun e => e.1 ≠ k).map fun e => f e.2).sum +
      ((m.toList.filter fun e => ¬ e.1 ≠ k).map fun e => f e.2).sum := by
    unfold total
    have := (List.filter_append_perm (fun e : K × V => decide (e.1 ≠ k)) m.toList).map
      (fun e => f e.2)
    simpa using this.sum_eq.symm
  have hkey := sum_filter_key f m k
  omega

/-! ### Storing many entries -/

def insertAll (m : Map K V) (l : List (K × V)) : Map K V := l.foldl (fun m e => m.insert e.1 e.2) m

omit [Std.LawfulEqOrd K] in
@[simp] theorem insertAll_nil (m : Map K V) : insertAll m [] = m := rfl

omit [Std.LawfulEqOrd K] in
@[simp] theorem insertAll_cons (m : Map K V) (e : K × V) (l : List (K × V)) :
    insertAll m (e :: l) = insertAll (m.insert e.1 e.2) l := rfl

theorem get_insertAll [DecidableEq K] (m : Map K V) (l : List (K × V)) (a : K) :
    (insertAll m l)[a]? = ((l.reverse.find? fun e => e.1 = a).map Prod.snd).or m[a]? := by
  induction l generalizing m with
  | nil => rfl
  | cons e l ih =>
    rw [insertAll_cons, ih, get_insert, List.reverse_cons, List.find?_append]
    cases l.reverse.find? fun e => e.1 = a with
    | some e' => rfl
    | none => by_cases h : e.1 = a <;> simp [h]

variable {l : List (K × V)}

theorem get_insertAll_of_notMem (h : ∀ e ∈ l, e.1 ≠ a) (m : Map K V) :
    (insertAll m l)[a]? = m[a]? := by
  induction l generalizing m with
  | nil => rfl
  | cons e l ih =>
    rw [insertAll_cons, ih (fun e' he' => h e' (List.mem_cons_of_mem _ he')),
      get_insert_of_ne m (h e List.mem_cons_self)]

theorem get_insertAll_of_mem {e : K × V} (hl : (l.map Prod.fst).Nodup)
    (h : e ∈ l) (m : Map K V) : (insertAll m l)[e.1]? = some e.2 := by
  induction l generalizing m with
  | nil => cases h
  | cons e' l ih =>
    obtain ⟨hnot, hnodup⟩ := List.nodup_cons.1 hl
    rcases List.mem_cons.1 h with rfl | h
    · rw [insertAll_cons, get_insertAll_of_notMem, get_insert_self]
      rintro e' he' heq
      exact hnot (heq ▸ List.mem_map_of_mem he')
    · exact ih hnodup h _

theorem total_insertAll_le [DecidableEq K] (f : V → ℕ) (m : Map K V) (l : List (K × V)) :
    total f (insertAll m l) ≤ total f m + (l.map fun e => f e.2).sum := by
  induction l generalizing m with
  | nil => simp
  | cons e l ih =>
    have hinsert := total_insert f m e.1 e.2
    have hrest := ih (m.insert e.1 e.2)
    simp only [insertAll_cons, List.map_cons, List.sum_cons]
    omega

theorem total_insertAll_eq_iff [DecidableEq K] (f : V → ℕ) (m : Map K V) (l : List (K × V)) :
    total f (insertAll m l) = total f m + (l.map fun e => f e.2).sum ↔
      l.Pairwise (fun e e' => e.1 = e'.1 → f e.2 = 0) ∧ ∀ e ∈ l, m[e.1]?.elim 0 f = 0 := by
  induction l generalizing m with
  | nil => simp
  | cons e l ih =>
    have hinsert := total_insert f m e.1 e.2
    have hle := total_insertAll_le f (m.insert e.1 e.2) l
    have hsplit : total f (insertAll m (e :: l)) =
        total f m + ((e :: l).map fun e => f e.2).sum ↔ m[e.1]?.elim 0 f = 0 ∧
          total f (insertAll (m.insert e.1 e.2) l) =
            total f (m.insert e.1 e.2) + (l.map fun e => f e.2).sum := by
      simp only [insertAll_cons, List.map_cons, List.sum_cons]
      omega
    rw [hsplit, ih, List.pairwise_cons, List.forall_mem_cons]
    have hget {x : K × V} : ((m.insert e.1 e.2)[x.1]?.elim 0 f = 0) ↔
        if e.1 = x.1 then f e.2 = 0 else m[x.1]?.elim 0 f = 0 := by
      rw [get_insert]
      split_ifs <;> rfl
    constructor
    · rintro ⟨hold, hpairwise, hall⟩
      refine ⟨⟨fun x hx heq => ?_, hpairwise⟩, hold, fun x hx => ?_⟩
      · simpa [heq] using hget.1 (hall x hx)
      · by_cases heq : e.1 = x.1
        · rwa [← heq]
        · simpa [heq] using hget.1 (hall x hx)
    · rintro ⟨⟨hzero, hpairwise⟩, hold, hall⟩
      refine ⟨hold, hpairwise, fun x hx => hget.2 ?_⟩
      split_ifs with heq
      · exact hzero x hx heq
      · exact hall x hx

theorem get_insertAll_toList (m m' : Map K V) (a : K) :
    (insertAll m m'.toList)[a]? = m'[a]?.or m[a]? := by
  cases h : m'[a]? with
  | some v =>
    have hmem := Std.ExtTreeMap.mem_toList_iff_getElem?_eq_some.2 h
    exact get_insertAll_of_mem (e := (a, v)) (nodup_keys m') hmem m
  | none =>
    rw [get_insertAll_of_notMem, Option.none_or]
    rintro ⟨b, v⟩ hmem rfl
    rw [Std.ExtTreeMap.mem_toList_iff_getElem?_eq_some.1 hmem] at h
    cases h

theorem mem_insertAll_toList {m' : Map K V} : a ∈ insertAll m m'.toList ↔ a ∈ m ∨ a ∈ m' := by
  rw [← Std.ExtTreeMap.isSome_getElem?_iff_mem, get_insertAll_toList, Option.isSome_or,
    Bool.or_eq_true, Std.ExtTreeMap.isSome_getElem?_iff_mem, Std.ExtTreeMap.isSome_getElem?_iff_mem,
    or_comm]

@[simp] theorem insertAll_empty_toList (m : Map K V) : insertAll ∅ m.toList = m := by
  refine Std.ExtTreeMap.ext_getElem? fun a => ?_
  rw [get_insertAll_toList, Std.ExtTreeMap.getElem?_empty, Option.or_none]

theorem insertAll_toList_eq_iff {m' : Map K V} : insertAll m m'.toList = m' ↔ ∀ a ∈ m, a ∈ m' := by
  constructor
  · intro h a ha
    rw [← h]
    exact mem_insertAll_toList.2 (.inl ha)
  · intro h
    refine Std.ExtTreeMap.ext_getElem? fun a => ?_
    rw [get_insertAll_toList]
    by_cases ha : a ∈ m
    · have hsome := Std.ExtTreeMap.isSome_getElem?_iff_mem.2 (h a ha)
      obtain ⟨v, hv⟩ := Option.isSome_iff_exists.1 hsome
      rw [hv, Option.some_or]
    · rw [Std.ExtTreeMap.getElem?_eq_none ha, Option.or_none]

theorem insert_of_get (h : m[k]? = some v) : m.insert k v = m := by
  classical
  refine Std.ExtTreeMap.ext_getElem? fun a => ?_
  rw [get_insert]
  split_ifs with ha
  · rw [← ha, h]
  · rfl

theorem insert_erase_self (m : Map K V) (k : K) (v : V) :
    (m.erase k).insert k v = m.insert k v := by
  classical
  refine Std.ExtTreeMap.ext_getElem? fun a => ?_
  rw [get_insert, get_insert]
  split_ifs with ha
  · rfl
  · exact get_erase_of_ne _ ha

theorem insert_comm [DecidableEq K] (m : Map K V) {j : K} (h : j ≠ k) (v w : V) :
    (m.insert j v).insert k w = (m.insert k w).insert j v := by
  refine Std.ExtTreeMap.ext_getElem? fun a => ?_
  simp only [get_insert]
  split_ifs with hk hj
  · exact absurd (hj.trans hk.symm) h
  · rfl
  · rfl
  · rfl

theorem toList_erase_perm [DecidableEq K] (m : Map K V) (k : K) :
    (m.erase k).toList.Perm (m.toList.filter fun e => e.1 ≠ k) := by
  refine (List.perm_ext_iff_of_nodup (nodup_toList _) ((nodup_toList m).filter _)).2 ?_
  rintro ⟨a, w⟩
  rw [Std.ExtTreeMap.mem_toList_iff_getElem?_eq_some, List.mem_filter,
    Std.ExtTreeMap.mem_toList_iff_getElem?_eq_some, decide_eq_true_eq]
  by_cases h : k = a
  · subst h
    simp
  · rw [get_erase_of_ne _ h]
    exact ⟨fun hget => ⟨hget, fun heq => h heq.symm⟩, And.left⟩

theorem erase_insert_of_none (h : m[k]? = none) (v : V) : (m.insert k v).erase k = m := by
  refine Std.ExtTreeMap.ext_getElem? fun a => ?_
  by_cases ha : k = a
  · subst ha
    rw [get_erase_self, h]
  · rw [get_erase_of_ne _ ha, get_insert_of_ne _ ha]

theorem insert_insert (m : Map K V) (k : K) (v w : V) :
    (m.insert k v).insert k w = m.insert k w := by
  classical
  refine Std.ExtTreeMap.ext_getElem? fun a => ?_
  simp only [get_insert]
  split_ifs <;> rfl

end Map

end Go
