import Dsn.Go.Map

/-!
# Entries under keys

A store that is written entry by entry keeps, under each key, the entry written last.

* `latest key l`: the entries of `l` that are not replaced by a later one with the same key; the
  store holds just these (`toList_insertAll_perm`).
* `filter_latest_iff`: when a selection of the store by key is a given selection of the entries.
-/

namespace Go

variable {α : Type} (key : α → Bytes) (val : α → α)

def latest (l : List α) : List α := l.foldl (fun kept x => kept.filter (key · ≠ key x) ++ [x]) []

variable {key val}

theorem latest_concat (l : List α) (x : α) :
    latest key (l ++ [x]) = (latest key l).filter (key · ≠ key x) ++ [x] := by
  rw [latest, List.foldl_append]
  rfl

theorem latest_sublist (l : List α) : (latest key l).Sublist l := by
  induction l using List.reverseRecOn with
  | nil => exact .refl _
  | append_singleton l x ih =>
    rw [latest_concat]
    exact (List.filter_sublist.trans ih).append (.refl _)

theorem toList_insertAll_perm (l : List α) :
    (Map.insertAll (∅ : Map Bytes α) (l.map fun x => (key x, val x))).toList.Perm
      ((latest key l).map fun x => (key x, val x)) := by
  induction l using List.reverseRecOn with
  | nil => exact .refl _
  | append_singleton l x ih =>
    have hinsert : Map.insertAll (∅ : Map Bytes α) ((l ++ [x]).map fun x => (key x, val x)) =
        (Map.insertAll ∅ (l.map fun x => (key x, val x))).insert (key x) (val x) := by
      rw [List.map_append, Map.insertAll, List.foldl_append]
      rfl
    have hrest := ih.filter fun e => e.1 ≠ key x
    rw [List.filter_map] at hrest
    rw [hinsert, latest_concat, List.map_append]
    exact (Map.toList_insert_perm _ _ _).trans ((hrest.cons _).trans
      (List.perm_append_singleton _ _).symm)

theorem filter_latest_sublist {passes wanted : α → Bool} {l : List α}
    (h : ∀ x ∈ (latest key l).filter passes, wanted x = true) :
    ((latest key l).filter passes).Sublist (l.filter wanted) := by
  rw [← List.filter_eq_self.2 h]
  exact (List.filter_sublist.trans (latest_sublist l)).filter _

theorem perm_filter_iff {passes : Bytes → Bool} {wanted : α → Bool} (l : List α)
    (hval : ∀ x, val (val x) = val x)
    (hwanted : ∀ x ∈ l, passes (key x) → wanted (val x) → wanted x) :
    (((Map.insertAll (∅ : Map Bytes α) (l.map fun x => (key x, val x))).toList.filter
      (passes ·.1)).map Prod.snd).Perm (l.filter wanted) ↔
    ((latest key l).filter fun x => passes (key x)) = l.filter wanted ∧
      ∀ x ∈ l.filter wanted, val x = x := by
  have hstored := ((@toList_insertAll_perm α key val l).filter (passes ·.1)).map Prod.snd
  have hmap : (((latest key l).map fun x => (key x, val x)).filter (passes ·.1)).map Prod.snd =
      ((latest key l).filter fun x => passes (key x)).map val := by
    rw [List.filter_map, List.map_map]
    rfl
  rw [hmap] at hstored
  rw [List.Perm.congr_left hstored]
  constructor
  · intro h
    have hsub : ((latest key l).filter fun x => passes (key x)).Sublist (l.filter wanted) := by
      refine filter_latest_sublist fun x hx => ?_
      obtain ⟨hmem, hpass⟩ := List.mem_filter.1 hx
      exact hwanted x ((latest_sublist l).subset hmem) hpass
        (List.mem_filter.1 (h.subset (List.mem_map_of_mem hx))).2
    have heq := hsub.eq_of_length (by simpa using h.length_eq)
    refine ⟨heq, fun x hx => ?_⟩
    obtain ⟨y, -, rfl⟩ := List.mem_map.1 (h.symm.subset hx)
    exact hval y
  · rintro ⟨heq, hid⟩
    rw [heq, List.map_congr_left (g := id) hid, List.map_id]

theorem foldl_latest (l kept : List α) :
    l.foldl (fun kept x => kept.filter (key · ≠ key x) ++ [x]) kept =
      kept.filter (fun y => ∀ z ∈ l, key y ≠ key z) ++ latest key l := by
  induction l using List.reverseRecOn with
  | nil => simp [latest]
  | append_singleton l x ih =>
    rw [List.foldl_append, ih, latest_concat]
    simp only [List.foldl_cons, List.foldl_nil, List.filter_append, List.filter_filter,
      List.append_assoc]
    congr 2
    ext y
    simp [or_imp, forall_and, and_comm]

/-- An entry is kept unless a later one has its key. -/
theorem latest_cons (x : α) (l : List α) :
    latest key (x :: l) = if ∀ y ∈ l, key x ≠ key y then x :: latest key l else latest key l := by
  have h := @foldl_latest _ key l [x]
  rw [latest, List.foldl_cons]
  refine h.trans ?_
  split_ifs with hall
  · rw [List.filter_cons_of_pos (by simpa using hall)]
    rfl
  · rw [List.filter_cons_of_neg (by simpa using hall)]
    rfl

theorem forall_split_cons {p : α → List α → Prop} {x : α} {l : List α} :
    (∀ pre y post, x :: l = pre ++ y :: post → p y post) ↔
      p x l ∧ ∀ pre y post, l = pre ++ y :: post → p y post := by
  constructor
  · intro h
    exact ⟨h [] x l rfl, fun pre y post heq => h (x :: pre) y post (heq ▸ rfl)⟩
  · rintro ⟨hx, hl⟩ pre y post heq
    cases pre with
    | nil =>
      cases heq
      exact hx
    | cons z pre =>
      obtain ⟨rfl, rfl⟩ := List.cons.inj heq
      exact hl pre y post rfl

/-- The kept entries that pass are the wanted ones exactly if, of the entries that pass, those
are wanted that no later entry replaces. -/
theorem filter_latest_iff {passes wanted : α → Bool} (l : List α)
    (hpasses : ∀ x ∈ l, wanted x → passes x) : (latest key l).filter passes = l.filter wanted ↔
      ∀ pre x post, l = pre ++ x :: post → passes x →
        (wanted x ↔ ∀ y ∈ post, key x ≠ key y) := by
  induction l with
  | nil => simp [latest]
  | cons x l ih =>
    have ih := ih fun y hy => hpasses y (List.mem_cons_of_mem _ hy)
    have hpasses := hpasses x List.mem_cons_self
    rw [forall_split_cons, ← ih, latest_cons, List.filter_cons (p := wanted)]
    by_cases hlast : ∀ y ∈ l, key x ≠ key y
    · rw [if_pos hlast, List.filter_cons, iff_true_intro hlast]
      cases hp : passes x with
      | false =>
        have hw : ¬ wanted x = true := fun hw => by simp [hpasses hw] at hp
        simp [hw]
      | true =>
        by_cases hw : wanted x = true
        · simp [hw]
        · have hne : x :: (latest key l).filter passes ≠ l.filter wanted := by
            intro heq
            have hmem : x ∈ l.filter wanted := heq ▸ List.mem_cons_self
            exact hw (List.mem_filter.1 hmem).2
          simp [hw, hne]
    · rw [if_neg hlast, iff_false_intro hlast]
      by_cases hw : wanted x = true
      · -- one entry too few is kept
        have hne : (latest key l).filter passes ≠ x :: l.filter wanted := by
          intro heq
          have hall : ∀ y ∈ (latest key l).filter passes, wanted y = true := by
            intro y hy
            rw [heq] at hy
            rcases List.mem_cons.1 hy with rfl | hy
            · exact hw
            · exact (List.mem_filter.1 hy).2
          have hle := (filter_latest_sublist hall).length_le
          rw [heq, List.length_cons] at hle
          omega
        simp [hw, hne, hpasses hw]
      · simp [hw]

theorem exists_last {β : Type} (slot : α → β) {x : α} {l : List α} (h : x ∈ l) :
    ∃ pre y post, l = pre ++ y :: post ∧ slot y = slot x ∧ ∀ z ∈ post, slot y ≠ slot z := by
  induction l generalizing x with
  | nil => cases h
  | cons w l ih =>
    by_cases hlater : ∃ z ∈ l, slot z = slot x
    · obtain ⟨z, hz, heq⟩ := hlater
      obtain ⟨pre, y, post, rfl, hy, hpost⟩ := ih hz
      exact ⟨w :: pre, y, post, rfl, hy.trans heq, hpost⟩
    · push Not at hlater
      rcases List.mem_cons.1 h with rfl | hmem
      · exact ⟨[], x, l, rfl, rfl, fun z hz => (hlater z hz).symm⟩
      · exact absurd rfl (hlater x hmem)

theorem append_prefix_append_iff {a a' b c : Bytes} (h : a.length = a'.length) :
    a ++ b <+: a' ++ c ↔ a = a' ∧ b <+: c := by
  constructor
  · rintro ⟨t, ht⟩
    rw [List.append_assoc] at ht
    obtain ⟨rfl, rfl⟩ := List.append_inj ht h
    exact ⟨rfl, t, rfl⟩
  · rintro ⟨rfl, t, rfl⟩
    exact ⟨t, List.append_assoc _ _ _⟩

end Go
