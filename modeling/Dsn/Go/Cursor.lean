import Dsn.Go.Bolt

/-!
# Cursors

A cursor goes through the keys in order from a seek position; loops over it see the entries with
a given prefix.
-/

namespace Go

/-! ### Sorted lists -/

section

variable {α : Type} {q : α → Bool} {l : List α}

theorem span_eq_filter (h : l.Pairwise fun a b => q b → q a) :
    l.takeWhile q = l.filter q ∧ l.dropWhile q = l.filter fun a => !q a := by
  induction l with
  | nil => exact ⟨rfl, rfl⟩
  | cons a l ih =>
    obtain ⟨ha, hl⟩ := List.pairwise_cons.1 h
    cases hq : q a with
    | true => simp [hq, ih hl]
    | false =>
      have hrest : ∀ b ∈ l, q b = false := fun b hb =>
        Bool.eq_false_iff.2 fun hqb => Bool.eq_false_iff.1 hq (ha b hb hqb)
      have hkeep : (l.filter fun a => !q a) = l :=
        List.filter_eq_self.2 fun b hb => by rw [hrest b hb]; rfl
      simpa [hq, hkeep] using hrest

end

/-! ### Loops that decode -/

section

variable {α β : Type} {f : α → Except Error β}

variable {l : List α} {out : List β}

theorem mapM_eq_ok : l.mapM f = .ok out ↔ List.Forall₂ (fun a b => f a = .ok b) l out := by
  induction l generalizing out with
  | nil =>
    rw [List.forall₂_nil_left_iff]
    exact ⟨fun h => by cases h; rfl, fun h => by rw [h]; rfl⟩
  | cons a l ih =>
    rw [List.mapM_cons]
    simp only [except_bind_eq_ok, ih, List.forall₂_cons_left_iff]
    constructor
    · rintro ⟨b, hb, out', hout, h⟩
      cases h
      exact ⟨b, out', hb, hout, rfl⟩
    · rintro ⟨b, out', hb, hout, rfl⟩
      exact ⟨b, hb, out', hout, rfl⟩

theorem mapM_of_perm {g : β → α} {m : List β} (hl : l.Perm (m.map g))
    (hf : ∀ b ∈ m, f (g b) = .ok b) : ∃ out, l.mapM f = .ok out ∧ out.Perm m := by
  have hm : List.Forall₂ (fun a b => f a = .ok b) (m.map g) m := by
    rw [List.forall₂_map_left_iff, List.forall₂_same]
    exact hf
  obtain ⟨out, hout, hperm⟩ := List.perm_comp_forall₂ hl hm
  exact ⟨out, mapM_eq_ok.2 hout, hperm⟩

theorem exists_of_mapM (h : l.mapM f = .ok out) {b : β} (hb : b ∈ out) : ∃ a, f a = .ok b := by
  have hforall := mapM_eq_ok.1 h
  clear h
  induction hforall with
  | nil => cases hb
  | cons hfab _ ih =>
    rcases List.mem_cons.1 hb with rfl | hb
    · exact ⟨_, hfab⟩
    · exact ih hb

theorem map_of_mapM {γ : Type} {g : β → γ} {h : α → γ}
    (hout : l.mapM f = .ok out) (hl : ∀ a ∈ l, ∀ b, f a = .ok b → g b = h a) :
    out.map g = l.map h := by
  have hforall := mapM_eq_ok.1 hout
  clear hout
  induction hforall with
  | nil => rfl
  | cons hfab _ ih =>
    obtain ⟨ha, hl⟩ := List.forall_mem_cons.1 hl
    rw [List.map_cons, List.map_cons, ha _ hfab, ih hl]

end

/-! ### The order of keys -/

theorem compare_append (p a b : Bytes) : compare (p ++ a) (p ++ b) = compare a b := by
  induction p with
  | nil => rfl
  | cons x p ih =>
    have hx : compare x x = .eq := Std.LawfulEqCmp.compare_eq_iff_eq.2 rfl
    rw [List.cons_append, List.cons_append, List.compare_cons_cons, hx, ih]
    rfl

theorem compare_append_cons_lt (p a b : Bytes) {x y : UInt8} (h : x < y) :
    compare (p ++ x :: a) (p ++ y :: b) = .lt := by
  have hxy : compare x y = .lt := if_pos h
  rw [compare_append, List.compare_cons_cons, hxy]
  rfl

theorem not_lt_of_beginsWith {p a : Bytes} (h : p <+: a) : (compare a p).isLT = false := by
  obtain ⟨s, rfl⟩ := h
  have hcompare := compare_append p s []
  rw [List.append_nil] at hcompare
  rw [hcompare]
  cases s with
  | nil => rfl
  | cons x s => rfl

theorem beginsWith_of_between {p a b : Bytes} (hpa : (compare a p).isLT = false)
    (hab : compare a b = .lt) (hb : p <+: b) : p <+: a := by
  induction p generalizing a b with
  | nil => exact List.nil_prefix
  | cons x p ih =>
    obtain ⟨s, rfl⟩ := hb
    cases a with
    | nil => cases hpa
    | cons y a =>
      rw [List.cons_append, List.compare_cons_cons] at hab
      rw [List.compare_cons_cons] at hpa
      cases hyx : compare y x with
      | lt => rw [hyx] at hpa; cases hpa
      | gt => rw [hyx] at hab; cases hab
      | eq =>
        rw [hyx] at hpa hab
        obtain rfl := Std.LawfulEqCmp.compare_eq_iff_eq.1 hyx
        exact List.cons_prefix_cons.2 ⟨rfl, ih hpa hab (List.prefix_append p s)⟩

namespace Bolt

/-! ### The entries a cursor passes -/

def seek (b : Bucket) (key : Bytes) : List (Bytes × Bytes) :=
  b.toList.dropWhile fun e => (compare e.1 key).isLT

def scan (b : Bucket) (p : Bytes) : List (Bytes × Bytes) :=
  (seek b p).takeWhile fun e => p.isPrefixOf e.1

theorem seek_eq_filter (b : Bucket) (key : Bytes) :
    seek b key = b.toList.filter fun e => !(compare e.1 key).isLT := by
  refine (span_eq_filter (Std.ExtTreeMap.ordered_keys_toList.imp fun {e e'} hlt h => ?_)).2
  rw [Ordering.isLT_iff_eq_lt] at h ⊢
  exact Std.TransCmp.lt_trans hlt h

theorem seek_sorted (b : Bucket) (key : Bytes) :
    (seek b key).Pairwise fun e e' => compare e.1 e'.1 = .lt :=
  Std.ExtTreeMap.ordered_keys_toList.sublist (List.dropWhile_sublist _)

theorem scan_eq_filter (b : Bucket) (p : Bytes) :
    scan b p = b.toList.filter fun e => p.isPrefixOf e.1 := by
  have hseek {e : Bytes × Bytes} (he : e ∈ seek b p) : (compare e.1 p).isLT = false := by
    rw [seek_eq_filter, List.mem_filter] at he
    exact Bool.not_eq_true' _ ▸ he.2
  have hdown : (seek b p).Pairwise fun e e' => p.isPrefixOf e'.1 → p.isPrefixOf e.1 := by
    refine (seek_sorted b p).imp_of_mem fun {e e'} he _ hlt hp => ?_
    rw [List.isPrefixOf_iff_prefix] at hp ⊢
    exact beginsWith_of_between (hseek he) hlt hp
  unfold scan
  rw [(span_eq_filter hdown).1, seek_eq_filter, List.filter_filter]
  refine List.filter_congr fun e _ => ?_
  -- a key that begins with `p` is not below it
  cases hp : p.isPrefixOf e.1 with
  | false => rfl
  | true => rw [not_lt_of_beginsWith (List.isPrefixOf_iff_prefix.1 hp)]; rfl

def contents (db : DB) (name : Bytes) : Bucket := db[name]?.getD ∅

@[simp] theorem contents_putIn (name key value : Bytes) (db : DB) :
    contents (putIn name key value db) name = (contents db name).insert key value := by
  unfold contents
  rw [get_putIn_self, Option.getD_some]

variable {b : Bucket} {k key : Bytes}

theorem seek_insert_of_lt (hk : (compare k key).isLT) (v : Bytes) :
    (seek (b.insert k v) key).Perm (seek b key) := by
  rw [seek_eq_filter, seek_eq_filter]
  refine ((Map.toList_insert_perm b k v).filter _).trans ?_
  rw [List.filter_cons_of_neg (by simp [hk]), List.filter_filter]
  refine .of_eq (List.filter_congr fun e _ => ?_)
  by_cases he : e.1 = k
  · simp [he, hk]
  · simp [he]

theorem seek_insert_perm (hk : (compare k key).isLT = false) (h : b[k]? = none) (v : Bytes) :
    (seek (b.insert k v) key).Perm ((k, v) :: seek b key) := by
  rw [seek_eq_filter, seek_eq_filter]
  refine ((Map.toList_insert_perm_of_none h v).filter _).trans ?_
  rw [List.filter_cons_of_pos (by simp [hk])]

end Bolt

end Go
