import Mathlib.Data.Set.Function
import Mathlib.Tactic

/-!
# Trees of prefixes that share entries

A tree that stores labels at prefixes of paths and shares entries between runs. Without collisions
of labels the label at the top tells the calls that led to it.
-/

namespace PrefixTree

structure Positions (P : Type) where
  depth : ℕ
  depth_pos : 0 < depth
  bit : P → ℕ → Bool
  cut : P → ℕ → P
  origin : P
  bit_cut : ∀ p d, ∀ i < depth, bit (cut p d) i = (decide (i < d) && bit p i)
  bit_origin : ∀ i < depth, bit origin i = false
  ext : ∀ p q, (∀ i < depth, bit p i = bit q i) → p = q

namespace Positions

variable {P : Type} (T : Positions P) {p q : P} {d e : ℕ}

/-! ### Prefixes -/

theorem cut_cut (p : P) (d e : ℕ) : T.cut (T.cut p d) e = T.cut p (min d e) := by
  refine T.ext _ _ fun i hi => ?_
  rw [T.bit_cut _ _ i hi, T.bit_cut _ _ i hi, T.bit_cut _ _ i hi]
  by_cases hd : i < d <;> by_cases he : i < e <;> simp [hd, he]

theorem cut_of_depth_le (p : P) (h : T.depth ≤ d) : T.cut p d = p := by
  refine T.ext _ _ fun i hi => ?_
  rw [T.bit_cut _ _ i hi, decide_eq_true (hi.trans_le h), Bool.true_and]

theorem cut_zero (p : P) : T.cut p 0 = T.origin := by
  refine T.ext _ _ fun i hi => ?_
  rw [T.bit_cut _ _ i hi, T.bit_origin i hi]
  rfl

theorem cut_succ (hd : d < T.depth) (h : T.bit p d = false) : T.cut p (d + 1) = T.cut p d := by
  refine T.ext _ _ fun i hi => ?_
  rw [T.bit_cut _ _ i hi, T.bit_cut _ _ i hi]
  rcases Nat.lt_trichotomy i d with hid | rfl | hid
  · simp [hid, Nat.lt_succ_of_lt hid]
  · simp [h]
  · simp [Nat.not_lt.2 hid.le, Nat.not_lt.2 (Nat.succ_le_of_lt hid)]

theorem cut_ne_cut (hd : d < T.depth) (h : T.bit p d = true) (he : d < e) :
    T.cut p e ≠ T.cut p d := by
  intro heq
  have hbit := congrArg (T.bit · d) heq
  simp [T.bit_cut _ _ d hd, he, h] at hbit

theorem cut_eq_cut (h : ∀ i < T.depth, i < d → T.bit p i = T.bit q i) :
    T.cut p d = T.cut q d := by
  refine T.ext _ _ fun i hi => ?_
  rw [T.bit_cut _ _ i hi, T.bit_cut _ _ i hi]
  by_cases hid : i < d
  · rw [h i hi hid]
  · simp [hid]

noncomputable def level (x : P) : ℕ := sInf {d | T.cut x d = x}

theorem cut_level (x : P) : T.cut x (T.level x) = x :=
  Nat.sInf_mem (s := {d | T.cut x d = x}) ⟨T.depth, T.cut_of_depth_le x le_rfl⟩

variable {x : P}

theorem level_le (h : T.cut x d = x) : T.level x ≤ d := Nat.sInf_le h

theorem cut_of_level_le (h : T.level x ≤ d) : T.cut x d = x := by
  conv_lhs => rw [← T.cut_level x]
  rw [T.cut_cut, min_eq_left h, T.cut_level]

theorem level_cut_le (p : P) (d : ℕ) : T.level (T.cut p d) ≤ d :=
  T.level_le (by rw [T.cut_cut, min_self])

theorem level_le_depth (x : P) : T.level x ≤ T.depth :=
  T.level_le (T.cut_of_depth_le x le_rfl)

def Passes (q x : P) : Prop := T.cut q (T.level x) = x

theorem passes_cut (q : P) (d : ℕ) : T.Passes q (T.cut q d) := by
  have h := T.cut_level (T.cut q d)
  rwa [T.cut_cut, min_eq_right (T.level_cut_le q d)] at h

theorem passes_iff : T.Passes q x ↔ ∃ d ≤ T.depth, T.cut q d = x := by
  refine ⟨fun h => ⟨T.level x, T.level_le_depth x, h⟩, ?_⟩
  rintro ⟨d, -, rfl⟩
  exact T.passes_cut q d

theorem Passes.cut {T : Positions P} (h : T.Passes q x) (d : ℕ) : T.Passes q (T.cut x d) := by
  have heq : T.cut x d = T.cut q (min (T.level x) d) := by
    rw [← T.cut_cut, show T.cut q (T.level x) = x from h]
  rw [heq]
  exact T.passes_cut q _

end Positions

variable {P X : Type} (T : Positions P) (join : X → X → X)

/-! ### One call -/

def climb (E : P → X) (p : P) (c : X) : ℕ → X
  | 0 => c
  | n + 1 =>
    let d := T.depth - (n + 1)
    let a := climb E p c n
    join (if T.bit p d then E (T.cut p d) else a) a

def leftAt (E : P → X) (p : P) (c : X) (n : ℕ) : X :=
  if T.bit p (T.depth - (n + 1)) then E (T.cut p (T.depth - (n + 1))) else climb T join E p c n

theorem climb_succ (E : P → X) (p : P) (c : X) (n : ℕ) :
    climb T join E p c (n + 1) = join (leftAt T join E p c n) (climb T join E p c n) := rfl

open Classical in
noncomputable def writeTo (E : P → X) (p : P) (c : X) (n : ℕ) (x : P) : X :=
  let d := max (T.level x) (T.depth - n)
  if T.cut p d = x then climb T join E p c (T.depth - d) else E x

noncomputable def write (E : P → X) (p : P) (c : X) : P → X := writeTo T join E p c T.depth

variable {T join} {E : P → X} {p : P} {c : X} {n : ℕ}

variable {d : ℕ} {x : P}

theorem writeTo_of_cut (hd : max (T.level x) (T.depth - n) = d)
    (h : T.cut p d = x) : writeTo T join E p c n x = climb T join E p c (T.depth - d) := by
  subst hd
  exact if_pos h

theorem writeTo_of_not_cut (hd : max (T.level x) (T.depth - n) = d)
    (h : T.cut p d ≠ x) : writeTo T join E p c n x = E x := by
  subst hd
  exact if_neg h

theorem writeTo_zero [DecidableEq P] (E : P → X) (p : P) (c : X) :
    writeTo T join E p c 0 = Function.update E p c := by
  funext x
  have hmax : max (T.level x) (T.depth - 0) = T.depth := max_eq_right (T.level_le_depth x)
  have hp : T.cut p T.depth = p := T.cut_of_depth_le p le_rfl
  by_cases hx : p = x
  · subst hx
    rw [Function.update_self, writeTo_of_cut hmax hp, Nat.sub_self]
    rfl
  · rw [Function.update_of_ne (Ne.symm hx), writeTo_of_not_cut hmax (hp.trans_ne hx)]

theorem writeTo_cut (hn : n < T.depth) :
    writeTo T join E p c n (T.cut p (T.depth - (n + 1))) = leftAt T join E p c n := by
  have hmax : max (T.level (T.cut p (T.depth - (n + 1)))) (T.depth - n) =
      T.depth - (n + 1) + 1 := by
    have := T.level_cut_le p (T.depth - (n + 1))
    omega
  have hd : T.depth - (n + 1) < T.depth := by omega
  unfold leftAt
  cases hbit : T.bit p (T.depth - (n + 1)) with
  | false =>
    rw [writeTo_of_cut hmax (T.cut_succ hd hbit),
      show T.depth - (T.depth - (n + 1) + 1) = n by omega]
    rfl
  | true =>
    rw [writeTo_of_not_cut hmax (T.cut_ne_cut hd hbit (Nat.lt_succ_self _))]
    rfl

theorem writeTo_succ [DecidableEq P] (hn : n < T.depth) :
    writeTo T join E p c (n + 1) =
      Function.update (writeTo T join E p c n) (T.cut p (T.depth - (n + 1)))
        (climb T join E p c (n + 1)) := by
  funext x
  by_cases hx : T.cut p (T.depth - (n + 1)) = x
  · subst hx
    rw [Function.update_self, writeTo_of_cut (max_eq_right (T.level_cut_le p _)) rfl,
      show T.depth - (T.depth - (n + 1)) = n + 1 by omega]
  rw [Function.update_of_ne (Ne.symm hx)]
  by_cases hl : T.level x ≤ T.depth - (n + 1)
  · -- if the last step was on `x`, this one stays on it
    have hmax : max (T.level x) (T.depth - n) = T.depth - (n + 1) + 1 := by omega
    rw [writeTo_of_not_cut (max_eq_right hl) hx, writeTo_of_not_cut hmax]
    intro hcut
    refine hx ?_
    rw [← T.cut_of_level_le hl, ← hcut, T.cut_cut, min_eq_right (Nat.le_succ _)]
  · have hmax : max (T.level x) (T.depth - (n + 1)) = max (T.level x) (T.depth - n) := by omega
    by_cases hcut : T.cut p (max (T.level x) (T.depth - n)) = x
    · rw [writeTo_of_cut hmax hcut, writeTo_of_cut rfl hcut]
    · rw [writeTo_of_not_cut hmax hcut, writeTo_of_not_cut rfl hcut]

theorem write_of_passes (h : T.Passes p x) :
    write T join E p c x = climb T join E p c (T.depth - T.level x) :=
  writeTo_of_cut (by omega) h

theorem write_of_not_passes (h : ¬ T.Passes p x) : write T join E p c x = E x :=
  writeTo_of_not_cut (by omega) h

theorem level_origin : T.level T.origin = 0 :=
  Nat.le_zero.1 (T.level_le (T.cut_zero _))

theorem write_origin : write T join E p c T.origin = climb T join E p c T.depth := by
  have hpass : T.Passes p T.origin := by
    unfold Positions.Passes
    rw [level_origin, T.cut_zero]
  rw [write_of_passes hpass, level_origin, Nat.sub_zero]

/-! ### Joins without collisions -/

def joins (T : Positions P) (join : X → X → X) (E : P → X) (p : P) (c : X) : Set (X × X) :=
  {a | ∃ n < T.depth, a = (leftAt T join E p c n, climb T join E p c n)}

structure Free (join : X → X → X) (S : Set (X × X)) (B : Set X) : Prop where
  inj : Set.InjOn (fun a : X × X => join a.1 a.2) S
  not_mem : ∀ a ∈ S, join a.1 a.2 ∉ B

inductive Spine (join : X → X → X) (S : Set (X × X)) (B : Set X) : ℕ → X → Prop
  | base {a : X} (h : a ∈ B) : Spine join S B 0 a
  | join {l r : X} {n : ℕ} (h : (l, r) ∈ S) (hr : Spine join S B n r) :
      Spine join S B (n + 1) (join l r)

variable {S : Set (X × X)} {B : Set X}

theorem Spine.unique (hfree : Free join S B) {a : X} {m : ℕ} (h : Spine join S B m a)
    (h' : Spine join S B n a) : m = n := by
  induction h generalizing n with
  | base hB =>
    cases h' with
    | base _ => rfl
    | join hS _ => exact absurd hB (hfree.not_mem _ hS)
  | @join l r m hS _ ih =>
    generalize hb : join l r = b at h'
    cases h' with
    | base hB => exact absurd (hb ▸ hB) (hfree.not_mem _ hS)
    | @join l' r' n hS' hr' =>
      cases hfree.inj hS hS' hb
      rw [ih hr']

theorem climb_spine (hc : c ∈ B) (hS : joins T join E p c ⊆ S) (hn : n ≤ T.depth) :
    Spine join S B n (climb T join E p c n) := by
  induction n with
  | zero => exact .base hc
  | succ n ih =>
    exact .join (hS ⟨n, hn, rfl⟩) (ih (Nat.le_of_succ_le hn))

def Layered (T : Positions P) (join : X → X → X) (S : Set (X × X)) (B : Set X) (zero : X)
    (E : P → X) : Prop :=
  ∀ x, E x = zero ∨ Spine join S B (T.depth - T.level x) (E x)

theorem Layered.write {zero : X} (h : Layered T join S B zero E) (hc : c ∈ B)
    (hS : joins T join E p c ⊆ S) : Layered T join S B zero (write T join E p c) := by
  intro x
  by_cases hx : T.Passes p x
  · rw [write_of_passes hx]
    exact .inr (climb_spine hc hS (Nat.sub_le _ _))
  · rw [write_of_not_passes hx]
    exact h x

/-! ### Two calls with one label at the top -/

section

variable {E' : P → X} {p' : P} {c' zero : X}

theorem climb_eq_of_top (hfree : Free join S B) (hS : joins T join E p c ⊆ S)
    (hS' : joins T join E' p' c' ⊆ S)
    (h : climb T join E p c T.depth = climb T join E' p' c' T.depth) (hn : n ≤ T.depth) :
    climb T join E p c n = climb T join E' p' c' n ∧
      (n < T.depth → leftAt T join E p c n = leftAt T join E' p' c' n) := by
  have hstep {m : ℕ} (hm : m < T.depth)
      (hsucc : climb T join E p c (m + 1) = climb T join E' p' c' (m + 1)) :
      climb T join E p c m = climb T join E' p' c' m ∧
        leftAt T join E p c m = leftAt T join E' p' c' m := by
    have hpair := hfree.inj (hS ⟨m, hm, rfl⟩) (hS' ⟨m, hm, rfl⟩) hsucc
    exact ⟨(Prod.mk.inj hpair).2, (Prod.mk.inj hpair).1⟩
  -- from the top down
  have hdown (k : ℕ) (hk : k ≤ T.depth) :
      climb T join E p c (T.depth - k) = climb T join E' p' c' (T.depth - k) := by
    induction k with
    | zero => exact h
    | succ k ih =>
      have heq : T.depth - (k + 1) + 1 = T.depth - k := by omega
      exact (hstep (by omega) (heq ▸ ih (Nat.le_of_succ_le hk))).1
  have hat {m : ℕ} (hm : m ≤ T.depth) : climb T join E p c m = climb T join E' p' c' m := by
    have := hdown (T.depth - m) (Nat.sub_le _ _)
    rwa [Nat.sub_sub_self hm] at this
  exact ⟨hat hn, fun hlt => (hstep hlt (hat hlt)).2⟩

theorem last_bit_of_ne (hfree : Free join S B) (hzero : zero ∈ B)
    (hE : Layered T join S B zero E) (hc : c ∈ B) (hS : joins T join E p c ⊆ S)
    (hleft : leftAt T join E p c n = climb T join E p c n) (hn : n < T.depth)
    (hbit : T.bit p (T.depth - (n + 1)) = true) :
    n = 0 ∧ c = zero ∧ E (T.cut p (T.depth - 1)) = zero := by
  have hspine : Spine join S B n (climb T join E p c n) := climb_spine hc hS hn.le
  unfold leftAt at hleft
  rw [if_pos hbit] at hleft
  rcases hE (T.cut p (T.depth - (n + 1))) with hunset | hlayer
  · rw [hunset] at hleft
    rw [← hleft] at hspine
    obtain rfl := hspine.unique hfree (.base hzero)
    exact ⟨rfl, hleft.symm, hunset⟩
  · rw [hleft] at hlayer
    have hlevel := T.level_cut_le p (T.depth - (n + 1))
    have := hlayer.unique hfree hspine
    omega

end

/-! ### Runs -/

section

variable (T join) (zero : X)

noncomputable def run (calls : List (P × X)) : P → X :=
  calls.foldl (fun E c => write T join E c.1 c.2) fun _ => zero

def runJoins (calls : List (P × X)) : Set (X × X) :=
  {a | ∃ before c after, calls = before ++ c :: after ∧
    a ∈ joins T join (run T join zero before) c.1 c.2}

def Passed (calls : List (P × X)) (x : P) : Prop := ∃ c ∈ calls, T.Passes c.1 x

open Classical in
noncomputable def normal (before : List (P × X)) (c : P × X) : P × X :=
  if c.2 = zero ∧ ¬ Passed T before (T.cut c.1 (T.depth - 1)) then (T.cut c.1 (T.depth - 1), zero)
  else c

noncomputable def normalsFrom (before : List (P × X)) : List (P × X) → List (P × X)
  | [] => []
  | c :: rest => normal T zero before c :: normalsFrom (before ++ [c]) rest

noncomputable def normals (calls : List (P × X)) : List (P × X) := normalsFrom T zero [] calls

end

variable {zero : X} {calls calls' : List (P × X)}

theorem run_append_singleton (calls : List (P × X)) (a : P × X) :
    run T join zero (calls ++ [a]) = write T join (run T join zero calls) a.1 a.2 := by
  simp [run]

theorem normals_append_singleton (calls : List (P × X)) (a : P × X) :
    normals T zero (calls ++ [a]) = normals T zero calls ++ [normal T zero calls a] := by
  have hfrom (before : List (P × X)) : normalsFrom T zero before (calls ++ [a]) =
      normalsFrom T zero before calls ++ [normal T zero (before ++ calls) a] := by
    induction calls generalizing before with
    | nil => simp [normalsFrom]
    | cons b calls ih => simp [normalsFrom, ih]
  exact hfrom []

theorem run_of_not_passed (h : ¬ Passed T calls x) : run T join zero calls x = zero := by
  induction calls using List.reverseRecOn with
  | nil => rfl
  | append_singleton calls a ih =>
    have ha : ¬ T.Passes a.1 x := fun hp => h ⟨a, by simp, hp⟩
    rw [run_append_singleton, write_of_not_passes ha]
    exact ih fun ⟨b, hb, hp⟩ => h ⟨b, List.mem_append_left _ hb, hp⟩

theorem climb_cut_last (h : E (T.cut p (T.depth - 1)) = zero) (hn : n ≤ T.depth) :
    climb T join E (T.cut p (T.depth - 1)) zero n = climb T join E p zero n := by
  induction n with
  | zero => rfl
  | succ n ih =>
    rw [climb_succ, ih (Nat.le_of_succ_le hn)]
    congr 1
    unfold leftAt
    rw [ih (Nat.le_of_succ_le hn)]
    by_cases hn0 : n = 0
    · subst hn0
      have hclear : T.bit (T.cut p (T.depth - 1)) (T.depth - 1) = false := by
        rw [T.bit_cut _ _ _ (by omega)]
        simp
      simp [hclear, h, climb]
    · have hsame : T.bit (T.cut p (T.depth - 1)) (T.depth - (n + 1)) =
          T.bit p (T.depth - (n + 1)) := by
        rw [T.bit_cut _ _ _ (by omega), decide_eq_true (by omega), Bool.true_and]
      rw [hsame, T.cut_cut, min_eq_right (by omega)]

theorem cut_last_of_clear (hbit : T.bit p (T.depth - 1) = false) : T.cut p (T.depth - 1) = p := by
  have hpos := T.depth_pos
  have hcut := T.cut_succ (by omega) hbit
  rw [← hcut, Nat.sub_add_cancel hpos, T.cut_of_depth_le p le_rfl]

theorem write_cut_last (h : E (T.cut p (T.depth - 1)) = zero) (hp : E p = zero) :
    write T join E (T.cut p (T.depth - 1)) zero = write T join E p zero := by
  funext x
  by_cases hlevel : T.level x ≤ T.depth - 1
  · have hpass : T.Passes (T.cut p (T.depth - 1)) x ↔ T.Passes p x := by
      unfold Positions.Passes
      rw [T.cut_cut, min_eq_right hlevel]
    by_cases hx : T.Passes p x
    · rw [write_of_passes (hpass.2 hx), write_of_passes hx,
        climb_cut_last h (Nat.sub_le _ _)]
    · rw [write_of_not_passes fun h => hx (hpass.1 h), write_of_not_passes hx]
  · -- only the position itself is on this level
    have hmax : T.level x = T.depth := by have := T.level_le_depth x; omega
    have hnot : ¬ T.Passes (T.cut p (T.depth - 1)) x := by
      unfold Positions.Passes
      rw [hmax, T.cut_of_depth_le _ le_rfl]
      rintro rfl
      exact hlevel (T.level_cut_le _ _)
    rw [write_of_not_passes hnot]
    by_cases hx : T.Passes p x
    · rw [write_of_passes hx, hmax, Nat.sub_self]
      unfold Positions.Passes at hx
      rw [hmax, T.cut_of_depth_le _ le_rfl] at hx
      rw [← hx, hp]
      rfl
    · rw [write_of_not_passes hx]

theorem run_normals (calls : List (P × X)) :
    run T join zero (normals T zero calls) = run T join zero calls := by
  induction calls using List.reverseRecOn with
  | nil => rfl
  | append_singleton calls a ih =>
    rw [normals_append_singleton, run_append_singleton, run_append_singleton, ih]
    unfold normal
    split_ifs with h
    · obtain ⟨hzero, hnot⟩ := h
      have hnotp : ¬ Passed T calls a.1 := fun ⟨b, hb, hpass⟩ => hnot ⟨b, hb, hpass.cut _⟩
      rw [hzero]
      exact write_cut_last (run_of_not_passed hnot) (run_of_not_passed hnotp)
    · rfl

/-! ### What the top of a run tells -/

structure Admissible (T : Positions P) (join : X → X → X) (zero : X) (S : Set (X × X)) (B : Set X)
    (calls : List (P × X)) : Prop where
  labels : ∀ a ∈ calls, a.2 ∈ B
  below : ∀ a ∈ calls, a.1 ≠ T.origin
  joined : runJoins T join zero calls ⊆ S

/-- The last call of an admissible run. -/
structure LastCall (T : Positions P) (join : X → X → X) (zero : X) (S : Set (X × X)) (B : Set X)
    (calls : List (P × X)) (a : P × X) : Prop where
  before : Admissible T join zero S B calls
  label : a.2 ∈ B
  below : a.1 ≠ T.origin
  joined : joins T join (run T join zero calls) a.1 a.2 ⊆ S

variable {a : P × X}

theorem Admissible.last (h : Admissible T join zero S B (calls ++ [a])) :
    LastCall T join zero S B calls a where
  before :=
    { labels := fun b hb => h.labels b (List.mem_append_left _ hb)
      below := fun b hb => h.below b (List.mem_append_left _ hb)
      joined := fun j ⟨l, b, r, hcalls, hj⟩ => h.joined ⟨l, b, r ++ [a], by simp [hcalls], hj⟩ }
  label := h.labels a (by simp)
  below := h.below a (by simp)
  joined := fun _ hj => h.joined ⟨calls, a, [], rfl, hj⟩

theorem Admissible.layered (h : Admissible T join zero S B calls) :
    Layered T join S B zero (run T join zero calls) := by
  induction calls using List.reverseRecOn with
  | nil => exact fun _ => .inl rfl
  | append_singleton calls a ih =>
    rw [run_append_singleton]
    exact (ih h.last.before).write h.last.label h.last.joined

theorem LastCall.spine (h : LastCall T join zero S B calls a) (hn : n ≤ T.depth) :
    Spine join S B n (climb T join (run T join zero calls) a.1 a.2 n) :=
  climb_spine h.label h.joined hn

theorem Admissible.ne_zero_of_passed (hfree : Free join S B) (hzero : zero ∈ B)
    (h : Admissible T join zero S B calls) (hx : T.level x < T.depth)
    (hpass : Passed T calls x) : run T join zero calls x ≠ zero := by
  induction calls using List.reverseRecOn with
  | nil =>
    obtain ⟨a, ha, -⟩ := hpass
    cases ha
  | append_singleton calls a ih =>
    rw [run_append_singleton]
    by_cases ha : T.Passes a.1 x
    · rw [write_of_passes ha]
      intro heq
      have hspine := h.last.spine (Nat.sub_le T.depth (T.level x))
      rw [heq] at hspine
      have := hspine.unique hfree (.base hzero)
      omega
    · rw [write_of_not_passes ha]
      obtain ⟨b, hb, hpb⟩ := hpass
      refine ih h.last.before ⟨b, ?_, hpb⟩
      rcases List.mem_append.1 hb with hb | hb
      · exact hb
      · obtain rfl := List.mem_singleton.1 hb
        exact absurd hpb ha

theorem passed_iff (hfree : Free join S B) (hzero : zero ∈ B)
    (h : Admissible T join zero S B calls) (hx : T.level x < T.depth) :
    Passed T calls x ↔ run T join zero calls x ≠ zero :=
  ⟨h.ne_zero_of_passed hfree hzero hx, fun hne => by_contra fun hn => hne (run_of_not_passed hn)⟩

section

variable {a a' : P × X}

theorem exists_first_bit (hp : p ≠ T.origin) :
    ∃ b < T.depth, T.bit p b = true ∧ ∀ i < b, T.bit p i = false := by
  classical
  have hex : ∃ b, b < T.depth ∧ T.bit p b = true := by
    by_contra hnone
    refine hp (T.ext _ _ fun i hi => ?_)
    rw [T.bit_origin i hi]
    exact Bool.eq_false_iff.2 fun hbit => hnone ⟨i, hi, hbit⟩
  obtain ⟨hlt, hbit⟩ := Nat.find_spec hex
  refine ⟨Nat.find hex, hlt, hbit, fun i hi => Bool.eq_false_iff.2 fun hb => ?_⟩
  exact Nat.find_min hex hi ⟨hi.trans hlt, hb⟩

theorem leftAt_first_bit {b : ℕ} (hb : b < T.depth) (hbit : T.bit p b = true)
    (hclear : ∀ i < b, T.bit p i = false) :
    leftAt T join E p c (T.depth - (b + 1)) = E T.origin := by
  have hidx : T.depth - (T.depth - (b + 1) + 1) = b := by omega
  have hcut : T.cut p b = T.origin := by
    rw [← T.cut_zero p]
    refine T.ext _ _ fun i hi => ?_
    rw [T.bit_cut _ _ i hi, T.bit_cut _ _ i hi]
    by_cases hib : i < b
    · simp [hclear i hib]
    · simp [hib]
  unfold leftAt
  rw [hidx, if_pos hbit, hcut]

theorem normal_of_clear (hbit : T.bit a.1 (T.depth - 1) = false) (calls : List (P × X)) :
    normal T zero calls a = a := by
  unfold normal
  split_ifs with h
  · rw [cut_last_of_clear hbit, ← h.1]
  · rfl

variable (hfree : Free join S B) (hzero : zero ∈ B) (h : LastCall T join zero S B calls a)
  (h' : LastCall T join zero S B calls' a')
  (htop : climb T join (run T join zero calls) a.1 a.2 T.depth =
    climb T join (run T join zero calls') a'.1 a'.2 T.depth)
include hfree hzero h h' htop

variable {i : ℕ}

theorem LastCall.eq_or_last_bit (hi : i < T.depth) (hbit : T.bit a.1 i = true)
    (hbit' : T.bit a'.1 i = false) :
    i = T.depth - 1 ∧ a.2 = zero ∧ run T join zero calls (T.cut a.1 (T.depth - 1)) = zero := by
  have hidx : T.depth - (T.depth - (i + 1) + 1) = i := by omega
  have hn : T.depth - (i + 1) < T.depth := by omega
  obtain ⟨hclimb, hleft⟩ := climb_eq_of_top hfree h.joined h'.joined htop hn.le
  have hleft := hleft hn
  -- the second call stays on its entry at this step
  have hright : leftAt T join (run T join zero calls') a'.1 a'.2 (T.depth - (i + 1)) =
      climb T join (run T join zero calls') a'.1 a'.2 (T.depth - (i + 1)) := by
    unfold leftAt
    rw [hidx, hbit']
    rfl
  obtain ⟨h0, hc, hunset⟩ := last_bit_of_ne hfree hzero h.before.layered h.label h.joined
    (hleft.trans (hright.trans hclimb.symm)) hn (hidx.symm ▸ hbit)
  exact ⟨by omega, hc, hunset⟩

theorem LastCall.bit_eq (hi : i < T.depth - 1) : T.bit a.1 i = T.bit a'.1 i := by
  cases hbit : T.bit a.1 i <;> cases hbit' : T.bit a'.1 i
  · rfl
  · have := (h'.eq_or_last_bit hfree hzero h htop.symm (by omega) hbit' hbit).1
    omega
  · have := (h.eq_or_last_bit hfree hzero h' htop (by omega) hbit hbit').1
    omega
  · rfl

theorem LastCall.origin_eq :
    run T join zero calls T.origin = run T join zero calls' T.origin := by
  obtain ⟨b, hb, hbit, hclear⟩ := exists_first_bit h.below
  have hsame {i : ℕ} (hi : i < T.depth - 1) : T.bit a.1 i = T.bit a'.1 i :=
    h.bit_eq hfree hzero h' htop hi
  have hclear' : ∀ i < b, T.bit a'.1 i = false := fun i hi => by
    rw [← hsame (by omega)]
    exact hclear i hi
  have hbit' : T.bit a'.1 b = true := by
    by_cases hlast : b < T.depth - 1
    · rw [← hsame hlast]
      exact hbit
    · -- there is no other bit left that could be set
      obtain ⟨b', hb', hset, -⟩ := exists_first_bit h'.below
      obtain rfl : b' = b := by
        by_contra hne
        rw [hclear' b' (by omega)] at hset
        cases hset
      exact hset
  have hleft := (climb_eq_of_top hfree h.joined h'.joined htop (Nat.sub_le T.depth (b + 1))).2
    (by omega)
  rwa [leftAt_first_bit hb hbit hclear, leftAt_first_bit hb hbit' hclear'] at hleft

theorem LastCall.normal_eq :
    normal T zero calls a = normal T zero calls' a' := by
  have hpos := T.depth_pos
  have hlabel : a.2 = a'.2 := (climb_eq_of_top hfree h.joined h'.joined htop (Nat.zero_le _)).1
  have hsame {i : ℕ} (hi : i < T.depth - 1) : T.bit a.1 i = T.bit a'.1 i :=
    h.bit_eq hfree hzero h' htop hi
  have hparent : T.cut a.1 (T.depth - 1) = T.cut a'.1 (T.depth - 1) :=
    T.cut_eq_cut fun i _ hi => hsame hi
  have hlevel (q : P) : T.level (T.cut q (T.depth - 1)) < T.depth :=
    (T.level_cut_le _ _).trans_lt (by omega)
  have hposition (hlast : T.bit a.1 (T.depth - 1) = T.bit a'.1 (T.depth - 1)) : a.1 = a'.1 := by
    refine T.ext _ _ fun i hi => ?_
    by_cases hi' : i < T.depth - 1
    · exact hsame hi'
    · rw [show i = T.depth - 1 by omega]
      exact hlast
  cases hbit : T.bit a.1 (T.depth - 1) <;> cases hbit' : T.bit a'.1 (T.depth - 1)
  · rw [normal_of_clear hbit, normal_of_clear hbit']
    exact Prod.ext (hposition (hbit.trans hbit'.symm)) hlabel
  · obtain ⟨-, hc, hunset⟩ := h'.eq_or_last_bit hfree hzero h htop.symm (by omega) hbit' hbit
    have hnot := mt (passed_iff hfree hzero h'.before (hlevel a'.1)).1 (not_not.2 hunset)
    rw [normal_of_clear hbit, normal, if_pos ⟨hc, hnot⟩]
    exact Prod.ext ((cut_last_of_clear hbit).symm.trans hparent) (hlabel.trans hc)
  · obtain ⟨-, hc, hunset⟩ := h.eq_or_last_bit hfree hzero h' htop (by omega) hbit hbit'
    have hnot := mt (passed_iff hfree hzero h.before (hlevel a.1)).1 (not_not.2 hunset)
    rw [normal_of_clear hbit', normal, if_pos ⟨hc, hnot⟩]
    exact Prod.ext (hparent.trans (cut_last_of_clear hbit')) (hc.symm.trans hlabel)
  · -- the same call, above an entry that both runs have set or neither
    obtain rfl : a = a' := Prod.ext (hposition (hbit.trans hbit'.symm)) hlabel
    have hleft := (climb_eq_of_top hfree h.joined h'.joined htop (Nat.zero_le _)).2 hpos
    simp only [leftAt, hbit, if_true] at hleft
    have hpassed : Passed T calls (T.cut a.1 (T.depth - 1)) ↔
        Passed T calls' (T.cut a.1 (T.depth - 1)) := by
      rw [passed_iff hfree hzero h.before (hlevel a.1),
        passed_iff hfree hzero h'.before (hlevel a.1), hleft]
    unfold normal
    rw [hpassed]

end

theorem run_origin_eq_iff (hfree : Free join S B) (hzero : zero ∈ B)
    (h : Admissible T join zero S B calls) (h' : Admissible T join zero S B calls') :
    run T join zero calls T.origin = run T join zero calls' T.origin ↔
      normals T zero calls = normals T zero calls' := by
  refine ⟨fun htop => ?_, fun hnormals => ?_⟩
  · have hne {calls : List (P × X)} {a : P × X} (h : LastCall T join zero S B calls a) :
        run T join zero (calls ++ [a]) T.origin ≠ zero := by
      rw [run_append_singleton, write_origin]
      intro heq
      have hspine := h.spine le_rfl
      rw [heq] at hspine
      exact T.depth_pos.ne' (hspine.unique hfree (.base hzero))
    induction calls using List.reverseRecOn generalizing calls' with
    | nil =>
      cases calls' using List.reverseRecOn with
      | nil => rfl
      | append_singleton calls' a' => exact absurd htop.symm (hne h'.last)
    | append_singleton calls a ih =>
      cases calls' using List.reverseRecOn with
      | nil => exact absurd htop (hne h.last)
      | append_singleton calls' a' =>
        rw [run_append_singleton, run_append_singleton, write_origin, write_origin] at htop
        rw [normals_append_singleton, normals_append_singleton,
          ih h.last.before h'.last.before (h.last.origin_eq hfree hzero h'.last htop),
          h.last.normal_eq hfree hzero h'.last htop]
  · rw [← run_normals calls, hnormals, run_normals]

end PrefixTree
