import Mathlib.Tactic

/-!
# Values with numbered versions

Numbered versions of a value, and which are live after going back.
-/

/-- The current value and the earlier ones. -/
structure Versions (V : Type*) where
  current : V
  saved : List V

namespace Versions

variable {V : Type*}

@[simps] def save (s : Versions V) : Versions V := { s with saved := s.saved ++ [s.current] }

def restore (id : ℤ) (s : Versions V) : Option (Versions V) :=
  if id < 0 then none
  else s.saved[id.toNat]?.map fun v => ⟨v, s.saved.take id.toNat⟩

inductive Change (V : Type*) where
  | save
  | restore (id : ℤ)
  | assign (v : V)

def Change.apply : Change V → Versions V → Versions V
  | .save, s => s.save
  | .restore id, s => (s.restore id).getD s
  | .assign v, s => { s with current := v }

def run (cs : List (Change V)) (s : Versions V) : Versions V := cs.foldl (fun s c => c.apply s) s

@[simp] theorem run_nil (s : Versions V) : run [] s = s := rfl

@[simp] theorem run_cons (c : Change V) (cs : List (Change V)) (s : Versions V) :
    run (c :: cs) s = run cs (c.apply s) := rfl

theorem run_append (cs ds : List (Change V)) (s : Versions V) :
    run (cs ++ ds) s = run ds (run cs s) := List.foldl_append

variable {s s' : Versions V} {id : ℤ}

theorem restore_eq_some : s.restore id = some s' ↔
    0 ≤ id ∧ s.saved[id.toNat]? = some s'.current ∧ s'.saved = s.saved.take id.toNat := by
  unfold restore
  cases s'
  split_ifs with h
  · simp [h]
  · cases s.saved[id.toNat]? <;> simp [not_lt.1 h, eq_comm]

theorem lt_of_restore (h : s.restore id = some s') : 0 ≤ id ∧ id < s.saved.length := by
  obtain ⟨h0, hget, -⟩ := restore_eq_some.1 h
  obtain ⟨hlt, -⟩ := List.getElem?_eq_some_iff.1 hget
  omega

theorem exists_restore (h0 : 0 ≤ id) (h : id < s.saved.length) : ∃ s', s.restore id = some s' := by
  have hlt : id.toNat < s.saved.length := by omega
  exact ⟨⟨s.saved[id.toNat], s.saved.take id.toNat⟩,
    restore_eq_some.2 ⟨h0, List.getElem?_eq_getElem hlt, rfl⟩⟩

def Change.Spares (n : ℕ) (c : Change V) (s : Versions V) : Prop :=
  ∀ id s', c = .restore id → s.restore id = some s' → n < id

def Spares (n : ℕ) : List (Change V) → Versions V → Prop
  | [], _ => True
  | c :: cs, s => c.Spares n s ∧ Spares n cs (c.apply s)

variable {cs : List (Change V)} {n : ℕ}

variable {c : Change V}

theorem spares_concat : Spares n (cs ++ [c]) s ↔ Spares n cs s ∧ c.Spares n (run cs s) := by
  induction cs generalizing s with
  | nil => simp [Spares]
  | cons d cs ih => simp only [List.cons_append, Spares, ih, run_cons, and_assoc]

theorem Change.Spares.take_saved (h : c.Spares n s)
    (hn : n < s.saved.length) : (c.apply s).saved.take (n + 1) = s.saved.take (n + 1) := by
  cases c with
  | save => exact List.take_append_of_le_length hn
  | assign v => rfl
  | restore id =>
    cases hr : s.restore id with
    | none => simp [Change.apply, hr]
    | some s' =>
      have hlt := h id s' rfl hr
      obtain ⟨-, -, hs⟩ := restore_eq_some.1 hr
      simp only [Change.apply, hr, Option.getD_some, hs, List.take_take]
      congr 1
      omega

theorem Spares.take_saved (h : Spares n cs s)
    (hn : n < s.saved.length) : (run cs s).saved.take (n + 1) = s.saved.take (n + 1) := by
  induction cs generalizing s with
  | nil => rfl
  | cons c cs ih =>
    have hstep := h.1.take_saved hn
    have hlen := congrArg List.length hstep
    rw [List.length_take, List.length_take] at hlen
    rw [run_cons, ih h.2 (by omega), hstep]

theorem restore_run_save (h : Spares s.saved.length cs s.save) :
    (run cs s.save).restore s.saved.length = some s := by
  have htake := h.take_saved (by simp)
  have hall : (s.saved ++ [s.current]).length ≤ s.saved.length + 1 := by simp
  rw [save_saved, List.take_of_length_le hall] at htake
  refine restore_eq_some.2 ⟨by omega, ?_, ?_⟩
  · rw [Int.toNat_natCast, ← List.getElem?_take_of_lt (Nat.lt_succ_self _), htake]
    simp
  · have hshort := congrArg (List.take s.saved.length) htake
    rw [List.take_take] at hshort
    simpa using hshort.symm

theorem exists_save_of_lt {v : V}
    (h : n < (run cs ⟨v, []⟩).saved.length) : ∃ before later, cs = before ++ .save :: later ∧
      (run before ⟨v, []⟩).saved.length = n ∧ Spares n later (run before ⟨v, []⟩).save := by
  induction cs using List.reverseRecOn with
  | nil => simp at h
  | append_singleton cs c ih =>
    rw [run_append, run_cons, run_nil] at h
    -- an older version is spared by the last change as well
    have hold : n < (run cs ⟨v, []⟩).saved.length → c.Spares n (run cs ⟨v, []⟩) →
        ∃ before later, cs ++ [c] = before ++ .save :: later ∧
          (run before ⟨v, []⟩).saved.length = n ∧ Spares n later (run before ⟨v, []⟩).save := by
      intro hlt hc
      obtain ⟨before, later, rfl, hlen, hspares⟩ := ih hlt
      rw [run_append] at hc
      exact ⟨before, later ++ [c], by simp, hlen, spares_concat.2 ⟨hspares, hc⟩⟩
    cases c with
    | assign w => exact hold h fun id s' hc => nomatch hc
    | save =>
      by_cases hlt : n < (run cs ⟨v, []⟩).saved.length
      · exact hold hlt fun id s' hc => nomatch hc
      · have hlen : n < (run cs ⟨v, []⟩).saved.length + 1 := by simpa [Change.apply] using h
        exact ⟨cs, [], rfl, by omega, trivial⟩
    | restore id =>
      cases hr : (run cs ⟨v, []⟩).restore id with
      | none =>
        rw [Change.apply, hr] at h
        refine hold h fun id' s' hc hr' => ?_
        cases hc
        rw [hr] at hr'
        cases hr'
      | some s' =>
        rw [Change.apply, hr, Option.getD_some, (restore_eq_some.1 hr).2.2, List.length_take] at h
        refine hold (by omega) fun id' s'' hc _ => ?_
        cases hc
        omega

end Versions
