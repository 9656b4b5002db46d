import Dsn.Go.Bytes

/-!
# Functions that can fail over a state

`Exec σ` is a function over a state that returns a value or an error, and the state either way.

* `bind_eq_ok` and its relatives take a run apart at its first step;
* `Steps R x`: whatever `x` does to the state, it stays within the relation `R`;
* `Atomic`, `FailsWithoutTrace`: what an error leaves behind.
-/

namespace Go

/-- An error value, or a panic. -/
inductive Error
  /-- `errors.New`, or `fmt.Errorf` without a wrapped error. -/
  | new (text : String)
  /-- `fmt.Errorf("context: %w", err)`. -/
  | wrap (context : String) (err : Error)
  /-- `fmt.Errorf("%w: text", err)`. -/
  | detail (err : Error) (text : String)
  /-- A validation error that names the offending field. -/
  | field (name : String) (err : Error)
  /-- A run-time panic. -/
  | panic (text : String)
  deriving DecidableEq

def Error.text : Error → String
  | .new t => t
  | .wrap c e => s!"{c}: {e.text}"
  | .detail e t => s!"{e.text}: {t}"
  | .field n e => s!"validation error on {n}: {e.text}"
  | .panic t => t

def Error.isPanic : Error → Bool
  | .panic _ => true
  | _ => false

def Error.within (context : String) (e : Error) : Error :=
  if e.isPanic then e else .wrap context e

/-- Code on a state; what fails keeps the writes made so far. -/
abbrev Exec (σ α : Type) := EStateM Error σ α

def failIf {σ : Type} (p : Prop) [Decidable p] (e : Error) : Exec σ Unit :=
  if p then throw e else pure ()

def check (p : Prop) [Decidable p] (e : Error) : Except Error Unit :=
  if p then .error e else .ok ()

def ofResult {σ α : Type} : Except Error α → Exec σ α
  | .ok a => pure a
  | .error e => throw e

def asks {σ α : Type} (f : σ → Except Error α) : Exec σ α := fun s =>
  match f s with
  | .ok a => .ok a s
  | .error e => .error e s

def wrapErr {σ α : Type} (context : String) (x : Exec σ α) : Exec σ α := fun s =>
  match x s with
  | .ok a s' => .ok a s'
  | .error e s' => .error (e.within context) s'

def attempt {σ α : Type} (x : Exec σ α) : Exec σ (Except Error α) := fun s =>
  match x s with
  | .ok a s' => .ok (.ok a) s'
  | .error e s' => if e.isPanic then .error e s' else .ok (.error e) s'

def quo (a b : UInt64) : Except Error UInt64 :=
  if b = 0 then .error (.panic "integer divide by zero") else .ok (a / b)

def rem (a b : UInt64) : Except Error UInt64 :=
  if b = 0 then .error (.panic "integer divide by zero") else .ok (a % b)

/-- What the runtime can address at most; a machine may grant less. -/
def maxAlloc : ℕ := 2 ^ 48

/-- A `make` of `n` elements ends the process beyond `limit` bytes. -/
def makeSlice {σ : Type} (limit size n : ℕ) : Exec σ Unit :=
  failIf (size * n > limit) (.panic "runtime error: makeslice: cap out of range")

def onPart {σ τ α : Type} (part : τ → σ) (set : σ → τ → τ) (x : Exec σ α) : Exec τ α := fun t =>
  match x (part t) with
  | .ok a s => .ok a (set s t)
  | .error e s => .error e (set s t)

def finalState {ε σ α : Type} : EStateM.Result ε σ α → σ
  | .ok _ s => s
  | .error _ s => s

def succeedsWith {σ α : Type} (p : α → σ → Bool) : EStateM.Result Error σ α → Bool
  | .ok a s => p a s
  | .error _ _ => false

section Inversion

variable {σ α β : Type} {s s' : σ}

variable {e : Error} {p : Prop}

@[simp] theorem check_eq_ok [Decidable p] {u : Unit} : check p e = .ok u ↔ ¬ p := by
  unfold check
  split_ifs with h <;> simp [h]

theorem check_eq_error [Decidable p] {e e' : Error} : check p e = .error e' ↔ p ∧ e = e' := by
  unfold check
  split_ifs with h <;> simp [h]

theorem except_bind_eq_ok {x : Except Error α} {f : α → Except Error β} {b : β} :
    (x >>= f) = .ok b ↔ ∃ a, x = .ok a ∧ f a = .ok b := by
  cases x <;> simp [bind, Except.bind]

theorem except_bind_eq_error {x : Except Error α} {f : α → Except Error β} :
    (x >>= f) = .error e ↔ x = .error e ∨ ∃ a, x = .ok a ∧ f a = .error e := by
  cases x <;> simp [bind, Except.bind]

theorem exists_of_forM_eq_error {f : α → Except Error Unit} {l : List α}
    (h : l.forM f = .error e) : ∃ a ∈ l, f a = .error e := by
  induction l with
  | nil => cases h
  | cons a l ih =>
    rcases except_bind_eq_error.1 h with ha | ⟨_, -, hl⟩
    · exact ⟨a, List.mem_cons_self, ha⟩
    · obtain ⟨b, hb, he⟩ := ih hl
      exact ⟨b, List.mem_cons_of_mem _ hb, he⟩

variable {a : α}

@[simp] theorem mapError_eq_ok {x : Except Error α} {f : Error → Error} :
    x.mapError f = .ok a ↔ x = .ok a := by
  cases x <;> simp [Except.mapError]

variable {x : Exec σ α}

theorem bind_eq_ok {f : α → Exec σ β} {b : β} :
    (x >>= f) s = .ok b s' ↔ ∃ a s1, x s = .ok a s1 ∧ f a s1 = .ok b s' := by
  show EStateM.bind x f s = .ok b s' ↔ _
  unfold EStateM.bind
  cases x s with
  | ok a s1 => simp
  | error e s1 => simp

theorem bind_eq_ok_of {f : α → Exec σ β} {s1 : σ} (h : x s = .ok a s1) : (x >>= f) s = f a s1 := by
  show EStateM.bind x f s = _
  unfold EStateM.bind
  rw [h]

theorem bind_eq_error_of {f : α → Exec σ β} {s1 : σ}
    (h : x s = .error e s1) : (x >>= f) s = .error e s1 := by
  show EStateM.bind x f s = _
  unfold EStateM.bind
  rw [h]

theorem bind_eq_error {f : α → Exec σ β} : (x >>= f) s = .error e s' ↔
      x s = .error e s' ∨ ∃ a s1, x s = .ok a s1 ∧ f a s1 = .error e s' := by
  cases hx : x s with
  | ok a s1 => simp [bind_eq_ok_of hx]
  | error e1 s1 => simp [bind_eq_error_of hx]

theorem bind_congr_left {x y : Exec σ α} {s t : σ} (h : x s = y t) (f : α → Exec σ β) :
    (x >>= f) s = (y >>= f) t := by
  cases hy : y t with
  | ok a t' => rw [bind_eq_ok_of (h.trans hy), bind_eq_ok_of hy]
  | error e t' => rw [bind_eq_error_of (h.trans hy), bind_eq_error_of hy]

@[simp] theorem pure_eq_ok {a b : α} : (pure a : Exec σ α) s = .ok b s' ↔ a = b ∧ s = s' := by
  show EStateM.Result.ok a s = .ok b s' ↔ _
  simp

variable {b : α}

@[simp] theorem throw_eq_ok : ¬ (throw e : Exec σ α) s = .ok b s' := by
  show ¬ EStateM.Result.error e s = .ok b s'
  simp

@[simp] theorem failIf_eq_ok [Decidable p] {u : Unit} :
    (failIf p e : Exec σ Unit) s = .ok u s' ↔ ¬ p ∧ s = s' := by
  unfold failIf
  split_ifs with h <;> simp [h]

theorem failIf_of_not [Decidable p] (e : Error) (h : ¬ p) (s : σ) :
    (failIf p e : Exec σ Unit) s = .ok () s := failIf_eq_ok.2 ⟨h, rfl⟩

theorem failIf_of [Decidable p] (e : Error) (h : p) (s : σ) :
    (failIf p e : Exec σ Unit) s = .error e s := by
  unfold failIf
  rw [if_pos h]
  rfl

@[simp] theorem ofResult_eq_ok {x : Except Error α} :
    (ofResult x : Exec σ α) s = .ok b s' ↔ x = .ok b ∧ s = s' := by
  cases x <;> simp [ofResult]

@[simp] theorem asks_eq_ok {f : σ → Except Error α} :
    asks f s = .ok b s' ↔ f s = .ok b ∧ s = s' := by
  unfold asks
  cases f s <;> simp

variable {c : String}

@[simp] theorem wrapErr_eq_ok : wrapErr c x s = .ok b s' ↔ x s = .ok b s' := by
  unfold wrapErr
  cases x s <;> simp

theorem asks_of_error {f : σ → Except Error α} (h : f s = .error e) : asks f s = .error e s := by
  unfold asks
  rw [h]

theorem wrapErr_of_error (h : x s = .error e s') : wrapErr c x s = .error (e.within c) s' := by
  unfold wrapErr
  rw [h]

theorem exists_of_wrapErr_eq_error
    (h : wrapErr c x s = .error e s') : ∃ e0, x s = .error e0 s' := by
  unfold wrapErr at h
  cases hr : x s with
  | ok a s1 => rw [hr] at h; cases h
  | error e0 s1 =>
    rw [hr] at h
    cases h
    exact ⟨e0, rfl⟩

theorem attempt_of_ok (h : x s = .ok a s') : attempt x s = .ok (.ok a) s' := by
  unfold attempt
  rw [h]

theorem attempt_eq_ok : attempt x s = .ok (.ok a) s' ↔ x s = .ok a s' := by
  unfold attempt
  cases x s with
  | ok b t => simp
  | error e t =>
    dsimp only
    split_ifs <;> simp

theorem attempt_of_error (h : x s = .error e s')
    (he : e.isPanic = false) : attempt x s = .ok (.error e) s' := by
  unfold attempt
  rw [h]
  simp [he]

theorem attempt_of_panic (h : x s = .error e s')
    (he : e.isPanic = true) : attempt x s = .error e s' := by
  unfold attempt
  rw [h]
  simp [he]

@[simp] theorem get_eq_ok {t : σ} : (get : Exec σ σ) s = .ok t s' ↔ s = t ∧ s = s' := by
  show EStateM.Result.ok s s = .ok t s' ↔ _
  simp

@[simp] theorem modify_eq_ok {f : σ → σ} {u : PUnit} :
    (modify f : Exec σ PUnit) s = .ok u s' ↔ f s = s' := by
  show EStateM.Result.ok PUnit.unit (f s) = .ok u s' ↔ _
  simp

theorem modify_run (f : σ → σ) (s : σ) : (modify f : Exec σ PUnit) s = .ok PUnit.unit (f s) := rfl

/-! ### The first step of a run -/

section First

variable {f : α → Exec σ β} {b : β}

theorem asks_bind {g : σ → Except Error α} {a : α} (h : g s = .ok a) : (asks g >>= f) s = f a s :=
  bind_eq_ok_of (asks_eq_ok.2 ⟨h, rfl⟩)

theorem asks_bind_eq_ok {g : σ → Except Error α} :
    (asks g >>= f) s = .ok b s' ↔ ∃ a, g s = .ok a ∧ f a s = .ok b s' := by
  simp [bind_eq_ok]

theorem ofResult_bind {x : Except Error α} {a : α} (h : x = .ok a) : (ofResult x >>= f) s = f a s :=
  bind_eq_ok_of (ofResult_eq_ok.2 ⟨h, rfl⟩)

theorem ofResult_bind_eq_ok {x : Except Error α} :
    (ofResult x >>= f) s = .ok b s' ↔ ∃ a, x = .ok a ∧ f a s = .ok b s' := by
  simp [bind_eq_ok]

theorem wrapErr_bind {c : String} {x : Exec σ α} {a : α} {s1 : σ} (h : x s = .ok a s1) :
    (wrapErr c x >>= f) s = f a s1 := bind_eq_ok_of (wrapErr_eq_ok.2 h)

theorem wrapErr_bind_eq_ok {c : String} {x : Exec σ α} :
    (wrapErr c x >>= f) s = .ok b s' ↔ (x >>= f) s = .ok b s' := by
  simp [bind_eq_ok]

theorem failIf_bind {p : Prop} [Decidable p] {e : Error} {f : Unit → Exec σ β} (h : ¬ p) :
    (failIf p e >>= f) s = f () s := bind_eq_ok_of (failIf_of_not e h s)

theorem failIf_bind_eq_ok {p : Prop} [Decidable p] {e : Error} {f : Unit → Exec σ β} :
    (failIf p e >>= f) s = .ok b s' ↔ ¬ p ∧ f () s = .ok b s' := by
  rw [bind_eq_ok]
  constructor
  · rintro ⟨_, _, hx, h⟩
    obtain ⟨hp, rfl⟩ := failIf_eq_ok.1 hx
    exact ⟨hp, h⟩
  · exact fun ⟨hp, h⟩ => ⟨(), s, failIf_of_not e hp s, h⟩

theorem get_bind {f : σ → Exec σ β} : (get >>= f) s = f s s := rfl

theorem modify_bind {g : σ → σ} {f : PUnit → Exec σ β} : (modify g >>= f) s = f ⟨⟩ (g s) := rfl

end First

theorem exists_of_succeedsWith {p : α → σ → Bool} {r : EStateM.Result Error σ α}
    (h : succeedsWith p r = true) : ∃ a s, r = .ok a s ∧ p a s = true := by
  cases r with
  | ok a s => exact ⟨a, s, rfl, h⟩
  | error e s => cases h

end Inversion

section Part

variable {σ τ α : Type} {part : τ → σ} {set : σ → τ → τ} {x : Exec σ α} {t t' : τ} {s : σ}

theorem onPart_eq_ok {a : α} :
    onPart part set x t = .ok a t' ↔ ∃ s, x (part t) = .ok a s ∧ t' = set s t := by
  unfold onPart
  cases x (part t) with
  | ok b s => simp [eq_comm]
  | error e s => simp

theorem onPart_of_ok {a : α} (h : x (part t) = .ok a s) :
    onPart part set x t = .ok a (set s t) := onPart_eq_ok.2 ⟨s, h, rfl⟩

theorem onPart_of_error {e : Error} (h : x (part t) = .error e s) :
    onPart part set x t = .error e (set s t) := by
  unfold onPart
  rw [h]

theorem onPart_eq_error {e : Error} :
    onPart part set x t = .error e t' ↔ ∃ s, x (part t) = .error e s ∧ t' = set s t := by
  unfold onPart
  cases x (part t) with
  | ok b s => simp
  | error e s => simp [eq_comm]

theorem finalState_onPart : finalState (onPart part set x t) = set (finalState (x (part t))) t := by
  unfold onPart
  cases x (part t) <;> rfl

end Part

theorem finalState_wrapErr {σ α : Type} (c : String) (x : Exec σ α) (s : σ) :
    finalState (wrapErr c x s) = finalState (x s) := by
  unfold wrapErr
  cases x s <;> rfl

theorem finalState_attempt {σ α : Type} (x : Exec σ α) (s : σ) :
    finalState (attempt x s) = finalState (x s) := by
  unfold attempt
  cases x s with
  | ok a s' => rfl
  | error e s' => dsimp only; split_ifs <;> rfl

theorem finalState_bind_pure {σ α β : Type} (x : Exec σ α) (f : α → β) (s : σ) :
    finalState ((x >>= fun a => pure (f a)) s) = finalState (x s) := by
  cases hr : x s with
  | ok a s' =>
    rw [bind_eq_ok_of hr]
    rfl
  | error e s' =>
    rw [bind_eq_error_of hr]
    rfl

/-! ### Moving the state along a relation -/

/-- However the run ends, it ends in relation to where it began. -/
def Steps {σ α : Type} (R : σ → σ → Prop) (x : Exec σ α) : Prop := ∀ s, R s (finalState (x s))

namespace Steps

variable {σ α β : Type} {R : σ → σ → Prop}

variable {x : Exec σ α}

theorem of_ok (h : Steps R x) {s s' : σ} {a : α} (hx : x s = .ok a s') : R s s' := by
  have := h s
  rwa [hx] at this

variable [Std.Refl R]

theorem pure (a : α) : Steps R (pure a : Exec σ α) := fun s => Std.Refl.refl s

theorem throw (e : Error) : Steps R (throw e : Exec σ α) := fun s => Std.Refl.refl s

theorem failIf (p : Prop) [Decidable p] (e : Error) : Steps R (failIf p e : Exec σ Unit) := by
  unfold Go.failIf
  split_ifs
  · exact throw e
  · exact pure ()

theorem ofResult (x : Except Error α) : Steps R (ofResult x : Exec σ α) := by
  cases x with
  | ok a => exact pure a
  | error e => exact throw e

theorem asks (f : σ → Except Error α) : Steps R (asks f) := by
  intro s
  unfold Go.asks
  cases f s <;> exact Std.Refl.refl s

theorem get : Steps R (get : Exec σ σ) := fun s => Std.Refl.refl s

omit [Std.Refl R] in
theorem modify {f : σ → σ} (h : ∀ s, R s (f s)) : Steps R (modify f : Exec σ PUnit) := h

omit [Std.Refl R] in
theorem wrapErr (c : String) (h : Steps R x) : Steps R (wrapErr c x) := by
  intro s
  rw [finalState_wrapErr]
  exact h s

omit [Std.Refl R] in
theorem attempt (h : Steps R x) : Steps R (attempt x) := by
  intro s
  rw [finalState_attempt]
  exact h s

omit [Std.Refl R] in
theorem bind_at [IsTrans σ R] {f : α → Exec σ β} {s : σ} (hx : R s (finalState (x s)))
    (hf : ∀ a s1, x s = .ok a s1 → R s1 (finalState (f a s1))) :
    R s (finalState ((x >>= f) s)) := by
  cases h : x s with
  | ok a s1 =>
    rw [h] at hx
    rw [bind_eq_ok_of h]
    exact IsTrans.trans _ _ _ hx (hf a s1 h)
  | error e s1 =>
    rw [h] at hx
    rw [bind_eq_error_of h]
    exact hx

omit [Std.Refl R] in
theorem bind [IsTrans σ R] {f : α → Exec σ β} (hx : Steps R x)
    (hf : ∀ a, Steps R (f a)) : Steps R (x >>= f) :=
  fun s => bind_at (hx s) fun a s1 _ => hf a s1

theorem of_reads (h : Steps Eq x) : Steps R x := by
  intro s
  rw [← h s]
  exact Std.Refl.refl s

omit [Std.Refl R] in
theorem bind_pure (hx : Steps R x) (f : α → β) : Steps R (x >>= fun a => Pure.pure (f a)) := by
  intro s
  rw [finalState_bind_pure]
  exact hx s

omit [Std.Refl R] in
theorem ite {p : Prop} [Decidable p] {x y : Exec σ α} (hx : Steps R x) (hy : Steps R y) :
    Steps R (if p then x else y) := by
  split_ifs
  · exact hx
  · exact hy

theorem forM [IsTrans σ R] {f : α → Exec σ PUnit} (hf : ∀ a, Steps R (f a)) (l : List α) :
    Steps R (l.forM f) := by
  induction l with
  | nil => exact pure _
  | cons a l ih => exact bind (hf a) fun _ => ih

end Steps

variable {f : α → Exec σ Unit}

theorem forM_ok (hf : ∀ a s, ∃ s', f a s = .ok () s') (l : List α) (s : σ) :
    ∃ s', l.forM f s = .ok () s' := by
  induction l generalizing s with
  | nil => exact ⟨s, rfl⟩
  | cons a l ih =>
    obtain ⟨s1, h1⟩ := hf a s
    obtain ⟨s', h'⟩ := ih s1
    exact ⟨s', (bind_eq_ok_of h1).trans h'⟩

variable {s s' : σ}

theorem forM_keeps {P : σ → Prop} {l : List α}
    (hstep : ∀ a ∈ l, ∀ s s', P s → f a s = .ok () s' → P s')
    (h : l.forM f s = .ok () s') (hs : P s) : P s' := by
  induction l generalizing s with
  | nil =>
    cases h
    exact hs
  | cons a l ih =>
    obtain ⟨_, s1, ha, hl⟩ := bind_eq_ok.1 h
    have hs1 := hstep a List.mem_cons_self s s1 hs ha
    exact ih (fun b hb => hstep b (List.mem_cons_of_mem _ hb)) hl hs1

theorem forM_append_eq_ok {l l' : List α} :
    (l ++ l').forM f s = .ok () s' ↔ ∃ t, l.forM f s = .ok () t ∧ l'.forM f t = .ok () s' := by
  induction l generalizing s with
  | nil =>
    constructor
    · exact fun h => ⟨s, rfl, h⟩
    · rintro ⟨t, h, h'⟩
      cases h
      exact h'
  | cons a l ih =>
    constructor
    · intro h
      obtain ⟨_, s1, ha, hl⟩ := bind_eq_ok.1 h
      obtain ⟨t, ht, h'⟩ := ih.1 hl
      exact ⟨t, (bind_eq_ok_of ha).trans ht, h'⟩
    · rintro ⟨t, h, h'⟩
      obtain ⟨_, s1, ha, hl⟩ := bind_eq_ok.1 h
      exact (bind_eq_ok_of ha).trans (ih.2 ⟨t, hl, h'⟩)

theorem forM_singleton_eq_ok {a : α} : [a].forM f s = .ok () s' ↔ f a s = .ok () s' := by
  constructor
  · intro h
    obtain ⟨_, s1, ha, hl⟩ := bind_eq_ok.1 h
    cases hl
    exact ha
  · exact fun h => (bind_eq_ok_of h).trans rfl

def Keeps {σ : Type} (P : σ → Prop) (s s' : σ) : Prop := P s → P s'

instance {σ : Type} (P : σ → Prop) : Std.Refl (Keeps P) := ⟨fun _ h => h⟩

instance {σ : Type} (P : σ → Prop) : IsTrans σ (Keeps P) := ⟨fun _ _ _ h h' hs => h' (h hs)⟩

/-! ### Failing without a trace -/

def Atomic {σ α : Type} (x : Exec σ α) : Prop := ∀ s e s', x s = .error e s' → s' = s

section Atomic

variable {σ α β : Type}

theorem Atomic.modify (f : σ → σ) : Atomic (modify f : Exec σ PUnit) := by
  intro s e s' h
  cases h

variable {x : Exec σ α}

theorem Atomic.wrapErr (hx : Atomic x) (c : String) : Atomic (wrapErr c x) := by
  intro s e s' h
  obtain ⟨e0, hr⟩ := exists_of_wrapErr_eq_error h
  exact hx s e0 s' hr

variable {f : α → Exec σ β}

theorem Atomic.bind (hx : Steps Eq x) (hf : ∀ a, Atomic (f a)) : Atomic (x >>= f) := by
  intro s e s' h
  have hs := hx s
  cases hr : x s with
  | ok a s1 =>
    rw [hr] at hs
    rw [bind_eq_ok_of hr] at h
    exact (hf a s1 e s' h).trans hs.symm
  | error e' s1 =>
    rw [hr] at hs
    rw [bind_eq_error_of hr] at h
    cases h
    exact hs.symm

variable {e : Error} {s s' : σ}

theorem eq_or_of_bind_eq_error (hx : Steps Eq x) (h : (x >>= f) s = .error e s') :
    s' = s ∨ ∃ a, x s = .ok a s ∧ f a s = .error e s' := by
  have hs := hx s
  rcases bind_eq_error.1 h with hr | ⟨a, s1, hr, hf⟩ <;> rw [hr] at hs
  · exact .inl hs.symm
  · cases hs
    exact .inr ⟨a, hr, hf⟩

theorem failIf_bind_eq_error {p : Prop} [Decidable p] {e e' : Error} {f : Unit → Exec σ β}
    (h : (failIf p e >>= f) s = .error e' s') : s' = s ∨ ¬ p ∧ f () s = .error e' s' := by
  rcases eq_or_of_bind_eq_error (Steps.failIf p e) h with rfl | ⟨_, hp, h⟩
  · exact .inl rfl
  · exact .inr ⟨(failIf_eq_ok.1 hp).1, h⟩

theorem asks_bind_eq_error {g : σ → Except Error α}
    (h : (asks g >>= f) s = .error e s') : s' = s ∨ ∃ a, g s = .ok a ∧ f a s = .error e s' := by
  rcases eq_or_of_bind_eq_error (Steps.asks g) h with rfl | ⟨a, ha, h⟩
  · exact .inl rfl
  · exact .inr ⟨a, (asks_eq_ok.1 ha).1, h⟩

theorem ofResult_bind_eq_error {c : String} {x : Except Error α}
    (h : (wrapErr c (ofResult x) >>= f) s = .error e s') :
    s' = s ∨ ∃ a, x = .ok a ∧ f a s = .error e s' := by
  rcases eq_or_of_bind_eq_error ((Steps.ofResult x).wrapErr c) h with rfl | ⟨a, ha, h⟩
  · exact .inl rfl
  · exact .inr ⟨a, (ofResult_eq_ok.1 (wrapErr_eq_ok.1 ha)).1, h⟩

theorem rel_of_bind_eq_error {R : σ → σ → Prop} [IsTrans σ R]
    (hx : Steps R x) (hf : ∀ a s e s', f a s = .error e s' → R s s') (s : σ) (e : Error) (s' : σ)
    (h : (x >>= f) s = .error e s') : R s s' := by
  have hs := hx s
  rcases bind_eq_error.1 h with hr | ⟨a, s1, hr, hfail⟩ <;> rw [hr] at hs
  · exact hs
  · exact IsTrans.trans _ _ _ hs (hf a s1 e s' hfail)

theorem Steps.of_atomic {R : σ → σ → Prop} [Std.Refl R] (hx : Atomic x)
    (h : ∀ s a s', x s = .ok a s' → R s s') : Steps R x := by
  intro s
  cases hr : x s with
  | ok a s' => exact h s a s' hr
  | error e s' =>
    obtain rfl := hx s e s' hr
    exact Std.Refl.refl _

end Atomic

/-! ### Returning no error -/

def OnlyPanics {σ α : Type} (x : Exec σ α) : Prop :=
  ∀ s e s', x s = .error e s' → e.isPanic = true

section OnlyPanics

variable {σ α β : Type}

theorem OnlyPanics.modify (f : σ → σ) : OnlyPanics (modify f : Exec σ PUnit) := by
  intro s e s' h
  cases h

theorem OnlyPanics.asks {f : σ → Except Error α} (hf : ∀ s e, f s = .error e → e.isPanic = true) :
    OnlyPanics (asks f) := by
  intro s e s' h
  unfold Go.asks at h
  cases hr : f s with
  | ok a => rw [hr] at h; cases h
  | error e1 =>
    rw [hr] at h
    cases h
    exact hf s _ hr

theorem OnlyPanics.bind {x : Exec σ α} {f : α → Exec σ β} (hx : OnlyPanics x)
    (hf : ∀ a, OnlyPanics (f a)) : OnlyPanics (x >>= f) := by
  intro s e s' h
  rcases bind_eq_error.1 h with h | ⟨a, s1, -, h⟩
  · exact hx s e s' h
  · exact hf a s1 e s' h

end OnlyPanics

/-! ### Panicking -/

def Panics {σ α : Type} (x : Exec σ α) (s : σ) : Prop :=
  ∃ e s', x s = .error e s' ∧ e.isPanic = true

section Panics

variable {σ α β : Type} {s : σ}

variable {x : Exec σ α}

theorem panics_bind {f : α → Exec σ β} :
    Panics (x >>= f) s ↔ Panics x s ∨ ∃ a s1, x s = .ok a s1 ∧ Panics (f a) s1 := by
  unfold Panics
  constructor
  · rintro ⟨e, s', h, he⟩
    rcases bind_eq_error.1 h with h | ⟨a, s1, ha, h⟩
    · exact .inl ⟨e, s', h, he⟩
    · exact .inr ⟨a, s1, ha, e, s', h, he⟩
  · rintro (⟨e, s', h, he⟩ | ⟨a, s1, ha, e, s', h, he⟩)
    · exact ⟨e, s', bind_eq_error.2 (.inl h), he⟩
    · exact ⟨e, s', bind_eq_error.2 (.inr ⟨a, s1, ha, h⟩), he⟩

theorem not_panics_of_ok {a : α} {s' : σ} (h : x s = .ok a s') : ¬ Panics x s := by
  rintro ⟨e, t, h', -⟩
  cases h.symm.trans h'

variable {e : Error}

theorem not_panics_of_error {s' : σ} (h : x s = .error e s')
    (he : e.isPanic = false) : ¬ Panics x s := by
  rintro ⟨e', t, h', hp⟩
  cases h.symm.trans h'
  rw [he] at hp
  cases hp

theorem not_panics_failIf {p : Prop} [Decidable p] (he : e.isPanic = false) :
    ¬ Panics (failIf p e : Exec σ Unit) s := by
  by_cases hp : p
  · exact not_panics_of_error (failIf_of e hp s) he
  · exact not_panics_of_ok (failIf_of_not e hp s)

@[simp] theorem isPanic_within (c : String) (e : Error) : (e.within c).isPanic = e.isPanic := by
  unfold Error.within
  cases he : e.isPanic with
  | true => simp [he]
  | false => rfl

theorem panics_wrapErr {c : String} : Panics (wrapErr c x) s ↔ Panics x s := by
  unfold Panics wrapErr
  cases x s with
  | ok a s' => simp
  | error e s' => simp [and_comm]

theorem panics_attempt : Panics (attempt x) s ↔ Panics x s := by
  unfold Panics attempt
  cases x s with
  | ok a s' => simp
  | error e s' => cases he : e.isPanic <;> simp [he]

theorem isPanic_of_attempt {s' : σ} (h : attempt x s = .ok (.error e) s') : e.isPanic = false := by
  unfold attempt at h
  cases hx : x s with
  | ok a s1 => rw [hx] at h; cases h
  | error e1 s1 =>
    rw [hx] at h
    dsimp only at h
    split_ifs at h with he
    cases h
    exact Bool.eq_false_iff.2 he

end Panics

end Go
