import Dsn.Go.Exec

/-!
# Readers and writers

A `Reader` consumes bytes, a writer appends them; `readFull` is where short input shows.
-/

namespace Go

abbrev Reader (α : Type) := Exec Bytes α

def eof : Error := .new "EOF"

def unexpectedEOF : Error := .new "unexpected EOF"

def readFull (n : ℕ) : Reader Bytes := fun r =>
  if n ≤ r.length then .ok (r.take n) (r.drop n)
  else .error (if r = [] then eof else unexpectedEOF) []

def readFixed (n : ℕ) : Reader (FixedBytes n) := do
  let b ← readFull n
  return FixedBytes.copy n b

def readSome (n : ℕ) : Reader (FixedBytes n) := fun r =>
  if r = [] ∧ n ≠ 0 then .error eof [] else .ok (FixedBytes.copy n (r.take n)) (r.drop n)

def readBE (n : ℕ) : Reader ℕ := do
  let b ← readFull n
  return beNat b

def write (b : Bytes) : Exec Bytes Unit := modify (· ++ b)

def written (x : Exec Bytes Unit) : Bytes := finalState (x [])

def readMany {α : Type} (x : ℕ → Reader α) (i : ℕ) : ℕ → Reader (List α)
  | 0 => pure []
  | n + 1 => do
    let a ← x i
    let l ← readMany x (i + 1) n
    return a :: l

def readAfter {α : Type} (x : ℕ → α → Reader α) (i : ℕ) (prev : α) : ℕ → Reader (List α)
  | 0 => pure []
  | n + 1 => do
    let a ← x i prev
    let l ← readAfter x (i + 1) a n
    return a :: l

/-- The reader takes `b` for `a`, whatever follows. -/
def Reads {α : Type} (x : Reader α) (b : Bytes) (a : α) : Prop :=
  ∀ rest, x (b ++ rest) = .ok a rest

namespace Reads

variable {α β : Type}

theorem pure (a : α) : Reads (pure a) [] a := fun _ => rfl

variable {a : α} {a' : β} {f : α → Reader β} {x : Reader α}

variable {b : Bytes}

theorem bind {c : Bytes}
    (hx : Reads x b a) (hf : Reads (f a) c a') : Reads (x >>= f) (b ++ c) a' := by
  intro rest
  rw [List.append_assoc, bind_eq_ok_of (hx (c ++ rest))]
  exact hf rest

theorem bind_pure (hx : Reads x b a) (hf : Reads (f a) [] a') : Reads (x >>= f) b a' := by
  simpa using hx.bind hf

theorem nil_bind {c : Bytes}
    (hx : Reads x [] a) (hf : Reads (f a) c a') : Reads (x >>= f) c a' := by
  simpa using hx.bind hf

theorem failIf {p : Prop} [Decidable p] (e : Error) (h : ¬ p) : Reads (failIf p e) [] () :=
  fun rest => failIf_of_not e h rest

theorem readFull (b : Bytes) : Reads (readFull b.length) b b := by
  intro rest
  simp [Go.readFull]

variable {n : ℕ}

theorem readFixed (a : FixedBytes n) : Reads (readFixed n) a.bytes a := by
  have h := readFull a.bytes
  rw [a.length_eq] at h
  exact h.bind_pure (by simpa using pure a)

theorem readSome (a : FixedBytes n) : Reads (readSome n) a.bytes a := by
  intro rest
  have hne : ¬ (a.bytes ++ rest = [] ∧ n ≠ 0) := by
    rintro ⟨h, hn⟩
    have := a.length_eq
    rw [(List.append_eq_nil_iff.1 h).1] at this
    exact hn this.symm
  have htake : (a.bytes ++ rest).take n = a.bytes := by simp
  have hdrop : (a.bytes ++ rest).drop n = rest := by simp
  simp only [Go.readSome, if_neg hne, htake, hdrop, FixedBytes.copy_bytes]

theorem readBE_length (b : Bytes) : Reads (readBE b.length) b (beNat b) :=
  (readFull b).bind_pure (pure _)

theorem readBE {v : ℕ} (h : v < 256 ^ n) : Reads (readBE n) (beBytes n v) v := by
  have hr := readBE_length (beBytes n v)
  rwa [length_beBytes, beNat_beBytes h] at hr

theorem wrapErr (c : String) (h : Reads x b a) : Reads (wrapErr c x) b a := by
  intro rest
  unfold Go.wrapErr
  rw [h rest]

variable {enc : α → Bytes}

theorem readMany {x : ℕ → Reader α} (hx : ∀ i a, Reads (x i) (enc a) a)
    (l : List α) (i : ℕ) : Reads (readMany x i l.length) (l.flatMap enc) l := by
  induction l generalizing i with
  | nil => exact pure []
  | cons a l ih =>
    rw [List.length_cons, List.flatMap_cons, Go.readMany]
    exact (hx i a).bind ((ih (i + 1)).bind_pure (pure _))

theorem readAfter {x : ℕ → α → Reader α} {r : α → α → Prop} {p : α → Prop}
    (hx : ∀ i prev a, p a → (i = 0 ∨ r prev a) → Reads (x i prev) (enc a) a) {l : List α}
    (hp : ∀ a ∈ l, p a) (hr : l.Pairwise r) {i : ℕ} {prev : α}
    (hprev : i = 0 ∨ ∀ a ∈ l, r prev a) :
    Reads (readAfter x i prev l.length) (l.flatMap enc) l := by
  induction l generalizing i prev with
  | nil => exact pure []
  | cons a l ih =>
    obtain ⟨hfirst, hrest⟩ := List.pairwise_cons.1 hr
    obtain ⟨ha, hl⟩ := List.forall_mem_cons.1 hp
    rw [List.length_cons, List.flatMap_cons, Go.readAfter]
    refine (hx i prev a ha (hprev.imp_right fun h => h a List.mem_cons_self)).bind ?_
    exact (ih hl hrest (.inr hfirst)).bind_pure (pure _)

end Reads

/-! ### Writers and the readers of what they write -/

def Transmits {α : Type} (w : Exec Bytes Unit) (r : Reader α) (a : α) : Prop :=
  ∀ buf u buf', w buf = .ok u buf' → ∃ b, buf' = buf ++ b ∧ Reads r b a

namespace Transmits

variable {α β : Type}

variable {a : α} {r : Reader α}

theorem write {b : Bytes} (h : Reads r b a) : Transmits (write b) r a := by
  rintro buf u buf' hw
  cases hw
  exact ⟨b, rfl, h⟩

variable {w : Exec Bytes Unit}

variable {f : α → Reader β}

theorem bind {w' : Unit → Exec Bytes Unit} {a' : β} (hw : Transmits w r a)
    (hw' : Transmits (w' ()) (f a) a') : Transmits (w >>= w') (r >>= f) a' := by
  rintro buf u buf' h
  obtain ⟨_, buf1, h1, h2⟩ := bind_eq_ok.1 h
  obtain ⟨b, rfl, hr⟩ := hw _ _ _ h1
  obtain ⟨c, rfl, hr'⟩ := hw' _ _ _ h2
  exact ⟨b ++ c, List.append_assoc .., hr.bind hr'⟩

theorem bind_pure {a' : β}
    (hw : Transmits w r a) (hf : Reads (f a) [] a') : Transmits w (r >>= f) a' := by
  intro buf u buf' h
  obtain ⟨b, rfl, hr⟩ := hw _ _ _ h
  exact ⟨b, rfl, hr.bind_pure hf⟩

theorem failIf_bind {p : Prop} [Decidable p] {e : Error} {w : Unit → Exec Bytes Unit}
    (hw : ¬ p → Transmits (w ()) r a) : Transmits (failIf p e >>= w) r a := by
  intro buf u buf' h
  obtain ⟨hp, h2⟩ := failIf_bind_eq_ok.1 h
  exact hw hp _ _ _ h2

theorem bind_failIf {p : Prop} [Decidable p] {e : Error}
    {f : Unit → Reader α} (hp : ¬ p) (hw : Transmits w (f ()) a) :
    Transmits w (failIf p e >>= f) a := by
  intro buf u buf' h
  obtain ⟨b, rfl, hr⟩ := hw _ _ _ h
  exact ⟨b, rfl, (Reads.failIf e hp).nil_bind hr⟩

theorem wrapErr (c : String) (hw : Transmits w r a) : Transmits w (wrapErr c r) a := by
  intro buf u buf' h
  obtain ⟨b, rfl, hr⟩ := hw _ _ _ h
  exact ⟨b, rfl, hr.wrapErr c⟩

theorem forM {w : α → Exec Bytes Unit} {r : ℕ → Reader α} (hw : ∀ i a, Transmits (w a) (r i) a)
    (l : List α) (i : ℕ) : Transmits (l.forM w) (readMany r i l.length) l := by
  induction l generalizing i with
  | nil =>
    rintro buf u buf' h
    obtain ⟨-, rfl⟩ := pure_eq_ok.1 h
    exact ⟨[], (List.append_nil _).symm, Reads.pure []⟩
  | cons a l ih =>
    exact (hw i a).bind ((ih (i + 1)).bind_pure (Reads.pure _))

end Transmits

def Consumes {α : Type} (n : ℕ) (x : Reader α) : Prop :=
  ∀ r a r', x r = .ok a r' → r.length = n + r'.length

namespace Consumes

variable {α β : Type}

theorem pure (a : α) : Consumes 0 (pure a : Reader α) := by
  intro r b r' h
  rw [(pure_eq_ok.1 h).2, Nat.zero_add]

theorem ofResult (x : Except Error α) : Consumes 0 (ofResult x : Reader α) := by
  intro r b r' h
  rw [(ofResult_eq_ok.1 h).2, Nat.zero_add]

theorem bind {x : Reader α} {f : α → Reader β} {m n : ℕ} (hx : Consumes m x)
    (hf : ∀ a, Consumes n (f a)) : Consumes (m + n) (x >>= f) := by
  intro r b r' h
  obtain ⟨a, r1, h1, h2⟩ := bind_eq_ok.1 h
  rw [hx r a r1 h1, hf a r1 b r' h2, Nat.add_assoc]

theorem readFull (n : ℕ) : Consumes n (readFull n) := by
  intro r a r' h
  unfold Go.readFull at h
  split_ifs at h with hn
  cases h
  rw [List.length_drop]
  omega

theorem readFixed (n : ℕ) : Consumes n (readFixed n) := (readFull n).bind fun _ => pure _

theorem readBE (n : ℕ) : Consumes n (readBE n) := (readFull n).bind fun _ => pure _

end Consumes

def Appends (n : ℕ) (x : Exec Bytes Unit) : Prop :=
  ∀ buf, ∃ buf', x buf = .ok () buf' ∧ buf'.length = buf.length + n

namespace Appends

variable {n : ℕ}

theorem write {b : Bytes} (h : b.length = n) : Appends n (write b) :=
  fun buf => ⟨buf ++ b, rfl, h ▸ List.length_append⟩

variable {f : Unit → Exec Bytes Unit}

theorem bind {x : Exec Bytes Unit} {m : ℕ} (hx : Appends m x)
    (hf : Appends n (f ())) : Appends (m + n) (x >>= f) := by
  intro buf
  obtain ⟨buf1, h1, hlen1⟩ := hx buf
  obtain ⟨buf2, h2, hlen2⟩ := hf buf1
  exact ⟨buf2, bind_eq_ok.2 ⟨(), buf1, h1, h2⟩, by omega⟩

theorem failIf_bind {p : Prop} [Decidable p] {e : Error}
    (hp : ¬ p) (hf : Appends n (f ())) : Appends n (failIf p e >>= f) := by
  intro buf
  obtain ⟨buf', h, hlen⟩ := hf buf
  exact ⟨buf', bind_eq_ok.2 ⟨(), buf, failIf_of_not _ hp buf, h⟩, hlen⟩

theorem forM {α : Type} {x : α → Exec Bytes Unit} {size : α → ℕ} {l : List α}
    (h : ∀ a ∈ l, Appends (size a) (x a)) : Appends (l.map size).sum (l.forM x) := by
  induction l with
  | nil => exact fun buf => ⟨buf, rfl, rfl⟩
  | cons a l ih =>
    exact (h a List.mem_cons_self).bind (ih fun b hb => h b (List.mem_cons_of_mem a hb))

end Appends

theorem exists_of_forM_eq_ok {α : Type} {x : α → Exec Bytes Unit} {l : List α} {u : Unit}
    {buf buf' : Bytes} (h : l.forM x buf = .ok u buf') {a : α} (ha : a ∈ l) :
    ∃ b b', x a b = .ok () b' := by
  induction l generalizing buf with
  | nil => cases ha
  | cons c l ih =>
    obtain ⟨_, mid, hc, hl⟩ := bind_eq_ok.1 h
    rcases List.mem_cons.1 ha with rfl | ha
    · exact ⟨buf, mid, hc⟩
    · exact ih hl ha

end Go
