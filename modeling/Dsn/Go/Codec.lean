import Dsn.Go.Reader

/-!
# What a codec determines

Facts about readers and writers in general: when a value has one encoding, what a failed writer has
written, which readers can panic.
-/

namespace Go

variable {α β : Type}

/-! ### Unique decoding -/

namespace Reads

variable {r : Reader α}

theorem append_inj {b b' x y : Bytes} {a a' : α} (h : Reads r b a)
    (h' : Reads r b' a') (heq : b ++ x = b' ++ y) : a = a' ∧ x = y := by
  have hx := h x
  rw [heq, h' y] at hx
  cases hx
  exact ⟨rfl, rfl⟩

theorem inj {b : Bytes} {a a' : α} (h : Reads r b a) (h' : Reads r b a') : a = a' :=
  (h.append_inj h' (rfl : b ++ [] = b ++ [])).1

variable {enc : α → Bytes}

theorem flatMap_inj (h : ∀ a, Reads r (enc a) a)
    (hne : ∀ a, enc a ≠ []) {l l' : List α} (heq : l.flatMap enc = l'.flatMap enc) : l = l' := by
  induction l generalizing l' with
  | nil =>
    cases l' with
    | nil => rfl
    | cons a l' => exact absurd (List.append_eq_nil_iff.1 heq.symm).1 (hne a)
  | cons a l ih =>
    cases l' with
    | nil => exact absurd (List.append_eq_nil_iff.1 heq).1 (hne a)
    | cons a' l' =>
      obtain ⟨rfl, hrest⟩ := (h a).append_inj (h a') heq
      rw [ih hrest]

variable {x : ℕ → Reader α}

theorem readMany_flatten {items : List α} {encs : List Bytes}
    (h : List.Forall₂ (fun a b => ∀ i, Reads (x i) b a) items encs) (i : ℕ) :
    Reads (Go.readMany x i items.length) encs.flatten items := by
  induction h generalizing i with
  | nil => exact pure []
  | cons ha _ ih =>
    exact (ha i).bind ((ih (i + 1)).bind_pure (pure _))

theorem readMany_of_mem {l : List α} (h : ∀ i, ∀ a ∈ l, Reads (x i) (enc a) a) (i : ℕ) :
    Reads (Go.readMany x i l.length) (l.flatMap enc) l := by
  refine readMany_flatten (List.forall₂_map_right_iff.2 (List.forall₂_same.2 fun a ha => ?_)) i
  exact fun i => h i a ha

end Reads

/-! ### From the value back to the bytes -/

theorem beBytes_beNat (b : Bytes) : beBytes b.length (beNat b) = b :=
  beNat_inj (length_beBytes _ _) (beNat_beBytes (beNat_lt b))

variable {n : ℕ}

theorem readFull_eq_ok {r b r' : Bytes} : readFull n r = .ok b r' ↔ b.length = n ∧ r = b ++ r' := by
  constructor
  · intro h
    unfold readFull at h
    split_ifs at h with hn
    cases h
    exact ⟨List.length_take_of_le hn, (List.take_append_drop n r).symm⟩
  · rintro ⟨rfl, rfl⟩
    exact Reads.readFull b r'

variable {r r' : Bytes}

theorem readFixed_eq_ok {a : FixedBytes n} (h : readFixed n r = .ok a r') : r = a.bytes ++ r' := by
  obtain ⟨b, _, hb, h⟩ := bind_eq_ok.1 h
  obtain ⟨rfl, rfl⟩ := pure_eq_ok.1 h
  obtain ⟨hlen, rfl⟩ := readFull_eq_ok.1 hb
  rw [show FixedBytes.copy n b = ⟨b, hlen⟩ from FixedBytes.copy_bytes ⟨b, hlen⟩]

theorem readBE_eq_ok {v : ℕ} : readBE n r = .ok v r' ↔ v < 256 ^ n ∧ r = beBytes n v ++ r' := by
  constructor
  · intro h
    obtain ⟨b, _, hb, h⟩ := bind_eq_ok.1 h
    obtain ⟨rfl, rfl⟩ := pure_eq_ok.1 h
    obtain ⟨rfl, rfl⟩ := readFull_eq_ok.1 hb
    exact ⟨beNat_lt b, by rw [beBytes_beNat]⟩
  · rintro ⟨hv, rfl⟩
    exact Reads.readBE hv r'

theorem readBE_eq_error {e : Error} (h : readBE n r = .error e r') : r.length < n ∧ r' = [] := by
  have hfull : readFull n r = .error e r' := by
    cases hb : readFull n r with
    | ok b r1 =>
      have hread : readBE n r = .ok (beNat b) r1 := bind_eq_ok_of hb
      cases hread.symm.trans h
    | error e1 r1 =>
      have hread : readBE n r = .error e1 r1 := bind_eq_error_of hb
      cases hread.symm.trans h
      rfl
  unfold readFull at hfull
  by_cases hn : n ≤ r.length
  · rw [if_pos hn] at hfull
    cases hfull
  · rw [if_neg hn] at hfull
    cases hfull
    exact ⟨Nat.not_le.1 hn, rfl⟩

def Repeats (w : Exec Bytes Unit) (inp rest : Bytes) : Prop :=
  ∃ b, inp = b ++ rest ∧ ∀ buf, w buf = .ok () (buf ++ b)

namespace Repeats

variable {inp mid rest : Bytes}

theorem write {b : Bytes} (h : inp = b ++ rest) : Repeats (write b) inp rest :=
  ⟨b, h, fun _ => rfl⟩

theorem bind {w : Exec Bytes Unit} {w' : Unit → Exec Bytes Unit} (h : Repeats w inp mid)
    (h' : Repeats (w' ()) mid rest) : Repeats (w >>= w') inp rest := by
  obtain ⟨b, rfl, hw⟩ := h
  obtain ⟨b', rfl, hw'⟩ := h'
  refine ⟨b ++ b', (List.append_assoc _ _ _).symm, fun buf => ?_⟩
  rw [bind_eq_ok_of (hw buf), hw', List.append_assoc]

theorem failIf_bind {p : Prop} [Decidable p] {e : Error} {w : Unit → Exec Bytes Unit} (hp : ¬ p)
    (h : Repeats (w ()) inp rest) : Repeats (failIf p e >>= w) inp rest := by
  obtain ⟨b, hb, hw⟩ := h
  exact ⟨b, hb, fun buf => (Go.failIf_bind hp).trans (hw buf)⟩

theorem forM {P : Bytes → Prop} {x : ℕ → Reader α} {w : α → Exec Bytes Unit}
    (hP : ∀ b rest, P rest → P (b ++ rest))
    (h : ∀ i inp a rest, x i inp = .ok a rest → P rest → Repeats (w a) inp rest) {i : ℕ}
    {l : List α} (hread : readMany x i n inp = .ok l rest) (hrest : P rest) :
    Repeats (l.forM w) inp rest := by
  induction n generalizing i inp l with
  | zero =>
    obtain ⟨rfl, rfl⟩ := pure_eq_ok.1 hread
    exact ⟨[], rfl, fun buf => congrArg (EStateM.Result.ok ()) (List.append_nil buf).symm⟩
  | succ n ih =>
    obtain ⟨a, mid, ha, hread⟩ := bind_eq_ok.1 hread
    obtain ⟨l', _, hl, hread⟩ := bind_eq_ok.1 hread
    obtain ⟨rfl, rfl⟩ := pure_eq_ok.1 hread
    -- what the head leaves is what the tail writes, and the rest
    have htail := ih hl
    obtain ⟨b, rfl, -⟩ := id htail
    exact (h i _ _ _ ha (hP _ _ hrest)).bind htail

end Repeats

/-! ### What a reader returns -/

def Returns (r : Reader α) (p : α → Prop) : Prop := ∀ inp a rest, r inp = .ok a rest → p a

namespace Returns

variable {p : α → Prop} {q : β → Prop} {r : Reader α}

theorem trivial (r : Reader α) : Returns r fun _ => True := fun _ _ _ _ => True.intro

theorem pure {a : α} (h : p a) : Returns (pure a) p := by
  intro inp b rest hr
  obtain ⟨rfl, -⟩ := pure_eq_ok.1 hr
  exact h

variable {f : α → Reader β}

theorem bind (hr : Returns r p) (hf : ∀ a, p a → Returns (f a) q) : Returns (r >>= f) q := by
  intro inp b rest h
  obtain ⟨a, mid, ha, hb⟩ := bind_eq_ok.1 h
  exact hf a (hr _ _ _ ha) _ _ _ hb

theorem skip (hf : ∀ a, Returns (f a) q) : Returns (r >>= f) q :=
  (trivial r).bind fun a _ => hf a

theorem failIf (P : Prop) [Decidable P] (e : Error) : Returns (failIf P e) fun _ => ¬ P :=
  fun _ _ _ h => (failIf_eq_ok.1 h).1

theorem readFull (n : ℕ) : Returns (readFull n) fun b => b.length = n :=
  fun _ _ _ h => (readFull_eq_ok.1 h).1

theorem readBE (n : ℕ) : Returns (readBE n) (· < 256 ^ n) := by
  refine (readFull n).bind fun b hb => pure ?_
  rw [← hb]
  exact beNat_lt b

theorem wrapErr (c : String) (h : Returns r p) : Returns (wrapErr c r) p :=
  fun inp a rest hr => h inp a rest (wrapErr_eq_ok.1 hr)

theorem readMany {x : ℕ → Reader α} (h : ∀ i, Returns (x i) p) (n i : ℕ) :
    Returns (readMany x i n) fun l => l.length = n ∧ ∀ a ∈ l, p a := by
  induction n generalizing i with
  | zero => exact pure ⟨rfl, fun a ha => nomatch ha⟩
  | succ n ih =>
    refine (h i).bind fun a ha => (ih (i + 1)).bind fun l hl => pure ⟨?_, ?_⟩
    · rw [List.length_cons, hl.1]
    · exact List.forall_mem_cons.2 ⟨ha, hl.2⟩

end Returns

/-! ### Writers that fail -/

def Matches (w : Exec Bytes Unit) (r : Reader α) (a : α) : Prop :=
  ∀ buf, (∃ b, w buf = .ok () (buf ++ b) ∧ Reads r b a) ∨
    ∃ e b, w buf = .error e (buf ++ b) ∧ ∃ e' rest, r b = .error e' rest

namespace Matches

variable {a : α} {r : Reader α}

theorem write {b : Bytes} (h : Reads r b a) : Matches (write b) r a :=
  fun _ => .inl ⟨b, rfl, h⟩

variable {w : Exec Bytes Unit}

variable {f : α → Reader β}

theorem bind {w' : Unit → Exec Bytes Unit}
    {a' : β} (hw : Matches w r a) (hw' : Matches (w' ()) (f a) a') :
    Matches (w >>= w') (r >>= f) a' := by
  intro buf
  rcases hw buf with ⟨b, hrun, hreads⟩ | ⟨e, b, hrun, e', rest, hstuck⟩
  · rcases hw' (buf ++ b) with ⟨c, hrun', hreads'⟩ | ⟨e, c, hrun', e', rest, hstuck⟩
    · refine .inl ⟨b ++ c, ?_, hreads.bind hreads'⟩
      rw [bind_eq_ok_of hrun, hrun', List.append_assoc]
    · refine .inr ⟨e, b ++ c, ?_, e', rest, ?_⟩
      · rw [bind_eq_ok_of hrun, hrun', List.append_assoc]
      · rw [bind_eq_ok_of (hreads c), hstuck]
  · exact .inr ⟨e, b, bind_eq_error_of hrun, e', rest, bind_eq_error_of hstuck⟩

theorem bind_pure {a' : β}
    (hw : Matches w r a) (hf : Reads (f a) [] a') : Matches w (r >>= f) a' := by
  intro buf
  rcases hw buf with ⟨b, hrun, hreads⟩ | ⟨e, b, hrun, e', rest, hstuck⟩
  · exact .inl ⟨b, hrun, hreads.bind_pure hf⟩
  · exact .inr ⟨e, b, hrun, e', rest, bind_eq_error_of hstuck⟩

theorem failIf_bind {p : Prop} [Decidable p] {e : Error} {w : Unit → Exec Bytes Unit}
    (hr : ∃ e' rest, r [] = .error e' rest)
    (hw : ¬ p → Matches (w ()) r a) : Matches (failIf p e >>= w) r a := by
  intro buf
  by_cases hp : p
  · refine .inr ⟨e, [], ?_, hr⟩
    rw [List.append_nil]
    exact bind_eq_error_of (failIf_of e hp buf)
  · rw [Go.failIf_bind hp]
    exact hw hp buf

theorem written_inj {w' : Exec Bytes Unit} {a' : α} {u : Unit} {buf : Bytes}
    (hw : Matches w r a) (hw' : Matches w' r a') (hok : w [] = .ok u buf)
    (heq : written w = written w') : a = a' := by
  rcases hw [] with ⟨b, hrun, hreads⟩ | ⟨e, b, hrun, -⟩
  · rcases hw' [] with ⟨b', hrun', hreads'⟩ | ⟨e, b', hrun', e', rest, hstuck⟩
    · unfold written at heq
      rw [hrun, hrun'] at heq
      cases heq
      exact hreads.inj hreads'
    · unfold written at heq
      rw [hrun, hrun'] at heq
      cases heq
      have hread := hreads []
      rw [List.append_nil, hstuck] at hread
      cases hread
  · cases hok.symm.trans hrun

theorem transmits (h : Matches w r a) : Transmits w r a := by
  intro buf u buf' hrun
  rcases h buf with ⟨b, hok, hreads⟩ | ⟨e, b, herror, -⟩
  · cases hrun.symm.trans hok
    exact ⟨b, rfl, hreads⟩
  · cases hrun.symm.trans herror

end Matches

/-! ### Lists of items that are checked against the item before -/

theorem readAfter_eq_ok {x : ℕ → α → Reader α} {enc : α → Bytes} {r : α → α → Prop}
    {p : α → Prop} (htrans : ∀ a b c, r a b → r b c → r a c)
    (hx : ∀ i prev a b rest, x i prev b = .ok a rest →
      b = enc a ++ rest ∧ p a ∧ (i = 0 ∨ r prev a)) {i : ℕ} {prev : α} {b rest : Bytes} {l : List α}
    (h : readAfter x i prev n b = .ok l rest) :
    l.length = n ∧ b = l.flatMap enc ++ rest ∧ (∀ a ∈ l, p a) ∧ l.Pairwise r ∧
      (i = 0 ∨ ∀ a ∈ l, r prev a) := by
  induction n generalizing i prev b l with
  | zero =>
    obtain ⟨rfl, rfl⟩ := pure_eq_ok.1 h
    simp
  | succ n ih =>
    obtain ⟨a, b1, ha, h⟩ := bind_eq_ok.1 h
    obtain ⟨l, b2, hl, h⟩ := bind_eq_ok.1 h
    obtain ⟨rfl, rfl⟩ := pure_eq_ok.1 h
    obtain ⟨rfl, hpa, hprev⟩ := hx i prev a b b1 ha
    obtain ⟨hlen, rfl, hpl, hpairs, hafter⟩ := ih hl
    have hafter := hafter.resolve_left i.succ_ne_zero
    refine ⟨by rw [List.length_cons, hlen], by rw [List.flatMap_cons, List.append_assoc],
      List.forall_mem_cons.2 ⟨hpa, hpl⟩, List.pairwise_cons.2 ⟨hafter, hpairs⟩, ?_⟩
    exact hprev.imp_right fun h =>
      List.forall_mem_cons.2 ⟨h, fun c hc => htrans prev a c h (hafter c hc)⟩

/-! ### Panics -/

theorem Reads.panics_bind {x : Reader α} {f : α → Reader β} {b rest : Bytes} {a : α}
    (h : Reads x b a) : Panics (x >>= f) (b ++ rest) ↔ Panics (f a) rest := by
  unfold Panics
  rw [bind_eq_ok_of (h rest)]

def PanicFree {σ α : Type} (x : Exec σ α) : Prop := ∀ s, ¬ Panics x s

namespace PanicFree

variable {σ : Type}

variable {x : Exec σ α}

variable {f : α → Exec σ β}

theorem panics_bind {s : σ} (hx : PanicFree x) :
    Panics (x >>= f) s ↔ ∃ a s1, x s = .ok a s1 ∧ Panics (f a) s1 :=
  Go.panics_bind.trans (or_iff_right (hx s))

theorem pure (a : α) : PanicFree (pure a : Exec σ α) := fun _ =>
  not_panics_of_ok rfl

theorem bind (hx : PanicFree x) (hf : ∀ a, PanicFree (f a)) : PanicFree (x >>= f) := by
  intro s h
  obtain ⟨a, s1, -, h⟩ := hx.panics_bind.1 h
  exact hf a s1 h

theorem failIf {p : Prop} [Decidable p] {e : Error} (he : e.isPanic = false) :
    PanicFree (failIf p e : Exec σ Unit) := fun _ => not_panics_failIf he

theorem panics_failIf_bind {p : Prop} [Decidable p] {e : Error} {f : Unit → Exec σ β} {s : σ}
    (he : e.isPanic = false) : Panics (Go.failIf p e >>= f) s ↔ ¬ p ∧ Panics (f ()) s := by
  rw [(PanicFree.failIf he).panics_bind]
  constructor
  · rintro ⟨_, s1, hok, h⟩
    obtain ⟨hp, rfl⟩ := failIf_eq_ok.1 hok
    exact ⟨hp, h⟩
  · rintro ⟨hp, h⟩
    exact ⟨(), s, failIf_of_not e hp s, h⟩

theorem wrapErr (hx : PanicFree x) (c : String) : PanicFree (wrapErr c x) :=
  fun s h => hx s (panics_wrapErr.1 h)

theorem readFull (n : ℕ) : PanicFree (readFull n) := by
  rintro r ⟨e, r', h, he⟩
  unfold Go.readFull at h
  split_ifs at h <;> cases h <;> cases he

theorem readFixed (n : ℕ) : PanicFree (readFixed n) := (readFull n).bind fun _ => pure _

theorem readBE (n : ℕ) : PanicFree (readBE n) := (readFull n).bind fun _ => pure _

theorem readAfter {x : ℕ → α → Reader α} (hx : ∀ i prev, PanicFree (x i prev)) (i : ℕ) (prev : α)
    (n : ℕ) : PanicFree (readAfter x i prev n) := by
  induction n generalizing i prev with
  | zero => exact pure []
  | succ n ih => exact (hx i prev).bind fun a => (ih (i + 1) a).bind fun _ => pure _

end PanicFree

end Go
