import Dsn.State.Trail

/-!
# What the root of the tree depends on

The root depends on the calls that made the tree, not on its contents alone.
-/

namespace Dsn

open Go PrefixTree

variable {inputs : List Bytes} {b : Bytes} {u : Update} {m n : ℕ}

section

variable [Crypto]

/-- SHA-256 has no collision on these inputs, nor the value zero. -/
structure CollisionFree (inputs : List Bytes) : Prop where
  inj : ∀ a ∈ inputs, ∀ b ∈ inputs, sha256 a = sha256 b → a = b
  ne_zero : ∀ a ∈ inputs, sha256 a ≠ zeroHash

theorem CollisionFree.mono {fewer : List Bytes} (h : CollisionFree inputs) (hsub : fewer ⊆ inputs) :
    CollisionFree fewer where
  inj a ha b hb := h.inj a (hsub ha) b (hsub hb)
  ne_zero a ha := h.ne_zero a (hsub ha)

theorem CollisionFree.twice (h : CollisionFree inputs) :
    CollisionFree (inputs ++ inputs) :=
  h.mono (List.append_subset.2 ⟨List.Subset.refl _, List.Subset.refl _⟩)

theorem CollisionFree.of_forall_eq (hb : sha256 b ≠ zeroHash) (h : ∀ a ∈ inputs, a = b) :
    CollisionFree inputs where
  inj a ha a' ha' _ := (h a ha).trans (h a' ha').symm
  ne_zero a ha := by rwa [h a ha]

/-! ### The calls as the tree sees them -/

def Touched (before : List Update) (x : Hash) : Prop :=
  ∃ u ∈ before, ∃ d ≤ smtDepth, clearBitsFrom u.path d = x

instance (before : List Update) (x : Hash) : Decidable (Touched before x) :=
  inferInstanceAs (Decidable (∃ u ∈ before, ∃ d ≤ smtDepth, clearBitsFrom u.path d = x))

def Update.effective (before : List Update) (u : Update) : Hash × Option Bytes :=
  if u.value = none ∧ ¬ Touched before (clearBitsFrom u.path (smtDepth - 1)) then
    (clearBitsFrom u.path (smtDepth - 1), none)
  else (u.path, u.value)

def effectiveFrom (before : List Update) : List Update → List (Hash × Option Bytes)
  | [] => []
  | u :: us => u.effective before :: effectiveFrom (before ++ [u]) us

def effective (us : List Update) : List (Hash × Option Bytes) := effectiveFrom [] us

def contents (us : List Update) : Map Bytes Bytes :=
  us.foldl (fun m u => match u with
    | .insert key value => m.insert key value
    | .delete key => m.erase key) ∅

theorem passed_iff_touched (before : List Update) (x : Hash) :
    Passed pathPositions (before.map Update.call) x ↔ Touched before x := by
  unfold Passed
  simp only [List.mem_map, exists_exists_and_eq_and]
  refine exists_congr fun u => and_congr_right fun _ => ?_
  exact pathPositions.passes_iff

def LeavesSet (us : List Update) : Prop :=
  ∀ key value, Update.insert key value ∈ us → SMT.leafHash (sha256 key) value ≠ zeroHash

theorem Update.normal_call {before : List Update} (hu : u.call.2 = zeroHash ↔ u.value = none) :
    normal pathPositions zeroHash (before.map Update.call) u.call =
      ((u.effective before).1, Update.label (u.effective before).1 (u.effective before).2) := by
  unfold normal Update.effective
  rw [hu, passed_iff_touched]
  split_ifs with h1 h2 h3
  · rfl
  · exact absurd h1 h2
  · exact absurd h3 h1
  · rfl

theorem normals_calls {us : List Update} (h : LeavesSet us) :
    normals pathPositions zeroHash (us.map Update.call) =
      (effective us).map fun e => (e.1, Update.label e.1 e.2) := by
  have hcall {u : Update} (hu : u ∈ us) : u.call.2 = zeroHash ↔ u.value = none := by
    cases u with
    | insert key value => exact iff_of_false (h key value hu) (by simp [Update.value])
    | delete key => exact iff_of_true rfl rfl
  have hfrom (before rest : List Update)
      (hrest : ∀ u ∈ rest, u.call.2 = zeroHash ↔ u.value = none) :
      normalsFrom pathPositions zeroHash (before.map Update.call) (rest.map Update.call) =
        (effectiveFrom before rest).map fun e => (e.1, Update.label e.1 e.2) := by
    induction rest generalizing before with
    | nil => rfl
    | cons u rest ih =>
      have htail := ih (before ++ [u]) fun v hv => hrest v (List.mem_cons_of_mem _ hv)
      rw [List.map_append, List.map_singleton] at htail
      rw [List.map_cons, normalsFrom, htail, Update.normal_call (hrest u List.mem_cons_self)]
      rfl
  exact hfrom [] us fun u hu => hcall hu

/-! ### Inputs without collisions -/

def joinedIn (inputs : List Bytes) : Set (Hash × Hash) := {a | 1 :: a.1.bytes ++ a.2.bytes ∈ inputs}

def leavesIn (inputs : List Bytes) : Set Hash :=
  {h | h = zeroHash ∨ ∃ b, 0 :: b ∈ inputs ∧ h = sha256 (0 :: b)}

variable {inputs : List Bytes} {us vs : List Update}

omit [Crypto] in
theorem hash_append_inj {l l' r r' : Hash} (h : l.bytes ++ r.bytes = l'.bytes ++ r'.bytes) :
    l = l' ∧ r = r' := by
  obtain ⟨hl, hr⟩ := List.append_inj h (l.length_eq.trans l'.length_eq.symm)
  exact ⟨FixedBytes.ext hl, FixedBytes.ext hr⟩

theorem CollisionFree.free (h : CollisionFree inputs) :
    Free SMT.internalHash (joinedIn inputs) (leavesIn inputs) where
  inj := by
    rintro ⟨l, r⟩ ha ⟨l', r'⟩ hb heq
    have hbytes := h.inj _ ha _ hb heq
    obtain ⟨hl, hr⟩ := hash_append_inj (List.cons.inj hbytes).2
    exact Prod.ext hl hr
  not_mem := by
    rintro a ha (hzero | ⟨b, hb, heq⟩)
    · exact h.ne_zero _ ha hzero
    · cases h.inj _ ha _ hb heq

theorem hashed_subset_hashedBy {before after : List Update} (hus : us = before ++ u :: after) :
    u.hashed (SMT.empty.updates before) ⊆ hashedBy SMT.empty us := by
  rw [hus, hashedBy_append]
  exact fun b hb => List.mem_append_right _ (List.mem_append_left _ hb)

theorem key_mem_hashedBy (hu : u ∈ us) : u.key ∈ hashedBy SMT.empty us := by
  obtain ⟨before, after, hus⟩ := List.append_of_mem hu
  refine hashed_subset_hashedBy hus ?_
  cases u <;> simp [Update.hashed, Update.key]

theorem value_mem_hashedBy {key value : Bytes} (hu : .insert key value ∈ us) :
    value ∈ hashedBy SMT.empty us ∧
      0 :: (sha256 key).bytes ++ (sha256 value).bytes ∈ hashedBy SMT.empty us := by
  obtain ⟨before, after, hus⟩ := List.append_of_mem hu
  constructor <;> refine hashed_subset_hashedBy hus ?_ <;> simp [Update.hashed]

theorem CollisionFree.leavesSet (h : CollisionFree inputs)
    (hus : hashedBy SMT.empty us ⊆ inputs) : LeavesSet us := fun _ _ hu =>
  h.ne_zero _ (hus (value_mem_hashedBy hu).2)

theorem CollisionFree.admissible (h : CollisionFree inputs)
    (hus : hashedBy SMT.empty us ⊆ inputs) :
    Admissible pathPositions SMT.internalHash zeroHash (joinedIn inputs) (leavesIn inputs)
      (us.map Update.call) where
  labels := by
    intro a ha
    obtain ⟨u, hu, rfl⟩ := List.mem_map.1 ha
    cases u with
    | insert key value => exact .inr ⟨_, hus (value_mem_hashedBy hu).2, rfl⟩
    | delete key => exact .inl rfl
  below := by
    intro a ha
    obtain ⟨u, hu, rfl⟩ := List.mem_map.1 ha
    exact h.ne_zero _ (hus (key_mem_hashedBy hu))
  joined := by
    rintro a ⟨l, c, r, hcalls, ha⟩
    obtain ⟨before, rest, rfl, rfl, hrest⟩ := List.map_eq_append_iff.1 hcalls
    obtain ⟨u, after, rfl, rfl, -⟩ := List.map_eq_cons_iff.1 hrest
    rw [← (nodes_updates before).1] at ha
    exact hus (hashed_subset_hashedBy rfl (Update.joins_subset_hashed _ u ha))

theorem insert_of_mem_effective {e : Hash × Option Bytes} (he : e ∈ effective us) {value : Bytes}
    (hvalue : e.2 = some value) : ∃ key, .insert key value ∈ us ∧ e.1 = sha256 key := by
  have hfrom (before rest : List Update) (he : e ∈ effectiveFrom before rest) :
      ∃ key, .insert key value ∈ rest ∧ e.1 = sha256 key := by
    induction rest generalizing before with
    | nil => cases he
    | cons u rest ih =>
      rcases List.mem_cons.1 he with rfl | he
      · unfold Update.effective at hvalue ⊢
        split_ifs at hvalue with h
        cases u with
        | insert key v =>
          cases hvalue
          exact ⟨key, List.mem_cons_self, rfl⟩
        | delete key => cases hvalue
      · obtain ⟨key, hmem, hpath⟩ := ih _ he
        exact ⟨key, List.mem_cons_of_mem _ hmem, hpath⟩
  exact hfrom [] us he

omit [Crypto] in
theorem eq_of_map_eq {α β : Type} {f : α → β} {l l' : List α}
    (hinj : ∀ a ∈ l, ∀ b ∈ l', f a = f b → a = b) (h : l.map f = l'.map f) : l = l' := by
  induction l generalizing l' with
  | nil => exact (List.map_eq_nil_iff.1 h.symm).symm
  | cons a l ih =>
    cases l' with
    | nil => cases h
    | cons b l' =>
      obtain ⟨hhead, htail⟩ := List.cons.inj h
      rw [hinj a List.mem_cons_self b List.mem_cons_self hhead,
        ih (fun x hx y hy => hinj x (List.mem_cons_of_mem _ hx) y (List.mem_cons_of_mem _ hy))
          htail]

theorem CollisionFree.effective_inj (h : CollisionFree inputs)
    (hus : hashedBy SMT.empty us ⊆ inputs) (hvs : hashedBy SMT.empty vs ⊆ inputs)
    (heq : (effective us).map (fun e => (e.1, Update.label e.1 e.2)) =
      (effective vs).map fun e => (e.1, Update.label e.1 e.2)) : effective us = effective vs := by
  refine eq_of_map_eq ?_ heq
  rintro ⟨p, o⟩ hp ⟨q, o'⟩ hq hlabel
  obtain ⟨rfl, hlabel⟩ := Prod.mk.inj hlabel
  cases o with
  | none =>
    cases o' with
    | none => rfl
    | some v' =>
      obtain ⟨key, hmem, rfl⟩ := insert_of_mem_effective hq rfl
      exact absurd hlabel.symm (h.leavesSet hvs key v' hmem)
  | some v =>
    obtain ⟨key, hmem, rfl⟩ := insert_of_mem_effective hp rfl
    cases o' with
    | none => exact absurd hlabel (h.leavesSet hus key v hmem)
    | some v' =>
      obtain ⟨key', hmem', hpath⟩ := insert_of_mem_effective hq rfl
      rw [hpath] at hlabel
      have hleaf := h.inj _ (hus (hpath ▸ (value_mem_hashedBy hmem).2)) _
        (hvs (value_mem_hashedBy hmem').2) hlabel
      have hhash := (hash_append_inj (List.cons.inj hleaf).2).2
      rw [h.inj _ (hus (value_mem_hashedBy hmem).1) _ (hvs (value_mem_hashedBy hmem').1) hhash]

theorem root_eq_iff (h : CollisionFree inputs) (hus : hashedBy SMT.empty us ⊆ inputs)
    (hvs : hashedBy SMT.empty vs ⊆ inputs) :
    (SMT.empty.updates us).root = (SMT.empty.updates vs).root ↔ effective us = effective vs := by
  rw [(nodes_updates us).2, (nodes_updates vs).2, (nodes_updates us).1, (nodes_updates vs).1]
  refine (run_origin_eq_iff h.free (.inl rfl) (h.admissible hus) (h.admissible hvs)).trans ?_
  rw [normals_calls (h.leavesSet hus), normals_calls (h.leavesSet hvs)]
  exact ⟨h.effective_inj hus hvs, fun heq => by rw [heq]⟩

theorem length_effective (us : List Update) : (effective us).length = us.length := by
  have hfrom (before rest : List Update) : (effectiveFrom before rest).length = rest.length := by
    induction rest generalizing before with
    | nil => rfl
    | cons u rest ih => simp [effectiveFrom, ih]
  exact hfrom [] us

theorem effective_of_inserts (h : ∀ u ∈ us, u.value ≠ none) :
    effective us = us.map fun u => (u.path, u.value) := by
  have hfrom (before : List Update) :
      effectiveFrom before us = us.map fun u => (u.path, u.value) := by
    induction us generalizing before with
    | nil => rfl
    | cons u us ih =>
      have hu : u.effective before = (u.path, u.value) :=
        if_neg fun hn => h u List.mem_cons_self hn.1
      rw [effectiveFrom, hu, ih fun v hv => h v (List.mem_cons_of_mem _ hv)]
      rfl
  exact hfrom []

/-! ### The root and the contents -/

/-- Equal contents give equal roots. -/
def RootOfContents (us vs : List Update) : Prop :=
  contents us = contents vs → (SMT.empty.updates us).root = (SMT.empty.updates vs).root

/-- One root for one contents exactly when the effective calls are the same. -/
theorem root_of_contents_iff
    (h : CollisionFree (hashedBy SMT.empty us ++ hashedBy SMT.empty vs)) :
    RootOfContents us vs ↔ (contents us = contents vs → effective us = effective vs) :=
  imp_congr_right fun _ =>
    root_eq_iff h (List.subset_append_left _ _) (List.subset_append_right _ _)

end

/-! ### A sample without collisions -/

def hashOfNat (n : ℕ) : Hash := ⟨beBytes 32 n, length_beBytes 32 n⟩

def countingHash : Bytes → Hash
  | 1 :: rest => hashOfNat (beNat (rest.drop 32) + 1)
  | 0 :: _ => hashOfNat (2 ^ 253)
  | b => hashOfNat (if b.length = 20 then 2 ^ 255 else 2 ^ 254)

@[reducible] def countingCrypto : Crypto := ⟨countingHash, fun _ _ _ => true⟩

theorem beNat_hashOfNat (h : n < 2 ^ 256) : beNat (hashOfNat n).bytes = n :=
  beNat_beBytes (by norm_num at h ⊢; exact h)

theorem hashOfNat_inj (hm : m < 2 ^ 256) (hn : n < 2 ^ 256) (h : hashOfNat m = hashOfNat n) :
    m = n := by
  rw [← beNat_hashOfNat hm, h, beNat_hashOfNat hn]

theorem zeroHash_eq : zeroHash = hashOfNat 0 := by decide

attribute [local instance] countingCrypto

theorem internalHash_counting (l : Hash) (h : m < 2 ^ 256) :
    SMT.internalHash l (hashOfNat m) = hashOfNat (m + 1) := by
  show hashOfNat (beNat ((l.bytes ++ (hashOfNat m).bytes).drop 32) + 1) = _
  rw [List.drop_left' l.length_eq, beNat_hashOfNat h]

theorem climb_counting (E : Hash → Hash) (p : Hash) (h : m + n < 2 ^ 256) :
    climb pathPositions SMT.internalHash E p (hashOfNat m) n = hashOfNat (m + n) := by
  induction n with
  | zero => rfl
  | succ n ih =>
    rw [climb_succ, ih (by omega), internalHash_counting _ (by omega)]
    rfl

variable {k v : Bytes} (hk : k.length = 19) (hv : v.length ≠ 19)
include hk in
theorem sha256_sampleKey : sha256 (2 :: k) = hashOfNat (2 ^ 255) := by
  show hashOfNat (if (2 :: k).length = 20 then 2 ^ 255 else 2 ^ 254) = _
  rw [if_pos (by rw [List.length_cons, hk])]

include hv in
theorem sha256_sampleValue : sha256 (2 :: v) = hashOfNat (2 ^ 254) := by
  show hashOfNat (if (2 :: v).length = 20 then 2 ^ 255 else 2 ^ 254) = _
  rw [if_neg fun h => hv (by simpa using h)]

def sampleUpdates (k v : Bytes) : List Update := [.insert (2 :: k) (2 :: v), .delete (2 :: k)]

def nodeInput (k : Bytes) (t : SMT) (c : Hash) (n : ℕ) : Bytes :=
  1 :: (leftAt pathPositions SMT.internalHash t.nodes (sha256 (2 :: k)) c n).bytes ++
    (climb pathPositions SMT.internalHash t.nodes (sha256 (2 :: k)) c n).bytes

theorem sha256_nodeInput (k : Bytes) (t : SMT) (hm : m ≤ 2 ^ 253) (hn : n < 256) :
    sha256 (nodeInput k t (hashOfNat m) n) = hashOfNat (m + n + 1) := by
  show SMT.internalHash _ (climb _ _ _ _ _ n) = _
  rw [climb_counting _ _ (by omega), internalHash_counting _ (by omega)]

def numberedInput (k v : Bytes) (i : ℕ) : Bytes :=
  if i = 2 ^ 255 then 2 :: k
  else if i = 2 ^ 254 then 2 :: v
  else if i = 2 ^ 253 then 0 :: (sha256 (2 :: k)).bytes ++ (sha256 (2 :: v)).bytes
  else if 2 ^ 253 < i then nodeInput k SMT.empty (hashOfNat (2 ^ 253)) (i - 2 ^ 253 - 1)
  else nodeInput k (SMT.empty.insert (2 :: k) (2 :: v)) (hashOfNat 0) (i - 1)

theorem mem_hashed_insert (t : SMT) (hb : b ∈ (Update.insert (2 :: k) (2 :: v)).hashed t) :
    b = 2 :: k ∨ b = 2 :: v ∨
      b = 0 :: (sha256 (2 :: k)).bytes ++ (sha256 (2 :: v)).bytes ∨
      ∃ n < smtDepth, b = nodeInput k t (hashOfNat (2 ^ 253)) n := by
  rcases List.mem_append.1 hb with hb | hb
  · simp only [List.mem_cons] at hb
    tauto
  · have hnode := (Update.mem_hashedUp_withLeaf t (.insert (2 :: k) (2 :: v))).1 hb
    have hcall : (Update.insert (2 :: k) (2 :: v)).call =
        (sha256 (2 :: k), hashOfNat (2 ^ 253)) := rfl
    exact .inr (.inr (.inr hnode))

theorem mem_hashed_delete (t : SMT) (hb : b ∈ (Update.delete (2 :: k)).hashed t) :
    b = 2 :: k ∨ ∃ n < smtDepth, b = nodeInput k t (hashOfNat 0) n := by
  rcases List.mem_append.1 hb with hb | hb
  · exact .inl (List.mem_singleton.1 hb)
  · have hnode := (Update.mem_hashedUp_withLeaf t (.delete (2 :: k))).1 hb
    have hcall : (Update.delete (2 :: k)).call = (sha256 (2 :: k), zeroHash) := rfl
    exact .inr hnode

include hk hv in
theorem exists_number (hb : b ∈ hashedBy SMT.empty (sampleUpdates k v)) :
    ∃ i, 0 < i ∧ i < 2 ^ 256 ∧ b = numberedInput k v i ∧ sha256 b = hashOfNat i := by
  have hkey : ∃ i, 0 < i ∧ i < 2 ^ 256 ∧ 2 :: k = numberedInput k v i ∧
      sha256 (2 :: k) = hashOfNat i :=
    ⟨2 ^ 255, by norm_num, by norm_num, by simp [numberedInput], sha256_sampleKey hk⟩
  rcases List.mem_append.1 hb with hb | hb
  · rcases mem_hashed_insert _ hb with rfl | rfl | rfl | ⟨n, hn, rfl⟩
    · exact hkey
    · exact ⟨2 ^ 254, by norm_num, by norm_num, by norm_num [numberedInput], sha256_sampleValue hv⟩
    · exact ⟨2 ^ 253, by norm_num, by norm_num, by norm_num [numberedInput], rfl⟩
    · have hn : n < 256 := hn
      refine ⟨2 ^ 253 + n + 1, by omega, by norm_num; omega, ?_, sha256_nodeInput k _ le_rfl hn⟩
      unfold numberedInput
      rw [if_neg (by norm_num; omega), if_neg (by norm_num; omega), if_neg (by omega),
        if_pos (by omega), show 2 ^ 253 + n + 1 - 2 ^ 253 - 1 = n by omega]
  · rw [hashedBy, hashedBy, List.append_nil] at hb
    rcases mem_hashed_delete _ hb with rfl | ⟨n, hn, rfl⟩
    · exact hkey
    · have hn : n < 256 := hn
      have hnum := sha256_nodeInput k (SMT.empty.update (.insert (2 :: k) (2 :: v)))
        (Nat.zero_le _) hn
      rw [Nat.zero_add] at hnum
      refine ⟨n + 1, by omega, by norm_num; omega, ?_, hnum⟩
      unfold numberedInput
      rw [if_neg (by norm_num; omega), if_neg (by norm_num; omega), if_neg (by norm_num; omega),
        if_neg (by norm_num; omega)]
      rfl

include hk hv in
theorem collisionFree_sampleUpdates : CollisionFree (hashedBy SMT.empty (sampleUpdates k v)) where
  inj a ha b hb heq := by
    obtain ⟨i, -, hi, rfl, hai⟩ := exists_number hk hv ha
    obtain ⟨j, -, hj, rfl, hbj⟩ := exists_number hk hv hb
    rw [hashOfNat_inj hi hj (hai.symm.trans (heq.trans hbj))]
  ne_zero a ha hzero := by
    obtain ⟨i, hpos, hi, -, hai⟩ := exists_number hk hv ha
    rw [hzero, zeroHash_eq] at hai
    exact hpos.ne (hashOfNat_inj (by norm_num) hi hai)

theorem contents_sampleUpdates (k v : Bytes) : contents (sampleUpdates k v) = contents [] := by
  refine Std.ExtTreeMap.ext_getElem? fun {a} => ?_
  show ((Std.ExtTreeMap.insert (∅ : Map Bytes Bytes) (2 :: k) (2 :: v)).erase (2 :: k))[a]? =
    (∅ : Map Bytes Bytes)[a]?
  by_cases ha : 2 :: k = a
  · subst ha
    rw [Map.get_erase_self]
    rfl
  · rw [Map.get_erase_of_ne _ ha, Map.get_insert_of_ne _ ha]

include hk hv in
theorem root_sampleUpdates_ne :
    (SMT.empty.updates (sampleUpdates k v)).root ≠ (SMT.empty.updates []).root := by
  intro heq
  have heff := (root_eq_iff (collisionFree_sampleUpdates hk hv) (List.Subset.refl _)
    (List.nil_subset _)).1 heq
  have hlen := congrArg List.length heff
  rw [length_effective, length_effective] at hlen
  cases hlen

theorem root_of_contents_iff_sampleUpdates :
    let us := sampleUpdates (List.replicate 19 0) []
    CollisionFree (hashedBy SMT.empty us ++ hashedBy SMT.empty []) ∧
      (RootOfContents us [] ↔ (contents us = contents [] → effective us = effective [])) ∧
      contents us = contents [] ∧ effective us ≠ effective [] := by
  intro us
  have hfree : CollisionFree (hashedBy SMT.empty us ++ hashedBy SMT.empty []) := by
    rw [hashedBy, List.append_nil]
    exact collisionFree_sampleUpdates rfl (by decide)
  refine ⟨hfree, root_of_contents_iff hfree, contents_sampleUpdates _ _, fun heff => ?_⟩
  have hlen := congrArg List.length heff
  rw [length_effective, length_effective] at hlen
  cases hlen

theorem root_differs_after_delete :
    ¬ ∀ (_ : Crypto) (us vs : List Update),
      (∀ u ∈ us ++ vs, ∀ u' ∈ us ++ vs, u.path = u'.path → u.key = u'.key) →
        RootOfContents us vs := by
  intro h
  refine @root_sampleUpdates_ne (List.replicate 19 0) [] rfl (by decide)
    (h countingCrypto _ [] ?_ (contents_sampleUpdates _ _))
  intro u hu u' hu' _
  simp only [sampleUpdates, List.append_nil, List.mem_cons, List.not_mem_nil, or_false] at hu hu'
  rcases hu with rfl | rfl <;> rcases hu' with rfl | rfl <;> rfl

end Dsn
