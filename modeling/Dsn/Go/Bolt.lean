import Dsn.Go.Exec
import Dsn.Go.Map

/-!
# An embedded key-value store

Buckets of keys and values, transactions that fail without effect, and the limits on sizes.
-/

namespace Go.Bolt

abbrev Bucket := Map Bytes Bytes

abbrev DB := Map Bytes Bucket

def maxKeySize : ℕ := 32768

def maxValueSize : ℕ := 2147483646

def errBucketNotFound : Error := .new "bucket not found"

def errBucketExists : Error := .new "bucket already exists"

def errKeyRequired : Error := .new "key required"

def errKeyTooLarge : Error := .new "key too large"

def errValueTooLarge : Error := .new "value too large"

def createBucket (name : Bytes) : Exec DB Unit := do
  let db ← get
  failIf (name ∈ db) errBucketExists
  modify fun db => db.insert name ∅

def createBucketIfNotExists (name : Bytes) : Exec DB Unit :=
  modify fun db => if name ∈ db then db else db.insert name ∅

def deleteBucket (name : Bytes) : Exec DB Unit := do
  let db ← get
  failIf (name ∉ db) errBucketNotFound
  modify fun db => db.erase name

def bucket (name : Bytes) : Exec DB Bucket :=
  asks fun db => match db[name]? with
    | some b => .ok b
    | none => .error (.panic "invalid memory address or nil pointer dereference")

def put (name key value : Bytes) : Exec DB Unit := do
  let b ← bucket name
  failIf (key.length = 0) errKeyRequired
  failIf (key.length > maxKeySize) errKeyTooLarge
  failIf (value.length > maxValueSize) errValueTooLarge
  modify fun db => db.insert name (b.insert key value)

def putAll (name : Bytes) (l : List (Bytes × Bytes)) : Exec DB Unit :=
  l.forM fun e => put name e.1 e.2

def update {α : Type} (x : Exec DB α) : Exec DB α := fun db =>
  match x db with
  | .ok a db' => .ok a db'
  | .error e _ => .error e db

/-- What `Put` accepts. -/
structure Storable (key value : Bytes) : Prop where
  key_ne : key ≠ []
  key_le : key.length ≤ maxKeySize
  value_le : value.length ≤ maxValueSize

instance (key value : Bytes) : Decidable (Storable key value) :=
  decidable_of_iff (key ≠ [] ∧ key.length ≤ maxKeySize ∧ value.length ≤ maxValueSize)
    ⟨fun h => ⟨h.1, h.2.1, h.2.2⟩, fun h => ⟨h.1, h.2, h.3⟩⟩

variable {α : Type} {name key value : Bytes} {db db' : DB} {b : Bucket}

variable {x : Exec DB α}

theorem update_eq_ok {a : α} : update x db = .ok a db' ↔ x db = .ok a db' := by
  unfold update
  cases x db <;> simp

theorem update_atomic (x : Exec DB α) : Atomic (update x) := by
  intro db e db' h
  unfold update at h
  cases hx : x db with
  | ok a db1 => rw [hx] at h; cases h
  | error e1 db1 =>
    rw [hx] at h
    cases h
    rfl

theorem bucket_eq_ok : bucket name db = .ok b db' ↔ db[name]? = some b ∧ db = db' := by
  unfold bucket
  rw [asks_eq_ok]
  cases db[name]? <;> simp

theorem bucket_run (h : db[name]? = some b) : bucket name db = .ok b db := bucket_eq_ok.2 ⟨h, rfl⟩

variable {u : Unit}

theorem put_eq_ok : put name key value db = .ok u db' ↔
    ∃ b, db[name]? = some b ∧ Storable key value ∧ db' = db.insert name (b.insert key value) := by
  unfold put
  simp only [↓failIf_bind_eq_ok, bind_eq_ok, bucket_eq_ok, modify_eq_ok]
  constructor
  · rintro ⟨b, _, ⟨hb, rfl⟩, h1, h2, h3, rfl⟩
    refine ⟨b, hb, ⟨fun h => h1 (by rw [h]; rfl), by omega, by omega⟩, rfl⟩
  · rintro ⟨b, hb, ⟨h1, h2, h3⟩, rfl⟩
    have hne : ¬ key.length = 0 := fun h => h1 (List.length_eq_zero_iff.1 h)
    exact ⟨b, _, ⟨hb, rfl⟩, hne, by omega, by omega, rfl⟩

theorem put_run (hb : db[name]? = some b) (h : Storable key value) :
    put name key value db = .ok () (db.insert name (b.insert key value)) :=
  put_eq_ok.2 ⟨b, hb, h, rfl⟩

theorem putAll_eq_ok (hb : db[name]? = some b) {l : List (Bytes × Bytes)} :
    putAll name l db = .ok u db' ↔
      (∀ e ∈ l, Storable e.1 e.2) ∧ db' = db.insert name (Map.insertAll b l) := by
  induction l generalizing db b with
  | nil =>
    rw [Map.insertAll_nil, Map.insert_of_get hb]
    constructor
    · intro h
      cases h
      exact ⟨fun e he => absurd he List.not_mem_nil, rfl⟩
    · rintro ⟨-, rfl⟩
      rfl
  | cons e l ih =>
    have hb' : (db.insert name (b.insert e.1 e.2))[name]? = some (b.insert e.1 e.2) :=
      Map.get_insert_self _ _ _
    rw [List.forall_mem_cons]
    constructor
    · intro h
      obtain ⟨_, db1, h1, h2⟩ := bind_eq_ok.1 h
      obtain ⟨b1, hb1, hst, rfl⟩ := put_eq_ok.1 h1
      obtain rfl := Option.some.inj (hb.symm.trans hb1)
      obtain ⟨hall, rfl⟩ := (ih hb').1 h2
      exact ⟨⟨hst, hall⟩, Map.insert_insert _ _ _ _⟩
    · rintro ⟨⟨hst, hall⟩, rfl⟩
      refine (bind_eq_ok_of (put_run hb hst)).trans ?_
      exact (ih hb').2 ⟨hall, (Map.insert_insert _ _ _ _).symm⟩

theorem createBucketIfNotExists_run (name : Bytes) (db : DB) :
    createBucketIfNotExists name db = .ok () (db.insert name (db[name]?.getD ∅)) := by
  refine congrArg (EStateM.Result.ok ()) ?_
  dsimp only
  split_ifs with h
  · obtain ⟨b, hb⟩ := Map.exists_get_of_mem h
    rw [hb, Option.getD_some, Map.insert_of_get hb]
  · rw [Std.ExtTreeMap.getElem?_eq_none h, Option.getD_none]

theorem createBucket_eq_ok : createBucket name db = .ok u db' ↔
    name ∉ db ∧ db' = db.insert name ∅ := by
  unfold createBucket
  rw [get_bind, failIf_bind_eq_ok, modify_eq_ok]
  exact and_congr_right fun _ => eq_comm

theorem deleteBucket_eq_ok : deleteBucket name db = .ok u db' ↔
    name ∈ db ∧ db' = db.erase name := by
  unfold deleteBucket
  rw [get_bind, failIf_bind_eq_ok, modify_eq_ok, not_not]
  exact and_congr_right fun _ => eq_comm

theorem createBucket_erase_run (name : Bytes) (db : DB) :
    createBucket name (db.erase name) = .ok () (db.insert name ∅) := by
  refine createBucket_eq_ok.2 ⟨?_, (Map.insert_erase_self _ _ _).symm⟩
  rw [← Std.ExtTreeMap.isSome_getElem?_iff_mem, Map.get_erase_self]
  exact Bool.false_ne_true

/-! ### Other buckets -/

def SameBucket (name : Bytes) (db db' : DB) : Prop := db'[name]? = db[name]?

instance : Std.Refl (SameBucket name) := ⟨fun _ => rfl⟩

instance : IsTrans DB (SameBucket name) := ⟨fun _ _ _ h h' => h'.trans h⟩

variable {name' : Bytes}

section

variable (h : name' ≠ name)
include h

theorem steps_put (key value : Bytes) : Steps (SameBucket name) (put name' key value) := by
  refine .bind (.asks _) fun b => .bind (.failIf _ _) fun _ => .bind (.failIf _ _) fun _ =>
    .bind (.failIf _ _) fun _ => .modify fun db => ?_
  exact Map.get_insert_of_ne _ h _

theorem steps_putAll (l : List (Bytes × Bytes)) : Steps (SameBucket name) (putAll name' l) := by
  exact Steps.forM (f := fun e => put name' e.1 e.2) (fun e => steps_put h e.1 e.2) l

theorem steps_createBucket : Steps (SameBucket name) (createBucket name') :=
  .bind .get fun _ => .bind (.failIf _ _) fun _ => .modify fun _ => Map.get_insert_of_ne _ h _

theorem steps_deleteBucket : Steps (SameBucket name) (deleteBucket name') :=
  .bind .get fun _ => .bind (.failIf _ _) fun _ => .modify fun _ => Map.get_erase_of_ne _ h

end

/-! ### Single values -/

def lookup (db : DB) (name key : Bytes) : Option Bytes := do
  let b ← db[name]?
  b[key]?

def putIn (name key value : Bytes) (db : DB) : DB :=
  db.insert name ((db[name]?.getD ∅).insert key value)

theorem lookup_of_bucket (h : db[name]? = some b) (key : Bytes) : lookup db name key = b[key]? := by
  unfold lookup
  rw [h]
  rfl

theorem lookup_eq_some :
    lookup db name key = some value ↔ ∃ b, db[name]? = some b ∧ b[key]? = some value :=
  Option.bind_eq_some_iff

theorem lookup_congr (h : db'[name']? = db[name']?) (key : Bytes) :
    lookup db' name' key = lookup db name' key := by
  unfold lookup
  rw [h]

theorem put_run_putIn (hb : name ∈ db) (h : Storable key value) :
    put name key value db = .ok () (putIn name key value db) := by
  obtain ⟨b, hb⟩ := Map.exists_get_of_mem hb
  unfold putIn
  rw [put_run hb h, hb, Option.getD_some]

theorem put_created_run (h : Storable key value) (db : DB) :
    put name key value (db.insert name (db[name]?.getD ∅)) = .ok () (putIn name key value db) := by
  unfold putIn
  rw [put_run (Map.get_insert_self _ _ _) h, Map.insert_insert]

theorem create_put_run {x : Unit → Exec DB α} (h : Storable key value) (db : DB) :
    (createBucketIfNotExists name >>= fun _ => put name key value >>= x) db =
      x () (putIn name key value db) := by
  rw [bind_eq_ok_of (createBucketIfNotExists_run name db), bind_eq_ok_of (put_created_run h db)]

theorem create_put_end (h : Storable key value) (db : DB) :
    (createBucketIfNotExists name >>= fun _ => put name key value) db =
      .ok () (putIn name key value db) := by
  have hrun := @create_put_run Unit name key value (fun _ => pure ()) h db
  simp only [bind_pure_unit] at hrun
  exact hrun

theorem get_putIn_self (name key value : Bytes) (db : DB) :
    (putIn name key value db)[name]? = some ((db[name]?.getD ∅).insert key value) :=
  Map.get_insert_self _ _ _

@[simp] theorem lookup_putIn_self (name key value : Bytes) (db : DB) :
    lookup (putIn name key value db) name key = some value := by
  rw [lookup_of_bucket (get_putIn_self name key value db), Map.get_insert_self]

theorem get_putIn_of_ne (h : name ≠ name') :
    (putIn name key value db)[name']? = db[name']? := Map.get_insert_of_ne _ h _

theorem lookup_putIn_of_key_ne {key' : Bytes} (h : key ≠ key') :
    lookup (putIn name key value db) name key' = lookup db name key' := by
  rw [lookup_of_bucket (get_putIn_self name key value db), Map.get_insert_of_ne _ h]
  unfold lookup
  cases db[name]? with
  | none => rfl
  | some b => rfl

end Go.Bolt
