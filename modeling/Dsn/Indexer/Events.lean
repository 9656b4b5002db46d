import Dsn.Go.Latest
import Dsn.Types.Block

/-!
# `indexer`: events by key

A key has 20 bytes of the contract, the hash of the topic, block and transaction. `GetEvents` scans
a prefix of it and filters; an event under a used key replaces the one before.
-/

namespace Dsn

open Go

class Json where
  clean : Bytes → Bytes
  clean_clean : ∀ s, clean (clean s) = clean s

structure EventData where
  event : Event
  blockNumber : UInt64
  deriving DecidableEq

structure IndexableBlock where
  number : UInt64
  events : List Event

structure EventFilter where
  contract : Option Hash
  topic0 : Bytes
  fromBlock : UInt64
  toBlock : UInt64

/-! ### The index -/

section

variable [Crypto]

def eventsIndexKey (contractID : Hash) (topic : Bytes) (blockNumber : UInt64) (txIndex : UInt32) :
    Bytes :=
  contractID.bytes.take 20 ++ ((sha256 topic).bytes ++
    (beBytes 8 blockNumber.toNat ++ beBytes 4 txIndex.toNat))

def EventData.key (d : EventData) : Bytes :=
  eventsIndexKey d.event.contractID d.event.topic d.blockNumber d.event.txIndex

def EventFilter.scanned (f : EventFilter) : Bytes :=
  match f.contract with
  | none => []
  | some c => c.bytes.take 20 ++ if f.topic0 = [] then [] else (sha256 f.topic0).bytes

/-- The tests of the loop. -/
def EventFilter.passes (f : EventFilter) (k : Bytes) : Bool :=
  let blockNum := UInt64.ofNat (beNat ((k.drop 52).take 8))
  f.scanned.isPrefixOf k && !decide (k.length < 64) &&
    !decide (f.fromBlock > 0 ∧ blockNum < f.fromBlock) &&
    !decide (f.toBlock > 0 ∧ blockNum > f.toBlock) &&
    !decide (f.contract = none ∧ f.topic0 ≠ [] ∧ (k.drop 20).take 32 ≠ (sha256 f.topic0).bytes)

def getEvents (events : Map Bytes EventData) (f : EventFilter) : List EventData :=
  (events.toList.filter fun e => f.passes e.1).map Prod.snd

def getEventsByBlock (events : Map Bytes EventData) (n : UInt64) : List EventData :=
  getEvents events ⟨none, [], n, n⟩

def emittedEvents (blocks : List IndexableBlock) : List EventData :=
  blocks.flatMap fun b => b.events.map fun event => ⟨event, b.number⟩

def EventFilter.Matches (f : EventFilter) (d : EventData) : Prop :=
  (∀ c ∈ f.contract, d.event.contractID = c) ∧ (f.topic0 ≠ [] → d.event.topic = f.topic0) ∧
    f.fromBlock ≤ d.blockNumber ∧ (f.toBlock ≠ 0 → d.blockNumber ≤ f.toBlock)

instance (f : EventFilter) (d : EventData) : Decidable (f.Matches d) :=
  inferInstanceAs (Decidable (_ ∧ _))

/-- What the key of an event keeps of it. -/
def EventData.slot (d : EventData) : Bytes × Bytes × UInt64 × UInt32 :=
  (d.event.contractID.bytes.take 20, d.event.topic, d.blockNumber, d.event.txIndex)

/-- The event matches the filter as far as the first 20 bytes of the contract go. -/
def EventFilter.Near (f : EventFilter) (d : EventData) : Prop :=
  (∀ c ∈ f.contract, d.event.contractID.bytes.take 20 = c.bytes.take 20) ∧
    (f.topic0 ≠ [] → d.event.topic = f.topic0) ∧
    f.fromBlock ≤ d.blockNumber ∧ (f.toBlock ≠ 0 → d.blockNumber ≤ f.toBlock)

instance (f : EventFilter) (d : EventData) : Decidable (f.Near d) :=
  inferInstanceAs (Decidable (_ ∧ _))

variable {d d' : EventData} {f : EventFilter}

section

omit [Crypto]

theorem EventFilter.Matches.near (h : f.Matches d) : f.Near d :=
  ⟨fun c hc => by rw [h.1 c hc], h.2⟩

theorem length_take_contract (c : Hash) : (c.bytes.take 20).length = 20 := by
  rw [List.length_take, c.length_eq]
  rfl

end

/-- Without a collision of topics the key is the slot. -/
theorem EventData.key_eq_iff (hfree : sha256 d.event.topic = sha256 d'.event.topic →
    d.event.topic = d'.event.topic) : d.key = d'.key ↔ d.slot = d'.slot := by
  constructor
  · intro h
    obtain ⟨hcontract, h⟩ := List.append_inj h (by simp only [length_take_contract])
    obtain ⟨htopic, h⟩ := List.append_inj h (by rw [FixedBytes.length_eq, FixedBytes.length_eq])
    obtain ⟨hblock, hindex⟩ := List.append_inj h (by rw [length_beBytes, length_beBytes])
    have hblock := congrArg beNat hblock
    have hindex := congrArg beNat hindex
    rw [beNat_beBytes (UInt64.toNat_lt _), beNat_beBytes (UInt64.toNat_lt _)] at hblock
    rw [beNat_beBytes (UInt32.toNat_lt _), beNat_beBytes (UInt32.toNat_lt _)] at hindex
    rw [slot, slot, hcontract, hfree (FixedBytes.ext htopic), UInt64.toNat.inj hblock,
      UInt32.toNat.inj hindex]
  · intro h
    obtain ⟨hcontract, htopic, hblock, hindex⟩ : _ ∧ _ ∧ _ ∧ _ := by
      simpa only [slot, Prod.mk.injEq] using h
    rw [key, key, eventsIndexKey, eventsIndexKey, hcontract, htopic, hblock, hindex]

/-- The fields of a key. -/
theorem EventData.key_fields (d : EventData) : d.key.length = 64 ∧
    (d.key.drop 20).take 32 = (sha256 d.event.topic).bytes ∧
    UInt64.ofNat (beNat ((d.key.drop 52).take 8)) = d.blockNumber := by
  have hcontract := length_take_contract d.event.contractID
  have htopic := (sha256 d.event.topic).length_eq
  have hnumber : (beBytes 8 d.blockNumber.toNat).length = 8 := length_beBytes _ _
  unfold key eventsIndexKey
  refine ⟨?_, ?_, ?_⟩
  · simp only [List.length_append, hcontract, htopic, length_beBytes]
  · rw [List.drop_left' hcontract, List.take_left' htopic]
  · rw [← List.append_assoc, List.drop_left' (by rw [List.length_append, hcontract, htopic]),
      List.take_left' hnumber, beNat_beBytes (UInt64.toNat_lt _), UInt64.ofNat_toNat]

/-- The scan and the tests of the loop let through what is near the filter. -/
theorem EventFilter.passes_key_iff (hfree : f.topic0 ≠ [] →
    sha256 d.event.topic = sha256 f.topic0 → d.event.topic = f.topic0) :
    f.passes d.key = true ↔ f.Near d := by
  obtain ⟨hlength, htopic, hnumber⟩ := d.key_fields
  have hfrom : ¬ (f.fromBlock > 0 ∧ d.blockNumber < f.fromBlock) ↔ f.fromBlock ≤ d.blockNumber := by
    simp only [UInt64.lt_iff_toNat_lt, UInt64.le_iff_toNat_le, gt_iff_lt, UInt64.toNat_zero]
    omega
  have hto : ¬ (f.toBlock > 0 ∧ d.blockNumber > f.toBlock) ↔
      (f.toBlock ≠ 0 → d.blockNumber ≤ f.toBlock) := by
    simp only [UInt64.lt_iff_toNat_lt, UInt64.le_iff_toNat_le, gt_iff_lt, UInt64.toNat_zero, ne_eq,
      ← UInt64.toNat_inj]
    omega
  have hequal : (f.topic0 ≠ [] → sha256 d.event.topic = sha256 f.topic0) ↔
      (f.topic0 ≠ [] → d.event.topic = f.topic0) :=
    forall_congr' fun hne => ⟨hfree hne, congrArg _⟩
  unfold passes Near
  simp only [Bool.and_eq_true, Bool.not_eq_true', decide_eq_false_iff_not, hlength, htopic, hnumber,
    hfrom, hto, List.isPrefixOf_iff_prefix]
  cases hc : f.contract with
  | none =>
    have hscan : f.scanned = [] := by rw [scanned, hc]
    have htested : ¬ (f.topic0 ≠ [] ∧ (sha256 d.event.topic).bytes ≠ (sha256 f.topic0).bytes) ↔
        (f.topic0 ≠ [] → d.event.topic = f.topic0) := by
      rw [← hequal, not_and]
      simp only [not_ne_iff, FixedBytes.ext_iff]
    simp only [hscan, List.nil_prefix, true_and, htested, Option.not_mem_none, false_implies,
      implies_true, lt_irrefl, not_false_iff]
    exact and_comm
  | some c =>
    have hscan : f.scanned <+: d.key ↔ d.event.contractID.bytes.take 20 = c.bytes.take 20 ∧
        (f.topic0 ≠ [] → d.event.topic = f.topic0) := by
      rw [scanned, hc, EventData.key, eventsIndexKey]
      dsimp only
      rw [append_prefix_append_iff (by simp only [length_take_contract]), eq_comm, ← hequal]
      refine and_congr_right fun _ => ?_
      split_ifs with hempty
      · exact ⟨fun _ hne => absurd hempty hne, fun _ => List.nil_prefix⟩
      · rw [← List.append_nil (sha256 f.topic0).bytes, append_prefix_append_iff
          (by rw [FixedBytes.length_eq, FixedBytes.length_eq]), and_iff_left List.nil_prefix,
          FixedBytes.ext_iff, eq_comm]
        exact ⟨fun h _ => h, fun h => h hempty⟩
    simp only [hscan, Option.mem_some_iff, forall_eq', lt_irrefl, not_false_iff, and_true,
      reduceCtorEq, false_and, and_assoc]

variable [Json]

/-- What is read back of an entry. -/
def EventData.stored (d : EventData) : EventData :=
  { d with event.topic := Json.clean d.event.topic }

def indexedEvents (blocks : List IndexableBlock) : Map Bytes EventData :=
  Map.insertAll ∅ ((emittedEvents blocks).map fun d => (d.key, d.stored))

/-- What it takes for a query to be exact. -/
structure EventFilter.ExactOn (f : EventFilter) (events : List EventData) : Prop where
  /-- no matching event is followed by another one of its slot -/
  single : ∀ pre d post, events = pre ++ d :: post → f.Matches d → ∀ d' ∈ post, d.slot ≠ d'.slot
  /-- an event of another contract with the same 20 bytes is replaced by a later one -/
  foreign : ∀ pre d post, events = pre ++ d :: post → f.Near d → ¬ f.Matches d →
    ∃ d' ∈ post, d.slot = d'.slot
  utf8 : ∀ d ∈ events, f.Matches d → Json.clean d.event.topic = d.event.topic

structure ExactAtBlock (n : UInt64) (events : List EventData) : Prop where
  single : ∀ pre d post, events = pre ++ d :: post → d.blockNumber = n →
    ∀ d' ∈ post, d.slot ≠ d'.slot
  /-- block 0 is asked for without an upper bound -/
  zero : n = 0 → ∀ d ∈ events, d.blockNumber = 0
  utf8 : ∀ d ∈ events, d.blockNumber = n → Json.clean d.event.topic = d.event.topic

omit [Crypto] in
theorem EventData.stored_eq_iff : d.stored = d ↔ Json.clean d.event.topic = d.event.topic := by
  rw [stored]
  exact ⟨fun h => congrArg (fun d => d.event.topic) h, fun h => by rw [h]⟩

/-- No two topics at hand have the same hash. -/
def DistinctTopics (f : EventFilter) (events : List EventData) : Prop :=
  Set.InjOn sha256 {t | t ≠ [] ∧ t = f.topic0 ∨ ∃ d ∈ events, d.event.topic = t}

variable {events : List EventData}

theorem getEvents_perm_iff {wanted : EventData → Prop} [DecidablePred wanted]
    (hfree : DistinctTopics f events) (hnear : ∀ d, wanted d → f.Near d)
    (hstored : ∀ d, f.Near d → wanted d.stored → wanted d) :
    (getEvents (Map.insertAll ∅ (events.map fun d => (d.key, d.stored))) f).Perm
        (events.filter fun d => wanted d) ↔
      (∀ pre d post, events = pre ++ d :: post → f.Near d →
        (wanted d ↔ ∀ d' ∈ post, d.slot ≠ d'.slot)) ∧
      ∀ d ∈ events, wanted d → Json.clean d.event.topic = d.event.topic := by
  have hval (d : EventData) : d.stored.stored = d.stored := by
    simp [EventData.stored, Json.clean_clean]
  have hpass (d : EventData) (hd : d ∈ events) : f.passes d.key = true ↔ f.Near d :=
    EventFilter.passes_key_iff fun hne => hfree (.inr ⟨d, hd, rfl⟩) (.inl ⟨hne, rfl⟩)
  have hkey (d d' : EventData) (hd : d ∈ events) (hd' : d' ∈ events) :
      d.key = d'.key ↔ d.slot = d'.slot :=
    EventData.key_eq_iff (hfree (.inr ⟨d, hd, rfl⟩) (.inr ⟨d', hd', rfl⟩))
  unfold getEvents
  rw [perm_filter_iff events hval fun d hd hp hw => decide_eq_true
    (hstored d ((hpass d hd).1 hp) (of_decide_eq_true hw)), filter_latest_iff events
    fun d hd hw => (hpass d hd).2 (hnear d (of_decide_eq_true hw))]
  refine and_congr ?_ ?_
  · refine forall₄_congr fun pre d post hsplit => ?_
    have hd : d ∈ events := by simp [hsplit]
    have hlast : (∀ y ∈ post, d.key ≠ y.key) ↔ ∀ y ∈ post, d.slot ≠ y.slot :=
      forall₂_congr fun y hy => not_congr (hkey d y hd (by simp [hsplit, hy]))
    rw [hpass d hd, decide_eq_true_iff, hlast]
  · simp only [List.mem_filter, decide_eq_true_eq, and_imp, EventData.stored_eq_iff]

/-- A query returns exactly the events that match it if and only if no matching event is followed
by one of the same first 20 bytes of the contract, topic, block and transaction, every event of
another contract with these 20 bytes is, and the topics are valid UTF-8; a query for a block
likewise, and for block 0 only if there is no other block with events. -/
theorem event_queries_iff (blocks : List IndexableBlock) (f : EventFilter) (n : UInt64)
    (hfree : DistinctTopics f (emittedEvents blocks)) :
    ((getEvents (indexedEvents blocks) f).Perm ((emittedEvents blocks).filter fun d =>
      f.Matches d) ↔ f.ExactOn (emittedEvents blocks)) ∧
    ((getEventsByBlock (indexedEvents blocks) n).Perm
      ((emittedEvents blocks).filter fun d => d.blockNumber = n) ↔
        ExactAtBlock n (emittedEvents blocks)) := by
  generalize hevents : emittedEvents blocks = events at hfree ⊢
  have hindexed : indexedEvents blocks =
      Map.insertAll ∅ (events.map fun d => (d.key, d.stored)) := by rw [indexedEvents, hevents]
  rw [hindexed]
  constructor
  · rw [getEvents_perm_iff hfree (fun d h => h.near) fun d hnear h => ⟨h.1, hnear.2⟩]
    constructor
    · rintro ⟨hlast, hutf8⟩
      refine ⟨fun pre d post hsplit h => (hlast pre d post hsplit h.near).1 h,
        fun pre d post hsplit hnear h => ?_, hutf8⟩
      have := mt (hlast pre d post hsplit hnear).2 h
      push Not at this
      exact this
    · intro h
      refine ⟨fun pre d post hsplit hnear => ⟨h.single pre d post hsplit, fun hlast => ?_⟩, h.utf8⟩
      by_contra hmatch
      obtain ⟨d', hd', hslot⟩ := h.foreign pre d post hsplit hnear hmatch
      exact hlast d' hd' hslot
  · have hfree' : DistinctTopics ⟨none, [], n, n⟩ events :=
      hfree.mono fun t ht => .inr (ht.resolve_left fun h => h.1 h.2)
    have hnear (d : EventData) : EventFilter.Near ⟨none, [], n, n⟩ d ↔ n = 0 ∨ d.blockNumber = n := by
      have hzero : n = 0 ↔ n.toNat = 0 := UInt64.toNat_inj.symm
      simp only [EventFilter.Near, Option.not_mem_none, false_implies, implies_true, not_true, ne_eq,
        true_and, UInt64.le_iff_toNat_le, hzero, ← UInt64.toNat_inj]
      omega
    rw [getEventsByBlock, getEvents_perm_iff hfree' (fun d h => (hnear d).2 (.inr h))
      fun d _ h => h]
    constructor
    · rintro ⟨hlast, hutf8⟩
      refine ⟨fun pre d post hsplit h => (hlast pre d post hsplit ((hnear d).2 (.inr h))).1 h,
        fun hzero d hd => ?_, hutf8⟩
      obtain ⟨pre, d', post, hsplit, hslot, hafter⟩ := exists_last EventData.slot hd
      have hnumber : d'.blockNumber = d.blockNumber := congrArg (fun k => k.2.2.1) hslot
      rw [← hnumber, ← hzero]
      exact (hlast pre d' post hsplit ((hnear d').2 (.inl hzero))).2 hafter
    · intro h
      refine ⟨fun pre d post hsplit hd => ⟨h.single pre d post hsplit, fun _ => ?_⟩, h.utf8⟩
      rcases (hnear d).1 hd with hzero | hd
      · rw [h.zero hzero d (by simp [hsplit]), hzero]
      · exact hd

end

/-- Every string is kept. -/
@[reducible] def sampleJson : Json := ⟨id, fun _ => rfl⟩

open Sample

attribute [local instance] sampleJson

def sampleEvent : Event := ⟨zeroHash, [], [], 1, 0⟩

theorem second_event_lost : ¬ ∀ (blocks : List IndexableBlock) (f : EventFilter),
    (blocks.map IndexableBlock.number).Nodup → DistinctTopics f (emittedEvents blocks) →
      (getEvents (indexedEvents blocks) f).Perm
        ((emittedEvents blocks).filter fun d => f.Matches d) := by
  intro h
  have htopics : DistinctTopics ⟨none, [], 0, 0⟩
      (emittedEvents [⟨1, [sampleEvent, sampleEvent]⟩]) := by
    simp [DistinctTopics, emittedEvents, sampleEvent]
  have hlost := (h _ _ (by decide) htopics).length_eq
  exact absurd hlost (by decide +kernel)

/-- Two events of one transaction and topic in block 1, by two contracts, and one in block 2. -/
def sampleBlocks : List IndexableBlock :=
  [⟨1, [sampleEvent, { sampleEvent with contractID := FixedBytes.copy 32 [1] }]⟩, ⟨2, [sampleEvent]⟩]

def sampleFilter : EventFilter := ⟨some zeroHash, [], 1, 1⟩

theorem event_queries_sample : (getEvents (indexedEvents sampleBlocks) sampleFilter).Perm
      ((emittedEvents sampleBlocks).filter fun d => sampleFilter.Matches d) ∧
    ((emittedEvents sampleBlocks).filter fun d => sampleFilter.Matches d).length = 1 := by
  have htopics : DistinctTopics sampleFilter (emittedEvents sampleBlocks) := by
    simp [DistinctTopics, sampleFilter, sampleBlocks, emittedEvents, sampleEvent]
  refine ⟨(event_queries_iff _ _ 1 htopics).1.2 ?_, by decide +kernel⟩
  have hslots : ((emittedEvents sampleBlocks).map EventData.slot).Nodup := by decide +kernel
  have hnear : ∀ d ∈ emittedEvents sampleBlocks, sampleFilter.Near d → sampleFilter.Matches d := by
    decide +kernel
  refine ⟨fun pre d post hsplit _ d' hd' => ?_, fun pre d post hsplit hd hmatch => ?_, fun _ _ _ => rfl⟩
  · rw [hsplit, List.map_append, List.map_cons] at hslots
    have := (List.nodup_cons.1 (List.nodup_append.1 hslots).2.1).1
    exact fun heq => this (heq ▸ List.mem_map_of_mem hd')
  · exact absurd (hnear d (by simp [hsplit]) hd) hmatch

end Dsn
