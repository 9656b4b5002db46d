import Dsn.Lib.Guarded

/-!
# `indexer`: the indexed height

Turns of the indexer on arbitrary heights, and the height it reports.
-/

namespace Dsn

open Guarded

structure Indexer where
  height : UInt64
  latest : UInt64
  blocks : List UInt64
  first : Option UInt64

namespace Indexer

def new (latest : UInt64) (blocks : List UInt64) : Indexer := ⟨latest, latest, blocks, none⟩

inductive Turn
  | run (number : UInt64) (indexes : Bool)
  | catchUp (height : UInt64) (block : Option UInt64) (indexes : Bool)

def indexBlock (number : UInt64) (idx : Indexer) : Indexer :=
  { idx with latest := number, blocks := number :: idx.blocks }

def process (height : UInt64) (idx : Indexer) : Indexer :=
  { idx with first := some (idx.first.getD height) }

def step : Turn → Indexer → Indexer
  | .run number indexes, idx =>
    let idx := idx.process number
    if indexes then
      { idx.indexBlock number with height := if number > idx.height then number else idx.height }
    else idx
  | .catchUp height block indexes, idx =>
    let idx := idx.process height
    match block with
    | none => idx
    | some number => if indexes then { idx.indexBlock number with height } else idx

def Covered (idx : Indexer) (low high : UInt64) : Prop :=
  ∀ k, low ≤ k → k ≤ high → k ∈ idx.blocks

structure NoGaps (idx : Indexer) : Prop where
  covered : ∀ low ∈ idx.first, idx.Covered low idx.height
  persisted : idx.latest = idx.height

def Extends (idx : Indexer) (low number : UInt64) : Prop :=
  idx.height ≤ number ∧ ∀ k, low ≤ k → k < number → k ∈ idx.blocks

def Skips (idx : Indexer) (height : UInt64) : Prop :=
  idx.first = none → idx.Covered height idx.height

/-- The turn goes on where the index ends, or leaves it alone. -/
def Turn.Fits : Turn → Indexer → Prop
  | .run number true, idx => idx.Extends (idx.first.getD number) number
  | .run number false, idx => idx.Skips number
  | .catchUp height (some number) true, idx =>
    number = height ∧ idx.Extends (idx.first.getD height) number
  | .catchUp height _ _, idx => idx.Skips height

def Turn.Keeps (t : Turn) (idx : Indexer) : Prop :=
  NoGaps (step t idx) ∧ idx.latest ≤ (step t idx).latest

variable {idx : Indexer} {height number : UInt64}

theorem keeps_process_iff (h : NoGaps idx) :
    NoGaps (idx.process height) ∧ idx.latest ≤ (idx.process height).latest ↔ idx.Skips height := by
  have hmono : idx.latest ≤ (idx.process height).latest := UInt64.le_refl _
  simp only [hmono, and_true]
  constructor
  · intro hgaps hfirst
    have hcovered := hgaps.covered _ rfl
    rwa [hfirst] at hcovered
  · refine fun hskips => ⟨?_, h.persisted⟩
    rintro _ ⟨⟩
    cases hfirst : idx.first with
    | none => exact hskips hfirst
    | some low => exact h.covered low hfirst

theorem keeps_indexBlock_iff (h : NoGaps idx) {low reported : UInt64} :
    NoGaps ⟨reported, number, number :: idx.blocks, some low⟩ ∧ idx.latest ≤ number ↔
      number = reported ∧ idx.Extends low number := by
  rw [h.persisted]
  constructor
  · rintro ⟨⟨hcovered, hpersisted⟩, hmono⟩
    obtain rfl : number = reported := hpersisted
    refine ⟨rfl, hmono, fun k hlow hk => ?_⟩
    rcases List.mem_cons.1 (hcovered low rfl k hlow (UInt64.le_of_lt hk)) with rfl | hmem
    · exact absurd hk (UInt64.lt_irrefl _)
    · exact hmem
  · rintro ⟨rfl, hmono, hbelow⟩
    refine ⟨⟨?_, rfl⟩, hmono⟩
    rintro _ ⟨⟩ k hlow hk
    rcases UInt64.lt_or_eq_of_le hk with hlt | rfl
    · exact List.mem_cons_of_mem _ (hbelow k hlow hlt)
    · exact List.mem_cons_self

theorem Turn.keeps_iff (t : Turn) (h : NoGaps idx) : t.Keeps idx ↔ t.Fits idx := by
  match t with
  | .run number false | .catchUp height none _ | .catchUp height (some number) false =>
    exact keeps_process_iff h
  | .catchUp height (some number) true => exact keeps_indexBlock_iff h
  | .run number true =>
    refine (keeps_indexBlock_iff h).trans (and_iff_right_of_imp fun hfits => ?_)
    have hle : idx.height ≤ number := hfits.1
    split_ifs with hlt
    · rfl
    · exact UInt64.le_antisymm (UInt64.not_lt.1 hlt) hle

theorem runs_keeps_iff {turns : List Turn} (h : NoGaps idx) :
    Runs Turn.Keeps step idx turns ↔ Runs Turn.Fits step idx turns := by
  induction turns generalizing idx with
  | nil => rfl
  | cons t turns ih =>
    rw [Runs, Runs, ← t.keeps_iff h]
    exact and_congr_right fun hkeeps => ih hkeeps.1

/-- The heights are indexed without a gap exactly if every turn fits. -/
theorem index_height_iff (latest : UInt64) (blocks : List UInt64) (turns : List Turn) :
    (∀ pre t post, turns = pre ++ t :: post → t.Keeps (after step (new latest blocks) pre)) ↔
      Runs Turn.Fits step (new latest blocks) turns := by
  have hnew : NoGaps (new latest blocks) := ⟨by rintro _ ⟨⟩, rfl⟩
  rw [← runs_iff, runs_keeps_iff hnew]

theorem failed_block_skipped : ¬ ∀ (latest : UInt64) (blocks : List UInt64) (turns : List Turn),
    ∀ pre t post, turns = pre ++ t :: post → t.Keeps (after step (new latest blocks) pre) := by
  intro h
  have hkeeps := h 0 [] [.run 1 true, .run 2 false, .run 3 true] [.run 1 true, .run 2 false] _
    [] rfl
  have hmem := hkeeps.1.covered 1 rfl 2 (by decide) (by decide)
  revert hmem
  decide

end Indexer

end Dsn
