import Dsn.Consensus.System
import Dsn.Staking.Operations

/-!
# The epoch clock

Along a run of `BeginBlock` at 1, 2, … the stored epoch is the height divided by the epoch length,
whatever staking operations come in between.
-/

namespace Dsn

open Go InMemoryState

section

variable [Crypto]

/-! ### Runs of blocks -/

/-- Blocks at heights 1, 2, … with staking operations in between. -/
inductive BlockRun (s₀ : InMemoryState) : List (UInt64 × Hash) → InMemoryState → Prop
  | genesis : BlockRun s₀ [] s₀
  | op {starts : List (UInt64 × Hash)} {s : InMemoryState} (o : StakingOp) :
      BlockRun s₀ starts s → BlockRun s₀ starts (finalState (o.run s))
  | block {starts : List (UInt64 × Hash)} {start : UInt64 × Hash} {s s' : InMemoryState} :
      BlockRun s₀ starts s → starts.length + 1 < 2 ^ 64 →
      beginBlock (UInt64.ofNat (starts.length + 1)) s = .ok start s' →
      BlockRun s₀ (starts ++ [start]) s'

variable {s s' t : InMemoryState} {b : UInt64} {n : ℕ} {starts : List (UInt64 × Hash)}

/-! ### Where the clock stands -/

structure Clock (b : UInt64) (n : ℕ) (s : InMemoryState) : Prop where
  length : blocksPerEpoch s = .ok b
  current : currentEpoch s = .ok (UInt64.ofNat (n / b.toNat))

variable {texts : List Bytes}

section

omit [Crypto]

theorem Clock.of_keys (h : Clock b n s) (hkeys : SameOutside texts s s')
    (hclear : ∀ key ∈ [keyCurrentEpoch, keyBlocksPerEpoch], ∀ u ∈ texts,
      ¬ u <+: key ∧ ¬ key <+: u) : Clock b n s' := by
  have hsame (key : Bytes) (hkey : key ∈ [keyCurrentEpoch, keyBlocksPerEpoch]) :
      s'.getBytes key = s.getBytes key := by
    rw [← List.append_nil key]
    exact hkeys _ (not_startsWith_append (hclear key hkey) [])
  exact ⟨(readCounter_congr (hsame _ (by decide)) _).trans h.length,
    (readCounter_congr (hsame _ (by decide)) _).trans h.current⟩

theorem uint64_ofNat_succ_ne_zero (hn : n + 1 < 2 ^ 64) : UInt64.ofNat (n + 1) ≠ 0 := by
  intro h
  have := congrArg UInt64.toNat h
  rw [UInt64.toNat_ofNat_of_lt' hn] at this
  exact Nat.succ_ne_zero n this

theorem Clock.isEpochBoundary (h : Clock b n s) (hb : b ≠ 0) (hn : n + 1 < 2 ^ 64) :
    isEpochBoundary (UInt64.ofNat (n + 1)) s = .ok (decide (b.toNat ∣ n + 1)) := by
  have hrem : UInt64.ofNat (n + 1) % b = 0 ↔ b.toNat ∣ n + 1 := by
    rw [← UInt64.toNat_inj, UInt64.toNat_mod, UInt64.toNat_ofNat_of_lt' hn, Nat.dvd_iff_mod_eq_zero]
    rfl
  unfold Dsn.isEpochBoundary
  rw [if_neg (uint64_ofNat_succ_ne_zero hn)]
  refine except_bind_eq_ok.2 ⟨b, h.length, except_bind_eq_ok.2 ⟨_, if_neg hb, ?_⟩⟩
  exact congrArg Except.ok (decide_eq_decide.2 hrem)

theorem Clock.epochAtHeight (h : Clock b n s) (hb : b ≠ 0) (hn : n + 1 < 2 ^ 64) :
    epochAtHeight (UInt64.ofNat (n + 1)) s = .ok (UInt64.ofNat (n / b.toNat) + 1) := by
  have hpred : UInt64.ofNat (n + 1) - 1 = UInt64.ofNat n := by
    rw [UInt64.ofNat_add]
    exact UInt64.add_sub_cancel _ _
  have hquo : UInt64.ofNat n / b = UInt64.ofNat (n / b.toNat) := by
    have hlt : n < UInt64.size := (Nat.lt_succ_self n).trans hn
    rw [← UInt64.toNat_inj, UInt64.toNat_div, UInt64.toNat_ofNat_of_lt' hlt,
      UInt64.toNat_ofNat_of_lt' ((Nat.div_le_self _ _).trans_lt hlt)]
  unfold Dsn.epochAtHeight
  rw [if_neg (uint64_ofNat_succ_ne_zero hn), hpred, ← hquo]
  exact except_bind_eq_ok.2 ⟨b, h.length, except_bind_eq_ok.2 ⟨_, if_neg hb, rfl⟩⟩

end

variable {height : UInt64}

theorem Clock.enters (h : Clock b n s) (henter : EntersTransition height s t) : Clock b n t := by
  obtain ⟨-, completedEpoch, bpe, issuance, t1, -, -, hissue, hpay⟩ := henter
  have hissued := h.of_keys ((issueEpochTokens_keys _ _ _).of_ok hissue) (by decide)
  exact hissued.of_keys ((@distributeValidatorRewards_keys _ [] _).of_ok hpay) (by decide)

theorem Clock.transition {u : Unit} (h : Clock b n s) (hdvd : b.toNat ∣ n + 1)
    (hrun : processEpochTransition height s = .ok u s') : Clock b (n + 1) s' := by
  obtain ⟨epoch, hepoch, -, hnext⟩ := processEpochTransition_ok hrun
  have hbpe := (processEpochTransition_keys height).of_ok hrun keyBlocksPerEpoch
    (not_startsWith_append (t := keyBlocksPerEpoch) (by decide) [])
  cases h.current.symm.trans hepoch
  refine ⟨(readCounter_congr hbpe _).trans h.length, hnext.trans ?_⟩
  rw [Nat.succ_div, if_pos hdvd, UInt64.ofNat_add]
  rfl

variable {start : UInt64 × Hash}

theorem Clock.beginBlock (h : Clock b n s) (hb : b ≠ 0)
    (hn : n + 1 < 2 ^ 64) (hrun : beginBlock (UInt64.ofNat (n + 1)) s = .ok start s') :
    Clock b (n + 1) s' ∧ start.1 = UInt64.ofNat ((n + 1) / b.toNat) := by
  obtain ⟨t, snap, hpath, hepoch, hsnap, -⟩ :=
    beginBlock_cases (uint64_ofNat_succ_ne_zero hn) hrun
  have hclock : Clock b (n + 1) t := by
    rcases hpath with ⟨hboundary, rfl⟩ | ⟨t1, henter, htrans⟩
    · -- within an epoch the quotient stays
      rw [h.isEpochBoundary hb hn] at hboundary
      have hdvd : ¬ b.toNat ∣ n + 1 := of_decide_eq_false (Except.ok.inj hboundary)
      refine ⟨h.length, h.current.trans ?_⟩
      rw [Nat.succ_div, if_neg hdvd, Nat.add_zero]
    · have hboundary := henter.1
      rw [h.isEpochBoundary hb hn] at hboundary
      exact (h.enters henter).transition (of_decide_eq_true (Except.ok.inj hboundary)) htrans
  refine ⟨hclock.of_keys ((ensureSnapshot_keys start.1).of_ok hsnap) (by decide), ?_⟩
  exact Except.ok.inj (hepoch.symm.trans hclock.current)

/-! ### Snapshots stay -/

theorem ensureSnapshot_keepsSnapshot (k epoch : UInt64) (snap : ValidatorSnapshot) :
    Steps (Keeps fun s => getSnapshot k s = .ok (some snap)) (ensureSnapshot epoch) := by
  intro s hs
  rcases ensureSnapshot_getBytes epoch k s with hsame | ⟨rfl, -⟩
  · exact (getSnapshot_congr hsame).trans hs
  · unfold ensureSnapshot
    rw [wrapErr_bind (asks_eq_ok.2 ⟨hs, rfl⟩)]
    exact hs

omit [Crypto] in
theorem getSnapshot_of_keys (hkeys : SameOutside texts s s')
    (hclear : ∀ u ∈ texts, ¬ u <+: str "snapshot/" ∧ ¬ str "snapshot/" <+: u) (k : UInt64) :
    getSnapshot k s' = getSnapshot k s :=
  getSnapshot_congr (hkeys _ (not_startsWith_append hclear _))

theorem epochBoundary_keys (height : UInt64) :
    Steps (SameOutside (str "economics/" :: keyCurrentEpoch :: registryTexts))
      (epochBoundary height) := by
  refine (Steps.asks _).bind fun epoch => (Steps.asks _).bind fun bpe => ?_
  refine Steps.bind (Steps.wrapErr _ fun s => ?_) fun _ => ?_
  · exact (issueEpochTokens_keys _ _ _ s).mono (by simp)
  refine ((distributeValidatorRewards_keys _).wrapErr _).bind fun _ => Steps.wrapErr _ fun s => ?_
  exact (processEpochTransition_keys height s).mono (List.subset_cons_self _ _)

theorem beginBlock_keepsSnapshot (k height : UInt64) (snap : ValidatorSnapshot) :
    Steps (Keeps fun s => getSnapshot k s = .ok (some snap)) (beginBlock height) := by
  have htail : Steps (Keeps fun s => getSnapshot k s = .ok (some snap)) (do
      let epoch ← wrapErr "current epoch" (asks currentEpoch)
      let snap ← ensureSnapshot epoch
      return (epoch, snap.setHash)) :=
    ((Steps.asks _).wrapErr _).bind fun epoch =>
      (ensureSnapshot_keepsSnapshot k epoch snap).bind fun _ => Steps.pure _
  refine Steps.ite (Steps.pure _) ((Steps.asks _).bind fun boundary => ?_)
  cases boundary with
  | false => exact htail
  | true =>
    refine Steps.bind (fun s hs => ?_) fun _ => htail
    exact (getSnapshot_of_keys (epochBoundary_keys height s) (by decide) k).trans hs

/-! ### The clock along a run -/

structure OnTime (b : UInt64) (starts : List (UInt64 × Hash)) (s : InMemoryState) : Prop where
  clock : Clock b starts.length s
  epochs : ∀ i start, starts[i]? = some start → start.1 = UInt64.ofNat ((i + 1) / b.toNat)
  snapshots : ∀ start ∈ starts, ∃ snap, getSnapshot start.1 s = .ok (some snap) ∧
    snap.setHash = start.2

theorem OnTime.op (h : OnTime b starts s) (o : StakingOp) :
    OnTime b starts (finalState (o.run s)) := by
  have hkeys := o.run_keys s
  refine ⟨h.clock.of_keys hkeys (by decide), h.epochs, fun start hstart => ?_⟩
  obtain ⟨snap, hsnap, hhash⟩ := h.snapshots start hstart
  exact ⟨snap, (getSnapshot_of_keys hkeys (by decide) _).trans hsnap, hhash⟩

theorem OnTime.block (h : OnTime b starts s) (hb : b ≠ 0) (hn : starts.length + 1 < 2 ^ 64)
    (hrun : beginBlock (UInt64.ofNat (starts.length + 1)) s = .ok start s') :
    OnTime b (starts ++ [start]) s' := by
  obtain ⟨hclock, hepoch⟩ := h.clock.beginBlock hb hn hrun
  refine ⟨?_, fun i start' hi => ?_, fun start' hstart' => ?_⟩
  · rw [List.length_append]
    exact hclock
  · rw [List.getElem?_append] at hi
    split_ifs at hi with hlt
    · exact h.epochs i start' hi
    · -- the only index of the new block is the length of the run before it
      rw [List.getElem?_singleton] at hi
      split_ifs at hi with hzero
      cases hi
      rw [hepoch, show i = starts.length by omega]
  · rcases List.mem_append.1 hstart' with hold | hnew
    · obtain ⟨snap, hsnap, hhash⟩ := h.snapshots start' hold
      exact ⟨snap, (beginBlock_keepsSnapshot start'.1 _ snap).of_ok hrun hsnap, hhash⟩
    · obtain rfl := List.mem_singleton.1 hnew
      exact (beginBlock_eq_ok (uint64_ofNat_succ_ne_zero hn) hrun).2

theorem BlockRun.onTime {s0 : InMemoryState} (hb : b ≠ 0) (h0 : Clock b 0 s0)
    (hrun : BlockRun s0 starts s) : OnTime b starts s := by
  induction hrun with
  | genesis => exact ⟨h0, nofun, nofun⟩
  | op o _ ih => exact ih.op o
  | block _ hn hbegin ih => exact ih.block hb hn hbegin

/-- The epoch counter is the number of blocks over the length of the epochs. -/
theorem epoch_clock (s₀ s : InMemoryState) (b : UInt64) (hb : b ≠ 0)
    (hlength : blocksPerEpoch s₀ = .ok b) (hgenesis : currentEpoch s₀ = .ok 0)
    (starts : List (UInt64 × Hash)) (hrun : BlockRun s₀ starts s) :
    currentEpoch s = .ok (UInt64.ofNat (starts.length / b.toNat)) ∧
      (starts.length + 1 < 2 ^ 64 → ∀ t,
        EntersTransition (UInt64.ofNat (starts.length + 1)) s t → ∃ epoch,
          currentEpoch t = .ok epoch ∧
          epochAtHeight (UInt64.ofNat (starts.length + 1)) t = .ok (epoch + 1)) ∧
      ∀ i start, starts[i]? = some start → start.1 = UInt64.ofNat ((i + 1) / b.toNat) ∧
        ∃ snap, getSnapshot start.1 s = .ok (some snap) ∧ snap.setHash = start.2 := by
  have h₀ : Clock b 0 s₀ := ⟨hlength, by rw [Nat.zero_div]; exact hgenesis⟩
  have h := hrun.onTime hb h₀
  refine ⟨h.clock.current, fun hn t henter => ?_, fun i start hi => ?_⟩
  · have ht := h.clock.enters henter
    exact ⟨_, ht.current, ht.epochAtHeight hb hn⟩
  · exact ⟨h.epochs i start hi, h.snapshots start (List.mem_of_getElem? hi)⟩

end

open Sample

def sampleGenesis : InMemoryState :=
  newInMemoryState.setBytes keyBlocksPerEpoch (putUint64 1)

theorem epoch_clock_sample : ∃ start s, beginBlock 1 sampleGenesis = .ok start s ∧
    currentEpoch s = .ok 1 ∧ start.1 = 1 ∧
      ∃ snap, getSnapshot start.1 s = .ok (some snap) ∧ snap.setHash = start.2 := by
  obtain ⟨start, s, hrun, -⟩ := exists_of_succeedsWith (show succeedsWith (fun _ _ => true)
    (beginBlock 1 sampleGenesis) = true by decide +kernel)
  have h := epoch_clock sampleGenesis s 1 (by decide) (by decide) (by decide) [start]
    (.block .genesis (by decide) hrun)
  obtain ⟨hepoch, hsnap⟩ := h.2.2 0 start rfl
  have hone : UInt64.ofNat (1 / UInt64.toNat 1) = 1 := by decide
  exact ⟨start, s, hrun, h.1.trans (congrArg _ hone), hepoch.trans hone, hsnap⟩

end Dsn
