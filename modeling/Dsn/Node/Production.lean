import Dsn.Node.ConsensusLoop
import Dsn.Node.Finality

/-!
# The chain of blocks that a node builds

The loop counts heights on its own and counts a built block twice. Relative to the tip the counter
is the start, one, the turns and the built blocks together.
-/

namespace Dsn

open Go InMemoryState

namespace Node

/-- The loop's own count of heights beside the node. -/
structure Loop where
  height : UInt64
  node : Node

def Loop.start (n : Node) : Loop := ⟨n.currentHeight + 1, n⟩

/-- A turn of the loop, or what the network hands to the node between two turns. -/
inductive LoopEvent where
  | turn (clock : TurnClock)
  | message (msg : Message)
  | accepted (now : UInt64) (block : Block)

/-- What an event did, as far as heights are concerned. -/
inductive Outcome where
  | heard
  | waited
  | built
  | adopted (height : UInt64)

section

variable [Crypto]

/-- The loop after an event. A panic ends the process; an error of `handleBlockMessage` does not. -/
def LoopEvent.next : LoopEvent → Loop → Option Loop
  | .turn clock, l => match consensusTurn clock l.height l.node with
    | .ok (next, _) n => some ⟨next, n⟩
    | .error _ _ => none
  | .message msg, l => match handleBlockMessage msg.1 msg.2 l.node with
    | .ok _ n => some { l with node := n }
    | .error e n => if e.isPanic then none else some { l with node := n }
  | .accepted now block, l => match applyAcceptedBlock now block l.node with
    | .ok _ n => some { l with node := n }
    | .error _ _ => none

def LoopEvent.outcome : LoopEvent → Loop → Outcome
  | .turn clock, l => match consensusTurn clock l.height l.node with
    | .ok (_, some _) _ => .built
    | _ => .waited
  | .message _, _ => .heard
  | .accepted _ block, _ => .adopted block.header.height

/-- The loop started on `n` and went through the events to `l`; the latest event, and the latest
outcome, is the first of its list. -/
inductive Run (n : Node) : List LoopEvent → List Outcome → Loop → Prop
  | start : Run n [] [] (.start n)
  | step {events : List LoopEvent} {os : List Outcome} {l l' : Loop} (e : LoopEvent) :
      Run n events os l → e.next l = some l' → Run n (e :: events) (e.outcome l :: os) l'

/-- The node is the proposer of the counted height, and `BuildBlock` gives the block. -/
def Loop.Produces (clock : TurnClock) (l : Loop) (block : Block) : Prop :=
  proposerAtHeight l.height l.node.cfg.validators = .ok l.node.nodeAddress ∧
    ∃ n', proposeBlock clock l.height l.node.nodeAddress l.node = .ok block n'

/-- Every block that is produced in the course of the events extends the tip of its moment. -/
def ProducesChain (n : Node) (events : List LoopEvent) : Prop :=
  ∀ later clock earlier os l block, events = later ++ .turn clock :: earlier →
    Run n earlier os l → l.Produces clock block → l.node.ExtendsTip block

end

/-! ### The two heights -/

namespace Outcome

/-- One for each turn that returned, and one more for each block it built. -/
def steps : Outcome → ℕ
  | waited => 1
  | built => 2
  | _ => 0

/-- The count after the outcomes, from a tip of height `h`. -/
def counted (h : ℕ) (os : List Outcome) : ℕ := (h + 1 + (os.map steps).sum) % 2 ^ 64

/-- The height of the tip: that of the block built or adopted last. -/
def tip (h : ℕ) : List Outcome → ℕ
  | [] => h
  | adopted height :: _ => height.toNat
  | built :: os => counted h os
  | heard :: os => tip h os
  | waited :: os => tip h os

/-- No turn was taken and no block came in; or the last block that was built or came in was
adopted from the network, at the height of the first tip plus the turns and the built blocks. -/
def Follows (h : ℕ) (os : List Outcome) : Prop :=
  (∀ o ∈ os, o = heard) ∨ ∃ later height earlier, os = later ++ adopted height :: earlier ∧
    (∀ o ∈ later, o = heard ∨ o = waited) ∧ height.toNat = h + (os.map steps).sum

variable {h : ℕ} {os later : List Outcome}

theorem tip_append (hlater : ∀ o ∈ later, o = heard ∨ o = waited) :
    tip h (later ++ os) = tip h os := by
  induction later with
  | nil => rfl
  | cons o later ih =>
    have ih := ih fun o' ho' => hlater o' (List.mem_cons_of_mem _ ho')
    rcases hlater o List.mem_cons_self with rfl | rfl
    · exact ih
    · exact ih

/-- Where the height of the tip comes from. -/
theorem tip_cases (h : ℕ) (os : List Outcome) :
    ((∀ o ∈ os, o = heard ∨ o = waited) ∧ tip h os = h) ∨
    ∃ later o earlier, os = later ++ o :: earlier ∧ (∀ o ∈ later, o = heard ∨ o = waited) ∧
      (o = built ∧ tip h os = counted h earlier ∨
        ∃ height, o = adopted height ∧ tip h os = height.toNat) := by
  induction os with
  | nil => exact .inl ⟨nofun, rfl⟩
  | cons o os ih =>
    cases o with
    | adopted height => exact .inr ⟨[], _, os, rfl, nofun, .inr ⟨height, rfl, rfl⟩⟩
    | built => exact .inr ⟨[], _, os, rfl, nofun, .inl ⟨rfl, rfl⟩⟩
    | heard | waited =>
      rcases ih with ⟨hquiet, htip⟩ | ⟨later, o, earlier, rfl, hlater, hlast⟩
      · exact .inl ⟨List.forall_mem_cons.2 ⟨by simp, hquiet⟩, htip⟩
      · exact .inr ⟨_ :: later, o, earlier, rfl, List.forall_mem_cons.2 ⟨by simp, hlater⟩, hlast⟩

theorem counted_eq_tip_iff (hfits : h + 1 + (os.map steps).sum < 2 ^ 64) :
    counted h os = tip h os + 1 ↔ Follows h os := by
  have hcounted : counted h os = h + 1 + (os.map steps).sum := Nat.mod_eq_of_lt hfits
  rw [hcounted]
  constructor
  · intro heq
    rcases tip_cases h os with ⟨hquiet, htip⟩ | ⟨later, o, earlier, rfl, hlater, hlast⟩
    · refine .inl fun o ho => (hquiet o ho).resolve_right ?_
      rintro rfl
      have hpos : steps waited ≤ (os.map steps).sum :=
        List.single_le_sum (by simp) _ (List.mem_map_of_mem ho)
      have : steps waited = 1 := rfl
      omega
    rcases hlast with ⟨rfl, htip⟩ | ⟨height, rfl, htip⟩
    · -- the count is past the height of a block that the loop built itself
      have hle : counted h earlier ≤ h + 1 + (earlier.map steps).sum := Nat.mod_le _ _
      simp only [List.map_append, List.map_cons, List.sum_append, List.sum_cons, steps] at heq
      omega
    · exact .inr ⟨later, height, earlier, rfl, hlater, by omega⟩
  · rintro (hheard | ⟨later, height, earlier, rfl, hlater, hheight⟩)
    · have hzero : (os.map steps).sum = 0 := by
        refine List.sum_eq_zero fun k hk => ?_
        obtain ⟨o, ho, rfl⟩ := List.mem_map.1 hk
        rw [hheard o ho]
        rfl
      have htip := @tip_append h [] os fun o ho => .inl (hheard o ho)
      rw [List.append_nil] at htip
      rw [htip, hzero]
      rfl
    · rw [tip_append hlater, tip, hheight]
      omega

end Outcome

/-! ### The loop keeps to them -/

section

/-- The node's height stays what it is. -/
def SameHeight (n n' : Node) : Prop := n'.currentHeight = n.currentHeight

instance : Std.Refl SameHeight := ⟨fun _ => rfl⟩

instance : IsTrans Node SameHeight := ⟨fun _ _ _ h h' => h'.trans h⟩

variable {α : Type}

theorem sameHeight_onState (x : Exec InMemoryState α) : Steps SameHeight (onState x) := by
  intro n
  unfold onState
  rw [finalState_onPart]
  rfl

theorem sameHeight_onPersistent (x : Exec PersistentState α) :
    Steps SameHeight (onPersistent x) := by
  intro n
  unfold onPersistent
  split
  · rfl
  · split <;> rfl

variable [Crypto] {l l' : Loop} {clock : TurnClock} {block : Block} {n n' : Node} {e : LoopEvent}
  {next now height : UInt64} {events : List LoopEvent} {os : List Outcome}

theorem sameHeight_checkpointEpoch (now : UInt64) (block : Block) :
    Steps SameHeight (checkpointEpoch now block) :=
  .bind (.modify fun _ => rfl) fun _ => .bind .get fun _ =>
    .bind (.attempt (sameHeight_onPersistent _)) fun _ => .ite
      (.bind (sameHeight_onState _) fun _ =>
        .bind (.attempt (sameHeight_onPersistent _)) fun _ => .pure _) (.pure _)

theorem sameHeight_proposeBlock (clock : TurnClock) (height : UInt64) (proposer : Address) :
    Steps SameHeight (proposeBlock clock height proposer) := by
  refine .bind .get fun n => .bind (.modify fun n => ?_) fun _ => sameHeight_onState _
  unfold askPool SameHeight
  split <;> rfl

theorem sameHeight_commitState : Steps SameHeight commitState :=
  .bind .get fun _ => .ite (.bind (sameHeight_onPersistent _) fun _ =>
    .bind (.wrapErr _ (sameHeight_onPersistent _)) fun _ => sameHeight_onState _)
    (sameHeight_onState _)

theorem sameHeight_storeAccepted (block : Block) : Steps SameHeight (storeAccepted block) := by
  refine .bind (.attempt (sameHeight_onPersistent _)) fun _ =>
    .bind (.attempt sameHeight_commitState) fun result => ?_
  cases result with
  | ok root => exact .pure _
  | error e => exact .throw _

omit [Crypto] in
theorem currentHeight_of_modify {f : Node → Node} {x : Exec Node Unit}
    (hf : ∀ n, (f n).currentHeight = height) (hx : Steps SameHeight x)
    (h : (modify f >>= fun _ => x) n = .ok () n') : n'.currentHeight = height := by
  obtain ⟨_, _, hmodify, h⟩ := bind_eq_ok.1 h
  cases hmodify
  exact (hx.of_ok h).trans (hf n)

theorem adoptBuilt_currentHeight (h : adoptBuilt now block n = .ok () n') :
    n'.currentHeight = block.header.height := by
  obtain ⟨_, _, hget, h⟩ := bind_eq_ok.1 h
  cases hget
  by_cases hsome : n.persistent.isSome
  · rw [if_pos hsome] at h
    obtain ⟨_, n₁, -, h⟩ := bind_eq_ok.1 h
    exact currentHeight_of_modify (fun _ => rfl)
      (.ite (sameHeight_checkpointEpoch now block) (.pure _)) h
  · rw [if_neg hsome] at h
    exact currentHeight_of_modify (fun _ => rfl)
      (.ite (sameHeight_checkpointEpoch now block) (.pure _)) h

theorem applyAcceptedBlock_currentHeight (h : applyAcceptedBlock now block n = .ok () n') :
    n'.currentHeight = block.header.height := by
  refine currentHeight_of_modify (fun _ => rfl) (.bind .get fun _ => ?_) h
  have hrest (n : Node) (u : PUnit) : Steps SameHeight (do
      modify fun n => { n with
        mempool := block.transactions.foldl (fun mp tx => mp.remove true tx.intentID) n.mempool }
      if n.persistent.isSome ∧ block.header.epoch > 0 ∧ block.header.epoch ≠ n.currentEpoch then
        checkpointEpoch now block : Exec Node Unit) :=
    .bind (.modify fun _ => rfl) fun _ => .ite (sameHeight_checkpointEpoch now block) (.pure _)
  exact .ite (.bind (sameHeight_storeAccepted block) (hrest _)) (hrest _ ⟨⟩)

/-- A turn that returns counts one height, and two if it built a block. -/
theorem consensusTurn_heights {built : Option Block}
    (h : consensusTurn clock height n = .ok (next, built) n') :
    built = none ∧ next = height + 1 ∧ n'.currentHeight = n.currentHeight ∨
      built.isSome ∧ next = height + 1 + 1 ∧ n'.currentHeight = height := by
  obtain ⟨_, _, hget, h⟩ := bind_eq_ok.1 h
  cases hget
  obtain ⟨proposer, -, h⟩ := ofResult_bind_eq_ok.1 h
  split_ifs at h
  · obtain ⟨result, n₁, hattempt, h⟩ := bind_eq_ok.1 h
    have hsame : SameHeight n n₁ := (sameHeight_proposeBlock _ _ _).attempt.of_ok hattempt
    cases result with
    | ok block =>
      obtain ⟨_, n₂, hadopt, h⟩ := bind_eq_ok.1 h
      cases h
      have hproposed := proposeBlock_eq_ok (attempt_eq_ok.1 hattempt)
      exact .inr ⟨rfl, rfl, (adoptBuilt_currentHeight hadopt).trans hproposed.height_eq⟩
    | error e =>
      cases h
      exact .inl ⟨rfl, rfl, hsame⟩
  · cases h
    exact .inl ⟨rfl, rfl, rfl⟩

/-- The step of the two heights. -/
theorem LoopEvent.next_heights {h : ℕ} (hnext : e.next l = some l')
    (hcount : l.height.toNat = Outcome.counted h os)
    (htip : l.node.currentHeight.toNat = Outcome.tip h os) :
    l'.height.toNat = Outcome.counted h (e.outcome l :: os) ∧
      l'.node.currentHeight.toNat = Outcome.tip h (e.outcome l :: os) := by
  cases e with
  | turn clock =>
    unfold next at hnext
    unfold outcome
    cases hturn : consensusTurn clock l.height l.node with
    | error err n => simp only [hturn] at hnext; cases hnext
    | ok r n =>
      simp only [hturn] at hnext ⊢
      cases hnext
      obtain ⟨next, built⟩ := r
      rcases consensusTurn_heights hturn with ⟨rfl, rfl, hsame⟩ | ⟨hsome, rfl, hheight⟩
      · refine ⟨?_, by rw [hsame, htip]; rfl⟩
        show (l.height + 1).toNat = _
        rw [UInt64.toNat_add, hcount]
        simp [Outcome.counted, Outcome.steps]
        omega
      · obtain ⟨block, rfl⟩ := Option.isSome_iff_exists.1 hsome
        refine ⟨?_, by rw [hheight, hcount]; rfl⟩
        show (l.height + 1 + 1).toNat = _
        rw [UInt64.toNat_add, UInt64.toNat_add, hcount]
        simp [Outcome.counted, Outcome.steps]
        omega
  | message msg =>
    have hsame : l'.height = l.height ∧ l'.node = deliver msg l.node := by
      unfold next at hnext
      unfold deliver
      cases hrun : handleBlockMessage msg.1 msg.2 l.node with
      | ok u n =>
        simp only [hrun] at hnext
        cases hnext
        exact ⟨rfl, rfl⟩
      | error err n =>
        simp only [hrun] at hnext
        split_ifs at hnext
        cases hnext
        exact ⟨rfl, rfl⟩
    rw [hsame.1, hsame.2, deliver_currentHeight]
    exact ⟨by rw [hcount]; simp [Outcome.counted, outcome, Outcome.steps], htip⟩
  | accepted now block =>
    unfold next at hnext
    cases hrun : applyAcceptedBlock now block l.node with
    | error err n => simp only [hrun] at hnext; cases hnext
    | ok u n =>
      simp only [hrun] at hnext
      cases hnext
      exact ⟨by rw [hcount]; simp [Outcome.counted, outcome, Outcome.steps],
        congrArg UInt64.toNat (applyAcceptedBlock_currentHeight hrun)⟩

/-- The count is the first height plus one for each turn and one for each built block. -/
theorem Run.heights (h : Run n events os l) :
    l.height.toNat = Outcome.counted n.currentHeight.toNat os ∧
      l.node.currentHeight.toNat = Outcome.tip n.currentHeight.toNat os := by
  induction h with
  | start => exact ⟨UInt64.toNat_add _ _, rfl⟩
  | step e _ hnext ih => exact LoopEvent.next_heights hnext ih.1 ih.2

theorem Run.sum_steps_le (h : Run n events os l) :
    (os.map Outcome.steps).sum ≤ 2 * events.length := by
  induction h with
  | start => exact Nat.le_refl _
  | @step events os l l' e _ _ ih =>
    have hle : (e.outcome l).steps ≤ 2 := by
      cases e.outcome l <;> simp [Outcome.steps]
    rw [List.map_cons, List.sum_cons, List.length_cons]
    omega

theorem extendsTip_iff_of_produces (h : l.Produces clock block) :
    l.node.ExtendsTip block ↔ l.height.toNat = l.node.currentHeight.toNat + 1 := by
  obtain ⟨-, n', hpropose⟩ := h
  have hproposed := proposeBlock_eq_ok hpropose
  rw [ExtendsTip, hproposed.height_eq, and_iff_left hproposed.previousHash_eq]

/-- The blocks of a run extend the tip exactly when, at each turn that produces one, the first
height plus the turns and blocks so far is the height of the block built or adopted last. Short
of 2^64 heights that means that the turn is the first thing to happen, or that the last block
was adopted from the network, at just that height. -/
theorem production_iff (n : Node) (events : List LoopEvent) :
    (ProducesChain n events ↔ ∀ later clock earlier os l, events = later ++ .turn clock :: earlier →
      Run n earlier os l → (∃ block, l.Produces clock block) →
        Outcome.counted n.currentHeight.toNat os = Outcome.tip n.currentHeight.toNat os + 1) ∧
    (n.currentHeight.toNat + 2 * events.length < 2 ^ 64 →
      (ProducesChain n events ↔
        ∀ later clock earlier os l, events = later ++ .turn clock :: earlier →
          Run n earlier os l → (∃ block, l.Produces clock block) →
            Outcome.Follows n.currentHeight.toNat os)) := by
  have hiff : ProducesChain n events ↔
      ∀ later clock earlier os l, events = later ++ .turn clock :: earlier →
      Run n earlier os l → (∃ block, l.Produces clock block) →
        Outcome.counted n.currentHeight.toNat os = Outcome.tip n.currentHeight.toNat os + 1 := by
    constructor
    · rintro h later clock earlier os l hevents hrun ⟨block, hblock⟩
      have hextends := h later clock earlier os l block hevents hrun hblock
      rw [extendsTip_iff_of_produces hblock, hrun.heights.1, hrun.heights.2] at hextends
      exact hextends
    · intro h later clock earlier os l block hevents hrun hblock
      rw [extendsTip_iff_of_produces hblock, hrun.heights.1, hrun.heights.2]
      exact h later clock earlier os l hevents hrun ⟨block, hblock⟩
  refine ⟨hiff, fun hfits => hiff.trans ?_⟩
  refine forall₅_congr fun later clock earlier os l => forall₃_congr fun hevents hrun _ => ?_
  refine Outcome.counted_eq_tip_iff ?_
  have hsteps := hrun.sum_steps_le
  have hlength := congrArg List.length hevents
  rw [List.length_append, List.length_cons] at hlength
  omega

end

open Sample

def besideNode (kp : KeyPair) (other : Address) : Node :=
  { loneNode kp with cfg := ⟨[kp.address, other], 1, 10, 10, 0⟩ }

theorem besideNode_produces (kp : KeyPair) (other : Address) :
    ∃ block, (⟨2, besideNode kp other⟩ : Loop).Produces stoppedClock block := by
  obtain ⟨start, s1, hstart, hactive⟩ :=
    startBlock_singleRegistry (show (2 : UInt64) % 100 ≠ 0 by decide) (validatorOf kp) rfl
  obtain ⟨block, n1, hpropose, -⟩ := @proposeBlock_empty _ (besideNode kp other) stoppedClock 2
    kp.address kp _ _ _ rfl takeTxs_new hstart hactive
  have hlisted : proposerAtHeight 2 [kp.address, other] = .ok kp.address :=
    proposerAtHeight_eq_ok.2 (by simp)
  exact ⟨block, hlisted, n1, hpropose⟩

/-- The turn of the other validator is counted although nothing came of it. -/
theorem besideNode_waits : (LoopEvent.turn stoppedClock).next
    (.start (besideNode (walletOf []) (FixedBytes.copy 20 [1]))) =
      some ⟨2, besideNode (walletOf []) (FixedBytes.copy 20 [1])⟩ := rfl

theorem height_skipped :
    ¬ ∀ (_ : Crypto) (n : Node) (events : List LoopEvent), ProducesChain n events := by
  intro h
  obtain ⟨block, hblock⟩ := besideNode_produces (walletOf []) (FixedBytes.copy 20 [1])
  have hextends := h sampleCrypto _ [.turn stoppedClock, .turn stoppedClock] [] _ _ _ _ block rfl
    (.step _ .start besideNode_waits) hblock
  exact absurd ((extendsTip_iff_of_produces hblock).1 hextends) (by decide)

end Node

end Dsn
