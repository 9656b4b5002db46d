import Dsn.Lib.Guarded
import Dsn.Node.Messages

/-!
# Finality under arbitrary messages

No message moves the tip, but every decoded one above height 6 sets the finalized height.
-/

namespace Dsn

open Go InMemoryState

namespace Node

variable [Crypto]

abbrev Message := MessageClock × Bytes

def deliver (msg : Message) (n : Node) : Node := finalState (handleBlockMessage msg.1 msg.2 n)

def Accepts (msg : Message) (n : Node) (block : Block) : Prop :=
  decodeBlockMessage msg.2 = .ok block ∧ Validates block (raiseFinalized block n) ∧
    ∃ s', validateBlock block (madeUpParent block) (n.expectedParent block) n.vm msg.1.txTime
      n.state = .ok () s'

def ExtendsTip (n : Node) (block : Block) : Prop :=
  block.header.height.toNat = n.currentHeight.toNat + 1 ∧
    block.header.previousHash = n.currentTipHash

def Reorganizes (n : Node) (block : Block) : Prop :=
  block.header.previousHash ≠ n.currentTipHash ∧ n.finalizedHeight < block.header.height

/-- What a message may do to the tip and the finalized height. -/
structure KeepsFinality (msg : Message) (n : Node) : Prop where
  accepted : ∀ block, Accepts msg n block → n.ExtendsTip block ∨ n.Reorganizes block
  moved : (deliver msg n).currentHeight ≠ n.currentHeight →
    n.finalizedHeight < (deliver msg n).currentHeight
  monotone : n.finalizedHeight ≤ (deliver msg n).finalizedHeight
  bounded : (deliver msg n).finalizedHeight ≤ (deliver msg n).currentHeight

/-- The height finalized by the message is between those of the node. -/
def Orderly (msg : Message) (n : Node) : Prop :=
  ∀ block, decodeBlockMessage msg.2 = .ok block → block.header.height > 6 →
    n.finalizedHeight ≤ block.header.height - 6 ∧ block.header.height - 6 ≤ n.currentHeight

variable {n : Node} {msg : Message} {block : Block}

theorem not_accepts : ¬ Accepts msg n block := by
  rintro ⟨hdecode, hv, s', hval⟩
  exact validateBlock_received hdecode (UInt64.ne_of_lt hv.height_pos).symm hval

theorem deliver_undecodable {e : Error} (h : decodeBlockMessage msg.2 = .error e) :
    deliver msg n = n :=
  congrArg finalState (handleBlockMessage_undecodable h)

theorem deliver_decoded (h : decodeBlockMessage msg.2 = .ok block) :
    ∃ s', deliver msg n = { raiseFinalized block n with state := s' } := by
  by_cases hv : Validates block (raiseFinalized block n)
  · cases hval : validateBlock block (madeUpParent block) (n.expectedParent block) n.vm
        msg.1.txTime n.state with
    | ok u s' => exact absurd ⟨h, hv, s', hval⟩ not_accepts
    | error e s' =>
      cases he : e.isPanic with
      | false => exact ⟨s', congrArg finalState (handleBlockMessage_invalid h hv hval he)⟩
      | true => exact ⟨s', congrArg finalState (handleBlockMessage_panics h hv hval he)⟩
  · exact ⟨_, congrArg finalState (handleBlockMessage_dropped h hv)⟩

theorem deliver_currentHeight (msg : Message) (n : Node) :
    (deliver msg n).currentHeight = n.currentHeight := by
  cases h : decodeBlockMessage msg.2 with
  | error e => rw [deliver_undecodable h]
  | ok block =>
    obtain ⟨s', hs'⟩ := deliver_decoded (n := n) h
    rw [hs', raiseFinalized_eq]

theorem deliver_finalizedHeight (h : decodeBlockMessage msg.2 = .ok block) :
    (deliver msg n).finalizedHeight = (raiseFinalized block n).finalizedHeight := by
  obtain ⟨s', hs'⟩ := deliver_decoded (n := n) h
  rw [hs']

theorem keepsFinality_iff_orderly (h : n.finalizedHeight ≤ n.currentHeight) :
    KeepsFinality msg n ↔ Orderly msg n := by
  constructor
  · intro hk block hdecode hheight
    have hmono := hk.monotone
    have hbound := hk.bounded
    rw [deliver_finalizedHeight hdecode, raiseFinalized, if_pos hheight] at hmono hbound
    rw [deliver_currentHeight] at hbound
    exact ⟨hmono, hbound⟩
  · intro ho
    have hheights : n.finalizedHeight ≤ (deliver msg n).finalizedHeight ∧
        (deliver msg n).finalizedHeight ≤ n.currentHeight := by
      cases hdecode : decodeBlockMessage msg.2 with
      | error e =>
        rw [deliver_undecodable hdecode]
        exact ⟨UInt64.le_refl _, h⟩
      | ok block =>
        rw [deliver_finalizedHeight hdecode, raiseFinalized]
        split_ifs with hheight
        · exact ho block hdecode hheight
        · exact ⟨UInt64.le_refl _, h⟩
    refine ⟨fun block ha => absurd ha not_accepts, fun hmoved => ?_, hheights.1, ?_⟩
    · exact absurd (deliver_currentHeight msg n) hmoved
    · rw [deliver_currentHeight]
      exact hheights.2

/-- Chain and finality are kept exactly when every message is orderly. -/
theorem finality_iff (h : n.finalizedHeight ≤ n.currentHeight) (msgs : List Message) :
    Guarded.Runs KeepsFinality deliver n msgs ↔ Guarded.Runs Orderly deliver n msgs := by
  induction msgs generalizing n with
  | nil => exact Iff.rfl
  | cons msg msgs ih =>
    rw [Guarded.Runs, keepsFinality_iff_orderly h]
    refine and_congr_right fun ho => ih ?_
    -- the bound is part of what the first message keeps
    exact ((keepsFinality_iff_orderly h).2 ho).bounded

/-- The height that the last decodable block above height 6 declares final. -/
def declaredFinal (msgs : List Message) (height : UInt64) : UInt64 :=
  msgs.foldl (fun final msg => match decodeBlockMessage msg.2 with
    | .ok block => if block.header.height > 6 then block.header.height - 6 else final
    | .error _ => final) height

/-- No message moves the tip or reaches the database; each may move the finalized height. -/
theorem messages_adopt_nothing (msgs : List Message) (n : Node) : ∃ s',
    msgs.foldl (fun n msg => deliver msg n) n =
      { n with state := s', finalizedHeight := declaredFinal msgs n.finalizedHeight } := by
  induction msgs generalizing n with
  | nil => exact ⟨n.state, rfl⟩
  | cons msg msgs ih =>
    obtain ⟨s', hrest⟩ := ih (deliver msg n)
    refine ⟨s', hrest.trans ?_⟩
    cases h : decodeBlockMessage msg.2 with
    | error e => simp only [deliver_undecodable h, declaredFinal, List.foldl_cons, h]
    | ok block =>
      obtain ⟨s₁, hs₁⟩ := deliver_decoded (n := n) h
      have hraised : (raiseFinalized block n).finalizedHeight =
          if block.header.height > 6 then block.header.height - 6 else n.finalizedHeight :=
        apply_ite Node.finalizedHeight _ _ _
      rw [hs₁, raiseFinalized_eq, hraised]
      simp only [declaredFinal, List.foldl_cons, h]

end Node

open Sample

def blockAt (height : UInt64) : Block :=
  ⟨{ zeroHeader with height := height }, [], newFeeSummary 0, [], none, [], []⟩

theorem exists_messageAt (height : UInt64) :
    ∃ data received, decodeBlockMessage data = .ok received ∧ received.header.height = height := by
  obtain ⟨data, hdata⟩ : ∃ data, encodeBlockMessage (blockAt height) = .ok data := ⟨_, rfl⟩
  have hcodec : WithinCodec (blockAt height) := ⟨by simp [blockAt], by simp [blockAt]⟩
  exact ⟨data, _, hcodec.decode_message (Nat.zero_le _) hdata, rfl⟩

def newNode : Node := Node.initial sampleConfig none freshPersistent

theorem finalized_above_tip : ¬ ∀ (_ : Crypto) (n : Node) (msgs : List Node.Message),
    n.persistent.isSome = true → n.finalizedHeight ≤ n.currentHeight →
    Guarded.Runs Node.KeepsFinality Node.deliver n msgs := by
  intro h
  obtain ⟨data, received, hdecode, hheight⟩ := exists_messageAt 8
  have hkeeps := (h sampleCrypto newNode [(sampleClock, data)] rfl (by decide)).1
  have hbound := hkeeps.bounded
  rw [Node.deliver_finalizedHeight hdecode, Node.deliver_currentHeight, Node.raiseFinalized,
    hheight] at hbound
  exact absurd hbound (by decide)

/-- At height 9 the blocks 8 and 9 finalize the heights 2 and 3. -/
theorem finality_two_blocks : ∃ first second : Bytes,
    Guarded.Runs Node.KeepsFinality Node.deliver { newNode with currentHeight := 9 }
      [(sampleClock, first), (sampleClock, second)] := by
  obtain ⟨first, block, hfirst, h8⟩ := exists_messageAt 8
  obtain ⟨second, block', hsecond, h9⟩ := exists_messageAt 9
  refine ⟨first, second, (Node.finality_iff (by decide) _).2 ⟨?_, ?_, trivial⟩⟩
  · intro b hb _
    cases hfirst.symm.trans hb
    rw [h8]
    decide
  · intro b hb _
    cases hsecond.symm.trans hb
    rw [Node.deliver_finalizedHeight hfirst, Node.deliver_currentHeight, Node.raiseFinalized, h8, h9]
    decide

end Dsn
