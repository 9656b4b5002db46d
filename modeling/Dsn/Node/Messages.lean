import Dsn.Consensus.Relay
import Dsn.Node.Commit

/-!
# What becomes of a block message

`handleBlockMessage` first raises the finalized height to six below the height that the message
declares, then drops the block if it is not above that height or if the fork rule keeps the current
chain, and otherwise validates it on the state of the node itself. The lemmas here say what node
each of these outcomes leaves.
-/

namespace Dsn

open Go InMemoryState

section

variable [Crypto] {block : Block} {now : ℕ → UInt64} {s' : InMemoryState}

namespace Node

variable {n : Node} {clock : MessageClock} {data : Bytes}

/-- The fork rule keeps the current chain. -/
def Outweighed (block : Block) (n : Node) : Prop :=
  forkWeight block.header.height n.currentHeight < forkWeight n.currentHeight n.currentHeight ∨
    forkWeight block.header.height n.currentHeight = forkWeight n.currentHeight n.currentHeight ∧
      block.header.height ≤ n.currentHeight

/-- The hash that `PreviousHash` is compared with. -/
def expectedParent (block : Block) (n : Node) : Hash :=
  n.parentHash (if block.header.previousHash ≠ n.currentTipHash then zeroHash else n.currentTipHash)
    block.header.height

/-- The parent header that a node makes up from the block's own header. -/
def madeUpParent (block : Block) : BlockHeader :=
  { zeroHeader with
    height := block.header.height - 1
    previousHash := block.header.previousHash }

/-- The block of a message gets as far as `ValidateBlock`. -/
structure Validates (block : Block) (n : Node) : Prop where
  above : ¬ block.header.height ≤ n.finalizedHeight
  chosen : block.header.previousHash ≠ n.currentTipHash → ¬ Outweighed block n

/-! ### One message -/

omit [Crypto] in
theorem raiseFinalized_eq (block : Block) (n : Node) :
    raiseFinalized block n =
      { n with finalizedHeight := (raiseFinalized block n).finalizedHeight } := by
  unfold raiseFinalized
  split <;> rfl

theorem expectedParent_raise : (raiseFinalized block n).expectedParent block =
    n.expectedParent block := by
  rw [raiseFinalized_eq]
  rfl

variable {e : Error}

theorem handleBlockMessage_undecodable (h : decodeBlockMessage data = .error e) :
    handleBlockMessage clock data n = .ok () n := by
  unfold handleBlockMessage
  rw [h]
  rfl

omit [Crypto] in
theorem raise_state : (raiseFinalized block n).state = n.state := by
  rw [raiseFinalized_eq]

theorem tryBlock_eq {default : Hash}
    (h : (raiseFinalized block n).parentHash default block.header.height =
      n.expectedParent block) :
    tryBlock now default block (raiseFinalized block n) =
      attempt (onState (validateBlock block (madeUpParent block) (n.expectedParent block) n.vm now))
        (raiseFinalized block n) := by
  have hvm : (raiseFinalized block n).vm = n.vm := by rw [raiseFinalized_eq]
  unfold tryBlock
  rw [get_bind, h, hvm]
  rfl

omit [Crypto] in
theorem Validates.height_pos (h : Validates block n) : block.header.height > 0 :=
  UInt64.lt_of_le_of_lt UInt64.zero_le (UInt64.not_le.1 h.above)

variable (hdecode : decodeBlockMessage data = .ok block)
include hdecode

theorem handleBlockMessage_dropped (h : ¬ Validates block (raiseFinalized block n)) :
    handleBlockMessage clock data n = .ok () (raiseFinalized block n) := by
  unfold handleBlockMessage
  rw [hdecode]
  refine bind_eq_ok.2 ⟨(), _, rfl, bind_eq_ok.2 ⟨_, _, get_eq_ok.2 ⟨rfl, rfl⟩, ?_⟩⟩
  by_cases habove : block.header.height ≤ (raiseFinalized block n).finalizedHeight
  · rw [if_pos habove]
    rfl
  rw [if_neg habove]
  by_cases hfork : block.header.previousHash ≠ (raiseFinalized block n).currentTipHash
  · have hkeeps : Outweighed block (raiseFinalized block n) :=
      by_contra fun hkeeps => h ⟨habove, fun _ => hkeeps⟩
    rw [if_pos hfork]
    exact bind_eq_ok.2 ⟨_, _, get_eq_ok.2 ⟨rfl, rfl⟩, congrFun (if_pos hkeeps) _⟩
  · exact absurd ⟨habove, fun hne => absurd hne hfork⟩ h

variable (h : Validates block (raiseFinalized block n))
include h

theorem handleBlockMessage_validated {r : EStateM.Result Error Node Unit}
    (hr : ∀ (default : Hash) (k : Except Error Unit → Exec Node Unit),
      (raiseFinalized block n).parentHash default block.header.height = n.expectedParent block →
      (∀ e, k (.error e) = pure ()) →
      (tryBlock clock.txTime default block >>= k) (raiseFinalized block n) = r) :
    handleBlockMessage clock data n = r := by
  have hparent := @expectedParent_raise _ block n
  unfold expectedParent at hparent
  unfold handleBlockMessage
  rw [hdecode]
  dsimp only
  rw [modify_bind, get_bind, if_neg h.above]
  split_ifs with hfork
  · rw [if_pos hfork] at hparent
    unfold handleFork
    exact (congrFun (if_neg (h.chosen hfork)) _).trans (hr zeroHash _ hparent fun e => rfl)
  · rw [if_neg hfork] at hparent
    unfold extendTip
    exact hr _ _ hparent fun e => rfl

variable (hval : validateBlock block (madeUpParent block) (n.expectedParent block) n.vm clock.txTime
  n.state = .error e s')
include hval

theorem handleBlockMessage_invalid (he : e.isPanic = false) :
    handleBlockMessage clock data n = .ok () { raiseFinalized block n with state := s' } := by
  refine handleBlockMessage_validated hdecode h fun default k hparent hk => ?_
  rw [← @raise_state block n] at hval
  have htry : tryBlock clock.txTime default block (raiseFinalized block n) =
      .ok (.error e) { raiseFinalized block n with state := s' } :=
    (tryBlock_eq hparent).trans (attempt_of_error (onPart_of_error hval) he)
  rw [bind_eq_ok_of htry, hk]
  rfl

theorem handleBlockMessage_panics (he : e.isPanic = true) :
    handleBlockMessage clock data n = .error e { raiseFinalized block n with state := s' } := by
  rw [← @raise_state block n] at hval
  refine handleBlockMessage_validated hdecode h fun default k hparent _ => bind_eq_error_of ?_
  exact (tryBlock_eq hparent).trans (attempt_of_panic (onPart_of_error hval) he)

end Node

end

open Sample

def sampleClock : Node.MessageClock := ⟨fun _ => 0, 0⟩

end Dsn
