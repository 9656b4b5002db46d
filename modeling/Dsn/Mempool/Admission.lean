import Dsn.Mempool.Pool

/-!
# What the pool admits

Runs of the pool and the checks that a submitted transaction has passed.
-/

namespace Dsn

open Go InMemoryState

variable {s : InMemoryState} {tx : Transaction} {mp : Mempool}

variable [Crypto]

/-! ### Runs of the pool -/

inductive PoolCall
  | submit (clock : Mempool.SubmitClock) (dbErr : Option Error) (tx : Option Transaction)
  | remove (dbOk : Bool) (intentID : Hash)
  | pendingTxs (now later : Hash → ℤ)

def PoolCall.run (s : InMemoryState) : PoolCall → Mempool → Mempool
  | .submit clock dbErr tx, mp => finalState (mp.submit s clock dbErr tx)
  | .remove dbOk intentID, mp => mp.remove dbOk intentID
  | .pendingTxs now later, mp => (mp.pendingTxs now later).2

def runPool (s : InMemoryState) (calls : List PoolCall) (mp : Mempool) : Mempool :=
  calls.foldl (fun mp c => c.run s mp) mp

/-! ### What `Submit` checks -/

structure Follows (s : InMemoryState) (mp : Mempool) (tx : Transaction) (expected : UInt64) :
    Prop where
  nonce_eq : tx.nonce = expected + 1
  known : ∀ n, mp.nextNonce[tx.sender]? = some n → n ≠ 0 → expected = n
  unknown : (mp.nextNonce[tx.sender]?).getD 0 = 0 → ∃ acc, s.accounts[tx.sender]? = some acc ∧
    expected = acc.nonce ∧ Mempool.signatureValid tx acc = true ∧
    tx.maxFee.toNat + stakeOf tx ≤ acc.balance.val

structure Accepts (s : InMemoryState) (now : UInt64) (mp : Mempool) (tx : Transaction)
    (expected : UInt64) : Prop where
  valid : tx.validate now = .ok ()
  message : Mempool.checkMessage tx = .ok ()
  room : (mp.txs.size : ℤ) < mp.maxSize
  fresh : mp.txs[tx.intentID]? = none
  follows : Follows s mp tx expected

theorem checkSender_eq_ok {n : UInt64} :
    Mempool.checkSender tx s = .ok n ↔ ∃ acc, s.accounts[tx.sender]? = some acc ∧ n = acc.nonce ∧
      Mempool.signatureValid tx acc = true ∧ tx.maxFee.toNat + stakeOf tx ≤ acc.balance.val := by
  unfold Mempool.checkSender
  simp only [except_bind_eq_ok, mapError_eq_ok, check_eq_ok, getAccount_eq_ok, Bool.not_eq_false,
    not_lt]
  constructor
  · rintro ⟨acc, hacc, _, hsig, _, hbal, h⟩
    cases h
    exact ⟨acc, hacc, rfl, hsig, hbal⟩
  · rintro ⟨acc, hacc, rfl, hsig, hbal⟩
    exact ⟨acc, hacc, (), hsig, (), hbal, rfl⟩

theorem expectedNonce_eq_ok {expected : UInt64} (hnonce : tx.nonce = expected + 1) :
    mp.expectedNonce s tx = .ok expected ↔ Follows s mp tx expected := by
  unfold Mempool.expectedNonce
  cases hn : mp.nextNonce[tx.sender]? with
  | none =>
    rw [Option.getD_none, if_pos rfl, checkSender_eq_ok]
    refine ⟨fun h => ⟨hnonce, fun n h' => ?_, fun _ => h⟩, fun h => h.unknown (by rw [hn]; rfl)⟩
    rw [hn] at h'
    cases h'
  | some n =>
    dsimp only
    split_ifs with hzero
    · rw [checkSender_eq_ok]
      refine ⟨fun h => ⟨hnonce, fun m hm hne => ?_, fun _ => h⟩,
        fun h => h.unknown (by rw [hn, Option.getD_some]; exact hzero)⟩
      cases hn.symm.trans hm
      exact absurd hzero hne
    · constructor
      · intro h
        cases h
        refine ⟨hnonce, fun m hm _ => Option.some.inj (hn.symm.trans hm), fun h0 => ?_⟩
        rw [hn] at h0
        exact absurd h0 hzero
      · exact fun h => congrArg Except.ok (h.known n hn hzero).symm

variable {clock : Mempool.SubmitClock}

theorem submit_of_accepts {dbErr : Option Error} {expected : UInt64}
    (h : Accepts s clock.now mp tx expected) : Mempool.submit s clock dbErr (some tx) mp =
      Mempool.persist dbErr tx (mp.add tx clock.submitted) := by
  have hfresh : ¬ (mp.txs[tx.intentID]?).isSome = true := by
    rw [h.fresh]
    exact Bool.false_ne_true
  have hexpected := (expectedNonce_eq_ok h.follows.nonce_eq).2 h.follows
  show ((ofResult (tx.validate clock.now) : Exec Mempool Unit) >>= _) mp = _
  rw [ofResult_bind h.valid, ofResult_bind h.message, get_bind, failIf_bind (not_le.2 h.room),
    failIf_bind hfresh, ofResult_bind hexpected, failIf_bind (not_not.2 h.follows.nonce_eq),
    modify_bind]

theorem submit_of_not_accepts (dbErr : Option Error)
    (h : ¬ ∃ expected, Accepts s clock.now mp tx expected) :
    ∃ e, Mempool.submit s clock dbErr (some tx) mp = .error e mp := by
  show ∃ e, ((ofResult (tx.validate clock.now) : Exec Mempool Unit) >>= _) mp = .error e mp
  cases hvalid : tx.validate clock.now with
  | error e => exact ⟨e, rfl⟩
  | ok u =>
  cases hmessage : Mempool.checkMessage tx with
  | error e => exact ⟨e, rfl⟩
  | ok u' =>
  rw [ofResult_bind rfl, ofResult_bind rfl, get_bind]
  by_cases hroom : (mp.txs.size : ℤ) ≥ mp.maxSize
  · exact ⟨_, bind_eq_error_of (failIf_of _ hroom _)⟩
  rw [failIf_bind hroom]
  by_cases hfresh : (mp.txs[tx.intentID]?).isSome = true
  · exact ⟨_, bind_eq_error_of (failIf_of _ hfresh _)⟩
  rw [failIf_bind hfresh]
  cases hexpected : mp.expectedNonce s tx with
  | error e => exact ⟨e, rfl⟩
  | ok expected =>
  rw [ofResult_bind rfl]
  by_cases hnonce : tx.nonce ≠ expected + 1
  · exact ⟨_, bind_eq_error_of (failIf_of _ hnonce _)⟩
  rw [not_not] at hnonce
  rw [Bool.not_eq_true, Option.isSome_eq_false_iff, Option.isNone_iff_eq_none] at hfresh
  exact absurd ⟨expected, hvalid, hmessage, not_le.1 hroom, hfresh,
    (expectedNonce_eq_ok hnonce).1 hexpected⟩ h

end Dsn
