import Dsn.Mempool.Contents

/-!
# Can a sender be locked out?

The pool remembers the next nonce of a sender after the transaction that set it is gone.
-/

namespace Dsn

open Go InMemoryState

section

variable [Crypto] {s : InMemoryState} {mp : Mempool} {tx : Transaction}

noncomputable def PoolCall.takes (s : InMemoryState) : PoolCall → Mempool → List Transaction
  | .submit clock _ (some tx), mp =>
    have := Classical.propDecidable (∃ expected, Accepts s clock.now mp tx expected)
    if ∃ expected, Accepts s clock.now mp tx expected then [tx] else []
  | .submit _ _ none, _ | .remove _ _, _ | .pendingTxs _ _, _ => []

noncomputable def intake : List (InMemoryState × PoolCall) → Mempool → List Transaction
  | [], _ => []
  | e :: calls, mp => e.2.takes e.1 mp ++ intake calls (stepOver e mp)

def lastOf (a : Address) (txs : List Transaction) : Option Transaction :=
  (txs.filter fun tx => tx.sender = a).getLast?

theorem PoolCall.run_nextNonce (c : PoolCall) (s : InMemoryState) (mp : Mempool) (a : Address) :
    (c.run s mp).nextNonce[a]? =
      ((lastOf a (c.takes s mp)).map Transaction.nonce).or mp.nextNonce[a]? := by
  cases c with
  | submit clock dbErr tx? =>
    cases tx? with
    | none => rfl
    | some tx =>
      have hadd : (mp.add tx clock.submitted).nextNonce[a]? =
          ((lastOf a [tx]).map Transaction.nonce).or mp.nextNonce[a]? := by
        show (mp.nextNonce.insert tx.sender tx.nonce)[a]? = _
        rw [Map.get_insert]
        by_cases ha : tx.sender = a <;> simp [lastOf, ha]
      rcases submit_cases s clock dbErr tx mp with
        ⟨hno, hrun⟩ | ⟨expected, hacc, ⟨-, hrun⟩ | ⟨-, hrun⟩⟩
      · rw [hrun, PoolCall.takes, if_neg hno]
        rfl
      · rw [hrun, PoolCall.takes, if_pos ⟨expected, hacc⟩, written_nextNonce, hadd]
      · rw [hrun, PoolCall.takes, if_pos ⟨expected, hacc⟩, ← hadd]
        rfl
  | remove dbOk id =>
    show (mp.remove dbOk id).nextNonce[a]? = mp.nextNonce[a]?
    unfold Mempool.remove
    split_ifs <;> rfl
  | pendingTxs now later =>
    show (mp.expire now).nextNonce[a]? = mp.nextNonce[a]?
    rw [(expire_rest now mp).2.1]

omit [Crypto] in
theorem lastOf_append (a : Address) (l l' : List Transaction) :
    lastOf a (l ++ l') = (lastOf a l').or (lastOf a l) := by
  unfold lastOf
  rw [List.filter_append, List.getLast?_append]

theorem runOver_nextNonce (calls : List (InMemoryState × PoolCall)) (mp : Mempool) (a : Address) :
    (runOver calls mp).nextNonce[a]? =
      ((lastOf a (intake calls mp)).map Transaction.nonce).or mp.nextNonce[a]? := by
  induction calls generalizing mp with
  | nil => rfl
  | cons e calls ih =>
    have hstep : (stepOver e mp).nextNonce[a]? = _ := PoolCall.run_nextNonce e.2 e.1 mp a
    show (runOver calls (stepOver e mp)).nextNonce[a]? = _
    rw [ih, intake, lastOf_append, hstep, Option.map_or, Option.or_assoc]

theorem nonce_ne_zero_of_intake {calls : List (InMemoryState × PoolCall)}
    (h : tx ∈ intake calls mp) : tx.nonce ≠ 0 := by
  induction calls generalizing mp with
  | nil => cases h
  | cons e calls ih =>
    obtain ⟨s, c⟩ := e
    rcases List.mem_append.1 h with h | h
    · cases c with
      | submit clock dbErr tx? =>
        cases tx? with
        | none => cases h
        | some tx' =>
          rw [PoolCall.takes] at h
          split_ifs at h with hacc
          · obtain ⟨expected, hacc⟩ := hacc
            rw [List.mem_singleton.1 h]
            exact (Transaction.validate_eq_ok.1 hacc.valid).1
          · cases h
      | remove dbOk id => cases h
      | pendingTxs now later => cases h
    · exact ih h

structure Submittable (s : InMemoryState) (now : UInt64) (tx : Transaction) (acc : Account) :
    Prop where
  found : s.accounts[tx.sender]? = some acc
  nonce_eq : tx.nonce = acc.nonce + 1
  valid : tx.validate now = .ok ()
  message : Mempool.checkMessage tx = .ok ()
  signed : Mempool.signatureValid tx acc = true
  funded : tx.maxFee.toNat + stakeOf tx ≤ acc.balance.val

theorem Submittable.accepts_iff {now : UInt64} {acc : Account} (h : Submittable s now tx acc)
    (hroom : (mp.txs.size : ℤ) < mp.maxSize) : (∃ expected, Accepts s now mp tx expected) ↔
      (∀ n, mp.nextNonce[tx.sender]? = some n → n ≠ 0 → n = acc.nonce) ∧
        mp.txs[tx.intentID]? = none := by
  constructor
  · rintro ⟨expected, hacc⟩
    refine ⟨fun n hn hne => ?_, hacc.fresh⟩
    have hexpected := hacc.follows.known n hn hne
    have hnext := hacc.follows.nonce_eq
    rw [h.nonce_eq, hexpected] at hnext
    exact (UInt64.add_left_inj 1).1 hnext.symm
  · rintro ⟨hknown, hfresh⟩
    refine ⟨acc.nonce, h.valid, h.message, hroom, hfresh, h.nonce_eq, fun n hn hne => ?_,
      fun _ => ?_⟩
    · exact (hknown n hn hne).symm
    · exact ⟨acc, h.found, rfl, h.signed, h.funded⟩

/-- When the next transaction of a sender is accepted by a pool with room. -/
theorem resubmission_accepted_iff {maxSize ttl : ℤ} {db : Option (Map Hash Bytes)}
    {calls : List (InMemoryState × PoolCall)} {clock : Mempool.SubmitClock} {dbErr : Option Error}
    {acc : Account} (h : Submittable s clock.now tx acc)
    (hmp : runOver calls (Mempool.newWithPersistence maxSize ttl db) = mp)
    (hroom : (mp.txs.size : ℤ) < mp.maxSize) :
    (∃ mp', Mempool.submit s clock dbErr (some tx) mp = .ok () mp') ↔
      (∀ t, lastOf tx.sender (intake calls (Mempool.newWithPersistence maxSize ttl db)) = some t →
        t.nonce = acc.nonce) ∧ mp.txs[tx.intentID]? = none ∧ Persists dbErr tx mp := by
  have hnonce : mp.nextNonce[tx.sender]? = (lastOf tx.sender
      (intake calls (Mempool.newWithPersistence maxSize ttl db))).map Transaction.nonce := by
    rw [← hmp, runOver_nextNonce]
    exact Option.or_none
  rw [submit_eq_ok_iff, h.accepts_iff hroom, and_assoc, hnonce]
  refine and_congr_left fun _ => ?_
  constructor
  · intro hlast t ht
    have htaken := List.mem_of_mem_filter (List.mem_of_getLast? ht)
    exact hlast t.nonce (by rw [ht]; rfl) (nonce_ne_zero_of_intake htaken)
  · intro hlast n hn _
    obtain ⟨t, ht, rfl⟩ := Option.map_eq_some_iff.1 hn
    exact hlast t ht

end

open Sample

theorem samplePayment_submittable : Submittable { newInMemoryState with accounts := sampleAccounts }
    0 samplePayment
      { newAccount zeroAddress (FixedBytes.zero 32) with balance := .ofUInt64 1000 } :=
  ⟨by decide +kernel, rfl, by decide +kernel, rfl, by decide +kernel, by decide +kernel⟩

theorem resubmission_accepted_sample : ∃ mp', Mempool.submit
    { newInMemoryState with accounts := sampleAccounts } ⟨0, 0⟩ none (some samplePayment)
      (Mempool.newWithPersistence 2 0 none) = .ok () mp' := by
  have hrun : runOver [] (Mempool.newWithPersistence 2 0 none) = _ := rfl
  refine (resubmission_accepted_iff samplePayment_submittable hrun (by decide)).2
    ⟨fun t ht => ?_, rfl, fun bucket hb => ?_⟩
  · cases ht
  · cases hb

theorem expired_payment_locks_out : ¬ ∀ (_ : Crypto) (maxSize ttl : ℤ)
    (db : Option (Map Hash Bytes)) (calls : List (InMemoryState × PoolCall)) (s : InMemoryState)
    (clock : Mempool.SubmitClock) (tx : Transaction) (acc : Account) (mp : Mempool),
      Submittable s clock.now tx acc →
        runOver calls (Mempool.newWithPersistence maxSize ttl db) = mp →
          (mp.txs.size : ℤ) < mp.maxSize → (∀ e ∈ mp.txs.toList, e.2.tx.sender ≠ tx.sender) →
            ∃ mp', Mempool.submit s clock none (some tx) mp = .ok () mp' := by
  intro h
  obtain ⟨mp', hok⟩ := h sampleCrypto 2 0 none (paymentThen (.pendingTxs (fun _ => 1) fun _ => 1))
    _ ⟨0, 1⟩ samplePayment _ _ samplePayment_submittable rfl (by decide +kernel) (by decide +kernel)
  have hfails : succeedsWith (fun _ _ => true) (Mempool.submit
      { newInMemoryState with accounts := sampleAccounts } ⟨0, 1⟩ none (some samplePayment)
        (runOver (paymentThen (.pendingTxs (fun _ => 1) fun _ => 1))
          (Mempool.newWithPersistence 2 0 none))) = false := by decide +kernel
  rw [hok] at hfails
  cases hfails

end Dsn
