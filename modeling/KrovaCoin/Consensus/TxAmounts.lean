import KrovaCoin.Consensus.TxVerify

/-!
# The amounts of a transaction (`consensus/tx_verify.cpp`, `sapling/sapling_validation.cpp`)

`CheckTransaction` adds up the outputs in an `int64_t`, over a start value that the Sapling checks leave.

* `saplingTests`, `outputTests`, `amountTests` — the tests on amounts alone, in the order of the source.
* `checkTransaction_iff_form` — the two parts together are `CheckTransaction`.

Principal result: `checkTransaction_totals_exact`.
-/

namespace KrovaCoin

open Lib

/-! ## The tests on amounts -/

/-- The tests on the value balance: the new `nValueOut`. -/
def balanceTests (p : Params) (valueBalance : Int) : Except Failure Int := do
  rejectIf (decide (valueBalance > p.nMaxMoneyOut ∨ valueBalance < -p.nMaxMoneyOut))
    (dos 100 REJECT_INVALID "bad-txns-valuebalance-toolarge")
  let nValueOut := if valueBalance < 0 then -valueBalance else 0
  rejectIf (decide (valueBalance < 0) && !p.moneyRange nValueOut) (dos 100 REJECT_INVALID "bad-txns-txouttotal-toolarge")
  rejectIf (decide (valueBalance > 0) && !p.moneyRange valueBalance)
    (dos 100 REJECT_INVALID "bad-txns-txintotal-toolarge")
  return nValueOut

def outputTests (p : Params) (nValueOut : Int) (txout : CTxOut) : Except Failure Int := do
  rejectIf (decide (txout.nValue < 0)) (dos 100 REJECT_INVALID "bad-txns-vout-negative")
  rejectIf (decide (txout.nValue > p.nMaxMoneyOut)) (dos 100 REJECT_INVALID "bad-txns-vout-toolarge")
  rejectIf (!p.moneyRange (toInt64 (nValueOut + txout.nValue))) (dos 100 REJECT_INVALID "bad-txns-txouttotal-toolarge")
  return toInt64 (nValueOut + txout.nValue)

/-- The sum that the Sapling checks leave. -/
def saplingTests (p : Params) (tx : CTransaction) : Except Failure Int :=
  if tx.hasSaplingData then balanceTests p tx.valueBalance else .ok 0

def amountTests (p : Params) (tx : CTransaction) : Except Failure Int := do
  let nValueOut ← saplingTests p tx
  tx.vout.foldlM (outputTests p) nValueOut

/-! ## The other tests -/

/-- What `SaplingValidation::CheckTransaction` tests besides amounts. -/
structure SaplingForm (tx : CTransaction) : Prop where
  version : tx.hasSaplingData = true → tx.isSaplingVersion = true
  kind : tx.hasSaplingData = true →
    (tx.isCoinStake || tx.isCoinBase || tx.hasZerocoinSpendInputs || tx.hasZerocoinMintOutputs) = false
  balance : tx.hasSaplingData = true → tx.shieldedSpends = [] → tx.shieldedOutputs = [] → tx.valueBalance = 0
  nullifiers : tx.hasSaplingData = true → (tx.shieldedSpends.map SpendDescription.nullifier).Nodup

/-- What is tested of an output besides its value. -/
def OutputForm (tx : CTransaction) (cold : Bool) (txout : CTxOut) : Prop :=
  (txout.isEmpty && !tx.isCoinBase && !tx.isCoinStake) = false ∧
    (txout.scriptPubKey.isPayToColdStaking = true → cold = true ∧ MIN_COLDSTAKING_AMOUNT ≤ txout.nValue)

/-- What `CheckTransaction` tests besides amounts. -/
structure TxForm (tx : CTransaction) (cold : Bool) : Prop where
  vin : (tx.vin.isEmpty && tx.sapData.any (·.vShieldedSpend.isEmpty) && !tx.isQuorumCommitmentTx) = false
  vout : (tx.vout.isEmpty && tx.sapData.any (·.vShieldedOutput.isEmpty) && !tx.isQuorumCommitmentTx) = false
  version : 1 ≤ tx.nVersion ∧ tx.nVersion < TXVERSION_TOOHIGH
  size : tx.getTotalSize ≤ if tx.isShieldedTx then MAX_TX_SIZE_AFTER_SAPLING else MAX_STANDARD_TX_SIZE
  sapling : SaplingForm tx
  outputs : ∀ txout ∈ tx.vout, OutputForm tx cold txout
  nodup : (tx.vin.map CTxIn.prevout).Nodup
  inputs : checkTxIns tx = .ok ()

section

variable {p : Params} {tx : CTransaction} {cold : Bool}

theorem balanceTests_eq_ok {valueBalance nValueOut : Int} : balanceTests p valueBalance = .ok nValueOut ↔
      |valueBalance| ≤ p.nMaxMoneyOut ∧ nValueOut = if valueBalance < 0 then -valueBalance else 0 := by
  simp only [balanceTests, bind_eq_ok, rejectIf_eq_ok, exists_and_left, exists_const, pure_eq_ok,
    decide_eq_false_iff_not, Bool.and_eq_false_iff, Bool.not_eq_false', Params.moneyRange_iff, abs_le]
  constructor
  · rintro ⟨hrange, -, -, rfl⟩
    exact ⟨by omega, rfl⟩
  · rintro ⟨hrange, rfl⟩
    refine ⟨by omega, ?_, ?_, rfl⟩
    · by_cases hneg : valueBalance < 0
      · omega
      · exact .inl hneg
    · omega

theorem checkTxOut_iff_form {nValueOut r : Int} {txout : CTxOut} :
    checkTxOut p tx cold nValueOut txout = .ok r ↔ OutputForm tx cold txout ∧ outputTests p nValueOut txout = .ok r := by
  simp only [checkTxOut, outputTests, OutputForm, bind_eq_ok, rejectIf_eq_ok, exists_and_left, exists_const, pure_eq_ok,
    decide_eq_false_iff_not]
  cases hp2cs : txout.scriptPubKey.isPayToColdStaking with
  | false =>
    simp only [Bool.false_and, Bool.false_eq_true, false_implies, true_and, and_true]
  | true =>
    simp only [Bool.true_and, Bool.not_eq_false', decide_eq_false_iff_not, true_implies, not_lt]
    constructor
    · rintro ⟨hempty, hneg, hlarge, hrange, hcold, hmin, hr⟩
      exact ⟨⟨hempty, hcold, hmin⟩, hneg, hlarge, hrange, hr⟩
    · rintro ⟨⟨hempty, hcold, hmin⟩, hneg, hlarge, hrange, hr⟩
      exact ⟨hempty, hneg, hlarge, hrange, hcold, hmin, hr⟩

theorem saplingCheckTransaction_iff_form {nValueOut : Int} : saplingCheckTransaction p tx = .ok nValueOut ↔
      SaplingForm tx ∧ saplingTests p tx = .ok nValueOut := by
  unfold saplingTests
  cases hdata : tx.hasSaplingData with
  | false =>
    have hform : SaplingForm tx := by
      constructor <;> simp [hdata]
    simp [saplingCheckTransaction, hdata, rejectIf, hform]
  | true =>
    obtain ⟨d, hd⟩ : ∃ d, tx.sapData = some d := by
      cases hd : tx.sapData with
      | none => simp [CTransaction.hasSaplingData, hd] at hdata
      | some d => exact ⟨d, rfl⟩
    have hform : SaplingForm tx ↔ tx.isSaplingVersion = true ∧
        (tx.isCoinStake || tx.isCoinBase || tx.hasZerocoinSpendInputs || tx.hasZerocoinMintOutputs) = false ∧
        (d.vShieldedSpend.isEmpty && d.vShieldedOutput.isEmpty && d.valueBalance != 0) = false ∧
        (d.vShieldedSpend.map SpendDescription.nullifier).Nodup := by
      have hbalance : (d.vShieldedSpend.isEmpty && d.vShieldedOutput.isEmpty && d.valueBalance != 0) = false ↔
          (d.vShieldedSpend = [] → d.vShieldedOutput = [] → d.valueBalance = 0) := by
        simp [List.isEmpty_iff]
      rw [hbalance]
      constructor
      · rintro ⟨hversion, hkind, hbal, hnodup⟩
        simp only [hdata, CTransaction.shieldedSpends, CTransaction.shieldedOutputs, CTransaction.valueBalance, hd,
          true_implies] at hversion hkind hbal hnodup
        exact ⟨hversion, hkind, hbal, hnodup⟩
      · rintro ⟨hversion, hkind, hbal, hnodup⟩
        refine ⟨fun _ => hversion, fun _ => hkind, fun _ => ?_, fun _ => ?_⟩
        · simpa [CTransaction.shieldedSpends, CTransaction.shieldedOutputs, CTransaction.valueBalance, hd] using hbal
        · simpa [CTransaction.shieldedSpends, hd] using hnodup
    have hvalue : tx.valueBalance = d.valueBalance := by simp [CTransaction.valueBalance, hd]
    simp only [saplingCheckTransaction, hdata, hd, hform, hvalue, saplingCheckWithoutProof, balanceTests, bind_eq_ok,
      rejectIf_eq_ok, exists_and_left, exists_const, pure_eq_ok, if_true, Bool.and_true, Bool.not_eq_false',
      decide_eq_true_eq]
    constructor
    · rintro ⟨hversion, hkind, hbal, hlarge, hout, hin, hnodup, hr⟩
      exact ⟨⟨hversion, hkind, hbal, hnodup⟩, hlarge, hout, hin, hr⟩
    · rintro ⟨⟨hversion, hkind, hbal, hnodup⟩, hlarge, hout, hin, hr⟩
      exact ⟨hversion, hkind, hbal, hlarge, hout, hin, hnodup, hr⟩

theorem checkTransaction_iff_form :
    checkTransaction p tx cold = .ok () ↔ TxForm tx cold ∧ ∃ total, amountTests p tx = .ok total := by
  have hstep : ∀ n txout r, checkTxOut p tx cold n txout = .ok r ↔
      OutputForm tx cold txout ∧ outputTests p n txout = .ok r := fun _ _ _ => checkTxOut_iff_form
  have hloop : ∀ n r, tx.vout.foldlM (checkTxOut p tx cold) n = .ok r ↔
      (∀ txout ∈ tx.vout, OutputForm tx cold txout) ∧ tx.vout.foldlM (outputTests p) n = .ok r :=
    fun n r => foldlM_eq_ok_and hstep
  simp only [checkTransaction, amountTests, bind_eq_ok, rejectIf_eq_ok, exists_and_left, exists_const,
    saplingCheckTransaction_iff_form, hloop, decide_eq_false_iff_not,
    Bool.not_eq_false', decide_eq_true_eq, not_or, not_lt, not_le, gt_iff_lt, ge_iff_le]
  constructor
  · rintro ⟨hvin, hvout, hversion, hsize, n, ⟨hsapling, hn⟩, r, ⟨houts, hr⟩, hnodup, hins⟩
    exact ⟨⟨hvin, hvout, hversion, hsize, hsapling, houts, hnodup, hins⟩, r, n, hn, hr⟩
  · rintro ⟨⟨hvin, hvout, hversion, hsize, hsapling, houts, hnodup, hins⟩, r, n, hn, hr⟩
    exact ⟨hvin, hvout, hversion, hsize, n, ⟨hsapling, hn⟩, r, ⟨houts, hr⟩, hnodup, hins⟩

/-! ## What the tests on amounts decide -/

theorem outputTests_eq_ok {nValueOut r : Int} {txout : CTxOut} : outputTests p nValueOut txout = .ok r ↔
      p.moneyRange txout.nValue = true ∧ p.moneyRange r = true ∧ r = toInt64 (nValueOut + txout.nValue) := by
  simp only [outputTests, bind_eq_ok, rejectIf_eq_ok, exists_and_left, exists_const, pure_eq_ok,
    decide_eq_false_iff_not, Bool.not_eq_false', Params.moneyRange_iff]
  constructor
  · rintro ⟨hneg, hlarge, hrange, rfl⟩
    exact ⟨by omega, hrange, rfl⟩
  · rintro ⟨hvalue, hrange, rfl⟩
    exact ⟨by omega, by omega, hrange, rfl⟩

/-- The loop over the outputs passes from a sum in range exactly if the values and the true sum are in range; it
    leaves that sum. -/
theorem outputTests_run (hmax : p.nMaxMoneyOut < 9223372036854775808) : ∀ {vout : List CTxOut} {nValueOut r : Int},
    p.moneyRange nValueOut = true → (vout.foldlM (outputTests p) nValueOut = .ok r ↔
      (∀ out ∈ vout, p.moneyRange out.nValue = true) ∧ p.moneyRange (nValueOut + sumValues vout) = true ∧
        r = nValueOut + sumValues vout)
  | [], nValueOut, r, hin => by
    rw [List.foldlM_nil, pure_eq_ok, sumValues_nil, Int.add_zero]
    simp only [List.not_mem_nil, false_implies, implies_true, hin, true_and]
    exact eq_comm
  | out :: vout, nValueOut, r, hin => by
    rw [List.foldlM_cons, bind_eq_ok, sumValues_cons, List.forall_mem_cons]
    rw [Params.moneyRange_iff] at hin
    constructor
    · rintro ⟨r1, h1, hrest⟩
      obtain ⟨hval, hr1, rfl⟩ := outputTests_eq_ok.mp h1
      -- two amounts in range add up to less than 2 ^ 64: beyond the 64-bit range the sum is negative
      have hsum : toInt64 (nValueOut + out.nValue) = nValueOut + out.nValue := by
        rw [Params.moneyRange_iff] at hval hr1
        unfold toInt64 at *
        omega
      obtain ⟨hvals, htotal, hr⟩ := (outputTests_run hmax hr1).mp hrest
      rw [hsum, Int.add_assoc] at htotal hr
      exact ⟨⟨hval, hvals⟩, htotal, hr⟩
    · rintro ⟨⟨hval, hvals⟩, htotal, hr⟩
      have hnonneg := sumValues_nonneg fun o ho => ((p.moneyRange_iff _).mp (hvals o ho)).1
      have hstep : p.moneyRange (nValueOut + out.nValue) = true := by
        rw [Params.moneyRange_iff] at hval htotal ⊢
        omega
      have hsum : toInt64 (nValueOut + out.nValue) = nValueOut + out.nValue := by
        rw [Params.moneyRange_iff] at hstep
        exact toInt64_of_inInt64 ⟨by omega, by omega⟩
      rw [← Int.add_assoc] at htotal hr
      exact ⟨_, outputTests_eq_ok.mpr ⟨hval, hstep, hsum.symm⟩, (outputTests_run hmax hstep).mpr ⟨hvals, htotal, hr⟩⟩

theorem amountTests_iff (hmax : 0 ≤ p.nMaxMoneyOut ∧ p.nMaxMoneyOut < 9223372036854775808) :
    (∃ total, amountTests p tx = .ok total) ↔
      (∀ out ∈ tx.vout, p.moneyRange out.nValue = true) ∧ |tx.valueBalance| ≤ p.nMaxMoneyOut ∧
        p.moneyRange (tx.toPool + sumValues tx.vout) = true := by
  -- without Sapling data the balance is zero, and passes as well
  have hstart : ∀ n, saplingTests p tx = .ok n ↔ |tx.valueBalance| ≤ p.nMaxMoneyOut ∧ n = tx.toPool := by
    intro n
    unfold saplingTests
    cases hdata : tx.hasSaplingData with
    | true => simp [balanceTests_eq_ok, CTransaction.toPool]
    | false =>
      have hzero : tx.valueBalance = 0 := by
        by_contra hne
        rw [hasSaplingData_of (.inl hne)] at hdata
        cases hdata
      simp [CTransaction.toPool, hzero, hmax.1, eq_comm]
  have hpool : |tx.valueBalance| ≤ p.nMaxMoneyOut → p.moneyRange tx.toPool = true := by
    intro habs
    rw [abs_le] at habs
    rw [Params.moneyRange_iff, CTransaction.toPool]
    split <;> omega
  simp only [amountTests, bind_eq_ok, hstart]
  constructor
  · rintro ⟨total, n, ⟨habs, rfl⟩, hloop⟩
    obtain ⟨hvals, htotal, -⟩ := (outputTests_run hmax.2 (hpool habs)).mp hloop
    exact ⟨hvals, habs, htotal⟩
  · rintro ⟨hvals, habs, htotal⟩
    exact ⟨_, _, ⟨habs, rfl⟩, (outputTests_run hmax.2 (hpool habs)).mpr ⟨hvals, htotal, rfl⟩⟩

theorem sumValues_take_le {vout : List CTxOut} (h : ∀ out ∈ vout, 0 ≤ out.nValue) (k : Nat) :
    0 ≤ sumValues (vout.take k) ∧ sumValues (vout.take k) ≤ sumValues vout := by
  have htake : 0 ≤ sumValues (vout.take k) := sumValues_nonneg fun o ho => h o (List.mem_of_mem_take ho)
  have hdrop : 0 ≤ sumValues (vout.drop k) := sumValues_nonneg fun o ho => h o (List.mem_of_mem_drop ho)
  have hsplit : sumValues vout = sumValues (vout.take k) + sumValues (vout.drop k) := by
    rw [sumValues, sumValues, sumValues, ← List.sum_append, ← List.map_append, List.take_append_drop]
  omega

end

/-- **The output totals are exact.** The tests on amounts pass exactly if every value, the value balance and the true
    sum are in range; they are all the tests on amounts that `CheckTransaction` has; and for an accepted transaction the
    sums of the loop, and those of `GetValueOut`, stay in the 64-bit range. -/
theorem checkTransaction_totals_exact (p : Params) (hmax : 0 ≤ p.nMaxMoneyOut ∧ p.nMaxMoneyOut < 9223372036854775808)
    (tx : CTransaction) :
    ((∃ total, amountTests p tx = .ok total) ↔
      (∀ out ∈ tx.vout, p.moneyRange out.nValue = true) ∧ |tx.valueBalance| ≤ p.nMaxMoneyOut ∧
        p.moneyRange (tx.toPool + sumValues tx.vout) = true) ∧
    ∀ cold, (checkTransaction p tx cold = .ok () ↔ TxForm tx cold ∧ ∃ total, amountTests p tx = .ok total) ∧
      (checkTransaction p tx cold = .ok () →
        (∀ k, InInt64 (tx.toPool + sumValues (tx.vout.take k)) ∧ InInt64 (sumValues (tx.vout.take k))) ∧
          tx.getValueOut = .ok (tx.toPool + sumValues tx.vout)) := by
  refine ⟨amountTests_iff hmax, fun cold => ⟨checkTransaction_iff_form, fun h => ?_⟩⟩
  have hchecked := checkTransaction_ok hmax h
  refine ⟨fun k => ?_, hchecked.getValueOut hmax.2⟩
  have htake := sumValues_take_le (fun o ho => (hchecked.values o ho).1) k
  have htotal := hchecked.total
  have hpool : 0 ≤ tx.toPool := by
    unfold CTransaction.toPool
    split <;> omega
  unfold InInt64
  omega

/-- A transaction with the given values. -/
def twoOutputs (a b : Int) : CTransaction := ⟨0, 1, 0, [], [⟨a, [0x51]⟩, ⟨b, [0x51]⟩], 0, none, none⟩

/-- On the main network the largest total passes, and a sum that wraps is refused. -/
theorem mainTotals_exact : (∃ total, amountTests mainParams (twoOutputs 7199999999999999999 1) = .ok total) ∧
      ¬ ∃ total, amountTests mainParams (twoOutputs 7200000000000000000 7200000000000000000) = .ok total := by
  constructor
  · exact (checkTransaction_totals_exact mainParams (by decide) _).1.mpr (by decide)
  · intro h
    exact absurd ((checkTransaction_totals_exact mainParams (by decide) _).1.mp h) (by decide)

end KrovaCoin
