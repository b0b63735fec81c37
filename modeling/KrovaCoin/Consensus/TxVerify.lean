import KrovaCoin.Script.Interpreter

/-!
# Transaction checks (`consensus/tx_verify.cpp`, `sapling/sapling_validation.cpp`)

* `CTransaction.getTotalSize` — serialized sizes.
* `saplingCheckTransaction`, `checkTransaction` — the checks without context.

The proof system of Sapling comes from another library; `SaplingProofs` is any choice of it.

Principal result: `checkTransaction_ok`.
-/

namespace KrovaCoin

open Lib

/-! ## Outcomes -/

/-- The reject codes of `consensus/validation.h` in use here. -/
def REJECT_INVALID : Nat := 0x10

def REJECT_NONSTANDARD : Nat := 0x40

/-- How a validation function fails: the state `DoS` or `Invalid` leaves (score, code, reason, possible
    corruption, debug message), a run-time error, a failed assertion, an exception, or a signed
    overflow, whose behaviour is not defined. -/
inductive Failure where
  | invalid (nDoS chRejectCode : Nat) (strRejectReason : String) (corruptionPossible : Bool)
      (strDebugMessage : String)
  | error (strRejectReason : String)
  | assertion
  | exception (what : String)
  | overflow
  deriving DecidableEq, Repr

/-- `state.DoS(level, false, code, reason)`. -/
def dos (level chRejectCode : Nat) (strRejectReason : String) : Failure :=
  .invalid level chRejectCode strRejectReason false ""

def throwing {α : Type} : Except String α → Except Failure α
  | .ok a => .ok a
  | .error what => .error (.exception what)

def faulting {α : Type} : Checked α → Except Failure α
  | .ok a => .ok a
  | .error .assertion => .error .assertion
  | .error .overflow => .error .overflow

@[simp] theorem throwing_eq_ok {α : Type} {x : Except String α} {a : α} : throwing x = .ok a ↔ x = .ok a := by
  cases x <;> simp [throwing]

@[simp] theorem faulting_eq_ok {α : Type} {x : Checked α} {a : α} : faulting x = .ok a ↔ x = .ok a := by
  rcases x with (_ | _) | _ <;> simp [faulting]

/-! ## Sizes -/

/-- `GetSizeOfCompactSize`. -/
def compactSizeLen (n : Nat) : Nat :=
  if n < 253 then 1 else if n ≤ 0xffff then 3 else if n ≤ 0xffffffff then 5 else 9

def bytesSize (b : List UInt8) : Nat := compactSizeLen b.length + b.length

def vectorSize (sizes : List Nat) : Nat := compactSizeLen sizes.length + sizes.sum

/-- `SaplingTxData`: 384 bytes a spend, 948 bytes an output. -/
def SaplingTxData.size (d : SaplingTxData) : Nat :=
  8 + vectorSize (d.vShieldedSpend.map fun _ => 384) + vectorSize (d.vShieldedOutput.map fun _ => 948) + 64

def CTransaction.getTotalSize (tx : CTransaction) : Nat :=
  4 + vectorSize (tx.vin.map fun txin => 40 + bytesSize txin.scriptSig) +
    vectorSize (tx.vout.map fun out => 8 + bytesSize out.scriptPubKey) + 4 +
    if tx.isSaplingVersion then
      1 + (tx.sapData.elim 0 SaplingTxData.size) +
        if tx.isNormalType then 0 else 1 + tx.extraPayload.elim 0 bytesSize
    else 0

/-- `GetSerializeSize(block)`. -/
def CBlock.serializeSize (block : CBlock) : Nat :=
  80 + (if block.nVersion > 3 ∧ block.nVersion < 7 then 32 else 0) + (if block.nVersion ≥ 8 then 32 else 0) +
    vectorSize (block.vtx.map CTransaction.getTotalSize) +
    if block.isProofOfStake then bytesSize block.vchBlockSig else 0

/-- The limits of `consensus/consensus.h` and `validation.h`. -/
def MAX_BLOCK_SIZE_CURRENT : Nat := 2000000

def MAX_TX_SIZE_AFTER_SAPLING : Nat := 400000

def MAX_STANDARD_TX_SIZE : Nat := 100000

def MAX_BLOCK_SHIELDED_TXES_SIZE : Nat := 750000

def MAX_BLOCK_SIGOPS_CURRENT : Nat := MAX_BLOCK_SIZE_CURRENT / 50

def MIN_COLDSTAKING_AMOUNT : Int := 1 * COIN

def getLegacySigOpCount (tx : CTransaction) : Nat :=
  (tx.vin.map fun txin => txin.scriptSig.getSigOpCount false).sum +
    (tx.vout.map fun out => out.scriptPubKey.getSigOpCount false).sum

/-- `IsFinalTx`; a block time of 0 is replaced by the node's adjusted time. -/
def isFinalTx (adjustedTime : Int) (tx : CTransaction) (nBlockHeight nBlockTime : Int) : Bool :=
  let nBlockTime := if nBlockTime = 0 then adjustedTime else nBlockTime
  let nLockTime : Int := tx.nLockTime.toNat
  tx.nLockTime == 0 || decide (nLockTime < if nLockTime < LOCKTIME_THRESHOLD then nBlockHeight else nBlockTime) ||
    tx.vin.all CTxIn.isFinal

/-! ## Checks without context -/

/-- `SaplingValidation::CheckTransactionWithoutProofVerification`: the new `nValueOut`. -/
def saplingCheckWithoutProof (p : Params) (d : SaplingTxData) : Except Failure Int := do
  rejectIf (d.vShieldedSpend.isEmpty && d.vShieldedOutput.isEmpty && d.valueBalance != 0)
    (dos 100 REJECT_INVALID "bad-txns-valuebalance-nonzero")
  rejectIf (decide (d.valueBalance > p.nMaxMoneyOut ∨ d.valueBalance < -p.nMaxMoneyOut))
    (dos 100 REJECT_INVALID "bad-txns-valuebalance-toolarge")
  let nValueOut := if d.valueBalance < 0 then -d.valueBalance else 0
  rejectIf (decide (d.valueBalance < 0) && !p.moneyRange nValueOut)
    (dos 100 REJECT_INVALID "bad-txns-txouttotal-toolarge")
  rejectIf (decide (d.valueBalance > 0) && !p.moneyRange d.valueBalance)
    (dos 100 REJECT_INVALID "bad-txns-txintotal-toolarge")
  rejectIf (!decide (d.vShieldedSpend.map SpendDescription.nullifier).Nodup)
    (dos 100 REJECT_INVALID "bad-spend-description-nullifiers-duplicate")
  return nValueOut

/-- `SaplingValidation::CheckTransaction`, with `nValueOut` as it leaves it. -/
def saplingCheckTransaction (p : Params) (tx : CTransaction) : Except Failure Int := do
  rejectIf (!tx.isSaplingVersion && tx.hasSaplingData) (dos 100 REJECT_INVALID "bad-txns-form-not-sapling")
  if tx.hasSaplingData then do
    rejectIf (tx.isCoinStake || tx.isCoinBase || tx.hasZerocoinSpendInputs || tx.hasZerocoinMintOutputs)
      (dos 100 REJECT_INVALID "bad-txns-invalid-sapling")
    match tx.sapData with
    | none => return 0
    | some d => saplingCheckWithoutProof p d
  else return 0

/-- One output in the loop of `CheckTransaction`. -/
def checkTxOut (p : Params) (tx : CTransaction) (fColdStakingActive : Bool) (nValueOut : Int)
    (txout : CTxOut) : Except Failure Int := do
  rejectIf (txout.isEmpty && !tx.isCoinBase && !tx.isCoinStake) (dos 100 REJECT_INVALID "bad-txns-vout-empty")
  rejectIf (decide (txout.nValue < 0)) (dos 100 REJECT_INVALID "bad-txns-vout-negative")
  rejectIf (decide (txout.nValue > p.nMaxMoneyOut)) (dos 100 REJECT_INVALID "bad-txns-vout-toolarge")
  rejectIf (!p.moneyRange (toInt64 (nValueOut + txout.nValue)))
    (dos 100 REJECT_INVALID "bad-txns-txouttotal-toolarge")
  rejectIf (txout.scriptPubKey.isPayToColdStaking && !fColdStakingActive)
    (dos 10 REJECT_INVALID "cold-stake-inactive")
  rejectIf (txout.scriptPubKey.isPayToColdStaking && decide (txout.nValue < MIN_COLDSTAKING_AMOUNT))
    (dos 100 REJECT_INVALID "cold-stake-vout-toosmall")
  return toInt64 (nValueOut + txout.nValue)

/-- The inputs of a coinbase, and those of all other transactions, at the end of `CheckTransaction`. -/
def checkTxIns (tx : CTransaction) : Except Failure Unit :=
  if tx.isCoinBase then do
    rejectIf (tx.vin.any fun txin => decide (txin.scriptSig.length < 2 ∨ txin.scriptSig.length > 150))
      (dos 100 REJECT_INVALID "bad-cb-length")
    rejectIf tx.hasExchangeAddr (dos 100 REJECT_INVALID "bad-exchange-address-in-cb")
  else rejectIf (tx.vin.any fun txin => txin.prevout.isNull) (dos 10 REJECT_INVALID "bad-txns-prevout-null")

def checkTransaction (p : Params) (tx : CTransaction) (fColdStakingActive : Bool) : Except Failure Unit := do
  rejectIf (tx.vin.isEmpty && tx.sapData.any (·.vShieldedSpend.isEmpty) && !tx.isQuorumCommitmentTx)
    (dos 10 REJECT_INVALID "bad-txns-vin-empty")
  rejectIf (tx.vout.isEmpty && tx.sapData.any (·.vShieldedOutput.isEmpty) && !tx.isQuorumCommitmentTx)
    (dos 10 REJECT_INVALID "bad-txns-vout-empty")
  rejectIf (decide (tx.nVersion < 1 ∨ tx.nVersion ≥ TXVERSION_TOOHIGH))
    (dos 10 REJECT_INVALID "bad-tx-version-too-high")
  rejectIf (decide (tx.getTotalSize > if tx.isShieldedTx then MAX_TX_SIZE_AFTER_SAPLING else MAX_STANDARD_TX_SIZE))
    (dos 10 REJECT_INVALID "bad-txns-oversize")
  let nValueOut ← saplingCheckTransaction p tx
  let _ ← tx.vout.foldlM (checkTxOut p tx fColdStakingActive) nValueOut
  rejectIf (!decide (tx.vin.map CTxIn.prevout).Nodup) (dos 100 REJECT_INVALID "bad-txns-inputs-duplicate")
  checkTxIns tx

/-! ## Checks at a height -/

def NOT_AN_INPUT : Nat := 0xffffffff

/-- The verification functions of `librustzcash`: a spend, an output, and the binding signature over
    all spends and outputs given to the context before. -/
structure SaplingProofs where
  checkSpend : SpendDescription → Uint256 → Bool
  checkOutput : OutputDescription → Bool
  finalCheck : List SpendDescription → List OutputDescription → Int → Vector UInt8 64 → Uint256 → Bool

/-- The Sapling verification process of `SaplingValidation::ContextualCheckTransaction`. -/
def saplingVerify (proofs : SaplingProofs) (d : SaplingTxData) (dataToBeSigned : Uint256) : Except Failure Unit := do
  rejectIf (!d.vShieldedSpend.all fun spend => proofs.checkSpend spend dataToBeSigned)
    (dos 100 REJECT_INVALID "bad-txns-sapling-spend-description-invalid")
  rejectIf (!d.vShieldedOutput.all proofs.checkOutput)
    (dos 100 REJECT_INVALID "bad-txns-sapling-output-description-invalid")
  rejectIf (!proofs.finalCheck d.vShieldedSpend d.vShieldedOutput d.valueBalance d.bindingSig dataToBeSigned)
    (dos 100 REJECT_INVALID "bad-txns-sapling-binding-signature-invalid")

/-- `ContextualCheckTransaction` for a transaction of a block (`isMined`). -/
def contextualCheckTransaction (p : Params) (c : Crypto) (proofs : SaplingProofs) (tx : CTransaction)
    (nHeight : Int) : Except Failure Unit :=
  if !p.networkUpgradeActive nHeight .UPGRADE_V5_0 then
    rejectIf tx.isShieldedTx (dos 100 REJECT_INVALID "bad-txns-invalid-sapling-act")
  else do
    rejectIf (!tx.isSaplingVersion && tx.hasSaplingData)
      (dos 100 REJECT_INVALID "bad-tx-sapling-version-too-low")
    rejectIf ((tx.isCoinBase || tx.isCoinStake) && tx.hasSaplingData)
      (dos 100 REJECT_INVALID "bad-cs-has-shielded-data")
    match tx.hasSaplingData, tx.sapData with
    | true, some d => do
      rejectIf (tx.hasExchangeAddr && p.networkUpgradeActive nHeight .UPGRADE_V5_6)
        (dos 100 REJECT_INVALID "bad-txns-exchange-addr-has-sapling")
      saplingVerify proofs d (c.signatureHash [] tx NOT_AN_INPUT SIGHASH_ALL 0 .SIGVERSION_SAPLING)
    | _, _ => return ()

/-! ## What the checks guarantee -/

def sumValues (vout : List CTxOut) : Int := (vout.map CTxOut.nValue).sum

@[simp] theorem sumValues_nil : sumValues [] = 0 := rfl

@[simp] theorem sumValues_cons (out : CTxOut) (vout : List CTxOut) :
    sumValues (out :: vout) = out.nValue + sumValues vout := by
  simp [sumValues]

variable {vout : List CTxOut}

theorem sumValues_nonneg (h : ∀ out ∈ vout, 0 ≤ out.nValue) : 0 ≤ sumValues vout := by
  apply List.sum_nonneg
  intro v hv
  obtain ⟨o, ho, rfl⟩ := List.mem_map.mp hv
  exact h o ho

theorem sumValues_eq_zero (h : ∀ out ∈ vout, out.nValue = 0) : sumValues vout = 0 := by
  apply List.sum_eq_zero
  intro v hv
  obtain ⟨o, ho, rfl⟩ := List.mem_map.mp hv
  exact h o ho

/-- What enters the shielded pool. -/
def CTransaction.toPool (tx : CTransaction) : Int := if tx.valueBalance < 0 then -tx.valueBalance else 0

/-- What leaves the shielded pool. -/
def CTransaction.fromPool (tx : CTransaction) : Int := if tx.valueBalance > 0 then tx.valueBalance else 0

theorem fromPool_sub_toPool (tx : CTransaction) : tx.fromPool - tx.toPool = tx.valueBalance := by
  unfold CTransaction.fromPool CTransaction.toPool
  split <;> split <;> omega

variable {tx : CTransaction} {p : Params}

theorem hasSaplingData_of (h : tx.valueBalance ≠ 0 ∨ tx.shieldedSpends ≠ []) : tx.hasSaplingData = true := by
  unfold CTransaction.valueBalance CTransaction.shieldedSpends at h
  unfold CTransaction.hasSaplingData
  cases hd : tx.sapData with
  | none => simp [hd] at h
  | some d => simp [hd] at h; grind

/-- What `SaplingValidation::CheckTransaction` guarantees of a transaction with Sapling data. -/
structure SaplingChecked (p : Params) (tx : CTransaction) : Prop where
  version : tx.isSaplingVersion = true
  notCoinStake : tx.isCoinStake = false
  notCoinBase : tx.isCoinBase = false
  noZerocoinSpend : tx.hasZerocoinSpendInputs = false
  balance : -p.nMaxMoneyOut ≤ tx.valueBalance ∧ tx.valueBalance ≤ p.nMaxMoneyOut
  nullifiers : (tx.shieldedSpends.map SpendDescription.nullifier).Nodup

/-- What `CheckTransaction` guarantees. -/
structure TxChecked (p : Params) (tx : CTransaction) : Prop where
  outs : tx.vout.length < 4294967296
  values : ∀ out ∈ tx.vout, 0 ≤ out.nValue ∧ out.nValue ≤ p.nMaxMoneyOut
  total : tx.toPool + sumValues tx.vout ≤ p.nMaxMoneyOut
  nodup : (tx.vin.map CTxIn.prevout).Nodup
  notNull : tx.isCoinBase = false → ∀ txin ∈ tx.vin, txin.prevout.isNull = false
  sapling : tx.hasSaplingData = true → SaplingChecked p tx

variable {nValueOut : Int}

theorem saplingCheckWithoutProof_ok {d : SaplingTxData} (h : saplingCheckWithoutProof p d = .ok nValueOut) :
    nValueOut = (if d.valueBalance < 0 then -d.valueBalance else 0) ∧
      (-p.nMaxMoneyOut ≤ d.valueBalance ∧ d.valueBalance ≤ p.nMaxMoneyOut) ∧
      (d.vShieldedSpend.map SpendDescription.nullifier).Nodup := by
  simp only [saplingCheckWithoutProof, bind_eq_ok, rejectIf_eq_ok, exists_and_left, exists_const,
    pure_eq_ok, decide_eq_false_iff_not, Bool.not_eq_false', decide_eq_true_eq] at h
  obtain ⟨-, hbal, -, -, hnodup, rfl⟩ := h
  exact ⟨rfl, by omega, hnodup⟩

theorem saplingCheckTransaction_ok (h : saplingCheckTransaction p tx = .ok nValueOut) :
    nValueOut = tx.toPool ∧ (tx.hasSaplingData = true → SaplingChecked p tx) := by
  simp only [saplingCheckTransaction, bind_eq_ok, rejectIf_eq_ok, exists_and_left, exists_const] at h
  obtain ⟨hversion, h⟩ := h
  split at h
  · rename_i hdata
    simp only [bind_eq_ok, rejectIf_eq_ok, exists_and_left, exists_const, Bool.or_eq_false_iff] at h
    obtain ⟨⟨⟨⟨hcs, hcb⟩, hzs⟩, -⟩, h⟩ := h
    cases hd : tx.sapData with
    | none => simp [CTransaction.hasSaplingData, hd] at hdata
    | some d =>
      rw [hd] at h
      obtain ⟨hout, hbal, hnodup⟩ := saplingCheckWithoutProof_ok h
      refine ⟨?_, fun _ => ⟨by simpa [hdata] using hversion, hcs, hcb, hzs, ?_, ?_⟩⟩
      · simpa [CTransaction.toPool, CTransaction.valueBalance, hd] using hout
      · simpa [CTransaction.valueBalance, hd] using hbal
      · simpa [CTransaction.shieldedSpends, hd] using hnodup
  · rename_i hdata
    have hzero : tx.valueBalance = 0 := by
      by_contra hne
      exact hdata (hasSaplingData_of (.inl hne))
    refine ⟨?_, fun hd => absurd hd hdata⟩
    simp [CTransaction.toPool, hzero, ← pure_eq_ok.mp h]

variable {cold : Bool}

theorem checkTxOut_ok {r : Int} {txout : CTxOut} (h : checkTxOut p tx cold nValueOut txout = .ok r) :
    (0 ≤ txout.nValue ∧ txout.nValue ≤ p.nMaxMoneyOut) ∧ r = toInt64 (nValueOut + txout.nValue) ∧
      p.moneyRange r = true := by
  simp only [checkTxOut, bind_eq_ok, rejectIf_eq_ok, exists_and_left, exists_const, pure_eq_ok,
    decide_eq_false_iff_not, Bool.not_eq_false'] at h
  obtain ⟨-, hneg, hlarge, hrange, -, -, rfl⟩ := h
  exact ⟨by omega, rfl, hrange⟩

theorem checkTxOuts_ok (hmax : p.nMaxMoneyOut < 9223372036854775808) :
    ∀ {vout : List CTxOut} {nValueOut r : Int}, 0 ≤ nValueOut ∧ nValueOut ≤ p.nMaxMoneyOut →
      vout.foldlM (checkTxOut p tx cold) nValueOut = .ok r →
      (∀ out ∈ vout, 0 ≤ out.nValue ∧ out.nValue ≤ p.nMaxMoneyOut) ∧ nValueOut + sumValues vout ≤ p.nMaxMoneyOut
  | [], _, _, hin, _ => by simpa using hin.2
  | out :: vout, nValueOut, r, hin, h => by
    obtain ⟨r1, h1, hrest⟩ := bind_eq_ok.mp h
    obtain ⟨hval, rfl, hrange⟩ := checkTxOut_ok h1
    rw [Params.moneyRange_iff] at hrange
    -- a sum beyond the 64-bit range would have become negative
    have hsum : toInt64 (nValueOut + out.nValue) = nValueOut + out.nValue := by
      unfold toInt64 at *
      omega
    obtain ⟨hvals, htotal⟩ := checkTxOuts_ok hmax hrange hrest
    refine ⟨?_, by rw [sumValues_cons]; omega⟩
    rintro o (_ | ⟨_, ho⟩)
    · exact hval
    · exact hvals o ho

theorem checkTxOuts_of (hmax : p.nMaxMoneyOut < 9223372036854775808) :
    ∀ {vout : List CTxOut} {nValueOut : Int}, 0 ≤ nValueOut →
      (∀ out ∈ vout, 0 < out.nValue ∧ (out.scriptPubKey.isPayToColdStaking = true →
        cold = true ∧ MIN_COLDSTAKING_AMOUNT ≤ out.nValue)) →
      nValueOut + sumValues vout ≤ p.nMaxMoneyOut →
      vout.foldlM (checkTxOut p tx cold) nValueOut = .ok (nValueOut + sumValues vout)
  | [], nValueOut, _, _, _ => by simp [pure_eq_ok]
  | out :: vout, nValueOut, hn, hout, hsum => by
    obtain ⟨hpos, hcold⟩ := hout out List.mem_cons_self
    have hrest := sumValues_nonneg fun o ho => (hout o (List.mem_cons_of_mem _ ho)).1.le
    rw [sumValues_cons] at hsum ⊢
    have hadd : toInt64 (nValueOut + out.nValue) = nValueOut + out.nValue :=
      toInt64_of_inInt64 ⟨by omega, by omega⟩
    have hstep : checkTxOut p tx cold nValueOut out = .ok (nValueOut + out.nValue) := by
      simp only [checkTxOut, bind_eq_ok, rejectIf_eq_ok, exists_and_left, exists_const, pure_eq_ok, hadd,
        decide_eq_false_iff_not, Bool.not_eq_false', Params.moneyRange_iff]
      refine ⟨?_, by omega, by omega, by omega, ?_, ?_, trivial⟩
      · simp [CTxOut.isEmpty, hpos.ne']
      · cases hp2cs : out.scriptPubKey.isPayToColdStaking with
        | false => rfl
        | true => rw [(hcold hp2cs).1]; rfl
      · cases hp2cs : out.scriptPubKey.isPayToColdStaking with
        | false => rfl
        | true => rw [Bool.true_and, decide_eq_false_iff_not]; exact not_lt.mpr (hcold hp2cs).2
    rw [List.foldlM_cons, hstep, ok_bind, checkTxOuts_of hmax (by omega)
      (fun o ho => hout o (List.mem_cons_of_mem _ ho)) (by omega), Int.add_assoc]

theorem checkTransaction_coldStaking (h : checkTransaction p tx cold = .ok ()) :
    ∀ out ∈ tx.vout, out.scriptPubKey.isPayToColdStaking = true →
      cold = true ∧ MIN_COLDSTAKING_AMOUNT ≤ out.nValue := by
  simp only [checkTransaction, bind_eq_ok, rejectIf_eq_ok, exists_and_left, exists_const] at h
  obtain ⟨-, -, -, -, nValueOut, -, r, houts, -⟩ := h
  have hstep : ∀ n out n', checkTxOut p tx cold n out = .ok n' ↔
      (out.scriptPubKey.isPayToColdStaking = true → cold = true ∧ MIN_COLDSTAKING_AMOUNT ≤ out.nValue) ∧
        checkTxOut p tx cold n out = .ok n' := by
    intro n out n'
    refine ⟨fun hok => ⟨fun hp2cs => ?_, hok⟩, And.right⟩
    simp only [checkTxOut, bind_eq_ok, rejectIf_eq_ok, exists_and_left, exists_const, hp2cs, Bool.true_and,
      Bool.not_eq_false', decide_eq_false_iff_not] at hok
    exact ⟨hok.2.2.2.2.1, not_lt.mp hok.2.2.2.2.2.1⟩
  exact ((foldlM_eq_ok_and hstep).mp houts).1

theorem length_of_totalSize
    (h : ¬ tx.getTotalSize > if tx.isShieldedTx then MAX_TX_SIZE_AFTER_SAPLING else MAX_STANDARD_TX_SIZE) :
    tx.vout.length < 4294967296 := by
  have hlen := List.length_le_sum_of_one_le (tx.vout.map fun out => 8 + bytesSize out.scriptPubKey) (by
    intro n hn
    obtain ⟨out, -, rfl⟩ := List.mem_map.mp hn
    omega)
  rw [List.length_map] at hlen
  have hsize : (tx.vout.map fun out => 8 + bytesSize out.scriptPubKey).sum ≤ tx.getTotalSize := by
    unfold CTransaction.getTotalSize
    simp only [vectorSize]
    omega
  simp only [MAX_TX_SIZE_AFTER_SAPLING, MAX_STANDARD_TX_SIZE] at h
  split at h <;> omega

/-- **What an accepted transaction satisfies.** -/
theorem checkTransaction_ok (hmax : 0 ≤ p.nMaxMoneyOut ∧ p.nMaxMoneyOut < 9223372036854775808)
    (h : checkTransaction p tx cold = .ok ()) : TxChecked p tx := by
  simp only [checkTransaction, bind_eq_ok, rejectIf_eq_ok, exists_and_left, exists_const,
    Bool.not_eq_false', decide_eq_true_eq] at h
  obtain ⟨-, -, -, hsize, nValueOut, hsap, _, houts, hnodup, hins⟩ := h
  obtain ⟨rfl, hsapling⟩ := saplingCheckTransaction_ok hsap
  have hpool : 0 ≤ tx.toPool ∧ tx.toPool ≤ p.nMaxMoneyOut := by
    unfold CTransaction.toPool
    split
    · have := (hsapling (hasSaplingData_of (.inl (by omega)))).balance
      omega
    · omega
  obtain ⟨hvals, htotal⟩ := checkTxOuts_ok hmax.2 hpool houts
  refine ⟨length_of_totalSize (decide_eq_false_iff_not.mp hsize), hvals, htotal, hnodup,
    fun hcb txin hin => ?_, hsapling⟩
  simp only [checkTxIns, hcb, Bool.false_eq_true, if_false, rejectIf_eq_ok, List.any_eq_false] at hins
  simpa using hins txin hin

theorem valueOutLoop_eq : ∀ {vout : List CTxOut} {n : Int}, 0 ≤ n → (∀ out ∈ vout, 0 ≤ out.nValue) →
    n + sumValues vout < 9223372036854775808 →
    CTransaction.valueOutLoop n vout = .ok (n + sumValues vout)
  | [], n, _, _, _ => by simp [CTransaction.valueOutLoop]
  | out :: vout, n, hn, hpos, hsum => by
    have hout : 0 ≤ out.nValue := hpos out (by simp)
    have hrest : 0 ≤ sumValues vout := sumValues_nonneg fun o ho => hpos o (by simp [ho])
    rw [sumValues_cons] at hsum ⊢
    have hadd : toInt64 (n + out.nValue) = n + out.nValue :=
      toInt64_of_inInt64 ⟨by omega, by omega⟩
    have ih := @valueOutLoop_eq vout (n + out.nValue) (by omega) (fun o ho => hpos o (by simp [ho])) (by omega)
    rw [CTransaction.valueOutLoop, if_neg (by omega), hadd, if_neg (by omega), ih, Int.add_assoc]

theorem TxChecked.getValueOut (hmax : p.nMaxMoneyOut < 9223372036854775808) (h : TxChecked p tx) :
    tx.getValueOut = .ok (tx.toPool + sumValues tx.vout) := by
  have hsum : 0 ≤ sumValues tx.vout := sumValues_nonneg fun o ho => (h.values o ho).1
  have htotal := h.total
  have hloop : CTransaction.valueOutLoop 0 tx.vout = .ok (sumValues tx.vout) := by
    have hpool : 0 ≤ tx.toPool := by unfold CTransaction.toPool; split <;> omega
    have := @valueOutLoop_eq tx.vout 0 (by omega) (fun o ho => (h.values o ho).1)
      (by omega)
    rwa [Int.zero_add] at this
  unfold CTransaction.getValueOut
  rw [hloop]
  by_cases hneg : tx.valueBalance < 0
  · have hdata := @hasSaplingData_of tx (.inl (by omega))
    have hpool : tx.toPool = -tx.valueBalance := if_pos hneg
    rw [hpool] at htotal ⊢
    simp only [ok_bind, hdata, hneg, and_self, if_true, (h.sapling hdata).version]
    rw [toInt64_of_inInt64 ⟨by omega, by omega⟩, Int.add_comm]
  · have hpool : tx.toPool = 0 := if_neg hneg
    simp [hpool, hneg]

theorem TxChecked.getShieldedValueIn (h : TxChecked p tx) : tx.getShieldedValueIn = .ok tx.fromPool := by
  unfold CTransaction.getShieldedValueIn CTransaction.fromPool
  by_cases hpos : tx.valueBalance > 0
  · have hdata := @hasSaplingData_of tx (.inl (by omega))
    simp [hdata, hpos, (h.sapling hdata).version]
  · simp [hpos]

end KrovaCoin
