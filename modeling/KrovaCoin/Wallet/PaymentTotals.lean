import KrovaCoin.Wallet.CreateAccounts
import KrovaCoin.Wallet.SelectionComplete

/-!
# The totals of a payment (`wallet/wallet.cpp`, `wallet/rpcwallet.cpp`)

`CreateTransaction` and `legacy_sendmany` add up the amounts of the recipients in `int64_t`, and this money range has
pairs of amounts whose sum does not fit. Here the totals are those of two's complement.

* `wrapAmounts` — the loop of `CreateTransaction`: it looks at the total before it adds the next amount.

Principal result: `overlargePayment_refused_iff`.
-/

namespace KrovaCoin

open Lib

/-! ## The code -/

def wrapAmounts : Int → List CRecipient → Except WalletError Int
  | nValue, [] => .ok nValue
  | nValue, recipient :: vecSend => do
    rejectIf (decide (nValue < 0 ∨ recipient.nAmount < 0)) (.returnsFalse "Transaction amounts must be positive")
    wrapAmounts (toInt64 (nValue + recipient.nAmount)) vecSend

section Create

variable (w : CWallet) (args : CreateArgs) (chance : Nat → RoundChance)

/-- The amount that the coins have to reach. -/
def wrapValueToSelect (nValue nFeeRet : Int) : Int :=
  if countFeePayers args.vecSend = 0 then toInt64 (nValue + nFeeRet) else nValue

def createRoundWrapped (vAvailableCoins : List COutput) (nValue : Int) (s : FeeState) :
    Except WalletError (LoopStep FeeState BuiltTx) := do
  let nValueToSelect := wrapValueToSelect args nValue s.nFeeRet
  let vout ← fillOutputs w.fees s.nFeeRet (countFeePayers args.vecSend) true args.vecSend
  match ← checked (selectCoinsToSpend w.txs w.opts vAvailableCoins nValueToSelect args.coinControl
      (chance s.nRound).coins) with
  | none => .error (.returnsFalse "Insufficient funds.")
  | some (setCoins, nValueIn) =>
    let nChange := toInt64 (nValueIn - nValueToSelect)
    let change ← payChange w.fees s.nFeeRet args.coinControl (chance s.nRound) nChange args.nChangePosInOut vout
    checkFee w args s ⟨change, w.setOrder setCoins⟩

/-- `CreateTransaction` with the totals in two's complement; a sum that leaves `int64_t` anywhere else, in the coin
    selection or in an output, is a fault. -/
def createTransactionWrapped (fuel : Nat) : Except WalletError (Option CreatedTx) := do
  let nValue ← wrapAmounts 0 args.vecSend
  rejectIf args.vecSend.isEmpty (.returnsFalse "Transaction must have at least one recipient")
  let vAvailableCoins ← checked (w.selectionCoins args.coinControl)
  match ← whileLoop (createRoundWrapped w args chance vAvailableCoins nValue) fuel
      ⟨if args.nFeePay > 0 then args.nFeePay else 0, 0⟩ with
  | none => return none
  | some built => some <$> finishTransaction w args built

end Create

/-- What ends `legacy_sendmany`: a `JSONRPCError`, or a fault. -/
inductive SendError where
  | rpc (code : Int) (message : String)
  | fault (f : Fault)
  deriving DecidableEq

def RPC_WALLET_INSUFFICIENT_FUNDS : Int := -6

/-- `totalAmount`. -/
def sendmanyTotal (vecSend : List CRecipient) : Int :=
  vecSend.foldl (fun totalAmount recipient => toInt64 (totalAmount + recipient.nAmount)) 0

/-- The fund check; `balance` is what `GetLegacyBalance` finds. -/
def checkFunds (balance : Int) (vecSend : List CRecipient) : Except SendError Unit :=
  rejectIf (decide (sendmanyTotal vecSend > balance)) (.rpc RPC_WALLET_INSUFFICIENT_FUNDS "Wallet has insufficient funds")

/-- `legacy_sendmany`, from the recipients to the transaction that is committed. -/
def legacySendmany (w : CWallet) (balance : Int) (vecSend : List CRecipient) (chance : Nat → RoundChance) (fuel : Nat) :
    Except SendError (Option CreatedTx) := do
  checkFunds balance vecSend
  match createTransactionWrapped w { vecSend } chance fuel with
  | .ok txNew => return txNew
  | .error (.returnsFalse strFailReason) => .error (.rpc RPC_WALLET_INSUFFICIENT_FUNDS strFailReason)
  | .error (.fault f) => .error (.fault f)

/-! ## The totals -/

def totalAmount (vecSend : List CRecipient) : Int := (vecSend.map CRecipient.nAmount).sum

theorem totalAmount_cons (recipient : CRecipient) (vecSend : List CRecipient) :
    totalAmount (recipient :: vecSend) = recipient.nAmount + totalAmount vecSend := by
  simp [totalAmount]

def AmountsInRange (vecSend : List CRecipient) : Prop :=
  ∀ recipient ∈ vecSend, 0 ≤ recipient.nAmount ∧ recipient.nAmount ≤ mainParams.nMaxMoneyOut

theorem totalAmount_nonneg {vecSend : List CRecipient} (h : AmountsInRange vecSend) : 0 ≤ totalAmount vecSend := by
  apply List.sum_nonneg
  intro v hv
  obtain ⟨recipient, hmem, rfl⟩ := List.mem_map.mp hv
  exact (h recipient hmem).1

theorem sendmanyTotal_eq (vecSend : List CRecipient) : sendmanyTotal vecSend = toInt64 (totalAmount vecSend) := by
  have hfold : ∀ (l : List CRecipient) (n : Int), l.foldl (fun totalAmount recipient =>
      toInt64 (totalAmount + recipient.nAmount)) (toInt64 n) = toInt64 (n + totalAmount l) := by
    intro l
    induction l with
    | nil =>
      intro n
      rw [List.foldl_nil, totalAmount, List.map_nil, List.sum_nil, Int.add_zero]
    | cons recipient l ih =>
      intro n
      rw [List.foldl_cons, toInt64_add_toInt64, ih, totalAmount_cons, Int.add_assoc]
  simpa [sendmanyTotal, toInt64] using hfold vecSend 0

theorem wrapAmounts_eq : ∀ {vecSend : List CRecipient} {n : Int}, AmountsInRange vecSend → 0 ≤ n →
    n < 9223372036854775808 → wrapAmounts n vecSend =
      if vecSend ≠ [] ∧ 9223372036854775808 ≤ n + totalAmount vecSend.dropLast then
        .error (.returnsFalse "Transaction amounts must be positive")
      else .ok (toInt64 (n + totalAmount vecSend))
  | [], n, _, hn, hmax => by
    rw [if_neg (by simp), wrapAmounts, toInt64_of_inInt64]
    · simp [totalAmount]
    · exact ⟨by simp [totalAmount]; omega, by simp [totalAmount]; omega⟩
  | [recipient], n, h, hn, hmax => by
    obtain ⟨hlow, hhigh⟩ := h recipient List.mem_cons_self
    rw [if_neg (by simp [totalAmount]; omega)]
    simp only [wrapAmounts, totalAmount, List.map_cons, List.map_nil, List.sum_cons, List.sum_nil, Int.add_zero]
    rw [rejectIf, if_neg (by simp; omega)]
    rfl
  | recipient :: next :: vecSend, n, h, hn, hmax => by
    obtain ⟨hlow, hhigh⟩ := h recipient List.mem_cons_self
    have hrest : AmountsInRange (next :: vecSend) := fun r hr => h r (List.mem_cons_of_mem _ hr)
    have hinit : 0 ≤ totalAmount (next :: vecSend).dropLast :=
      totalAmount_nonneg fun r hr => hrest r (List.dropLast_subset _ hr)
    rw [mainParams_nMaxMoneyOut] at hhigh
    rw [wrapAmounts, rejectIf, if_neg (by simp; omega), ok_bind, List.dropLast_cons_cons, totalAmount_cons, totalAmount_cons]
    obtain hfits | hwraps : n + recipient.nAmount < 9223372036854775808 ∨
        9223372036854775808 ≤ n + recipient.nAmount := by omega
    · rw [toInt64_of_inInt64 ⟨by omega, by omega⟩, wrapAmounts_eq hrest (by omega) hfits]
      simp only [ne_eq, reduceCtorEq, not_false_eq_true, true_and, Int.add_assoc]
    · -- the next iteration finds a negative total
      have hneg : toInt64 (n + recipient.nAmount) < 0 := by
        unfold toInt64
        omega
      rw [if_pos ⟨by simp, by omega⟩, wrapAmounts, rejectIf, if_pos (by simp [hneg])]
      rfl

/-! ## Refusals -/

/-- `CreateTransaction` returns `false`. -/
def Refused {α : Type} (result : Except WalletError α) : Prop :=
  ∃ strFailReason, result = .error (.returnsFalse strFailReason)

/-- The coins of the wallet are amounts whose total is in the money range. -/
structure WithinSupply (w : CWallet) : Prop where
  amounts : AmountsOf (w.vAvailableCoins.map COutput.toWalletCoin)
  total_le : totalValue (w.vAvailableCoins.map COutput.toWalletCoin) ≤ mainParams.nMaxMoneyOut

section Round

variable {w : CWallet} {nTargetValue : Int}

theorem trySelections_none {vCoins : List COutput} {random : Nat → CoinRandomness}
    (hamounts : AmountsOf (vCoins.map COutput.toWalletCoin))
    (htotal : totalValue (vCoins.map COutput.toWalletCoin) < nTargetValue)
    (hlimit : nTargetValue + MIN_CHANGE ≤ INT64_MAX) :
    ∀ {attempts : List (Int × Int × Nat)} {n : Nat}, trySelections nTargetValue vCoins random n attempts = .ok none
  | [], _ => rfl
  | (nConfMine, nConfTheirs, nMaxAncestors) :: attempts, n => by
    have hsub : (vCoins.filter (COutput.eligible nConfMine nConfTheirs nMaxAncestors)).map COutput.toWalletCoin |>.Sublist
        (vCoins.map COutput.toWalletCoin) := List.filter_sublist.map _
    have hnonneg := totalValue_nonneg hamounts
    have hle := totalValue_sublist hamounts hsub
    unfold MIN_CHANGE INT64_MAX at hlimit
    obtain ⟨result, hresult, -⟩ := @selectCoinsMinConf_total nTargetValue (random n) _ _ _ _ _ rfl
      (fun coin hcoin => hamounts coin (hsub.subset hcoin)) ⟨by unfold MIN_CHANGE; omega, by unfold MIN_CHANGE; omega⟩
      (by unfold INT64_MAX; omega)
    cases result with
    | none =>
      rw [trySelections, hresult, ok_bind]
      exact trySelections_none hamounts htotal hlimit
    | some found =>
      obtain ⟨hfrom, hvalue, hreaches⟩ := selectCoinsMinConf_sound hresult
      have := totalValue_subperm hamounts hfrom
      omega

theorem selectCoinsToSpend_none (txs : WalletTxs) (opts : SelectionOptions) (vCoins : List COutput)
    (random : Nat → CoinRandomness) (hin : InInt64 nTargetValue) :
    selectCoinsToSpend txs opts vCoins nTargetValue none random = if nTargetValue ≤ 0 then .ok (some ([], 0)) else do
        match ← trySelections nTargetValue vCoins random 0 (selectionAttempts opts) with
        | none => return none
        | some (setCoinsRet, nValueRet) => do
          let nValueRet ← checkInt64 nValueRet
          return some (setCoinsRet, nValueRet) := by
  have hpreset : presetCoins txs [] = some [] := rfl
  have hnone : addValues 0 [] = .ok 0 := rfl
  have hsum : checkInt64 nTargetValue = .ok nTargetValue := if_pos hin
  simp only [selectCoinsToSpend, onlySelected, Option.any_none, Bool.false_eq_true, if_false, Option.elim_none, hpreset,
    hnone, ok_bind, List.contains_nil, Bool.not_false, List.filter_true, Int.sub_zero, Int.add_zero, List.append_nil, hsum]
  split
  · rfl
  · rfl

end Round

/-- The outputs of the recipients where nobody pays a fee. -/
def plainOutputs (vecSend : List CRecipient) : List CTxOut :=
  vecSend.map fun recipient => ⟨recipient.nAmount, recipient.scriptPubKey⟩

theorem recipientValue_free {k : Nat} {fFirst : Bool} {recipient : CRecipient}
    (hrange : 0 ≤ recipient.nAmount ∧ recipient.nAmount ≤ mainParams.nMaxMoneyOut)
    (hk : recipient.fSubtractFeeFromAmount = true → k ≠ 0) :
    recipientValue 0 k fFirst recipient = .ok recipient.nAmount := by
  rw [mainParams_nMaxMoneyOut] at hrange
  have hin : checkInt64 recipient.nAmount = .ok recipient.nAmount := if_pos ⟨by omega, by omega⟩
  unfold recipientValue
  split
  · rename_i hpays
    simp only [ensure, bne_iff_ne, ne_eq, hk hpays, not_false_eq_true, if_true, ok_bind, subtractFee, Int.zero_ediv,
      Int.zero_emod, Int.sub_zero, hin]
    split <;> rfl
  · rfl

theorem fillOutputs_free {fees : FeeSettings} {k : Nat} : ∀ {vecSend : List CRecipient} {fFirst : Bool},
    AmountsInRange vecSend → (∀ recipient ∈ vecSend, recipient.fSubtractFeeFromAmount = true → k ≠ 0) →
    fillOutputs fees 0 k fFirst vecSend = if (plainOutputs vecSend).any fun txout => isDust txout fees.dustRelayFee then
        .error (.returnsFalse "Transaction amount too small")
      else .ok (plainOutputs vecSend)
  | [], _, _, _ => rfl
  | recipient :: vecSend, fFirst, hrange, hk => by
    have hvalue : recipientValue 0 k fFirst recipient = .ok recipient.nAmount :=
      recipientValue_free (hrange recipient List.mem_cons_self) (hk recipient List.mem_cons_self)
    have hrest := @fillOutputs_free fees k vecSend (fFirst && !recipient.fSubtractFeeFromAmount)
      (fun r hr => hrange r (List.mem_cons_of_mem _ hr)) (fun r hr => hk r (List.mem_cons_of_mem _ hr))
    have hcons : plainOutputs (recipient :: vecSend) = ⟨recipient.nAmount, recipient.scriptPubKey⟩ :: plainOutputs vecSend :=
      rfl
    rw [fillOutputs, hvalue, hcons, List.any_cons]
    simp only [checked, Except.mapError, ok_bind, hrest, rejectIf]
    cases isDust ⟨recipient.nAmount, recipient.scriptPubKey⟩ fees.dustRelayFee with
    | true => rfl
    | false =>
      simp only [Bool.false_eq_true, if_false, ok_bind, Bool.false_or]
      by_cases hdust : ((plainOutputs vecSend).any fun txout => isDust txout fees.dustRelayFee) = true
      · simp only [if_pos hdust, error_bind]
      · simp only [if_neg hdust, ok_bind, pure, Except.pure]

theorem countFeePayers_ne_zero {vecSend : List CRecipient} :
    ∀ recipient ∈ vecSend, recipient.fSubtractFeeFromAmount = true → countFeePayers vecSend ≠ 0 :=
  fun recipient hmem hpays => (List.countP_pos_iff.2 ⟨recipient, hmem, hpays⟩).ne'

/-- Every wallet refuses to pay these recipients with its own coins, if no fee is given. -/
def AlwaysRefused (vecSend : List CRecipient) : Prop :=
  ∀ (w : CWallet) (args : CreateArgs) (chance : Nat → RoundChance) (fuel : Nat), WithinSupply w →
    args.vecSend = vecSend → args.coinControl = none → args.nFeePay ≤ 0 →
      Refused (createTransactionWrapped w args chance (fuel + 1))

section Refuse

variable {vecSend : List CRecipient}

theorem ne_nil_of_overlarge (hover : mainParams.nMaxMoneyOut < totalAmount vecSend) : vecSend ≠ [] := by
  rintro rfl
  exact absurd hover (by decide)

theorem totalAmount_dropLast (hrange : AmountsInRange vecSend) (hne : vecSend ≠ []) :
    totalAmount vecSend.dropLast ≤ totalAmount vecSend ∧
      totalAmount vecSend ≤ totalAmount vecSend.dropLast + mainParams.nMaxMoneyOut := by
  have hlast := hrange _ (List.getLast_mem hne)
  have hsplit : totalAmount vecSend = totalAmount vecSend.dropLast + (vecSend.getLast hne).nAmount := by
    conv_lhs => rw [← List.dropLast_append_getLast hne]
    simp [totalAmount]
  omega

theorem createTransactionWrapped_eq {w : CWallet} {args : CreateArgs} {chance : Nat → RoundChance} {fuel : Nat}
    {nValue : Int} (hvalue : wrapAmounts 0 args.vecSend = .ok nValue) (hne : args.vecSend ≠ [])
    (hcontrol : args.coinControl = none) (hfee : args.nFeePay ≤ 0) :
    createTransactionWrapped w args chance fuel = (do
      match ← whileLoop (createRoundWrapped w args chance w.vAvailableCoins nValue) fuel ⟨0, 0⟩ with
      | none => return none
      | some built => some <$> finishTransaction w args built) := by
  have hcoins : w.selectionCoins none = .ok w.vAvailableCoins := rfl
  rw [createTransactionWrapped, hvalue, ok_bind, rejectIf, if_neg (by simpa using hne), ok_bind, hcontrol, hcoins]
  simp only [checked, Except.mapError, ok_bind, if_neg (Int.not_lt.2 hfee), gt_iff_lt]

theorem alwaysRefused_of_guard (hrange : AmountsInRange vecSend) (hne : vecSend ≠ [])
    (hguard : 9223372036854775808 ≤ totalAmount vecSend.dropLast) : AlwaysRefused vecSend := by
  rintro w args chance fuel - rfl - -
  refine ⟨"Transaction amounts must be positive", ?_⟩
  rw [createTransactionWrapped, wrapAmounts_eq hrange le_rfl (by decide), if_pos ⟨hne, by omega⟩]
  rfl

theorem alwaysRefused_of_fits (hrange : AmountsInRange vecSend) (hover : mainParams.nMaxMoneyOut < totalAmount vecSend)
    (hfits : totalAmount vecSend + MIN_CHANGE ≤ INT64_MAX) : AlwaysRefused vecSend := by
  rintro w args chance fuel hsupply rfl hcontrol hfee
  have htotal := hsupply.total_le
  have hnonneg := totalValue_nonneg hsupply.amounts
  have hin : InInt64 (totalAmount args.vecSend) := by
    unfold MIN_CHANGE INT64_MAX at hfits
    exact ⟨by omega, by omega⟩
  have hinit := totalAmount_dropLast hrange (ne_nil_of_overlarge hover)
  have hvalue : wrapAmounts 0 args.vecSend = .ok (totalAmount args.vecSend) := by
    rw [wrapAmounts_eq hrange le_rfl (by decide), if_neg (by unfold InInt64 at hin; omega), Int.zero_add,
      toInt64_of_inInt64 hin]
  have htarget : wrapValueToSelect args (totalAmount args.vecSend) 0 = totalAmount args.vecSend := by
    unfold wrapValueToSelect
    rw [Int.add_zero, toInt64_of_inInt64 hin, ite_self]
  rw [createTransactionWrapped_eq hvalue (ne_nil_of_overlarge hover) hcontrol hfee, whileLoop, createRoundWrapped,
    fillOutputs_free hrange countFeePayers_ne_zero, htarget]
  split
  · exact ⟨_, rfl⟩
  · rw [hcontrol, selectCoinsToSpend_none _ _ _ _ hin, if_neg (by omega),
      trySelections_none hsupply.amounts (by omega) hfits]
    exact ⟨_, rfl⟩

/-! ## Payments that get through -/

/-- A wallet with a coin of five, for which nothing costs a fee. -/
def freeWallet : CWallet := { sampleWallet with fees := ⟨0, 0, 0, 0, 0, 0, false⟩ }

theorem freeWallet_withinSupply : WithinSupply freeWallet := ⟨by
    intro coin hcoin
    obtain rfl : coin = walletCoin.toWalletCoin := List.mem_singleton.1 hcoin
    decide, by decide⟩

/-- The outputs fit into a standard transaction, next to one for change. -/
def FitsStandard (vecSend : List CRecipient) : Prop :=
  ∀ change : List CTxOut, change.length ≤ 1 → (∀ txout ∈ change, txout.scriptPubKey = [0x52]) →
    (newTransaction [] (change ++ plainOutputs vecSend)).getTotalSize < MAX_STANDARD_TX_SIZE

theorem isDust_free (txout : CTxOut) : isDust txout 0 = decide (txout.nValue < 0) := by
  simp [isDust, getDustThreshold, getFee_zero]

theorem plainOutputs_not_dust (hrange : AmountsInRange vecSend) :
    ¬ ((plainOutputs vecSend).any fun txout => isDust txout freeWallet.fees.dustRelayFee) = true := by
  rw [List.any_eq_true]
  rintro ⟨txout, hmem, hdust⟩
  obtain ⟨recipient, hrecipient, rfl⟩ := List.mem_map.1 hmem
  rw [show freeWallet.fees.dustRelayFee = 0 from rfl, isDust_free] at hdust
  exact absurd (of_decide_eq_true hdust) (Int.not_lt.2 (hrange recipient hrecipient).1)

theorem payChange_free (nChange : Int) (vout : List CTxOut) : ∃ (change : List CTxOut) (pos : Int) (script : CScript),
    payChange freeWallet.fees 0 none (calmChance 0) nChange (-1) vout = .ok ⟨change ++ vout, 0, pos, script⟩ ∧
      change.length ≤ 1 ∧ (∀ txout ∈ change, txout.scriptPubKey = [0x52]) ∧ (script.isEmpty && pos != -1) = false := by
  unfold payChange
  split
  · have hdust : isDust ⟨nChange, [0x52]⟩ freeWallet.fees.dustRelayFee = false := by
      rw [show freeWallet.fees.dustRelayFee = 0 from rfl, isDust_free]
      exact decide_eq_false (show ¬ nChange < 0 by omega)
    refine ⟨[⟨nChange, [0x52]⟩], 0, [0x52], ?_, le_rfl, by simp, rfl⟩
    simp only [Option.bind_none, calmChance, Option.getD_some, insertChange, hdust, Bool.false_eq_true, if_false, if_true,
      Nat.zero_mod]
    rfl
  · exact ⟨[], -1, [], rfl, by decide, by simp, rfl⟩

theorem checkFee_free (args : CreateArgs) (hcontrol : args.coinControl = none) (hfee : args.nFeePay ≤ 0) (s : FeeState)
    (change : WithChange) (hpaid : change.nFeeRet = 0) :
    checkFee freeWallet args s ⟨change, []⟩ = .ok (.done ⟨change, []⟩) := by
  have hmin : ∀ n, getMinimumFee freeWallet.fees n = 0 := fun n => by
    simp [getMinimumFee, getRequiredFee, freeWallet, getFee_zero]
  have hneeded : ∀ n, feeNeeded freeWallet.fees args.coinControl args.nFeePay n = 0 := fun n => by
    simp only [feeNeeded, hmin, hcontrol]
    omega
  have hsigned : freeWallet.dummySigned [] change.vout = some (newTransaction [] change.vout) := rfl
  simp only [checkFee, hsigned, hneeded, show freeWallet.fees.minRelayTxFee = 0 from rfl, getFee_zero, hpaid]
  rfl

/-- A total that wraps at the last amount is negative: no coin is needed for it, and what is missing becomes change. -/
theorem createTransactionWrapped_free (hrange : AmountsInRange vecSend) (hinit : totalAmount vecSend.dropLast < 9223372036854775808)
    (hwraps : 9223372036854775808 ≤ totalAmount vecSend) (hsize : FitsStandard vecSend) :
    ∃ created, createTransactionWrapped freeWallet { vecSend } calmChance 1 = .ok (some created) := by
  have hne : vecSend ≠ [] := by
    rintro rfl
    exact absurd hwraps (by decide)
  have hlast := totalAmount_dropLast hrange hne
  rw [mainParams_nMaxMoneyOut] at hlast
  have hvalue : wrapAmounts 0 vecSend = .ok (toInt64 (totalAmount vecSend)) := by
    rw [wrapAmounts_eq hrange le_rfl (by decide), if_neg (by omega), Int.zero_add]
  generalize hn : toInt64 (totalAmount vecSend) = nValue at hvalue
  have hneg : InInt64 nValue ∧ nValue ≤ 0 := by
    unfold toInt64 at hn
    exact ⟨⟨by omega, by omega⟩, by omega⟩
  have htarget : wrapValueToSelect { vecSend } nValue 0 = nValue := by
    unfold wrapValueToSelect
    rw [Int.add_zero, toInt64_of_inInt64 hneg.1, ite_self]
  obtain ⟨change, pos, script, hchange, hlen, hscripts, hscript⟩ :=
    payChange_free (toInt64 (0 - nValue)) (plainOutputs vecSend)
  have hround : createRoundWrapped freeWallet { vecSend } calmChance freeWallet.vAvailableCoins nValue ⟨0, 0⟩ =
      .ok (.done ⟨⟨change ++ plainOutputs vecSend, 0, pos, script⟩, []⟩) := by
    rw [createRoundWrapped, fillOutputs_free hrange countFeePayers_ne_zero, if_neg (plainOutputs_not_dust hrange), htarget,
      selectCoinsToSpend_none _ _ _ _ hneg.1, if_pos hneg.2]
    simp only [checked, Except.mapError, ok_bind, hchange]
    exact checkFee_free _ rfl (le_refl 0) _ _ rfl
  have hfits := hsize change hlen hscripts
  have hsigned : signInputs (freeWallet.produceSignature
      (freeWallet.makeTransaction (newTransaction [] (change ++ plainOutputs vecSend)))) [] = some [] := rfl
  have hfinish : finishTransaction freeWallet { vecSend } ⟨⟨change ++ plainOutputs vecSend, 0, pos, script⟩, []⟩ =
      .ok ⟨freeWallet.makeTransaction (newTransaction [] (change ++ plainOutputs vecSend)), 0, pos⟩ := by
    simp only [finishTransaction, rejectIf, hscript, Bool.false_eq_true, if_false, if_true, ok_bind, unsignedInputs,
      List.map_nil, hsigned, decide_eq_false (Nat.not_le.2 hfits), ge_iff_le]
    rfl
  refine ⟨⟨freeWallet.makeTransaction (newTransaction [] (change ++ plainOutputs vecSend)), 0, pos⟩, ?_⟩
  rw [createTransactionWrapped_eq hvalue hne rfl (le_refl 0), whileLoop, hround, ok_bind]
  exact map_eq_ok.2 ⟨_, hfinish, rfl⟩

theorem createTransactionWrapped_fault (hrange : AmountsInRange vecSend) (hover : mainParams.nMaxMoneyOut < totalAmount vecSend)
    (hfits : totalAmount vecSend < 9223372036854775808) (hlimit : INT64_MAX < totalAmount vecSend + MIN_CHANGE) :
    createTransactionWrapped freeWallet { vecSend } calmChance 1 = .error (.fault .overflow) := by
  have hne := ne_nil_of_overlarge hover
  have hlast := totalAmount_dropLast hrange hne
  rw [mainParams_nMaxMoneyOut] at hover
  have hin : InInt64 (totalAmount vecSend) := ⟨by omega, by omega⟩
  have hvalue : wrapAmounts 0 vecSend = .ok (totalAmount vecSend) := by
    rw [wrapAmounts_eq hrange le_rfl (by decide), if_neg (by omega), Int.zero_add, toInt64_of_inInt64 hin]
  have htarget : wrapValueToSelect { vecSend } (totalAmount vecSend) 0 = totalAmount vecSend := by
    unfold wrapValueToSelect
    rw [Int.add_zero, toInt64_of_inInt64 hin, ite_self]
  have hscan : trySelections (totalAmount vecSend) freeWallet.vAvailableCoins (calmChance 0).coins 0
      (selectionAttempts freeWallet.opts) = .error .overflow := by
    have heligible : COutput.eligible 1 6 0 walletCoin = true := by decide
    have hother : ¬ walletCoin.nValue = totalAmount vecSend := by
      rw [show walletCoin.nValue = 500000000 from rfl]
      omega
    have hsum : checkInt64 (totalAmount vecSend + MIN_CHANGE) = .error .overflow :=
      if_neg fun hsum => absurd hsum.2 (by unfold INT64_MAX at hlimit; omega)
    show trySelections _ [walletCoin] _ _ ((1, 6, 0) :: _) = _
    simp only [trySelections, selectCoinsMinConf, calmChance, id, scanCoins, heligible, Bool.not_true, Bool.false_eq_true,
      if_false, if_neg hother, hsum, error_bind]
  rw [createTransactionWrapped_eq hvalue hne rfl (le_refl 0), whileLoop, createRoundWrapped,
    fillOutputs_free hrange countFeePayers_ne_zero, if_neg (plainOutputs_not_dust hrange), htarget,
    selectCoinsToSpend_none _ _ _ _ hin, if_neg (by omega), hscan]
  rfl

end Refuse

/-- **Which over-large payments are refused.** The fund check of `legacy_sendmany` refuses a payment above the money
    range for every balance within it exactly if the wrapped total is above the range too. `CreateTransaction` refuses
    it for every wallet exactly if the total wraps before the last amount, or no sum with the total leaves `int64_t`. -/
theorem overlargePayment_refused_iff (vecSend : List CRecipient) (hrange : AmountsInRange vecSend)
    (hover : mainParams.nMaxMoneyOut < totalAmount vecSend) :
    ((∀ balance, 0 ≤ balance → balance ≤ mainParams.nMaxMoneyOut → checkFunds balance vecSend ≠ .ok ()) ↔
      mainParams.nMaxMoneyOut < totalAmount vecSend % 18446744073709551616 ∧
        totalAmount vecSend % 18446744073709551616 ≤ INT64_MAX) ∧
    (9223372036854775808 ≤ totalAmount vecSend.dropLast ∨ totalAmount vecSend + MIN_CHANGE ≤ INT64_MAX →
      AlwaysRefused vecSend) ∧
    (FitsStandard vecSend → AlwaysRefused vecSend →
      9223372036854775808 ≤ totalAmount vecSend.dropLast ∨ totalAmount vecSend + MIN_CHANGE ≤ INT64_MAX) := by
  have hne := ne_nil_of_overlarge hover
  refine ⟨?_, fun hcases => ?_, fun hsize hrefused => ?_⟩
  · have hcheck : ∀ balance, checkFunds balance vecSend ≠ .ok () ↔ balance < toInt64 (totalAmount vecSend) := fun balance => by
      rw [checkFunds, ne_eq, rejectIf_eq_ok, sendmanyTotal_eq]
      simp
    simp only [hcheck]
    rw [mainParams_nMaxMoneyOut] at hover ⊢
    unfold toInt64 INT64_MAX
    constructor
    · intro hall
      have := hall 7200000000000000000 (by omega) le_rfl
      omega
    · intro hwrapped balance hlow hhigh
      omega
  · rcases hcases with hguard | hfits
    · exact alwaysRefused_of_guard hrange hne hguard
    · exact alwaysRefused_of_fits hrange hover hfits
  · by_contra hcases
    rw [not_or, Int.not_le, Int.not_le] at hcases
    obtain ⟨reason, hreason⟩ := hrefused freeWallet { vecSend } calmChance 0 freeWallet_withinSupply rfl rfl (le_refl 0)
    rcases Int.lt_or_le (totalAmount vecSend) 9223372036854775808 with hlt | hwraps
    · rw [createTransactionWrapped_fault hrange hover hlt hcases.2] at hreason
      cases hreason
    · obtain ⟨created, hcreated⟩ := createTransactionWrapped_free hrange hcases.1 hwraps hsize
      rw [hcreated] at hreason
      cases hreason

def twoRecipients (nAmount : Int) : List CRecipient := [⟨[0x53], nAmount, false⟩, ⟨[0x54], nAmount, false⟩]

theorem twoRecipients_inRange {nAmount : Int} (h : 0 ≤ nAmount ∧ nAmount ≤ mainParams.nMaxMoneyOut) :
    AmountsInRange (twoRecipients nAmount) := by
  intro recipient hmem
  simp only [twoRecipients, List.mem_cons, List.not_mem_nil, or_false] at hmem
  rcases hmem with rfl | rfl <;> exact h

theorem eightyBillion_refused : mainParams.nMaxMoneyOut < totalAmount (twoRecipients 4000000000000000000) ∧
    AlwaysRefused (twoRecipients 4000000000000000000) :=
  have hover : mainParams.nMaxMoneyOut < totalAmount (twoRecipients 4000000000000000000) := by decide
  ⟨hover, (overlargePayment_refused_iff _ (twoRecipients_inRange ⟨by decide, by decide⟩) hover).2.1 (.inr (by decide))⟩

/-- A wallet with one coin of five sends 50 billion coins to each of two recipients: the transaction has no input. -/
theorem legacySendmany_overlarge : AmountsInRange (twoRecipients 5000000000000000000) ∧
    mainParams.nMaxMoneyOut < totalAmount (twoRecipients 5000000000000000000) ∧
    ∃ created, legacySendmany sampleWallet 500000000 (twoRecipients 5000000000000000000) calmChance 2 = .ok (some created) ∧
      created.txRet.vin = [] := by
  refine ⟨twoRecipients_inRange ⟨by decide, by decide⟩, by decide, ?_⟩
  have hrun : (legacySendmany sampleWallet 500000000 (twoRecipients 5000000000000000000) calmChance 2).map
      (Option.map fun created => created.txRet.vin) = .ok (some []) := by decide +kernel
  obtain ⟨created?, hcreated, hvin⟩ := map_eq_ok.1 hrun
  obtain ⟨created, rfl, -⟩ := Option.map_eq_some_iff.1 hvin
  exact ⟨created, hcreated, Option.some.inj hvin⟩

end KrovaCoin
