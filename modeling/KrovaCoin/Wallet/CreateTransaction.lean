import KrovaCoin.Lib.Shares
import KrovaCoin.Wallet.CoinSelection
import KrovaCoin.Serialize

/-!
# Building a transaction (`wallet/wallet.cpp`, `wallet/fees.cpp`)

* `getMinimumFee`, `feeNeeded` — the fee a transaction of a given size should pay.
* `createRound`, `createTransaction` — the fee loop and the whole function, with a bound on the rounds.

Principal results: `fillOutputs_eq_paidOutputs`, `outputsValue_paidOutputs`, `payChange_paid`.
-/

namespace KrovaCoin

open Lib

/-! ## Failures -/

/-- Why a wallet function does not return `true`. -/
inductive WalletError where
  | returnsFalse (strFailReason : String)
  | fault (f : Fault)
  deriving DecidableEq, Repr

/-- A checked computation within a wallet function. -/
def checked {α : Type} (x : Checked α) : Except WalletError α := x.mapError .fault

theorem checked_eq_ok {α : Type} {x : Checked α} {a : α} : checked x = .ok a ↔ x = .ok a := by
  cases x with
  | error e => simp [checked, Except.mapError]
  | ok a => simp [checked, Except.mapError]

/-! ## Fees -/

/-- The fee settings of the wallet and the node. `smartFee` is what `estimateSmartFee` answers; `fTargetMissed` says
    that it found no answer for `nTxConfirmTarget` itself. -/
structure FeeSettings where
  payTxFee : Int
  minTxFee : Int
  minRelayTxFee : Int
  dustRelayFee : Int
  maxTxFee : Int
  smartFee : Int
  fTargetMissed : Bool

def getRequiredFee (fees : FeeSettings) (nTxBytes : Nat) : Int :=
  max (getFee fees.minTxFee nTxBytes) (getFee fees.minRelayTxFee nTxBytes)

def getMinimumFee (fees : FeeSettings) (nTxBytes : Nat) : Int :=
  let nFeeNeeded := getFee fees.payTxFee nTxBytes
  let nFeeNeeded :=
    if nFeeNeeded = 0 then
      let nFeeNeeded := getFee fees.smartFee nTxBytes
      if nFeeNeeded = 0 ∨ fees.fTargetMissed then max nFeeNeeded (getRequiredFee fees nTxBytes) else nFeeNeeded
    else nFeeNeeded
  let nFeeNeeded :=
    if nFeeNeeded < getFee fees.minRelayTxFee nTxBytes then getFee fees.minRelayTxFee nTxBytes else nFeeNeeded
  if nFeeNeeded > fees.maxTxFee then fees.maxTxFee else nFeeNeeded

/-- `nFeeNeeded` of `CreateTransaction`. -/
def feeNeeded (fees : FeeSettings) (coinControl : Option CCoinControl) (nFeePay : Int) (nBytes : Nat) : Int :=
  let nFeeNeeded := max nFeePay (getMinimumFee fees nBytes)
  match coinControl with
  | none => nFeeNeeded
  | some cc =>
    if cc.fOverrideFeeRate then getFee cc.nFeeRate nBytes
    else if nFeeNeeded > 0 ∧ cc.nMinimumTotalFee > nFeeNeeded then cc.nMinimumTotalFee
    else nFeeNeeded

/-! ## The wallet -/

structure CRecipient where
  scriptPubKey : CScript
  nAmount : Int
  fSubtractFeeFromAmount : Bool

/-- What `CreateTransaction` reads of the wallet and the node. -/
structure CWallet where
  txs : WalletTxs
  opts : SelectionOptions
  fees : FeeSettings
  /-- What `AvailableCoins` finds: it looks at every output of every wallet transaction once. -/
  vAvailableCoins : List COutput
  available : txs.Spendable (vAvailableCoins.map COutput.toWalletCoin)
  /-- The order of a `std::set` of coins. -/
  setOrder : List WalletCoin → List WalletCoin
  setOrder_perm : ∀ coins, (setOrder coins).Perm coins
  /-- `ProduceSignature` with the `DummySignatureCreator`. -/
  dummySignature : CScript → Option CScript
  /-- `ProduceSignature` for an input of a transaction. -/
  produceSignature : CTransaction → Nat → WalletCoin → Option CScript
  /-- The limits of `CalculateMemPoolAncestors`. -/
  withinChainLimits : CTransaction → Bool
  /-- `SerializeHash`. -/
  serializeHash : List UInt8 → Uint256

/-- The arguments of `CreateTransaction`. -/
structure CreateArgs where
  vecSend : List CRecipient
  nChangePosInOut : Int := -1
  coinControl : Option CCoinControl := none
  sign : Bool := true
  nFeePay : Int := 0
  nExtraSize : Int := 0

/-- What is left to chance in one round: the coin selection by attempt, the script of the reserved key (`none` if the
    key pool is empty), and the number from which the position of the change is drawn. -/
structure RoundChance where
  coins : Nat → CoinRandomness
  reservedKey : Option CScript
  nRand : Nat

/-- The inputs that spend the coins, signed by `produce`. -/
def signInputs (produce : Nat → WalletCoin → Option CScript) (coins : List WalletCoin) : Option (List CTxIn) :=
  coins.zipIdx.mapM fun (coin, nIn) => (produce nIn coin).map fun scriptSig => ⟨coin.outPoint, scriptSig, SEQUENCE_FINAL⟩

/-- A `CMutableTransaction` with these inputs and outputs; it has no hash yet. -/
def newTransaction (vin : List CTxIn) (vout : List CTxOut) : CTransaction where
  hash := 0
  nVersion := TXVERSION_LEGACY
  nType := 0
  vin := vin
  vout := vout
  nLockTime := 0
  sapData := some ⟨0, [], [], .replicate 64 0⟩
  extraPayload := none

/-- `CTransaction(CMutableTransaction)`. -/
def CWallet.makeTransaction (w : CWallet) (tx : CTransaction) : CTransaction :=
  { tx with hash := w.serializeHash tx.serialize }

/-- The inputs without signatures. -/
def unsignedInputs (coins : List WalletCoin) : List CTxIn := coins.map fun coin => ⟨coin.outPoint, [], SEQUENCE_FINAL⟩

def CWallet.dummySigned (w : CWallet) (coins : List WalletCoin) (vout : List CTxOut) : Option CTransaction :=
  (signInputs (fun _ coin => w.dummySignature coin.txOut.scriptPubKey) coins).map fun vin => newTransaction vin vout

/-- `nBytes`: the size with the additional payloads, an `unsigned int`. -/
def feeBytes (txNew : CTransaction) (nExtraSize : Int) : Nat := ((txNew.getTotalSize + nExtraSize) % 4294967296).toNat

/-! ## The outputs -/

def sumAmounts : Int → List CRecipient → Except WalletError Int
  | nValue, [] => .ok nValue
  | nValue, recipient :: vecSend => do
    rejectIf (decide (nValue < 0 ∨ recipient.nAmount < 0)) (.returnsFalse "Transaction amounts must be positive")
    let nValue ← checked (checkInt64 (nValue + recipient.nAmount))
    sumAmounts nValue vecSend

/-- `nSubtractFeeFromAmount`. -/
def countFeePayers (vecSend : List CRecipient) : Nat := vecSend.countP CRecipient.fSubtractFeeFromAmount

/-- An amount without its part of the fee; the first recipient that pays bears the remainder. -/
def subtractFee (nFeeRet : Int) (nSubtractFeeFromAmount : Nat) (fFirst : Bool) (nAmount : Int) : Checked Int := do
  let nValue ← checkInt64 (nAmount - nFeeRet / nSubtractFeeFromAmount)
  if fFirst then checkInt64 (nValue - nFeeRet % nSubtractFeeFromAmount) else return nValue

section Round

variable (fees : FeeSettings) (nFeeRet : Int) (nSubtractFeeFromAmount : Nat)

def recipientValue (fFirst : Bool) (recipient : CRecipient) : Checked Int :=
  if recipient.fSubtractFeeFromAmount then do
    ensure (nSubtractFeeFromAmount != 0)
    subtractFee nFeeRet nSubtractFeeFromAmount fFirst recipient.nAmount
  else .ok recipient.nAmount

def fillOutputs : Bool → List CRecipient → Except WalletError (List CTxOut)
  | _, [] => .ok []
  | fFirst, recipient :: vecSend => do
    let nValue ← checked (recipientValue nFeeRet nSubtractFeeFromAmount fFirst recipient)
    let txout : CTxOut := ⟨nValue, recipient.scriptPubKey⟩
    rejectIf (isDust txout fees.dustRelayFee) (.returnsFalse "Transaction amount too small")
    let vout ← fillOutputs (fFirst && !recipient.fSubtractFeeFromAmount) vecSend
    return txout :: vout

/-! ## The change -/

/-- The change is added to the first output with its script; `none` if there is none. -/
def combineChange (scriptChange : CScript) (nChange : Int) : List CTxOut → Checked (Option (List CTxOut))
  | [] => .ok none
  | txout :: vout =>
    if scriptChange = txout.scriptPubKey then do
      let nValue ← checkInt64 (txout.nValue + nChange)
      return some (⟨nValue, txout.scriptPubKey⟩ :: vout)
    else do
      let vout? ← combineChange scriptChange nChange vout
      return vout?.map (txout :: ·)

structure WithChange where
  vout : List CTxOut
  nFeeRet : Int
  nChangePosInOut : Int
  scriptChange : CScript

/-- A new output for the change, unless it would be dust. -/
def insertChange (scriptChange : CScript) (nChange nChangePosRequest : Int) (nRand : Nat) (vout : List CTxOut) :
    Except WalletError WithChange :=
  let newTxOut : CTxOut := ⟨nChange, scriptChange⟩
  if isDust newTxOut fees.dustRelayFee then do
    let nFeeRet ← checked (checkInt64 (nFeeRet + nChange))
    return ⟨vout, nFeeRet, -1, scriptChange⟩
  else if nChangePosRequest = -1 then
    let pos := nRand % (vout.length + 1)
    return ⟨vout.insertIdx pos newTxOut, nFeeRet, pos, scriptChange⟩
  else if nChangePosRequest < 0 ∨ nChangePosRequest > vout.length then
    .error (.returnsFalse "Change index out of range")
  else return ⟨vout.insertIdx nChangePosRequest.toNat newTxOut, nFeeRet, nChangePosRequest, scriptChange⟩

def payChange (coinControl : Option CCoinControl) (chance : RoundChance) (nChange nChangePosRequest : Int)
    (vout : List CTxOut) : Except WalletError WithChange :=
  if nChange > 0 then
    match coinControl.bind CCoinControl.destChange with
    | some scriptChange => do
      match ← checked (combineChange scriptChange nChange vout) with
      -- the position stays the requested one
      | some vout => return ⟨vout, nFeeRet, nChangePosRequest, scriptChange⟩
      | none => insertChange fees nFeeRet scriptChange nChange nChangePosRequest chance.nRand vout
    | none =>
      insertChange fees nFeeRet (chance.reservedKey.getD []) nChange nChangePosRequest chance.nRand vout
  else return ⟨vout, nFeeRet, -1, []⟩

end Round

/-! ## `CreateTransaction` -/

/-- The variables that a round of the loop hands on. -/
structure FeeState where
  nFeeRet : Int
  nRound : Nat

/-- What the loop has built: the coins in the order of the set, and the outputs. -/
structure BuiltTx extends WithChange where
  setCoins : List WalletCoin

/-- What `CreateTransaction` returns. -/
structure CreatedTx where
  txRet : CTransaction
  nFeeRet : Int
  nChangePosInOut : Int
  deriving DecidableEq

section Create

variable (w : CWallet) (args : CreateArgs) (chance : Nat → RoundChance)

/-- `GetOutputsFromCoinControl`; what the selection does not ask of these coins is left open. -/
def CWallet.getOutputsFromCoinControl (w : CWallet) : List COutPoint → Checked (List COutput)
  | [] => .ok []
  | outPoint :: vPresetInputs =>
    match w.txs.mapWallet outPoint.hash with
    | none => getOutputsFromCoinControl w vPresetInputs
    | some tx =>
      if h : outPoint.n.toNat < tx.vout.length then do
        let vCoinsRet ← getOutputsFromCoinControl w vPresetInputs
        return ⟨⟨tx, outPoint.n, h⟩, 0, true, true, none⟩ :: vCoinsRet
      else .error .assertion

def CWallet.selectionCoins (w : CWallet) (coinControl : Option CCoinControl) : Checked (List COutput) :=
  if onlySelected coinControl then w.getOutputsFromCoinControl (coinControl.elim [] CCoinControl.setSelected)
  else .ok w.vAvailableCoins

/-- The amount that the coins have to reach. -/
def valueToSelect (nValue nFeeRet : Int) : Checked Int :=
  if countFeePayers args.vecSend = 0 then checkInt64 (nValue + nFeeRet) else .ok nValue

/-- The end of a round: the fee for the size with dummy signatures decides whether the loop goes on. -/
def checkFee (s : FeeState) (built : BuiltTx) : Except WalletError (LoopStep FeeState BuiltTx) :=
  match w.dummySigned built.setCoins built.vout with
  | none => .error (.returnsFalse "Signing transaction failed")
  | some txNew => do
    let nBytes := feeBytes txNew args.nExtraSize
    let nFeeNeeded := feeNeeded w.fees args.coinControl args.nFeePay nBytes
    rejectIf (decide (nFeeNeeded < getFee w.fees.minRelayTxFee nBytes))
      (.returnsFalse "Transaction too large for fee policy")
    return if built.nFeeRet ≥ nFeeNeeded then .done built else .next ⟨nFeeNeeded, s.nRound + 1⟩

def createRound (vAvailableCoins : List COutput) (nValue : Int) (s : FeeState) :
    Except WalletError (LoopStep FeeState BuiltTx) := do
  let nValueToSelect ← checked (valueToSelect args nValue s.nFeeRet)
  let vout ← fillOutputs w.fees s.nFeeRet (countFeePayers args.vecSend) true args.vecSend
  match ← checked (selectCoinsToSpend w.txs w.opts vAvailableCoins nValueToSelect args.coinControl
      (chance s.nRound).coins) with
  | none => .error (.returnsFalse "Insufficient funds.")
  | some (setCoins, nValueIn) =>
    let nChange ← checked (checkInt64 (nValueIn - nValueToSelect))
    let change ← payChange w.fees s.nFeeRet args.coinControl (chance s.nRound) nChange args.nChangePosInOut vout
    checkFee w args s ⟨change, w.setOrder setCoins⟩

/-- What follows the loop. -/
def finishTransaction (built : BuiltTx) : Except WalletError CreatedTx := do
  rejectIf (built.scriptChange.isEmpty && built.nChangePosInOut != -1)
    (.returnsFalse "Can't generate a change-address key. Please call keypoolrefill first.")
  let txNew := newTransaction (unsignedInputs built.setCoins) built.vout
  let vin ← if args.sign then
      match signInputs (w.produceSignature (w.makeTransaction txNew)) built.setCoins with
      | none => .error (.returnsFalse "Signing transaction failed")
      | some vin => .ok vin
    else .ok txNew.vin
  let txNew := newTransaction vin built.vout
  rejectIf (decide (txNew.getTotalSize ≥ MAX_STANDARD_TX_SIZE)) (.returnsFalse "Transaction too large")
  let txRet := w.makeTransaction txNew
  rejectIf (!w.withinChainLimits txRet) (.returnsFalse "Transaction has too long of a mempool chain")
  return ⟨txRet, built.nFeeRet, built.nChangePosInOut⟩

/-- `CWallet::CreateTransaction`; `none` if the loop is still running. -/
def createTransaction (fuel : Nat) : Except WalletError (Option CreatedTx) := do
  let nValue ← sumAmounts 0 args.vecSend
  rejectIf args.vecSend.isEmpty (.returnsFalse "Transaction must have at least one recipient")
  let vAvailableCoins ← checked (w.selectionCoins args.coinControl)
  match ← whileLoop (createRound w args chance vAvailableCoins nValue) fuel
      ⟨if args.nFeePay > 0 then args.nFeePay else 0, 0⟩ with
  | none => return none
  | some built => some <$> finishTransaction w args built

end Create

/-! ## What the recipients should be paid -/

/-- Which recipients pay the fee. -/
def feePayers (vecSend : List CRecipient) : List Bool := vecSend.map CRecipient.fSubtractFeeFromAmount

theorem count_feePayers (vecSend : List CRecipient) : (feePayers vecSend).count true = countFeePayers vecSend := by
  rw [feePayers, countFeePayers, List.count_eq_countP, List.countP_map]
  congr 1
  funext recipient
  simp

/-- One output for each recipient, of its amount without its share of the fee. -/
def paidOutputs (vecSend : List CRecipient) (f : Int) : List CTxOut :=
  vecSend.zipIdx.map fun e => ⟨e.1.nAmount - share (feePayers vecSend) f e.2, e.1.scriptPubKey⟩

/-- Where the change `nChange` may go: what is added to the fee, the outputs, and the position that is reported. -/
inductive ChangePaid (dustRelayFee : Int) (coinControl : Option CCoinControl) (nChangePosRequest : Int)
    (paid : List CTxOut) : Int → Int → List CTxOut → Int → Prop
  | none : ChangePaid dustRelayFee coinControl nChangePosRequest paid 0 0 paid (-1)
  | dust {nChange : Int} {scriptChange : CScript} : 0 < nChange → isDust ⟨nChange, scriptChange⟩ dustRelayFee = true →
      ChangePaid dustRelayFee coinControl nChangePosRequest paid nChange nChange paid (-1)
  | output {nChange : Int} {scriptChange : CScript} {i : Nat} : 0 < nChange →
      isDust ⟨nChange, scriptChange⟩ dustRelayFee = false → i ≤ paid.length →
      (nChangePosRequest = -1 ∨ nChangePosRequest = i) →
      (∀ dest, coinControl.bind CCoinControl.destChange = some dest → scriptChange = dest) →
      ChangePaid dustRelayFee coinControl nChangePosRequest paid nChange 0 (paid.insertIdx i ⟨nChange, scriptChange⟩) i
  | merged {nChange : Int} {txout : CTxOut} {i : Nat} : 0 < nChange →
      coinControl.bind CCoinControl.destChange = some txout.scriptPubKey → paid[i]? = some txout →
      (∀ j < i, ∀ other, paid[j]? = some other → other.scriptPubKey ≠ txout.scriptPubKey) →
      ChangePaid dustRelayFee coinControl nChangePosRequest paid nChange 0
        (paid.set i ⟨txout.nValue + nChange, txout.scriptPubKey⟩) nChangePosRequest

def outputsValue (vout : List CTxOut) : Int := (vout.map CTxOut.nValue).sum

@[simp] theorem outputsValue_cons (txout : CTxOut) (vout : List CTxOut) :
    outputsValue (txout :: vout) = txout.nValue + outputsValue vout := by
  simp [outputsValue]

theorem outputsValue_insertIdx (txout : CTxOut) : ∀ {vout : List CTxOut} {i : Nat}, i ≤ vout.length →
    outputsValue (vout.insertIdx i txout) = outputsValue vout + txout.nValue
  | vout, 0, _ => by
    rw [List.insertIdx_zero, outputsValue_cons, add_comm]
  | [], i + 1, h => by simp at h
  | other :: vout, i + 1, h => by
    rw [List.insertIdx_succ_cons, outputsValue_cons, outputsValue_insertIdx txout (by simpa using h), outputsValue_cons]
    ring

theorem outputsValue_set (txout : CTxOut) : ∀ {vout : List CTxOut} {i : Nat} {other : CTxOut}, vout[i]? = some other →
    outputsValue (vout.set i txout) = outputsValue vout - other.nValue + txout.nValue
  | [], i, other, h => by simp at h
  | first :: vout, 0, other, h => by
    obtain rfl : first = other := by simpa using h
    rw [List.set_cons_zero, outputsValue_cons, outputsValue_cons]
    ring
  | first :: vout, i + 1, other, h => by
    have hrest : vout[i]? = some other := by simpa using h
    rw [List.set_cons_succ, outputsValue_cons, outputsValue_set txout hrest, outputsValue_cons]
    ring

theorem ChangePaid.outputsValue_eq {dustRelayFee : Int} {coinControl : Option CCoinControl} {nChangePosRequest : Int}
    {paid vout : List CTxOut} {nChange extra pos : Int}
    (h : ChangePaid dustRelayFee coinControl nChangePosRequest paid nChange extra vout pos) :
    outputsValue vout + extra = outputsValue paid + nChange := by
  cases h with
  | none => rfl
  | dust _ _ => rfl
  | output _ _ hi _ _ => rw [outputsValue_insertIdx _ hi, add_zero]
  | merged _ _ hout _ =>
    rw [outputsValue_set _ hout]
    ring

/-! ## The functions of a round -/

theorem sumAmounts_eq_ok : ∀ {vecSend : List CRecipient} {n nValue : Int}, sumAmounts n vecSend = .ok nValue →
    nValue = n + (vecSend.map CRecipient.nAmount).sum ∧ ∀ recipient ∈ vecSend, 0 ≤ recipient.nAmount
  | [], n, nValue, h => by
    cases h
    simp
  | recipient :: vecSend, n, nValue, h => by
    rw [sumAmounts, bind_eq_ok] at h
    obtain ⟨_, hpos, h⟩ := h
    obtain ⟨n', hn', h⟩ := bind_eq_ok.mp h
    obtain ⟨hsum, hall⟩ := sumAmounts_eq_ok h
    have hpos' := of_decide_eq_false (rejectIf_eq_ok.mp hpos)
    rw [checkInt64_eq_ok (checked_eq_ok.mp hn')] at hsum
    refine ⟨?_, List.forall_mem_cons.mpr ⟨by omega, hall⟩⟩
    rw [hsum, List.map_cons, List.sum_cons]
    ring

theorem getFee_nonneg (rate : Int) (nSize : Nat) : 0 ≤ getFee rate nSize := by
  unfold getFee
  dsimp only
  split <;> omega

theorem nValue_nonneg_of_not_dust {txout : CTxOut} {dustRelayFee : Int} (h : isDust txout dustRelayFee = false) :
    0 ≤ txout.nValue := by
  have hle := Int.not_lt.mp (of_decide_eq_false h)
  have hthreshold : 0 ≤ getDustThreshold txout dustRelayFee := by
    unfold getDustThreshold
    split
    · exact le_refl 0
    · exact getFee_nonneg _ _
  exact hthreshold.trans hle

section Outputs

variable {fees : FeeSettings} {f : Int} {k : Nat}

variable {fFirst : Bool}

theorem subtractFee_eq_ok {nAmount nValue : Int} (h : subtractFee f k fFirst nAmount = .ok nValue) :
    nValue = nAmount - (f / k + if fFirst then f % k else 0) := by
  obtain ⟨n, hn, h⟩ := bind_eq_ok.mp h
  split at h
  · rename_i hfirst
    rw [if_pos hfirst, checkInt64_eq_ok h, checkInt64_eq_ok hn]
    ring
  · rename_i hfirst
    cases h
    rw [if_neg hfirst, checkInt64_eq_ok hn]
    ring

variable {recipient : CRecipient}

theorem recipientValue_eq_ok {nValue : Int} (h : recipientValue f k fFirst recipient = .ok nValue) :
    nValue = recipient.nAmount -
      if recipient.fSubtractFeeFromAmount then f / k + if fFirst then f % k else 0 else 0 := by
  unfold recipientValue at h
  split at h
  · rename_i hpays
    obtain ⟨_, _, h⟩ := bind_eq_ok.mp h
    rw [if_pos hpays, subtractFee_eq_ok h]
  · rename_i hfree
    cases h
    rw [if_neg hfree]
    ring

variable {vecSend : List CRecipient} {vout : List CTxOut}

theorem fillOutputs_cons_eq_ok (h : fillOutputs fees f k fFirst (recipient :: vecSend) = .ok vout) :
    ∃ txout rest, vout = txout :: rest ∧ txout.scriptPubKey = recipient.scriptPubKey ∧
      txout.nValue = recipient.nAmount -
        (if recipient.fSubtractFeeFromAmount then f / k + if fFirst then f % k else 0 else 0) ∧
      isDust txout fees.dustRelayFee = false ∧
      fillOutputs fees f k (fFirst && !recipient.fSubtractFeeFromAmount) vecSend = .ok rest := by
  rw [fillOutputs, bind_eq_ok] at h
  obtain ⟨nValue, hvalue, h⟩ := h
  obtain ⟨_, hdust, h⟩ := bind_eq_ok.mp h
  obtain ⟨rest, hrest, h⟩ := bind_eq_ok.mp h
  cases h
  exact ⟨_, rest, rfl, rfl, recipientValue_eq_ok (checked_eq_ok.mp hvalue), rejectIf_eq_ok.mp hdust, hrest⟩

theorem fillOutputs_eq_afterShares (h : fillOutputs fees f k fFirst vecSend = .ok vout) :
    vout = List.zipWith (fun recipient nValue => ⟨nValue, recipient.scriptPubKey⟩) vecSend
      (afterShares CRecipient.fSubtractFeeFromAmount CRecipient.nAmount f k fFirst vecSend) := by
  induction vecSend generalizing fFirst vout with
  | nil =>
    cases h
    rfl
  | cons recipient vecSend ih =>
    obtain ⟨⟨value, script⟩, rest, rfl, hscript, hvalue, -, hrest⟩ := fillOutputs_cons_eq_ok h
    dsimp only at hscript hvalue
    rw [ih hrest, hscript, hvalue, afterShares, List.zipWith_cons_cons]

theorem fillOutputs_eq_paidOutputs (h : fillOutputs fees f (countFeePayers vecSend) true vecSend = .ok vout) :
    vout = paidOutputs vecSend f := by
  rw [fillOutputs_eq_afterShares h, countFeePayers, zipWith_afterShares]
  rfl

theorem outputsValue_paidOutputs (vecSend : List CRecipient) (f : Int) : outputsValue (paidOutputs vecSend f) =
      (vecSend.map CRecipient.nAmount).sum - if countFeePayers vecSend = 0 then 0 else f := by
  have hsum := @sum_shares f (feePayers vecSend)
  rw [count_feePayers, show (feePayers vecSend).length = vecSend.length by simp [feePayers]] at hsum
  rw [← hsum, ← sum_zipIdx_sub CRecipient.nAmount, outputsValue, paidOutputs, List.map_map]
  rfl

end Outputs

section Change

variable {fees : FeeSettings} {nChange : Int} {scriptChange : CScript}

theorem combineChange_eq_ok : ∀ {vout vout' : List CTxOut}, combineChange scriptChange nChange vout = .ok (some vout') →
    ∃ i txout, vout[i]? = some txout ∧ txout.scriptPubKey = scriptChange ∧
      (∀ j < i, ∀ other, vout[j]? = some other → other.scriptPubKey ≠ scriptChange) ∧
      vout' = vout.set i ⟨txout.nValue + nChange, txout.scriptPubKey⟩
  | [], vout', h => by cases h
  | txout :: vout, vout', h => by
    unfold combineChange at h
    split at h
    · rename_i hscript
      obtain ⟨nValue, hvalue, h⟩ := bind_eq_ok.mp h
      cases h
      refine ⟨0, txout, rfl, hscript.symm, fun j hj => absurd hj (Nat.not_lt_zero j), ?_⟩
      rw [List.set_cons_zero, checkInt64_eq_ok hvalue]
    · rename_i hscript
      obtain ⟨rest?, hrest, h⟩ := bind_eq_ok.mp h
      cases rest? with
      | none => cases h
      | some rest =>
        cases h
        obtain ⟨i, txout', hget, hscript', hfirst, rfl⟩ := combineChange_eq_ok hrest
        refine ⟨i + 1, txout', by simpa using hget, hscript', fun j hj other hother => ?_, rfl⟩
        cases j with
        | zero =>
          obtain rfl : txout = other := by simpa using hother
          exact fun heq => hscript heq.symm
        | succ j => exact hfirst j (by omega) other (by simpa using hother)

variable {nChangePosRequest : Int} {paid : List CTxOut} {change : WithChange} {coinControl : Option CCoinControl}

theorem insertChange_paid {f : Int} {nRand : Nat} (hpos : 0 < nChange)
    (hdest : ∀ dest, coinControl.bind CCoinControl.destChange = some dest → scriptChange = dest)
    (h : insertChange fees f scriptChange nChange nChangePosRequest nRand paid = .ok change) :
    ChangePaid fees.dustRelayFee coinControl nChangePosRequest paid nChange (change.nFeeRet - f) change.vout
      change.nChangePosInOut := by
  unfold insertChange at h
  dsimp only at h
  split at h
  · rename_i hdust
    obtain ⟨fee, hfee, h⟩ := bind_eq_ok.mp h
    cases h
    rw [checkInt64_eq_ok (checked_eq_ok.mp hfee), add_sub_cancel_left]
    exact .dust hpos hdust
  rename_i hdust
  have hdust' : isDust ⟨nChange, scriptChange⟩ fees.dustRelayFee = false := by simpa using hdust
  split at h
  · rename_i hrequest
    cases h
    rw [sub_self]
    exact .output hpos hdust' (Nat.lt_succ_iff.mp (Nat.mod_lt _ (Nat.succ_pos _))) (.inl hrequest) hdest
  split at h
  · cases h
  · cases h
    obtain ⟨i, hi⟩ : ∃ i : Nat, nChangePosRequest = i := ⟨nChangePosRequest.toNat, by omega⟩
    subst hi
    rw [sub_self, Int.toNat_natCast]
    exact .output hpos hdust' (by omega) (.inr rfl) hdest

theorem payChange_paid {f : Int} {chance : RoundChance} (hnonneg : 0 ≤ nChange)
    (h : payChange fees f coinControl chance nChange nChangePosRequest paid = .ok change) :
    ChangePaid fees.dustRelayFee coinControl nChangePosRequest paid nChange (change.nFeeRet - f) change.vout
      change.nChangePosInOut := by
  unfold payChange at h
  split at h
  · rename_i hpos
    split at h
    · rename_i script hscript
      obtain ⟨vout?, hcombine, h⟩ := bind_eq_ok.mp h
      cases vout? with
      | none =>
        refine insertChange_paid hpos (fun dest hdest => ?_) h
        rw [hscript] at hdest
        exact Option.some.inj hdest
      | some vout =>
        cases h
        obtain ⟨i, txout, hget, rfl, hfirst, rfl⟩ := combineChange_eq_ok (checked_eq_ok.mp hcombine)
        rw [sub_self]
        exact .merged hpos hscript hget hfirst
    · rename_i hscript
      refine insertChange_paid hpos (fun dest hdest => ?_) h
      rw [hscript] at hdest
      cases hdest
  · cases h
    obtain rfl : nChange = 0 := by omega
    rw [sub_self]
    exact .none

theorem ChangePaid.extra_nonneg {dustRelayFee extra pos : Int} {vout : List CTxOut}
    (h : ChangePaid dustRelayFee coinControl nChangePosRequest paid nChange extra vout pos) : 0 ≤ extra := by
  cases h with
  | none => exact le_refl 0
  | dust hpos _ => exact hpos.le
  | output _ _ _ _ _ => exact le_refl 0
  | merged _ _ _ _ => exact le_refl 0

end Change

end KrovaCoin
