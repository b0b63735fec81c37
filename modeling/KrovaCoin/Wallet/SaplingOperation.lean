import KrovaCoin.MoneyStr
import KrovaCoin.Wallet.TransactionBuilder

/-!
# Shielded operations (`sapling/sapling_operation.cpp`)

`SaplingOperation::build` selects coins or notes, fills the builder, and tries again with a higher fee until the fee is
enough for the size.

* `SendManyRecipient`, `SaplingOperation` — the recipients and the settings of an operation.
* `loadUtxos`, `loadUnspentNotes`, `addOutputs`, `operationRound`, `buildOperation` — the functions of the source.
-/

namespace KrovaCoin

open Lib

/-! ## The operation -/

def ZC_MEMO_SIZE : Nat := 512

inductive RecipientDest where
  | transparent (scriptPubKey : CScript)
  | shielded (address : SaplingPaymentAddress) (memo : List UInt8)

structure SendManyRecipient where
  dest : RecipientDest
  nAmount : Int
  fSubtractFeeFromAmount : Bool

def SendManyRecipient.isTransparent (t : SendManyRecipient) : Bool :=
  match t.dest with
  | .transparent _ => true
  | .shielded _ _ => false

/-- What an operation reads of a `CCoinControl`: the selected outpoints with `isTransparent`, and the scripts or
    addresses of valid change destinations. -/
structure OperationCoinControl where
  selected : List (COutPoint × Bool) := []
  destShieldChange : Option SaplingPaymentAddress := none
  destChange : Option CScript := none

/-- `SaplingOperation` before `build`; `fromTaddr` and `fromSapAddr` say whether the address is set. -/
structure SaplingOperation where
  fromTaddr : Bool := false
  fromSapAddr : Bool := false
  selectFromtaddrs : Bool := false
  selectFromShield : Bool := false
  coinControl : Option OperationCoinControl := none
  recipients : List SendManyRecipient
  mindepth : Nat := 5
  fee : Int := 0

structure SaplingNoteEntry where
  op : COutPoint
  note : SaplingNote

inductive CacheCheckResult where
  | OK
  | SPENT
  | INVALID
  deriving DecidableEq, Repr

/-- What a round reads of the wallet, for the addresses and the depth of the operation. -/
structure OperationWallet where
  /-- `GetWalletTx`. -/
  mapWallet : Uint256 → Option CTransaction
  /-- `AvailableCoins`. -/
  availableCoins : List WalletCoin
  /-- `GetNotes`. -/
  getNotes : List COutPoint → List SaplingNoteEntry
  /-- `GetFilteredNotes`, by the depth. -/
  getFilteredNotes : Nat → List SaplingNoteEntry
  /-- The outgoing viewing key of the spending key for an address. -/
  spendingKeyOvk : SaplingPaymentAddress → Option Uint256
  checkCachedNote : SaplingNoteEntry → CacheCheckResult
  /-- `GetSaplingNoteWitnesses`: whether a note has a witness, and the anchor of a list of notes. -/
  hasWitness : COutPoint → Bool
  anchor : List COutPoint → Uint256
  getCommonOVK : Uint256
  /-- The script of the reserved key. -/
  getReservedKey : Option CScript

/-- The chain parameters, the fee rate for relay, and the builder's environment. -/
structure OperationEnv where
  params : Params
  minRelayTxFee : Int
  builder : BuilderEnv
  isValidPaymentAddress : SaplingPaymentAddress → Bool

structure TxValues where
  transInTotal : Int := 0
  shieldedInTotal : Int := 0
  transOutTotal : Int := 0
  shieldedOutTotal : Int := 0
  target : Int := 0

namespace SaplingOperation

variable (op : SaplingOperation)

def hasSelected : Bool := op.coinControl.any fun cc => !cc.selected.isEmpty

def vCoins : List (COutPoint × Bool) := op.coinControl.elim [] OperationCoinControl.selected

/-- Whether the inputs are transparent, and whether they are shielded. -/
def inputTypes : Bool × Bool :=
  if op.hasSelected then (op.vCoins.any Prod.snd, op.vCoins.any fun coin => !coin.2)
  else if op.fromTaddr || op.fromSapAddr then (op.fromTaddr, op.fromSapAddr)
  else (op.selectFromtaddrs, op.selectFromShield)

def nSubtractFeeFromAmount : Nat := op.recipients.countP SendManyRecipient.fSubtractFeeFromAmount

end SaplingOperation

def calculateTarget (recipients : List SendManyRecipient) (fee : Int) : Checked TxValues := do
  let txValues ← recipients.foldlM (fun (txValues : TxValues) t =>
    if t.isTransparent then do
      let transOutTotal ← checkInt64 (txValues.transOutTotal + t.nAmount)
      return { txValues with transOutTotal := transOutTotal }
    else do
      let shieldedOutTotal ← checkInt64 (txValues.shieldedOutTotal + t.nAmount)
      return { txValues with shieldedOutTotal := shieldedOutTotal }) {}
  let outTotal ← checkInt64 (txValues.shieldedOutTotal + txValues.transOutTotal)
  let target ← checkInt64 (outTotal + fee)
  return { txValues with target := target }

/-! ## Transparent inputs -/

/-- "have %s, need %s". -/
def insufficient (kind : String) (have' target : Int) : OperationError :=
  .errorOut ("Insufficient " ++ kind ++ " funds, have " ++ formatMoney have' ++ ", need " ++ formatMoney target)

/-- Coins are selected until they reach the target without dust as change: the coins, their value and the last change
    that was looked at. -/
def selectUtxos (target dustThreshold : Int) : List WalletCoin → Int → Int → Checked (List WalletCoin × Int × Int)
  | [], amount, dustChange => .ok ([], amount, dustChange)
  | t :: ts, amount, dustChange => do
    let amount ← checkInt64 (amount + t.nValue)
    if amount ≥ target then
      let dustChange ← checkInt64 (amount - target)
      if dustChange = 0 ∨ dustChange ≥ dustThreshold then return ([t], amount, dustChange)
      else
        let (selected, rest) ← selectUtxos target dustThreshold ts amount dustChange
        return (t :: selected, rest)
    else
      let (selected, rest) ← selectUtxos target dustThreshold ts amount dustChange
      return (t :: selected, rest)

/-- The coins of the selected outpoints, and their value. -/
def selectedUtxos (mapWallet : Uint256 → Option CTransaction) : List COutPoint → Int → Checked (List WalletCoin × Int)
  | [], amount => .ok ([], amount)
  | outPoint :: vCoins, amount =>
    match mapWallet outPoint.hash with
    | none => selectedUtxos mapWallet vCoins amount
    | some tx =>
      if h : outPoint.n.toNat < tx.vout.length then do
        let coin : WalletCoin := ⟨tx, outPoint.n, h⟩
        let amount ← checkInt64 (amount + coin.nValue)
        let (selected, amount) ← selectedUtxos mapWallet vCoins amount
        return (coin :: selected, amount)
      else .error .assertion

/-- `loadUtxos`: the coins and their value. -/
def loadUtxos (env : OperationEnv) (w : OperationWallet) (op : SaplingOperation) (target : Int) :
    Except OperationError (List WalletCoin × Int) :=
  if op.hasSelected then operating (selectedUtxos w.mapWallet (op.vCoins.map Prod.fst) 0)
  else do
    rejectIf w.availableCoins.isEmpty (.errorOut "Insufficient funds, no available UTXO to spend")
    let transInputs := w.availableCoins.insertionSort fun i j => j.nValue ≤ i.nValue
    let dustThreshold := getTypicalDustThreshold env.builder.dustRelayFee
    let (selected, amount, dustChange) ← operating (selectUtxos target dustThreshold transInputs 0 (-1))
    rejectIf (decide (amount < target)) (insufficient "transparent" amount target)
    rejectIf (decide (dustChange < dustThreshold ∧ dustChange ≠ 0))
      (.errorOut ("Insufficient transparent funds, have " ++ formatMoney amount ++ ", need " ++
        formatMoney (dustThreshold - dustChange) ++ " more to avoid creating invalid change output " ++
        formatMoney dustChange ++ " (dust threshold is " ++ formatMoney dustThreshold ++ ")"))
    return (selected, amount)

def addUtxos (b : TransactionBuilder) (coins : List WalletCoin) : TransactionBuilder :=
  coins.foldl (fun b t => b.addTransparentInput t.outPoint t.txOut.scriptPubKey t.nValue) b

/-! ## Notes -/

/-- The change once the target is reached; with coin control it is not looked at. -/
def dustChangeOf (hasCoinControl : Bool) (target total : Int) : Checked (Option Int) :=
  if !hasCoinControl ∧ total ≥ target then some <$> checkInt64 (total - target) else .ok none

/-- Notes are selected until they reach the target without dust as change: the notes with their keys, the key for the
    outputs, and the value of the notes. -/
def selectNotes (w : OperationWallet) (hasCoinControl : Bool) (target dustThreshold : Int) :
    List SaplingNoteEntry → Uint256 → Int → Except OperationError (List (SaplingNoteEntry × Uint256) × Uint256 × Int)
  | [], ovk, total => .ok ([], ovk, total)
  | t :: ts, ovk, total =>
    match w.spendingKeyOvk t.note.address with
    | none => .error (.errorOut "Spending key not in the wallet")
    | some ovkIn =>
      match w.checkCachedNote t with
      | .INVALID => .error (.errorOut
          "Note cache corrupt. Try \"Recover transactions\" (Settings-->Debug-->\"wallet repair\")")
      | .SPENT => selectNotes w hasCoinControl target dustThreshold ts ovk total
      | .OK => do
        let ovk := if ovk = UINT256_ZERO then ovkIn else ovk
        let total := toInt64 (total + t.note.value.toNat)
        let dustChange ← operating (dustChangeOf hasCoinControl target total)
        if dustChange.any fun dustChange => dustChange = 0 ∨ dustChange ≥ dustThreshold then
          return ([(t, ovkIn)], ovk, total)
        else
          let (selected, rest) ← selectNotes w hasCoinControl target dustThreshold ts ovk total
          return ((t, ovkIn) :: selected, rest)

def shieldedInputs (w : OperationWallet) (op : SaplingOperation) : Except OperationError (List SaplingNoteEntry) :=
  let noNotes : OperationError := .errorOut "Insufficient funds, no available notes to spend"
  if op.hasSelected then do
    let notes := w.getNotes (op.vCoins.map Prod.fst)
    rejectIf notes.isEmpty noNotes
    return notes
  else do
    let notes := w.getFilteredNotes op.mindepth
    rejectIf notes.isEmpty (if (w.getFilteredNotes 0).isEmpty then noNotes
      else .errorOut "Insufficient funds, shielded KROV need at least 5 confirmations")
    return notes

def addSpends (w : OperationWallet) (anchor : Uint256) : List (SaplingNoteEntry × Uint256) → TransactionBuilder →
    Except OperationError TransactionBuilder
  | [], b => .ok b
  | (t, ovk) :: rest, b => do
    rejectIf (!w.hasWitness t.op) (.errorOut "Missing witness for Sapling note")
    let b ← b.addSaplingSpend ⟨ovk, t.note, anchor⟩
    addSpends w anchor rest b

/-- `loadUnspentNotes`: the builder with the spends, the key for the outputs, and the value of the notes. -/
def loadUnspentNotes (env : OperationEnv) (w : OperationWallet) (op : SaplingOperation) (target : Int)
    (b : TransactionBuilder) : Except OperationError (TransactionBuilder × Uint256 × Int) := do
  let notes ← shieldedInputs w op
  let sorted := notes.insertionSort fun i j => j.note.value ≤ i.note.value
  let (selected, ovk, total) ← selectNotes w op.hasSelected target
    (getShieldedDustThreshold env.builder.dustRelayFee) sorted UINT256_ZERO 0
  rejectIf (decide (total < target)) (insufficient "shielded" total target)
  let b ← addSpends w (w.anchor (selected.map fun s => s.1.op)) selected b
  return (b, ovk, total)

/-! ## Outputs -/

def getMemoFromString (s : List UInt8) : Except OperationError (List UInt8) :=
  if s.isEmpty then .ok (0xf6 :: List.replicate (ZC_MEMO_SIZE - 1) 0)
  else if s.length > ZC_MEMO_SIZE then
    .error (.errorOut ("Memo size of " ++ toString s.length ++ " is too big, maximum allowed is " ++ toString ZC_MEMO_SIZE))
  else .ok (s ++ List.replicate (ZC_MEMO_SIZE - s.length) 0)

def sentAmount (nFeeRet : Int) (nSubtractFeeFromAmount : Nat) (fFirst : Bool) (t : SendManyRecipient) : Checked Int :=
  if t.fSubtractFeeFromAmount then subtractFee nFeeRet nSubtractFeeFromAmount fFirst t.nAmount else .ok t.nAmount

/-- The loop that adds the outputs. -/
def addOutputs (env : OperationEnv) (ovk : Uint256) (nFeeRet : Int) (nSubtractFeeFromAmount : Nat) :
    Bool → List SendManyRecipient → TransactionBuilder → Except OperationError TransactionBuilder
  | _, [], b => .ok b
  | fFirst, t :: recipients, b => do
    let amount ← operating (sentAmount nFeeRet nSubtractFeeFromAmount fFirst t)
    let b ← match t.dest with
      | .transparent scriptPubKey => b.addTransparentOutput ⟨amount, scriptPubKey⟩
      | .shielded address memo => do
        operating (ensure (env.isValidPaymentAddress address))
        let vMemo ← getMemoFromString memo
        b.addSaplingOutput ovk address amount vMemo
    addOutputs env ovk nFeeRet nSubtractFeeFromAmount (fFirst && !t.fSubtractFeeFromAmount) recipients b

/-! ## The loop -/

/-- The variables that a round hands on. -/
structure FeeRound where
  nFeeRet : Int
  tries : Nat

/-- The builder with the inputs and outputs of a round, and the key for the outputs. -/
def fillBuilder (env : OperationEnv) (w : OperationWallet) (op : SaplingOperation) (nFeeRet : Int) :
    Except OperationError (TransactionBuilder × Uint256) := do
  let n := op.nSubtractFeeFromAmount
  let txValues ← operating (calculateTarget op.recipients (if n = 0 then nFeeRet else 0))
  if op.inputTypes.2 then
    let (b, ovk, shieldedInTotal) ← loadUnspentNotes env w op txValues.target .clear
    let b ← addOutputs env ovk nFeeRet n true op.recipients b
    -- `checkTxValues`
    rejectIf (decide (shieldedInTotal < txValues.target)) (insufficient "shielded" shieldedInTotal txValues.target)
    return (b, ovk)
  else
    let b ← addOutputs env w.getCommonOVK nFeeRet n true op.recipients .clear
    let (coins, transInTotal) ← loadUtxos env w op txValues.target
    rejectIf (decide (transInTotal < txValues.target)) (insufficient "transparent" transInTotal txValues.target)
    return (addUtxos b coins, w.getCommonOVK)

/-- `SendChangeTo`: a shielded change address first, then, for transparent inputs, a transparent one. -/
def sendChangeTo (w : OperationWallet) (op : SaplingOperation) (ovk : Uint256) (b : TransactionBuilder) :
    Except OperationError TransactionBuilder :=
  match op.coinControl.bind OperationCoinControl.destShieldChange with
  | some address => .ok { b with saplingChangeAddr := some (ovk, address), tChangeAddr := none }
  | none =>
    if op.inputTypes.1 then
      match op.coinControl.bind OperationCoinControl.destChange, w.getReservedKey with
      | some script, _ => .ok { b with tChangeAddr := some script, saplingChangeAddr := none }
      | none, some script => .ok { b with tChangeAddr := some script, saplingChangeAddr := none }
      | none, none => .error (.errorOut "Could not generate a taddr to use as a change address")
    else .ok b

def building {α : Type} (x : Except OperationError α) : Except OperationError α :=
  x.mapError fun
    | .errorOut error => .errorOut ("Failed to build transaction: " ++ error)
    | e => e

/-- `nFeeNeeded`. -/
def operationFeeNeeded (env : OperationEnv) (tx : CTransaction) : Int :=
  if tx.isShieldedTx then getShieldedTxMinFee env.params env.minRelayTxFee tx
  else getMinRelayFeeOfSize env.params env.minRelayTxFee tx.getTotalSize

/-- The end of a round: is the fee enough? -/
def checkOperationFee (env : OperationEnv) (op : SaplingOperation) (s : FeeRound) (b : TransactionBuilder)
    (tx : CTransaction) : Except OperationError (LoopStep FeeRound (TransactionBuilder × Int)) := do
  let nFeeNeeded := operationFeeNeeded env tx
  if nFeeNeeded ≤ s.nFeeRet then
    let nMaxFee ← operating (checkInt64 (nFeeNeeded * if tx.isShieldedTx then 100 else 10000))
    rejectIf (decide (s.nFeeRet > nMaxFee)) (.errorOut ("The transaction fee is too high: " ++ formatMoney s.nFeeRet ++
      " > " ++ formatMoney (100 * nFeeNeeded)))
    return .done (b, s.nFeeRet)
  else
    rejectIf (decide (op.fee > 0 ∧ nFeeNeeded > op.fee)) (.errorOut ("Fee set (" ++ formatMoney op.fee ++
      ") too low. Must be at least " ++ formatMoney nFeeNeeded))
    rejectIf (decide (s.tries + 1 > 100)) (.errorOut "Unable to compute optimal fee. Set manually.")
    return .next ⟨nFeeNeeded, s.tries + 1⟩

def operationRound (env : OperationEnv) (wallet : Nat → OperationWallet) (op : SaplingOperation) (s : FeeRound) :
    Except OperationError (LoopStep FeeRound (TransactionBuilder × Int)) := do
  let w := wallet s.tries
  let (b, ovk) ← fillBuilder env w op s.nFeeRet
  let b ← sendChangeTo w op ovk b
  let (b, tx) ← building (({ b with fee := s.nFeeRet } : TransactionBuilder).build env.builder true)
  checkOperationFee env op s b tx

/-- What `build` leaves behind: the builder, the fee and the transaction. -/
structure BuiltOperation where
  txBuilder : TransactionBuilder
  fee : Int
  finalTx : CTransaction

/-- `SaplingOperation::build` of a new operation; the loop makes at most 101 rounds. -/
def buildOperation (env : OperationEnv) (wallet : Nat → OperationWallet) (op : SaplingOperation) :
    Except OperationError (Option BuiltOperation) := do
  rejectIf (!op.inputTypes.1 && !op.inputTypes.2) (.errorOut "From address parameter missing")
  rejectIf (op.inputTypes.1 && op.inputTypes.2) (.errorOut "From address type cannot be shielded and transparent")
  rejectIf op.recipients.isEmpty (.errorOut "No recipients")
  rejectIf (op.inputTypes.2 && op.mindepth == 0)
    (.errorOut "Minconf cannot be zero when sending from shielded address")
  match ← whileLoop (operationRound env wallet op) 102
      ⟨if op.fee > 0 then op.fee else getFee env.minRelayTxFee 1000, 0⟩ with
  | none => return none
  | some (b, fee) => do
    let finalTx ← building (b.proveAndSign env.builder)
    return some ⟨b, fee, finalTx⟩

end KrovaCoin
