import KrovaCoin.Consensus.Premine
import KrovaCoin.Consensus.Superblock
import KrovaCoin.Coins.View
import KrovaCoin.Validation.CheckBlock

/-!
# Connecting blocks (`validation.cpp`: `CheckTxInputs`, `CheckInputs`, `UpdateCoins`, `ConnectBlock`)

`connectBlock` follows the source check by check. It works on a `View`; a block that fails leaves no view, as the
callers throw the cache away. The sums of amounts are those of 64-bit words.

* `checkTxInputs`, `checkInputs` — the inputs of a transaction; the script checks that are made, or
  handed to the script threads, are returned.
* `updateCoins` — the coins a transaction spends and creates.

Principal results: `connectTx_ok`, `connectBlock_ok`.
-/

namespace KrovaCoin

open Lib

/-! ## Inputs -/

structure CScriptCheck where
  m_tx_out : CTxOut
  ptxTo : CTransaction
  nIn : Nat
  nFlags : UInt32
  deriving DecidableEq, Repr

/-- `CScriptCheck::operator()`. -/
def CScriptCheck.run (c : Crypto) (check : CScriptCheck) : Except ScriptError Unit :=
  verifyScript c ((check.ptxTo.vin[check.nIn]?).elim [] CTxIn.scriptSig) check.m_tx_out.scriptPubKey
    check.nFlags (transactionSignatureChecker c check.ptxTo check.nIn check.m_tx_out.nValue)
    check.ptxTo.getRequiredSigVersion

/-- The script check has succeeded. -/
def CScriptCheck.passes (c : Crypto) (check : CScriptCheck) : Bool := check.run c == .ok ()

def STANDARD_NOT_MANDATORY_VERIFY_FLAGS : UInt32 :=
  STANDARD_SCRIPT_VERIFY_FLAGS &&& ~~~MANDATORY_SCRIPT_VERIFY_FLAGS

/-- `GetSpendHeight` of a view whose best block is the parent; without a parent the null pointer is followed. -/
def getSpendHeight : Option CBlockIndex → Except Failure Int
  | none => .error .assertion
  | some pindexPrev => .ok (pindexPrev.nHeight + 1)

/-- One input in the loop of `CheckTxInputs`. -/
def checkTxInput (p : Params) (v : View) (nSpendHeight : Int) (nValueIn : Int) (txin : CTxIn) : Except Failure Int := do
  let coin := v.accessCoin txin.prevout
  rejectIf coin.isSpent .assertion
  rejectIf ((coin.fCoinBase || coin.fCoinStake) && decide (nSpendHeight - coin.nHeight < p.nCoinbaseMaturity))
    (.invalid 0 REJECT_INVALID "bad-txns-premature-spend-of-coinbase-coinstake" false "")
  rejectIf (!p.moneyRange coin.out.nValue || !p.moneyRange (toInt64 (nValueIn + coin.out.nValue)))
    (dos 100 REJECT_INVALID "bad-txns-inputvalues-outofrange")
  return toInt64 (nValueIn + coin.out.nValue)

/-- The comparison of values at the end of `CheckTxInputs`. -/
def checkTxFee (p : Params) (tx : CTransaction) (nValueIn : Int) : Except Failure Unit :=
  if tx.isCoinStake then .ok ()
  else do
    let nValueOut ← throwing tx.getValueOut
    rejectIf (decide (nValueIn < nValueOut)) (dos 100 REJECT_INVALID "bad-txns-in-belowout")
    let nTxFee := toInt64 (nValueIn - nValueOut)
    rejectIf (decide (nTxFee < 0)) (dos 100 REJECT_INVALID "bad-txns-fee-negative")
    rejectIf (!p.moneyRange nTxFee) (dos 100 REJECT_INVALID "bad-txns-fee-outofrange")

def checkTxInputs (env : Env) (tx : CTransaction) (v : View) (nSpendHeight : Int) : Except Failure Unit := do
  rejectIf (!v.haveInputs tx) (.invalid 0 0 "" false "Inputs unavailable")
  rejectIf (!v.haveShieldedRequirements env.pedersen tx) (.invalid 0 0 "" false "")
  let nValueIn ← tx.vin.foldlM (checkTxInput env.params v nSpendHeight) 0
  let nShielded ← throwing tx.getShieldedValueIn
  checkTxFee env.params tx (toInt64 (nValueIn + nShielded))

/-- One script check of `CheckInputs`: with script threads it is only collected. -/
def checkInputScript (env : Env) (threads : Bool) (tx : CTransaction) (v : View) (flags : UInt32)
    (input : CTxIn × Nat) : Except Failure CScriptCheck := do
  let coin := v.accessCoin input.1.prevout
  rejectIf coin.isSpent .assertion
  let check : CScriptCheck := ⟨coin.out, tx, input.2, flags⟩
  if threads then return check
  else
    match check.run env.crypto with
    | .ok () => return check
    | .error serror =>
      rejectIf (hasFlag flags STANDARD_NOT_MANDATORY_VERIFY_FLAGS &&
          { check with nFlags := flags &&& ~~~STANDARD_NOT_MANDATORY_VERIFY_FLAGS }.passes env.crypto)
        (.invalid 0 REJECT_NONSTANDARD
          ("non-mandatory-script-verify-flag (" ++ scriptErrorString serror ++ ")") false "")
      .error (dos 100 REJECT_INVALID
        ("mandatory-script-verify-flag-failed (" ++ scriptErrorString serror ++ ")"))

/-- `CheckInputs` of a transaction that is no coinbase: the script checks made or collected. -/
def checkInputs (env : Env) (threads : Bool) (tx : CTransaction) (v : View) (nSpendHeight : Int)
    (fScriptChecks : Bool) (flags : UInt32) : Except Failure (List CScriptCheck) := do
  checkTxInputs env tx v nSpendHeight
  if fScriptChecks then tx.vin.zipIdx.mapM (checkInputScript env threads tx v flags) else return []

/-! ## Coins -/

structure CTxUndo where
  vprevout : List Coin
  deriving DecidableEq, Repr

structure CBlockUndo where
  vtxundo : List CTxUndo
  deriving DecidableEq, Repr

/-- The coins of the outpoints are spent in turn; a coin that is missing is recorded as the null coin. -/
def View.spendCoins : View → List COutPoint → View × List Coin
  | v, [] => (v, [])
  | v, o :: os =>
    let r := View.spendCoins (v.spendCoin o).2 os
    (r.1, (v.spendCoin o).1.getD coinEmpty :: r.2)

def updateCoins (tx : CTransaction) (v : View) (nHeight : Nat) (invalidOut : COutPoint → Bool) :
    Except Failure (View × CTxUndo) := do
  let r := v.spendCoins tx.spends
  let v ← (r.1.setNullifiers tx true).addCoins tx nHeight false invalidOut
  return (v, ⟨r.2⟩)

def skipInvalidUTXOS (p : Params) (nHeight : Int) : Bool :=
  decide (p.strNetworkID = .main) && p.networkUpgradeActive nHeight .UPGRADE_ZC &&
    decide (nHeight ≤ p.height_last_invalid_UTXO)

variable {p : Params}

theorem skipInvalidUTXOS_of_inactive (h : p.nActivationHeight .UPGRADE_ZC = NO_ACTIVATION_HEIGHT) (nHeight : Int) :
    skipInvalidUTXOS p nHeight = false := by
  simp [skipInvalidUTXOS, Params.networkUpgradeActive, h]

/-! ## Superblocks -/

def checkSuperblockPayoutTx (env : Env) (node : NodeState) (tx : CTransaction) (nHeight : Nat) (v : View) :
    Except Failure Bool :=
  match tx.vin with
  | [txin] =>
    let coin := v.accessCoin txin.prevout
    if coin.isSpent then .ok false
    else if coin.out.scriptPubKey ≠ getEffectiveScriptPubKey env.params stakingRewardsPool then .ok false
    else do
      match ← faulting (Superblock.buildSuperblockPayoutOutputs env.params node.chainActive nHeight
        coin.out.scriptPubKey coin.out.nValue) with
      | none => return false
      | some expected => return tx.vout == expected
  | _ => .ok false

/-- The loop that looks for the payout; the coins it reads stay in the cache. -/
def findSuperblockPayout (env : Env) (node : NodeState) (nHeight : Nat) :
    View → List CTransaction → Except Failure (Bool × View)
  | v, [] => .ok (false, v)
  | v, tx :: txs => do
    let found ← checkSuperblockPayoutTx env node tx nHeight v
    let v' := match tx.vin with
      | [txin] => v.fetch txin.prevout
      | _ => v
    if found then return (true, v') else findSuperblockPayout env node nHeight v' txs

theorem findSuperblockPayout_cons (env : Env) (node : NodeState) (nHeight : Nat) (v : View) (tx : CTransaction)
    (txs : List CTransaction) : ∃ os : List COutPoint, findSuperblockPayout env node nHeight v (tx :: txs) = (do
      let found ← checkSuperblockPayoutTx env node tx nHeight v
      if found then return (true, os.foldl View.fetch v)
      else findSuperblockPayout env node nHeight (os.foldl View.fetch v) txs) := by
  rw [findSuperblockPayout]
  split
  · rename_i txin _
    exact ⟨[txin.prevout], rfl⟩
  · exact ⟨[], rfl⟩

def checkSuperblock (env : Env) (node : NodeState) (block : CBlock) (nHeight : Nat) (v : View) : Except Failure View :=
  if !Superblock.isSuperblockHeight env.params nHeight then .ok v
  else do
    let (foundValidPayout, v') ← findSuperblockPayout env node nHeight v block.vtx
    if foundValidPayout then return v'
    else do
      let payout ← faulting (Superblock.getSuperblockPayout env.params nHeight)
      rejectIf (decide (payout > 0) && Superblock.cycleHasStakers env.params node.chainActive nHeight)
        (dos 100 REJECT_INVALID "bad-superblock-payout")
      return v'

/-! ## The loop over the transactions -/

/-- The variables of the loop in `ConnectBlock`; `vtxundo` has an entry for every transaction, and the
    one of the coinbase is thrown away at the end. -/
structure ConnectState where
  view : View
  nFees : Int
  nValueIn : Int
  nValueOut : Int
  nSigOps : Nat
  vtxundo : List CTxUndo
  sapling_tree : SaplingMerkleTree
  checks : List CScriptCheck

/-- What stays the same during the loop. -/
structure ConnectContext where
  nHeight : Nat
  pprev : Option CBlockIndex
  fScriptChecks : Bool
  flags : UInt32
  fSaplingMaintenance : Bool
  invalidOut : COutPoint → Bool

def ConnectContext.of (env : Env) (node : NodeState) (block : CBlock) (pprev : Option CBlockIndex) :
    ConnectContext where
  nHeight := nextHeight pprev
  pprev := pprev
  fScriptChecks := decide ((nextHeight pprev : Int) ≥ env.checkpoints.getTotalBlocksEstimate)
  flags :=
    -- the heights of the two upgrades are looked up for checked scripts only
    let active (idx : UpgradeIndex) : Bool :=
      decide ((nextHeight pprev : Int) ≥ env.checkpoints.getTotalBlocksEstimate) &&
        pprev.any fun pprev => env.params.networkUpgradeActive pprev.nHeight idx
    SCRIPT_VERIFY_P2SH ||| SCRIPT_VERIFY_DERSIG |||
      (if active .UPGRADE_BIP65 then SCRIPT_VERIFY_CHECKLOCKTIMEVERIFY else 0) |||
      (if active .UPGRADE_V5_6 then SCRIPT_VERIFY_EXCHANGEADDR else 0)
  fSaplingMaintenance :=
    !node.isInitialBlockDownload && decide (block.getBlockTime > node.saplingMaintenance)
  invalidOut := fun out => skipInvalidUTXOS env.params (nextHeight pprev) && node.setInvalidOutPoints out

/-- The inputs are available and the signature operations within the limit; the new `nSigOps`. -/
def connectAvailable (env : Env) (v : View) (tx : CTransaction) (nSigOps : Nat) : Except Failure Nat :=
  if tx.isCoinBase then .ok nSigOps
  else do
    rejectIf (!v.haveInputs tx) (dos 100 REJECT_INVALID "bad-txns-inputs-missingorspent")
    rejectIf (!v.haveShieldedRequirements env.pedersen tx)
      (dos 100 REJECT_INVALID "bad-txns-sapling-requirements-not-met")
    rejectIf (decide (nSigOps + v.getP2SHSigOpCount tx > MAX_BLOCK_SIGOPS_CURRENT))
      (dos 100 REJECT_INVALID "bad-blk-sigops")
    return nSigOps + v.getP2SHSigOpCount tx

/-- The value of the inputs and the script checks: the new `nFees`, `nValueIn` and checks. The coins that are read here
    are spent right after. -/
def connectInputs (env : Env) (node : NodeState) (ctx : ConnectContext) (s : ConnectState)
    (tx : CTransaction) (txValueOut : Int) : Except Failure (Int × Int × List CScriptCheck) :=
  if tx.isCoinBase then .ok (s.nFees, s.nValueIn, s.checks)
  else do
    let txValueIn ← throwing (s.view.getValueIn tx)
    let nSpendHeight ← getSpendHeight ctx.pprev
    let vChecks ← checkInputs env (node.nScriptCheckThreads != 0) tx s.view nSpendHeight ctx.fScriptChecks
      ctx.flags
    return (if tx.isCoinStake then s.nFees else toInt64 (s.nFees + (txValueIn - txValueOut)),
      toInt64 (s.nValueIn + txValueIn), s.checks ++ vChecks)

/-- The body of the loop. -/
def connectTx (env : Env) (node : NodeState) (ctx : ConnectContext) (s : ConnectState) (tx : CTransaction) :
    Except Failure ConnectState := do
  rejectIf (decide (s.nSigOps + getLegacySigOpCount tx > MAX_BLOCK_SIGOPS_CURRENT))
    (dos 100 REJECT_INVALID "bad-blk-sigops")
  rejectIf (ctx.fSaplingMaintenance && tx.isShieldedTx) (dos 100 0 "")
  let nSigOps ← connectAvailable env s.view tx (s.nSigOps + getLegacySigOpCount tx)
  let txValueOut ← throwing tx.getValueOut
  let (nFees, nValueIn, checks) ← connectInputs env node ctx s tx txValueOut
  let (view, txundo) ← updateCoins tx s.view ctx.nHeight ctx.invalidOut
  let sapling_tree ← throwing (env.pedersen.appendAll s.sapling_tree
    (if tx.isShieldedTx then tx.shieldedOutputs.map OutputDescription.cmu else []))
  return {
    view := view
    nFees := nFees
    nValueIn := nValueIn
    nValueOut := toInt64 (s.nValueOut + txValueOut)
    nSigOps := nSigOps
    vtxundo := s.vtxundo ++ [txundo]
    sapling_tree := sapling_tree
    checks := checks }

/-! ## `ConnectBlock` -/

/-- What an accepted block leaves: the view, the undo data it writes, and the script checks made. -/
structure Connected where
  view : View
  blockundo : Option CBlockUndo
  checks : List CScriptCheck

/-- The first check of `ConnectBlock`: possible corruption stops the node. -/
def connectCheckBlock (env : Env) (node : NodeState) (block : CBlock) (fJustCheck : Bool) : Except Failure Unit :=
  match checkBlock env node block (!fJustCheck) (!fJustCheck) (!fJustCheck) with
  | .error (.invalid _ _ _ true _) =>
    .error (.error "Corrupt block found indicating potential hardware failure; shutting down")
  | r => r

/-- `view.GetSaplingAnchorAt(view.GetBestAnchor(), sapling_tree)`, asserted. -/
def bestTree (p : PedersenHash) (v : View) : Except Failure SaplingMerkleTree :=
  match v.getSaplingAnchorAt p (v.getBestAnchor p) with
  | none => .error .assertion
  | some tree => .ok tree

/-- The checks of the amounts after the loop. -/
def checkMint (block : CBlock) (nHeight : Nat) (s : ConnectState) : Except Failure Unit := do
  rejectIf (decide (s.nFees < 0)) .assertion
  let nBlockValue ← faulting (getBlockValue nHeight)
  let nMint := toInt64 (toInt64 (s.nValueOut - s.nValueIn) + s.nFees)
  let nExpectedMint := if block.isProofOfStake then nBlockValue else toInt64 (nBlockValue + s.nFees)
  rejectIf (decide (nMint > nExpectedMint)) (dos 100 REJECT_INVALID "bad-blk-amount")

def checkPremine (p : Params) (block : CBlock) (nHeight : Nat) : Except Failure Unit :=
  match nHeight, block.vtx with
  | 1, cb :: _ => do
    let fOk ← faulting (checkPremineCoinbase p cb)
    rejectIf (!fOk) (dos 100 REJECT_INVALID "bad-premine-coinbase")
  | _, _ => .ok ()

/-- The end of `ConnectBlock`: the undo data are written with the hash of the parent, which is read
    through a null pointer if there is none. -/
def finishConnect (block : CBlock) (pprev : Option CBlockIndex) (s : ConnectState) (v : View)
    (fJustCheck : Bool) : Except Failure Connected :=
  if fJustCheck then .ok ⟨v, none, s.checks⟩
  else
    match pprev with
    | none => .error .assertion
    | some _ => .ok ⟨v.setBestBlock block.hash, some ⟨s.vtxundo.tail⟩, s.checks⟩

/-- `ConnectBlock` of a block other than the genesis block, after the first checks. -/
def connectTransactions (env : Env) (node : NodeState) (block : CBlock) (pprev : Option CBlockIndex)
    (v : View) (fJustCheck : Bool) : Except Failure Connected := do
  let p := env.params
  let nHeight := nextHeight pprev
  let isPoSActive := p.networkUpgradeActive nHeight .UPGRADE_POS
  rejectIf (!isPoSActive && block.isProofOfStake) (dos 100 REJECT_INVALID "PoS-early")
  rejectIf (isPoSActive && !block.isProofOfStake) (dos 100 REJECT_INVALID "PoW-ended")
  rejectIf ((CBlockIndex.of pprev block).nChainSaplingValue.any fun value => decide (value < 0))
    (dos 100 REJECT_INVALID "turnstile-violation-sapling-shielded-pool")
  let sapling_tree ← bestTree env.pedersen v
  let v0 ← checkSuperblock env node block nHeight v
  let s ← block.vtx.foldlM (connectTx env node (.of env node block pprev)) ⟨v0, 0, 0, 0, 0, [], sapling_tree, []⟩
  rejectIf (p.networkUpgradeActive nHeight .UPGRADE_V5_0 &&
      block.hashFinalSaplingRoot != env.pedersen.root s.sapling_tree)
    (dos 100 REJECT_INVALID "bad-sapling-root-in-block")
  checkMint block nHeight s
  checkPremine p block nHeight
  rejectIf (node.nScriptCheckThreads != 0 && !s.checks.all (CScriptCheck.passes env.crypto))
    (dos 100 REJECT_INVALID "block-validation-failed")
  finishConnect block pprev s (s.view.pushAnchor env.pedersen s.sapling_tree) fJustCheck

/-- `ConnectBlock`, for the block after `pprev`. -/
def connectBlock (env : Env) (node : NodeState) (block : CBlock) (pprev : Option CBlockIndex) (v : View)
    (fJustCheck : Bool) : Except Failure Connected := do
  connectCheckBlock env node block fJustCheck
  rejectIf (pprev.elim UINT256_ZERO CBlockIndex.hash != v.getBestBlock) .assertion
  rejectIf (!env.params.networkUpgradeActive (nextHeight pprev) .UPGRADE_V6_0 && block.isProofOfStake &&
      !((block.vtx.head?).any fun cb => cb.vout.length == 1 && cb.vout.all CTxOut.isEmpty))
    (.invalid 100 REJECT_INVALID "bad-cb-pos" false "coinbase output not empty for proof-of-stake block")
  if block.hash = env.params.hashGenesisBlock then
    return ⟨if fJustCheck then v else v.setBestBlock block.hash, none, []⟩
  else connectTransactions env node block pprev v fJustCheck

/-! ## What an accepted transaction has passed -/

/-- The value of the coins the inputs refer to. -/
def View.valueIn (v : View) (vin : List CTxIn) : Int :=
  (vin.map fun txin => (v.accessCoin txin.prevout).out.nValue).sum

@[simp] theorem View.valueIn_nil (v : View) : v.valueIn [] = 0 := rfl

@[simp] theorem View.valueIn_cons (v : View) (txin : CTxIn) (vin : List CTxIn) :
    v.valueIn (txin :: vin) = (v.accessCoin txin.prevout).out.nValue + v.valueIn vin := by
  simp [View.valueIn]

/-- A coin that may be spent at the height: its value is in range, and it is mature. -/
structure Spendable (p : Params) (nSpendHeight : Int) (c : Coin) : Prop where
  value : 0 ≤ c.out.nValue ∧ c.out.nValue ≤ p.nMaxMoneyOut
  mature : (c.fCoinBase || c.fCoinStake) = true → p.nCoinbaseMaturity ≤ nSpendHeight - c.nHeight

variable {v : View} {nSpendHeight : Int}

theorem checkTxInput_ok {nValueIn r : Int} {txin : CTxIn} (h : checkTxInput p v nSpendHeight nValueIn txin = .ok r) :
    v.coin txin.prevout = some (v.accessCoin txin.prevout) ∧ Spendable p nSpendHeight (v.accessCoin txin.prevout) ∧
      r = toInt64 (nValueIn + (v.accessCoin txin.prevout).out.nValue) ∧ p.moneyRange r = true := by
  simp only [checkTxInput, bind_eq_ok, rejectIf_eq_ok, exists_and_left, exists_const, pure_eq_ok,
    Bool.or_eq_false_iff, Bool.not_eq_false'] at h
  obtain ⟨hspent, hmature, ⟨hvalue, hrange⟩, rfl⟩ := h
  refine ⟨?_, ⟨(Params.moneyRange_iff _ _).mp hvalue, fun hflag => ?_⟩, rfl, hrange⟩
  · rw [← v.accessCoin_live, Coin.live_of_not_isSpent hspent]
  · rw [hflag, Bool.true_and, decide_eq_false_iff_not] at hmature
    omega

theorem checkTxInputLoop_ok (hmax : p.nMaxMoneyOut < 9223372036854775808) : ∀ {vin : List CTxIn} {nValueIn r : Int},
      0 ≤ nValueIn ∧ nValueIn ≤ p.nMaxMoneyOut →
      vin.foldlM (checkTxInput p v nSpendHeight) nValueIn = .ok r →
      (∀ txin ∈ vin, v.coin txin.prevout = some (v.accessCoin txin.prevout) ∧
        Spendable p nSpendHeight (v.accessCoin txin.prevout)) ∧
      r = nValueIn + v.valueIn vin ∧ (0 ≤ r ∧ r ≤ p.nMaxMoneyOut)
  | [], nValueIn, r, hin, h => by
    have hr : nValueIn = r := pure_eq_ok.mp h
    subst hr
    simpa using hin
  | txin :: vin, nValueIn, r, hin, h => by
    obtain ⟨r1, h1, hrest⟩ := bind_eq_ok.mp h
    obtain ⟨hcoin, hspend, rfl, hrange⟩ := checkTxInput_ok h1
    rw [Params.moneyRange_iff] at hrange
    have hval := hspend.value
    have hsum : toInt64 (nValueIn + (v.accessCoin txin.prevout).out.nValue) =
        nValueIn + (v.accessCoin txin.prevout).out.nValue := by
      unfold toInt64 at *
      omega
    rw [hsum] at hrange hrest
    obtain ⟨hcoins, rfl, hr⟩ := checkTxInputLoop_ok hmax hrange hrest
    refine ⟨?_, by rw [View.valueIn_cons, Int.add_assoc], hr⟩
    rintro t (_ | ⟨_, ht⟩)
    · exact ⟨hcoin, hspend⟩
    · exact hcoins t ht

/-- What `CheckTxInputs` guarantees of a transaction that has passed `CheckTransaction`. -/
structure InputsChecked (env : Env) (v : View) (nSpendHeight : Int) (tx : CTransaction) : Prop where
  shielded : v.haveShieldedRequirements env.pedersen tx = true
  coins : ∀ txin ∈ tx.vin, v.coin txin.prevout = some (v.accessCoin txin.prevout) ∧
    Spendable env.params nSpendHeight (v.accessCoin txin.prevout)
  total : 0 ≤ v.valueIn tx.vin ∧ v.valueIn tx.vin ≤ env.params.nMaxMoneyOut
  fee : tx.isCoinStake = false → tx.toPool + sumValues tx.vout ≤ v.valueIn tx.vin + tx.fromPool ∧
    v.valueIn tx.vin + tx.fromPool < 9223372036854775808

theorem toPool_nonneg (tx : CTransaction) : 0 ≤ tx.toPool := by
  unfold CTransaction.toPool
  split <;> omega

variable {tx : CTransaction}

theorem TxChecked.fromPool_le (h : TxChecked p tx) (hmax : 0 ≤ p.nMaxMoneyOut) :
    0 ≤ tx.fromPool ∧ tx.fromPool ≤ p.nMaxMoneyOut := by
  unfold CTransaction.fromPool
  split
  · have := (h.sapling (hasSaplingData_of (.inl (by omega)))).balance
    omega
  · omega

variable {env : Env}

theorem checkTxInputs_ok (hmax : 0 ≤ env.params.nMaxMoneyOut ∧ env.params.nMaxMoneyOut < 9223372036854775808)
    (htx : TxChecked env.params tx) (h : checkTxInputs env tx v nSpendHeight = .ok ()) :
    InputsChecked env v nSpendHeight tx := by
  simp only [checkTxInputs, bind_eq_ok, rejectIf_eq_ok, exists_and_left, exists_const, throwing_eq_ok,
    Bool.not_eq_false', htx.getShieldedValueIn, Except.ok.injEq, exists_eq_left'] at h
  obtain ⟨-, hshielded, nValueIn, hloop, hfee⟩ := h
  obtain ⟨hcoins, rfl, htotal⟩ := checkTxInputLoop_ok hmax.2 ⟨Int.le_refl 0, hmax.1⟩ hloop
  rw [Int.zero_add] at htotal hfee
  refine ⟨hshielded, hcoins, htotal, fun hcs => ?_⟩
  simp only [checkTxFee, hcs, Bool.false_eq_true, if_false, bind_eq_ok, rejectIf_eq_ok, exists_and_left,
    exists_const, throwing_eq_ok, htx.getValueOut hmax.2, Except.ok.injEq, exists_eq_left',
    decide_eq_false_iff_not] at hfee
  -- a sum beyond the 64-bit range would have become negative and fallen below the outputs
  have hpool := htx.fromPool_le hmax.1
  have hout := toPool_nonneg tx
  have hsum : 0 ≤ sumValues tx.vout := sumValues_nonneg fun o ho => (htx.values o ho).1
  have hle := hfee.1
  unfold toInt64 at hle
  omega

/-- What `connectTx` has done with the inputs of a transaction that is no coinbase. -/
structure TxInputsConnected (env : Env) (node : NodeState) (ctx : ConnectContext) (s s' : ConnectState)
    (tx : CTransaction) (pprev : CBlockIndex) (txValueIn : Int) (vChecks : List CScriptCheck) : Prop where
  parent : ctx.pprev = some pprev
  checked : InputsChecked env s.view (pprev.nHeight + 1) tx
  valueIn : s.view.getValueIn tx = .ok txValueIn
  scripts : checkInputs env (node.nScriptCheckThreads != 0) tx s.view (pprev.nHeight + 1) ctx.fScriptChecks
    ctx.flags = .ok vChecks
  nFees : s'.nFees = if tx.isCoinStake then s.nFees
    else toInt64 (s.nFees + (txValueIn - (tx.toPool + sumValues tx.vout)))
  nValueIn : s'.nValueIn = toInt64 (s.nValueIn + txValueIn)
  checks : s'.checks = s.checks ++ vChecks

/-- What `connectTx` has done. -/
structure TxConnected (env : Env) (node : NodeState) (ctx : ConnectContext) (s s' : ConnectState)
    (tx : CTransaction) (txundo : CTxUndo) : Prop where
  coins : updateCoins tx s.view ctx.nHeight ctx.invalidOut = .ok (s'.view, txundo)
  vtxundo : s'.vtxundo = s.vtxundo ++ [txundo]
  tree : env.pedersen.appendAll s.sapling_tree
    (if tx.isShieldedTx then tx.shieldedOutputs.map OutputDescription.cmu else []) = .ok s'.sapling_tree
  nValueOut : s'.nValueOut = toInt64 (s.nValueOut + (tx.toPool + sumValues tx.vout))
  coinbase : tx.isCoinBase = true →
    s'.nFees = s.nFees ∧ s'.nValueIn = s.nValueIn ∧ s'.checks = s.checks
  inputs : tx.isCoinBase = false →
    ∃ pprev txValueIn vChecks, TxInputsConnected env node ctx s s' tx pprev txValueIn vChecks

variable {node : NodeState}

/-- **Everything an accepted transaction has passed.** -/
theorem connectTx_ok {ctx : ConnectContext} {s s' : ConnectState}
    (hmax : 0 ≤ env.params.nMaxMoneyOut ∧ env.params.nMaxMoneyOut < 9223372036854775808)
    (htx : TxChecked env.params tx) (h : connectTx env node ctx s tx = .ok s') :
    ∃ txundo, TxConnected env node ctx s s' tx txundo := by
  simp only [connectTx, bind_eq_ok, rejectIf_eq_ok, exists_and_left, exists_const, throwing_eq_ok,
    htx.getValueOut hmax.2, Except.ok.injEq, exists_eq_left', pure_eq_ok] at h
  obtain ⟨-, -, nSigOps, -, ⟨nFees, nValueIn, checks⟩, hin, ⟨view, txundo⟩, hcoins, tree, htree, rfl⟩ := h
  refine ⟨txundo, hcoins, rfl, htree, rfl, fun hcb => ?_, fun hcb => ?_⟩
  · rw [connectInputs, if_pos hcb, Except.ok.injEq, Prod.mk.injEq, Prod.mk.injEq] at hin
    obtain ⟨rfl, rfl, rfl⟩ := hin
    exact ⟨rfl, rfl, rfl⟩
  · simp only [connectInputs, hcb, Bool.false_eq_true, if_false, bind_eq_ok, throwing_eq_ok,
      pure_eq_ok, Prod.mk.injEq] at hin
    obtain ⟨txValueIn, hvalue, nSpendHeight, hheight, vChecks, hchecks, rfl, rfl, rfl⟩ := hin
    cases hpprev : ctx.pprev with
    | none =>
      rw [hpprev] at hheight
      cases hheight
    | some pprev =>
      rw [hpprev] at hheight
      cases hheight
      have hscripts := hchecks
      rw [checkInputs, bind_eq_ok] at hscripts
      obtain ⟨⟨⟩, hins, -⟩ := hscripts
      exact ⟨pprev, txValueIn, vChecks, hpprev, checkTxInputs_ok hmax htx hins, hvalue, hchecks, rfl, rfl, rfl⟩

/-- An accepted block other than the genesis block, connected for good: the tree it starts from, the
    view after the superblock check, and the state after the loop. -/
structure BlockConnected (env : Env) (node : NodeState) (block : CBlock) (pprev : CBlockIndex) (v : View)
    (r : Connected) (tree : SaplingMerkleTree) (v0 : View) (s : ConnectState) : Prop where
  checked : BlockChecked env.params block
  best : v.getBestBlock = pprev.hash
  coinbasePoS : env.params.networkUpgradeActive (pprev.nHeight + 1) .UPGRADE_V6_0 = false →
    block.isProofOfStake = true → ∀ cb ∈ block.vtx.head?, sumValues cb.vout = 0
  bestTree : bestTree env.pedersen v = .ok tree
  superblock : checkSuperblock env node block (pprev.nHeight + 1) v = .ok v0
  loop : block.vtx.foldlM (connectTx env node (.of env node block (some pprev)))
    ⟨v0, 0, 0, 0, 0, [], tree, []⟩ = .ok s
  root : env.params.networkUpgradeActive (pprev.nHeight + 1) .UPGRADE_V5_0 = true →
    block.hashFinalSaplingRoot = env.pedersen.root s.sapling_tree
  mint : checkMint block (pprev.nHeight + 1) s = .ok ()
  premine : checkPremine env.params block (pprev.nHeight + 1) = .ok ()
  scripts : node.nScriptCheckThreads ≠ 0 → ∀ check ∈ s.checks, check.passes env.crypto = true
  result : r = ⟨(s.view.pushAnchor env.pedersen s.sapling_tree).setBestBlock block.hash,
    some ⟨s.vtxundo.tail⟩, s.checks⟩

theorem connectCheckBlock_ok {block : CBlock} {fJustCheck : Bool}
    (h : connectCheckBlock env node block fJustCheck = .ok ()) :
    checkBlock env node block (!fJustCheck) (!fJustCheck) (!fJustCheck) = .ok () := by
  unfold connectCheckBlock at h
  split at h
  · cases h
  · exact h

/-- **Everything an accepted block has passed.** -/
theorem connectBlock_ok {block : CBlock} {pprev : Option CBlockIndex} {r : Connected}
    (hmax : 0 ≤ env.params.nMaxMoneyOut ∧ env.params.nMaxMoneyOut < 9223372036854775808)
    (hgenesis : block.hash ≠ env.params.hashGenesisBlock) (h : connectBlock env node block pprev v false = .ok r) :
    ∃ pindexPrev tree v0 s, pprev = some pindexPrev ∧ BlockConnected env node block pindexPrev v r tree v0 s := by
  simp only [connectBlock, bind_eq_ok, rejectIf_eq_ok, exists_and_left, exists_const, if_neg hgenesis] at h
  obtain ⟨⟨⟩, hcheck, hbest, hcbpos, h⟩ := h
  simp only [connectTransactions, bind_eq_ok, rejectIf_eq_ok, exists_and_left, exists_const] at h
  obtain ⟨-, -, -, tree, htree, v0, hsuper, s, hloop, hroot, ⟨⟩, hmint, ⟨⟩, hpremine, hscripts, hfinish⟩ := h
  cases pprev with
  | none => cases hfinish
  | some pindexPrev =>
    cases hfinish
    refine ⟨pindexPrev, tree, v0, s, rfl, ?_⟩
    refine ⟨checkBlock_ok hmax (connectCheckBlock_ok hcheck), ?_, fun hv6 hpos cb hcb => ?_, htree, hsuper,
      hloop, fun hv5 => ?_, hmint, hpremine, fun hthreads check hin => ?_, rfl⟩
    · symm
      simpa using hbest
    · have hv6' : env.params.networkUpgradeActive (nextHeight (some pindexPrev)) .UPGRADE_V6_0 = false := hv6
      rw [hv6', hpos, Option.mem_def.mp hcb] at hcbpos
      simp only [Bool.not_false, Bool.true_and, Option.any_some, Bool.not_eq_false', Bool.and_eq_true,
        beq_iff_eq, List.all_eq_true] at hcbpos
      refine sumValues_eq_zero fun out hout => ?_
      have hempty := hcbpos.2 out hout
      simp only [CTxOut.isEmpty, Bool.and_eq_true, beq_iff_eq] at hempty
      exact hempty.1
    · have hv5' : env.params.networkUpgradeActive (nextHeight (some pindexPrev)) .UPGRADE_V5_0 = true := hv5
      simpa [hv5'] using hroot
    · have hthreads' : (node.nScriptCheckThreads != 0) = true := by simpa using hthreads
      rw [hthreads', Bool.true_and, Bool.not_eq_false', List.all_eq_true] at hscripts
      exact hscripts check hin

end KrovaCoin
