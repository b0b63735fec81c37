import KrovaCoin.Lib.Double
import KrovaCoin.Validation.Chain

/-!
# Storing a block of any branch (`validation.cpp`: `AcceptBlock`, `AcceptBlockHeader`)

An entry of the block index stands for the branch it ends: the blocks from its own down to the genesis block. `pprev` is
the tail of the list, and the height is one less than its length. Reading a block from disk succeeds.

* `checkWork`, `contextualCheckBlockHeader`, `acceptBlockHeader` — the header.
* `checkInBlockDoubleSpends`, `isUnspentOnFork`, `isSpentOnActiveChain`, `checkStakeInputs` — the inputs of a
  proof-of-stake block.
* `acceptBlock` — `AcceptBlock`.
-/

namespace KrovaCoin

open Lib

/-! ## The state -/

def DEFAULT_MAX_REORG_DEPTH : Int := 100

/-- The reject codes in use here. -/
def REJECT_OBSOLETE : Nat := 0x11

def REJECT_CHECKPOINT : Nat := 0x43

/-- An entry of `mapBlockIndex`: its branch, and whether the bits of `BLOCK_FAILED_MASK` and
    `BLOCK_HAVE_DATA` are set. -/
structure BlockIndexEntry where
  chain : List CBlock
  failed : Bool
  haveData : Bool

def chainBlockAt (chain : List CBlock) (nHeight : Int) : Option CBlock :=
  if nHeight < 0 then none else chain.reverse[nHeight.toNat]?

/-- The state `AcceptBlock` reads. The fields of the running node agree with the index and the active chain. -/
structure ChainState where
  node : NodeState
  mapBlockIndex : Uint256 → Option BlockIndexEntry
  active : List CBlock
  pcoinsTip : View
  getTransaction : Uint256 → Option (CTransaction × Uint256)
  /-- the stake modifier of an index entry -/
  stakeModifier : List CBlock → List UInt8
  /-- `-maxreorg` -/
  maxreorg : Int
  index : ∀ hash entry, mapBlockIndex hash = some entry → entry.chain.head?.map CBlock.hash = some hash
  tip : node.tip = active.head?.map CBlock.hash
  lookup : ∀ hash, node.lookupBlockIndex hash = (mapBlockIndex hash).isSome
  blocks : ∀ nHeight, node.chainActive nHeight = chainBlockAt active nHeight

def ChainState.height (s : ChainState) : Int := s.active.length - 1

/-- `CChain::FindFork`: the last block of a branch that is in the active chain. -/
def findFork (active : List CBlock) : List CBlock → List CBlock
  | [] => []
  | block :: pprev => if (block :: pprev) <:+ active then block :: pprev else findFork active pprev

/-- The index entry of the last block of a branch. -/
def CBlockIndex.ofChain : List CBlock → Option CBlockIndex
  | [] => none
  | block :: pprev => some (.of (CBlockIndex.ofChain pprev) block)

/-- What the proof of stake of a block after `pprev` is checked against. -/
def ChainState.stakeView (s : ChainState) (pprev : List CBlock) : StakeView where
  accessCoin := s.pcoinsTip.accessCoin
  chainActive nHeight := (chainBlockAt s.active nHeight).map fun block => (block.hash, block.nTime)
  getTransaction := s.getTransaction
  activeHeight hash := s.active.reverse.findIdx? fun block => block.hash == hash
  stakeModifier := s.stakeModifier pprev

/-! ## The header -/

/-- `ConvertBitsToDouble`; `none` for infinity. -/
def convertBitsToDouble (nBits : UInt32) : Option ℚ :=
  let nShift := nBits.toNat / 0x1000000
  let mantissa := nBits.toNat % 0x1000000
  if mantissa = 0 then none
  else
    let dDiff := roundRat (mkRat 0xffff mantissa)
    some (if nShift ≤ 29 then dDiff * 256 ^ (29 - nShift) else dDiff / 256 ^ (nShift - 29))

/-- `std::abs(n1 - n2) > n1 * 0.5`, with the comparisons of infinities. -/
def differsByHalf : Option ℚ → Option ℚ → Bool
  | some n1, some n2 => decide (|roundRat (n1 - n2)| > n1 / 2)
  | some _, none => true
  | none, _ => false

def checkWork (p : Params) (block : CBlock) (pprev : List CBlock) : Bool :=
  match pprev with
  | [] => false
  | _ :: _ =>
    let nBitsRequired := getNextWorkRequired p pprev
    if p.strNetworkID != .regtest && block.isProofOfWork && decide (pprev.length ≤ 68589) then
      !differsByHalf (convertBitsToDouble block.nBits) (convertBitsToDouble nBitsRequired)
    else block.nBits == nBitsRequired || (powParams p.strNetworkID).badBlock == some (block.nTime, block.nBits)

def getMedianTimePast (chain : List CBlock) : Int :=
  let times := ((chain.take 11).map CBlock.getBlockTime).mergeSort
  times.getD (times.length / 2) 0

/-- `MinPastBlockTime` of the last block of a branch. -/
def minPastBlockTime (p : Params) (chain : List CBlock) : Int :=
  let nHeight : Int := chain.length - 1
  let time := chain.head?.elim 0 CBlock.getBlockTime
  if !p.isTimeProtocolV2 (nHeight + 1) then getMedianTimePast chain
  else if nHeight + 1 = p.nActivationHeight .UPGRADE_V4_0 then
    time - p.futureBlockTimeDrift nHeight + p.futureBlockTimeDrift (nHeight + 1)
  else time

def checkBlockTime (env : Env) (node : NodeState) (block : CBlock) (pprev : List CBlock) : Except Failure Unit :=
  if env.params.strNetworkID = .regtest then .ok ()
  else do
    rejectIf (decide (block.getBlockTime > node.getAdjustedTime + env.params.futureBlockTimeDrift pprev.length))
      (.invalid 0 REJECT_INVALID "time-too-new" false "")
    rejectIf (decide (block.getBlockTime ≤ minPastBlockTime env.params pprev)) (dos 50 REJECT_INVALID "time-too-old")
    rejectIf (!env.params.isValidBlockTimeStamp block.getBlockTime pprev.length)
      (dos 100 REJECT_INVALID "invalid-time-mask")

/-- `GetLastCheckpoint`: the height of the last checkpoint that is in the index. -/
def getLastCheckpoint (cp : Checkpoints) (s : ChainState) : Option Int :=
  if !cp.fEnabled then none
  else cp.table.reverse.findSome? fun checkpoint =>
    (s.mapBlockIndex checkpoint.2).map fun entry => (entry.chain.length : Int) - 1

def obsoleteVersion (p : Params) (nVersion nHeight : Int) : Bool :=
  decide (nVersion < 3 ∧ nHeight ≥ 1) ||
  decide (nVersion < 4) && p.networkUpgradeActive nHeight .UPGRADE_ZC ||
  decide (nVersion < 5) && p.networkUpgradeActive nHeight .UPGRADE_BIP65 ||
  decide (nVersion < 6) && p.networkUpgradeActive nHeight .UPGRADE_V3_4 ||
  decide (nVersion < 7) && p.networkUpgradeActive nHeight .UPGRADE_V4_0 ||
  decide (nVersion < 8) && p.networkUpgradeActive nHeight .UPGRADE_V5_0

def contextualCheckBlockHeader (env : Env) (s : ChainState) (block : CBlock) (pprev : List CBlock) :
    Except Failure Unit :=
  if block.hash = env.params.hashGenesisBlock then .ok ()
  else do
    let nHeight : Int := pprev.length
    rejectIf pprev.isEmpty .assertion
    rejectIf (decide (s.height - nHeight ≥ s.maxreorg)) (dos 1 0 "")
    checkBlockTime env s.node block pprev
    rejectIf (!env.checkpoints.checkBlock nHeight block.hash false) (dos 100 REJECT_CHECKPOINT "checkpoint mismatch")
    rejectIf ((getLastCheckpoint env.checkpoints s).any fun checkpoint => decide (nHeight < checkpoint)) (dos 0 0 "")
    rejectIf (obsoleteVersion env.params block.nVersion nHeight)
      (.invalid 0 REJECT_OBSOLETE "bad-version" false
        s!"rejected block version {block.nVersion} at height {nHeight}")

/-- `GetPrevIndex`, after `ReconsiderBlock` for an invalid block that is a checkpoint. -/
def getPrevIndex (env : Env) (s : ChainState) (block : CBlock) : Except Failure (List CBlock) :=
  if block.hash = env.params.hashGenesisBlock then .ok []
  else
    match s.mapBlockIndex block.hashPrevBlock with
    | none => .error (dos 0 0 "prevblk-not-found")
    | some entry =>
      if entry.failed && !env.checkpoints.checkBlock ((entry.chain.length : Int) - 1) block.hashPrevBlock true then
        .error (dos 100 REJECT_INVALID "bad-prevblk")
      else .ok entry.chain

/-- `AcceptBlockHeader`: whether the data of the block are there already. -/
def acceptBlockHeader (env : Env) (s : ChainState) (block : CBlock) (pprev : List CBlock) : Except Failure Bool :=
  match s.mapBlockIndex block.hash with
  | some entry => if entry.failed then .error (.invalid 0 0 "duplicate" false "") else .ok entry.haveData
  | none => do
    contextualCheckBlockHeader env s block pprev
    return false

/-! ## The inputs of a proof-of-stake block -/

/-- The outpoints of the inputs of a transaction. -/
def CTransaction.prevouts (tx : CTransaction) : List COutPoint := tx.vin.map CTxIn.prevout

/-- The first loop of `CheckInBlockDoubleSpends`. -/
def collectOutpoints : List COutPoint → List COutPoint → Except Failure (List COutPoint)
  | [], spent_outpoints => .ok spent_outpoints
  | o :: os, spent_outpoints =>
    if o ∈ spent_outpoints then .error (dos 100 0 "") else collectOutpoints os (o :: spent_outpoints)

/-- `CheckInBlockDoubleSpends`: the inputs that are not outputs of transactions of the block. -/
def checkInBlockDoubleSpends (block : CBlock) : Except Failure (List COutPoint) := do
  let spent_outpoints ← collectOutpoints (block.vtx.tail.flatMap CTransaction.prevouts) []
  let inblock_txes := (block.vtx.drop 2).map CTransaction.hash
  let stakeInput := (block.vtx[1]?).bind fun tx => tx.prevouts.head?
  rejectIf (spent_outpoints.any fun o => decide (o.hash ∈ inblock_txes) && some o == stakeInput) (dos 100 0 "")
  return spent_outpoints.filter fun o => decide (o.hash ∉ inblock_txes)

/-- A transaction of the fork, in `IsUnspentOnFork`. -/
def scanForkTx (outpoints : List COutPoint) (tx : CTransaction) : Except Failure (List COutPoint) :=
  if tx.prevouts.any fun o => decide (o ∈ outpoints) then
    .error (dos 100 REJECT_INVALID "bad-txns-inputs-spent-fork-post-split")
  else .ok (outpoints.filter fun o => decide (o ∉ tx.outputs.map Prod.fst))

def scanForkBlock (outpoints : List COutPoint) (block : CBlock) : Except Failure (List COutPoint) :=
  if outpoints.isEmpty then .ok outpoints else block.vtx.reverse.foldlM scanForkTx outpoints

/-- `IsUnspentOnFork`: the outpoints that were not created on the fork, and `pindexFork`. -/
def isUnspentOnFork (s : ChainState) (readBlock : Int) (outpoints : List COutPoint) :
    List CBlock → Except Failure (List COutPoint × List CBlock)
  | [] => .error .assertion
  | block :: pprev =>
    if (block :: pprev) <:+ s.active then .ok (outpoints, block :: pprev)
    else do
      rejectIf (readBlock + 1 == s.maxreorg) (.error "forked chain longer than maximum reorg limit")
      rejectIf pprev.isEmpty (.error "null pprev for block")
      let outpoints ← scanForkBlock outpoints block
      isUnspentOnFork s (readBlock + 1) outpoints pprev

/-- `IsSpentOnActiveChain`, over the blocks after the split. -/
def isSpentOnActiveChain : List CBlock → List COutPoint → Bool
  | [], outpoints => outpoints.isEmpty
  | block :: blocks, outpoints =>
    if outpoints.isEmpty then true
    else isSpentOnActiveChain blocks
      (block.vtx.foldl (fun outpoints tx => outpoints.filter fun o => decide (o ∉ tx.prevouts)) outpoints)

/-- The inputs that are not among the coins of the tip; `pindexFork` is null for a block on the tip. -/
def checkTipCoins (v : View) (pindexFork : Option (List CBlock)) : List COutPoint → Except Failure (List COutPoint)
  | [] => .ok []
  | o :: os => do
    let coin := v.accessCoin o
    if !coin.isSpent then
      rejectIf (pindexFork.any fun chain => decide ((coin.nHeight : Int) > chain.length - 1))
        (dos 100 REJECT_INVALID "bad-txns-inputs-created-post-split")
      checkTipCoins v pindexFork os
    else
      rejectIf pindexFork.isNone (.error "tx inputs spent/not-available on main chain")
      return o :: (← checkTipCoins v pindexFork os)

/-- The blocks of the active chain after the split, in order. -/
def activeBranch (active pindexFork : List CBlock) : List CBlock :=
  (active.take (active.length - pindexFork.length)).reverse

def checkForkInputs (s : ChainState) (pprev : List CBlock) (spent_outpoints : List COutPoint) :
    Except Failure Unit := do
  let (outpoints, pindexFork) ← isUnspentOnFork s 0 spent_outpoints pprev
  rejectIf (decide (s.height - (pindexFork.length - 1) > s.maxreorg))
    (.error "forked chain longer than maximum reorg limit")
  let outpoints ← checkTipCoins s.pcoinsTip (some pindexFork) outpoints
  rejectIf (!outpoints.isEmpty && !isSpentOnActiveChain (activeBranch s.active pindexFork) outpoints)
    (dos 100 REJECT_INVALID "bad-txns-inputs-spent-fork-pre-split")

def checkStakeInputs (s : ChainState) (block : CBlock) (pprev : List CBlock) : Except Failure Unit := do
  let spent_outpoints ← checkInBlockDoubleSpends block
  if pprev ≠ [] ∧ s.active ≠ pprev then checkForkInputs s pprev spent_outpoints
  else do
    let _ ← checkTipCoins s.pcoinsTip none spent_outpoints

/-! ## `AcceptBlock` -/

/-- How `AcceptBlock` succeeds: the block is written to disk, or it was there before. -/
inductive Accepted where
  | stored
  | alreadyHave
  deriving DecidableEq, Repr

def acceptProofOfStake (env : Env) (s : ChainState) (block : CBlock) (pprev : List CBlock) : Except Failure Unit :=
  if !block.isProofOfStake then .ok ()
  else
    match checkProofOfStake env.params env.crypto (s.stakeView pprev) pprev.length block with
    | .error _ => .error (dos 100 0 "")
    | .ok _ => .ok ()

/-- The checks of a block whose data are not there yet. -/
def acceptBlockData (env : Env) (s : ChainState) (block : CBlock) (pprev : List CBlock) : Except Failure Accepted := do
  checkBlock env s.node block true true true
  contextualCheckBlock env s.node block (CBlockIndex.ofChain pprev)
  if block.isProofOfStake then do
    checkStakeInputs s block pprev
    return .stored
  else return .stored

def acceptBlock (env : Env) (s : ChainState) (block : CBlock) : Except Failure Accepted := do
  let pprev ← getPrevIndex env s block
  rejectIf (block.hash != env.params.hashGenesisBlock && !checkWork env.params block pprev) (dos 100 REJECT_INVALID "")
  acceptProofOfStake env s block pprev
  let haveData ← acceptBlockHeader env s block pprev
  if haveData then return .alreadyHave else acceptBlockData env s block pprev

end KrovaCoin
