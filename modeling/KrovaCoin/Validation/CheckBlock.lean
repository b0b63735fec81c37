import KrovaCoin.BlockSignature
import KrovaCoin.Consensus.Checkpoints
import KrovaCoin.Consensus.Merkle
import KrovaCoin.Consensus.TxVerify
import KrovaCoin.Sapling.IncrementalMerkleTree

/-!
# Block checks (`validation.cpp`: `CheckBlock`, `ContextualCheckBlock`)

* `CBlockIndex` — the part of a block index entry that validation reads.
* `checkBlock`, `contextualCheckBlock`.

Principal result: `checkBlock_ok`.
-/

namespace KrovaCoin

open Lib

/-- The parameters of the network, the libraries and the checkpoints. -/
structure Env where
  params : Params
  crypto : Crypto
  pedersen : PedersenHash
  proofs : SaplingProofs
  checkpoints : Checkpoints

/-- The global state of the node that validation reads: the active chain, whether a block is known, the download state,
    the two sporks, the clock, the number of script threads and the set `invalid_out::setInvalidOutPoints`. -/
structure NodeState where
  /-- `chainActive.Tip()->GetBlockHash()` -/
  tip : Option Uint256
  /-- the block at a height of `chainActive`, as it is read from disk -/
  chainActive : Int → Option CBlock
  /-- `LookupBlockIndex(hash) != nullptr` -/
  lookupBlockIndex : Uint256 → Bool
  isInitialBlockDownload : Bool
  /-- `sporkManager.IsSporkActive(SPORK_19_COLDSTAKING_MAINTENANCE)` -/
  coldStakingMaintenance : Bool
  /-- `sporkManager.GetSporkValue(SPORK_20_SAPLING_MAINTENANCE)` -/
  saplingMaintenance : Int
  getAdjustedTime : Int
  nScriptCheckThreads : Nat
  setInvalidOutPoints : COutPoint → Bool

structure CBlockIndex where
  hash : Uint256
  nHeight : Nat
  hashFinalSaplingRoot : Uint256
  nChainSaplingValue : Option Int
  deriving DecidableEq, Repr

/-- The value of `nSaplingValue` that `ReceivedBlockTransactions` computes. -/
def CBlock.nSaplingValue (block : CBlock) : Int :=
  block.vtx.foldl (fun saplingValue tx =>
    if tx.isShieldedTx then toInt64 (saplingValue + -tx.valueBalance) else saplingValue) 0

/-- The height of a block after `pprev`. -/
def nextHeight : Option CBlockIndex → Nat
  | none => 0
  | some pprev => pprev.nHeight + 1

/-- The index entry of a block after `pprev`, with `SetChainSaplingValue`. -/
def CBlockIndex.of (pprev : Option CBlockIndex) (block : CBlock) : CBlockIndex where
  hash := block.hash
  nHeight := nextHeight pprev
  hashFinalSaplingRoot := block.hashFinalSaplingRoot
  nChainSaplingValue :=
    match pprev with
    | none => some block.nSaplingValue
    | some pprev => pprev.nChainSaplingValue.map fun value => toInt64 (value + block.nSaplingValue)

/-! ## `CheckBlock` -/

def checkMerkleRoot (c : Crypto) (block : CBlock) (fCheckMerkleRoot : Bool) : Except Failure Unit :=
  if !fCheckMerkleRoot then .ok ()
  else do
    let (hashMerkleRoot2, mutated) := blockMerkleRoot c block
    rejectIf (block.hashMerkleRoot != hashMerkleRoot2)
      (.invalid 100 REJECT_INVALID "bad-txnmrklroot" true "hashMerkleRoot mismatch")
    rejectIf mutated (.invalid 100 REJECT_INVALID "bad-txns-duplicate" true "duplicate transaction")

def getTotalShieldedTxSize (block : CBlock) : Nat :=
  ((block.vtx.filter CTransaction.isShieldedTx).map CTransaction.getTotalSize).sum

/-- The order of coinbase, coinstake and other transactions. -/
def checkBlockForm (block : CBlock) : Except Failure Unit := do
  rejectIf (!block.vtx.head?.any CTransaction.isCoinBase)
    (.invalid 100 REJECT_INVALID "bad-cb-missing" false "first tx is not coinbase")
  rejectIf (block.vtx.tail.any CTransaction.isCoinBase)
    (.invalid 100 REJECT_INVALID "bad-cb-multiple" false "more than one coinbase")
  rejectIf (block.isProofOfStake && !(block.vtx[1]?).any CTransaction.isCoinStake)
    (.invalid 100 REJECT_INVALID "bad-cs-missing" false "second tx is not coinstake")
  rejectIf (block.isProofOfStake && (block.vtx.drop 2).any CTransaction.isCoinStake)
    (.invalid 100 REJECT_INVALID "bad-cs-multiple" false "more than one coinstake")

def checkColdStakeFreeOutput (tx : CTransaction) : Bool :=
  match tx.vout with
  | _ :: out1 :: _ =>
    !out1.scriptPubKey.isPayToColdStakingLOF ||
      !(decide (tx.vout.length ≥ 3) &&
        (tx.vout.getLast?.map CTxOut.scriptPubKey != tx.vout.dropLast.getLast?.map CTxOut.scriptPubKey))
  | _ => true

/-- The checks that depend on the tip; the result is `fColdStakingActive`. -/
def checkColdStaking (node : NodeState) (block : CBlock) : Except Failure Bool :=
  match node.tip with
  | none => .ok true
  | some tip =>
    if block.hashPrevBlock = UINT256_ZERO then .ok true
    else do
      rejectIf (tip != block.hashPrevBlock && !node.lookupBlockIndex block.hashPrevBlock)
        (.error "blk-out-of-order")
      if node.isInitialBlockDownload then return true
      else do
        rejectIf (block.isProofOfStake && !((block.vtx[1]?).all checkColdStakeFreeOutput))
          (.invalid 0 REJECT_INVALID "bad-p2cs-outs" false "invalid cold-stake output")
        return !node.coldStakingMaintenance

def checkBlock (env : Env) (node : NodeState) (block : CBlock) (fCheckPOW fCheckMerkleRoot fCheckSig : Bool) :
    Except Failure Unit := do
  rejectIf (!block.isProofOfStake && fCheckPOW && !checkProofOfWork env.params block.hash block.nBits)
    (.invalid 50 REJECT_INVALID "high-hash" false "proof of work failed")
  checkMerkleRoot env.crypto block fCheckMerkleRoot
  rejectIf (decide (block.vtx = [] ∨ block.vtx.length > MAX_BLOCK_SIZE_CURRENT ∨
      block.serializeSize > MAX_BLOCK_SIZE_CURRENT))
    (.invalid 100 REJECT_INVALID "bad-blk-length" false "size limits failed")
  rejectIf (decide (block.serializeSize > MAX_BLOCK_SHIELDED_TXES_SIZE ∧
      getTotalShieldedTxSize block > MAX_BLOCK_SHIELDED_TXES_SIZE))
    (.invalid 100 REJECT_INVALID "bad-blk-shielded-size" false "shielded size limits failed")
  checkBlockForm block
  let fColdStakingActive ← checkColdStaking node block
  block.vtx.forM fun tx => checkTransaction env.params tx fColdStakingActive
  rejectIf (decide ((block.vtx.map getLegacySigOpCount).sum > MAX_BLOCK_SIGOPS_CURRENT))
    (.invalid 100 REJECT_INVALID "bad-blk-sigops" true "")
  rejectIf (fCheckSig && !checkBlockSignature env.crypto block)
    (.invalid 100 REJECT_INVALID "bad-PoS-sig" true "")

/-- What `CheckBlock` guarantees of the transactions. -/
structure BlockChecked (p : Params) (block : CBlock) : Prop where
  coinbase : ∃ cb txs, block.vtx = cb :: txs ∧ cb.isCoinBase = true ∧ ∀ tx ∈ txs, tx.isCoinBase = false
  coinstake : block.isProofOfStake = true → ∀ tx ∈ block.vtx.drop 2, tx.isCoinStake = false
  txs : ∀ tx ∈ block.vtx, TxChecked p tx
  sigops : (block.vtx.map getLegacySigOpCount).sum ≤ MAX_BLOCK_SIGOPS_CURRENT

/-- **What an accepted block satisfies.** -/
theorem checkBlock_ok {env : Env} {node : NodeState} {block : CBlock} {pow merkle sig : Bool}
    (hmax : 0 ≤ env.params.nMaxMoneyOut ∧ env.params.nMaxMoneyOut < 9223372036854775808)
    (h : checkBlock env node block pow merkle sig = .ok ()) : BlockChecked env.params block := by
  simp only [checkBlock, checkBlockForm, bind_eq_ok, rejectIf_eq_ok, exists_and_left, exists_const,
    forM_eq_ok, Bool.not_eq_false', decide_eq_false_iff_not, not_lt] at h
  obtain ⟨-, _, -, -, -, ⟨hcb, hothers, -, hcs⟩, cold, -, htxs, hsigops, -⟩ := h
  refine ⟨?_, fun hpos tx hin => ?_, fun tx hin => checkTransaction_ok hmax (htxs tx hin), hsigops⟩
  · cases hvtx : block.vtx with
    | nil => simp [hvtx] at hcb
    | cons cb txs =>
      refine ⟨cb, txs, rfl, by simpa [hvtx] using hcb, fun tx hin => ?_⟩
      rw [hvtx, List.tail_cons, List.any_eq_false] at hothers
      simpa using hothers tx hin
  · rw [hpos, Bool.true_and, List.any_eq_false] at hcs
    simpa using hcs tx hin

theorem checkBlock_signature {env : Env} {node : NodeState} {block : CBlock} {pow merkle : Bool}
    (h : checkBlock env node block pow merkle true = .ok ()) : checkBlockSignature env.crypto block = true := by
  simp only [checkBlock, bind_eq_ok, rejectIf_eq_ok, exists_and_left, exists_const, Bool.true_and,
    Bool.not_eq_false'] at h
  obtain ⟨-, _, -, -, -, _, -, _, -, _, -, -, hsig⟩ := h
  exact hsig

/-! ## `ContextualCheckBlock` -/

def contextualCheckBlockTx (env : Env) (node : NodeState) (block : CBlock) (nHeight : Nat)
    (tx : CTransaction) : Except Failure Unit := do
  contextualCheckTransaction env.params env.crypto env.proofs tx nHeight
  rejectIf (!isFinalTx node.getAdjustedTime tx nHeight block.getBlockTime)
    (.invalid 10 REJECT_INVALID "bad-txns-nonfinal" false "non-final transaction")

def checkCoinbaseHeight (block : CBlock) (nHeight : Nat) : Bool :=
  match block.vtx with
  | cb :: _ =>
    match cb.vin with
    | txin :: _ => (pushInt64 nHeight).isPrefixOf txin.scriptSig
    | [] => false
  | [] => false

def contextualCheckBlock (env : Env) (node : NodeState) (block : CBlock) (pindexPrev : Option CBlockIndex) :
    Except Failure Unit := do
  block.vtx.forM (contextualCheckBlockTx env node block (nextHeight pindexPrev))
  rejectIf (pindexPrev.isSome && !checkCoinbaseHeight block (nextHeight pindexPrev))
    (.invalid 100 REJECT_INVALID "bad-cb-height" false "block height mismatch in coinbase")
  match block.isProofOfStake, block.vtx with
  | true, _ :: csTx :: _ => do
    rejectIf (decide (csTx.vin.length > 1))
      (.invalid 100 REJECT_INVALID "bad-cs-multi-inputs" false "invalid multi-inputs coinstake")
    rejectIf (csTx.vout.tail.any CTxOut.isEmpty) (dos 100 REJECT_INVALID "bad-txns-vout-empty")
  | _, _ => .ok ()

end KrovaCoin
