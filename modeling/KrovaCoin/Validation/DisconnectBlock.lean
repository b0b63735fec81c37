import KrovaCoin.Compressor
import KrovaCoin.Validation.ConnectBlock

/-!
# Disconnecting blocks (`undo.h`, `validation.cpp`: `ApplyTxInUndo`, `DisconnectBlock`)

The undo data of a block are written to disk when it is connected and read back when it is disconnected. Heights and
flags share one 32-bit code, amounts are compressed; scripts come back as they were written.
-/

namespace KrovaCoin

open Lib

/-! ## Undo records -/

/-- The code of `TxInUndoFormatter`: `nHeight * 4 + 2 * fCoinBase + fCoinStake` in 32 bits. -/
def Coin.undoCode (c : Coin) : Nat :=
  (c.nHeight * 4 + (if c.fCoinBase then 2 else 0) + (if c.fCoinStake then 1 else 0)) % 4294967296

/-- A coin as it is read from its undo record. -/
def Coin.readBack (c : Coin) : Coin where
  fCoinBase := c.undoCode / 2 % 2 == 1
  fCoinStake := c.undoCode % 2 == 1
  out := ⟨Compressor.amountRoundTrip c.out.nValue, c.out.scriptPubKey⟩
  nHeight := c.undoCode / 4

/-- `UndoReadFromDisk` of what `UndoWriteToDisk` has written. -/
def CTxUndo.readBack (u : CTxUndo) : CTxUndo := ⟨u.vprevout.map Coin.readBack⟩

/-! ## `DisconnectBlock` -/

inductive DisconnectResult where
  | DISCONNECT_OK
  | DISCONNECT_UNCLEAN
  | DISCONNECT_FAILED
  deriving DecidableEq, Repr

/-- How a part of `DisconnectBlock` stops: it returns `DISCONNECT_FAILED`, or something else happens. -/
inductive DisconnectStop where
  | failed
  | failure (e : Failure)
  deriving DecidableEq, Repr

def failing {α : Type} : Except Failure α → Except DisconnectStop α
  | .ok a => .ok a
  | .error e => .error (.failure e)

/-- `MAX_OUTPUTS_PER_BLOCK`: an empty output has nine bytes. -/
def MAX_OUTPUTS_PER_BLOCK : Nat := MAX_BLOCK_SIZE_CURRENT / 9

/-- The loop of `AccessByTxid`. -/
def accessByTxidLoop (txid : Uint256) : Nat → Nat → View → Coin × View
  | 0, _, v => (coinEmpty, v)
  | fuel + 1, n, v =>
    let iter : COutPoint := ⟨txid, UInt32.ofNat n⟩
    if !(v.accessCoin iter).isSpent then (v.accessCoin iter, v.fetch iter)
    else accessByTxidLoop txid fuel (n + 1) (v.fetch iter)

def accessByTxid (v : View) (txid : Uint256) : Coin × View :=
  accessByTxidLoop txid MAX_OUTPUTS_PER_BLOCK 0 v

/-- The metadata of an undo coin: a height of zero says that they are missing. -/
def undoMetadata (v : View) (undo : Coin) (out : COutPoint) : Except DisconnectStop (Coin × View) :=
  if undo.nHeight ≠ 0 then .ok (undo, v)
  else
    let r := accessByTxid v out.hash
    if r.1.isSpent then .error .failed
    else .ok ({ undo with nHeight := r.1.nHeight, fCoinBase := r.1.fCoinBase, fCoinStake := r.1.fCoinStake }, r.2)

/-- `ApplyTxInUndo`: the view, and whether the result is `DISCONNECT_OK`. -/
def applyTxInUndo (undo : Coin) (v : View) (out : COutPoint) : Except DisconnectStop (View × Bool) := do
  let fClean := !v.haveCoin out
  let (undo, v) ← undoMetadata (v.fetch out) undo out
  let v ← failing (v.addCoin out undo (!fClean))
  return (v, fClean)

def disconnectOutput (s : View × Bool) (output : COutPoint × CTxOut) : View × Bool :=
  if output.2.scriptPubKey.isUnspendable then s
  else
    let r := s.1.spendCoin output.1
    (r.2, s.2 && decide (output.2 = (r.1.getD coinEmpty).out))

def disconnectInput (s : View × Bool) (input : COutPoint × Coin) : Except DisconnectStop (View × Bool) := do
  let (v, fClean) ← applyTxInUndo input.2 s.1 input.1
  return (v, s.2 && fClean)

/-- One transaction, with its undo data. -/
def disconnectTx (s : View × Bool) (entry : CTransaction × CTxUndo) : Except DisconnectStop (View × Bool) :=
  let tx := entry.1
  let (v, fClean) := tx.outputs.foldl disconnectOutput s
  if tx.isCoinBase then .ok (v, fClean)
  else if entry.2.vprevout.length ≠ tx.vin.length then .error .failed
  else
    ((tx.vin.map CTxIn.prevout).zip entry.2.vprevout).reverse.foldlM disconnectInput
      (v.setNullifiers tx false, fClean)

/-- `DisconnectBlock` of the block after `pprev`, with the undo data that were written for it. After `DISCONNECT_FAILED`
    the view is not used. -/
def disconnectBlock (env : Env) (block : CBlock) (pprev : Option CBlockIndex) (undo : Option CBlockUndo)
    (v : View) : Except Failure (DisconnectResult × View) :=
  match undo, pprev with
  | none, _ => .ok (.DISCONNECT_FAILED, v)
  | some _, none => .error .assertion
  | some blockUndo, some pprev =>
    if blockUndo.vtxundo.length + 1 ≠ block.vtx.length then .ok (.DISCONNECT_FAILED, v)
    else
      -- the coinbase has no undo data
      match (block.vtx.zip (⟨[]⟩ :: blockUndo.vtxundo.map CTxUndo.readBack)).reverse.foldlM disconnectTx
          (v, true) with
      | .error .failed => .ok (.DISCONNECT_FAILED, v)
      | .error (.failure e) => .error e
      | .ok (v, fClean) => do
        let v ← v.popAnchor env.pedersen
          (if env.params.networkUpgradeActive pprev.nHeight .UPGRADE_V5_0 then pprev.hashFinalSaplingRoot
            else PedersenHash.emptyRoot)
        return (if fClean then .DISCONNECT_OK else .DISCONNECT_UNCLEAN, v.setBestBlock pprev.hash)

end KrovaCoin
