import KrovaCoin.Script.Script
import KrovaCoin.Consensus.Params

/-!
# Transactions and blocks (`primitives/transaction.h`, `primitives/block.h`)

The data types follow the source. `CTransaction` caches its hash in a field; blocks carry the value of `GetHash()` in
the same way, so a result about all blocks is a result about every hash function. Fields that exist in memory only
(`nRounds`, `isTransparent`, `fChecked`) are left out.
-/

namespace KrovaCoin

open Lib

structure COutPoint where
  hash : Uint256
  n : UInt32
  deriving DecidableEq, Repr

def COutPoint.isNull (o : COutPoint) : Bool := o.hash == UINT256_ZERO && o.n == 0xffffffff

structure CTxIn where
  prevout : COutPoint
  scriptSig : CScript
  nSequence : UInt32
  deriving DecidableEq, Repr

def SEQUENCE_FINAL : UInt32 := 0xffffffff

namespace CTxIn

def isFinal (txin : CTxIn) : Bool := txin.nSequence == SEQUENCE_FINAL

def isZerocoinSpend (txin : CTxIn) : Bool :=
  txin.prevout.hash == UINT256_ZERO && txin.scriptSig.isZerocoinSpend

def isZerocoinPublicSpend (txin : CTxIn) : Bool := txin.scriptSig.isZerocoinPublicSpend

end CTxIn

structure CTxOut where
  nValue : Int
  scriptPubKey : CScript
  deriving DecidableEq, Repr

namespace CTxOut

def null : CTxOut := ⟨-1, []⟩

def isNull (out : CTxOut) : Bool := out.nValue == -1

def isEmpty (out : CTxOut) : Bool := out.nValue == 0 && out.scriptPubKey.isEmpty

def isZerocoinMint (out : CTxOut) : Bool := out.scriptPubKey.isZerocoinMint

end CTxOut

structure SpendDescription where
  cv : Uint256
  anchor : Uint256
  nullifier : Uint256
  rk : Uint256
  zkproof : Vector UInt8 192
  spendAuthSig : Vector UInt8 64
  deriving DecidableEq, Repr

structure OutputDescription where
  cv : Uint256
  cmu : Uint256
  ephemeralKey : Uint256
  encCiphertext : Vector UInt8 580
  outCiphertext : Vector UInt8 80
  zkproof : Vector UInt8 192
  deriving DecidableEq, Repr

structure SaplingTxData where
  valueBalance : Int
  vShieldedSpend : List SpendDescription
  vShieldedOutput : List OutputDescription
  bindingSig : Vector UInt8 64
  deriving DecidableEq, Repr

def SaplingTxData.hasBindingSig (d : SaplingTxData) : Bool := d.bindingSig.toList.any (· != 0)

/-- `CTransaction::TxVersion` and `CTransaction::TxType`. -/
def TXVERSION_LEGACY : Int := 1

def TXVERSION_SAPLING : Int := 3

def TXVERSION_TOOHIGH : Int := 4

def TXTYPE_NORMAL : Int := 0

def TXTYPE_PROREG : Int := 1

def TXTYPE_LLMQCOMM : Int := 5

structure CTransaction where
  hash : Uint256
  nVersion : Int
  nType : Int
  vin : List CTxIn
  vout : List CTxOut
  nLockTime : UInt32
  sapData : Option SaplingTxData
  extraPayload : Option (List UInt8)
  deriving DecidableEq, Repr

namespace CTransaction

def hasSaplingData (tx : CTransaction) : Bool :=
  match tx.sapData with
  | none => false
  | some d =>
    !d.vShieldedOutput.isEmpty || !d.vShieldedSpend.isEmpty || d.valueBalance != 0 || d.hasBindingSig

def isSaplingVersion (tx : CTransaction) : Bool := decide (tx.nVersion ≥ TXVERSION_SAPLING)

def isShieldedTx (tx : CTransaction) : Bool := tx.isSaplingVersion && tx.hasSaplingData

def hasExtraPayload (tx : CTransaction) : Bool :=
  match tx.extraPayload with
  | none => false
  | some p => !p.isEmpty

def isSpecialTx (tx : CTransaction) : Bool :=
  tx.isSaplingVersion && tx.nType != TXTYPE_NORMAL && tx.hasExtraPayload

def isNormalType (tx : CTransaction) : Bool := tx.nType == TXTYPE_NORMAL

def isQuorumCommitmentTx (tx : CTransaction) : Bool :=
  tx.isSpecialTx && tx.nType == TXTYPE_LLMQCOMM

/-- The shielded spends, none without Sapling data. -/
def shieldedSpends (tx : CTransaction) : List SpendDescription :=
  match tx.sapData with
  | none => []
  | some d => d.vShieldedSpend

/-- The shielded outputs, none without Sapling data. -/
def shieldedOutputs (tx : CTransaction) : List OutputDescription :=
  match tx.sapData with
  | none => []
  | some d => d.vShieldedOutput

/-- `sapData->valueBalance`, zero without Sapling data. -/
def valueBalance (tx : CTransaction) : Int :=
  match tx.sapData with
  | none => 0
  | some d => d.valueBalance

def hasZerocoinSpendInputs (tx : CTransaction) : Bool :=
  tx.vin.any fun txin => txin.isZerocoinSpend || txin.isZerocoinPublicSpend

def hasZerocoinMintOutputs (tx : CTransaction) : Bool := tx.vout.any CTxOut.isZerocoinMint

def containsZerocoins (tx : CTransaction) : Bool :=
  tx.hasZerocoinSpendInputs || tx.hasZerocoinMintOutputs

def isCoinBase (tx : CTransaction) : Bool :=
  match tx.vin with
  | [txin] => txin.prevout.isNull && !txin.scriptSig.isZerocoinSpend
  | _ => false

def isCoinStake (tx : CTransaction) : Bool :=
  match tx.vin, tx.vout with
  | txin :: _, out :: _ :: _ =>
    !(txin.prevout.isNull && !txin.isZerocoinSpend) && out.isEmpty
  | _, _ => false

def hasP2CSOutputs (tx : CTransaction) : Bool :=
  tx.vout.any fun out => out.scriptPubKey.isPayToColdStaking

def hasExchangeAddr (tx : CTransaction) : Bool :=
  tx.vout.any fun out => out.scriptPubKey.isPayToExchangeAddress

/-- The loop of `CTransaction::GetValueOut`; an error is the text of the exception. -/
def valueOutLoop : Int → List CTxOut → Except String Int
  | nValueOut, [] => .ok nValueOut
  | nValueOut, out :: vout =>
    if out.nValue < 0 then .error "CTransaction::GetValueOut() : value out of range : less than 0"
    else if toInt64 (nValueOut + out.nValue) < nValueOut then
      .error "CTransaction::GetValueOut() : value out of range : wraps the int64_t boundary"
    else valueOutLoop (toInt64 (nValueOut + out.nValue)) vout

def getValueOut (tx : CTransaction) : Except String Int := do
  let nValueOut ← valueOutLoop 0 tx.vout
  if tx.hasSaplingData ∧ tx.valueBalance < 0 then
    if tx.isSaplingVersion then .ok (toInt64 (nValueOut + -tx.valueBalance))
    else .error "GetValueOut(): invalid tx version"
  else .ok nValueOut

def getShieldedValueIn (tx : CTransaction) : Except String Int :=
  if tx.hasSaplingData ∧ tx.valueBalance > 0 then
    if tx.isSaplingVersion then .ok tx.valueBalance else .error "GetValueOut(): invalid tx version"
  else .ok 0

/-- The outpoints the transaction takes from the coins: a coinbase takes none. -/
def spends (tx : CTransaction) : List COutPoint := if tx.isCoinBase then [] else tx.vin.map CTxIn.prevout

end CTransaction

/-- `CBlock`: the header, the transactions and the block signature; `hash` is `GetHash()`. -/
structure CBlock where
  hash : Uint256
  nVersion : Int
  hashPrevBlock : Uint256
  hashMerkleRoot : Uint256
  nTime : UInt32
  nBits : UInt32
  nNonce : UInt32
  hashFinalSaplingRoot : Uint256
  vtx : List CTransaction
  vchBlockSig : List UInt8
  deriving DecidableEq, Repr

namespace CBlock

def isProofOfStake (block : CBlock) : Bool :=
  match block.vtx with
  | _ :: tx :: _ => tx.isCoinStake
  | _ => false

def isProofOfWork (block : CBlock) : Bool := !block.isProofOfStake

def getBlockTime (block : CBlock) : Int := block.nTime.toNat

end CBlock

end KrovaCoin
