import KrovaCoin.Pow
import KrovaCoin.Coins.Cache
import KrovaCoin.Script.Interpreter

/-!
# Proof of stake (`kernel.cpp`, `stakeinput.cpp`)

* `checkKernelHash` — `CStakeKernel::CheckKernelHash`.

Principal result: `stakeMinDepth_iff`.
-/

namespace KrovaCoin

open Lib

/-- What proof-of-stake validation reads of the node's state: the coins of the tip, the active chain
    by height (hash, time), the transaction index and the stake modifier of the parent block. -/
structure StakeView where
  accessCoin : COutPoint → Coin
  chainActive : Nat → Option (Uint256 × UInt32)
  getTransaction : Uint256 → Option (CTransaction × Uint256)
  /-- The height of a block of the active chain with the given hash. -/
  activeHeight : Uint256 → Option Nat
  stakeModifier : List UInt8

/-- `CPivStake`; the block that holds the output is given by its height and time. -/
structure CPivStake where
  outputFrom : CTxOut
  outpointFrom : COutPoint
  heightFrom : Nat
  timeFrom : UInt32
  deriving DecidableEq, Repr

/-- `Params::HasStakeMinAgeOrDepth`; the sum of the times is one of 32-bit words. -/
def Params.hasStakeMinAgeOrDepth (p : Params) (contextHeight : Int) (contextTime : UInt32)
    (utxoFromBlockHeight : Int) (utxoFromBlockTime : UInt32) : Bool :=
  if !p.networkUpgradeActive contextHeight .UPGRADE_V3_4 then
    decide ((utxoFromBlockTime.toNat + p.nStakeMinAge) % 0x100000000 ≤ contextTime.toNat)
  else decide (contextHeight - utxoFromBlockHeight ≥ p.nStakeMinDepth)

/-- `HasStakeMinAgeOrDepth` of `stakeinput.cpp`. -/
def hasStakeMinAgeOrDepth (p : Params) (nHeight : Int) (nTime : UInt32) (heightFrom : Nat) (timeFrom : UInt32) : Bool :=
  !(p.networkUpgradeActive (nHeight + 1) .UPGRADE_ZC_PUBLIC &&
    !p.hasStakeMinAgeOrDepth nHeight nTime heightFrom timeFrom)

/-- The stake of an output that stands in the block at `heightFrom`, if it is old enough. -/
def pivStakeAt (p : Params) (v : StakeView) (nHeight : Int) (nTime : UInt32) (out : CTxOut)
    (prevout : COutPoint) (heightFrom : Nat) : Option CPivStake :=
  match v.chainActive heightFrom with
  | none => none
  | some (_, timeFrom) =>
    if hasStakeMinAgeOrDepth p nHeight nTime heightFrom timeFrom then
      some ⟨out, prevout, heightFrom, timeFrom⟩
    else none

/-- `CPivStake::NewPivStake`; `none` for the null pointer. -/
def newPivStake (p : Params) (v : StakeView) (txin : CTxIn) (nHeight : Int) (nTime : UInt32) : Option CPivStake :=
  if txin.isZerocoinSpend then none
  else
    let coin := v.accessCoin txin.prevout
    if !coin.isSpent then pivStakeAt p v nHeight nTime coin.out txin.prevout coin.nHeight
    else
      match v.getTransaction txin.prevout.hash with
      | none => none
      | some (txPrev, hashBlock) =>
        match v.activeHeight hashBlock, txPrev.vout[txin.prevout.n.toNat]? with
        | some heightFrom, some out => pivStakeAt p v nHeight nTime out txin.prevout heightFrom
        | _, _ => none

/-- Four bytes of a word, the least significant one first. -/
def le32 (x : UInt32) : List UInt8 := (List.range 4).map fun i => UInt8.ofNat (x.toNat / 256 ^ i)

/-- `CStakeKernel::GetHash`. -/
def kernelHash (c : Crypto) (stakeModifier : List UInt8) (stake : CPivStake) (nTime : UInt32) : Uint256 :=
  .ofBytes (c.hash256 (stakeModifier ++ le32 stake.timeFrom ++
    (le32 stake.outpointFrom.n ++ stake.outpointFrom.hash.toBytes) ++ le32 nTime))

def checkKernelHash (c : Crypto) (stakeModifier : List UInt8) (stake : CPivStake) (nBits nTime : UInt32) : Bool :=
  let weight : Uint256 := BitVec.ofNat 256 ((stake.outputFrom.nValue % 0x10000000000000000).toNat / 100)
  decide (kernelHash c stakeModifier stake nTime < (setCompact nBits).1 * weight)

/-- `CheckProofOfStake`, for a block at `nHeight`: the staked output, or the error text. -/
def checkProofOfStake (p : Params) (c : Crypto) (v : StakeView) (nHeight : Int) (block : CBlock) :
    Except String CTxOut :=
  match block.vtx with
  | _ :: tx :: _ =>
    match tx.vin with
    | txin :: _ =>
      if !block.isProofOfStake then .error "stake input initialization failed"
      else
        match newPivStake p v txin nHeight block.nTime with
        | none => .error "stake input initialization failed"
        | some stake =>
          if !checkKernelHash c v.stakeModifier stake block.nBits block.nTime then
            .error "kernel hash check fails"
          else
            match verifyScript c txin.scriptSig stake.outputFrom.scriptPubKey
                STANDARD_SCRIPT_VERIFY_FLAGS
                (transactionSignatureChecker c tx 0 stake.outputFrom.nValue) tx.getRequiredSigVersion with
            | .error serror => .error ("signature fails: " ++ scriptErrorString serror)
            | .ok () => .ok stake.outputFrom
    | [] => .error "stake input initialization failed"
  | _ => .error "stake input initialization failed"

variable {p : Params} {v : StakeView} {nHeight : Int}

/-- The coinstake of a block with a valid proof of stake has passed `VerifyScript` against the staked output. -/
theorem checkProofOfStake_ok {c : Crypto} {block : CBlock} {stakePrevout : CTxOut}
    (h : checkProofOfStake p c v nHeight block = .ok stakePrevout) :
    ∃ cb tx txs txin ins, block.vtx = cb :: tx :: txs ∧ tx.vin = txin :: ins ∧ block.isProofOfStake = true ∧
      verifyScript c txin.scriptSig stakePrevout.scriptPubKey STANDARD_SCRIPT_VERIFY_FLAGS
        (transactionSignatureChecker c tx 0 stakePrevout.nValue) tx.getRequiredSigVersion = .ok () := by
  unfold checkProofOfStake at h
  split at h
  · rename_i cb tx txs hvtx
    split at h
    · rename_i txin ins hvin
      split at h
      · cases h
      rename_i hpos
      split at h
      · cases h
      split at h
      · cases h
      split at h
      · cases h
      rename_i hverify
      cases h
      exact ⟨cb, tx, txs, txin, ins, hvtx, hvin, by simpa using hpos, hverify⟩
    · cases h
  · cases h

/-! ## The depth of the staked output -/

/-- `LoadStakeInput`: the stake of a proof-of-stake block at `nHeight`. -/
def loadStakeInput (p : Params) (v : StakeView) (nHeight : Int) (block : CBlock) : Option CPivStake :=
  match block.vtx with
  | _ :: tx :: _ =>
    match tx.vin with
    | txin :: _ => if block.isProofOfStake then newPivStake p v txin nHeight block.nTime else none
    | [] => none
  | _ => none

variable {stake : CPivStake}

theorem newPivStake_ok {txin : CTxIn} {nTime : UInt32} (h : newPivStake p v txin nHeight nTime = some stake) :
    hasStakeMinAgeOrDepth p nHeight nTime stake.heightFrom stake.timeFrom = true := by
  have hat : ∀ {out : CTxOut} {prevout : COutPoint} {heightFrom : Nat},
      pivStakeAt p v nHeight nTime out prevout heightFrom = some stake →
        hasStakeMinAgeOrDepth p nHeight nTime stake.heightFrom stake.timeFrom = true := by
    intro out prevout heightFrom hp
    unfold pivStakeAt at hp
    split at hp
    · cases hp
    · split at hp
      · rename_i hok
        cases hp
        exact hok
      · cases hp
  unfold newPivStake at h
  dsimp only at h
  split at h
  · cases h
  split at h
  · exact hat h
  split at h
  · cases h
  split at h
  · exact hat h
  · cases h

/-- Hash functions that return zeros. -/
def zeroCrypto : Crypto where
  ripemd160 _ := Vector.replicate 20 0
  sha1 _ := Vector.replicate 20 0
  sha256 _ := Vector.replicate 32 0
  ecdsaVerify _ _ _ := false
  checkLowS _ := true
  signatureHash _ _ _ _ _ _ := 0

/-- An output that anybody can stake. -/
def freeOut : CTxOut := ⟨10000, [OP_1]⟩

/-- The coinstake of the output. -/
def freeStakeTx : CTransaction :=
  ⟨2, 1, 0, [⟨⟨7, 0⟩, [], 0⟩], [⟨0, []⟩, freeOut], 0, none, none⟩

def freeStakeBlock : CBlock :=
  ⟨5, 8, 0, 0, 1000, 0x1d00ffff, 0, 0,
    [⟨1, 1, 0, [⟨⟨0, 0xffffffff⟩, [0x51, 0x51], 0⟩], [⟨0, []⟩], 0, none, none⟩, freeStakeTx], [0]⟩

/-- The chain below the height, with the output in the block just below it: among the coins, or only
    in the transaction index. -/
def freeStakeView (nHeight : Nat) (inCoins : Bool) : StakeView where
  accessCoin _ := if inCoins then ⟨false, false, freeOut, nHeight - 1⟩ else coinEmpty
  chainActive h := if h < nHeight then some (h, 0) else none
  getTransaction _ := some (⟨7, 1, 0, [], [freeOut], 0, none, none⟩, 9)
  activeHeight _ := some (nHeight - 1)
  stakeModifier := List.replicate 32 0

/-- Where the age and depth check is not active, the output is staked one block after its own. -/
theorem freeStake_accepted {nHeight : Nat} (hpos : 0 < nHeight) (inCoins : Bool)
    (hinactive : p.networkUpgradeActive (nHeight + 1) .UPGRADE_ZC_PUBLIC = false) :
    newPivStake p (freeStakeView nHeight inCoins) ⟨⟨7, 0⟩, [], 0⟩ nHeight 1000 =
        some ⟨freeOut, ⟨7, 0⟩, nHeight - 1, 0⟩ ∧
      checkProofOfStake p zeroCrypto (freeStakeView nHeight inCoins) nHeight freeStakeBlock = .ok freeOut := by
  have hmin : hasStakeMinAgeOrDepth p nHeight 1000 (nHeight - 1) 0 = true := by
    simp [hasStakeMinAgeOrDepth, hinactive]
  have hat : pivStakeAt p (freeStakeView nHeight inCoins) nHeight 1000 freeOut ⟨7, 0⟩ (nHeight - 1) =
      some ⟨freeOut, ⟨7, 0⟩, nHeight - 1, 0⟩ := by
    have hactive : (freeStakeView nHeight inCoins).chainActive (nHeight - 1) = some (↑(nHeight - 1), 0) :=
      if_pos (by omega)
    rw [pivStakeAt, hactive]
    exact if_pos hmin
  have hstake : newPivStake p (freeStakeView nHeight inCoins) ⟨⟨7, 0⟩, [], 0⟩ nHeight 1000 =
      some ⟨freeOut, ⟨7, 0⟩, nHeight - 1, 0⟩ := by
    cases inCoins with
    | true => exact hat
    | false => exact hat
  refine ⟨hstake, ?_⟩
  have hkernel : checkKernelHash zeroCrypto (List.replicate 32 0) ⟨freeOut, ⟨7, 0⟩, nHeight - 1, 0⟩
      0x1d00ffff 1000 = true := by
    have hzero : ∀ m stake nTime, kernelHash zeroCrypto m stake nTime = 0 := by
      intro m stake nTime
      show Uint256.ofBytes (Vector.replicate 32 0).toList = 0
      decide
    simp only [checkKernelHash, hzero, freeOut, decide_eq_true_eq]
    decide
  have hverify : verifyScript zeroCrypto [] freeOut.scriptPubKey STANDARD_SCRIPT_VERIFY_FLAGS
      (transactionSignatureChecker zeroCrypto freeStakeTx 0 freeOut.nValue)
      freeStakeTx.getRequiredSigVersion = .ok () := by
    decide +kernel
  have hpos : freeStakeBlock.isProofOfStake = true := by decide +kernel
  simp only [checkProofOfStake, freeStakeBlock, freeStakeTx, freeStakeView] at hpos hstake hkernel hverify ⊢
  simp only [hpos, hstake, hkernel, hverify, Bool.not_true, Bool.false_eq_true, if_false]

theorem loadStakeInput_ok {block : CBlock} (h : loadStakeInput p v nHeight block = some stake) :
    hasStakeMinAgeOrDepth p nHeight block.nTime stake.heightFrom stake.timeFrom = true := by
  unfold loadStakeInput at h
  split at h
  · split at h
    · split at h
      · exact newPivStake_ok h
      · cases h
    · cases h
  · cases h

/-- **The minimum depth is enforced exactly where the check is active.** At a height where `V3_4` is active, every
    accepted block stakes an output at least `nStakeMinDepth` blocks below it, for an output found in the coins and for
    one found in the transaction index alike, if and only if `ZC_PUBLIC` is active at the next height. -/
theorem stakeMinDepth_iff {p : Params} {nHeight : Nat} (hpos : 0 < nHeight)
    (hv34 : p.networkUpgradeActive nHeight .UPGRADE_V3_4 = true) (hdepth : 2 ≤ p.nStakeMinDepth) (inCoins : Bool) :
    (∀ (c : Crypto) (v : StakeView) (block : CBlock) (out : CTxOut) (stake : CPivStake),
        checkProofOfStake p c v nHeight block = .ok out →
        loadStakeInput p v nHeight block = some stake →
        (v.accessCoin stake.outpointFrom).isSpent = !inCoins → stake.heightFrom + p.nStakeMinDepth ≤ nHeight) ↔
      p.networkUpgradeActive (nHeight + 1) .UPGRADE_ZC_PUBLIC = true := by
  constructor
  · intro h
    by_contra hinactive
    rw [Bool.not_eq_true] at hinactive
    obtain ⟨hstake, haccepted⟩ := freeStake_accepted hpos inCoins hinactive
    have hload : loadStakeInput p (freeStakeView nHeight inCoins) nHeight freeStakeBlock =
        some ⟨freeOut, ⟨7, 0⟩, nHeight - 1, 0⟩ := hstake
    have hspent : ((freeStakeView nHeight inCoins).accessCoin ⟨7, 0⟩).isSpent = !inCoins := by
      cases inCoins <;> rfl
    have hle := h zeroCrypto _ freeStakeBlock freeOut _ haccepted hload hspent
    dsimp only at hle
    omega
  · intro hactive c v block out stake _ hload _
    have hmin := loadStakeInput_ok hload
    simp only [hasStakeMinAgeOrDepth, hactive, Bool.true_and, Bool.not_not, Params.hasStakeMinAgeOrDepth,
      hv34, Bool.not_true, Bool.false_eq_true, if_false, ge_iff_le, decide_eq_true_eq] at hmin
    omega

/-- With the upgrade scheduled from genesis, a block at height 700 stakes an output of height at most 100. -/
theorem stakeMinDepth_at_700 : mainParams.nStakeMinDepth = 600 ∧
    ∀ (c : Crypto) (v : StakeView) (block : CBlock) (out : CTxOut) (stake : CPivStake),
      checkProofOfStake { mainParams with nActivationHeight := fun _ => 0 } c v 700 block = .ok out →
      loadStakeInput { mainParams with nActivationHeight := fun _ => 0 } v 700 block = some stake →
      (v.accessCoin stake.outpointFrom).isSpent = false → (stake.heightFrom : Int) + 600 ≤ 700 :=
  ⟨rfl, (@stakeMinDepth_iff { mainParams with nActivationHeight := fun _ => 0 } 700 (by decide) (by decide)
    (by decide) true).mpr (by decide)⟩

theorem zcPublic_inactive (nHeight : Nat) : ∀ p ∈ [mainParams, testNetParams, regTestParams],
      p.networkUpgradeActive nHeight .UPGRADE_ZC_PUBLIC = false := by
  simp [mainParams, testNetParams, regTestParams, Params.networkUpgradeActive, activationHeights]

/-- On the main network, whose minimum depth is 600, a block at height 700 that stakes an output of the
    block at 699 is accepted, whether the output is found in the coins or in the transaction index. -/
theorem stakeMinDepth_not_enforced :
    mainParams.networkUpgradeActive 700 .UPGRADE_V3_4 = true ∧ mainParams.nStakeMinDepth = 600 ∧ (∀ inCoins : Bool,
        checkProofOfStake mainParams zeroCrypto (freeStakeView 700 inCoins) 700 freeStakeBlock = .ok freeOut ∧
        loadStakeInput mainParams (freeStakeView 700 inCoins) 700 freeStakeBlock = some ⟨freeOut, ⟨7, 0⟩, 699, 0⟩) := by
  refine ⟨by decide, rfl, fun inCoins => ?_⟩
  have hinactive := zcPublic_inactive 701 mainParams (by simp)
  obtain ⟨hstake, haccepted⟩ := @freeStake_accepted mainParams 700 (by omega) inCoins hinactive
  exact ⟨haccepted, hstake⟩

end KrovaCoin
