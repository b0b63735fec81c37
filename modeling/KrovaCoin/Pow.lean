import KrovaCoin.Primitives

/-!
# Compact targets and proof of work (`arith_uint256.cpp`, `pow.cpp`)

* `checkProofOfWork` — `CheckProofOfWork`.
* `getNextWorkRequired` — `GetNextWorkRequired`: the target of the next block of a chain, which is given by its
  blocks from the tip down to the genesis block.
-/

namespace KrovaCoin

/-- `arith_uint256::SetCompact`: the number, and the flags for a negative and an overflowing encoding. -/
def setCompact (nCompact : UInt32) : Uint256 × Bool × Bool :=
  let nSize := nCompact.toNat / 0x1000000
  let nWord := nCompact.toNat % 0x800000
  let shifted := if nSize ≤ 3 then nWord / 256 ^ (3 - nSize) else nWord
  (if nSize ≤ 3 then BitVec.ofNat 256 shifted else BitVec.ofNat 256 nWord <<< (8 * (nSize - 3)),
    decide (shifted ≠ 0 ∧ nCompact &&& 0x00800000 ≠ 0),
    decide (shifted ≠ 0 ∧ (nSize > 34 ∨ shifted > 0xff ∧ nSize > 33 ∨ shifted > 0xffff ∧ nSize > 32)))

def checkProofOfWork (p : Params) (hash : Uint256) (nBits : UInt32) : Bool :=
  let (bnTarget, fNegative, fOverflow) := setCompact nBits
  if fNegative || bnTarget == 0 || fOverflow || decide (bnTarget > p.powLimit) then false
  else !decide (hash > bnTarget)

def bits (x : Uint256) : Nat := if x = 0 then 0 else x.toNat.log2 + 1

/-- `arith_uint256::GetCompact()`; the two assertions of the source hold for every number of 256 bits. -/
def getCompact (x : Uint256) : UInt32 :=
  let nSize := (bits x + 7) / 8
  let nCompact := if nSize ≤ 3 then x.toNat * 256 ^ (3 - nSize) else x.toNat / 256 ^ (nSize - 3)
  if nCompact / 0x800000 % 2 = 1 then UInt32.ofNat (nCompact / 256 + (nSize + 1) * 0x1000000)
  else UInt32.ofNat (nCompact + nSize * 0x1000000)

/-! ## The target of the next block -/

/-- The part of `Consensus::Params` that retargeting reads; `badBlock` is `nKrovacoinBadBlockTime` and
    `nKrovacoinBadBlockBits`, which only the main network sets. -/
structure PowParams where
  fPowNoRetargeting : Bool
  posLimitV1 : Uint256
  posLimitV2 : Uint256
  nTargetTimespan : Int
  nTargetTimespanV2 : Int
  nTargetSpacing : Int
  badBlock : Option (UInt32 × UInt32)

/-- The values of the three networks. -/
def powParams (network : NetworkID) : PowParams where
  fPowNoRetargeting := network == .regtest
  posLimitV1 := 0x000000ffffffffffffffffffffffffffffffffffffffffffffffffffffffffff
  posLimitV2 := 0x00000fffffffffffffffffffffffffffffffffffffffffffffffffffffffffff
  nTargetTimespan := 40 * 60
  nTargetTimespanV2 := 30 * 60
  nTargetSpacing := 60
  badBlock := if network = .main then some (1471401614, 0x1c056dac) else none

/-- `bn *= x`: the factor is converted to 32 bits. -/
def mulInt (bn : Uint256) (x : Int) : Uint256 := bn * BitVec.ofNat 256 (x % 0x100000000).toNat

/-- `bn /= x`: the divisor is converted to 64 bits, and is positive wherever this is used. -/
def divInt (bn : Uint256) (x : Int) : Uint256 := bn / BitVec.ofNat 256 (x % 0x10000000000000000).toNat

/-- The proof-of-stake branch: the target moves towards the spacing of the last two blocks. -/
def nextStakeTarget (p : Params) (last : CBlock) (pprev : CBlock) (nHeight : Int) : Uint256 :=
  let pow := powParams p.strNetworkID
  let fTimeV2 := p.strNetworkID != .regtest && p.isTimeProtocolV2 (nHeight + 1)
  let bnTargetLimit := if fTimeV2 then pow.posLimitV2 else pow.posLimitV1
  let nTargetTimespan := if fTimeV2 then pow.nTargetTimespanV2 else pow.nTargetTimespan
  let spacing := last.getBlockTime - pprev.getBlockTime
  let spacing := if spacing < 0 then 1 else spacing
  let nActualSpacing := if fTimeV2 && decide (spacing > pow.nTargetSpacing * 10) then pow.nTargetSpacing * 10 else spacing
  let bnLast := (setCompact last.nBits).1
  let bnLast := if fTimeV2 && !p.isTimeProtocolV2 nHeight then bnLast <<< 4 else bnLast
  let nInterval := nTargetTimespan / pow.nTargetSpacing
  let bnNew := divInt (mulInt bnLast ((nInterval - 1) * pow.nTargetSpacing + nActualSpacing + nActualSpacing))
    ((nInterval + 1) * pow.nTargetSpacing)
  if bnNew = 0 ∨ bnNew > bnTargetLimit then bnTargetLimit else bnNew

/-- The state of the loop over the last blocks. -/
structure DarkGravity where
  countBlocks : Nat
  pastDifficultyAverage : Uint256
  nActualTimespan : Int
  lastBlockTime : Int

/-- One iteration of the loop. -/
def darkGravityStep (s : DarkGravity) (block : CBlock) : DarkGravity where
  countBlocks := s.countBlocks + 1
  pastDifficultyAverage :=
    let target := (setCompact block.nBits).1
    if s.countBlocks = 0 then target
    else divInt (mulInt s.pastDifficultyAverage (s.countBlocks + 1) + target) (s.countBlocks + 2)
  nActualTimespan :=
    if s.lastBlockTime > 0 then s.nActualTimespan + (s.lastBlockTime - block.getBlockTime) else s.nActualTimespan
  lastBlockTime := block.getBlockTime

/-- The proof-of-work branch: the average of the last 24 targets, scaled by the time they took. -/
def nextWorkTarget (p : Params) (chain : List CBlock) : Uint256 :=
  -- the loop stops before the genesis block, which is the last of the list
  let s := (chain.dropLast.take 24).foldl darkGravityStep ⟨0, 0, 0, 0⟩
  let nTargetTimespan := s.countBlocks * (powParams p.strNetworkID).nTargetSpacing
  let timespan := if s.nActualTimespan < nTargetTimespan / 3 then nTargetTimespan / 3 else s.nActualTimespan
  let timespan := if timespan > nTargetTimespan * 3 then nTargetTimespan * 3 else timespan
  let bnNew := divInt (mulInt s.pastDifficultyAverage timespan) nTargetTimespan
  if bnNew > p.powLimit then p.powLimit else bnNew

def getNextWorkRequired (p : Params) (chain : List CBlock) : UInt32 :=
  match chain with
  | last :: pprev :: older =>
    if (powParams p.strNetworkID).fPowNoRetargeting then last.nBits
    else if chain.length - 1 < 24 then getCompact p.powLimit
    else if p.networkUpgradeActive chain.length .UPGRADE_POS then
      getCompact (nextStakeTarget p last pprev (older.length + 1))
    else getCompact (nextWorkTarget p chain)
  | [genesis] => if (powParams p.strNetworkID).fPowNoRetargeting then genesis.nBits else getCompact p.powLimit
  | [] => getCompact p.powLimit

end KrovaCoin
