import KrovaCoin.Amount

/-!
# Consensus parameters (`consensus/params.h`, `consensus/upgrades.cpp`, `chainparams.cpp`)

The part of `Consensus::Params` that the modelled functions read, with the values the three networks give it.
Hash-valued parameters are 256-bit words.
-/

namespace KrovaCoin

/-- `uint256`: an opaque 256-bit word. -/
abbrev Uint256 := BitVec 256

instance : LawfulBEq Uint256 := inferInstance

/-- `UINT256_ZERO` / `IsNull()`. -/
def UINT256_ZERO : Uint256 := 0

inductive UpgradeIndex where
  | BASE_NETWORK
  | UPGRADE_POS
  | UPGRADE_POS_V2
  | UPGRADE_ZC
  | UPGRADE_ZC_V2
  | UPGRADE_BIP65
  | UPGRADE_ZC_PUBLIC
  | UPGRADE_V3_4
  | UPGRADE_V4_0
  | UPGRADE_V5_0
  | UPGRADE_V5_2
  | UPGRADE_V5_3
  | UPGRADE_V5_5
  | UPGRADE_V5_6
  | UPGRADE_V6_0
  | UPGRADE_TESTDUMMY
  deriving DecidableEq, Repr

/-- `NetworkUpgrade::ALWAYS_ACTIVE` and `NetworkUpgrade::NO_ACTIVATION_HEIGHT`. -/
def ALWAYS_ACTIVE : Int := 0

def NO_ACTIVATION_HEIGHT : Int := -1

/-- `strNetworkID`. -/
inductive NetworkID where
  | main
  | test
  | regtest
  deriving DecidableEq, Repr

/-- `Consensus::Params`, together with the network identifier and the genesis time that
    `CChainParams` keeps beside it. -/
structure Params where
  strNetworkID : NetworkID
  genesisTime : Int
  hashGenesisBlock : Uint256
  powLimit : Uint256
  nBudgetCycleBlocks : Int
  nCoinbaseMaturity : Int
  nFutureTimeDriftPoW : Int
  nFutureTimeDriftPoS : Int
  nMaxMoneyOut : Int
  nStakeMinAge : Int
  nStakeMinDepth : Int
  nTimeSlotLength : Int
  height_last_invalid_UTXO : Int
  /-- `vUpgrades[idx].nActivationHeight` -/
  nActivationHeight : UpgradeIndex → Int

namespace Params

def moneyRange (p : Params) (nValue : Int) : Bool :=
  decide (nValue ≥ 0 ∧ nValue ≤ p.nMaxMoneyOut)

/-- `Params::NetworkUpgradeActive` (a negative height is an error and answers `false`). -/
def networkUpgradeActive (p : Params) (nHeight : Int) (idx : UpgradeIndex) : Bool :=
  if nHeight < 0 then false
  else if p.nActivationHeight idx = NO_ACTIVATION_HEIGHT then false
  else decide (nHeight ≥ p.nActivationHeight idx)

def isTimeProtocolV2 (p : Params) (nHeight : Int) : Bool :=
  p.networkUpgradeActive nHeight .UPGRADE_V4_0

def futureBlockTimeDrift (p : Params) (nHeight : Int) : Int :=
  if p.isTimeProtocolV2 nHeight then p.nTimeSlotLength - 1
  else if p.networkUpgradeActive nHeight .UPGRADE_POS then p.nFutureTimeDriftPoS
  else p.nFutureTimeDriftPoW

def isValidBlockTimeStamp (p : Params) (nTime nHeight : Int) : Bool :=
  if p.isTimeProtocolV2 nHeight then decide (nTime % p.nTimeSlotLength = 0) else true

theorem moneyRange_iff (p : Params) (v : Int) : p.moneyRange v = true ↔ 0 ≤ v ∧ v ≤ p.nMaxMoneyOut := by
  simp [moneyRange]

end Params

/-- Activation heights shared by the networks; `pos` is the height at which proof of stake starts. -/
def activationHeights (pos : Int) : UpgradeIndex → Int
  | .BASE_NETWORK => ALWAYS_ACTIVE
  | .UPGRADE_TESTDUMMY => NO_ACTIVATION_HEIGHT
  | .UPGRADE_POS => pos
  | .UPGRADE_POS_V2 => pos
  | .UPGRADE_ZC => NO_ACTIVATION_HEIGHT
  | .UPGRADE_ZC_V2 => NO_ACTIVATION_HEIGHT
  | .UPGRADE_BIP65 => ALWAYS_ACTIVE
  | .UPGRADE_ZC_PUBLIC => NO_ACTIVATION_HEIGHT
  | .UPGRADE_V3_4 => pos
  | .UPGRADE_V4_0 => ALWAYS_ACTIVE
  | .UPGRADE_V5_0 => ALWAYS_ACTIVE
  | .UPGRADE_V5_2 => ALWAYS_ACTIVE
  | .UPGRADE_V5_3 => ALWAYS_ACTIVE
  | .UPGRADE_V5_5 => ALWAYS_ACTIVE
  | .UPGRADE_V5_6 => ALWAYS_ACTIVE
  | .UPGRADE_V6_0 => NO_ACTIVATION_HEIGHT

def mainParams : Params where
  strNetworkID := .main
  genesisTime := 1785931200
  hashGenesisBlock := 0x000001c2f0bad388f63e3b81b05dce775b458cb99841abd82e91bba56ac261b4
  powLimit := 0x00000fffffffffffffffffffffffffffffffffffffffffffffffffffffffffff
  nBudgetCycleBlocks := 1440
  nCoinbaseMaturity := 100
  nFutureTimeDriftPoW := 7200
  nFutureTimeDriftPoS := 180
  nMaxMoneyOut := 72000000000 * COIN
  nStakeMinAge := 60 * 60
  nStakeMinDepth := 600
  nTimeSlotLength := 15
  height_last_invalid_UTXO := 894538
  nActivationHeight := activationHeights 601

def testNetParams : Params where
  strNetworkID := .test
  genesisTime := 1786170027
  hashGenesisBlock := 0x00000ef56932bb65700cb706c8eef59a39c3f279cc6062cdf7fc4a3b0d533f38
  powLimit := 0x00000fffffffffffffffffffffffffffffffffffffffffffffffffffffffffff
  nBudgetCycleBlocks := 50
  nCoinbaseMaturity := 15
  nFutureTimeDriftPoW := 7200
  nFutureTimeDriftPoS := 180
  nMaxMoneyOut := 72000000000 * COIN
  nStakeMinAge := 60 * 60
  nStakeMinDepth := 100
  nTimeSlotLength := 15
  height_last_invalid_UTXO := -1
  nActivationHeight := activationHeights 101

def regTestParams : Params where
  strNetworkID := .regtest
  genesisTime := 1785920000
  hashGenesisBlock := 0x266d0526e0cf1f45c2783092808755f26cabb7bca1aa90835810cb8cd4cf585c
  powLimit := 0x7fffffffffffffffffffffffffffffffffffffffffffffffffffffffffffffff
  nBudgetCycleBlocks := 10
  nCoinbaseMaturity := 2
  nFutureTimeDriftPoW := 7200
  nFutureTimeDriftPoS := 180
  nMaxMoneyOut := 72000000000 * COIN
  nStakeMinAge := 0
  nStakeMinDepth := 3
  nTimeSlotLength := 15
  height_last_invalid_UTXO := -1
  nActivationHeight := activationHeights 4

theorem mainParams_nMaxMoneyOut : mainParams.nMaxMoneyOut = 7200000000000000000 := rfl

end KrovaCoin
