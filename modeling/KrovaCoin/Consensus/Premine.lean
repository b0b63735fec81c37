import KrovaCoin.Script.Standard

/-!
# The premine (`consensus/premine.h`, `consensus/premine.cpp`, `consensus/vesting.cpp`)

Block 1 creates the whole supply: five plain outputs and the 36 time-locked tranches of the team allocation. Scripts
given as hexadecimal strings in the source are 25-byte words here.

* `getPremineOutputs`, `checkPremineCoinbase` — what the coinbase of block 1 has to be.

Principal result: `premineOutputs_total`.
-/

namespace KrovaCoin

open Lib

/-! ## Allocations -/

structure PremineAllocation where
  name : String
  amount : Int
  scriptPubKeyHex : BitVec 200
  deriving DecidableEq, Repr

def stakingRewardsPool : PremineAllocation :=
  ⟨"StakingRewardsPool", 25200000000 * COIN, 0x76a914d5799b311c94188c9c4b5271f9735666dba138e188ac⟩

def ecosystemTreasury : PremineAllocation :=
  ⟨"EcosystemTreasury", 14400000000 * COIN, 0x76a9147a5acc292eaee02a8ff3192c3875ccd960e0896388ac⟩

def teamFounders : PremineAllocation :=
  ⟨"TeamFounders", 7200000000 * COIN, 0x76a914a6d1abf6015c6291b3a4d988a8f07401fe6c490388ac⟩

def community : PremineAllocation :=
  ⟨"Community", 10800000000 * COIN, 0x76a914e6f6a25cc877f18211e2c546e6618857b3eab0f188ac⟩

def publicSaleLiquidity : PremineAllocation :=
  ⟨"PublicSaleLiquidity", 10800000000 * COIN, 0x76a914611f57de4233c92f95a4310c57ffef8347b9ba6c88ac⟩

def strategicReserve : PremineAllocation :=
  ⟨"StrategicReserve", 3600000000 * COIN, 0x76a9144fafdae3b2a0bc9fdc2f9c5ccb3f08838084b57e88ac⟩

def vPremineAllocations : List PremineAllocation :=
  [stakingRewardsPool, ecosystemTreasury, teamFounders, community, publicSaleLiquidity, strategicReserve]

def TEST_PREMINE_SCRIPTPUBKEY_HEX : BitVec 200 := 0x76a91492f2bd80a027f45a50c1a0b44b0754e5e976238288ac

/-- `ParseHex` of a 25-byte script. -/
def parseHex (hex : BitVec 200) : CScript :=
  (List.range 25).map fun i => UInt8.ofNat (hex.toNat / 256 ^ (24 - i))

/-- `GetEffectiveScriptPubKeyHex`, parsed. -/
def getEffectiveScriptPubKey (p : Params) (allocation : PremineAllocation) : CScript :=
  parseHex (if p.strNetworkID = .main then allocation.scriptPubKeyHex else TEST_PREMINE_SCRIPTPUBKEY_HEX)

/-- The loop of `GetPremineTotal`. -/
def premineTotalLoop : Int → List PremineAllocation → Checked Int
  | total, [] => .ok total
  | total, a :: rest =>
    match checkedAdd total a.amount with
    | none => .error .assertion
    | some total => premineTotalLoop total rest

def getPremineTotal : Checked Int := do
  let total ← premineTotalLoop 0 vPremineAllocations
  ensure (total == 72000000000 * COIN)
  return total

def getBlockValue (nHeight : Int) : Checked Int := if nHeight = 1 then getPremineTotal else .ok 0

/-! ## Vesting -/

/-- Days since 1970-01-01 of a date of the Gregorian calendar. -/
def daysFromCivil (year month day : Int) : Int :=
  let y := if month ≤ 2 then year - 1 else year
  let era := y / 400
  let yoe := y - era * 400
  let doy := (153 * (if month > 2 then month - 3 else month + 9) + 2) / 5 + day - 1
  let doe := yoe * 365 + yoe / 4 - yoe / 100 + doy
  era * 146097 + doe - 719468

/-- The date, as year, month and day, of a day since 1970-01-01. -/
def civilFromDays (days : Int) : Int × Int × Int :=
  let z := days + 719468
  let era := z / 146097
  let doe := z - era * 146097
  let yoe := (doe - doe / 1460 + doe / 36524 - doe / 146096) / 365
  let doy := doe - (365 * yoe + yoe / 4 - yoe / 100)
  let mp := (5 * doy + 2) / 153
  let month := if mp < 10 then mp + 3 else mp - 9
  (yoe + era * 400 + (if month ≤ 2 then 1 else 0), month, doy - (153 * mp + 2) / 5 + 1)

/-- `AddMonthsUTC`: the month is normalised into years, the day of the month is counted on from the
    first of the month reached. -/
def addMonthsUTC (unixTime months : Int) : Int :=
  let (year, month, day) := civilFromDays (unixTime / 86400)
  let tm_mon := month - 1 + months
  86400 * (daysFromCivil (year + tm_mon / 12) (tm_mon % 12 + 1) 1 + (day - 1)) + unixTime % 86400

def VESTING_CLIFF_MONTHS : Int := 12

def VESTING_TRANCHE_COUNT : Nat := 36

def getCLTVPayToPubKeyHash (nLockTime : Int) (keyID : List UInt8) : CScript :=
  pushInt64 nLockTime ++ [OP_CHECKLOCKTIMEVERIFY, OP_DROP] ++ [OP_DUP, OP_HASH160] ++ pushData keyID ++
    [OP_EQUALVERIFY, OP_CHECKSIG]

/-- `ExtractDestination` where the caller asserts a `CKeyID`. -/
def extractKeyID (scriptPubKey : CScript) : Checked (List UInt8) :=
  match solver scriptPubKey with
  | some (.TX_PUBKEYHASH, [keyID]) => .ok keyID
  | _ => .error .assertion

def getTeamVestingOutputs (p : Params) : Checked (List CTxOut) := do
  ensure (teamFounders.amount % VESTING_TRANCHE_COUNT == 0)
  let trancheAmount := teamFounders.amount / VESTING_TRANCHE_COUNT
  let keyID ← extractKeyID (getEffectiveScriptPubKey p teamFounders)
  return (List.range VESTING_TRANCHE_COUNT).map fun (i : Nat) =>
    ⟨trancheAmount, getCLTVPayToPubKeyHash (addMonthsUTC p.genesisTime (VESTING_CLIFF_MONTHS + i)) keyID⟩

/-! ## The coinbase of block 1 -/

/-- `GetPremineOutputs`: the team allocation is paid by the vesting tranches. -/
def getPremineOutputs (p : Params) : Checked (List CTxOut) := do
  let vesting ← getTeamVestingOutputs p
  return ((vPremineAllocations.filter (·.name != teamFounders.name)).map fun a =>
    ⟨a.amount, getEffectiveScriptPubKey p a⟩) ++ vesting

def checkPremineCoinbase (p : Params) (coinbaseTx : CTransaction) : Checked Bool := do
  let expected ← getPremineOutputs p
  return coinbaseTx.vout == expected

/-- `unlockTime` of `GetTeamVestingOutputs`, for the tranche `i`. -/
def unlockTime (p : Params) (i : Nat) : Int := addMonthsUTC p.genesisTime (VESTING_CLIFF_MONTHS + i)

theorem getTeamVestingOutputs_ok (p : Params) : ∃ keyID, getTeamVestingOutputs p =
    .ok ((List.range 36).map fun i => ⟨20000000000000000, getCLTVPayToPubKeyHash (unlockTime p i) keyID⟩) := by
  obtain ⟨keyID, hkey⟩ : ∃ keyID, extractKeyID (getEffectiveScriptPubKey p teamFounders) = .ok keyID := by
    unfold getEffectiveScriptPubKey
    split
    · exact ⟨_, rfl⟩
    · exact ⟨_, rfl⟩
  refine ⟨keyID, ?_⟩
  unfold getTeamVestingOutputs
  rw [hkey]
  rfl

/-- **The outputs of block 1 add up to the premine.** -/
theorem premineOutputs_total {p : Params} {outs : List CTxOut} (h : getPremineOutputs p = .ok outs) :
    (outs.map CTxOut.nValue).sum = 72000000000 * COIN := by
  obtain ⟨keyID, hvest⟩ := getTeamVestingOutputs_ok p
  unfold getPremineOutputs at h
  rw [hvest] at h
  cases h
  rfl

end KrovaCoin
