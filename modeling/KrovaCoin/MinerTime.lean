import KrovaCoin.Retarget
import KrovaCoin.Validation.AcceptBlock

/-!
# The time of a new block (`blockassembler.cpp`: `UpdateTime`)

A new block gets the next time slot after the median time of the last blocks and the adjusted time. `CheckBlockTime`
asks for a time after that of the parent, which may be up to one slot ahead of the adjusted time.

Principal result: `updateTime_acceptable`.
-/

namespace KrovaCoin

open Lib

/-- `nNewTime` of `UpdateTime`, for a block after `chain` at an adjusted time. -/
def newBlockTime (p : Params) (chain : List CBlock) (adjustedTime : Int) : Int :=
  let nNewTime := max (getMedianTimePast chain + 1) adjustedTime
  if p.isTimeProtocolV2 chain.length then
    (toInt64 (nNewTime + p.nTimeSlotLength - 1)).tdiv p.nTimeSlotLength * p.nTimeSlotLength
  else nNewTime

/-- `UpdateTime`: the new time of the block, which is converted to 32 bits. -/
def updateTime (p : Params) (nTime : UInt32) (chain : List CBlock) (adjustedTime : Int) : UInt32 :=
  let nNewTime := newBlockTime p chain adjustedTime
  if (nTime.toNat : Int) < nNewTime then UInt32.ofNat (nNewTime % 0x100000000).toNat else nTime

/-! ## The networks with Time Protocol V2 -/

/-- The parameters of the main and the test network that matter here. -/
structure TimeV2 (p : Params) : Prop where
  network : p.strNetworkID ≠ .regtest
  slot : p.nTimeSlotLength = 15
  activation : p.nActivationHeight .UPGRADE_V4_0 = 0

theorem mainParams_timeV2Params : TimeV2 mainParams := ⟨by decide, rfl, rfl⟩

theorem testNetParams_timeV2Params : TimeV2 testNetParams := ⟨by decide, rfl, rfl⟩

def tipTime (chain : List CBlock) : Int := chain.head?.elim 0 CBlock.getBlockTime

/-- The start of a time slot, and of the next one. -/
def slotStart (nTime : Int) : Int := nTime / 15 * 15

def slotEnd (nTime : Int) : Int := (nTime + 14) / 15 * 15

theorem slotEnd_mod (nTime : Int) : slotEnd nTime % 15 = 0 := Int.mul_emod_left _ _

theorem lt_slotEnd_iff {t nTime : Int} : t < slotEnd nTime ↔ slotStart t < nTime := by
  unfold slotStart slotEnd
  omega

theorem slotEnd_fits {nTime : Int} (h : nTime < 0x100000000) : slotEnd nTime < 0x100000000 := by
  unfold slotEnd
  omega

theorem slotEnd_wrapped {nTime : Int} (hlow : 0x100000000 ≤ nTime) (hhigh : nTime < 15 * 0x100000000)
    (hpos : 0 < slotEnd nTime % 0x100000000) : slotEnd nTime % 0x100000000 % 15 ≠ 0 := by
  have hslot := slotEnd_mod nTime
  have hle : slotEnd nTime ≤ 15 * 0x100000000 ∧ 0x100000000 ≤ slotEnd nTime := by
    unfold slotEnd
    omega
  omega

section TimeV2

variable {p : Params} {chain : List CBlock}

theorem TimeV2.active (hp : TimeV2 p) (n : Nat) : p.isTimeProtocolV2 n = true := by
  simp only [Params.isTimeProtocolV2, Params.networkUpgradeActive, hp.activation]
  rw [if_neg (by omega), if_neg (by decide)]
  simp

theorem TimeV2.minPastBlockTime (hp : TimeV2 p) (hchain : chain ≠ []) :
    KrovaCoin.minPastBlockTime p chain = tipTime chain := by
  have hlength := List.length_pos_iff.mpr hchain
  have hheight : (chain.length : Int) - 1 + 1 = chain.length := by omega
  unfold KrovaCoin.minPastBlockTime
  simp only [hheight, hp.active, hp.activation, Bool.not_true, Bool.false_eq_true, if_false]
  rw [if_neg (by omega)]
  rfl

/-- `CheckBlockTime`: not more than 14 seconds ahead, after the parent, at the start of a slot. -/
theorem checkBlockTime_v2 {env : Env} (hp : TimeV2 env.params) {node : NodeState} {block : CBlock}
    (hchain : chain ≠ []) :
    checkBlockTime env node block chain = .ok () ↔
      block.getBlockTime ≤ node.getAdjustedTime + 14 ∧ tipTime chain < block.getBlockTime ∧
        block.getBlockTime % 15 = 0 := by
  have hdrift : env.params.futureBlockTimeDrift chain.length = 14 := by
    rw [Params.futureBlockTimeDrift, if_pos (hp.active _), hp.slot]
    rfl
  have hmask : env.params.isValidBlockTimeStamp block.getBlockTime chain.length =
      decide (block.getBlockTime % 15 = 0) := by
    rw [Params.isValidBlockTimeStamp, if_pos (hp.active _), hp.slot]
  simp only [checkBlockTime, if_neg hp.network, bind_eq_ok, rejectIf_eq_ok, exists_and_left, exists_const, hdrift, hmask,
    hp.minPastBlockTime hchain, decide_eq_false_iff_not, Bool.not_eq_false', decide_eq_true_eq, not_lt, not_le,
    gt_iff_lt]

theorem getMedianTimePast_range (chain : List CBlock) :
    0 ≤ getMedianTimePast chain ∧ getMedianTimePast chain < 0x100000000 := by
  have htime : ∀ t ∈ ((chain.take 11).map CBlock.getBlockTime).mergeSort, 0 ≤ t ∧ t < 0x100000000 := by
    intro t ht
    rw [List.mem_mergeSort, List.mem_map] at ht
    obtain ⟨block, -, rfl⟩ := ht
    have := block.nTime.toNat_lt
    unfold CBlock.getBlockTime
    omega
  unfold getMedianTimePast
  rw [List.getD_eq_getElem?_getD]
  cases hget : ((chain.take 11).map CBlock.getBlockTime).mergeSort[
      ((chain.take 11).map CBlock.getBlockTime).mergeSort.length / 2]? with
  | none => exact ⟨le_rfl, by decide⟩
  | some t => exact htime t (List.mem_of_getElem? hget)

theorem TimeV2.newBlockTime (hp : TimeV2 p) {adjustedTime : Int} (hsmall : adjustedTime < 9223372036854775000) :
    KrovaCoin.newBlockTime p chain adjustedTime = slotEnd (max (getMedianTimePast chain + 1) adjustedTime) := by
  have hmedian := getMedianTimePast_range chain
  have hrange : toInt64 (max (getMedianTimePast chain + 1) adjustedTime + 15 - 1) =
      max (getMedianTimePast chain + 1) adjustedTime + 14 := by
    rw [toInt64_of_inInt64]
    · omega
    · unfold InInt64
      omega
  unfold KrovaCoin.newBlockTime
  simp only [hp.active, if_true, hp.slot, hrange]
  rw [Int.tdiv_eq_ediv_of_nonneg (by omega)]
  rfl

theorem TimeV2.updateTime (hp : TimeV2 p) {adjustedTime : Int} (hsmall : adjustedTime < 9223372036854775000) :
    ((KrovaCoin.updateTime p 0 chain adjustedTime).toNat : Int) =
      slotEnd (max (getMedianTimePast chain + 1) adjustedTime) % 0x100000000 := by
  have hpos : ((0 : UInt32).toNat : Int) < slotEnd (max (getMedianTimePast chain + 1) adjustedTime) := by
    rw [lt_slotEnd_iff]
    exact lt_max_of_lt_left (Int.lt_add_one_of_le (getMedianTimePast_range chain).1)
  unfold KrovaCoin.updateTime
  rw [hp.newBlockTime hsmall]
  rw [if_pos hpos, UInt32.toNat_ofNat']
  omega

end TimeV2

/-- The adjusted time, or the median time, has left the time slot before that of the parent, and neither exceeds 32 bits. -/
def TimeAdvanced (chain : List CBlock) (adjustedTime : Int) : Prop :=
  (slotStart (tipTime chain) < adjustedTime ∨ slotStart (tipTime chain) ≤ getMedianTimePast chain) ∧
    adjustedTime < 0x100000000 ∧ getMedianTimePast chain + 1 < 0x100000000

/-- **The time of a new block is acceptable** on its parent after the wait, if and (in the next 2000 years) only if the
    adjusted time or the median time is late enough. -/
theorem updateTime_acceptable {env : Env} (hnetwork : env.params = mainParams ∨ env.params = testNetParams)
    {chain : List CBlock} (hchain : chain ≠ []) {adjustedTime : Int} {node : NodeState} {block : CBlock}
    (hwait : newBlockTime env.params chain adjustedTime ≤ node.getAdjustedTime)
    (hblock : block.nTime = updateTime env.params 0 chain adjustedTime) :
    (TimeAdvanced chain adjustedTime → checkBlockTime env node block chain = .ok ()) ∧
      (adjustedTime < 15 * 0x100000000 → checkBlockTime env node block chain = .ok () →
        TimeAdvanced chain adjustedTime) := by
  have hp : TimeV2 env.params := by
    rcases hnetwork with h | h
    · rw [h]; exact mainParams_timeV2Params
    · rw [h]; exact testNetParams_timeV2Params
  have hmedian := getMedianTimePast_range chain
  have htip : 0 ≤ tipTime chain := by
    unfold tipTime
    cases chain.head? with
    | none => exact le_rfl
    | some last => exact Int.natCast_nonneg _
  have hadvanced : TimeAdvanced chain adjustedTime ↔
      slotStart (tipTime chain) < max (getMedianTimePast chain + 1) adjustedTime ∧
        max (getMedianTimePast chain + 1) adjustedTime < 0x100000000 := by
    rw [TimeAdvanced, lt_max_iff, max_lt_iff, Int.lt_add_one_iff, or_comm, and_comm (a := adjustedTime < _)]
  rw [checkBlockTime_v2 hp hchain, CBlock.getBlockTime, hblock, hadvanced]
  have hmax : adjustedTime < 15 * 0x100000000 →
      max (getMedianTimePast chain + 1) adjustedTime < 15 * 0x100000000 := fun h => max_lt (by omega) h
  have hsmall : adjustedTime < 15 * 0x100000000 → adjustedTime < 9223372036854775000 := by omega
  constructor
  · rintro ⟨hlate, hfits⟩
    have hyears : adjustedTime < 9223372036854775000 := by omega
    rw [hp.newBlockTime hyears] at hwait
    have hpos : 0 ≤ slotEnd (max (getMedianTimePast chain + 1) adjustedTime) :=
      htip.trans (lt_slotEnd_iff.mpr hlate).le
    rw [hp.updateTime hyears, Int.emod_eq_of_lt hpos (slotEnd_fits hfits)]
    exact ⟨hwait.trans (by omega), lt_slotEnd_iff.mpr hlate, slotEnd_mod _⟩
  · rintro hyears ⟨-, hafter, hslot⟩
    rw [hp.updateTime (hsmall hyears)] at hafter hslot
    -- beyond 32 bits the time that is left is not the start of a slot
    have hfits : max (getMedianTimePast chain + 1) adjustedTime < 0x100000000 := by
      by_contra hlarge
      exact slotEnd_wrapped (not_lt.mp hlarge) (hmax hyears) (lt_of_le_of_lt htip hafter) hslot
    have hpos : 0 ≤ slotEnd (max (getMedianTimePast chain + 1) adjustedTime) := by
      unfold slotEnd
      omega
    rw [Int.emod_eq_of_lt hpos (slotEnd_fits hfits)] at hafter
    exact ⟨lt_slotEnd_iff.mp hafter, hfits⟩

theorem getMedianTimePast_steady : getMedianTimePast (steadyChain 5) = 1785931380 := by
  unfold getMedianTimePast
  rw [List.mergeSort_eq_insertionSort]
  decide

theorem newBlockTime_steady {adjustedTime : Int} (h : adjustedTime < 0x100000000) :
    newBlockTime mainParams (steadyChain 5) adjustedTime = slotEnd (max 1785931381 adjustedTime) := by
  rw [mainParams_timeV2Params.newBlockTime (by omega), getMedianTimePast_steady]
  rfl

def timedNode (adjustedTime : Int) : NodeState := { sampleNode with getAdjustedTime := adjustedTime }

def timedBlock (nTime : UInt32) : CBlock := { steadyBlock 6 with nTime := nTime }

theorem updateTime_acceptable_after : checkBlockTime sampleEnv (timedNode 1785931515)
      (timedBlock (updateTime mainParams 0 (steadyChain 5) 1785931510)) (steadyChain 5) = .ok () := by
  refine (@updateTime_acceptable sampleEnv (.inl rfl) (steadyChain 5) (by decide) 1785931510 _ _ ?_ rfl).1 ?_
  · change newBlockTime mainParams (steadyChain 5) 1785931510 ≤ 1785931515
    rw [newBlockTime_steady (by decide)]
    decide
  · refine ⟨.inl (by decide), by decide, ?_⟩
    rw [getMedianTimePast_steady]
    decide

/-- Ten seconds before the time of the last block, which a node accepts: the new block gets the same time, also after the
    wait for it. -/
theorem updateTime_too_old :
    newBlockTime mainParams (steadyChain 5) 1785931490 = 1785931500 ∧ tipTime (steadyChain 5) = 1785931500 ∧
      checkBlockTime sampleEnv (timedNode 1785931500)
        (timedBlock (updateTime mainParams 0 (steadyChain 5) 1785931490)) (steadyChain 5) =
          .error (dos 50 REJECT_INVALID "time-too-old") := by
  have hnew : newBlockTime mainParams (steadyChain 5) 1785931490 = 1785931500 := by
    rw [newBlockTime_steady (by decide)]
    decide
  have htime : updateTime mainParams 0 (steadyChain 5) 1785931490 = 1785931500 := by
    unfold updateTime
    rw [hnew]
    decide
  refine ⟨hnew, by decide, ?_⟩
  rw [htime]
  decide +kernel

end KrovaCoin
