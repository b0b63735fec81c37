import KrovaCoin.CompactTarget

/-!
# The range of the targets (`pow.cpp`, `arith_uint256.cpp`)

Targets are numbers of 256 bits, and the compact form keeps the upper 15 to 23 bits of one.

Principal result: `getNextWorkRequired_in_range`.
-/

namespace KrovaCoin

/-! ## The products -/

/-- The factor is a number of 32 bits, and the product one of 256 bits. -/
structure MulExact (bn : Uint256) (x : Int) : Prop where
  factor : 0 ≤ x ∧ x < 0x100000000
  product : bn.toNat * x.toNat < 2 ^ 256

theorem MulExact.toNat_mulInt {bn : Uint256} {x : Int} (h : MulExact bn x) :
    (mulInt bn x).toNat = bn.toNat * x.toNat := by
  have hfactor : x % 0x100000000 = x := Int.emod_eq_of_lt h.factor.1 h.factor.2
  have hx : x.toNat % 2 ^ 256 = x.toNat := Nat.mod_eq_of_lt (by have := h.factor; omega)
  rw [mulInt, hfactor, BitVec.toNat_mul, BitVec.toNat_ofNat, hx]
  exact Nat.mod_eq_of_lt h.product

theorem toNat_divInt {bn : Uint256} {x : Int} (hx : 0 ≤ x ∧ x < 0x10000000000000000) :
    (divInt bn x).toNat = bn.toNat / x.toNat := by
  have hdivisor : x % 0x10000000000000000 = x := Int.emod_eq_of_lt hx.1 hx.2
  have hmod : x.toNat % 2 ^ 256 = x.toNat := Nat.mod_eq_of_lt (by omega)
  rw [divInt, hdivisor, BitVec.toNat_udiv, BitVec.toNat_ofNat, hmod]

/-- The target of the last block in the proof-of-stake branch. -/
def stakeBase (p : Params) (last : CBlock) (nHeight : Int) : Uint256 :=
  if (p.strNetworkID != .regtest && p.isTimeProtocolV2 (nHeight + 1)) && !p.isTimeProtocolV2 nHeight then
    (setCompact last.nBits).1 <<< 4
  else (setCompact last.nBits).1

/-- `nActualSpacing` of the proof-of-stake branch. -/
def stakeSpacing (p : Params) (last pprev : CBlock) (nHeight : Int) : Int :=
  let pow := powParams p.strNetworkID
  let fTimeV2 := p.strNetworkID != .regtest && p.isTimeProtocolV2 (nHeight + 1)
  let spacing := last.getBlockTime - pprev.getBlockTime
  let spacing := if spacing < 0 then 1 else spacing
  if fTimeV2 && decide (spacing > pow.nTargetSpacing * 10) then pow.nTargetSpacing * 10 else spacing

def stakeFactor (p : Params) (last pprev : CBlock) (nHeight : Int) : Int :=
  let pow := powParams p.strNetworkID
  let fTimeV2 := p.strNetworkID != .regtest && p.isTimeProtocolV2 (nHeight + 1)
  let nInterval := (if fTimeV2 then pow.nTargetTimespanV2 else pow.nTargetTimespan) / pow.nTargetSpacing
  (nInterval - 1) * pow.nTargetSpacing + stakeSpacing p last pprev nHeight + stakeSpacing p last pprev nHeight

/-- The loop over the last blocks. -/
def darkGravity (chain : List CBlock) : DarkGravity := (chain.dropLast.take 24).foldl darkGravityStep ⟨0, 0, 0, 0⟩

/-- The clamped `nActualTimespan` of the proof-of-work branch. -/
def workTimespan (p : Params) (s : DarkGravity) : Int :=
  let nTargetTimespan := s.countBlocks * (powParams p.strNetworkID).nTargetSpacing
  let timespan := if s.nActualTimespan < nTargetTimespan / 3 then nTargetTimespan / 3 else s.nActualTimespan
  if timespan > nTargetTimespan * 3 then nTargetTimespan * 3 else timespan

def averageProducts : List CBlock → DarkGravity → List (Uint256 × Int)
  | [], _ => []
  | block :: blocks, s =>
    (if s.countBlocks = 0 then [] else [(s.pastDifficultyAverage, (s.countBlocks : Int) + 1)]) ++
      averageProducts blocks (darkGravityStep s block)

/-- The products that `GetNextWorkRequired` computes: a number of 256 bits and a factor each. -/
def retargetProducts (p : Params) (chain : List CBlock) : List (Uint256 × Int) :=
  match chain with
  | last :: pprev :: older =>
    if (powParams p.strNetworkID).fPowNoRetargeting then []
    else if chain.length - 1 < 24 then []
    else if p.networkUpgradeActive chain.length .UPGRADE_POS then
      [(stakeBase p last (older.length + 1), stakeFactor p last pprev (older.length + 1))]
    else
      averageProducts (chain.dropLast.take 24) ⟨0, 0, 0, 0⟩ ++
        [((darkGravity chain).pastDifficultyAverage, workTimespan p (darkGravity chain))]
  | _ => []

/-- The blocks whose targets `GetNextWorkRequired` reads. -/
def blocksRead (p : Params) (chain : List CBlock) : List CBlock :=
  match chain with
  | last :: _ :: _ =>
    if chain.length - 1 < 24 then []
    else if p.networkUpgradeActive chain.length .UPGRADE_POS then [last] else chain.dropLast.take 24
  | _ => []

/-! ## The average of the targets -/

def CBlock.target (block : CBlock) : Nat := (setCompact block.nBits).1.toNat

/-- After `countBlocks` blocks: the average lies between bounds of the targets. -/
structure Average (lo hi : Nat) (s : DarkGravity) : Prop where
  count : s.countBlocks ≤ 24
  low : 0 < s.countBlocks → lo ≤ s.pastDifficultyAverage.toNat
  high : s.pastDifficultyAverage.toNat ≤ hi

section Average

variable {lo hi : Nat} {s : DarkGravity}

theorem Average.mulExact (hs : Average lo hi s) (hhi : hi * 26 < 2 ^ 256) :
    MulExact s.pastDifficultyAverage ((s.countBlocks : Int) + 1) := by
  obtain ⟨hcount, -, hhigh⟩ := hs
  refine ⟨by omega, ?_⟩
  calc s.pastDifficultyAverage.toNat * ((s.countBlocks : Int) + 1).toNat ≤ hi * 26 :=
        Nat.mul_le_mul hhigh (by omega)
    _ < 2 ^ 256 := hhi

theorem Average.step (hs : Average lo hi s) (hhi : hi * 26 < 2 ^ 256) (hcount : s.countBlocks < 24) {block : CBlock}
    (hblock : lo ≤ block.target ∧ block.target ≤ hi) : Average lo hi (darkGravityStep s block) := by
  obtain ⟨htlo, hthi⟩ := hblock
  rcases Nat.eq_zero_or_pos s.countBlocks with hzero | hpos
  · have havg : (darkGravityStep s block).pastDifficultyAverage = (setCompact block.nBits).1 := if_pos hzero
    exact ⟨hcount, fun _ => havg ▸ htlo, havg ▸ hthi⟩
  · have havg : (darkGravityStep s block).pastDifficultyAverage =
        divInt (mulInt s.pastDifficultyAverage (s.countBlocks + 1) + (setCompact block.nBits).1) (s.countBlocks + 2) :=
      if_neg hpos.ne'
    have hmul := (hs.mulExact hhi).toNat_mulInt
    have hfactor : ((s.countBlocks : Int) + 1).toNat = s.countBlocks + 1 := by omega
    have hlow := Nat.mul_le_mul_right (s.countBlocks + 1) (hs.low hpos)
    have hhigh := Nat.mul_le_mul_right (s.countBlocks + 1) hs.high
    have hhi' : hi * (s.countBlocks + 1) + hi ≤ hi * 26 := by
      calc hi * (s.countBlocks + 1) + hi = hi * (s.countBlocks + 2) := by ring
        _ ≤ hi * 26 := Nat.mul_le_mul_left _ (by omega)
    have hvalue : (darkGravityStep s block).pastDifficultyAverage.toNat =
        (s.pastDifficultyAverage.toNat * (s.countBlocks + 1) + block.target) / (s.countBlocks + 2) := by
      rw [havg, toNat_divInt (by omega), BitVec.toNat_add, hmul, hfactor, CBlock.target] at *
      rw [Nat.mod_eq_of_lt (by omega)]
      congr 1
    refine ⟨hcount, fun _ => ?_, ?_⟩
    · rw [hvalue, Nat.le_div_iff_mul_le (by omega)]
      calc lo * (s.countBlocks + 2) = lo * (s.countBlocks + 1) + lo := by ring
        _ ≤ _ := Nat.add_le_add hlow htlo
    · rw [hvalue]
      refine Nat.div_le_of_le_mul ?_
      calc _ ≤ hi * (s.countBlocks + 1) + hi := Nat.add_le_add hhigh hthi
        _ = (s.countBlocks + 2) * hi := by ring

/-- The loop: the average stays between the bounds, and no product is too large. -/
theorem Average.foldl (hhi : hi * 26 < 2 ^ 256) {blocks : List CBlock} (hs : Average lo hi s)
    (hcount : s.countBlocks + blocks.length ≤ 24) (hblocks : ∀ b ∈ blocks, lo ≤ b.target ∧ b.target ≤ hi) :
    Average lo hi (blocks.foldl darkGravityStep s) ∧
      (blocks.foldl darkGravityStep s).countBlocks = s.countBlocks + blocks.length ∧
      ∀ product ∈ averageProducts blocks s, MulExact product.1 product.2 := by
  induction blocks generalizing s with
  | nil => exact ⟨hs, rfl, fun _ h => absurd h List.not_mem_nil⟩
  | cons block blocks ih =>
    obtain ⟨hblock, hrest⟩ := List.forall_mem_cons.mp hblocks
    rw [List.length_cons] at hcount
    have hstep : (darkGravityStep s block).countBlocks = s.countBlocks + 1 := rfl
    obtain ⟨havg, hlength, hproducts⟩ := ih (hs.step hhi (by omega) hblock) (by omega) hrest
    refine ⟨havg, ?_, fun product hproduct => ?_⟩
    · rw [List.foldl_cons, hlength, hstep, List.length_cons]
      omega
    · rcases List.mem_append.mp hproduct with hfirst | hlater
      · split at hfirst
        · exact absurd hfirst List.not_mem_nil
        · rw [List.mem_singleton.mp hfirst]
          exact hs.mulExact hhi
      · exact hproducts product hlater

end Average

/-! ## The main network -/

/-- The limit of the targets of the main network, of both kinds of blocks. -/
def mainLimit : Nat := 2 ^ 236 - 1

theorem mainParams_powLimit : mainParams.powLimit.toNat = mainLimit := by decide

theorem mainParams_posLimitV2 : (powParams mainParams.strNetworkID).posLimitV2.toNat = mainLimit := by decide

theorem mainParams_timeV2 {nHeight : Int} (h : 0 ≤ nHeight) : mainParams.isTimeProtocolV2 nHeight = true := by
  have hneg : ¬ nHeight < 0 := by omega
  simp only [Params.isTimeProtocolV2, Params.networkUpgradeActive, if_neg hneg]
  simpa [mainParams, activationHeights, ALWAYS_ACTIVE, NO_ACTIVATION_HEIGHT] using h

/-- A compact form that decodes, without sign and overflow, to a target from 1 up to the limit. -/
structure TargetOk (limit : Nat) (nBits : UInt32) : Prop where
  sign : (setCompact nBits).2.1 = false
  overflow : (setCompact nBits).2.2 = false
  low : 1 ≤ (setCompact nBits).1.toNat
  high : (setCompact nBits).1.toNat ≤ limit

/-- The new target is the old one times a factor between `29 / 31` and `49 / 31`, rounded down, cut off at the limit, and
    rounded to the compact form. -/
def StakeBounds (old new : Nat) : Prop :=
  ∃ exact, min mainLimit (old * (29 * 60) / (31 * 60)) ≤ exact ∧
    exact ≤ min mainLimit (old * (29 * 60 + 1200) / (31 * 60)) ∧ RoundsTo exact new

section Main

variable {last pprev : CBlock} {nHeight : Int}

theorem stakeSpacing_bounds (h : 0 ≤ nHeight) :
    0 ≤ stakeSpacing mainParams last pprev nHeight ∧ stakeSpacing mainParams last pprev nHeight ≤ 600 := by
  have hv2 : (mainParams.strNetworkID != .regtest && mainParams.isTimeProtocolV2 (nHeight + 1)) = true := by
    rw [mainParams_timeV2 (by omega)]
    rfl
  have hspacing : (powParams mainParams.strNetworkID).nTargetSpacing = 60 := rfl
  unfold stakeSpacing
  simp only [hv2, Bool.true_and, decide_eq_true_eq, hspacing]
  split <;> split <;> omega

theorem stakeFactor_bounds (h : 0 ≤ nHeight) : 29 * 60 ≤ stakeFactor mainParams last pprev nHeight ∧
      stakeFactor mainParams last pprev nHeight ≤ 29 * 60 + 1200 := by
  have hv2 : (mainParams.strNetworkID != .regtest && mainParams.isTimeProtocolV2 (nHeight + 1)) = true := by
    rw [mainParams_timeV2 (by omega)]
    rfl
  have hspacing := @stakeSpacing_bounds last pprev nHeight h
  have hpow : (powParams mainParams.strNetworkID).nTargetSpacing = 60 ∧
      (powParams mainParams.strNetworkID).nTargetTimespanV2 = 1800 := ⟨rfl, rfl⟩
  unfold stakeFactor
  simp only [hv2, if_true, hpow.1, hpow.2]
  omega

theorem stakeBase_main (h : 0 ≤ nHeight) : stakeBase mainParams last nHeight = (setCompact last.nBits).1 := by
  unfold stakeBase
  rw [mainParams_timeV2 h]
  simp

theorem stake_mulExact (h : 0 ≤ nHeight) (hlast : last.target ≤ mainLimit) :
    MulExact (stakeBase mainParams last nHeight) (stakeFactor mainParams last pprev nHeight) := by
  have hfactor := @stakeFactor_bounds last pprev nHeight h
  refine ⟨by omega, ?_⟩
  rw [stakeBase_main h]
  calc last.target * (stakeFactor mainParams last pprev nHeight).toNat ≤ mainLimit * 2940 :=
        Nat.mul_le_mul hlast (by omega)
    _ < 2 ^ 256 := by decide

theorem nextStakeTarget_main (h : 0 ≤ nHeight) (hlast : last.target ≤ mainLimit) :
    (nextStakeTarget mainParams last pprev nHeight).toNat =
      let scaled := last.target * (stakeFactor mainParams last pprev nHeight).toNat / 1860
      if scaled = 0 ∨ mainLimit < scaled then mainLimit else scaled := by
  have hv2 : (mainParams.strNetworkID != .regtest && mainParams.isTimeProtocolV2 (nHeight + 1)) = true := by
    rw [mainParams_timeV2 (by omega)]
    rfl
  have hscaled : (divInt (mulInt (stakeBase mainParams last nHeight) (stakeFactor mainParams last pprev nHeight))
      1860).toNat = last.target * (stakeFactor mainParams last pprev nHeight).toNat / 1860 := by
    rw [toNat_divInt (by decide), (stake_mulExact h hlast).toNat_mulInt, stakeBase_main h]
    rfl
  have hunfold : nextStakeTarget mainParams last pprev nHeight =
      if divInt (mulInt (stakeBase mainParams last nHeight) (stakeFactor mainParams last pprev nHeight)) 1860 = 0 ∨
        divInt (mulInt (stakeBase mainParams last nHeight) (stakeFactor mainParams last pprev nHeight)) 1860 >
          (powParams mainParams.strNetworkID).posLimitV2
      then (powParams mainParams.strNetworkID).posLimitV2
      else divInt (mulInt (stakeBase mainParams last nHeight) (stakeFactor mainParams last pprev nHeight)) 1860 := by
    have hinterval : (((powParams mainParams.strNetworkID).nTargetTimespanV2 /
        (powParams mainParams.strNetworkID).nTargetSpacing + 1) *
        (powParams mainParams.strNetworkID).nTargetSpacing : Int) = 1860 := by decide
    simp only [nextStakeTarget, hv2, if_true, hinterval, stakeFactor, stakeBase, stakeSpacing]
  rw [hunfold]
  simp only [← hscaled, ← mainParams_posLimitV2, gt_iff_lt, BitVec.lt_def, ← BitVec.toNat_inj]
  split
  · rename_i hcond
    rw [if_pos]
    exact hcond
  · rename_i hcond
    rw [if_neg]
    exact hcond

/-- The target of the proof-of-stake branch is in the range, and near the old one. -/
theorem nextStakeTarget_bounds (h : 0 ≤ nHeight) (hlast : last.target ≤ mainLimit) :
    (nextStakeTarget mainParams last pprev nHeight).toNat ≤ mainLimit ∧
      1 ≤ (nextStakeTarget mainParams last pprev nHeight).toNat ∧
      (3 ≤ last.target →
        min mainLimit (last.target * (29 * 60) / (31 * 60)) ≤ (nextStakeTarget mainParams last pprev nHeight).toNat ∧
        (nextStakeTarget mainParams last pprev nHeight).toNat ≤
          min mainLimit (last.target * (29 * 60 + 1200) / (31 * 60))) := by
  have hlimit : 1 ≤ mainLimit := by decide
  obtain ⟨hlow, hhigh⟩ := @stakeFactor_bounds last pprev nHeight h
  rw [nextStakeTarget_main h hlast]
  generalize hfactor : (stakeFactor mainParams last pprev nHeight).toNat = factor
  have hlower : last.target * (29 * 60) ≤ last.target * factor := Nat.mul_le_mul_left _ (by omega)
  have hupper : last.target * factor ≤ last.target * (29 * 60 + 1200) := Nat.mul_le_mul_left _ (by omega)
  dsimp only
  split <;> omega

variable {chain : List CBlock} {lo : Nat}

theorem darkGravity_average (hlength : 24 ≤ chain.length - 1)
    (hblocks : ∀ b ∈ chain.dropLast.take 24, lo ≤ b.target ∧ b.target ≤ mainLimit) :
    Average lo mainLimit (darkGravity chain) ∧ (darkGravity chain).countBlocks = 24 ∧
      ∀ product ∈ averageProducts (chain.dropLast.take 24) ⟨0, 0, 0, 0⟩, MulExact product.1 product.2 := by
  have htake : (chain.dropLast.take 24).length = 24 := by
    rw [List.length_take, List.length_dropLast]
    omega
  have hstart : Average lo mainLimit ⟨0, 0, 0, 0⟩ := ⟨by decide, fun hpos => absurd hpos (by decide), Nat.zero_le _⟩
  obtain ⟨havg, hcount, hproducts⟩ := hstart.foldl (by decide) (by rw [htake]) hblocks
  exact ⟨havg, by rw [darkGravity, hcount, htake], hproducts⟩

variable {s : DarkGravity}

theorem workTimespan_bounds (hcount : s.countBlocks = 24) :
    480 ≤ workTimespan mainParams s ∧ workTimespan mainParams s ≤ 4320 := by
  have hspacing : (powParams mainParams.strNetworkID).nTargetSpacing = 60 := rfl
  unfold workTimespan
  simp only [hcount, hspacing]
  split <;> split <;> omega

theorem work_mulExact (hs : Average lo mainLimit s) (hcount : s.countBlocks = 24) :
    MulExact s.pastDifficultyAverage (workTimespan mainParams s) := by
  have htimespan := workTimespan_bounds hcount
  refine ⟨by omega, ?_⟩
  calc s.pastDifficultyAverage.toNat * (workTimespan mainParams s).toNat ≤ mainLimit * 4320 :=
        Nat.mul_le_mul hs.high (by omega)
    _ < 2 ^ 256 := by decide

theorem nextWorkTarget_main (hs : Average lo mainLimit (darkGravity chain))
    (hcount : (darkGravity chain).countBlocks = 24) : (nextWorkTarget mainParams chain).toNat =
      min mainLimit ((darkGravity chain).pastDifficultyAverage.toNat *
        (workTimespan mainParams (darkGravity chain)).toNat / 1440) := by
  have hscaled : (divInt (mulInt (darkGravity chain).pastDifficultyAverage (workTimespan mainParams (darkGravity chain)))
      1440).toNat = (darkGravity chain).pastDifficultyAverage.toNat *
        (workTimespan mainParams (darkGravity chain)).toNat / 1440 := by
    rw [toNat_divInt (by decide), (work_mulExact hs hcount).toNat_mulInt]
    rfl
  have hunfold : nextWorkTarget mainParams chain =
      if divInt (mulInt (darkGravity chain).pastDifficultyAverage (workTimespan mainParams (darkGravity chain))) 1440 >
        mainParams.powLimit then mainParams.powLimit
      else divInt (mulInt (darkGravity chain).pastDifficultyAverage (workTimespan mainParams (darkGravity chain)))
        1440 := by
    have hspan : ((darkGravity chain).countBlocks * (powParams mainParams.strNetworkID).nTargetSpacing : Int) = 1440 := by
      rw [hcount]
      rfl
    rw [← hspan]
    rfl
  rw [hunfold, ← hscaled, ← mainParams_powLimit]
  split
  · rename_i hgt
    exact (Nat.min_eq_left (BitVec.lt_def.mp hgt).le).symm
  · rename_i hle
    exact (Nat.min_eq_right (not_lt.mp (mt BitVec.lt_def.mpr hle))).symm

end Main

/-- The target that `GetNextWorkRequired` packs, and its products. -/
structure Retargeted (chain : List CBlock) (x : Uint256) : Prop where
  packed : getNextWorkRequired mainParams chain = getCompact x
  high : x.toNat ≤ mainLimit
  low : (∀ b ∈ blocksRead mainParams chain, 3 ≤ b.target) → 1 ≤ x.toNat
  products : ∀ product ∈ retargetProducts mainParams chain, MulExact product.1 product.2
  stake : ∀ last pprev older, chain = last :: pprev :: older →
    mainParams.networkUpgradeActive chain.length .UPGRADE_POS = true → 3 ≤ last.target →
      min mainLimit (last.target * (29 * 60) / (31 * 60)) ≤ x.toNat ∧
        x.toNat ≤ min mainLimit (last.target * (29 * 60 + 1200) / (31 * 60))

theorem mainParams_pos_length {n : Nat} (h : mainParams.networkUpgradeActive n .UPGRADE_POS = true) : 601 ≤ n := by
  have hneg : ¬ (n : Int) < 0 := by omega
  simp only [Params.networkUpgradeActive, if_neg hneg] at h
  simpa [mainParams, activationHeights, NO_ACTIVATION_HEIGHT] using h

theorem exists_retargeted {chain : List CBlock} (hchain : ∀ b ∈ chain, TargetOk mainLimit b.nBits) :
    ∃ x, Retargeted chain x := by
  have hfew : ∀ {chain : List CBlock}, chain.length - 1 < 24 →
      getNextWorkRequired mainParams chain = getCompact mainParams.powLimit →
      retargetProducts mainParams chain = [] → Retargeted chain mainParams.powLimit := by
    intro chain hlength hpacked hproducts
    refine ⟨hpacked, mainParams_powLimit.le, fun _ => by decide, by simp [hproducts], ?_⟩
    intro last pprev older hcons hpos
    have := mainParams_pos_length hpos
    omega
  match chain, hchain with
  | [], _ => exact ⟨_, hfew (by decide) rfl rfl⟩
  | [genesis], _ => exact ⟨_, hfew (by simp) rfl rfl⟩
  | last :: pprev :: older, hchain =>
    have hretarget : (powParams mainParams.strNetworkID).fPowNoRetargeting = false := rfl
    by_cases hlength : (last :: pprev :: older).length - 1 < 24
    · refine ⟨_, hfew hlength ?_ ?_⟩
      · simp only [getNextWorkRequired, hretarget, Bool.false_eq_true, if_false, if_pos hlength]
      · simp only [retargetProducts, hretarget, Bool.false_eq_true, if_false, if_pos hlength]
    · by_cases hpos : mainParams.networkUpgradeActive (last :: pprev :: older).length .UPGRADE_POS = true
      · -- proof of stake: the target of the last block alone
        have hheight : (0 : Int) ≤ older.length + 1 := by omega
        have hlast : last.target ≤ mainLimit := (hchain last List.mem_cons_self).high
        obtain ⟨hhigh, hlow, hnear⟩ := @nextStakeTarget_bounds last pprev _ hheight hlast
        refine ⟨nextStakeTarget mainParams last pprev (older.length + 1), ?_, hhigh, fun _ => hlow, ?_, ?_⟩
        · simp only [getNextWorkRequired, hretarget, Bool.false_eq_true, if_false, if_neg hlength, if_pos hpos]
        · simp only [retargetProducts, hretarget, Bool.false_eq_true, if_false, if_neg hlength, if_pos hpos,
            List.mem_singleton, forall_eq]
          exact stake_mulExact hheight hlast
        · rintro _ _ _ ⟨⟩ - hthree
          exact hnear hthree
      · -- proof of work: the average of the last 24 targets
        have hread : blocksRead mainParams (last :: pprev :: older) = (last :: pprev :: older).dropLast.take 24 := by
          simp only [blocksRead, if_neg hlength, if_neg hpos]
        have hmem : ∀ b ∈ (last :: pprev :: older).dropLast.take 24, TargetOk mainLimit b.nBits := fun b hb =>
          hchain b (List.dropLast_subset _ (List.mem_of_mem_take hb))
        obtain ⟨havg, hcount, hproducts⟩ := darkGravity_average (by omega) fun b hb => ⟨(hmem b hb).low, (hmem b hb).high⟩
        have htimespan := workTimespan_bounds hcount
        have hvalue := nextWorkTarget_main havg hcount
        refine ⟨nextWorkTarget mainParams (last :: pprev :: older), ?_, ?_, fun hthree => ?_, ?_, ?_⟩
        · simp only [getNextWorkRequired, hretarget, Bool.false_eq_true, if_false, if_neg hlength, if_neg hpos]
        · rw [hvalue]
          exact min_le_left _ _
        · rw [hread] at hthree
          have hthree' := (darkGravity_average (by omega) fun b hb => ⟨hthree b hb, (hmem b hb).high⟩).1.low
            (by rw [hcount]; decide)
          rw [hvalue, le_min_iff, Nat.le_div_iff_mul_le (by decide)]
          refine ⟨by decide, ?_⟩
          calc 1 * 1440 = 3 * 480 := rfl
            _ ≤ _ := Nat.mul_le_mul hthree' (by omega)
        · simp only [retargetProducts, hretarget, Bool.false_eq_true, if_false, if_neg hlength, if_neg hpos,
            List.mem_append, List.mem_singleton]
          rintro product (hproduct | rfl)
          · exact hproducts product hproduct
          · exact work_mulExact havg hcount
        · rintro _ _ _ ⟨⟩ hactive
          exact absurd hactive hpos

/-- **Retargeting stays in range**: for every chain of blocks with targets from 1 up to the limit, the next target of the
    main network has neither a sign nor an overflow, is at most the limit, and at least 1 if the targets that are read are
    at least 3; all products are exact; and a proof-of-stake target changes by a bounded factor. -/
theorem getNextWorkRequired_in_range (chain : List CBlock) (hchain : ∀ b ∈ chain, TargetOk mainLimit b.nBits) :
    ((setCompact (getNextWorkRequired mainParams chain)).2 = (false, false) ∧
      (setCompact (getNextWorkRequired mainParams chain)).1.toNat ≤ mainLimit) ∧
    ((∀ b ∈ blocksRead mainParams chain, 3 ≤ b.target) →
      1 ≤ (setCompact (getNextWorkRequired mainParams chain)).1.toNat) ∧
    (∀ product ∈ retargetProducts mainParams chain, MulExact product.1 product.2) ∧
    (∀ last pprev older, chain = last :: pprev :: older →
      mainParams.networkUpgradeActive chain.length .UPGRADE_POS = true → 3 ≤ last.target →
        StakeBounds last.target (setCompact (getNextWorkRequired mainParams chain)).1.toNat) := by
  obtain ⟨x, hx⟩ := exists_retargeted hchain
  obtain ⟨hround, hflags⟩ := setCompact_getCompact x
  rw [hx.packed]
  refine ⟨⟨hflags, hround.le.trans hx.high⟩, fun hthree => hround.pos (hx.low hthree), hx.products, ?_⟩
  intro last pprev older hcons hpos hthree
  obtain ⟨hlow, hhigh⟩ := hx.stake last pprev older hcons hpos hthree
  exact ⟨x.toNat, hlow, hhigh, hround⟩

/-- The hashes of a chain that starts with the genesis block. -/
def steadyHash : Nat → Uint256
  | 0 => mainParams.hashGenesisBlock
  | n + 1 => BitVec.ofNat 256 (n + 1)

/-- A coinbase with one output that everybody can spend. -/
def steadyCoinbase (nHeight : Nat) : CTransaction :=
  ⟨BitVec.ofNat 256 (1000000 + nHeight), 1, 0, [⟨⟨0, 0xffffffff⟩, [0x01, 0x00], 0xffffffff⟩], [⟨10000, [0x51]⟩], 0, none,
    none⟩

/-- A block of a chain with one block a minute, all with the easiest target. -/
def steadyBlock (nHeight : Nat) : CBlock where
  hash := steadyHash nHeight
  nVersion := 8
  hashPrevBlock := if nHeight = 0 then 0 else steadyHash (nHeight - 1)
  hashMerkleRoot := BitVec.ofNat 256 (1000000 + nHeight)
  nTime := UInt32.ofNat (1785931200 + 60 * nHeight)
  nBits := 0x1e0fffff
  nNonce := 0
  hashFinalSaplingRoot := 0
  vtx := [steadyCoinbase nHeight]
  vchBlockSig := []

def steadyChain : Nat → List CBlock
  | 0 => [steadyBlock 0]
  | n + 1 => steadyBlock (n + 1) :: steadyChain n

theorem length_steadyChain (n : Nat) : (steadyChain n).length = n + 1 := by
  induction n with
  | zero => rfl
  | succ n ih => rw [steadyChain, List.length_cons, ih]

theorem targetOk_steadyChain (n : Nat) : ∀ b ∈ steadyChain n, TargetOk mainLimit b.nBits := by
  have hbits : TargetOk mainLimit 0x1e0fffff := ⟨by decide, by decide, by decide, by decide⟩
  induction n with
  | zero => exact List.forall_mem_singleton.mpr hbits
  | succ n ih => exact List.forall_mem_cons.mpr ⟨hbits, ih⟩

theorem getNextWorkRequired_in_range_steady : StakeBounds (steadyBlock 700).target
      (setCompact (getNextWorkRequired mainParams (steadyChain 700))).1.toNat := by
  refine (getNextWorkRequired_in_range (steadyChain 700) (targetOk_steadyChain 700)).2.2.2
    (steadyBlock 700) (steadyBlock 699) (steadyChain 698) rfl ?_ (by decide)
  rw [length_steadyChain]
  decide

end KrovaCoin
