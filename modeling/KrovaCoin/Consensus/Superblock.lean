import KrovaCoin.Primitives

/-!
# Staking rewards pool (`consensus/superblock.cpp`)

Every superblock cycle spends the pool's coin, pays the stakers of the cycle in proportion to the blocks they staked,
and returns the rest to the pool. All arithmetic is checked: a failed `assert` or a value outside its C++ type stops the
computation with a `Fault`.

* `getSuperblockCumulativeTarget` — the three-phase schedule.
* `tallyStakersInCycle` — who staked how many blocks.

Principal results: `tallyStakersInCycle_total_le`, `pool_solvent`.
-/

namespace KrovaCoin.Superblock

open Lib

/-! ## The schedule -/

def PHASE_A_ANNUAL : Int := 2520000000 * COIN

def PHASE_B_ANNUAL : Int := 1260000000 * COIN

def PHASE_C_ANNUAL : Int := 630000000 * COIN

/-- One cycle is one day. -/
def CYCLES_PER_YEAR : Int := 365

def PHASE_A_CYCLES : Int := 5 * CYCLES_PER_YEAR

def PHASE_B_CYCLES : Int := 5 * CYCLES_PER_YEAR

def PHASE_C_CYCLES : Int := 10 * CYCLES_PER_YEAR

def PHASE_A_TOTAL : Int := 5 * PHASE_A_ANNUAL

def PHASE_B_TOTAL : Int := 5 * PHASE_B_ANNUAL

def PHASE_C_TOTAL : Int := 10 * PHASE_C_ANNUAL

def POOL_TOTAL : Int := PHASE_A_TOTAL + PHASE_B_TOTAL + PHASE_C_TOTAL

/-- `MulDivShare`: the product is taken in `__int128`. -/
def mulDivShare (a b c : Int) : Checked Int := do
  ensure (decide (a ≥ 0 ∧ b ≥ 0 ∧ c > 0))
  let product ← checkInt128 (a * b)
  let result := product.tdiv c
  ensure (decide (result ≥ 0 ∧ result ≤ CAMOUNT_MAX))
  return result

def getFirstSuperblockHeight (p : Params) : Int :=
  let nFirst := p.nActivationHeight .UPGRADE_POS
  if nFirst = NO_ACTIVATION_HEIGHT ∨ nFirst = ALWAYS_ACTIVE then -1 else nFirst

def isSuperblockHeight (p : Params) (nHeight : Int) : Bool :=
  let nFirst := getFirstSuperblockHeight p
  if nFirst < 0 ∨ nHeight < nFirst then false
  else if p.nBudgetCycleBlocks ≤ 0 then false
  else decide ((nHeight - nFirst).tmod p.nBudgetCycleBlocks = 0)

def getSuperblockCycleIndex (p : Params) (nHeight : Int) : Int :=
  (nHeight - getFirstSuperblockHeight p).tdiv p.nBudgetCycleBlocks

def getSuperblockCumulativeTarget (cycleIndex : Int) : Checked Int := do
  let n ← checkInt64 (cycleIndex + 1)
  if n ≤ 0 then return 0
  else if n ≤ PHASE_A_CYCLES then mulDivShare n PHASE_A_ANNUAL CYCLES_PER_YEAR
  else if n ≤ PHASE_A_CYCLES + PHASE_B_CYCLES then
    let share ← mulDivShare (n - PHASE_A_CYCLES) PHASE_B_ANNUAL CYCLES_PER_YEAR
    checkInt64 (PHASE_A_TOTAL + share)
  else if n ≤ PHASE_A_CYCLES + PHASE_B_CYCLES + PHASE_C_CYCLES then
    let share ← mulDivShare (n - PHASE_A_CYCLES - PHASE_B_CYCLES) PHASE_C_ANNUAL CYCLES_PER_YEAR
    checkInt64 (PHASE_A_TOTAL + PHASE_B_TOTAL + share)
  else return POOL_TOTAL

/-- The body of `GetSuperblockPayout` for the cycle `idx`. -/
def payoutOfCycle (idx : Int) : Checked Int := do
  let cur ← getSuperblockCumulativeTarget idx
  let prevIdx ← checkInt64 (idx - 1)
  let prev ← getSuperblockCumulativeTarget prevIdx
  ensure (decide (cur ≥ prev))
  checkInt64 (cur - prev)

def getSuperblockPayout (p : Params) (nHeight : Int) : Checked Int :=
  if isSuperblockHeight p nHeight then payoutOfCycle (getSuperblockCycleIndex p nHeight) else .ok 0

/-! ## The distribution -/

/-- `std::map<CScript, int>`: the entries in key order. -/
abbrev Tally := List (CScript × Int)

/-- `for (entry : tally) totalBlocks += entry.second` in `int`. -/
def totalBlocksLoop : Int → Tally → Checked Int
  | total, [] => .ok total
  | total, entry :: rest => do
    let total ← checkInt32 (total + entry.2)
    totalBlocksLoop total rest

/-- The loop over the stakers: the outputs so far and the sum `distributed`. -/
def shareLoop (targetPayout totalBlocks : Int) : List CTxOut → Int → Tally → Checked (List CTxOut × Int)
  | outputs, distributed, [] => .ok (outputs, distributed)
  | outputs, distributed, entry :: rest => do
    let share ← mulDivShare entry.2 targetPayout totalBlocks
    if share ≤ 0 then shareLoop targetPayout totalBlocks outputs distributed rest
    else
      let sum ← checkInt64 (distributed + share)
      shareLoop targetPayout totalBlocks (outputs ++ [⟨share, entry.1⟩]) sum rest

/-- The payments of one cycle and the value that returns to the pool. -/
structure Distribution where
  payments : List CTxOut
  distributed : Int
  change : Int
  deriving DecidableEq, Repr

/-- `ComputeSuperblockDistribution` up to the change; `none` where it returns without outputs. -/
def distribute (tally : Tally) (targetPayout poolInputValue : Int) : Checked (Option Distribution) :=
  if tally.isEmpty ∨ targetPayout ≤ 0 then .ok none
  else do
    let totalBlocks ← totalBlocksLoop 0 tally
    if totalBlocks ≤ 0 then return none
    else
      let target := if targetPayout > poolInputValue then poolInputValue else targetPayout
      let (outputs, distributed) ← shareLoop target totalBlocks [] 0 tally
      ensure (decide (distributed ≤ target))
      ensure (decide (distributed ≤ poolInputValue))
      let change ← checkInt64 (poolInputValue - distributed)
      return some ⟨outputs, distributed, change⟩

/-- `ComputeSuperblockDistribution`: the vector `outputsOut`. -/
def computeSuperblockDistribution (tally : Tally) (targetPayout poolInputValue : Int)
    (poolScriptPubKey : CScript) : Checked (List CTxOut) := do
  match ← distribute tally targetPayout poolInputValue with
  | none => return []
  | some d => return d.payments ++ if d.change > 0 then [⟨d.change, poolScriptPubKey⟩] else []

/-! ## Tallies -/

/-- `operator<` of `CScript` (a `prevector`): shorter scripts first, then byte by byte. -/
def scriptLt (a b : CScript) : Prop :=
  a.length < b.length ∨ a.length = b.length ∧ a.map UInt8.toNat < b.map UInt8.toNat

instance (a b : CScript) : Decidable (scriptLt a b) := by unfold scriptLt; infer_instance

theorem scriptLt_trans {a b c : CScript} (hab : scriptLt a b) (hbc : scriptLt b c) : scriptLt a c := by
  rcases hab with h | ⟨hl, h⟩
  · rcases hbc with h' | ⟨hl', -⟩
    · exact .inl (h.trans h')
    · exact .inl (hl' ▸ h)
  · rcases hbc with h' | ⟨hl', h'⟩
    · exact .inl (hl ▸ h')
    · exact .inr ⟨hl.trans hl', h.trans h'⟩

theorem scriptLt_of_not {a b : CScript} (hne : a ≠ b) (h : ¬ scriptLt a b) : scriptLt b a := by
  rcases lt_trichotomy a.length b.length with hl | hl | hl
  · exact absurd (.inl hl) h
  · rcases lt_trichotomy (a.map UInt8.toNat) (b.map UInt8.toNat) with hm | hm | hm
    · exact absurd (.inr ⟨hl, hm⟩) h
    · exact absurd (List.map_injective_iff.mpr (fun _ _ => UInt8.toNat_inj.mp) hm) hne
    · exact .inr ⟨hl.symm, hm⟩
  · exact .inl hl

/-- A tally as `TallyStakersInCycle` returns it: distinct scripts in map order, positive counts. -/
structure StakerTally where
  entries : Tally
  sorted : entries.Pairwise fun a b => scriptLt a.1 b.1
  positive : ∀ e ∈ entries, 0 < e.2

/-- `tally[staker]++`. -/
def bump (staker : CScript) : Tally → Tally
  | [] => [(staker, 1)]
  | entry :: rest =>
    if staker = entry.1 then (entry.1, entry.2 + 1) :: rest
    else if scriptLt staker entry.1 then (staker, 1) :: entry :: rest
    else entry :: bump staker rest

/-- The number of blocks a tally counts. -/
def totalOf (tally : Tally) : Int := (tally.map Prod.snd).sum

@[simp] theorem totalOf_nil : totalOf [] = 0 := rfl

@[simp] theorem totalOf_cons (e : CScript × Int) (tally : Tally) : totalOf (e :: tally) = e.2 + totalOf tally := by
  simp [totalOf]

variable {e : CScript × Int}

theorem mem_bump {staker : CScript} : ∀ {tally : Tally}, e ∈ bump staker tally → e.1 = staker ∨ ∃ e' ∈ tally, e'.1 = e.1
  | [], h => by
    simp only [bump, List.mem_singleton] at h
    exact .inl (by rw [h])
  | entry :: rest, h => by
    unfold bump at h
    split at h
    · rename_i heq
      rcases List.mem_cons.mp h with rfl | hr
      · exact .inl heq.symm
      · exact .inr ⟨e, List.mem_cons_of_mem _ hr, rfl⟩
    · split at h
      · rcases List.mem_cons.mp h with rfl | hr
        · exact .inl rfl
        · exact .inr ⟨e, hr, rfl⟩
      · rcases List.mem_cons.mp h with rfl | hr
        · exact .inr ⟨e, List.mem_cons_self, rfl⟩
        · rcases mem_bump hr with h' | ⟨e', he', h'⟩
          · exact .inl h'
          · exact .inr ⟨e', List.mem_cons_of_mem _ he', h'⟩

theorem bump_sorted (staker : CScript) : ∀ {tally : Tally}, tally.Pairwise (fun a b => scriptLt a.1 b.1) →
      (bump staker tally).Pairwise fun a b => scriptLt a.1 b.1
  | [], _ => by simp [bump]
  | entry :: rest, h => by
    rw [List.pairwise_cons] at h
    unfold bump
    split
    · exact List.pairwise_cons.mpr h
    · rename_i hne
      split
      · rename_i hlt
        refine List.pairwise_cons.mpr ⟨fun e he => ?_, List.pairwise_cons.mpr h⟩
        rcases List.mem_cons.mp he with rfl | hr
        · exact hlt
        · exact scriptLt_trans hlt (h.1 e hr)
      · rename_i hnlt
        refine List.pairwise_cons.mpr ⟨fun e he => ?_, bump_sorted staker h.2⟩
        rcases mem_bump he with h' | ⟨e', he', h'⟩
        · rw [h']
          exact scriptLt_of_not hne hnlt
        · rw [← h']
          exact h.1 e' he'

theorem bump_positive (staker : CScript) : ∀ {tally : Tally}, (∀ e ∈ tally, 0 < e.2) → ∀ e ∈ bump staker tally, 0 < e.2
  | [], _, e, he => by
    simp only [bump, List.mem_singleton] at he
    rw [he]
    exact Int.one_pos
  | entry :: rest, h, e, he => by
    have hentry := h entry List.mem_cons_self
    have hrest : ∀ e ∈ rest, 0 < e.2 := fun e he => h e (List.mem_cons_of_mem _ he)
    unfold bump at he
    split at he
    · rcases List.mem_cons.mp he with rfl | hr
      · omega
      · exact hrest e hr
    · split at he
      · rcases List.mem_cons.mp he with rfl | hr
        · exact Int.one_pos
        · exact h e hr
      · rcases List.mem_cons.mp he with rfl | hr
        · exact hentry
        · exact bump_positive staker hrest e hr

theorem totalOf_bump (staker : CScript) : ∀ tally : Tally, totalOf (bump staker tally) = totalOf tally + 1
  | [] => rfl
  | entry :: rest => by
    unfold bump
    split
    · simp only [totalOf_cons]
      omega
    · split
      · simp only [totalOf_cons]
        omega
      · simp only [totalOf_cons, totalOf_bump staker rest]
        omega

/-- The staker of a block: the script of the coinstake's first payout; `none` where the loop of
    `TallyStakersInCycle` continues with the next height. -/
def stakerOf (block : CBlock) : Option CScript :=
  if block.isProofOfStake then
    match block.vtx with
    | _ :: tx :: _ =>
      match tx.vout with
      | _ :: out :: _ => some out.scriptPubKey
      | _ => none
    | _ => none
  else none

def StakerTally.empty : StakerTally := ⟨[], .nil, by simp⟩

/-- One increment. -/
def StakerTally.bump (t : StakerTally) (staker : CScript) : StakerTally :=
  ⟨Superblock.bump staker t.entries, bump_sorted staker t.sorted, bump_positive staker t.positive⟩

/-- The loop of `TallyStakersInCycle` over `n` heights from `h`; `chainActive h` is the block read at
    that height, `none` past the tip or when the read fails. -/
def tallyLoop (chainActive : Int → Option CBlock) : Nat → Int → StakerTally → StakerTally
  | 0, _, t => t
  | n + 1, h, t =>
    match (chainActive h).bind stakerOf with
    | none => tallyLoop chainActive n (h + 1) t
    | some staker => tallyLoop chainActive n (h + 1) (t.bump staker)

def tallyStakersInCycle (chainActive : Int → Option CBlock) (cycleStartHeight cycleEndHeight : Int) : StakerTally :=
  let start := if cycleStartHeight < 1 then 1 else cycleStartHeight
  tallyLoop chainActive (cycleEndHeight - start + 1).toNat start .empty

def tallyBefore (p : Params) (chainActive : Int → Option CBlock) (nHeight : Int) : StakerTally :=
  let cycleEndHeight := nHeight - 1
  let cycleStartHeight := cycleEndHeight - p.nBudgetCycleBlocks + 1
  tallyStakersInCycle chainActive cycleStartHeight cycleEndHeight

/-- `BuildSuperblockPayoutOutputs`; `none` where it returns `false`. -/
def buildSuperblockPayoutOutputs (p : Params) (chainActive : Int → Option CBlock) (nHeight : Int)
    (poolScriptPubKey : CScript) (poolInputValue : Int) : Checked (Option (List CTxOut)) :=
  let tally := tallyBefore p chainActive nHeight
  if tally.entries.isEmpty then .ok none
  else do
    let targetPayout ← getSuperblockPayout p nHeight
    if targetPayout ≤ 0 then return none
    else
      let outputs ← computeSuperblockDistribution tally.entries targetPayout poolInputValue poolScriptPubKey
      return if outputs.isEmpty then none else some outputs

def cycleHasStakers (p : Params) (chainActive : Int → Option CBlock) (nHeight : Int) : Bool :=
  !(tallyBefore p chainActive nHeight).entries.isEmpty

theorem tallyLoop_total_le (chainActive : Int → Option CBlock) : ∀ (n : Nat) (h : Int)
    (t : StakerTally), totalOf (tallyLoop chainActive n h t).entries ≤ totalOf t.entries + n
  | 0, h, t => by simp [tallyLoop]
  | n + 1, h, t => by
    unfold tallyLoop
    split
    · have := tallyLoop_total_le chainActive n (h + 1) t
      omega
    · rename_i staker _
      have := tallyLoop_total_le chainActive n (h + 1) (t.bump staker)
      have hb : totalOf (t.bump staker).entries = totalOf t.entries + 1 :=
        totalOf_bump staker t.entries
      omega

/-- **A tally counts at most one block for each height of the cycle**, so for heights of type `int`
    its total is an `int`. -/
theorem tallyStakersInCycle_total_le (chainActive : Int → Option CBlock)
    {cycleStartHeight cycleEndHeight : Int} (h0 : 0 ≤ cycleEndHeight) :
    totalOf (tallyStakersInCycle chainActive cycleStartHeight cycleEndHeight).entries ≤ cycleEndHeight := by
  have hle := tallyLoop_total_le chainActive
    (cycleEndHeight - (if cycleStartHeight < 1 then 1 else cycleStartHeight) + 1).toNat
    (if cycleStartHeight < 1 then 1 else cycleStartHeight) .empty
  have hempty : totalOf StakerTally.empty.entries = 0 := rfl
  show totalOf (tallyLoop chainActive _ _ .empty).entries ≤ cycleEndHeight
  omega

def stakerBlock : CBlock :=
  let stake : CTransaction := ⟨2, 1, 0, [⟨⟨1, 0⟩, [], 0⟩], [⟨0, []⟩, ⟨5, [OP_1]⟩], 0, none, none⟩
  ⟨1, 8, 0, 0, 0, 0, 0, 0, [stake, stake], []⟩

theorem stakerBlock_tally : totalOf (tallyStakersInCycle (fun _ => some stakerBlock) 1 3).entries = 3 ∧
    totalOf (tallyStakersInCycle (fun _ => some stakerBlock) 1 3).entries ≤ 3 :=
  ⟨by decide, tallyStakersInCycle_total_le _ (by decide)⟩

/-! ## The schedule is exact -/

theorem mulDivShare_eq {a b c : Int} (ha : 0 ≤ a) (hb : 0 ≤ b) (hc : 0 < c)
    (hprod : a * b ≤ 170141183460469231731687303715884105727) (hres : a * b / c ≤ 9223372036854775807) :
    mulDivShare a b c = .ok (a * b / c) := by
  have hab : 0 ≤ a * b := Int.mul_nonneg ha hb
  have hq : 0 ≤ a * b / c := Int.ediv_nonneg hab (Int.le_of_lt hc)
  unfold mulDivShare
  rw [ensure_of (decide_eq_true ⟨ha, hb, hc⟩), checkInt128_of_nonneg hab hprod]
  simp only [ok_bind, Int.tdiv_eq_ediv_of_nonneg hab]
  rw [ensure_of (decide_eq_true ⟨hq, hres⟩)]
  rfl

def cumulativeTarget (k : Int) : Int :=
  if k + 1 ≤ 0 then 0
  else if k + 1 ≤ 1825 then (k + 1) * 252000000000000000 / 365
  else if k + 1 ≤ 3650 then 1260000000000000000 + (k + 1 - 1825) * 126000000000000000 / 365
  else if k + 1 ≤ 7300 then 1890000000000000000 + (k + 1 - 3650) * 63000000000000000 / 365
  else 2520000000000000000

variable {k : Int}

theorem getSuperblockCumulativeTarget_eq (h : InInt64 (k + 1)) :
    getSuperblockCumulativeTarget k = .ok (cumulativeTarget k) := by
  unfold getSuperblockCumulativeTarget cumulativeTarget
  rw [checkInt64_of h, ok_bind]
  generalize k + 1 = n
  show (if n ≤ 0 then .ok 0
    else if n ≤ 1825 then mulDivShare n 252000000000000000 365
    else if n ≤ 3650 then
      mulDivShare (n - 1825) 126000000000000000 365 >>= fun s => checkInt64 (1260000000000000000 + s)
    else if n ≤ 7300 then
      mulDivShare (n - 1825 - 1825) 63000000000000000 365 >>= fun s =>
        checkInt64 (1890000000000000000 + s)
    else .ok 2520000000000000000) = _
  split
  · rfl
  split
  · rw [mulDivShare_eq] <;> omega
  split
  · rw [mulDivShare_eq, ok_bind, checkInt64_of] <;> unfold InInt64 at * <;> omega
  split
  · have hsub : n - 1825 - 1825 = n - 3650 := by omega
    rw [hsub, mulDivShare_eq, ok_bind, checkInt64_of] <;> unfold InInt64 at * <;> omega
  · rfl

theorem cumulativeTarget_mono {j : Int} (h : j ≤ k) : cumulativeTarget j ≤ cumulativeTarget k := by
  unfold cumulativeTarget
  split_ifs <;> omega

theorem cumulativeTarget_nonneg (k : Int) : 0 ≤ cumulativeTarget k := by
  unfold cumulativeTarget
  split_ifs <;> omega

theorem cumulativeTarget_le_total (k : Int) : cumulativeTarget k ≤ POOL_TOTAL := by
  show cumulativeTarget k ≤ 2520000000000000000
  unfold cumulativeTarget
  split_ifs <;> omega

theorem payoutOfCycle_eq (h0 : 0 ≤ k) (h : InInt64 (k + 1)) :
    payoutOfCycle k = .ok (cumulativeTarget k - cumulativeTarget (k - 1)) := by
  have hk : InInt64 (k - 1) := by unfold InInt64 at *; omega
  have hk' : InInt64 (k - 1 + 1) := by unfold InInt64 at *; omega
  have hmono := cumulativeTarget_mono (show k - 1 ≤ k by omega)
  have hle : cumulativeTarget k ≤ 2520000000000000000 := cumulativeTarget_le_total k
  have hge := cumulativeTarget_nonneg (k - 1)
  unfold payoutOfCycle
  rw [getSuperblockCumulativeTarget_eq h, ok_bind, checkInt64_of hk, ok_bind,
    getSuperblockCumulativeTarget_eq hk', ok_bind, ensure_of (decide_eq_true hmono), ok_bind,
    checkInt64_of]
  unfold InInt64
  omega

/-! ## The distribution pays at most its target -/

theorem totalOf_nonneg : ∀ {tally : Tally}, (∀ e ∈ tally, 0 < e.2) → 0 ≤ totalOf tally
  | [], _ => by simp
  | e :: rest, h => by
    have he := h e List.mem_cons_self
    have hrest := totalOf_nonneg fun e he => h e (List.mem_cons_of_mem _ he)
    simp only [totalOf_cons]
    omega

theorem totalBlocksLoop_eq : ∀ {tally : Tally} {total : Int}, (∀ e ∈ tally, 0 < e.2) →
    0 ≤ total → total + totalOf tally ≤ 2147483647 → totalBlocksLoop total tally = .ok (total + totalOf tally)
  | [], total, _, _, _ => by simp [totalBlocksLoop]
  | e :: rest, total, h, h0, hle => by
    have he := h e List.mem_cons_self
    have hpos : ∀ e ∈ rest, 0 < e.2 := fun e he => h e (List.mem_cons_of_mem _ he)
    have hrest := totalOf_nonneg hpos
    rw [totalOf_cons] at hle
    have hin : InInt32 (total + e.2) := by unfold InInt32; omega
    rw [totalBlocksLoop, checkInt32_of hin, ok_bind, totalBlocksLoop_eq hpos (by omega) (by omega), totalOf_cons]
    congr 1
    omega

/-- The floor share of a staker. -/
def shareOf (target total : Int) (e : CScript × Int) : Int := e.2 * target / total

/-- The outputs the loop adds: the positive shares in map order. -/
def paymentsOf (target total : Int) (tally : Tally) : List CTxOut :=
  (tally.filter fun e => 0 < shareOf target total e).map fun e => ⟨shareOf target total e, e.1⟩

def valueOf (outs : List CTxOut) : Int := (outs.map CTxOut.nValue).sum

@[simp] theorem valueOf_nil : valueOf [] = 0 := rfl

@[simp] theorem valueOf_cons (out : CTxOut) (outs : List CTxOut) :
    valueOf (out :: outs) = out.nValue + valueOf outs := by
  simp [valueOf]

variable {target total : Int}

theorem shareOf_nonneg (ht : 0 ≤ target) (hT : 0 < total) (he : 0 < e.2) : 0 ≤ shareOf target total e :=
  Int.ediv_nonneg (Int.mul_nonneg (Int.le_of_lt he) ht) (Int.le_of_lt hT)

theorem paymentsOf_cons_value (ht : 0 ≤ target) (hT : 0 < total) (he : 0 < e.2) (rest : Tally) :
    valueOf (paymentsOf target total (e :: rest)) =
      shareOf target total e + valueOf (paymentsOf target total rest) := by
  have hnn := shareOf_nonneg ht hT he
  unfold paymentsOf
  by_cases h : 0 < shareOf target total e
  · simp [h]
  · simp [h]
    omega

theorem paymentsOf_value_nonneg (ht : 0 ≤ target) (hT : 0 < total) :
    ∀ {tally : Tally}, (∀ e ∈ tally, 0 < e.2) → 0 ≤ valueOf (paymentsOf target total tally)
  | [], _ => by simp [paymentsOf]
  | e :: rest, h => by
    have he := h e List.mem_cons_self
    have := paymentsOf_value_nonneg ht hT fun e he => h e (List.mem_cons_of_mem _ he)
    have := shareOf_nonneg ht hT he
    rw [paymentsOf_cons_value ht hT he]
    omega

theorem mul_paymentsOf_value_le (ht : 0 ≤ target) (hT : 0 < total) : ∀ {tally : Tally}, (∀ e ∈ tally, 0 < e.2) →
      total * valueOf (paymentsOf target total tally) ≤ totalOf tally * target
  | [], _ => by simp [paymentsOf]
  | e :: rest, h => by
    have he := h e List.mem_cons_self
    have ih := mul_paymentsOf_value_le ht hT fun e he => h e (List.mem_cons_of_mem _ he)
    have hdiv : total * shareOf target total e ≤ e.2 * target := Int.mul_ediv_self_le (by omega)
    rw [paymentsOf_cons_value ht hT he, totalOf_cons, Int.mul_add, Int.add_mul]
    omega

theorem paymentsOf_value_le {tally : Tally} (ht : 0 ≤ target) (hpos : ∀ e ∈ tally, 0 < e.2) (hT : 0 < totalOf tally) :
    valueOf (paymentsOf target (totalOf tally) tally) ≤ target := by
  have h := mul_paymentsOf_value_le ht hT hpos
  exact Int.le_of_mul_le_mul_left h hT

theorem mem_le_totalOf : ∀ {tally : Tally}, (∀ e ∈ tally, 0 < e.2) → ∀ e ∈ tally, e.2 ≤ totalOf tally
  | e :: rest, h, e', he' => by
    have hpos : ∀ e ∈ rest, 0 < e.2 := fun e he => h e (List.mem_cons_of_mem _ he)
    have hrest := totalOf_nonneg hpos
    have he := h e List.mem_cons_self
    rw [totalOf_cons]
    rcases List.mem_cons.mp he' with rfl | hr
    · omega
    · have := mem_le_totalOf hpos e' hr
      omega

theorem mulDivShare_entry (ht : 0 ≤ target) (htmax : target ≤ 9223372036854775807) (hT : 0 < total)
    (hTmax : total ≤ 2147483647) (he : 0 < e.2) (hle : e.2 ≤ total) :
    mulDivShare e.2 target total = .ok (shareOf target total e) := by
  have hprod : e.2 * target ≤ total * target := Int.mul_le_mul_of_nonneg_right hle ht
  have hprod' : total * target ≤ 2147483647 * 9223372036854775807 :=
    Int.mul_le_mul hTmax htmax ht (by omega)
  have hshare : e.2 * target / total ≤ target :=
    Int.ediv_le_of_le_mul hT (by rw [Int.mul_comm target]; exact hprod)
  exact mulDivShare_eq (Int.le_of_lt he) ht hT (by omega) (by omega)

theorem shareLoop_eq (ht : 0 ≤ target) (htmax : target ≤ 9223372036854775807) (hT : 0 < total)
    (hTmax : total ≤ 2147483647) : ∀ {tally : Tally} {outputs : List CTxOut}
    {distributed : Int}, (∀ e ∈ tally, 0 < e.2) → (∀ e ∈ tally, e.2 ≤ total) → 0 ≤ distributed →
      distributed + valueOf (paymentsOf target total tally) ≤ 9223372036854775807 →
        shareLoop target total outputs distributed tally = .ok (outputs ++ paymentsOf target total tally,
            distributed + valueOf (paymentsOf target total tally))
  | [], outputs, distributed, _, _, _, _ => by simp [shareLoop, paymentsOf]
  | e :: rest, outputs, distributed, hpos, hle, h0, hmax => by
    have he := hpos e List.mem_cons_self
    have hposr : ∀ e ∈ rest, 0 < e.2 := fun e he => hpos e (List.mem_cons_of_mem _ he)
    have hler : ∀ e ∈ rest, e.2 ≤ total := fun e he => hle e (List.mem_cons_of_mem _ he)
    have hnn := paymentsOf_value_nonneg ht hT hposr
    rw [paymentsOf_cons_value ht hT he] at hmax
    rw [shareLoop, mulDivShare_entry ht htmax hT hTmax he (hle e List.mem_cons_self), ok_bind]
    by_cases hs : shareOf target total e ≤ 0
    · have hzero : shareOf target total e = 0 := by
        have := shareOf_nonneg ht hT he
        omega
      have hskip : paymentsOf target total (e :: rest) = paymentsOf target total rest := by
        simp [paymentsOf, hzero]
      rw [if_pos hs, shareLoop_eq ht htmax hT hTmax hposr hler h0 (by omega), hskip]
    · have hcons : paymentsOf target total (e :: rest) =
          ⟨shareOf target total e, e.1⟩ :: paymentsOf target total rest := by
        simp [paymentsOf, Int.not_le.mp hs]
      have hin : InInt64 (distributed + shareOf target total e) := by unfold InInt64; omega
      rw [if_neg hs, checkInt64_of hin, ok_bind,
        shareLoop_eq ht htmax hT hTmax hposr hler (by omega) (by omega), hcons, valueOf_cons,
        List.append_assoc, Int.add_assoc]
      rfl

variable {t : StakerTally}

theorem StakerTally.total_pos (hne : t.entries ≠ []) : 0 < totalOf t.entries := by
  obtain ⟨e, rest, heq⟩ := List.exists_cons_of_ne_nil hne
  have he : e ∈ t.entries := by rw [heq]; exact List.mem_cons_self
  have := t.positive e he
  have := mem_le_totalOf t.positive e he
  omega

/-- **The distribution of a cycle**: no assertion fails, the stakers get their floor shares of the target or of
    the whole pool, and the change is the rest. -/
theorem distribute_min {pool : Int} (hne : t.entries ≠ []) (ht : 0 < target)
    (hpool : 0 ≤ pool ∧ pool ≤ 9223372036854775807) (htotal : totalOf t.entries ≤ 2147483647) :
    distribute t.entries target pool = .ok (some ⟨paymentsOf (min target pool) (totalOf t.entries) t.entries,
        valueOf (paymentsOf (min target pool) (totalOf t.entries) t.entries),
        pool - valueOf (paymentsOf (min target pool) (totalOf t.entries) t.entries)⟩) := by
  have hclamp : (if target > pool then pool else target) = min target pool := by
    split <;> omega
  have hmin : 0 ≤ min target pool ∧ min target pool ≤ pool := by omega
  generalize min target pool = clamped at hclamp hmin ⊢
  have hT := StakerTally.total_pos hne
  have hvle := paymentsOf_value_le hmin.1 t.positive hT
  have hvnn := paymentsOf_value_nonneg hmin.1 hT t.positive
  have hguard : ¬ (t.entries.isEmpty = true ∨ target ≤ 0) := by
    rw [List.isEmpty_iff]
    rintro (h | h)
    · exact hne h
    · omega
  have htotals := totalBlocksLoop_eq t.positive (Int.le_refl 0) (by omega)
  rw [Int.zero_add] at htotals
  have hloop : shareLoop clamped (totalOf t.entries) [] 0 t.entries = .ok ([] ++ _, 0 + _) :=
    shareLoop_eq hmin.1 (by omega) hT htotal t.positive (mem_le_totalOf t.positive)
      (Int.le_refl 0) (by omega)
  rw [Int.zero_add, List.nil_append] at hloop
  have hchange : InInt64 (pool - valueOf (paymentsOf clamped (totalOf t.entries) t.entries)) := by
    unfold InInt64; omega
  unfold distribute
  rw [if_neg hguard, htotals, ok_bind, if_neg (by omega), hclamp]
  simp only [hloop, ok_bind]
  rw [ensure_of (decide_eq_true hvle), ok_bind, ensure_of (decide_eq_true (by omega)), ok_bind,
    checkInt64_of hchange, ok_bind]
  rfl

theorem distribute_eq {pool : Int} (hne : t.entries ≠ []) (ht : 0 < target) (hle : target ≤ pool)
    (hpool : pool ≤ 9223372036854775807) (htotal : totalOf t.entries ≤ 2147483647) :
    distribute t.entries target pool = .ok (some ⟨paymentsOf target (totalOf t.entries) t.entries,
        valueOf (paymentsOf target (totalOf t.entries) t.entries),
        pool - valueOf (paymentsOf target (totalOf t.entries) t.entries)⟩) := by
  rw [distribute_min hne ht ⟨by omega, hpool⟩ htotal, Int.min_eq_left hle]

/-! ## The pool over many cycles -/

/-- The value of the pool's coin and the amount paid to stakers so far. -/
structure PoolState where
  pool : Int
  paid : Int
  deriving DecidableEq, Repr

/-- Cycle `k`: the pool's coin is replaced by the change output of the distribution; without
    outputs it stays as it is. -/
def PoolState.step (k : Int) (t : StakerTally) (s : PoolState) : Checked PoolState := do
  let payout ← payoutOfCycle k
  match ← distribute t.entries payout s.pool with
  | none => return s
  | some d => return ⟨if d.change > 0 then d.change else 0, s.paid + valueOf d.payments⟩

/-- The cycles `k`, `k + 1`, … with their tallies. -/
def PoolState.run : Int → List StakerTally → PoolState → Checked PoolState
  | _, [], s => .ok s
  | k, t :: ts, s => do
    let s ← s.step k t
    PoolState.run (k + 1) ts s

/-- The pool before the first cycle. -/
def PoolState.init : PoolState := ⟨POOL_TOTAL, 0⟩

/-- What holds before cycle `k`. -/
structure PoolState.Inv (k : Int) (s : PoolState) : Prop where
  paid_nonneg : 0 ≤ s.paid
  paid_le : s.paid ≤ cumulativeTarget (k - 1)
  pool_eq : s.pool = POOL_TOTAL - s.paid

namespace PoolState

variable {s : PoolState}

theorem Inv.payout_le {k : Int} (h : s.Inv k) : cumulativeTarget k - cumulativeTarget (k - 1) ≤ s.pool := by
  have hle := cumulativeTarget_le_total k
  have hpaid := h.paid_le
  rw [h.pool_eq]
  omega

theorem step_inv {k : Int} {t : StakerTally} (h0 : 0 ≤ k) (hk : InInt64 (k + 1))
    (htotal : totalOf t.entries ≤ 2147483647) (h : s.Inv k) : ∃ s', s.step k t = .ok s' ∧ s'.Inv (k + 1) := by
  obtain ⟨hnn, hpaid, hpool⟩ := h
  have hmono := cumulativeTarget_mono (show k - 1 ≤ k by omega)
  have hk1 : k + 1 - 1 = k := by omega
  have htot : POOL_TOTAL = 2520000000000000000 := rfl
  unfold step
  rw [payoutOfCycle_eq h0 hk, ok_bind]
  by_cases hskip : t.entries = [] ∨ cumulativeTarget k - cumulativeTarget (k - 1) ≤ 0
  · have hnone : distribute t.entries (cumulativeTarget k - cumulativeTarget (k - 1)) s.pool =
        .ok none := by
      unfold distribute
      rw [if_pos (by rwa [List.isEmpty_iff])]
    rw [hnone]
    exact ⟨s, rfl, hnn, by rw [hk1]; omega, hpool⟩
  · rw [not_or] at hskip
    have hle : cumulativeTarget k - cumulativeTarget (k - 1) ≤ s.pool :=
      Inv.payout_le ⟨hnn, hpaid, hpool⟩
    rw [distribute_eq hskip.1 (by omega) hle (by omega) htotal]
    have hT := StakerTally.total_pos hskip.1
    have ht : 0 ≤ cumulativeTarget k - cumulativeTarget (k - 1) := by omega
    have hvle := paymentsOf_value_le ht t.positive hT
    have hvnn := paymentsOf_value_nonneg ht hT t.positive
    generalize paymentsOf _ (totalOf t.entries) t.entries = payments at hvle hvnn ⊢
    refine ⟨_, rfl, ?_, ?_, ?_⟩
    · show 0 ≤ s.paid + valueOf payments
      omega
    · show s.paid + valueOf payments ≤ _
      rw [hk1]
      omega
    · show (if s.pool - valueOf payments > 0 then s.pool - valueOf payments else 0) =
        POOL_TOTAL - (s.paid + valueOf payments)
      split <;> omega

theorem run_inv : ∀ {ts : List StakerTally} {k : Int} {s : PoolState}, 0 ≤ k →
    k + ts.length ≤ 9223372036854775807 → (∀ t ∈ ts, totalOf t.entries ≤ 2147483647) → s.Inv k →
      ∃ s', PoolState.run k ts s = .ok s' ∧ s'.Inv (k + ts.length)
  | [], k, s, _, _, _, h => ⟨s, rfl, by simpa using h⟩
  | t :: ts, k, s, h0, hlen, htotal, h => by
    rw [List.length_cons] at hlen
    have hk : InInt64 (k + 1) := by unfold InInt64; omega
    obtain ⟨s1, hs1, hinv1⟩ := step_inv h0 hk (htotal t List.mem_cons_self) h
    obtain ⟨s2, hs2, hinv2⟩ := run_inv (by omega) (by omega)
      (fun t ht => htotal t (List.mem_cons_of_mem _ ht)) hinv1
    refine ⟨s2, ?_, ?_⟩
    · rw [run, hs1, ok_bind]
      exact hs2
    · have : k + 1 + (ts.length : Int) = k + ((t :: ts).length : Int) := by
        rw [List.length_cons]; omega
      rwa [← this]

theorem init_inv : init.Inv 0 := ⟨by decide, by decide, by decide⟩

end PoolState

/-- Solvency after the cycles `0, …, tallies.length - 1`: nothing faulted, what was paid is within the
    schedule and the pool, the pool holds the rest, and the next cycle's clamp does not apply. -/
def Solvent (tallies : List StakerTally) : Prop :=
  ∃ s target, PoolState.run 0 tallies .init = .ok s ∧
    getSuperblockCumulativeTarget (tallies.length - 1) = .ok target ∧
    s.paid ≤ target ∧ s.paid ≤ POOL_TOTAL ∧ s.pool = POOL_TOTAL - s.paid ∧
    ∀ payout, payoutOfCycle tallies.length = .ok payout → ¬ payout > s.pool

/-- **The pool is solvent** over every number of cycles whose indices the code can count and all
    tallies whose total is an `int`. -/
theorem pool_solvent {tallies : List StakerTally} (hlen : (tallies.length : Int) ≤ 9223372036854775807)
    (htotal : ∀ t ∈ tallies, totalOf t.entries ≤ 2147483647) : Solvent tallies := by
  obtain ⟨s, hrun, hinv⟩ := PoolState.run_inv (Int.le_refl 0) (by omega) htotal PoolState.init_inv
  rw [Int.zero_add] at hinv
  have hin : InInt64 ((tallies.length : Int) - 1 + 1) := by unfold InInt64; omega
  refine ⟨s, _, hrun, getSuperblockCumulativeTarget_eq hin, hinv.paid_le, ?_, hinv.pool_eq, ?_⟩
  · have := hinv.paid_le
    have := cumulativeTarget_le_total ((tallies.length : Int) - 1)
    omega
  · intro payout hpayout
    by_cases hnext : InInt64 ((tallies.length : Int) + 1)
    · rw [payoutOfCycle_eq (by omega) hnext] at hpayout
      have hval := Except.ok.inj hpayout
      have := hinv.payout_le
      omega
    · unfold payoutOfCycle getSuperblockCumulativeTarget at hpayout
      rw [checkInt64, if_neg hnext] at hpayout
      cases hpayout

/-- Two stakers, one with two blocks. -/
def smallTally : StakerTally := ((StakerTally.empty.bump [1]).bump [2]).bump [1]

theorem pool_solvent_small : Solvent [smallTally, .empty, smallTally] :=
  pool_solvent (by decide) (by decide)

/-- A map the type allows: its counts do not add up in an `int`. -/
def overfullTally : StakerTally :=
  ⟨[([1], 2147483647), ([2], 1)], by decide, by decide⟩

theorem pool_overflow_overfull : ¬ Solvent [overfullTally] := by
  rintro ⟨s, target, hrun, -⟩
  cases hrun

end KrovaCoin.Superblock
