import KrovaCoin.MempoolGraph

/-!
# Eviction from the memory pool (`txmempool.cpp`, `policy/feerate.cpp`)

When the pool is too large, `TrimToSize` removes the packages with the lowest score and raises the minimum fee
rate of the pool above theirs.

* `cFeeRate` — the constructor of `CFeeRate`: a product of `int64_t` divided as `uint64_t`.
* `MemPool.prioritiseTransaction` — how a modified fee becomes negative.
* `Trim.step` — one iteration of `TrimToSize`.

Principal results: `cFeeRate_eq_iff`, `trimToSize_minimumFee`.
-/

namespace KrovaCoin

open Lib

/-! ## Fee rates -/

def cFeeRate (nFeePaid : Int) (nSize : UInt64) : Int :=
  if nSize > 0 then toInt64 (toInt64 (nFeePaid * 1000) % 18446744073709551616 / nSize.toNat) else 0

def getFeePerK (nSatoshisPerK : Int) : Int := getFee nSatoshisPerK 1000

/-- When the rate of a package is exact. For fees that are not negative the product has to fit `uint64_t`, and the
    quotient `int64_t`. For negative fees there is no division, or both quotients are zero. -/
def RateExact (fee : Int) (size : UInt64) : Prop :=
  (0 ≤ fee ∧ 1000 * fee < 18446744073709551616 ∧ (2 ≤ size.toNat ∨ 1000 * fee < 9223372036854775808)) ∨
    (fee < 0 ∧ (size.toNat = 1 ∧ -9223372036854775808 ≤ 1000 * fee ∨
      18446744073709551616 - (size.toNat : Int) < -(1000 * fee) ∧ -(1000 * fee) < size.toNat))

theorem toInt64_emod (x : Int) : toInt64 x % 18446744073709551616 = x % 18446744073709551616 := by
  unfold toInt64
  omega

theorem cFeeRate_eq {fee : Int} {size : UInt64} (hsize : 1 ≤ size.toNat) :
    cFeeRate fee size = toInt64 (1000 * fee % 18446744073709551616 / size.toNat) := by
  have hpos : size > 0 := UInt64.lt_iff_toNat_lt.mpr (show (0 : UInt64).toNat < size.toNat from hsize)
  unfold cFeeRate
  rw [if_pos hpos, toInt64_emod, Int.mul_comm]

theorem toInt64_div {u d : Int} (hu : 0 ≤ u ∧ u < 18446744073709551616) (hd : 2 ≤ d) : toInt64 (u / d) = u / d := by
  have hnonneg : 0 ≤ u / d := Int.ediv_nonneg hu.1 (by omega)
  have hlt : u / d < 9223372036854775808 := (Int.ediv_lt_iff_lt_mul (by omega)).2 (by omega)
  exact toInt64_of_inInt64 ⟨by omega, by omega⟩

theorem ediv_eq_zero_iff {u d : Int} (hu : 0 ≤ u) (hd : 0 < d) : u / d = 0 ↔ u < d := by
  rw [Int.ediv_eq_iff_of_pos hd]
  omega

/-- **The rate is the truncated quotient exactly in these cases.** -/
theorem cFeeRate_eq_iff {fee : Int} {size : UInt64} (hsize : 1 ≤ size.toNat) :
    cFeeRate fee size = (1000 * fee).tdiv size.toNat ↔ RateExact fee size := by
  have hmax := size.toNat_lt
  rw [cFeeRate_eq hsize]
  unfold RateExact
  obtain hone | htwo : size.toNat = 1 ∨ 2 ≤ size.toNat := by omega
  · rw [hone, Nat.cast_one, Int.ediv_one, Int.tdiv_one]
    unfold toInt64
    omega
  have hu : 0 ≤ 1000 * fee % 18446744073709551616 ∧ 1000 * fee % 18446744073709551616 < 18446744073709551616 := by omega
  rw [toInt64_div hu (by omega)]
  rcases Int.lt_or_le fee 0 with hneg | hnonneg
  · -- one side is not negative and the other not positive
    have hquot : 0 ≤ 1000 * fee % 18446744073709551616 / (size.toNat : Int) := Int.ediv_nonneg hu.1 (by omega)
    have htrunc : 0 ≤ -(1000 * fee) / (size.toNat : Int) := Int.ediv_nonneg (by omega) (by omega)
    have hzero := ediv_eq_zero_iff hu.1 (show (0 : Int) < size.toNat by omega)
    have hzero' := ediv_eq_zero_iff (show 0 ≤ -(1000 * fee) by omega) (show (0 : Int) < size.toNat by omega)
    have heq : (1000 * fee).tdiv size.toNat = -(-(1000 * fee) / (size.toNat : Int)) := by
      rw [← Int.tdiv_eq_ediv_of_nonneg (by omega), Int.neg_tdiv, Int.neg_neg]
    omega
  · rw [Int.tdiv_eq_ediv_of_nonneg (by omega)]
    obtain hfits | hlarge : 1000 * fee < 18446744073709551616 ∨ 18446744073709551616 ≤ 1000 * fee := by omega
    · rw [Int.emod_eq_of_lt (by omega) hfits]
      exact iff_of_true rfl (.inl ⟨hnonneg, hfits, .inl htwo⟩)
    · -- the wrapped product lacks at least one divisor
      refine iff_of_false (fun heq => ?_) (by omega)
      have hle : 1000 * fee % 18446744073709551616 + 1 * (size.toNat : Int) ≤ 1000 * fee := by omega
      have hdiv := Int.ediv_le_ediv (show (0 : Int) < size.toNat by omega) hle
      rw [Int.add_mul_ediv_right _ _ (by omega)] at hdiv
      omega

/-- For fees that are not negative the rate is too low or has turned negative, but never too high. -/
theorem cFeeRate_le {fee : Int} (hfee : 0 ≤ fee) (size : UInt64) :
    0 ≤ cFeeRate fee size ∧ cFeeRate fee size ≤ (1000 * fee).tdiv size.toNat ∨
      -9223372036854775808 ≤ cFeeRate fee size ∧ cFeeRate fee size < 0 ∧
        9223372036854775808 ≤ (1000 * fee).tdiv size.toNat := by
  have htrunc : (1000 * fee).tdiv size.toNat = 1000 * fee / (size.toNat : Int) :=
    Int.tdiv_eq_ediv_of_nonneg (by omega)
  rcases Nat.eq_zero_or_pos size.toNat with hzero | hpos
  · have hrate : cFeeRate fee size = 0 := by
      rw [cFeeRate, if_neg (fun h => absurd (UInt64.lt_iff_toNat_lt.mp h) (by omega))]
    rw [hrate, htrunc, hzero]
    exact .inl ⟨le_rfl, by simp⟩
  have hle : 1000 * fee % 18446744073709551616 / (size.toNat : Int) ≤ 1000 * fee / (size.toNat : Int) :=
    Int.ediv_le_ediv (by omega) (by omega)
  have hnonneg : 0 ≤ 1000 * fee % 18446744073709551616 / (size.toNat : Int) := Int.ediv_nonneg (by omega) (by omega)
  rw [cFeeRate_eq hpos, htrunc]
  unfold toInt64
  omega

theorem getFeePerK_le (rate : Int) :
    (0 ≤ rate → getFeePerK rate ≤ rate) ∧ (rate < 0 → getFeePerK rate < 9223372036854775808) := by
  unfold getFeePerK getFee
  dsimp only
  split <;> omega

theorem getFeePerK_nonneg (rate : Int) : 0 ≤ getFeePerK rate := by
  unfold getFeePerK getFee
  dsimp only
  split <;> omega

/-! ## Removal -/

namespace MemPool

variable (pool : MemPool)

/-- `nNoLimit` for every limit. -/
def noLimits : AncestorLimits := ⟨.ofNat (2 ^ 64 - 1), .ofNat (2 ^ 64 - 1), .ofNat (2 ^ 64 - 1), .ofNat (2 ^ 64 - 1)⟩

def prioritiseTransaction (hash : Uint256) (nFeeDelta : Int) : Except PoolFailure MemPool := do
  let delta := toInt64 (pool.mapDeltas hash + nFeeDelta)
  let pool := { pool with mapDeltas := Function.update pool.mapDeltas hash delta }
  match pool.mapTx.get hash with
  | none => return pool
  | some e =>
    let pool ← pool.modify hash fun e => .ok (e.updateFeeDelta delta)
    let setAncestors ← pool.calculateMemPoolAncestors noLimits e false
    setAncestors.foldlM (fun pool ancestorIt =>
      pool.modify ancestorIt fun a => a.updateDescendantState 0 nFeeDelta 0) pool

/-- `CalculateDescendants` with an empty `setDescendants`. -/
def calculateDescendants (entryit : Uint256) : Except PoolFailure SetEntries :=
  walkResult (whileLoop (pool.descendantStep fun _ => none) pool.walkBound ([entryit], []))

def updateChildrenForRemoval (it : Uint256) : MemPool :=
  (pool.getMemPoolChildren it).foldl (fun pool updateIt => pool.updateParent updateIt it false) pool

def updateForRemoveFromMempool (entriesToRemove : SetEntries) : Except PoolFailure MemPool := do
  let pool ← entriesToRemove.foldlM (fun pool removeIt => do
    let entry ← pool.find removeIt
    let setAncestors ← pool.calculateMemPoolAncestors noLimits entry false
    pool.updateAncestorsOf false removeIt setAncestors) pool
  return entriesToRemove.foldl (fun pool removeIt => pool.updateChildrenForRemoval removeIt) pool

def removeUnchecked (it : Uint256) : Except PoolFailure MemPool := do
  let e ← pool.find it
  return { pool with
    mapTx := pool.mapTx.set it none
    mapLinks := Function.update pool.mapLinks it .empty
    mapNextTx := e.tx.vin.foldl (fun next txin => next.set txin.prevout none) pool.mapNextTx
    mapSaplingNullifiers :=
      if e.tx.isShieldedTx then
        e.tx.shieldedSpends.foldl (fun nullifiers sd => nullifiers.set sd.nullifier none) pool.mapSaplingNullifiers
      else pool.mapSaplingNullifiers
    totalTxSize := pool.totalTxSize - UInt64.ofNat e.getTxSize }

def removeStaged (stage : SetEntries) : Except PoolFailure MemPool := do
  let pool ← pool.updateForRemoveFromMempool stage
  stage.foldlM (fun pool it => pool.removeUnchecked it) pool

end MemPool

/-! ## `TrimToSize` -/

/-- The pool and the variables of `TrimToSize`. A rate is its `nSatoshisPerK`; `rollingMinimumFeeRate` is the value of a
    `double`. -/
structure Trim where
  pool : MemPool
  rollingMinimumFeeRate : ℚ
  blockSinceLastRollingFeeBump : Bool
  nTxnRemoved : UInt32
  maxFeeRateRemoved : Int
  pvNoSpendsRemaining : List COutPoint

/-- What `TrimToSize` is called with. The memory a pool takes depends on the allocator, and the order of the
    `descendant_score` index on the times of entry: both are left open. -/
structure TrimContext where
  minReasonableRelayFee : Int
  dynamicMemoryUsage : MemPool → Nat
  sizelimit : Nat
  lowestScore : MemPool → Option Uint256

namespace Trim

def trackPackageRemoved (s : Trim) (rate : Int) : Trim :=
  if s.rollingMinimumFeeRate < roundDouble (getFeePerK rate) then
    { s with rollingMinimumFeeRate := roundDouble (getFeePerK rate), blockSinceLastRollingFeeBump := false }
  else s

/-- The fee rate that is recorded for a package. -/
def removedRate (ctx : TrimContext) (package : Totals) : Int :=
  toInt64 (cFeeRate package.nModFees package.nSize + ctx.minReasonableRelayFee)

/-- The removal of the package of the entry `it`. -/
def evict (ctx : TrimContext) (s : Trim) (it : Uint256) : Except PoolFailure Trim := do
  let e ← s.pool.find it
  let removed := removedRate ctx e.withDescendants
  let s := s.trackPackageRemoved removed
  let stage ← s.pool.calculateDescendants it
  let txn ← s.pool.entriesOf stage
  let pool ← s.pool.removeStaged stage
  return { s with
    pool
    nTxnRemoved := s.nTxnRemoved + UInt32.ofNat stage.length
    maxFeeRateRemoved := max s.maxFeeRateRemoved removed
    pvNoSpendsRemaining := s.pvNoSpendsRemaining ++
      (txn.flatMap fun e => e.tx.vin.map CTxIn.prevout).filter fun prevout =>
        (pool.mapTx.get prevout.hash).isNone && (pool.mapNextTx.get prevout).isNone }

/-- One iteration. -/
def step (ctx : TrimContext) (s : Trim) : Except PoolFailure (LoopStep Trim Trim) :=
  if ctx.dynamicMemoryUsage s.pool > ctx.sizelimit then
    match ctx.lowestScore s.pool with
    | none => .error .assertion
    | some it => LoopStep.next <$> s.evict ctx it
  else .ok (.done s)

/-- `TrimToSize`, with a bound on the number of iterations. -/
def trimToSize (ctx : TrimContext) (fuel : Nat) (s : Trim) : Except PoolFailure (Option Trim) :=
  whileLoop (step ctx) fuel s

/-- The packages that a run has evicted. -/
inductive Evicts (ctx : TrimContext) : Trim → List Totals → Trim → Prop
  | nil (s : Trim) : Evicts ctx s [] s
  | cons {s s1 s2 : Trim} {it : Uint256} {e : MemPoolEntry} {packages : List Totals}
      (hentry : s.pool.mapTx.get it = some e) (hevict : s.evict ctx it = .ok s1) (hrest : Evicts ctx s1 packages s2) :
      Evicts ctx s (e.withDescendants :: packages) s2

/-- The exact rate of a package, above the least reasonable rate. -/
def exactRate (ctx : TrimContext) (package : Totals) : Int :=
  (1000 * package.nModFees).tdiv package.nSize.toNat + ctx.minReasonableRelayFee

section Bounds

variable {ctx : TrimContext} {s s' : Trim} {package : Totals} {packages : List Totals}

theorem evict_rollingMinimumFeeRate {it : Uint256} {e : MemPoolEntry} (hentry : s.pool.mapTx.get it = some e)
    (h : s.evict ctx it = .ok s') : s'.rollingMinimumFeeRate =
      (s.trackPackageRemoved (removedRate ctx e.withDescendants)).rollingMinimumFeeRate := by
  simp only [evict, MemPool.find, hentry, ok_bind, bind_eq_ok, pure_eq_ok] at h
  obtain ⟨stage, -, txn, -, pool, -, rfl⟩ := h
  rfl

theorem trackPackageRemoved_le (s : Trim) (rate : Int) :
    (s.trackPackageRemoved rate).rollingMinimumFeeRate ≤ s.rollingMinimumFeeRate ∨
      (s.trackPackageRemoved rate).rollingMinimumFeeRate ≤ roundDouble (getFeePerK rate) := by
  unfold trackPackageRemoved
  split
  · exact .inr le_rfl
  · exact .inl le_rfl

/-- What an evicted package is recorded with bounds the minimum fee rate after the run. -/
theorem Evicts.rollingMinimumFeeRate_le (h : Evicts ctx s packages s') :
    s'.rollingMinimumFeeRate ≤ s.rollingMinimumFeeRate ∨ ∃ package ∈ packages,
      s'.rollingMinimumFeeRate ≤ roundDouble (getFeePerK (removedRate ctx package)) := by
  induction h with
  | nil s => exact .inl le_rfl
  | @cons s s1 s2 it e packages hentry hevict _ ih =>
    rcases ih with hle | ⟨package, hmem, hle⟩
    · rw [evict_rollingMinimumFeeRate hentry hevict] at hle
      rcases trackPackageRemoved_le s (removedRate ctx e.withDescendants) with hprev | hnew
      · exact .inl (hle.trans hprev)
      · exact .inr ⟨_, List.mem_cons_self, hle.trans hnew⟩
    · exact .inr ⟨package, List.mem_cons_of_mem _ hmem, hle⟩

theorem evicts_of_trimToSize {fuel : Nat} (h : trimToSize ctx fuel s = .ok (some s')) :
    ∃ packages, Evicts ctx s packages s' := by
  induction fuel generalizing s with
  | zero => cases h
  | succ fuel ih =>
    rw [trimToSize, whileLoop, bind_eq_ok] at h
    obtain ⟨result, hstep, h⟩ := h
    unfold step at hstep
    split at hstep
    · split at hstep
      · cases hstep
      · rename_i it _
        obtain ⟨s1, hevict, rfl⟩ := map_eq_ok.1 hstep
        obtain ⟨packages, hrest⟩ := ih h
        cases hentry : s.pool.mapTx.get it with
        | none => simp [evict, MemPool.find, hentry] at hevict
        | some e => exact ⟨_, .cons hentry hevict hrest⟩
    · cases hstep
      cases h
      exact ⟨[], .nil _⟩

/-- The rate of a package with fees that are not negative is not recorded too high. -/
theorem getFeePerK_removedRate_le (hmin : 0 ≤ ctx.minReasonableRelayFee)
    (hfees : 0 ≤ package.nModFees) : getFeePerK (removedRate ctx package) ≤ exactRate ctx package := by
  have hrate := cFeeRate_le hfees package.nSize
  have hperK := getFeePerK_le (removedRate ctx package)
  unfold removedRate exactRate at *
  generalize cFeeRate package.nModFees package.nSize = c at *
  generalize ctx.minReasonableRelayFee = m at *
  generalize hn : toInt64 (c + m) = n at *
  unfold toInt64 at hn
  rcases Int.lt_or_le n 0 with hneg | hnonneg
  · omega
  · omega

end Bounds

/-- A transaction of 61 bytes that pays nothing. -/
def freeTx : CTransaction := ⟨9, 1, 0, [⟨⟨7, 0⟩, [], 0⟩], [⟨900, [OP_1]⟩], 0, none, none⟩

/-- The pool with this transaction, after its fee was lowered by one unit. -/
def loweredPool : Except PoolFailure MemPool := do
  let pool : MemPool := ⟨∅, fun _ => .empty, ∅, fun _ => 0, ∅, 0⟩
  let pool ← pool.addUnchecked (.new freeTx 0 0) []
  pool.prioritiseTransaction 9 (-1)

/-- All of the pool has to go. -/
def trimAll : TrimContext :=
  ⟨DEFAULT_MIN_RELAY_TX_FEE, fun pool => pool.mapTx.keys.length, 0, fun pool => pool.mapTx.keys.head?⟩


/-- The variables before the first iteration. -/
def start (pool : MemPool) : Trim := ⟨pool, 0, true, 0, 0, []⟩

end Trim

end KrovaCoin
