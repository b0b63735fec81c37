import KrovaCoin.Coins.View
import KrovaCoin.Lib.Double

/-!
# Fees and the memory pool (`policy/feerate.cpp`, `validation.cpp`, `txmempool.h`)

* `getMinRelayFee`, `getShieldedTxMinFee` — the least fees for relay.

Principal results: `acceptFeeRule_iff`, `wellBelow_of_unpaid`.
-/

namespace KrovaCoin

open Lib

def REJECT_INSUFFICIENTFEE : Nat := 0x42

def DEFAULT_SHIELDEDTXFEE_K : Int := 100

/-- `::minRelayTxFee`, in units for 1000 bytes, if it is not set by an option. -/
def DEFAULT_MIN_RELAY_TX_FEE : Int := 10000

/-! ## Fee rates -/

/-- `CFeeRate::GetFee`; the product is one of `uint64_t`. -/
def getFee (nSatoshisPerK : Int) (nSize : Nat) : Int :=
  let nFee := nSatoshisPerK * nSize % 18446744073709551616 / 1000
  if nFee = 0 ∧ nSatoshisPerK > 0 then nSatoshisPerK else nFee

/-- `GetMinRelayFee(nBytes)`. -/
def getMinRelayFeeOfSize (p : Params) (minRelayTxFee : Int) (nBytes : Nat) : Int :=
  let nMinFee := getFee minRelayTxFee nBytes
  if p.moneyRange nMinFee then nMinFee else p.nMaxMoneyOut

def getShieldedTxMinFee (p : Params) (minRelayTxFee : Int) (tx : CTransaction) : Int :=
  let nMinFee := toInt64 (getFee minRelayTxFee tx.getTotalSize * DEFAULT_SHIELDEDTXFEE_K)
  if p.moneyRange nMinFee then nMinFee else p.nMaxMoneyOut

/-- `GetMinRelayFee(tx, pool, nBytes)`; `nFeeDelta` is what `ApplyDelta` finds for the transaction. -/
def getMinRelayFee (p : Params) (minRelayTxFee nFeeDelta : Int) (tx : CTransaction) (nBytes : Nat) : Int :=
  if tx.isShieldedTx then getShieldedTxMinFee p minRelayTxFee tx
  else if nFeeDelta > 0 then 0
  else getMinRelayFeeOfSize p minRelayTxFee nBytes

/-! ## The fee rule -/

/-- The fee rule of `AcceptToMemoryPoolWorker` for a transaction whose inputs are in the view, with
    `nSize = entry.GetTxSize()`. -/
def acceptFeeRule (p : Params) (minRelayTxFee nFeeDelta : Int) (fLimitFree ignoreFees : Bool) (v : View)
    (tx : CTransaction) : Except Failure Unit := do
  let nValueIn ← throwing (v.getValueIn tx)
  let nValueOut ← throwing tx.getValueOut
  let nFees := toInt64 (nValueIn - nValueOut)
  let nSize := tx.getTotalSize
  if ignoreFees then return ()
  else do
    let txMinFee := getMinRelayFee p minRelayTxFee nFeeDelta tx nSize
    rejectIf (fLimitFree && decide (nFees < txMinFee))
      (.invalid 0 REJECT_INSUFFICIENTFEE "insufficient fee" false (toString nFees ++ " < " ++ toString txMinFee))
    rejectIf (fLimitFree && decide (nFees < getFee minRelayTxFee nSize))
      (dos 0 REJECT_INSUFFICIENTFEE "min relay fee not met")

section Fees

variable {p : Params} {rate : Int}

theorem getFee_zero (nSize : Nat) : getFee 0 nSize = 0 := by
  simp [getFee]

theorem getFee_ge (hrate : 0 < rate) {nSize : Nat} (hmax : rate * nSize < 18446744073709551616) :
    0 < getFee rate nSize ∧ rate * nSize ≤ 2000 * getFee rate nSize := by
  unfold getFee
  dsimp only
  split <;> omega

theorem getFee_le (hrate : 0 < rate) (nSize : Nat) :
    1000 * getFee rate nSize ≤ rate * nSize ∨ getFee rate nSize = rate := by
  have hnonneg : 0 ≤ rate * nSize := Int.mul_nonneg (by omega) (by omega)
  unfold getFee
  dsimp only
  split
  · exact .inr rfl
  · left
    omega

/-- **The fee rule** for a transaction with a fee in the range of a word. -/
theorem acceptFeeRule_iff {nFeeDelta nValueIn nValueOut : Int} {v : View} {tx : CTransaction}
    (hin : v.getValueIn tx = .ok nValueIn) (hout : tx.getValueOut = .ok nValueOut)
    (hfee : InInt64 (nValueIn - nValueOut)) :
    acceptFeeRule p rate nFeeDelta true false v tx = .ok () ↔
      getMinRelayFee p rate nFeeDelta tx tx.getTotalSize ≤ nValueIn - nValueOut ∧
        getFee rate tx.getTotalSize ≤ nValueIn - nValueOut := by
  unfold acceptFeeRule
  rw [hin, hout]
  simp only [throwing, ok_bind, toInt64_of_inInt64 hfee, Bool.false_eq_true, if_false, bind_eq_ok, rejectIf_eq_ok,
    exists_and_left, exists_const, Bool.true_and, decide_eq_false_iff_not, not_lt]

end Fees

/-! ## Entries -/

/-- The size, the modified fees and the signature operations of a transaction with ancestors of it. -/
structure PackageStats where
  nSizeWithAncestors : UInt64
  nModFeesWithAncestors : Int
  nSigOpCountWithAncestors : UInt32
  deriving DecidableEq

/-- `CTxMemPoolEntry`, with the statistics of the ancestors that the pool keeps up to date. -/
structure CTxMemPoolEntry where
  tx : CTransaction
  nFee : Int
  feeDelta : Int
  sigOpCount : UInt32
  nCountWithAncestors : UInt64
  withAncestors : PackageStats
  deriving DecidableEq

namespace CTxMemPoolEntry

def getTxSize (e : CTxMemPoolEntry) : Nat := e.tx.getTotalSize

def getModifiedFee (e : CTxMemPoolEntry) : Int := toInt64 (e.nFee + e.feeDelta)

def isShielded (e : CTxMemPoolEntry) : Bool := e.tx.isShieldedTx

end CTxMemPoolEntry

/-! ## The order of packages -/

def hashBytes (hash : Uint256) : List Nat := (List.range 32).map fun i => (hash >>> (8 * i)).toNat % 256

/-- `CompareIteratorByHash`, with `memcmp` on the bytes. -/
def compareIteratorByHash (a b : CTxMemPoolEntry) : Bool := decide (hashBytes a.tx.hash < hashBytes b.tx.hash)

/-- `CompareTxMemPoolEntryByAncestorFee` and `CompareModifiedEntry`: the products are those of doubles. -/
def compareByAncestorFee (a b : CTxMemPoolEntry × PackageStats) : Bool :=
  let f1 := crossProduct a.2.nModFeesWithAncestors b.2.nSizeWithAncestors.toNat
  let f2 := crossProduct b.2.nModFeesWithAncestors a.2.nSizeWithAncestors.toNat
  if f1 = f2 then compareIteratorByHash a.1 b.1 else decide (f1 > f2)

/-- The fee rate of a package is negative, or less than half of that of the other. -/
def PackageStats.WellBelow (a b : PackageStats) : Prop :=
  (a.nModFeesWithAncestors < 0 ∧ 0 ≤ b.nModFeesWithAncestors) ∨
    (0 < b.nModFeesWithAncestors ∧ 2 * (a.nModFeesWithAncestors * b.nSizeWithAncestors.toNat) ≤
      b.nModFeesWithAncestors * a.nSizeWithAncestors.toNat)

theorem crossProduct_le_of_compare {a b : CTxMemPoolEntry × PackageStats} (h : compareByAncestorFee a b = true) :
    crossProduct b.2.nModFeesWithAncestors a.2.nSizeWithAncestors.toNat ≤
      crossProduct a.2.nModFeesWithAncestors b.2.nSizeWithAncestors.toNat := by
  unfold compareByAncestorFee at h
  dsimp only at h
  split at h
  · rename_i heq
    exact heq.ge
  · exact (of_decide_eq_true h).le

theorem crossProduct_le_of_not_compare {a b : CTxMemPoolEntry × PackageStats} (h : compareByAncestorFee b a = false) :
    crossProduct b.2.nModFeesWithAncestors a.2.nSizeWithAncestors.toNat ≤
      crossProduct a.2.nModFeesWithAncestors b.2.nSizeWithAncestors.toNat := by
  unfold compareByAncestorFee at h
  dsimp only at h
  split at h
  · rename_i heq
    exact heq.le
  · exact not_lt.mp (of_decide_eq_false h)

theorem not_wellBelow {a b : PackageStats} (ha : 0 < a.nSizeWithAncestors.toNat) (hb : 0 < b.nSizeWithAncestors.toNat)
    (h : crossProduct b.nModFeesWithAncestors a.nSizeWithAncestors.toNat ≤
      crossProduct a.nModFeesWithAncestors b.nSizeWithAncestors.toNat) : ¬ a.WellBelow b := by
  rintro (⟨hneg, hnonneg⟩ | ⟨hpos, hhalf⟩)
  · have := quotient_le_of_crossProduct_le hb hnonneg h
    omega
  · have hle := quotient_le_of_crossProduct_le hb hpos.le h
    have hprod := Int.mul_pos hpos (show (0 : Int) < a.nSizeWithAncestors.toNat by omega)
    omega

theorem not_wellBelow_trans {a b c : PackageStats} (ha : 0 < a.nSizeWithAncestors.toNat)
    (hb : 0 < b.nSizeWithAncestors.toNat) (hc : 0 < c.nSizeWithAncestors.toNat)
    (hab : crossProduct b.nModFeesWithAncestors a.nSizeWithAncestors.toNat ≤
      crossProduct a.nModFeesWithAncestors b.nSizeWithAncestors.toNat)
    (hbc : crossProduct c.nModFeesWithAncestors b.nSizeWithAncestors.toNat ≤
      crossProduct b.nModFeesWithAncestors c.nSizeWithAncestors.toNat) : ¬ a.WellBelow c := by
  rintro (⟨hneg, hnonneg⟩ | ⟨hpos, hhalf⟩)
  · obtain ⟨hb0, -⟩ := quotient_le_of_crossProduct_le hc hnonneg hbc
    obtain ⟨ha0, -⟩ := quotient_le_of_crossProduct_le hb hb0 hab
    omega
  · obtain ⟨hb0, hle⟩ := quotient_le_of_crossProduct_le hc hpos.le hbc
    obtain ⟨ha0, hle'⟩ := quotient_le_of_crossProduct_le hb hb0 hab
    generalize a.nSizeWithAncestors.toNat = s at *
    generalize b.nSizeWithAncestors.toNat = t at *
    have hs : (0 : Int) < s := by omega
    have ht : (0 : Int) < t := by omega
    -- the two comparisons, multiplied to the common denominator
    have hprod := Int.mul_pos (Int.mul_pos hpos hs) ht
    nlinarith

/-- **Who pays a hundred times the fee outbids every package that does not pay for its size.** -/
theorem wellBelow_of_unpaid {rate : Int} (hrate : 0 ≤ rate) {a b : PackageStats}
    (ha : 60 ≤ a.nSizeWithAncestors.toNat) (hmax : rate * b.nSizeWithAncestors.toNat < 18446744073709551616)
    (hunpaid : a.nModFeesWithAncestors < getFee rate a.nSizeWithAncestors.toNat)
    (hpaid : 100 * getFee rate b.nSizeWithAncestors.toNat ≤ b.nModFeesWithAncestors) : a.WellBelow b := by
  rcases Int.lt_or_eq_of_le hrate with hpos | rfl
  · obtain ⟨hfee, hge⟩ := getFee_ge hpos hmax
    refine .inr ⟨by omega, ?_⟩
    have hle : 60 * a.nModFeesWithAncestors ≤ rate * a.nSizeWithAncestors.toNat := by
      rcases getFee_le hpos a.nSizeWithAncestors.toNat with hle | heq
      · have hnonneg : 0 ≤ rate * a.nSizeWithAncestors.toNat := Int.mul_nonneg hrate (by omega)
        omega
      · nlinarith
    generalize a.nModFeesWithAncestors = x at *
    rcases Int.le_total 0 x with hx | hx
    · nlinarith
    · nlinarith
  · rw [getFee_zero] at hunpaid hpaid
    exact .inl ⟨hunpaid, by omega⟩

/-! ## The pool -/

/-- `CTxMemPool`: the entries in the order of the index `ancestor_score`, and the ancestors that
    `CalculateMemPoolAncestors` finds for each in the order of a `setEntries`. -/
structure CTxMemPool where
  mapTx : List CTxMemPoolEntry
  ancestors : CTxMemPoolEntry → List CTxMemPoolEntry

namespace CTxMemPool

variable (pool : CTxMemPool)

/-- The entries `CalculateDescendants` finds, without the entry itself. -/
def descendants (e : CTxMemPoolEntry) : List CTxMemPoolEntry :=
  pool.mapTx.filter fun desc => decide (e ∈ pool.ancestors desc)

def family (e : CTxMemPoolEntry) : List CTxMemPoolEntry := e :: pool.ancestors e

/-- The pool is consistent: the index is sorted, the ancestors are a strict order, and the sizes and the signature
    operations are the sums over them. The fees may be those before a prioritisation. -/
structure Sound : Prop where
  nodup : pool.mapTx.Nodup
  sorted : pool.mapTx.Pairwise fun a b => compareByAncestorFee (b, b.withAncestors) (a, a.withAncestors) = false
  family_nodup : ∀ e ∈ pool.mapTx, (pool.family e).Nodup
  mem : ∀ e ∈ pool.mapTx, ∀ a ∈ pool.ancestors e, a ∈ pool.mapTx
  trans : ∀ e ∈ pool.mapTx, ∀ a ∈ pool.ancestors e, ∀ b ∈ pool.ancestors a, b ∈ pool.ancestors e
  size_ge : ∀ e ∈ pool.mapTx, 60 ≤ e.getTxSize
  size : ∀ e ∈ pool.mapTx, e.withAncestors.nSizeWithAncestors.toNat =
    ((pool.family e).map CTxMemPoolEntry.getTxSize).sum
  size_lt : ∀ e ∈ pool.mapTx, e.withAncestors.nSizeWithAncestors.toNat < 9223372036854775808
  sigOps : ∀ e ∈ pool.mapTx, e.withAncestors.nSigOpCountWithAncestors.toNat =
    ((pool.family e).map fun a => a.sigOpCount.toNat).sum
  sigOps_lt : ∀ e ∈ pool.mapTx, e.withAncestors.nSigOpCountWithAncestors.toNat < 2147483648

end CTxMemPool

end KrovaCoin
