import KrovaCoin.Kernel
import KrovaCoin.Retarget

/-!
# The weight of a stake (`kernel.cpp`: `CheckKernelHash`)

The target of a kernel hash is the target of the block times one hundredth of the staked value, as a number of 256 bits.

Principal result: `stakeWeight_monotone_iff`.
-/

namespace KrovaCoin

/-- `bnTarget` of `CheckKernelHash`. -/
def weightedTarget (nBits : UInt32) (stakeValue : Int) : Uint256 :=
  (setCompact nBits).1 * BitVec.ofNat 256 ((stakeValue % 0x10000000000000000).toNat / 100)

/-- The kernel hash meets the weighted target. -/
def acceptsHash (nBits : UInt32) (stakeValue : Int) (hash : Uint256) : Bool :=
  decide (hash < weightedTarget nBits stakeValue)

theorem checkKernelHash_eq (c : Crypto) (stakeModifier : List UInt8) (stake : CPivStake) (nBits nTime : UInt32) :
    checkKernelHash c stakeModifier stake nBits nTime =
      acceptsHash nBits stake.outputFrom.nValue (kernelHash c stakeModifier stake nTime) := rfl

theorem toNat_weightedTarget (nBits : UInt32) {value : Int} (hvalue : 0 ≤ value ∧ value < 0x10000000000000000) :
    (weightedTarget nBits value).toNat = (setCompact nBits).1.toNat * (value.toNat / 100) % 2 ^ 256 := by
  have hmod : value % 0x10000000000000000 = value := Int.emod_eq_of_lt hvalue.1 hvalue.2
  have hweight : value.toNat / 100 % 2 ^ 256 = value.toNat / 100 := Nat.mod_eq_of_lt (by omega)
  rw [weightedTarget, hmod, BitVec.toNat_mul, BitVec.toNat_ofNat, hweight]

theorem mul_mod_lt_of_overflow {target weight bound : Nat} (hfits : target * weight < bound)
    (hover : bound ≤ target * (weight + 1)) (htarget : target < bound) :
    target * (weight + 1) % bound < target * weight := by
  have hnext : target * (weight + 1) = target * weight + target := Nat.mul_succ _ _
  rw [Nat.mod_eq_sub_mod hover, Nat.mod_eq_of_lt (by omega)]
  omega

theorem exists_last_weight {target weight bound : Nat} (hover : bound ≤ target * weight) (hbound : 0 < bound) :
    ∃ last < weight, target * last < bound ∧ bound ≤ target * (last + 1) := by
  induction weight with
  | zero => omega
  | succ weight ih =>
    by_cases hfits : target * weight < bound
    · exact ⟨weight, weight.lt_succ_self, hfits, hover⟩
    · obtain ⟨last, hlast, h⟩ := ih (not_lt.mp hfits)
      exact ⟨last, hlast.trans weight.lt_succ_self, h⟩

section Monotone

variable {nBits : UInt32} {V : Int}

theorem toNat_weightedTarget_of_fits (hV : V < 0x10000000000000000)
    (hfits : (setCompact nBits).1.toNat * (V.toNat / 100) < 2 ^ 256) {value : Int} (hvalue : 0 ≤ value ∧ value ≤ V) :
    (weightedTarget nBits value).toNat = (setCompact nBits).1.toNat * (value.toNat / 100) := by
  rw [toNat_weightedTarget nBits ⟨hvalue.1, by omega⟩]
  apply Nat.mod_eq_of_lt
  exact lt_of_le_of_lt (Nat.mul_le_mul_left _ (Nat.div_le_div_right (by omega))) hfits

/-- With an overflow, two values of which the larger one has the smaller target. -/
theorem exists_weightedTarget_lt (hV : 0 ≤ V ∧ V < 0x10000000000000000)
    (hover : 2 ^ 256 ≤ (setCompact nBits).1.toNat * (V.toNat / 100)) :
    ∃ v1 v2, 0 ≤ v1 ∧ v1 ≤ v2 ∧ v2 ≤ V ∧ (weightedTarget nBits v2).toNat < (weightedTarget nBits v1).toNat ∧
      2 ^ 256 ≤ (setCompact nBits).1.toNat * (v2.toNat / 100) := by
  obtain ⟨last, hlast, hfits, hnext⟩ := exists_last_weight hover (by decide)
  have htarget := (setCompact nBits).1.isLt
  have hdiv1 : ((100 * last : Nat) : Int).toNat / 100 = last := by omega
  have hdiv2 : ((100 * (last + 1) : Nat) : Int).toNat / 100 = last + 1 := by omega
  refine ⟨(100 * last : Nat), (100 * (last + 1) : Nat), by omega, by omega, by omega, ?_, by rw [hdiv2]; exact hnext⟩
  rw [toNat_weightedTarget nBits (by omega), toNat_weightedTarget nBits (by omega), hdiv1, hdiv2, Nat.mod_eq_of_lt hfits]
  exact mul_mod_lt_of_overflow hfits hnext htarget

end Monotone

/-- **The weight of a stake is monotone up to the first overflow.** `CheckKernelHash` compares the hash with the
    weighted target; for values up to `V`, a larger value accepts all hashes of a smaller one if and only if the product
    for `V` has 256 bits, and this is also when the weighted target is the product, cut off at the largest number. -/
theorem stakeWeight_monotone_iff (nBits : UInt32) {V : Int} (hV : 0 ≤ V ∧ V ≤ mainParams.nMaxMoneyOut) :
    (∀ (c : Crypto) (stakeModifier : List UInt8) (stake : CPivStake) (nTime : UInt32),
      checkKernelHash c stakeModifier stake nBits nTime =
        acceptsHash nBits stake.outputFrom.nValue (kernelHash c stakeModifier stake nTime)) ∧
    ((∀ (hash : Uint256) (v1 v2 : Int), 0 ≤ v1 → v1 ≤ v2 → v2 ≤ V →
        acceptsHash nBits v1 hash = true → acceptsHash nBits v2 hash = true) ↔
      (setCompact nBits).1.toNat * (V.toNat / 100) < 2 ^ 256) ∧
    ((∀ value, 0 ≤ value → value ≤ V → (weightedTarget nBits value).toNat =
        min ((setCompact nBits).1.toNat * (value.toNat / 100)) (2 ^ 256 - 1)) ↔
      (setCompact nBits).1.toNat * (V.toNat / 100) < 2 ^ 256) := by
  rw [mainParams_nMaxMoneyOut] at hV
  have hsmall : V < 0x10000000000000000 := by omega
  refine ⟨fun c m stake nTime => checkKernelHash_eq c m stake nBits nTime, ⟨fun hmono => ?_, fun hfits => ?_⟩,
    ⟨fun hcapped => ?_, fun hfits => ?_⟩⟩
  · by_contra hover
    obtain ⟨v1, v2, h1, h12, h2, hlt, -⟩ := exists_weightedTarget_lt ⟨hV.1, hsmall⟩ (not_lt.mp hover)
    -- the smaller target itself is a hash that the smaller value accepts
    have haccepts := hmono (weightedTarget nBits v2) v1 v2 h1 h12 h2 (decide_eq_true (BitVec.lt_def.mpr hlt))
    exact absurd (BitVec.lt_def.mp (of_decide_eq_true haccepts)) (lt_irrefl _)
  · intro hash v1 v2 h1 h12 h2 haccepts
    refine decide_eq_true (BitVec.lt_def.mpr ?_)
    have hlt := BitVec.lt_def.mp (of_decide_eq_true haccepts)
    rw [toNat_weightedTarget_of_fits hsmall hfits (by omega)] at hlt ⊢
    exact lt_of_lt_of_le hlt (Nat.mul_le_mul_left _ (Nat.div_le_div_right (by omega)))
  · by_contra hover
    obtain ⟨v1, v2, h1, h12, h2, hlt, hnext⟩ := exists_weightedTarget_lt ⟨hV.1, hsmall⟩ (not_lt.mp hover)
    have hcap := hcapped v2 (by omega) h2
    omega
  · intro value h0 hle
    rw [toNat_weightedTarget_of_fits hsmall hfits ⟨h0, hle⟩]
    have hproduct : (setCompact nBits).1.toNat * (value.toNat / 100) ≤ (setCompact nBits).1.toNat * (V.toNat / 100) :=
      Nat.mul_le_mul_left _ (Nat.div_le_div_right (by omega))
    omega

theorem stakeWeight_monotone_200 : 7200000000000000000 ≤ mainParams.nMaxMoneyOut ∧
    ∀ (hash : Uint256) (v1 v2 : Int), 0 ≤ v1 → v1 ≤ v2 → v2 ≤ 7200000000000000000 →
      acceptsHash 0x1900ffff v1 hash = true → acceptsHash 0x1900ffff v2 hash = true :=
  ⟨by decide, ((stakeWeight_monotone_iff 0x1900ffff (V := 7200000000000000000) (by decide)).2.1).mpr (by decide)⟩

/-- With the target of a steady chain, a value of `100 * 2 ^ 40` has the weighted target 0 and accepts no hash, while the
    value 100 accepts the hash 0. -/
theorem stakeWeight_overflows : getNextWorkRequired mainParams (steadyChain 700) = 0x1e0fffff ∧
      mainParams.networkUpgradeActive (steadyChain 700).length .UPGRADE_POS = true ∧
      109951162777600 ≤ mainParams.nMaxMoneyOut ∧
      acceptsHash 0x1e0fffff 100 0 = true ∧ acceptsHash 0x1e0fffff 109951162777600 0 = false := by
  refine ⟨by decide +kernel, ?_, by decide, by decide, by decide⟩
  rw [length_steadyChain]
  decide

end KrovaCoin
