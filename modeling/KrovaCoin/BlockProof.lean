import KrovaCoin.Retarget

/-!
# The work of a block (`pow.cpp`: `GetBlockProof`, `arith_uint256.cpp`: division)

* `getBlockProof` — `GetBlockProof`.

Principal result: `getBlockProof_exact`.
-/

namespace KrovaCoin

open Lib

/-- `while (shift >= 0)` of the division, for the remaining `shift + 1` iterations. -/
def divideLoop : Nat → Uint256 → Uint256 → Uint256 → Uint256
  | 0, _, _, quotient => quotient
  | shift + 1, num, div, quotient =>
    if num ≥ div then divideLoop shift (num - div) (div >>> 1) (quotient ||| (1 : Uint256) <<< shift)
    else divideLoop shift num (div >>> 1) quotient

/-- `base_uint::operator/=`; the error is the text of the exception. -/
def divide (num div : Uint256) : Except String Uint256 :=
  if bits div = 0 then .error "Division by zero"
  else if bits div > bits num then .ok 0
  else .ok (divideLoop (bits num - bits div + 1) num (div <<< (bits num - bits div)) 0)

def getBlockProof (nBits : UInt32) : Except String Uint256 :=
  let (bnTarget, fNegative, fOverflow) := setCompact nBits
  if fNegative || fOverflow || bnTarget == 0 then .ok 0
  else do
    let quotient ← divide (~~~bnTarget) (bnTarget + 1)
    return quotient + 1

/-! ## Division -/

theorem toNat_or_shiftLeft {q : Uint256} {n : Nat} (hq : q.toNat % 2 ^ (n + 1) = 0) (hn : n < 256) :
    (q ||| (1 : Uint256) <<< n).toNat = q.toNat + 2 ^ n := by
  have hone : ((1 : Uint256) <<< n).toNat = 2 ^ n := by
    have hlt : 2 ^ n < 2 ^ 256 := Nat.pow_lt_pow_right (by decide) hn
    rw [BitVec.toNat_shiftLeft, Nat.shiftLeft_eq]
    simpa using Nat.mod_eq_of_lt hlt
  have hmul : q.toNat = 2 ^ (n + 1) * (q.toNat / 2 ^ (n + 1)) := by
    have := Nat.div_add_mod q.toNat (2 ^ (n + 1))
    omega
  rw [BitVec.toNat_or, hone, hmul, Nat.two_pow_add_eq_or_of_lt (Nat.pow_lt_pow_right (by decide) n.lt_succ_self)]

/-- The divisor is shifted by the number of iterations left, and the remainder is below the next multiple of it. -/
theorem divideLoop_toNat {a b : Nat} (hb : 0 < b) (ha : a < 2 ^ 256) : ∀ (n : Nat) {num div q : Uint256},
    (0 < n → div.toNat = b * 2 ^ (n - 1)) → num.toNat < b * 2 ^ n → q.toNat % 2 ^ n = 0 →
    q.toNat * b + num.toNat = a → (divideLoop n num div q).toNat = a / b
  | 0, num, div, q, _, hnum, _, htotal => by
    rw [divideLoop, ← htotal, Nat.mul_comm, Nat.mul_add_div hb, Nat.div_eq_of_lt (by simpa using hnum), Nat.add_zero]
  | n + 1, num, div, q, hdiv, hnum, hq, htotal => by
    have hdiv : div.toNat = b * 2 ^ n := hdiv n.succ_pos
    have hpow : 2 ^ (n + 1) = 2 * 2 ^ n := by rw [Nat.pow_succ, Nat.mul_comm]
    have hnext : 0 < n → (div >>> 1).toNat = b * 2 ^ (n - 1) := fun hn => by
      obtain ⟨m, rfl⟩ : ∃ m, n = m + 1 := ⟨n - 1, by omega⟩
      rw [BitVec.toNat_ushiftRight, Nat.shiftRight_eq_div_pow, hdiv, Nat.pow_succ, ← Nat.mul_assoc]
      exact Nat.mul_div_cancel _ (by decide)
    have hmod : q.toNat % 2 ^ n = 0 := Nat.mod_eq_zero_of_dvd
      ((Nat.pow_dvd_pow 2 n.le_succ).trans (Nat.dvd_of_mod_eq_zero hq))
    have hdouble : b * 2 ^ (n + 1) = b * 2 ^ n + b * 2 ^ n := by rw [hpow, Nat.mul_left_comm, Nat.two_mul]
    rw [divideLoop]
    split
    · rename_i hge
      have hge : div.toNat ≤ num.toNat := hge
      have hn : n < 256 := by
        have hle : 2 ^ n ≤ b * 2 ^ n := Nat.le_mul_of_pos_left _ hb
        exact (Nat.pow_lt_pow_iff_right (by decide)).mp (show 2 ^ n < 2 ^ 256 by omega)
      have hsub : (num - div).toNat = num.toNat - b * 2 ^ n := by rw [BitVec.toNat_sub_of_le hge, hdiv]
      refine divideLoop_toNat hb ha n hnext (by omega) ?_ ?_
      · rw [toNat_or_shiftLeft hq hn, Nat.add_mod_right]
        exact hmod
      · rw [toNat_or_shiftLeft hq hn, hsub, Nat.add_mul, Nat.mul_comm (2 ^ n)]
        omega
    · rename_i hlt
      have hlt : ¬ div.toNat ≤ num.toNat := hlt
      exact divideLoop_toNat hb ha n hnext (by omega) hmod htotal

theorem bits_bounds {x : Uint256} (hx : x ≠ 0) : 0 < bits x ∧ 2 ^ (bits x - 1) ≤ x.toNat ∧ x.toNat < 2 ^ bits x := by
  have hne : x.toNat ≠ 0 := fun h => hx (BitVec.eq_of_toNat_eq h)
  rw [bits, if_neg hx]
  exact ⟨Nat.succ_pos _, Nat.log2_self_le hne, Nat.lt_log2_self⟩

/-- **Division by shifting and subtracting** gives the quotient. -/
theorem divide_eq (num : Uint256) {div : Uint256} (hdiv : div ≠ 0) :
    ∃ quotient, divide num div = .ok quotient ∧ quotient.toNat = num.toNat / div.toNat := by
  obtain ⟨hpos, hlow, hhigh⟩ := bits_bounds hdiv
  have hnum : num.toNat < 2 ^ bits num := by
    by_cases h : num = 0
    · simp [h]
    · exact (bits_bounds h).2.2
  have hbits : bits num ≤ 256 := by
    by_cases h : num = 0
    · simp [bits, h]
    · have := (bits_bounds h).2.1
      have hlt := (Nat.pow_lt_pow_iff_right (by decide)).mp (lt_of_le_of_lt this num.isLt)
      omega
  rw [divide, if_neg (by omega)]
  split
  · refine ⟨0, rfl, (Nat.div_eq_of_lt ?_).symm⟩
    calc num.toNat < 2 ^ bits num := hnum
      _ ≤ 2 ^ (bits div - 1) := Nat.pow_le_pow_right (by decide) (by omega)
      _ ≤ div.toNat := hlow
  · refine ⟨_, rfl, divideLoop_toNat (lt_of_lt_of_le (Nat.two_pow_pos _) hlow) num.isLt _ (fun _ => ?_) ?_ (by simp) (by simp)⟩
    · rw [BitVec.toNat_shiftLeft, Nat.shiftLeft_eq, Nat.add_sub_cancel]
      apply Nat.mod_eq_of_lt
      calc div.toNat * 2 ^ (bits num - bits div) < 2 ^ bits div * 2 ^ (bits num - bits div) :=
            Nat.mul_lt_mul_of_pos_right hhigh (Nat.two_pow_pos _)
        _ = 2 ^ bits num := by rw [← Nat.pow_add]; congr 1; omega
        _ ≤ 2 ^ 256 := Nat.pow_le_pow_right (by decide) hbits
    · calc num.toNat < 2 ^ bits num := hnum
        _ = 2 ^ (bits div - 1) * 2 ^ (bits num - bits div + 1) := by rw [← Nat.pow_add]; congr 1; omega
        _ ≤ div.toNat * 2 ^ (bits num - bits div + 1) := Nat.mul_le_mul_right _ hlow

/-! ## Compact targets -/

theorem succ_lt_of_dvd {d x b : Nat} (hd : d ≠ 1) (hx : d ∣ x) (hb : d ∣ b) (h : x < b) : x + 1 < b := by
  refine lt_of_le_of_ne h fun heq => hd ?_
  exact Nat.dvd_one.1 ((Nat.dvd_add_right hx).1 (heq ▸ hb))

theorem compactMagnitude_succ_lt {nBits : UInt32} (h : compactMagnitude nBits < 2 ^ 256) :
    compactMagnitude nBits + 1 < 2 ^ 256 := by
  have hm : nBits.toNat % 0x800000 < 0x800000 := Nat.mod_lt _ (by decide)
  unfold compactMagnitude compactValue at *
  generalize nBits.toNat % 0x800000 = m at *
  split
  · have := Nat.div_le_self m (256 ^ (3 - nBits.toNat / 0x1000000))
    omega
  · rename_i hn
    rw [if_neg hn] at h
    obtain ⟨k, hk⟩ : ∃ k, nBits.toNat / 0x1000000 - 3 = k + 1 := ⟨nBits.toNat / 0x1000000 - 4, by omega⟩
    rw [hk, Nat.pow_succ, ← Nat.mul_assoc] at h ⊢
    exact succ_lt_of_dvd (by decide) (Nat.dvd_mul_left _ _) (Dvd.intro (2 ^ 248) (by norm_num)) h

def workOf (target : Int) : Nat := if 0 < target ∧ target < 2 ^ 256 then 2 ^ 256 / (target.toNat + 1) else 0

theorem getBlockProof_eq (nBits : UInt32) :
    ∃ proof, getBlockProof nBits = .ok proof ∧ proof.toNat = workOf (compactNumber nBits) := by
  obtain ⟨hneg, hover, hexact⟩ := setCompact_eq nBits
  have hnumber : compactNumber nBits = compactMagnitude nBits ∨ compactNumber nBits = -compactMagnitude nBits := by
    unfold compactNumber
    split <;> simp
  unfold getBlockProof workOf
  generalize hcompact : setCompact nBits = r at *
  obtain ⟨target, fNegative, fOverflow⟩ := r
  dsimp only at *
  split
  · rename_i hbad
    refine ⟨0, rfl, (if_neg fun hgood => ?_).symm⟩
    rw [Bool.or_eq_true, Bool.or_eq_true, hneg, hover, beq_iff_eq] at hbad
    rcases hbad with (hbad | hbad) | hbad
    · omega
    · omega
    · have hzero : BitVec.toNat target = 0 := by rw [hbad]; rfl
      omega
  · rename_i hgood
    rw [Bool.or_eq_true, Bool.or_eq_true, hneg, hover, beq_iff_eq, not_or, not_or] at hgood
    obtain ⟨⟨hsign, hfits⟩, hzero⟩ := hgood
    have htarget := hexact (by omega)
    have hsucc := @compactMagnitude_succ_lt nBits (by omega)
    have hadd : (target + 1).toNat = target.toNat + 1 := by
      rw [BitVec.toNat_add, htarget]
      exact Nat.mod_eq_of_lt hsucc
    have hpos : target.toNat ≠ 0 := fun h => hzero (BitVec.eq_of_toNat_eq h)
    obtain ⟨quotient, hdiv, hquotient⟩ := divide_eq (~~~target)
      (show target + 1 ≠ 0 from fun h => absurd hadd (by rw [h]; exact (Nat.succ_ne_zero _).symm))
    have hwork : 2 ^ 256 / (target.toNat + 1) = quotient.toNat + 1 := by
      rw [hquotient, hadd, BitVec.toNat_not, Nat.div_eq_sub_div (by omega) (by omega)]
      congr 2
      omega
    refine ⟨quotient + 1, by rw [hdiv]; rfl, ?_⟩
    have hhalf : 2 ^ 256 / (target.toNat + 1) ≤ 2 ^ 256 / 2 := Nat.div_le_div_left (by omega) (by omega)
    rw [if_pos (by omega), show (compactNumber nBits).toNat = target.toNat by omega, hwork, BitVec.toNat_add]
    have hone : BitVec.toNat (1 : Uint256) = 1 := rfl
    exact Nat.mod_eq_of_lt (by omega)

/-- **The work is exact**, without the number `2 ^ 256`: it is that of the target if it is positive and has at most 256
    bits, and 0 for all other targets. So a smaller target never has less work. -/
theorem getBlockProof_exact :
    (∀ nBits, ∃ proof, getBlockProof nBits = .ok proof ∧ proof.toNat = workOf (compactNumber nBits)) ∧
      ∀ nBits nBits' proof proof', getBlockProof nBits = .ok proof → getBlockProof nBits' = .ok proof' →
        0 < compactNumber nBits → compactNumber nBits ≤ compactNumber nBits' → proof' ≤ proof := by
  refine ⟨getBlockProof_eq, fun nBits nBits' proof proof' hok hok' hpos hle => ?_⟩
  obtain ⟨_, h, hwork⟩ := getBlockProof_eq nBits
  cases hok.symm.trans h
  obtain ⟨_, h', hwork'⟩ := getBlockProof_eq nBits'
  cases hok'.symm.trans h'
  rw [BitVec.le_def, hwork, hwork']
  unfold workOf
  split
  · rename_i hrange
    rw [if_pos ⟨hpos, lt_of_le_of_lt hle hrange.2⟩]
    exact Nat.div_le_div_left (by omega) (by omega)
  · exact Nat.zero_le _

end KrovaCoin
