import Mathlib

/-!
# Integers as doubles

Quotients of integers are often compared by cross products of doubles. The products are rounded, so that the comparison
is neither exact nor transitive, but it is right for quotients that are well apart.

Principal results: `quotient_le_of_crossProduct_le`, `roundRat_near`.
-/

namespace KrovaCoin.Lib

/-- The nearest number with a significand of 53 bits, ties to even. -/
def roundNat (n : Nat) : Nat :=
  let e := n.log2 - 52
  let q := n / 2 ^ e
  let r := n % 2 ^ e
  (if 2 * r > 2 ^ e ∨ 2 * r = 2 ^ e ∧ q % 2 = 1 then q + 1 else q) * 2 ^ e

/-- An integer converted to a double. -/
def roundDouble (x : Int) : Int := x.sign * roundNat x.natAbs

/-- The nearest double of a rational number above `2 ^ -2000`, ties to even; the exponent has no bounds. -/
def roundRat (x : ℚ) : ℚ :=
  let n := x.num.natAbs * 2 ^ 2100
  let e := (n / x.den).log2 - 52
  let q := n / (x.den * 2 ^ e)
  let r := n % (x.den * 2 ^ e)
  let m := if 2 * r > x.den * 2 ^ e ∨ 2 * r = x.den * 2 ^ e ∧ q % 2 = 1 then q + 1 else q
  mkRat (x.num.sign * (m * 2 ^ e)) (2 ^ 2100)

theorem roundNat_near (n : Nat) : 99 * n ≤ 100 * roundNat n ∧ 100 * roundNat n ≤ 101 * n := by
  unfold roundNat
  dsimp only
  by_cases hsmall : n.log2 ≤ 52
  · have he : n.log2 - 52 = 0 := by omega
    rw [he, Nat.pow_zero, Nat.div_one, Nat.mod_one, if_neg (by omega)]
    omega
  · have hn : n ≠ 0 := by
      rintro rfl
      simp at hsmall
    have hlog : 2 ^ 52 * 2 ^ (n.log2 - 52) ≤ n := by
      rw [← Nat.pow_add, show 52 + (n.log2 - 52) = n.log2 by omega]
      exact Nat.log2_self_le hn
    have hdiv := Nat.div_add_mod n (2 ^ (n.log2 - 52))
    have hmod := Nat.mod_lt n (Nat.two_pow_pos (n.log2 - 52))
    rw [Nat.mul_comm] at hdiv
    generalize 2 ^ (n.log2 - 52) = b at *
    have hup : (n / b + 1) * b = n / b * b + b := Nat.succ_mul _ _
    split <;> omega

theorem roundDouble_near {x : Int} (h : 0 ≤ x) : 99 * x ≤ 100 * roundDouble x ∧ 100 * roundDouble x ≤ 101 * x := by
  obtain ⟨n, rfl⟩ := Int.eq_ofNat_of_zero_le h
  have hnear := roundNat_near n
  have hround : roundDouble n = roundNat n := by
    unfold roundDouble
    rcases Nat.eq_zero_or_pos n with rfl | hn
    · rfl
    · rw [Int.sign_natCast_of_ne_zero (by omega), Int.natAbs_natCast, Int.one_mul]
  omega

theorem roundNat_of_le {n : Nat} (h : n ≤ 2 ^ 53) : roundNat n = n := by
  rcases h.eq_or_lt with rfl | hlt
  · decide
  · have hlog : n.log2 - 52 = 0 := by
      rcases Nat.eq_zero_or_pos n with rfl | hpos
      · decide
      · have := (Nat.log2_lt hpos.ne').2 hlt
        omega
    simp only [roundNat, hlog, Nat.pow_zero, Nat.div_one, Nat.mod_one, Nat.mul_one]
    rw [if_neg (by omega)]

theorem roundDouble_of_le {x : Int} (hx : 0 ≤ x) (h : x ≤ 2 ^ 53) : roundDouble x = x := by
  rw [roundDouble, roundNat_of_le (by omega), Int.sign_mul_natAbs]

theorem roundDouble_neg {x : Int} (h : x < 0) : roundDouble x < 0 := by
  have hnear := roundNat_near x.natAbs
  unfold roundDouble
  rw [Int.sign_eq_neg_one_of_neg h]
  omega

/-- The product by which two quotients `x / s` and `y / t` are compared, computed with doubles. -/
def crossProduct (x : Int) (t : Nat) : Int := roundDouble (roundDouble x * roundDouble t)

theorem crossProduct_near {x : Int} (h : 0 ≤ x) (t : Nat) :
    970299 * (x * t) ≤ 1000000 * crossProduct x t ∧ 1000000 * crossProduct x t ≤ 1030301 * (x * t) := by
  obtain ⟨hx, hx'⟩ := roundDouble_near h
  obtain ⟨ht, ht'⟩ := @roundDouble_near t (Int.natCast_nonneg t)
  have hx0 : 0 ≤ roundDouble x := by omega
  have ht0 : 0 ≤ roundDouble t := by omega
  obtain ⟨hp, hp'⟩ := roundDouble_near (Int.mul_nonneg hx0 ht0)
  unfold crossProduct
  constructor <;> nlinarith

theorem crossProduct_neg {x : Int} (h : x < 0) {t : Nat} (ht : 0 < t) : crossProduct x t < 0 := by
  have hnear := @roundDouble_near t (Int.natCast_nonneg t)
  exact roundDouble_neg (Int.mul_neg_of_neg_of_pos (roundDouble_neg h) (by omega))

/-- A quotient that is not smaller when compared with doubles is at least nine tenths of the other. -/
theorem quotient_le_of_crossProduct_le {x y : Int} {s t : Nat} (ht : 0 < t) (hy : 0 ≤ y)
    (h : crossProduct y s ≤ crossProduct x t) : 0 ≤ x ∧ 9 * (y * s) ≤ 10 * (x * t) := by
  have hys := crossProduct_near hy s
  have hx : 0 ≤ x := by
    by_contra hneg
    have := @crossProduct_neg x (by omega) t ht
    omega
  have hxt := crossProduct_near hx t
  exact ⟨hx, by omega⟩

/-! ## Rational numbers -/

/-- A quotient rounded to one of the two nearest integers: close if it is large, and off by one at most. -/
theorem round_quotient_near {n d m : Nat} (hd : 0 < d) (hm : m = n / d ∨ m = n / d + 1) :
    n ≤ m * d + d ∧ m * d ≤ n + d := by
  have hdiv := Nat.div_add_mod' n d
  have hmod := Nat.mod_lt n hd
  rcases hm with rfl | rfl
  · omega
  · have hup : (n / d + 1) * d = n / d * d + d := Nat.succ_mul _ _
    omega

theorem significand_large (n d : Nat) : (n / d).log2 - 52 = 0 ∨ 100 * (d * 2 ^ ((n / d).log2 - 52)) ≤ n := by
  rcases Nat.eq_zero_or_pos ((n / d).log2 - 52) with hzero | hpos
  · exact .inl hzero
  · right
    have hne : n / d ≠ 0 := by
      intro h
      rw [h] at hpos
      exact absurd hpos (by decide)
    calc 100 * (d * 2 ^ ((n / d).log2 - 52)) ≤ 2 ^ 52 * (d * 2 ^ ((n / d).log2 - 52)) :=
          Nat.mul_le_mul_right _ (by decide)
      _ = d * 2 ^ (n / d).log2 := by
          rw [Nat.mul_left_comm, ← Nat.pow_add]
          congr 2
          omega
      _ ≤ d * (n / d) := Nat.mul_le_mul_left _ (Nat.log2_self_le hne)
      _ ≤ n := Nat.mul_div_le n d

theorem exists_roundRat (x : ℚ) : ∃ k : Nat, roundRat x = mkRat (x.num.sign * k) (2 ^ 2100) ∧
    100 * (k * x.den) ≤ 101 * (x.num.natAbs * 2 ^ 2100) + 100 * x.den ∧
    99 * (x.num.natAbs * 2 ^ 2100) ≤ 100 * (k * x.den) + 100 * x.den := by
  unfold roundRat
  generalize (2 : Nat) ^ 2100 = unit
  dsimp only
  generalize hn : x.num.natAbs * unit = n
  have hden : 0 < x.den := x.den_pos
  have hlarge := significand_large n x.den
  generalize (n / x.den).log2 - 52 = e at hlarge
  have hpow : 0 < x.den * 2 ^ e := Nat.mul_pos hden (Nat.two_pow_pos e)
  generalize hm : (if 2 * (n % (x.den * 2 ^ e)) > x.den * 2 ^ e ∨
    2 * (n % (x.den * 2 ^ e)) = x.den * 2 ^ e ∧ n / (x.den * 2 ^ e) % 2 = 1
    then n / (x.den * 2 ^ e) + 1 else n / (x.den * 2 ^ e)) = m
  have hnear := @round_quotient_near n (x.den * 2 ^ e) m hpow (by rw [← hm]; split <;> simp)
  have hk : m * 2 ^ e * x.den = m * (x.den * 2 ^ e) := by rw [Nat.mul_assoc, Nat.mul_comm (2 ^ e)]
  refine ⟨m * 2 ^ e, by push_cast; rfl, ?_⟩
  rcases hlarge with rfl | hlarge
  · omega
  · omega

/-- The least positive number that `roundRat` returns. -/
def unitRat : ℚ := 1 / 2 ^ 2100

theorem roundRat_nonneg {x : ℚ} (hx : 0 ≤ x) : 0 ≤ roundRat x := by
  obtain ⟨k, hk, -⟩ := exists_roundRat x
  rw [hk]
  refine Rat.mkRat_nonneg ?_ _
  exact Int.mul_nonneg (Int.sign_nonneg_iff.mpr (Rat.num_nonneg.mpr hx)) (Int.natCast_nonneg k)

/-- The relative error of a double is below one percent, up to one unit of the last place. -/
theorem roundRat_near (x : ℚ) :
    100 * |roundRat x| ≤ 101 * |x| + 100 * unitRat ∧ 99 * |x| ≤ 100 * |roundRat x| + 100 * unitRat := by
  obtain ⟨k, hk, hhigh, hlow⟩ := exists_roundRat x
  have hunit : unitRat = 1 / ((2 ^ 2100 : Nat) : ℚ) := by rw [unitRat, Nat.cast_pow, Nat.cast_ofNat]
  rw [hk, hunit]
  have hpos : 0 < (2 : Nat) ^ 2100 := Nat.two_pow_pos 2100
  generalize (2 : Nat) ^ 2100 = unit at *
  have hden : (0 : ℚ) < x.den := Nat.cast_pos.mpr x.den_pos
  have hunit' : (0 : ℚ) < unit := Nat.cast_pos.mpr hpos
  have hx : |x| = x.num.natAbs / x.den := by
    conv_lhs => rw [← Rat.num_div_den x]
    rw [abs_div, Nat.abs_cast, Nat.cast_natAbs, Int.cast_abs]
  by_cases hzero : x.num = 0
  · have hx0 : x = 0 := Rat.num_eq_zero.mp hzero
    subst hx0
    simp
  · have hround : |mkRat (x.num.sign * k) unit| = k / unit := by
      rw [Rat.mkRat_eq_div, abs_div, Int.cast_mul, abs_mul, Int.cast_natCast, Nat.abs_cast, Nat.abs_cast,
        ← Int.cast_abs, Int.abs_sign_of_ne_zero hzero]
      simp
    have hhigh' : (100 * (k * x.den) : ℚ) ≤ 101 * (x.num.natAbs * unit) + 100 * x.den := by exact_mod_cast hhigh
    have hlow' : (99 * (x.num.natAbs * unit) : ℚ) ≤ 100 * (k * x.den) + 100 * x.den := by exact_mod_cast hlow
    rw [hround, hx]
    constructor
    · rw [← sub_nonneg]
      have heq : 101 * ((x.num.natAbs : ℚ) / x.den) + 100 * (1 / unit) - 100 * (k / unit) =
          (101 * (x.num.natAbs * unit) + 100 * x.den - 100 * (k * x.den)) / (x.den * unit) := by
        field_simp
      rw [heq]
      exact div_nonneg (sub_nonneg.mpr hhigh') (mul_pos hden hunit').le
    · rw [← sub_nonneg]
      have heq : 100 * ((k : ℚ) / unit) + 100 * (1 / unit) - 99 * ((x.num.natAbs : ℚ) / x.den) =
          (100 * (k * x.den) + 100 * x.den - 99 * (x.num.natAbs * unit)) / (x.den * unit) := by
        field_simp
      rw [heq]
      exact div_nonneg (sub_nonneg.mpr hlow') (mul_pos hden hunit').le

end KrovaCoin.Lib
