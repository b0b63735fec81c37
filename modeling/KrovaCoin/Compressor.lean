import KrovaCoin.Consensus.Params

/-!
# Amount compression (`compressor.cpp`)

Every coin of the UTXO set and every undo record stores its amount as `CompressAmount(nValue)`. Both functions compute
in `uint64_t`, so they are modelled on `UInt64`, whose arithmetic wraps.

* `compressAmount` / `decompressAmount` — the codec.

Principal results: `decompressAmount_of_fits` — the codec is lossless wherever the unbounded code fits in 64 bits.
`amount_codec_lossless_iff` — where that is on the money range.
-/

namespace KrovaCoin.Compressor

/-- `while (((n % 10) == 0) && e < 9) { n /= 10; e++; }`; the first argument is `9 - e`, the
    second component of the result is the number of iterations. -/
def stripZeros : Nat → UInt64 → UInt64 × Nat
  | 0, n => (n, 0)
  | k + 1, n => if n % 10 = 0 then ((stripZeros k (n / 10)).1, (stripZeros k (n / 10)).2 + 1) else (n, 0)

def compressAmount (n : UInt64) : UInt64 :=
  if n = 0 then 0
  else
    let n' := (stripZeros 9 n).1
    let e := (stripZeros 9 n).2
    if e < 9 then
      let d := n' % 10
      1 + (n' / 10 * 9 + d - 1) * 10 + UInt64.ofNat e
    else 1 + (n' - 1) * 10 + 9

/-- `while (e) { n *= 10; e--; }`. -/
def scaleUp : Nat → UInt64 → UInt64
  | 0, n => n
  | e + 1, n => scaleUp e (n * 10)

def decompressAmount (x : UInt64) : UInt64 :=
  if x = 0 then 0
  else
    let x := x - 1
    let e := (x % 10).toNat
    let x := x / 10
    let n := if e < 9 then x / 9 * 10 + (x % 9 + 1) else x + 1
    scaleUp e n

/-! ## The loops -/

theorem toNat_mod_ten (n : UInt64) : (n % 10).toNat = n.toNat % 10 := by
  simp

theorem toNat_div_ten (n : UInt64) : (n / 10).toNat = n.toNat / 10 := by
  simp

theorem mod_ten_eq_zero_iff (n : UInt64) : n % 10 = 0 ↔ n.toNat % 10 = 0 := by
  rw [← toNat_mod_ten, ← UInt64.toNat_inj]
  rfl

theorem stripZeros_spec : ∀ (k : Nat) (n : UInt64),
    (stripZeros k n).1.toNat * 10 ^ (stripZeros k n).2 = n.toNat ∧ (stripZeros k n).2 ≤ k ∧
      ((stripZeros k n).2 < k → (stripZeros k n).1.toNat % 10 ≠ 0)
  | 0, n => by simp [stripZeros]
  | k + 1, n => by
    obtain ⟨hval, hle, hstop⟩ := stripZeros_spec k (n / 10)
    by_cases h : n % 10 = 0
    · simp only [stripZeros, if_pos h]
      refine ⟨?_, by omega, fun hlt => hstop (by omega)⟩
      have h10 := (mod_ten_eq_zero_iff n).mp h
      rw [pow_succ, ← Nat.mul_assoc, hval, toNat_div_ten]
      omega
    · simp only [stripZeros, if_neg h]
      exact ⟨by simp, by omega, fun _ => mt (mod_ten_eq_zero_iff n).mpr h⟩

variable {n : UInt64}

theorem stripZeros_pos {k : Nat} (h : n.toNat ≠ 0) : (stripZeros k n).1.toNat ≠ 0 := by
  intro h0
  have hval := (stripZeros_spec k n).1
  rw [h0, Nat.zero_mul] at hval
  exact h hval.symm

theorem scaleUp_toNat : ∀ (e : Nat) (n : UInt64), (scaleUp e n).toNat = n.toNat * 10 ^ e % 18446744073709551616
  | 0, n => by
    have := n.toNat_lt
    simp only [scaleUp, pow_zero, Nat.mul_one]
    omega
  | e + 1, n => by
    have hmul : (n * 10).toNat = n.toNat * 10 % 18446744073709551616 := by simp
    rw [scaleUp, scaleUp_toNat e (n * 10), hmul, Nat.mod_mul_mod, Nat.pow_succ', Nat.mul_assoc]

/-! ## The unbounded code -/

/-- The code of `m * 10 ^ e` without the 64-bit limit. -/
def amountCode (m e : Nat) : Nat :=
  if e < 9 then 1 + (m / 10 * 9 + m % 10 - 1) * 10 + e else 1 + (m - 1) * 10 + 9

theorem compressAmount_toNat (h : n.toNat ≠ 0) : (compressAmount n).toNat =
      amountCode (stripZeros 9 n).1.toNat (stripZeros 9 n).2 % 18446744073709551616 := by
  have hn : n ≠ 0 := fun h0 => h (by rw [h0]; rfl)
  obtain ⟨-, he, hstop⟩ := stripZeros_spec 9 n
  have hm := stripZeros_pos (k := 9) h
  unfold compressAmount amountCode
  rw [if_neg hn]
  generalize (stripZeros 9 n).1 = m at *
  generalize (stripZeros 9 n).2 = e at *
  have hml := m.toNat_lt
  by_cases hlt : e < 9
  · have hd := hstop hlt
    simp only [if_pos hlt, UInt64.toNat_add, UInt64.toNat_mul, UInt64.toNat_sub, UInt64.toNat_div,
      UInt64.toNat_mod, UInt64.toNat_ofNat', UInt64.reduceToNat]
    omega
  · simp only [if_neg hlt, UInt64.toNat_add, UInt64.toNat_mul, UInt64.toNat_sub,
      UInt64.reduceToNat]
    omega

theorem decompressAmount_toNat {x : UInt64} (h : x.toNat ≠ 0) : (decompressAmount x).toNat =
      (if (x.toNat - 1) % 10 < 9 then (x.toNat - 1) / 10 / 9 * 10 + ((x.toNat - 1) / 10 % 9 + 1)
        else (x.toNat - 1) / 10 + 1) * 10 ^ ((x.toNat - 1) % 10) % 18446744073709551616 := by
  have hx : x ≠ 0 := fun h0 => h (by rw [h0]; rfl)
  have hlt := x.toNat_lt
  have hpred : (x - 1).toNat = x.toNat - 1 := by
    simp only [UInt64.toNat_sub, UInt64.reduceToNat]
    omega
  unfold decompressAmount
  rw [if_neg hx]
  simp only [scaleUp_toNat, UInt64.toNat_mod, hpred, UInt64.reduceToNat]
  congr 2
  split
  · simp only [UInt64.toNat_add, UInt64.toNat_mul, UInt64.toNat_div, UInt64.toNat_mod, hpred,
      UInt64.reduceToNat]
    omega
  · simp only [UInt64.toNat_add, UInt64.toNat_div, hpred, UInt64.reduceToNat]
    omega

/-! ## Losslessness -/

theorem decompressAmount_of_fits (h : n.toNat ≠ 0)
    (hfit : amountCode (stripZeros 9 n).1.toNat (stripZeros 9 n).2 < 18446744073709551616) :
    decompressAmount (compressAmount n) = n := by
  have hcode := compressAmount_toNat h
  rw [Nat.mod_eq_of_lt hfit] at hcode
  obtain ⟨hval, he, hstop⟩ := stripZeros_spec 9 n
  have hm := stripZeros_pos (k := 9) h
  have hlt := n.toNat_lt
  rw [← UInt64.toNat_inj, decompressAmount_toNat (by rw [hcode]; unfold amountCode; split <;> omega),
    hcode]
  generalize (stripZeros 9 n).1.toNat = m at *
  generalize (stripZeros 9 n).2 = e at *
  by_cases hlt9 : e < 9
  · have hd := hstop hlt9
    have hmod : (amountCode m e - 1) % 10 = e := by
      unfold amountCode; rw [if_pos hlt9]; omega
    have hdiv : (amountCode m e - 1) / 10 = m / 10 * 9 + (m % 10 - 1) := by
      unfold amountCode; rw [if_pos hlt9]; omega
    have hback : (m / 10 * 9 + (m % 10 - 1)) / 9 * 10 + ((m / 10 * 9 + (m % 10 - 1)) % 9 + 1) = m := by
      omega
    rw [hmod, hdiv, if_pos hlt9, hback, hval, Nat.mod_eq_of_lt hlt]
  · obtain rfl : e = 9 := by omega
    have hmod : (amountCode m 9 - 1) % 10 = 9 := by
      simp only [amountCode, if_neg hlt9]; omega
    have hdiv : (amountCode m 9 - 1) / 10 + 1 = m := by
      simp only [amountCode, if_neg hlt9]; omega
    rw [hmod, hdiv, if_neg hlt9, hval, Nat.mod_eq_of_lt hlt]

theorem amountCode_fits_of_mod_ten (h10 : n.toNat % 10 = 0) (hmax : n.toNat ≤ 7200000000000000000) :
    amountCode (stripZeros 9 n).1.toNat (stripZeros 9 n).2 < 18446744073709551616 := by
  obtain ⟨hval, he, hstop⟩ := stripZeros_spec 9 n
  have hpos : (stripZeros 9 n).2 ≠ 0 := by
    intro h0
    rw [h0, pow_zero, Nat.mul_one] at hval
    exact hstop (by omega) (by omega)
  generalize (stripZeros 9 n).1.toNat = m at *
  generalize (stripZeros 9 n).2 = e at *
  have h10e : 10 ≤ 10 ^ e := by
    calc 10 = 10 ^ 1 := by norm_num
      _ ≤ 10 ^ e := Nat.pow_le_pow_right (by omega) (by omega)
  have hm : m * 10 ≤ n.toNat := by
    rw [← hval]; exact Nat.mul_le_mul_left m h10e
  unfold amountCode
  split <;> omega

theorem stripZeros_of_mod_ten_ne (h10 : n.toNat % 10 ≠ 0) : stripZeros 9 n = (n, 0) := by
  rw [stripZeros, if_neg (mt (mod_ten_eq_zero_iff n).mp h10)]

theorem amountCode_of_mod_ten_ne (h10 : n.toNat % 10 ≠ 0) : amountCode (stripZeros 9 n).1.toNat (stripZeros 9 n).2 =
      1 + (n.toNat / 10 * 9 + n.toNat % 10 - 1) * 10 := by
  rw [stripZeros_of_mod_ten_ne h10]
  simp [amountCode]

theorem eq_of_scaled {n q D T W I m j : Int} (hI : I * (T - 1) = 1 + W * m) (hn : n = q + D) (hq : q * T = n + W * j) :
    n = (I + 1) * D + W * (I * j - m * q) := by
  linear_combination (I + 1) * hn + I * hq - q * hI

/-- A product whose residue would have to be one of two excluded values is not that residue. -/
theorem mod_scaled_ne {n q D E T I m : Nat} (hI : I * (T - 1) = 1 + 18446744073709551616 * m) (hT : 1 ≤ T)
    (hn : n = q + D ∨ n = q + E) (hmax : n ≤ 7200000000000000000)
    (h1 : 7200000000000000000 < (I + 1) * D % 18446744073709551616 ∨ (I + 1) * D % 18446744073709551616 < D)
    (h2 : 7200000000000000000 < (I + 1) * E % 18446744073709551616 ∨ (I + 1) * E % 18446744073709551616 < E) :
    q * T % 18446744073709551616 ≠ n := by
  intro h
  have hq : q * T = n + 18446744073709551616 * (q * T / 18446744073709551616) := by omega
  have hI' : (I : Int) * ((T : Int) - 1) = 1 + 18446744073709551616 * (m : Int) := by
    have := congrArg (Nat.cast : Nat → Int) hI
    push_cast [hT] at this
    exact this
  have key : ∀ F : Nat, n = q + F → n = (I + 1) * F % 18446744073709551616 := by
    intro F hF
    have hn' : (n : Int) = q + F := by exact_mod_cast hF
    have hq' : (q : Int) * T = n + 18446744073709551616 * (q * T / 18446744073709551616 : Nat) := by
      exact_mod_cast hq
    have hmod := eq_of_scaled hI' hn' hq'
    have hcast : (((I + 1) * F : Nat) : Int) = ((I : Int) + 1) * F := by push_cast; rfl
    omega
  rcases hn with hD | hD
  · have := key D hD
    omega
  · have := key E hD
    omega

/-- The arithmetic of an overflow: the code of `10 a + d` wrapped `k` times has a nonzero exponent
    digit, and scaling by it never gives `10 a + d` back. -/
theorem wrapped_code_ne {a d k x : Nat} (hd : 1 ≤ d) (hd9 : d ≤ 9) (hmax : 10 * a + d ≤ 7200000000000000000)
    (hk : 1 ≤ k) (hk3 : k ≤ 3) (hx : x + 18446744073709551616 * k = (9 * a + d - 1) * 10) :
    (if x % 10 < 9 then x / 10 / 9 * 10 + (x / 10 % 9 + 1) else x / 10 + 1) * 10 ^ (x % 10) %
      18446744073709551616 ≠ 10 * a + d := by
  obtain rfl | rfl | rfl : k = 1 ∨ k = 2 ∨ k = 3 := by omega
  · have he : x % 10 = 4 := by omega
    rw [he, if_pos (by omega)]
    refine mod_scaled_ne (D := 2049638230412172402) (E := 2049638230412172403)
      (I := 13458245626333751279) (m := 7295) (by norm_num) (by norm_num) ?_ hmax
      (by norm_num) (by norm_num)
    have hy : x / 10 + 1844674407370955162 + 1 = 9 * a + d := by omega
    omega
  · have he : x % 10 = 8 := by omega
    rw [he, if_pos (by omega)]
    refine mod_scaled_ne (D := 4099276460824344804) (E := 4099276460824344805)
      (I := 300153063250403071) (m := 1627133) (by norm_num) (by norm_num) ?_ hmax
      (by norm_num) (by norm_num)
    have hy : x / 10 + 3689348814741910324 + 1 = 9 * a + d := by omega
    omega
  · have he : x % 10 = 2 := by omega
    rw [he, if_pos (by omega)]
    refine mod_scaled_ne (D := 6148914691236517205) (E := 6148914691236517206)
      (I := 12670490878911611211) (m := 68) (by norm_num) (by norm_num) ?_ hmax
      (by norm_num) (by norm_num)
    have hy : x / 10 + 5534023222112865485 + 1 = 9 * a + d := by omega
    omega

theorem decompressAmount_of_overflow (h10 : n.toNat % 10 ≠ 0) (hmax : n.toNat ≤ 7200000000000000000)
    (hover : 2049638230412172402 < n.toNat) : decompressAmount (compressAmount n) ≠ n := by
  intro heq
  have hcode := compressAmount_toNat (n := n) (by omega)
  rw [amountCode_of_mod_ten_ne h10] at hcode
  have hdec := congrArg UInt64.toNat heq
  rw [decompressAmount_toNat (by rw [hcode]; omega)] at hdec
  generalize (compressAmount n).toNat = x at *
  have hsplit : n.toNat = 10 * (n.toNat / 10) + n.toNat % 10 := by omega
  rw [hsplit] at hdec
  refine wrapped_code_ne (k := (1 + (n.toNat / 10 * 9 + n.toNat % 10 - 1) * 10) /
    18446744073709551616) ?_ ?_ ?_ ?_ ?_ ?_ hdec <;> omega

/-! ## The money range -/

/-- `AmountCompression`: the value a coin or undo record of value `v` has when it is read back. -/
def amountRoundTrip (v : Int) : Int :=
  Lib.toInt64 (decompressAmount (compressAmount (UInt64.ofInt v))).toNat

theorem toNat_ofInt {n : Nat} (h : n < 18446744073709551616) : (UInt64.ofInt n).toNat = n := by
  rw [UInt64.ofInt, UInt64.toNat_ofNat']
  omega

theorem toInt64_toNat_eq_iff {x w : UInt64} (hw : w.toNat ≤ 7200000000000000000) :
    Lib.toInt64 x.toNat = (w.toNat : Int) ↔ x = w := by
  have hx := x.toNat_lt
  rw [← UInt64.toNat_inj]
  unfold Lib.toInt64
  omega

/-- Up to the money limit an amount is read back as written if and only if it ends in a zero digit or
    is small enough for its code to fit. -/
theorem amountRoundTrip_eq_iff {v : Int} (h0 : 0 ≤ v) (hmax : v ≤ 7200000000000000000) :
    amountRoundTrip v = v ↔ v % 10 = 0 ∨ v ≤ 2049638230412172402 := by
  obtain ⟨n, rfl⟩ : ∃ n : Nat, v = n := ⟨v.toNat, by omega⟩
  have hn : (UInt64.ofInt n).toNat = n := toNat_ofInt (by omega)
  unfold amountRoundTrip
  generalize UInt64.ofInt n = w at *
  subst hn
  rw [toInt64_toNat_eq_iff (by omega)]
  by_cases h0 : w.toNat = 0
  · obtain rfl : w = 0 := UInt64.toNat_inj.mp h0
    simp [compressAmount, decompressAmount]
  by_cases h10 : w.toNat % 10 = 0
  · have := decompressAmount_of_fits h0 (amountCode_fits_of_mod_ten h10 (by omega))
    simp only [this, true_iff]
    omega
  by_cases hle : w.toNat ≤ 2049638230412172402
  · have := decompressAmount_of_fits h0 (by rw [amountCode_of_mod_ten_ne h10]; omega)
    simp only [this, true_iff]
    omega
  · have := decompressAmount_of_overflow h10 (by omega) (by omega)
    simp only [this, false_iff]
    omega

theorem decompressAmount_ne_max (x : UInt64) : (decompressAmount x).toNat ≠ 18446744073709551615 := by
  by_cases h : x.toNat = 0
  · obtain rfl : x = 0 := UInt64.toNat_inj.mp h
    simp [decompressAmount]
  · have hlt := x.toNat_lt
    rw [decompressAmount_toNat h]
    cases he : (x.toNat - 1) % 10 with
    | zero =>
      rw [if_pos (by omega)]
      omega
    | succ e =>
      intro hmax
      generalize (if e + 1 < 9 then (x.toNat - 1) / 10 / 9 * 10 + ((x.toNat - 1) / 10 % 9 + 1)
        else (x.toNat - 1) / 10 + 1) = n at hmax
      have heven : n * 10 ^ (e + 1) = 2 * (n * 10 ^ e * 5) := by
        rw [Nat.pow_succ, ← Nat.mul_assoc]
        omega
      rw [heven] at hmax
      omega

theorem amountRoundTrip_ne_null (v : Int) : amountRoundTrip v ≠ -1 := by
  have hne := decompressAmount_ne_max (compressAmount (UInt64.ofInt v))
  have hlt := (decompressAmount (compressAmount (UInt64.ofInt v))).toNat_lt
  unfold amountRoundTrip Lib.toInt64
  omega

/-- **The amount codec on the money range.** An amount that `MoneyRange` admits is read back as written if and only if
    it ends in a zero digit or is at most `2049638230412172402`. -/
theorem amount_codec_lossless_iff {v : Int} (hv : mainParams.moneyRange v) :
    amountRoundTrip v = v ↔ v % 10 = 0 ∨ v ≤ 2049638230412172402 := by
  rw [Params.moneyRange_iff, mainParams_nMaxMoneyOut] at hv
  exact amountRoundTrip_eq_iff hv.1 hv.2

theorem amount_codec_lossy_at : mainParams.moneyRange 2049638230412172403 ∧
      amountRoundTrip 2049638230412172403 ≠ 2049638230412172403 := by
  decide

theorem amount_codec_lossless_tranche : mainParams.moneyRange (200000000 * COIN) ∧
      amountRoundTrip (200000000 * COIN) = 200000000 * COIN :=
  ⟨by decide, (amount_codec_lossless_iff (by decide)).mpr (by decide)⟩

end KrovaCoin.Compressor
