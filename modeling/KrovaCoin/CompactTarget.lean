import KrovaCoin.Pow

/-!
# The compact form of targets (`arith_uint256.cpp`)

A compact target is a sign, a mantissa of 23 bits and a number of bytes.

Principal result: `compact_truncates`.
-/

namespace KrovaCoin

/-- `target` is `n` without its lower bits: at least the upper fifteen are left. -/
structure RoundsTo (n target : Nat) : Prop where
  le : target ≤ n
  error : (n - target) * 32768 ≤ target

theorem RoundsTo.pos {n target : Nat} (h : RoundsTo n target) (hn : 0 < n) : 0 < target := by
  obtain ⟨hle, herror⟩ := h
  omega

/-! ## `SetCompact` -/

def compactValue (mantissa nSize : Nat) : Nat :=
  if nSize ≤ 3 then mantissa / 256 ^ (3 - nSize) else mantissa * 256 ^ (nSize - 3)

/-- The size of the number a compact target stands for. -/
def compactMagnitude (nBits : UInt32) : Nat := compactValue (nBits.toNat % 0x800000) (nBits.toNat / 0x1000000)

/-- The number a compact target stands for. -/
def compactNumber (nBits : UInt32) : Int :=
  if nBits &&& 0x00800000 = 0 then compactMagnitude nBits else -compactMagnitude nBits

theorem two_pow_256_le_iff {m n : Nat} (hm : m < 0x800000) (hn : 3 < n) : 2 ^ 256 ≤ m * 256 ^ (n - 3) ↔
    m ≠ 0 ∧ (n > 34 ∨ m > 0xff ∧ n > 33 ∨ m > 0xffff ∧ n > 32) := by
  obtain ⟨k, rfl⟩ : ∃ k, n = k + 3 := ⟨n - 3, by omega⟩
  rw [Nat.add_sub_cancel]
  rcases Nat.lt_or_ge k 30 with hk | hk
  · refine iff_of_false (fun hle => ?_) (by omega)
    have hpow : 256 ^ k ≤ 256 ^ 29 := Nat.pow_le_pow_right (by decide) (by omega)
    have := Nat.mul_le_mul hm.le hpow
    omega
  · rcases Nat.lt_or_ge k 32 with hk' | hk'
    · obtain rfl | rfl : k = 30 ∨ k = 31 := by omega
      · omega
      · omega
    · have hpow : 256 ^ 32 ≤ 256 ^ k := Nat.pow_le_pow_right (by decide) hk'
      rcases Nat.eq_zero_or_pos m with rfl | hpos
      · simp
      · have := Nat.mul_le_mul hpos hpow
        exact iff_of_true (by omega) (by omega)

/-- What `SetCompact` returns: the flags tell the sign and the numbers of more than 256 bits, and all other numbers are
    exact. -/
theorem setCompact_eq (nBits : UInt32) : ((setCompact nBits).2.1 = true ↔ compactNumber nBits < 0) ∧
      ((setCompact nBits).2.2 = true ↔ 2 ^ 256 ≤ compactMagnitude nBits) ∧
      (compactMagnitude nBits < 2 ^ 256 → (setCompact nBits).1.toNat = compactMagnitude nBits) := by
  have hm : nBits.toNat % 0x800000 < 0x800000 := Nat.mod_lt _ (by decide)
  unfold compactNumber compactMagnitude compactValue setCompact
  generalize nBits.toNat % 0x800000 = m at *
  generalize nBits.toNat / 0x1000000 = n at *
  rcases Nat.lt_or_ge 3 n with hn | hn
  · simp only [if_neg (Nat.not_le.mpr hn), decide_eq_true_eq]
    refine ⟨?_, (two_pow_256_le_iff hm hn).symm, fun hlt => ?_⟩
    · split <;> rename_i hsign <;> simp [hsign, Nat.pos_iff_ne_zero]
    · rw [BitVec.toNat_shiftLeft, BitVec.toNat_ofNat, Nat.mod_eq_of_lt (lt_trans hm (by decide)), Nat.shiftLeft_eq,
        Nat.pow_mul]
      exact Nat.mod_eq_of_lt hlt
  · have hle : m / 256 ^ (3 - n) ≤ m := Nat.div_le_self _ _
    simp only [if_pos hn, decide_eq_true_eq]
    generalize m / 256 ^ (3 - n) = v at *
    refine ⟨?_, iff_of_false (by omega) (by omega), fun hlt => ?_⟩
    · split <;> rename_i hsign <;> simp [hsign, Nat.pos_iff_ne_zero]
    · exact Nat.mod_eq_of_lt hlt

def packCompact (mantissa nSize : Nat) : UInt32 := UInt32.ofNat (mantissa + nSize * 0x1000000)

section Pack

variable {mantissa nSize : Nat} (hm : mantissa < 0x800000) (hs : nSize < 256)

include hm hs

theorem toNat_packCompact : (packCompact mantissa nSize).toNat = mantissa + nSize * 0x1000000 := by
  rw [packCompact, UInt32.toNat_ofNat']
  omega

theorem packCompact_sign : packCompact mantissa nSize &&& 0x00800000 = 0 := by
  apply UInt32.toNat_inj.mp
  rw [UInt32.toNat_and, toNat_packCompact hm hs]
  change (mantissa + nSize * 0x1000000) &&& 2 ^ 23 = 0
  have hbit : (mantissa + nSize * 0x1000000).testBit 23 = false := by
    rw [Nat.testBit_eq_decide_div_mod_eq, decide_eq_false_iff_not]
    omega
  rw [Nat.and_two_pow, hbit]
  rfl

theorem setCompact_packCompact (hlt : compactValue mantissa nSize < 2 ^ 256) :
    (setCompact (packCompact mantissa nSize)).1.toNat = compactValue mantissa nSize ∧
      (setCompact (packCompact mantissa nSize)).2 = (false, false) := by
  have hmagnitude : compactMagnitude (packCompact mantissa nSize) = compactValue mantissa nSize := by
    rw [compactMagnitude, toNat_packCompact hm hs]
    congr 1 <;> omega
  obtain ⟨hneg, hover, hexact⟩ := setCompact_eq (packCompact mantissa nSize)
  rw [compactNumber, if_pos (packCompact_sign hm hs), hmagnitude] at hneg
  rw [hmagnitude] at hover hexact
  refine ⟨hexact hlt, Prod.ext ?_ ?_⟩
  · exact Bool.eq_false_iff.mpr fun h => absurd (hneg.mp h) (by omega)
  · exact Bool.eq_false_iff.mpr fun h => absurd (hover.mp h) (by omega)

end Pack

/-! ## `GetCompact` -/

/-- The mantissa before the bit of the sign is cleared: three bytes, of which the first is not zero. -/
def leadingBytes (n nSize : Nat) : Nat :=
  if nSize ≤ 3 then n * 256 ^ (3 - nSize) else n / 256 ^ (nSize - 3)

theorem leadingBytes_eq (n nSize : Nat) : leadingBytes n nSize = n * 256 ^ 3 / 256 ^ nSize := by
  unfold leadingBytes
  split
  · rw [show 256 ^ 3 = 256 ^ (3 - nSize) * 256 ^ nSize by rw [← Nat.pow_add]; congr 1; omega, ← Nat.mul_assoc,
      Nat.mul_div_cancel _ (Nat.pow_pos (by decide))]
  · rw [show 256 ^ nSize = 256 ^ (nSize - 3) * 256 ^ 3 by rw [← Nat.pow_add]; congr 1; omega,
      Nat.mul_div_mul_right _ _ (by decide)]

/-- The mantissa and the size of `n`: the bits below the mantissa are dropped, and at least 16 bits are left. -/
structure CompactForm (n mantissa nSize : Nat) : Prop where
  low : 0x8000 ≤ mantissa
  high : mantissa < 0x800000
  le : mantissa * 256 ^ nSize ≤ n * 256 ^ 3
  lt : n * 256 ^ 3 < (mantissa + 1) * 256 ^ nSize
  exact : compactValue mantissa nSize * 256 ^ 3 = mantissa * 256 ^ nSize

theorem compactForm_leadingBytes {n nSize : Nat} (hlow : 0x8000 ≤ leadingBytes n nSize)
    (hhigh : leadingBytes n nSize < 0x800000) : CompactForm n (leadingBytes n nSize) nSize where
  low := hlow
  high := hhigh
  le := by
    rw [leadingBytes_eq]
    exact Nat.div_mul_le_self _ _
  lt := by
    rw [leadingBytes_eq]
    exact Nat.lt_mul_of_div_lt (Nat.lt_succ_self _) (Nat.pow_pos (by decide))
  exact := by
    unfold compactValue leadingBytes
    split
    · rw [Nat.mul_div_cancel _ (Nat.pow_pos (by decide)), Nat.mul_assoc, ← Nat.pow_add]
      congr 2
      omega
    · rw [Nat.mul_assoc, ← Nat.pow_add]
      congr 2
      omega

theorem bytes_bounds {x : Uint256} (hx : x.toNat ≠ 0) {nSize : Nat} (hsize : nSize = (bits x + 7) / 8) :
    1 ≤ nSize ∧ 256 ^ (nSize - 1) ≤ x.toNat ∧ x.toNat < 256 ^ nSize := by
  have hbits : bits x = x.toNat.log2 + 1 := if_neg fun h => hx (by rw [h]; rfl)
  have hlow : 2 ^ x.toNat.log2 ≤ x.toNat := Nat.log2_self_le hx
  have hhigh : x.toNat < 2 ^ (x.toNat.log2 + 1) := Nat.lt_log2_self
  refine ⟨by omega, ?_, ?_⟩
  · calc 256 ^ (nSize - 1) = 2 ^ (8 * (nSize - 1)) := by rw [Nat.pow_mul]
      _ ≤ 2 ^ x.toNat.log2 := Nat.pow_le_pow_right (by decide) (by omega)
      _ ≤ x.toNat := hlow
  · calc x.toNat < 2 ^ (x.toNat.log2 + 1) := hhigh
      _ ≤ 2 ^ (8 * nSize) := Nat.pow_le_pow_right (by decide) (by omega)
      _ = 256 ^ nSize := by rw [Nat.pow_mul]

theorem getCompact_form {x : Uint256} (hx : x.toNat ≠ 0) :
    ∃ mantissa nSize, CompactForm x.toNat mantissa nSize ∧ getCompact x = packCompact mantissa nSize := by
  obtain ⟨hone, hlow, hhigh⟩ := bytes_bounds hx rfl
  have hcompact : getCompact x =
      if leadingBytes x.toNat ((bits x + 7) / 8) / 0x800000 % 2 = 1 then
        packCompact (leadingBytes x.toNat ((bits x + 7) / 8) / 256) ((bits x + 7) / 8 + 1)
      else packCompact (leadingBytes x.toNat ((bits x + 7) / 8)) ((bits x + 7) / 8) := rfl
  generalize (bits x + 7) / 8 = nSize at *
  have hpos : 0 < 256 ^ nSize := Nat.pow_pos (by decide)
  have hpow : 256 ^ nSize = 256 ^ (nSize - 1) * 256 := by
    rw [← Nat.pow_succ]
    congr 1
    omega
  have hfirst : 0x10000 ≤ leadingBytes x.toNat nSize := by
    rw [leadingBytes_eq, Nat.le_div_iff_mul_le hpos]
    omega
  have hthree : leadingBytes x.toNat nSize < 0x1000000 := by
    rw [leadingBytes_eq, Nat.div_lt_iff_lt_mul hpos]
    omega
  by_cases hsign : leadingBytes x.toNat nSize / 0x800000 % 2 = 1
  · have hnext : leadingBytes x.toNat nSize / 256 = leadingBytes x.toNat (nSize + 1) := by
      rw [leadingBytes_eq, leadingBytes_eq, Nat.div_div_eq_div_mul, ← Nat.pow_succ]
    rw [if_pos hsign, hnext] at hcompact
    exact ⟨_, _, compactForm_leadingBytes (by omega) (by omega), hcompact⟩
  · rw [if_neg hsign] at hcompact
    exact ⟨_, _, compactForm_leadingBytes (by omega) (by omega), hcompact⟩

namespace CompactForm

variable {n m mantissa mantissa' nSize nSize' : Nat} (h : CompactForm n mantissa nSize)

include h

theorem value_le : compactValue mantissa nSize ≤ n := by
  have := h.exact
  have := h.le
  omega

theorem size_le (hn : n < 2 ^ 256) : nSize ≤ 33 := by
  by_contra hgt
  have hpow : 256 ^ 34 ≤ 256 ^ nSize := Nat.pow_le_pow_right (by decide) (by omega)
  have := Nat.mul_le_mul h.low hpow
  have := h.le
  omega

/-- Numbers with a smaller size are smaller. -/
theorem lt_of_size_lt (h' : CompactForm m mantissa' nSize') (hlt : nSize < nSize') :
    n < compactValue mantissa' nSize' := by
  have hpow : 256 ^ (nSize + 1) ≤ 256 ^ nSize' := Nat.pow_le_pow_right (by decide) hlt
  have hle := Nat.mul_le_mul h'.low hpow
  have hn := lt_of_lt_of_le h.lt (Nat.mul_le_mul_right _ h.high)
  have := h'.exact
  omega

theorem mantissa_le (h' : CompactForm m mantissa' nSize) (hle : n ≤ m) : mantissa ≤ mantissa' := by
  have hlt : mantissa * 256 ^ nSize < (mantissa' + 1) * 256 ^ nSize := by
    have := h.le
    have := h'.lt
    omega
  exact Nat.lt_succ_iff.mp (Nat.lt_of_mul_lt_mul_right hlt)

theorem mono (h' : CompactForm m mantissa' nSize') (hle : n ≤ m) :
    compactValue mantissa nSize ≤ compactValue mantissa' nSize' := by
  rcases lt_trichotomy nSize nSize' with hlt | rfl | hgt
  · exact h.value_le.trans (h.lt_of_size_lt h' hlt).le
  · have := Nat.mul_le_mul_right (256 ^ nSize) (h.mantissa_le h' hle)
    have := h.exact
    have := h'.exact
    omega
  · have := h'.lt_of_size_lt h hgt
    have := h.value_le
    omega

theorem unique (h' : CompactForm n mantissa' nSize') : mantissa = mantissa' ∧ nSize = nSize' := by
  rcases lt_trichotomy nSize nSize' with hlt | rfl | hgt
  · exact absurd (h.lt_of_size_lt h' hlt) (Nat.not_lt.mpr h'.value_le)
  · exact ⟨Nat.le_antisymm (h.mantissa_le h' le_rfl) (h'.mantissa_le h le_rfl), rfl⟩
  · exact absurd (h'.lt_of_size_lt h hgt) (Nat.not_lt.mpr h.value_le)

theorem value : CompactForm (compactValue mantissa nSize) mantissa nSize where
  low := h.low
  high := h.high
  le := h.exact.ge
  lt := by
    rw [h.exact]
    exact Nat.mul_lt_mul_of_pos_right (Nat.lt_succ_self _) (Nat.pow_pos (by decide))
  exact := h.exact

theorem roundsTo : RoundsTo n (compactValue mantissa nSize) := by
  refine ⟨h.value_le, ?_⟩
  have hlow := Nat.mul_le_mul_right (256 ^ nSize) h.low
  have := h.lt
  have := h.exact
  rw [Nat.succ_mul] at *
  omega

/-- A number of the same size that is not above `n` is not above the compact form. -/
theorem largest (hv : compactValue mantissa' nSize ≤ n) : compactValue mantissa' nSize ≤ compactValue mantissa nSize := by
  have hlt := h.lt
  have hexact := h.exact
  rw [Nat.succ_mul] at hlt
  by_cases hsize : nSize ≤ 3
  · -- nothing is dropped
    have hpow : 256 ^ nSize ≤ 256 ^ 3 := Nat.pow_le_pow_right (by decide) hsize
    omega
  · have hvalue : compactValue mantissa' nSize * 256 ^ 3 = mantissa' * 256 ^ nSize := by
      rw [compactValue, if_neg hsize, Nat.mul_assoc, ← Nat.pow_add]
      congr 2
      omega
    have hm : mantissa' * 256 ^ nSize < (mantissa + 1) * 256 ^ nSize := by
      rw [Nat.succ_mul]
      omega
    have := Nat.mul_le_mul_right (256 ^ nSize) (Nat.lt_succ_iff.mp (Nat.lt_of_mul_lt_mul_right hm))
    omega

end CompactForm

theorem setCompact_getCompact_form {x : Uint256} (hx : x.toNat ≠ 0) :
    ∃ mantissa nSize, CompactForm x.toNat mantissa nSize ∧ getCompact x = packCompact mantissa nSize ∧
      (setCompact (getCompact x)).1.toNat = compactValue mantissa nSize ∧
      (setCompact (getCompact x)).2 = (false, false) := by
  obtain ⟨mantissa, nSize, h, hpack⟩ := getCompact_form hx
  have hsize := h.size_le x.isLt
  obtain ⟨hvalue, hflags⟩ := setCompact_packCompact h.high (by omega) (lt_of_le_of_lt h.value_le x.isLt)
  exact ⟨mantissa, nSize, h, hpack, hpack ▸ hvalue, hpack ▸ hflags⟩

/-- **The compact form rounds a number down**, without a sign or an overflow. -/
theorem setCompact_getCompact (x : Uint256) :
    RoundsTo x.toNat (setCompact (getCompact x)).1.toNat ∧ (setCompact (getCompact x)).2 = (false, false) := by
  by_cases hx : x.toNat = 0
  · obtain rfl : x = 0 := BitVec.eq_of_toNat_eq hx
    exact ⟨⟨by decide, by decide⟩, by decide⟩
  · obtain ⟨mantissa, nSize, h, -, hvalue, hflags⟩ := setCompact_getCompact_form hx
    exact ⟨hvalue ▸ h.roundsTo, hflags⟩

/-- **Compact targets are a canonical truncation.** -/
theorem compact_truncates (x : Uint256) :
    (setCompact (getCompact x)).2 = (false, false) ∧ (setCompact (getCompact x)).1 ≤ x ∧
      (∀ nBits : UInt32, nBits.toNat / 0x1000000 = (getCompact x).toNat / 0x1000000 →
        (setCompact nBits).2 = (false, false) → (setCompact nBits).1 ≤ x →
          (setCompact nBits).1 ≤ (setCompact (getCompact x)).1) ∧
      (x.toNat - (setCompact (getCompact x)).1.toNat) ≤ x.toNat / 2 ^ 15 ∧
      (∀ y, x ≤ y → (setCompact (getCompact x)).1 ≤ (setCompact (getCompact y)).1) ∧
      getCompact (setCompact (getCompact x)).1 = getCompact x := by
  by_cases hx : x.toNat = 0
  · obtain rfl : x = 0 := BitVec.eq_of_toNat_eq hx
    have hzero : setCompact (getCompact 0) = (0, false, false) := by decide
    simp only [hzero]
    exact ⟨trivial, BitVec.le_refl 0, fun _ _ _ h => h, Nat.zero_le _, fun y _ => Nat.zero_le _, trivial⟩
  · obtain ⟨mantissa, nSize, h, hpack, hvalue, hflags⟩ := setCompact_getCompact_form hx
    simp only [BitVec.le_def, hvalue]
    refine ⟨hflags, h.value_le, fun nBits hsize hfits hle => ?_, ?_, fun y hle => ?_, ?_⟩
    · obtain ⟨-, hover, hexact⟩ := setCompact_eq nBits
      have hlt : compactMagnitude nBits < 2 ^ 256 := by
        rw [hfits] at hover
        simpa using hover
      have hsize' : nBits.toNat / 0x1000000 = nSize := by
        have := h.size_le x.isLt
        have := h.high
        rw [hsize, hpack, toNat_packCompact h.high (by omega)]
        omega
      rw [hexact hlt, compactMagnitude, hsize'] at hle ⊢
      exact h.largest hle
    · have := h.roundsTo.error
      omega
    · obtain ⟨mantissa', nSize', h', -, hvalue', -⟩ := @setCompact_getCompact_form y (by omega)
      rw [hvalue']
      exact h.mono h' hle
    · have hpos := h.roundsTo.pos (Nat.pos_of_ne_zero hx)
      rw [← hvalue] at hpos
      obtain ⟨mantissa', nSize', h', hpack'⟩ := getCompact_form hpos.ne'
      rw [hvalue] at h'
      obtain ⟨rfl, rfl⟩ := h.value.unique h'
      rw [hpack', hpack]

end KrovaCoin
