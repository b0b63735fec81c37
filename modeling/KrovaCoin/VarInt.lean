import KrovaCoin.Lib.Codec

/-!
# Variable-length integers (`serialize.h`)

A number is written in bytes of seven bits, the most significant first. All bytes but the last have the high bit set,
and one is subtracted from all digits but the last.

* `writeVarInt`, `readVarInt` — the two directions, for an unsigned type of `size` bytes.

Principal result: `varInt_bijective`.
-/

namespace KrovaCoin

open Lib

/-- The loop of `WriteVarInt`: `tmp` is filled from the last byte of the encoding to the first, and `room` of its bytes
    are left. `none` stands for a write behind its end. -/
def writeVarIntLoop : Nat → Nat → List UInt8 → Option (List UInt8)
  | 0, _, _ => none
  | room + 1, n, tmp =>
    let tmp := UInt8.ofNat (n % 128 + if tmp = [] then 0 else 128) :: tmp
    if n ≤ 0x7F then some tmp else writeVarIntLoop room (n / 128 - 1) tmp

def writeVarInt (size n : Nat) : Option (List UInt8) := writeVarIntLoop ((size * 8 + 6) / 7) n []

def varIntTooLarge : String := "ReadVarInt(): size too large"

/-- The loop of `ReadVarInt`. -/
def readVarIntLoop (size : Nat) : Nat → List UInt8 → Except String (Nat × List UInt8)
  | _, [] => .error Codec.endOfData
  | n, chData :: s =>
    let max := 256 ^ size - 1
    if n > max / 128 then .error varIntTooLarge
    else
      let n := n * 128 % 256 ^ size + chData.toNat % 128
      if 128 ≤ chData.toNat then if n = max then .error varIntTooLarge else readVarIntLoop size (n + 1) s
      else .ok (n, s)

def readVarInt (size : Nat) (s : List UInt8) : Except String (Nat × List UInt8) := readVarIntLoop size 0 s

/-! ## The numbers of byte strings -/

def varIntDigit (n : Nat) (b : UInt8) : Nat := n * 128 + b.toNat % 128 + 1

/-- The digits of a byte string in base 128, with one added to each. -/
def varIntDigits (s : List UInt8) : Nat := s.foldl varIntDigit 0

/-- All bytes but the last have the high bit set. -/
def IsVarInt (s : List UInt8) : Prop :=
  ∃ init last, s = init ++ [last] ∧ (∀ b ∈ init, 128 ≤ b.toNat) ∧ last.toNat < 128

@[simp] theorem varIntDigits_concat (s : List UInt8) (b : UInt8) :
    varIntDigits (s ++ [b]) = varIntDigits s * 128 + b.toNat % 128 + 1 := by
  simp [varIntDigits, varIntDigit]

theorem varIntDigits_lt {s t : List UInt8} (h : s.length < t.length) : varIntDigits s < varIntDigits t := by
  induction t using List.reverseRecOn generalizing s with
  | nil => cases h
  | append_singleton t b ih =>
    rcases s.eq_nil_or_concat' with rfl | ⟨s, a, rfl⟩
    · rw [varIntDigits_concat]
      exact Nat.succ_pos _
    · simp only [List.length_append, List.length_singleton, Nat.add_lt_add_iff_right] at h
      have := ih h
      simp only [varIntDigits_concat]
      omega

theorem varIntDigits_inj {s t : List UInt8} (hs : ∀ b ∈ s, 128 ≤ b.toNat) (ht : ∀ b ∈ t, 128 ≤ b.toNat)
    (h : varIntDigits s = varIntDigits t) : s = t := by
  induction t using List.reverseRecOn generalizing s with
  | nil =>
    by_contra hne
    exact absurd h (@varIntDigits_lt [] s (List.length_pos_iff.mpr hne)).ne'
  | append_singleton t b ih =>
    rcases s.eq_nil_or_concat' with rfl | ⟨s, a, rfl⟩
    · exact absurd h (varIntDigits_lt (by simp)).ne
    · simp only [List.forall_mem_append, List.forall_mem_singleton] at hs ht
      simp only [varIntDigits_concat] at h
      have ha := a.toNat_lt
      have hb := b.toNat_lt
      rw [ih hs.1 ht.1 (by omega), UInt8.toNat_inj.mp (show a.toNat = b.toNat by omega)]

theorem IsVarInt.unique {s t : List UInt8} (hs : IsVarInt s) (ht : IsVarInt t)
    (h : varIntDigits s = varIntDigits t) : s = t := by
  obtain ⟨i, a, rfl, hi, ha⟩ := hs
  obtain ⟨j, b, rfl, hj, hb⟩ := ht
  simp only [varIntDigits_concat] at h
  rw [varIntDigits_inj hi hj (by omega), UInt8.toNat_inj.mp (show a.toNat = b.toNat by omega)]

/-- Every byte after the digits `n` adds at least one. -/
theorem varIntDigits_after (s : List UInt8) (n : Nat) : n + s.length ≤ s.foldl varIntDigit n := by
  induction s generalizing n with
  | nil => exact le_rfl
  | cons b s ih =>
    refine le_trans ?_ (ih _)
    simp only [List.length_cons, varIntDigit]
    omega

theorem readVarIntLoop_ok {size n v : Nat} {s rest : List UInt8} (h : readVarIntLoop size n s = .ok (v, rest)) :
    ∃ t, s = t ++ rest ∧ IsVarInt t := by
  induction s generalizing n with
  | nil => cases h
  | cons b s ih =>
    simp only [readVarIntLoop] at h
    split at h
    · cases h
    split at h
    · rename_i hb
      split at h
      · cases h
      obtain ⟨_, rfl, init, last, rfl, hinit, hlast⟩ := ih h
      exact ⟨b :: (init ++ [last]), rfl, b :: init, last, rfl, List.forall_mem_cons.mpr ⟨hb, hinit⟩, hlast⟩
    · cases h
      exact ⟨[b], rfl, [], b, rfl, by simp, by omega⟩

/-! ## Writing and reading -/

/-- What the loop puts in front of the bytes that are already there. -/
theorem writeVarIntLoop_continued {room n : Nat} {tmp : List UInt8} (htmp : tmp ≠ []) (hn : n < 128 ^ (room + 1)) :
    ∃ init, writeVarIntLoop (room + 1) n tmp = some (init ++ tmp) ∧ (∀ b ∈ init, 128 ≤ b.toNat) ∧
      varIntDigits init = n + 1 := by
  induction room generalizing n tmp with
  | zero =>
    have hbyte : (UInt8.ofNat (n % 128 + 128)).toNat = n % 128 + 128 := UInt8.toNat_ofNat_of_lt' (show _ < 256 by omega)
    rw [writeVarIntLoop, if_neg htmp]
    generalize UInt8.ofNat (n % 128 + 128) = b at *
    exact ⟨[b], if_pos (by omega), by simp [hbyte], by simp [varIntDigits, varIntDigit, hbyte]; omega⟩
  | succ room ih =>
    have hbyte : (UInt8.ofNat (n % 128 + 128)).toNat = n % 128 + 128 := UInt8.toNat_ofNat_of_lt' (show _ < 256 by omega)
    rw [writeVarIntLoop, if_neg htmp]
    generalize UInt8.ofNat (n % 128 + 128) = b at *
    by_cases hsmall : n ≤ 0x7F
    · exact ⟨[b], if_pos hsmall, by simp [hbyte], by simp [varIntDigits, varIntDigit, hbyte]; omega⟩
    · obtain ⟨init, hrun, hcont, hdigits⟩ := @ih (n / 128 - 1) (b :: tmp) (by simp) (by rw [Nat.pow_succ] at hn; omega)
      refine ⟨init ++ [b], ?_, ?_, ?_⟩
      · simpa [if_neg hsmall] using hrun
      · simpa [hbyte, or_imp, forall_and] using hcont
      · rw [varIntDigits_concat, hbyte, hdigits]
        omega

section Size

variable {size : Nat} (hsize : 0 < size)

include hsize

theorem writeVarInt_spec {n : Nat} (hn : n < 256 ^ size) :
    ∃ s, writeVarInt size n = some s ∧ IsVarInt s ∧ varIntDigits s = n + 1 := by
  obtain ⟨room, hroom⟩ : ∃ room, (size * 8 + 6) / 7 = room + 2 := ⟨(size * 8 + 6) / 7 - 2, by omega⟩
  have hbound : n < 128 ^ (room + 2) := by
    calc n < 2 ^ (8 * size) := by rw [Nat.pow_mul]; exact hn
      _ ≤ 2 ^ (7 * (room + 2)) := Nat.pow_le_pow_right (by decide) (by omega)
      _ = 128 ^ (room + 2) := by rw [Nat.pow_mul]
  have hbyte : (UInt8.ofNat (n % 128)).toNat = n % 128 := UInt8.toNat_ofNat_of_lt' (show _ < 256 by omega)
  rw [writeVarInt, hroom, writeVarIntLoop, if_pos rfl, Nat.add_zero]
  generalize UInt8.ofNat (n % 128) = b at *
  by_cases hsmall : n ≤ 0x7F
  · exact ⟨[b], if_pos hsmall, ⟨[], b, rfl, by simp, by omega⟩, by simp [varIntDigits, varIntDigit, hbyte]; omega⟩
  · obtain ⟨init, hrun, hcont, hdigits⟩ := writeVarIntLoop_continued (List.cons_ne_nil b [])
      (show n / 128 - 1 < 128 ^ (room + 1) by rw [Nat.pow_succ] at hbound; omega)
    refine ⟨init ++ [b], (if_neg hsmall).trans hrun, ⟨init, b, rfl, hcont, by omega⟩, ?_⟩
    rw [varIntDigits_concat, hdigits, hbyte]
    omega

/-- The loop reads a byte string whose number fits the type, and refuses all others. -/
theorem readVarIntLoop_eq {n : Nat} {init : List UInt8} {last : UInt8} (hinit : ∀ b ∈ init, 128 ≤ b.toNat)
    (hlast : last.toNat < 128) (rest : List UInt8) :
    (init ++ [last]).foldl varIntDigit n ≤ 256 ^ size ∧
        readVarIntLoop size n (init ++ last :: rest) = .ok ((init ++ [last]).foldl varIntDigit n - 1, rest) ∨
      256 ^ size < (init ++ [last]).foldl varIntDigit n ∧
        readVarIntLoop size n (init ++ last :: rest) = .error varIntTooLarge := by
  obtain ⟨k, hk⟩ : ∃ k, 256 ^ size = 256 * k := dvd_pow_self 256 hsize.ne'
  have hpos : 0 < 256 ^ size := Nat.pow_pos (by decide)
  induction init generalizing n with
  | nil =>
    simp only [List.nil_append, readVarIntLoop, hk, List.foldl_cons, List.foldl_nil, varIntDigit,
      if_neg (Nat.not_le.mpr hlast)]
    by_cases hlarge : n > (256 * k - 1) / 128
    · exact .inr ⟨by omega, if_pos hlarge⟩
    · rw [if_neg hlarge, Nat.mod_eq_of_lt (a := n * 128) (by omega)]
      exact .inl ⟨by omega, rfl⟩
  | cons b init ih =>
    rw [List.forall_mem_cons] at hinit
    have hle := varIntDigits_after (init ++ [last]) (varIntDigit n b)
    simp only [List.length_append, List.length_singleton, varIntDigit] at hle
    simp only [List.cons_append, readVarIntLoop, List.foldl_cons, if_pos hinit.1]
    by_cases hlarge : n > (256 ^ size - 1) / 128
    · exact .inr ⟨by simp only [varIntDigit]; omega, if_pos hlarge⟩
    · rw [if_neg hlarge, Nat.mod_eq_of_lt (by omega)]
      by_cases hmax : n * 128 + b.toNat % 128 = 256 ^ size - 1
      · exact .inr ⟨by simp only [varIntDigit]; omega, if_pos hmax⟩
      · rw [if_neg hmax]
        exact ih hinit.2

theorem readVarInt_eq {s : List UInt8} (hs : IsVarInt s) (rest : List UInt8) :
    varIntDigits s ≤ 256 ^ size ∧ readVarInt size (s ++ rest) = .ok (varIntDigits s - 1, rest) ∨
      256 ^ size < varIntDigits s ∧ readVarInt size (s ++ rest) = .error varIntTooLarge := by
  obtain ⟨init, last, rfl, hinit, hlast⟩ := hs
  rw [List.append_assoc]
  exact readVarIntLoop_eq hsize hinit hlast rest

/-- **What is written is read back, with the bytes after it left over.** -/
theorem readVarInt_writeVarInt {n : Nat} (hn : n < 256 ^ size) :
    ∃ s, writeVarInt size n = some s ∧ ∀ rest, readVarInt size (s ++ rest) = .ok (n, rest) := by
  obtain ⟨s, hwrite, hs, hdigits⟩ := writeVarInt_spec hsize hn
  refine ⟨s, hwrite, fun rest => ?_⟩
  rcases readVarInt_eq hsize hs rest with ⟨-, hread⟩ | ⟨hlarge, -⟩
  · rw [hread, hdigits, Nat.add_sub_cancel]
  · omega

/-- **Only what is written is read.** -/
theorem writeVarInt_readVarInt {n : Nat} {s rest : List UInt8} (h : readVarInt size s = .ok (n, rest)) :
    n < 256 ^ size ∧ ∃ t, writeVarInt size n = some t ∧ s = t ++ rest := by
  obtain ⟨t, rfl, ht⟩ := readVarIntLoop_ok h
  have hpos : 0 < varIntDigits t := @varIntDigits_lt [] t (by obtain ⟨init, last, rfl, -⟩ := ht; simp)
  rcases readVarInt_eq hsize ht rest with ⟨hle, hread⟩ | ⟨-, hread⟩
  · cases hread.symm.trans h
    obtain ⟨s, hwrite, hs, hdigits⟩ := writeVarInt_spec hsize (show varIntDigits t - 1 < 256 ^ size by omega)
    rw [hs.unique ht (by omega)] at hwrite
    exact ⟨by omega, t, hwrite, rfl⟩
  · cases hread.symm.trans h

/-- **Longer encodings stand for larger numbers.** -/
theorem writeVarInt_lt {m n : Nat} (hm : m < 256 ^ size) (hn : n < 256 ^ size) {s t : List UInt8}
    (hs : writeVarInt size m = some s) (ht : writeVarInt size n = some t) (h : s.length < t.length) : m < n := by
  obtain ⟨_, hs', -, hm'⟩ := writeVarInt_spec hsize hm
  obtain ⟨_, ht', -, hn'⟩ := writeVarInt_spec hsize hn
  cases hs.symm.trans hs'
  cases ht.symm.trans ht'
  have := varIntDigits_lt h
  omega

end Size

/-- **The encoding is a bijection** between the 64-bit words and the byte strings that are read. Longer encodings stand
    for larger numbers, and the encoding of a number outside the type is refused. -/
theorem varInt_bijective :
    (∀ n : UInt64, ∃ s, writeVarInt 8 n.toNat = some s ∧ ∀ rest, readVarInt 8 (s ++ rest) = .ok (n.toNat, rest)) ∧
      (∀ s n rest, readVarInt 8 s = .ok (n, rest) → n < 2 ^ 64 ∧ ∃ t, writeVarInt 8 n = some t ∧ s = t ++ rest) ∧
      (∀ (m n : UInt64) s t, writeVarInt 8 m.toNat = some s → writeVarInt 8 n.toNat = some t → s.length < t.length →
        m < n) ∧
      ∀ s rest, IsVarInt s → 2 ^ 64 ≤ varIntDigits s - 1 → readVarInt 8 (s ++ rest) = .error varIntTooLarge := by
  refine ⟨fun n => readVarInt_writeVarInt (by decide) n.toNat_lt, fun s n rest => writeVarInt_readVarInt (by decide),
    fun m n s t hm hn hlen => ?_, fun s rest hs hlarge => ?_⟩
  · exact UInt64.lt_iff_toNat_lt.mpr (writeVarInt_lt (by decide) m.toNat_lt n.toNat_lt hm hn hlen)
  · rcases readVarInt_eq (show 0 < 8 by decide) hs rest with ⟨hle, -⟩ | ⟨-, hread⟩
    · omega
    · exact hread

end KrovaCoin
