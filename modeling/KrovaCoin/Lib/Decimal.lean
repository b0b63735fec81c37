import Mathlib

/-!
# Decimal digit strings

`Nat.ofDigitChars 10` reads a digit string and `Nat.toDigits 10` writes one.

* `IsDigits` — strings of decimal digits.
* `ofDigitChars_padDigits`, `ofDigitChars_append_zeros` — zeros in front do not count, a zero at the end multiplies
  by ten.
* `ofDigitChars_lt`, `lt_length_toDigits` — value and number of digits.
-/

namespace KrovaCoin.Lib

def IsDigits (cs : List Char) : Prop := ∀ c ∈ cs, c.isDigit = true

theorem isDigits_nil : IsDigits [] := by
  intro c hc
  cases hc

@[simp] theorem isDigits_cons {c : Char} {cs : List Char} : IsDigits (c :: cs) ↔ c.isDigit = true ∧ IsDigits cs := by
  simp [IsDigits]

@[simp] theorem isDigits_append {cs ds : List Char} : IsDigits (cs ++ ds) ↔ IsDigits cs ∧ IsDigits ds := by
  simp [IsDigits, or_imp, forall_and]

theorem isDigits_replicate_zero (z : Nat) : IsDigits (List.replicate z '0') := by
  intro c hc
  rw [List.eq_of_mem_replicate hc]
  decide

theorem isDigits_toDigits (n : Nat) : IsDigits (Nat.toDigits 10 n) :=
  fun _ hc => Nat.isDigit_of_mem_toDigits (by omega) (by omega) hc

theorem IsDigits.takeWhile_append {cs : List Char} {q : Char → Bool} (h : IsDigits cs) (rest : List Char)
    (hq : ∀ c, c.isDigit = true → q c = true) : (cs ++ rest).takeWhile q = cs ++ rest.takeWhile q := by
  induction cs with
  | nil => rfl
  | cons c cs ih =>
    obtain ⟨hc, hcs⟩ := isDigits_cons.mp h
    rw [List.cons_append, List.takeWhile_cons, if_pos (hq c hc), ih hcs, List.cons_append]

theorem digit_lt {c : Char} (h : c.isDigit = true) : c.toNat - 48 < 10 := by
  simp only [Char.isDigit, Bool.and_eq_true, decide_eq_true_eq] at h
  have h57 : c.toNat ≤ 57 := h.2
  omega

theorem ofDigitChars_append (cs ds : List Char) : Nat.ofDigitChars 10 (cs ++ ds) 0 =
      Nat.ofDigitChars 10 cs 0 * 10 ^ ds.length + Nat.ofDigitChars 10 ds 0 := by
  rw [Nat.ofDigitChars_eq_foldl, List.foldl_append, ← Nat.ofDigitChars_eq_foldl, ← Nat.ofDigitChars_eq_foldl,
    Nat.ofDigitChars_eq_ofDigitChars_zero, Nat.mul_comm]

theorem ofDigitChars_cons (c : Char) (ds : List Char) :
    Nat.ofDigitChars 10 (c :: ds) 0 = (c.toNat - 48) * 10 ^ ds.length + Nat.ofDigitChars 10 ds 0 := by
  rw [← List.singleton_append, ofDigitChars_append]
  simp [Nat.ofDigitChars_eq_foldl]

theorem ofDigitChars_replicate_zero (z : Nat) : Nat.ofDigitChars 10 (List.replicate z '0') 0 = 0 := by
  simp

theorem ofDigitChars_append_zeros (cs : List Char) (z : Nat) :
    Nat.ofDigitChars 10 (cs ++ List.replicate z '0') 0 = Nat.ofDigitChars 10 cs 0 * 10 ^ z := by
  rw [ofDigitChars_append, ofDigitChars_replicate_zero, List.length_replicate, Nat.add_zero]

theorem ofDigitChars_lt {cs : List Char} (h : IsDigits cs) : Nat.ofDigitChars 10 cs 0 < 10 ^ cs.length := by
  induction cs with
  | nil => simp
  | cons c cs ih =>
    obtain ⟨hc, hcs⟩ := isDigits_cons.mp h
    have hd := digit_lt hc
    have htail := ih hcs
    rw [ofDigitChars_cons, List.length_cons, pow_succ]
    calc (c.toNat - 48) * 10 ^ cs.length + Nat.ofDigitChars 10 cs 0
        < (c.toNat - 48) * 10 ^ cs.length + 10 ^ cs.length := by omega
      _ = (c.toNat - 48 + 1) * 10 ^ cs.length := by ring
      _ ≤ 10 * 10 ^ cs.length := Nat.mul_le_mul_right _ (by omega)
      _ = 10 ^ cs.length * 10 := Nat.mul_comm _ _

theorem lt_length_toDigits {n e : Nat} (h : 10 ^ e ≤ n) : e < (Nat.toDigits 10 n).length := by
  have hlt := ofDigitChars_lt (isDigits_toDigits n)
  rw [Nat.ofDigitChars_ten_toDigits] at hlt
  exact (Nat.pow_lt_pow_iff_right (by omega)).mp (lt_of_le_of_lt h hlt)

theorem toDigits_lead (n : Nat) : Nat.toDigits 10 n = ['0'] ∨ (Nat.toDigits 10 n).head? ≠ some '0' := by
  induction n using Nat.strongRecOn with
  | ind n ih =>
    rcases Nat.lt_or_ge n 10 with hlt | hge
    · rw [Nat.toDigits_of_lt_base hlt]
      have hdigit : ∀ k < 10, [Nat.digitChar k] = ['0'] ∨ [Nat.digitChar k].head? ≠ some '0' := by
        decide
      exact hdigit n hlt
    · rw [Nat.toDigits_of_base_le (by omega) hge, List.head?_append_of_ne_nil _ Nat.toDigits_ne_nil]
      refine .inr fun hzero => ?_
      rcases ih (n / 10) (by omega) with h | h
      · have hvalue := Nat.ofDigitChars_ten_toDigits (n := n / 10)
        rw [h] at hvalue
        simp [ofDigitChars_cons] at hvalue
        omega
      · exact h hzero

/-- `%0wd`: at least `w` digits. -/
def padDigits (w n : Nat) : List Char :=
  List.replicate (w - (Nat.toDigits 10 n).length) '0' ++ Nat.toDigits 10 n

theorem isDigits_padDigits (w n : Nat) : IsDigits (padDigits w n) :=
  isDigits_append.mpr ⟨isDigits_replicate_zero _, isDigits_toDigits n⟩

theorem ofDigitChars_padDigits (w n : Nat) : Nat.ofDigitChars 10 (padDigits w n) 0 = n := by
  rw [padDigits, ofDigitChars_append, ofDigitChars_replicate_zero, Nat.ofDigitChars_ten_toDigits, Nat.zero_mul,
    Nat.zero_add]

theorem length_padDigits {w n : Nat} (hw : 0 < w) (h : n < 10 ^ w) : (padDigits w n).length = w := by
  have := Nat.toDigits_length 10 n w hw h
  rw [padDigits, List.length_append, List.length_replicate]
  omega

theorem rdropWhile_append_zeros (cs : List Char) : ∃ z, cs = cs.rdropWhile (· == '0') ++ List.replicate z '0' := by
  refine ⟨(cs.rtakeWhile (· == '0')).length, ?_⟩
  have hzeros : cs.rtakeWhile (· == '0') = List.replicate (cs.rtakeWhile (· == '0')).length '0' := by
    refine List.eq_replicate_iff.mpr ⟨rfl, fun c hc => ?_⟩
    simpa using List.mem_rtakeWhile_imp hc
  rw [← hzeros]
  have h := List.takeWhile_append_dropWhile (p := (· == '0')) (l := cs.reverse)
  rw [List.rdropWhile, List.rtakeWhile, ← List.reverse_append, h, List.reverse_reverse]

end KrovaCoin.Lib
