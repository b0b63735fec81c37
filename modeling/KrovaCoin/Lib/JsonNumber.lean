import KrovaCoin.Lib.Decimal

/-!
# Numbers of JSON

A number is a sign, a whole part without leading zeros, and perhaps a fraction and an exponent; the
parts carry the grammar.

* `JsonNumber.chars` — the text, `JsonNumber.value` — the rational number it denotes.
* `JsonNumber.significand` — all digits before the exponent; `JsonNumber.scale` — the power of ten
  of the last of them.

Principal result: .
-/

namespace KrovaCoin.Lib

/-- `e` or `E`, perhaps a sign, and digits. -/
structure JsonExponent where
  mark : Char
  sign : List Char
  digits : List Char
  mark_ok : mark = 'e' ∨ mark = 'E'
  sign_ok : sign = [] ∨ sign = ['+'] ∨ sign = ['-']
  digits_ok : IsDigits digits
  digits_ne : digits ≠ []

namespace JsonExponent

def chars (e : JsonExponent) : List Char := e.mark :: (e.sign ++ e.digits)

/-- The exponent without its sign. -/
def magnitude (e : JsonExponent) : Nat := Nat.ofDigitChars 10 e.digits 0

def value (e : JsonExponent) : Int := if e.sign = ['-'] then -e.magnitude else e.magnitude

end JsonExponent

/-- A point and digits; nothing for the empty fraction. -/
def fractionText (fraction : List Char) : List Char :=
  if fraction = [] then [] else '.' :: fraction

theorem length_le_fractionText (fraction : List Char) : fraction.length ≤ (fractionText fraction).length := by
  unfold fractionText
  split
  · rename_i h
    rw [h]
  · exact Nat.le_succ _

theorem fractionText_inj {ds es : List Char} (h : fractionText ds = fractionText es) : ds = es := by
  unfold fractionText at h
  split at h <;> split at h <;> simp_all

/-- The parts of a number; an absent fraction is the empty one. -/
structure JsonNumber where
  negative : Bool
  whole : List Char
  fraction : List Char
  exponent : Option JsonExponent
  whole_ok : IsDigits whole ∧ whole ≠ []
  whole_lead : whole = ['0'] ∨ whole.head? ≠ some '0'
  fraction_ok : IsDigits fraction

namespace JsonNumber

def exponentChars (j : JsonNumber) : List Char := j.exponent.elim [] JsonExponent.chars

def chars (j : JsonNumber) : List Char :=
  (if j.negative then ['-'] else []) ++ (j.whole ++ (fractionText j.fraction ++ j.exponentChars))

def sign (j : JsonNumber) : Int := if j.negative then -1 else 1

def exponentValue (j : JsonNumber) : Int := j.exponent.elim 0 JsonExponent.value

def value (j : JsonNumber) : ℚ :=
  j.sign * (Nat.ofDigitChars 10 j.whole 0 +
    Nat.ofDigitChars 10 j.fraction 0 / 10 ^ j.fraction.length) * 10 ^ j.exponentValue

def significand (j : JsonNumber) : Nat := Nat.ofDigitChars 10 (j.whole ++ j.fraction) 0

/-- The power of ten of the last digit. -/
def scale (j : JsonNumber) : Int := j.exponentValue - j.fraction.length

/-- **Significand and scale.** -/
theorem value_eq (j : JsonNumber) : j.value = j.sign * j.significand * 10 ^ j.scale := by
  have hten : (10 : ℚ) ≠ 0 := by norm_num
  rw [value, significand, scale, ofDigitChars_append, zpow_sub₀ hten]
  push_cast
  rw [zpow_natCast]
  field_simp

end JsonNumber

end KrovaCoin.Lib
