import KrovaCoin.Consensus.Params
import KrovaCoin.Lib.Decimal

/-!
# Amounts as texts (`utilmoneystr.cpp`)

* `formatMoney`, `parseMoney` — the functions of the source.
* `formatMoney_trimmed` — the loop that cuts zeros off, against `formatMoney`.
* `parseUnits_digits`, `parseWhole_money` — what the parser reads from digits.

Principal result: `parseMoney_formatMoney_iff`.
-/

namespace KrovaCoin

open Lib

/-! ## Writing -/

/-- `FormatMoney`: at least two decimals, without further zeros at the end. -/
def formatMoney (n : Int) : String :=
  let remainder := toString (n.natAbs % 100000000)
  let decimals := List.replicate (8 - remainder.length) '0' ++ remainder.toList
  let trimmed := decimals.take 2 ++ ((decimals.drop 2).reverse.dropWhile (· == '0')).reverse
  (if n < 0 then "-" else "") ++ toString (n.natAbs / 100000000) ++ "." ++ String.ofList trimmed

example : formatMoney 150000000 = "1.50" ∧ formatMoney (-12345) = "-0.00012345" := by decide +kernel

/-- The loop of `FormatMoney` over the text from its end: a zero goes while a digit stands two places before it. -/
def trimMoney : List Char → List Char
  | c :: d :: e :: str => if c = '0' ∧ e.isDigit = true then trimMoney (d :: e :: str) else c :: d :: e :: str
  | str => str

/-- The decimals `FormatMoney` leaves. -/
def moneyDecimals (remainder : Nat) : List Char :=
  (padDigits 8 remainder).take 2 ++ ((padDigits 8 remainder).drop 2).rdropWhile (· == '0')

theorem formatMoney_toList (n : Int) (h : 0 ≤ n) : (formatMoney n).toList =
      Nat.toDigits 10 (n.natAbs / 100000000) ++ '.' :: moneyDecimals (n.natAbs % 100000000) := by
  have hneg : ¬ n < 0 := by omega
  simp only [formatMoney, if_neg hneg, Nat.toString_eq_ofList_toDigits]
  simp [moneyDecimals, padDigits, List.rdropWhile]

theorem trimMoney_decimals {a b : Char} (whole : List Char) (ha : a.isDigit = true) (hb : b.isDigit = true) :
    ∀ {rest : List Char}, IsDigits rest →
      trimMoney (rest ++ a :: b :: '.' :: whole) = rest.dropWhile (· == '0') ++ a :: b :: '.' :: whole
  | [], _ => by
    have hdot : ('.' : Char).isDigit = false := by decide
    simp [trimMoney, hdot]
  | c :: rest, h => by
    obtain ⟨hc, hrest⟩ := isDigits_cons.mp h
    have ih := trimMoney_decimals whole ha hb hrest
    -- the third character from here is a digit: one of the rest or one of the two decimals that stay
    obtain ⟨d, e, str, hstr, he⟩ :
        ∃ d e str, rest ++ a :: b :: '.' :: whole = d :: e :: str ∧ e.isDigit = true := by
      match rest, hrest with
      | [], _ => exact ⟨a, b, _, rfl, hb⟩
      | [d], _ => exact ⟨d, a, _, rfl, ha⟩
      | d :: e :: rest, hrest => exact ⟨d, e, _, rfl, (isDigits_cons.mp (isDigits_cons.mp hrest).2).1⟩
    rw [hstr] at ih
    rw [List.cons_append, hstr, trimMoney, List.dropWhile_cons]
    by_cases hzero : c = '0'
    · rw [if_pos ⟨hzero, he⟩, if_pos (by simp [hzero]), ih]
    · rw [if_neg (fun h => hzero h.1), if_neg (by simp [hzero]), List.cons_append, hstr]

theorem formatMoney_trimmed (n : Int) (h : 0 ≤ n) : (formatMoney n).toList =
      (trimMoney (Nat.toDigits 10 (n.natAbs / 100000000) ++
        '.' :: padDigits 8 (n.natAbs % 100000000)).reverse).reverse := by
  have hlen : (padDigits 8 (n.natAbs % 100000000)).length = 8 := length_padDigits (by omega) (by omega)
  have hdigits := isDigits_padDigits 8 (n.natAbs % 100000000)
  rw [formatMoney_toList n h, moneyDecimals]
  obtain ⟨b, a, rest, hpad⟩ : ∃ b a rest, padDigits 8 (n.natAbs % 100000000) = b :: a :: rest := by
    match hp : padDigits 8 (n.natAbs % 100000000), hlen with
    | b :: a :: rest, _ => exact ⟨b, a, rest, rfl⟩
  rw [hpad] at hdigits ⊢
  obtain ⟨hb, ha, hrest⟩ : b.isDigit = true ∧ a.isDigit = true ∧ IsDigits rest := by simpa using hdigits
  have hrev : IsDigits rest.reverse := fun c hc => hrest c (List.mem_reverse.mp hc)
  have htrim := trimMoney_decimals (Nat.toDigits 10 (n.natAbs / 100000000)).reverse ha hb hrev
  simp [List.rdropWhile, htrim]

theorem formatMoney_trimmed_half : (formatMoney 150000000).toList =
    (trimMoney (Nat.toDigits 10 1 ++ '.' :: padDigits 8 50000000).reverse).reverse :=
  formatMoney_trimmed 150000000 (by decide)

/-! ## Reading -/

def CENT : Int := 1000000

def isSpace (c : Char) : Bool :=
  c = ' ' || c = '\t' || c = '\n' || c = '\x0b' || c = '\x0c' || c = '\r'

/-- The characters a C string passes on. -/
def cString (str : String) : List Char := str.toList.takeWhile (· ≠ '\x00')

/-- `atoi64` of a string of digits. -/
def atoi64 (cs : List Char) : Int := Nat.ofDigitChars 10 cs 0

/-- The digits after the point; the text that is left over. -/
def parseUnits : List Char → Int → Int → Int × List Char
  | [], _, nUnits => (nUnits, [])
  | c :: p, nMult, nUnits =>
    if c.isDigit = true ∧ nMult > 0 then parseUnits p (nMult / 10) (nUnits + nMult * ((c.toNat : Int) - 48))
    else (nUnits, c :: p)

/-- The loop of `ParseMoney`: the whole part, the units and the text that is left over. -/
def parseWhole : List Char → List Char → Option (List Char × Int × List Char)
  | [], strWhole => some (strWhole, 0, [])
  | c :: p, strWhole =>
    if c = '.' then
      let (nUnits, rest) := parseUnits p (CENT * 10) 0
      some (strWhole, nUnits, rest)
    else if isSpace c then some (strWhole, 0, c :: p)
    else if c.isDigit then parseWhole p (strWhole ++ [c])
    else none

def parseMoney (str : String) : Option Int := do
  let (strWhole, nUnits, rest) ← parseWhole ((cString str).dropWhile isSpace) []
  if rest.any fun c => !isSpace c then none
  else if strWhole.length > 10 then none
  else if nUnits < 0 ∨ nUnits > COIN then none
  else some (atoi64 strWhole * COIN + nUnits)

example : parseMoney " 12.5 " = some 1250000000 ∧ parseMoney "1.123456789" = none := by decide +kernel

/-! ## Reading what was written -/

theorem isSpace_of_isDigit {c : Char} (h : c.isDigit = true) : isSpace c = false := by
  have hne : ∀ d : Char, d.isDigit = false → (c = d) = False := by
    intro d hd
    refine eq_false fun hcd => ?_
    rw [hcd, hd] at h
    cases h
  simp [isSpace, hne ' ' (by decide), hne '\t' (by decide), hne '\n' (by decide), hne '\x0b' (by decide),
    hne '\x0c' (by decide), hne '\r' (by decide)]

theorem parseUnits_digits : ∀ {cs : List Char} {k : Nat} {nUnits : Int}, IsDigits cs → cs.length ≤ k + 1 →
    parseUnits cs (10 ^ k) nUnits = (nUnits + (Nat.ofDigitChars 10 cs 0 * 10 ^ (k + 1 - cs.length) : Nat), [])
  | [], k, nUnits, _, _ => by simp [parseUnits]
  | c :: cs, k, nUnits, h, hlen => by
    obtain ⟨hc, hcs⟩ := isDigits_cons.mp h
    have h48 : 48 ≤ c.toNat := by
      simp only [Char.isDigit, Bool.and_eq_true, decide_eq_true_eq] at hc
      exact hc.1
    have hpos : (10 : Int) ^ k > 0 := by positivity
    rw [List.length_cons] at hlen
    rw [parseUnits, if_pos ⟨hc, hpos⟩, ofDigitChars_cons, List.length_cons]
    cases k with
    | zero =>
      have hnil : cs = [] := List.length_eq_zero_iff.mp (by omega)
      simp [hnil, parseUnits]
      omega
    | succ k =>
      have hdiv : (10 : Int) ^ (k + 1) / 10 = 10 ^ k := by rw [pow_succ]; exact Int.mul_ediv_cancel _ (by norm_num)
      rw [hdiv, parseUnits_digits hcs (by omega)]
      have hsplit : (10 : Nat) ^ (k + 1) = 10 ^ cs.length * 10 ^ (k + 1 - cs.length) := by
        rw [← pow_add]
        congr 1
        omega
      have hexp : k + 1 + 1 - (cs.length + 1) = k + 1 - cs.length := by omega
      have hcast : (c.toNat : Int) - 48 = ((c.toNat - 48 : Nat) : Int) := by omega
      have hpow : (10 : Int) ^ (k + 1) = ((10 ^ cs.length * 10 ^ (k + 1 - cs.length) : Nat) : Int) := by
        rw [← hsplit]
        norm_num
      rw [hexp, hcast, hpow, Nat.add_mul]
      push_cast
      congr 1
      ring

theorem parseWhole_money {cs p : List Char} (h : IsDigits cs) : ∀ {strWhole : List Char},
    parseWhole (cs ++ '.' :: p) strWhole =
      some (strWhole ++ cs, (parseUnits p (CENT * 10) 0).1, (parseUnits p (CENT * 10) 0).2) := by
  induction cs with
  | nil =>
    intro strWhole
    simp [parseWhole]
  | cons c cs ih =>
    intro strWhole
    obtain ⟨hc, hcs⟩ := isDigits_cons.mp h
    have hdot : c ≠ '.' := by
      rintro rfl
      revert hc
      decide
    rw [List.cons_append, parseWhole, if_neg hdot, if_neg (by simp [isSpace_of_isDigit hc]), if_pos hc, ih hcs,
      List.append_assoc, List.singleton_append]

theorem moneyDecimals_value (remainder : Nat) (h : remainder < 100000000) :
    IsDigits (moneyDecimals remainder) ∧ (moneyDecimals remainder).length ≤ 8 ∧
      Nat.ofDigitChars 10 (moneyDecimals remainder) 0 * 10 ^ (8 - (moneyDecimals remainder).length) = remainder := by
  have hlen : (padDigits 8 remainder).length = 8 := length_padDigits (by omega) (by omega)
  obtain ⟨z, hz⟩ := rdropWhile_append_zeros ((padDigits 8 remainder).drop 2)
  have hpad : padDigits 8 remainder = moneyDecimals remainder ++ List.replicate z '0' := by
    rw [moneyDecimals, List.append_assoc, ← hz, List.take_append_drop]
  have hlenz : (moneyDecimals remainder).length + z = 8 := by
    rw [hpad, List.length_append, List.length_replicate] at hlen
    exact hlen
  have hvalue := ofDigitChars_padDigits 8 remainder
  rw [hpad, ofDigitChars_append_zeros] at hvalue
  refine ⟨?_, by omega, ?_⟩
  · have hdigits := isDigits_padDigits 8 remainder
    rw [hpad] at hdigits
    exact (isDigits_append.mp hdigits).1
  · rw [show 8 - (moneyDecimals remainder).length = z by omega, hvalue]

theorem parseMoney_formatMoney (n : Int) (h : 0 ≤ n) : parseMoney (formatMoney n) =
      if (Nat.toDigits 10 (n.natAbs / 100000000)).length > 10 then none else some n := by
  obtain ⟨hdecimals, hlen, hvalue⟩ := moneyDecimals_value (n.natAbs % 100000000) (by omega)
  have hwhole := isDigits_toDigits (n.natAbs / 100000000)
  -- no character is a terminator or a blank
  have hcstr : (cString (formatMoney n)).dropWhile isSpace =
      Nat.toDigits 10 (n.natAbs / 100000000) ++ '.' :: moneyDecimals (n.natAbs % 100000000) := by
    have hnul : ∀ c : Char, c.isDigit = true → decide (c ≠ '\x00') = true := by
      intro c hc
      refine decide_eq_true ?_
      rintro rfl
      revert hc
      decide
    have htake : (moneyDecimals (n.natAbs % 100000000)).takeWhile (fun c => decide (c ≠ '\x00')) =
        moneyDecimals (n.natAbs % 100000000) := by
      simpa using hdecimals.takeWhile_append [] hnul
    rw [cString, formatMoney_toList n h, hwhole.takeWhile_append _ hnul, List.takeWhile_cons, if_pos (by decide), htake]
    obtain ⟨c, cs, hcons⟩ := List.exists_cons_of_ne_nil (Nat.toDigits_ne_nil (n := n.natAbs / 100000000) (b := 10))
    rw [hcons] at hwhole ⊢
    rw [List.cons_append, List.dropWhile_cons, if_neg (by simp [isSpace_of_isDigit (isDigits_cons.mp hwhole).1])]
  have hunits : parseUnits (moneyDecimals (n.natAbs % 100000000)) (CENT * 10) 0 =
      (((n.natAbs % 100000000 : Nat) : Int), []) := by
    have hread : parseUnits _ (10 ^ 7) 0 = _ := parseUnits_digits hdecimals hlen
    rw [hvalue, zero_add] at hread
    exact hread
  have hbound : ¬ (((n.natAbs % 100000000 : Nat) : Int) < 0 ∨ ((n.natAbs % 100000000 : Nat) : Int) > COIN) := by
    simp only [COIN]
    omega
  have hsum : atoi64 (Nat.toDigits 10 (n.natAbs / 100000000)) * COIN + ((n.natAbs % 100000000 : Nat) : Int) = n := by
    rw [atoi64, Nat.ofDigitChars_ten_toDigits]
    simp only [COIN]
    omega
  rw [parseMoney, hcstr, parseWhole_money hwhole, hunits]
  simp only [Option.bind_eq_bind, Option.bind_some, List.nil_append, List.any_nil, Bool.false_eq_true, if_false,
    if_neg hbound, hsum]

/-- **An amount is read back from its text exactly when its whole part has at most ten digits.** -/
theorem parseMoney_formatMoney_iff (n : Int) (h : 0 ≤ n) :
    parseMoney (formatMoney n) = some n ↔ n < 10000000000 * COIN := by
  rw [parseMoney_formatMoney n h]
  constructor
  · intro hsome
    by_contra hge
    have hlong : 10 < (Nat.toDigits 10 (n.natAbs / 100000000)).length := by
      apply lt_length_toDigits
      simp only [COIN] at hge
      omega
    rw [if_pos hlong] at hsome
    cases hsome
  · intro hlt
    have hshort : (Nat.toDigits 10 (n.natAbs / 100000000)).length ≤ 10 := by
      apply Nat.toDigits_length 10 _ 10 (by omega)
      simp only [COIN] at hlt
      omega
    rw [if_neg (by omega)]

theorem parseMoney_formatMoney_below : parseMoney (formatMoney 999999999999999999) = some 999999999999999999 :=
  (parseMoney_formatMoney_iff 999999999999999999 (by decide)).mpr (by decide)

/-- Ten thousand million coins are in the money range of every network, and their text is refused. -/
theorem parseMoney_formatMoney_refused :
    mainParams.moneyRange (10000000000 * COIN) = true ∧ testNetParams.moneyRange (10000000000 * COIN) = true ∧
      regTestParams.moneyRange (10000000000 * COIN) = true ∧ formatMoney (10000000000 * COIN) = "10000000000.00" ∧
      parseMoney (formatMoney (10000000000 * COIN)) = none := by
  decide +kernel

end KrovaCoin
