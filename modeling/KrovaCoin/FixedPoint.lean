import KrovaCoin.Consensus.Params
import KrovaCoin.Lib.JsonNumber

/-!
# Amounts in JSON (`utilstrencodings.cpp`: `ParseFixedPoint`, `rpc/server.cpp`: `AmountFromValue`)

The parser reads a number in one pass. Zeros at the end of the digits read so far are counted, not multiplied in, so
that the mantissa stays small.

* `parseFixedPoint` — `ParseFixedPoint`, with every operation on `int64_t` and `int` checked.
* `amountFromValue`, `valueFromAmount` — `AmountFromValue`, `ValueFromAmount`.

Principal results: `parseFixedPoint_reads`, `parseFixedPoint_complete`, `json_amounts_exact`.
-/

namespace KrovaCoin

open Lib

/-! ## The model -/

/-- How `ParseFixedPoint` ends without an amount: it returns `false`, or an operation has no result. -/
inductive ParseStop where
  | refused
  | fault (f : Fault)
  deriving DecidableEq, Repr

/-- A result of type `int64_t`. -/
def parseInt64 (x : Int) : Except ParseStop Int := (checkInt64 x).mapError .fault

/-- A result of type `int`. -/
def parseInt32 (x : Int) : Except ParseStop Int := (checkInt32 x).mapError .fault

def UPPER_BOUND : Int := 9000000000000000000

/-- The mantissa, its deferred zeros and the number of digits after the point. -/
structure Mantissa where
  mantissa : Int
  mantissa_tzeros : Int
  point_ofs : Int

/-- The loop of `ProcessMantissaDigit`. -/
def scaleMantissa : Nat → Int → Except ParseStop Int
  | 0, mantissa => .ok mantissa
  | n + 1, mantissa =>
    if mantissa > UPPER_BOUND / 10 then .error .refused
    else do
      let mantissa ← parseInt64 (mantissa * 10)
      scaleMantissa n mantissa

/-- `ch - '0'`. -/
def digitValue (ch : Char) : Int := (ch.toNat : Int) - 48

/-- `ProcessMantissaDigit`; the counter of the loop runs up to `mantissa_tzeros + 1`. -/
def processMantissaDigit (ch : Char) (s : Mantissa) : Except ParseStop Mantissa :=
  if ch = '0' then do
    let mantissa_tzeros ← parseInt32 (s.mantissa_tzeros + 1)
    return { s with mantissa_tzeros }
  else do
    let i ← parseInt32 (s.mantissa_tzeros + 1)
    let mantissa ← scaleMantissa i.toNat s.mantissa
    let mantissa ← parseInt64 (mantissa + digitValue ch)
    return { s with mantissa, mantissa_tzeros := 0 }

/-- `while (ptr < end && IsDigit(val[ptr]))` over digits of the mantissa; those after the point are
counted. -/
def mantissaDigits (afterPoint : Bool) : List Char → Mantissa → Except ParseStop (Mantissa × List Char)
  | [], s => .ok (s, [])
  | ch :: rest, s =>
    if ch.isDigit then do
      let s ← processMantissaDigit ch s
      let point_ofs ← parseInt32 (s.point_ofs + if afterPoint then 1 else 0)
      mantissaDigits afterPoint rest { s with point_ofs }
    else .ok (s, ch :: rest)

/-- The digits before the point: a single zero, or digits that do not start with one. -/
def wholePart : List Char → Except ParseStop (Mantissa × List Char)
  | [] => .error .refused
  | ch :: rest =>
    if ch = '0' then .ok (⟨0, 0, 0⟩, rest)
    else if ch.isDigit then mantissaDigits false (ch :: rest) ⟨0, 0, 0⟩
    else .error .refused

/-- The digits after the point, if there is one. -/
def fractionPart (s : Mantissa) : List Char → Except ParseStop (Mantissa × List Char)
  | '.' :: ch :: rest =>
    if ch.isDigit then mantissaDigits true (ch :: rest) s else .error .refused
  | ['.'] => .error .refused
  | rest => .ok (s, rest)

def exponentDigits : List Char → Int → Except ParseStop (Int × List Char)
  | [], exponent => .ok (exponent, [])
  | ch :: rest, exponent =>
    if ch.isDigit then
      if exponent > UPPER_BOUND / 10 then .error .refused
      else do
        let exponent ← parseInt64 (exponent * 10)
        let exponent ← parseInt64 (exponent + ch.toNat)
        let exponent ← parseInt64 (exponent - 48)
        exponentDigits rest exponent
    else .ok (exponent, ch :: rest)

def exponentSign : List Char → Bool × List Char
  | '+' :: rest => (false, rest)
  | '-' :: rest => (true, rest)
  | rest => (false, rest)

/-- The exponent, if there is one: its sign, its size and the rest. -/
def exponentPart : List Char → Except ParseStop (Bool × Int × List Char)
  | [] => .ok (false, 0, [])
  | mark :: rest =>
    if mark = 'e' ∨ mark = 'E' then
      match exponentSign rest with
      | (_, []) => .error .refused
      | (exponent_sign, ch :: rest) =>
        if ch.isDigit then do
          let (exponent, rest) ← exponentDigits (ch :: rest) 0
          return (exponent_sign, exponent, rest)
        else .error .refused
    else .ok (false, 0, mark :: rest)

def scaleSigned : Nat → Int → Except ParseStop Int
  | 0, mantissa => .ok mantissa
  | n + 1, mantissa =>
    if mantissa > UPPER_BOUND / 10 ∨ mantissa < -(UPPER_BOUND / 10) then .error .refused
    else do
      let mantissa ← parseInt64 (mantissa * 10)
      scaleSigned n mantissa

/-- The part of `ParseFixedPoint` after the text has been read. -/
def finishAmount (decimals : Int) (mantissa_sign exponent_sign : Bool) (s : Mantissa)
    (exponent : Int) : Except ParseStop Int := do
  let exponent ← parseInt64 (if exponent_sign then -exponent else exponent)
  let exponent ← parseInt64 (exponent - s.point_ofs)
  let exponent ← parseInt64 (exponent + s.mantissa_tzeros)
  let mantissa ← parseInt64 (if mantissa_sign then -s.mantissa else s.mantissa)
  let exponent ← parseInt64 (exponent + decimals)
  if exponent < 0 then .error .refused
  else if exponent ≥ 19 then .error .refused
  else do
    let mantissa ← scaleSigned exponent.toNat mantissa
    if mantissa > UPPER_BOUND ∨ mantissa < -UPPER_BOUND then .error .refused
    else .ok mantissa

def mantissaSign : List Char → Bool × List Char
  | '-' :: rest => (true, rest)
  | rest => (false, rest)

def parseFixedPoint (val : List Char) (decimals : Int) : Except ParseStop Int := do
  let (mantissa_sign, rest) := mantissaSign val
  let (s, rest) ← wholePart rest
  let (s, rest) ← fractionPart s rest
  let (exponent_sign, exponent, rest) ← exponentPart rest
  if rest ≠ [] then .error .refused
  else finishAmount decimals mantissa_sign exponent_sign s exponent

/-! ## Computations without faults -/

/-- No fault; what is returned satisfies `P`, and something is returned if `C` holds. -/
def Reads {α : Type} (C : Prop) (x : Except ParseStop α) (P : α → Prop) : Prop :=
  match x with
  | .ok a => P a
  | .error .refused => ¬ C
  | .error (.fault _) => False

section Reads

variable {α β : Type} {C C' : Prop} {x : Except ParseStop α} {P Q : α → Prop}

theorem Reads.bind {f : α → Except ParseStop β} {R : β → Prop} (hx : Reads C x P) (hC : C' → C)
    (hf : ∀ a, P a → Reads C' (f a) R) : Reads C' (x >>= f) R := by
  match x, hx with
  | .ok a, ha => exact hf a ha
  | .error .refused, h => exact fun hC' => h (hC hC')

theorem Reads.mono (hx : Reads C x P) (hC : C' → C) (hPQ : ∀ a, P a → Q a) : Reads C' x Q := by
  match x, hx with
  | .ok a, ha => exact hPQ a ha
  | .error .refused, h => exact fun hC' => h (hC hC')

theorem Reads.of_ok (hx : Reads C x P) {a : α} (h : x = .ok a) : P a := by
  subst h
  exact hx

theorem Reads.no_fault (hx : Reads C x P) (f : Fault) : x ≠ .error (.fault f) := by
  rintro rfl
  exact hx

theorem Reads.exists_ok (hx : Reads C x P) (h : C) : ∃ a, x = .ok a ∧ P a := by
  match x, hx with
  | .ok a, ha => exact ⟨a, rfl, ha⟩
  | .error .refused, hnot => exact absurd h hnot

variable {f : Int → Except ParseStop α}

theorem reads_parseInt64 {y : Int} (h : InInt64 y) (hf : Reads C (f y) P) : Reads C (parseInt64 y >>= f) P := by
  have hy : parseInt64 y = .ok y := by
    rw [parseInt64, checkInt64_of h]
    rfl
  rwa [hy, ok_bind]

theorem reads_parseInt32 {y : Int} (h : InInt32 y) (hf : Reads C (f y) P) : Reads C (parseInt32 y >>= f) P := by
  have hy : parseInt32 y = .ok y := by
    rw [parseInt32, checkInt32_of h]
    rfl
  rwa [hy, ok_bind]

end Reads

/-! ## The mantissa -/

variable {ch : Char}

theorem digitValue_range (h : ch.isDigit = true) : 0 ≤ digitValue ch ∧ digitValue ch ≤ 9 := by
  simp only [Char.isDigit, Bool.and_eq_true, decide_eq_true_eq] at h
  have h48 : 48 ≤ ch.toNat := h.1
  have h57 : ch.toNat ≤ 57 := h.2
  unfold digitValue
  omega

theorem digitValue_pos (h : ch.isDigit = true) (hzero : ch ≠ '0') : 0 < digitValue ch := by
  refine lt_of_le_of_ne (digitValue_range h).1 fun heq => hzero (Char.toNat_inj.mp ?_)
  have h48 : ('0' : Char).toNat = 48 := rfl
  unfold digitValue at heq
  omega

theorem ofDigitChars_concat (cs : List Char) (h : ch.isDigit = true) :
    (Nat.ofDigitChars 10 (cs ++ [ch]) 0 : Int) = Nat.ofDigitChars 10 cs 0 * 10 + digitValue ch := by
  have hrange := digitValue_range h
  rw [ofDigitChars_append, ofDigitChars_cons]
  simp only [List.length_singleton, List.length_nil, pow_one, pow_zero, Nat.ofDigitChars_nil]
  unfold digitValue at hrange ⊢
  omega

/-- The state after the digits `cs`: their number is the mantissa with the deferred zeros, and the
mantissa has no zero at its end. -/
structure ReadSo (cs : List Char) (s : Mantissa) : Prop where
  value : s.mantissa * 10 ^ s.mantissa_tzeros.toNat = Nat.ofDigitChars 10 cs 0
  nonneg : 0 ≤ s.mantissa
  bound : s.mantissa ≤ UPPER_BOUND + 9
  tzeros : 0 ≤ s.mantissa_tzeros ∧ s.mantissa_tzeros ≤ cs.length
  stripped : s.mantissa = 0 ∨ s.mantissa % 10 ≠ 0

variable {cs : List Char} {s : Mantissa} {rest : List Char}

theorem ReadSo.set_point_ofs (h : ReadSo cs s) (point_ofs : Int) : ReadSo cs { s with point_ofs } :=
  ⟨h.value, h.nonneg, h.bound, h.tzeros, h.stripped⟩

theorem scaleMantissa_reads (n : Nat) {m : Int} (h0 : 0 ≤ m) (hm : m ≤ UPPER_BOUND + 9) :
    Reads (m * 10 ^ n ≤ UPPER_BOUND) (scaleMantissa n m) fun r => r = m * 10 ^ n ∧ 0 ≤ r ∧ (0 < n → r ≤ UPPER_BOUND) := by
  induction n generalizing m with
  | zero => exact ⟨by simp, h0, fun h => absurd h (by omega)⟩
  | succ n ih =>
    have hstep : m * 10 ^ (n + 1) = m * 10 * 10 ^ n := by rw [pow_succ', Int.mul_assoc]
    have hpow : m * 10 ≤ m * 10 * 10 ^ n := le_mul_of_one_le_right (by omega) (one_le_pow₀ (by omega))
    rw [scaleMantissa, hstep]
    unfold UPPER_BOUND at *
    split
    · exact fun hfit => by omega
    · refine reads_parseInt64 ⟨by omega, by omega⟩ ((ih (m := m * 10) (by omega) (by omega)).mono id ?_)
      rintro r ⟨hr, hr0, hrb⟩
      refine ⟨hr, hr0, fun _ => ?_⟩
      rcases Nat.eq_zero_or_pos n with rfl | hn
      · omega
      · exact hrb hn

theorem processMantissaDigit_reads (hs : ReadSo cs s) (hch : ch.isDigit = true) (hlen : cs.length + 1 < 2 ^ 31) :
    Reads (ch ≠ '0' → (Nat.ofDigitChars 10 (cs ++ [ch]) 0 : Int) ≤ UPPER_BOUND) (processMantissaDigit ch s) fun r =>
      ReadSo (cs ++ [ch]) r ∧ r.point_ofs = s.point_ofs := by
  have htz := hs.tzeros
  have hfit : InInt32 (s.mantissa_tzeros + 1) := ⟨by omega, by omega⟩
  have hlast := ofDigitChars_concat cs hch
  have hvalue : s.mantissa * 10 ^ (s.mantissa_tzeros + 1).toNat = Nat.ofDigitChars 10 cs 0 * 10 := by
    rw [show (s.mantissa_tzeros + 1).toNat = s.mantissa_tzeros.toNat + 1 by omega, pow_succ, ← Int.mul_assoc, hs.value]
  rw [processMantissaDigit]
  split
  · rename_i hzero
    subst hzero
    refine reads_parseInt32 hfit ⟨⟨?_, hs.nonneg, hs.bound, ?_, hs.stripped⟩, rfl⟩
    · rw [hlast, hvalue]
      simp [digitValue]
    · simp only [List.length_append, List.length_singleton]
      omega
  · rename_i hzero
    have hrange := digitValue_range hch
    have hpos := digitValue_pos hch hzero
    refine reads_parseInt32 hfit ((scaleMantissa_reads _ hs.nonneg hs.bound).bind (fun hle => ?_) ?_)
    · have := hle hzero
      omega
    rintro m ⟨hm, hm0, hmb⟩
    have hmb' := hmb (by omega)
    unfold UPPER_BOUND at hmb'
    refine reads_parseInt64 ⟨by omega, by omega⟩ ⟨⟨?_, by dsimp only; omega, ?_, ?_, ?_⟩, rfl⟩
    · rw [hlast, hm, hvalue]
      simp
    · dsimp only
      omega
    · dsimp only
      omega
    · right
      dsimp only
      omega

/-- Up to every digit other than zero the digits are in the bound. -/
def PrefixesFit (ds : List Char) : Prop :=
  ∀ front ch back, ds = front ++ ch :: back → ch ≠ '0' →
    (Nat.ofDigitChars 10 (front ++ [ch]) 0 : Int) ≤ UPPER_BOUND

/-- The text goes on with something else than a digit. -/
def EndsDigits (rest : List Char) : Prop := ∀ ch, rest.head? = some ch → ch.isDigit = false

theorem EndsDigits.nil : EndsDigits [] := fun _ h => by cases h

theorem EndsDigits.cons (h : ch.isDigit = false) : EndsDigits (ch :: rest) := fun _ h' => by cases h'; exact h

variable {ds : List Char}

/-- Digits read up to the end of the digits begin with a digit that is there. -/
theorem EndsDigits.eq_cons {val : List Char} (hend : EndsDigits rest) (hch : ch.isDigit = true)
    (hval : ch :: val = ds ++ rest) : ∃ ds', ds = ch :: ds' := by
  cases ds with
  | nil =>
    rw [hend ch (by rw [← List.nil_append rest, ← hval]; rfl)] at hch
    cases hch
  | cons d ds => exact ⟨ds, by rw [(List.cons.inj hval).1]⟩

theorem takeWhile_isDigit (hds : IsDigits ds) (hrest : EndsDigits rest) : (ds ++ rest).takeWhile Char.isDigit = ds := by
  rw [List.takeWhile_append_of_pos hds]
  cases rest with
  | nil => simp
  | cons ch rest => simp [hrest ch rfl]

/-- **The digits of the mantissa**, read as far as they go. -/
theorem mantissaDigits_reads (afterPoint : Bool) (hs : ReadSo cs s)
    (hofs : 0 ≤ s.point_ofs ∧ s.point_ofs ≤ cs.length) (hlen : cs.length + rest.length < 2 ^ 31) :
    Reads (PrefixesFit (cs ++ rest.takeWhile Char.isDigit)) (mantissaDigits afterPoint rest s) fun r =>
      ∃ ds, rest = ds ++ r.2 ∧ IsDigits ds ∧ EndsDigits r.2 ∧ ReadSo (cs ++ ds) r.1 ∧
        r.1.point_ofs = s.point_ofs + if afterPoint then (ds.length : Int) else 0 := by
  induction rest generalizing cs s with
  | nil => exact ⟨[], rfl, isDigits_nil, .nil, by simpa using hs, by simp⟩
  | cons ch rest ih =>
    simp only [List.length_cons] at hlen
    rw [mantissaDigits]
    split
    · rename_i hch
      rw [List.takeWhile_cons_of_pos hch]
      refine (processMantissaDigit_reads hs hch (by omega)).bind (fun hfit => hfit cs ch _ rfl) ?_
      rintro t ⟨ht, htofs⟩
      have hcs : ((cs ++ [ch]).length : Int) = cs.length + 1 := by simp
      refine reads_parseInt32 ⟨by omega, by omega⟩ ?_
      refine (ih (ht.set_point_ofs _) ?_ ?_).mono (fun hfit => by simpa using hfit) ?_
      · dsimp only
        omega
      · omega
      rintro r ⟨ds, hrest, hds, hend, hread, hr⟩
      refine ⟨ch :: ds, by rw [hrest]; rfl, isDigits_cons.mpr ⟨hch, hds⟩, hend, by simpa using hread,
        ?_⟩
      rw [hr, htofs, List.length_cons]
      split <;> push_cast <;> ring
    · rename_i hch
      exact ⟨[], rfl, isDigits_nil, .cons (by simpa using hch), by simpa using hs, by simp⟩

theorem mantissaDigits_ok (afterPoint : Bool) (hs : ReadSo cs s) (hofs : 0 ≤ s.point_ofs ∧ s.point_ofs ≤ cs.length)
    (hds : IsDigits ds) (hrest : EndsDigits rest) (hlen : cs.length + (ds ++ rest).length < 2 ^ 31)
    (hfit : PrefixesFit (cs ++ ds)) : ∃ r, mantissaDigits afterPoint (ds ++ rest) s = .ok (r, rest) := by
  rw [← takeWhile_isDigit hds hrest] at hfit
  obtain ⟨⟨r, rest'⟩, hrun, ds', hsplit, hds', hend, -⟩ := (mantissaDigits_reads afterPoint hs hofs hlen).exists_ok hfit
  have hsame := (takeWhile_isDigit hds hrest).symm.trans (hsplit ▸ takeWhile_isDigit hds' hend)
  rw [hsame] at hsplit
  obtain rfl := List.append_cancel_left hsplit
  exact ⟨r, hrun⟩

/-- A number that is an amount with zeros at its end. -/
def FitsBound (n : Nat) : Prop := ∃ m z, n = m * 10 ^ z ∧ (m : Int) ≤ UPPER_BOUND

theorem FitsBound.le (hch : ch.isDigit = true) (hzero : ch ≠ '0') (hds : IsDigits ds)
    (h : FitsBound (Nat.ofDigitChars 10 (cs ++ ch :: ds) 0)) :
    (Nat.ofDigitChars 10 (cs ++ [ch]) 0 : Int) ≤ UPPER_BOUND := by
  obtain ⟨m, z, hm, hle⟩ := h
  have hsplit : cs ++ ch :: ds = cs ++ [ch] ++ ds := by simp
  have hlast := ofDigitChars_concat cs hch
  have hlt := ofDigitChars_lt hds
  rw [hsplit, ofDigitChars_append] at hm
  generalize Nat.ofDigitChars 10 (cs ++ [ch]) 0 = head at *
  refine le_trans ?_ hle
  rcases le_or_gt z ds.length with hz | hz
  · have hpow : 10 ^ z ≤ 10 ^ ds.length := Nat.pow_le_pow_right (by omega) hz
    have : head * 10 ^ z ≤ m * 10 ^ z := by
      have := Nat.mul_le_mul_left head hpow
      omega
    exact_mod_cast Nat.le_of_mul_le_mul_right this (by positivity)
  · -- the zeros would reach into the digit
    exfalso
    have hpow : 10 ^ z = 10 ^ (z - ds.length - 1) * 10 * 10 ^ ds.length := by
      rw [← pow_succ, ← pow_add]
      congr 1
      omega
    rw [hpow, ← Nat.mul_assoc] at hm
    have hpos : 0 < 10 ^ ds.length := by positivity
    have hdiv := congrArg (· / 10 ^ ds.length) hm
    simp only [Nat.mul_div_cancel _ hpos] at hdiv
    rw [Nat.add_comm, Nat.add_mul_div_right _ _ hpos, Nat.div_eq_of_lt hlt, Nat.zero_add, ← Nat.mul_assoc] at hdiv
    have hrange := digitValue_range hch
    have hne := digitValue_pos hch hzero
    omega

theorem PrefixesFit.of_append {es : List Char} (h : PrefixesFit (ds ++ es)) : PrefixesFit ds := by
  rintro front ch back rfl hzero
  exact h front ch (back ++ es) (by simp) hzero

theorem FitsBound.prefixesFit (hds : IsDigits ds) (h : FitsBound (Nat.ofDigitChars 10 ds 0)) : PrefixesFit ds := by
  rintro front ch back rfl hzero
  obtain ⟨-, hrest⟩ := isDigits_append.mp hds
  obtain ⟨hch, hback⟩ := isDigits_cons.mp hrest
  exact h.le hch hzero hback

theorem exponentDigits_reads {e : Int} (he : e = Nat.ofDigitChars 10 cs 0) (hb : e ≤ UPPER_BOUND + 9) :
    Reads ((Nat.ofDigitChars 10 (cs ++ rest.takeWhile Char.isDigit) 0 : Int) ≤ UPPER_BOUND + 9)
      (exponentDigits rest e) fun r =>
      ∃ ds, rest = ds ++ r.2 ∧ IsDigits ds ∧ EndsDigits r.2 ∧
        r.1 = Nat.ofDigitChars 10 (cs ++ ds) 0 ∧ r.1 ≤ UPPER_BOUND + 9 := by
  induction rest generalizing cs e with
  | nil => exact ⟨[], rfl, isDigits_nil, .nil, by simpa using he, hb⟩
  | cons ch rest ih =>
    rw [exponentDigits]
    split
    · rename_i hch
      have hlast := ofDigitChars_concat cs hch
      have hrange := digitValue_range hch
      have hsplit : cs ++ ch :: rest.takeWhile Char.isDigit = cs ++ [ch] ++ rest.takeWhile Char.isDigit := by simp
      rw [List.takeWhile_cons_of_pos hch, hsplit]
      split
      · intro hfit
        have hpow : (1 : Int) ≤ 10 ^ (rest.takeWhile Char.isDigit).length := one_le_pow₀ (by omega)
        have := le_mul_of_one_le_right (Int.natCast_nonneg (Nat.ofDigitChars 10 (cs ++ [ch]) 0)) hpow
        rw [ofDigitChars_append] at hfit
        push_cast at hfit
        unfold UPPER_BOUND at *
        omega
      · unfold UPPER_BOUND at *
        unfold digitValue at *
        refine reads_parseInt64 ⟨by omega, by omega⟩ (reads_parseInt64 ⟨by omega, by omega⟩
          (reads_parseInt64 ⟨by omega, by omega⟩ ?_))
        have he' : e * 10 + ch.toNat - 48 = Nat.ofDigitChars 10 (cs ++ [ch]) 0 := by omega
        refine (ih he' (by omega)).mono id ?_
        rintro r ⟨ds, hrest, hds, hend, hr, hrb⟩
        exact ⟨ch :: ds, by rw [hrest]; rfl, isDigits_cons.mpr ⟨hch, hds⟩, hend, by simpa using hr,
          hrb⟩
    · rename_i hch
      exact ⟨[], rfl, isDigits_nil, .cons (by simpa using hch), by simpa using he, hb⟩

theorem exponentDigits_ok (hds : IsDigits ds) (hfit : (Nat.ofDigitChars 10 ds 0 : Int) ≤ UPPER_BOUND + 9) :
    exponentDigits ds 0 = .ok ((Nat.ofDigitChars 10 ds 0 : Int), []) := by
  have htake := takeWhile_isDigit hds .nil
  rw [List.append_nil] at htake
  obtain ⟨⟨e, rest⟩, hrun, ds', hsplit, hds', hend, he, -⟩ := (@exponentDigits_reads [] ds 0 (by simp) (by decide)).exists_ok
    (by rwa [htake])
  obtain rfl : ds' = ds := (takeWhile_isDigit hds' hend).symm.trans (hsplit ▸ htake)
  rw [List.self_eq_append_right] at hsplit
  subst hsplit
  rw [hrun, show e = _ from he, List.nil_append]

/-! ## The parts of the text -/

theorem upperBound_nonneg : 0 ≤ UPPER_BOUND + 9 := by decide

theorem readSo_nil : ReadSo [] ⟨0, 0, 0⟩ :=
  ⟨by simp, le_rfl, upperBound_nonneg, ⟨le_rfl, by simp⟩, .inl rfl⟩

variable {val : List Char}

theorem wholePart_reads (hlen : val.length < 2 ^ 31) : Reads False (wholePart val) fun r =>
      ∃ ds, val = ds ++ r.2 ∧ (IsDigits ds ∧ ds ≠ []) ∧ (ds = ['0'] ∨ ds.head? ≠ some '0') ∧
        ReadSo ds r.1 ∧ r.1.point_ofs = 0 := by
  cases val with
  | nil => exact id
  | cons ch rest =>
    rw [wholePart]
    split
    · rename_i hzero
      subst hzero
      exact ⟨['0'], rfl, ⟨isDigits_replicate_zero 1, by simp⟩, .inl rfl,
        ⟨by simp [ofDigitChars_cons], le_rfl, upperBound_nonneg, ⟨le_rfl, by simp⟩, .inl rfl⟩, rfl⟩
    · rename_i hzero
      split
      · rename_i hch
        refine (mantissaDigits_reads false readSo_nil ⟨le_rfl, le_rfl⟩ (by simpa using hlen)).mono False.elim ?_
        rintro r ⟨ds, hval, hds, hend, hread, hofs⟩
        obtain ⟨ds, rfl⟩ := hend.eq_cons hch hval
        exact ⟨ch :: ds, hval, ⟨hds, by simp⟩, .inr (by simpa using hzero), hread, by simpa using hofs⟩
      · exact id

theorem fractionPart_reads (hs : ReadSo cs s) (hofs : s.point_ofs = 0) (hlen : cs.length + val.length < 2 ^ 31) :
    Reads False (fractionPart s val) fun r => ∃ ds, val = fractionText ds ++ r.2 ∧ IsDigits ds ∧ ReadSo (cs ++ ds) r.1 ∧
        r.1.point_ofs = ds.length := by
  unfold fractionPart
  split
  · rename_i ch rest
    split
    · rename_i hch
      simp only [List.length_cons] at hlen
      refine (mantissaDigits_reads true hs (by omega) (by simp only [List.length_cons]; omega)).mono False.elim ?_
      rintro r ⟨ds, hval, hds, hend, hread, hr⟩
      refine ⟨ds, ?_, hds, hread, by simpa [hofs] using hr⟩
      obtain ⟨ds, rfl⟩ := hend.eq_cons hch hval
      rw [hval]
      rfl
    · exact id
  · exact id
  · exact ⟨[], rfl, isDigits_nil, by simpa using hs, by simpa using hofs⟩

theorem exponentSign_eq (val : List Char) : ∃ sign, val = sign ++ (exponentSign val).2 ∧
      (sign = [] ∨ sign = ['+'] ∨ sign = ['-']) ∧ ((exponentSign val).1 = true ↔ sign = ['-']) := by
  unfold exponentSign
  split
  · exact ⟨['+'], rfl, by simp, by simp⟩
  · exact ⟨['-'], rfl, by simp, by simp⟩
  · exact ⟨[], rfl, by simp, by simp⟩

theorem exponentPart_reads (val : List Char) : Reads False (exponentPart val) fun r =>
      ∃ e : Option JsonExponent, val = e.elim [] JsonExponent.chars ++ r.2.2 ∧
        (if r.1 then -r.2.1 else r.2.1) = e.elim 0 JsonExponent.value ∧
        0 ≤ r.2.1 ∧ r.2.1 ≤ UPPER_BOUND + 9 := by
  cases val with
  | nil => exact ⟨none, rfl, rfl, le_rfl, upperBound_nonneg⟩
  | cons mark rest =>
    rw [exponentPart]
    split
    · rename_i hmark
      obtain ⟨sign, hrest, hsign, hflag⟩ := exponentSign_eq rest
      split
      · exact id
      · rename_i exponent_sign ch rest' hsplit
        rw [hsplit] at hrest hflag
        split
        · rename_i hch
          have hzero : (0 : Int) = Nat.ofDigitChars 10 [] 0 := by simp
          refine (exponentDigits_reads hzero upperBound_nonneg).bind False.elim ?_
          rintro ⟨exponent, after⟩ ⟨ds, hval, hds, hend, hvalue, hbound⟩
          dsimp only at hval hvalue hbound hend
          obtain ⟨ds, rfl⟩ := hend.eq_cons hch hval
          refine ⟨some ⟨mark, sign, ch :: ds, hmark, hsign, hds, by simp⟩, ?_, ?_, ?_, hbound⟩
          · dsimp only [Option.elim, JsonExponent.chars]
            rw [hrest, hval]
            simp
          · dsimp only [Option.elim, JsonExponent.value, JsonExponent.magnitude]
            rw [hvalue, List.nil_append]
            by_cases h : exponent_sign = true
            · rw [if_pos h, if_pos (hflag.mp h)]
            · rw [if_neg h, if_neg (mt hflag.mpr h)]
          · dsimp only
            omega
        · exact id
    · exact ⟨none, rfl, rfl, le_rfl, upperBound_nonneg⟩

/-! ## The amount -/

theorem scaleSigned_reads (n : Nat) {m : Int} (hm : |m| ≤ UPPER_BOUND + 9) :
    Reads (|m * 10 ^ n| ≤ UPPER_BOUND) (scaleSigned n m) fun r => r = m * 10 ^ n := by
  induction n generalizing m with
  | zero => simp [Reads, scaleSigned]
  | succ n ih =>
    have hstep : m * 10 ^ (n + 1) = m * 10 * 10 ^ n := by rw [pow_succ', Int.mul_assoc]
    have hpow : |m * 10| ≤ |m * 10 * 10 ^ n| := by
      rw [abs_mul (m * 10)]
      exact le_mul_of_one_le_right (abs_nonneg _) (by rw [abs_of_nonneg (by positivity)]; exact one_le_pow₀ (by omega))
    rw [scaleSigned, hstep]
    unfold UPPER_BOUND at *
    split
    · intro hfit
      have := abs_le.mp (hpow.trans hfit)
      omega
    · exact reads_parseInt64 ⟨by omega, by omega⟩ (ih (abs_le.mpr ⟨by omega, by omega⟩))

/-- What is read, as `finishAmount` takes it. -/
structure ReadNumber (cs : List Char) (s : Mantissa) (exponent : Int) : Prop where
  mantissa : ReadSo cs s
  length : cs.length < 2 ^ 31
  point_ofs : 0 ≤ s.point_ofs ∧ s.point_ofs ≤ cs.length
  exponent : 0 ≤ exponent ∧ exponent ≤ UPPER_BOUND + 9

theorem finishAmount_reads {exponent : Int} (h : ReadNumber cs s exponent) (mantissa_sign exponent_sign : Bool) :
    Reads (∃ k : Nat, (k : Int) = (if exponent_sign then -exponent else exponent) - s.point_ofs
          + s.mantissa_tzeros + 8 ∧ k < 19 ∧
        |(if mantissa_sign then -s.mantissa else s.mantissa) * 10 ^ k| ≤ UPPER_BOUND)
      (finishAmount 8 mantissa_sign exponent_sign s exponent) fun r =>
      ∃ k : Nat, (k : Int) = (if exponent_sign then -exponent else exponent) - s.point_ofs
          + s.mantissa_tzeros + 8 ∧
        r = (if mantissa_sign then -s.mantissa else s.mantissa) * 10 ^ k ∧ |r| ≤ UPPER_BOUND := by
  obtain ⟨hm, hlen, hofs, he⟩ := h
  have h0 := hm.nonneg
  have hb := hm.bound
  have htz := hm.tzeros
  have hsigned : |if mantissa_sign then -s.mantissa else s.mantissa| ≤ UPPER_BOUND + 9 := by
    split <;> rw [abs_le] <;> omega
  have hes : -(UPPER_BOUND + 9) ≤ (if exponent_sign then -exponent else exponent) ∧
      (if exponent_sign then -exponent else exponent) ≤ UPPER_BOUND + 9 := by
    split <;> omega
  rw [finishAmount]
  generalize (if exponent_sign then -exponent else exponent) = e at *
  generalize (if mantissa_sign then -s.mantissa else s.mantissa) = m at *
  have hm' := abs_le.mp hsigned
  unfold UPPER_BOUND at hes hm'
  refine reads_parseInt64 ⟨by omega, by omega⟩ (reads_parseInt64 ⟨by omega, by omega⟩
    (reads_parseInt64 ⟨by omega, by omega⟩ (reads_parseInt64 ⟨by omega, by omega⟩
      (reads_parseInt64 ⟨by omega, by omega⟩ ?_))))
  split
  · exact fun ⟨k, hk, _⟩ => by omega
  split
  · exact fun ⟨k, hk, hsmall, _⟩ => by omega
  refine (scaleSigned_reads _ hsigned).bind (fun ⟨k, hk, _, hbound⟩ => ?_) ?_
  · rwa [← hk, Int.toNat_natCast]
  rintro r rfl
  split
  · rintro ⟨k, hk, -, hbound⟩
    have := abs_le.mp hbound
    rw [← Int.toNat_natCast k, hk] at this
    omega
  · exact ⟨_, Int.toNat_of_nonneg (by omega), rfl, abs_le.mpr ⟨by omega, by omega⟩⟩

variable {j : JsonNumber}

theorem amount_eq (hs : ReadSo (j.whole ++ j.fraction) s) : j.value * 10 ^ 8
      = ((j.sign * s.mantissa : Int) : ℚ) * 10 ^ (j.scale + s.mantissa_tzeros + 8) := by
  have hten : (10 : ℚ) ≠ 0 := by norm_num
  have htz : s.mantissa_tzeros = (s.mantissa_tzeros.toNat : Int) :=
    (Int.toNat_of_nonneg hs.tzeros.1).symm
  have hdigits : (j.significand : ℚ) = s.mantissa * 10 ^ s.mantissa_tzeros.toNat := by
    have := hs.value
    exact_mod_cast this.symm
  have height : (10 : ℚ) ^ (8 : Int) = 10 ^ 8 := by norm_cast
  rw [j.value_eq, hdigits, zpow_add₀ hten, zpow_add₀ hten, height, htz, zpow_natCast]
  push_cast
  simp only [Int.toNat_natCast]
  ring

variable {v : Int}

theorem eq_mul_ten_zpow {a x : Int} (h : (v : ℚ) = a * 10 ^ x) :
    (0 ≤ x → v = a * 10 ^ x.toNat) ∧ (x < 0 → v * 10 ^ (-x).toNat = a) := by
  have hten : (10 : ℚ) ≠ 0 := by norm_num
  constructor
  · intro hx
    rw [← Int.toNat_of_nonneg hx, zpow_natCast] at h
    exact_mod_cast h
  · intro hx
    have hpow : (10 : ℚ) ^ x * 10 ^ (-x).toNat = 1 := by
      rw [← zpow_natCast, Int.toNat_of_nonneg (by omega), ← zpow_add₀ hten]
      simp
    have : (v : ℚ) * 10 ^ (-x).toNat = a := by rw [h, mul_assoc, hpow, mul_one]
    exact_mod_cast this

theorem mantissaSign_eq (val : List Char) :
    val = (if (mantissaSign val).1 then ['-'] else []) ++ (mantissaSign val).2 := by
  unfold mantissaSign
  split <;> rfl

/-- **No fault, and an exact amount.** -/
theorem parseFixedPoint_reads (hlen : val.length < 2 ^ 31) : Reads False (parseFixedPoint val 8) fun v =>
      ∃ j : JsonNumber, j.chars = val ∧ (v : ℚ) = j.value * 10 ^ 8 ∧ |v| ≤ UPPER_BOUND := by
  obtain ⟨negative, rest0, hsign⟩ : ∃ a b, mantissaSign val = (a, b) := ⟨_, _, rfl⟩
  have hval := mantissaSign_eq val
  rw [hsign] at hval
  rw [parseFixedPoint, hsign]
  dsimp only at hval ⊢
  have hlen0 : rest0.length ≤ val.length := by rw [hval]; simp
  refine (wholePart_reads (by omega)).bind id ?_
  rintro ⟨s1, rest1⟩ ⟨whole, hrest0, hwhole, hlead, hread1, hofs1⟩
  have hlen1 : whole.length + rest1.length = rest0.length := by rw [hrest0]; simp
  refine (fractionPart_reads hread1 hofs1 (by dsimp only; omega)).bind id ?_
  rintro ⟨s2, rest2⟩ ⟨fraction, hrest1, hfraction, hread2, hofs2⟩
  dsimp only at hrest1 hread2 hofs2
  have hlen2 : fraction.length ≤ rest1.length := by
    have := length_le_fractionText fraction
    rw [hrest1, List.length_append]
    omega
  refine (exponentPart_reads rest2).bind id ?_
  rintro ⟨exponent_sign, exponent, rest3⟩ ⟨e, hrest2, hvalue, he⟩
  split
  · exact id
  · rename_i hend
    rw [ne_eq, not_not] at hend
    subst hend
    have hnumber : ReadNumber (whole ++ fraction) s2 exponent := by
      refine ⟨hread2, ?_, ?_, he⟩
      · rw [List.length_append]
        omega
      · rw [hofs2, List.length_append]
        omega
    refine (finishAmount_reads hnumber negative exponent_sign).mono False.elim ?_
    rintro v ⟨k, hk, hv, hbound⟩
    let j : JsonNumber := ⟨negative, whole, fraction, e, hwhole, hlead, hfraction⟩
    refine ⟨j, ?_, ?_, hbound⟩
    · rw [hval, hrest0, hrest1, hrest2, List.append_nil]
      rfl
    · have hscale : (k : Int) = j.scale + s2.mantissa_tzeros + 8 := by
        rw [hk, hvalue, hofs2]
        rfl
      have hamount := amount_eq (j := j) hread2
      rw [← hscale, zpow_natCast] at hamount
      rw [hamount, hv]
      cases negative <;> simp [j, JsonNumber.sign]

/-! ## Every number with an amount is read -/

theorem wholePart_ok {whole : List Char} (hwhole : IsDigits whole ∧ whole ≠ [])
    (hlead : whole = ['0'] ∨ whole.head? ≠ some '0') (hrest : EndsDigits rest)
    (hlen : (whole ++ rest).length < 2 ^ 31) (hfit : PrefixesFit whole) :
    ∃ s, wholePart (whole ++ rest) = .ok (s, rest) := by
  obtain ⟨hdigits, hne⟩ := hwhole
  cases whole with
  | nil => exact absurd rfl hne
  | cons ch ds =>
    rw [List.cons_append, wholePart]
    rcases hlead with hzero | hlead
    · cases hzero
      exact ⟨_, rfl⟩
    · rw [if_neg (by simpa using hlead), if_pos (isDigits_cons.mp hdigits).1]
      exact mantissaDigits_ok false readSo_nil ⟨le_rfl, le_rfl⟩ hdigits hrest (by simpa using hlen)
        (by simpa using hfit)

theorem fractionPart_ok {fraction : List Char} (hs : ReadSo cs s) (hofs : s.point_ofs = 0)
    (hfraction : IsDigits fraction) (hrest : EndsDigits rest) (hpoint : rest.head? ≠ some '.')
    (hlen : cs.length + (fractionText fraction ++ rest).length < 2 ^ 31)
    (hfit : PrefixesFit (cs ++ fraction)) : ∃ t, fractionPart s (fractionText fraction ++ rest) = .ok (t, rest) := by
  cases fraction with
  | nil =>
    refine ⟨s, ?_⟩
    rw [fractionText, if_pos rfl, List.nil_append]
    unfold fractionPart
    split
    · simp at hpoint
    · simp at hpoint
    · rfl
  | cons ch ds =>
    rw [fractionText, if_neg (by simp), List.cons_append, List.cons_append, fractionPart,
      if_pos (isDigits_cons.mp hfraction).1, ← List.cons_append]
    rw [fractionText, if_neg (by simp), List.cons_append, List.length_cons] at hlen
    exact mantissaDigits_ok true hs (by omega) hfraction hrest (by omega) hfit

theorem exponentSign_append {sign digits : List Char} (hsign : sign = [] ∨ sign = ['+'] ∨ sign = ['-'])
    (hdigits : IsDigits digits) : exponentSign (sign ++ digits) = (decide (sign = ['-']), digits) := by
  rcases hsign with rfl | rfl | rfl
  · rw [List.nil_append]
    unfold exponentSign
    split
    · have := (isDigits_cons.mp hdigits).1
      simp at this
    · have := (isDigits_cons.mp hdigits).1
      simp at this
    · simp
  · rfl
  · rfl

theorem exponentPart_ok {e : JsonExponent} (hbound : (e.magnitude : Int) ≤ UPPER_BOUND + 9) :
    exponentPart e.chars = .ok (decide (e.sign = ['-']), (e.magnitude : Int), []) := by
  have hread := exponentDigits_ok e.digits_ok hbound
  rw [JsonExponent.chars, exponentPart, if_pos e.mark_ok, exponentSign_append e.sign_ok e.digits_ok]
  cases hds : e.digits with
  | nil => exact absurd hds e.digits_ne
  | cons ch ds =>
    have hch : ch.isDigit = true := e.digits_ok ch (by rw [hds]; exact List.mem_cons_self)
    rw [hds] at hread
    dsimp only
    rw [if_pos hch, hread, ok_bind, JsonExponent.magnitude, hds]
    rfl

theorem exponentPart_chars (hexp : ∀ e, j.exponent = some e → (e.magnitude : Int) ≤ UPPER_BOUND + 9) :
    ∃ exponent_sign exponent, exponentPart j.exponentChars = .ok (exponent_sign, exponent, []) ∧
      (if exponent_sign then -exponent else exponent) = j.exponentValue ∧
      0 ≤ exponent ∧ exponent ≤ UPPER_BOUND + 9 := by
  unfold JsonNumber.exponentChars JsonNumber.exponentValue
  cases hj : j.exponent with
  | none => exact ⟨false, 0, rfl, rfl, le_rfl, upperBound_nonneg⟩
  | some e =>
    refine ⟨_, _, exponentPart_ok (hexp e hj), ?_, Int.natCast_nonneg _, hexp e hj⟩
    simp only [decide_eq_true_eq]
    rfl

theorem exponentChars_head (j : JsonNumber) : EndsDigits j.exponentChars ∧ j.exponentChars.head? ≠ some '.' := by
  unfold JsonNumber.exponentChars
  cases j.exponent with
  | none => exact ⟨.nil, by simp⟩
  | some e =>
    dsimp only [Option.elim, JsonExponent.chars]
    rcases e.mark_ok with h | h <;> rw [h] <;> exact ⟨.cons (by decide), by simp⟩

theorem fractionText_head (fraction : List Char) (h : EndsDigits rest) :
    EndsDigits (fractionText fraction ++ rest) := by
  unfold fractionText
  split
  · exact h
  · exact .cons (by decide)

theorem mantissaSign_chars (j : JsonNumber) : mantissaSign j.chars
      = (j.negative, j.whole ++ (fractionText j.fraction ++ j.exponentChars)) := by
  obtain ⟨hdigits, hne⟩ := j.whole_ok
  unfold JsonNumber.chars
  cases j.negative with
  | true => rfl
  | false =>
    cases hw : j.whole with
    | nil => exact absurd hw hne
    | cons ch ds =>
      have hch : ch.isDigit = true := hdigits ch (by rw [hw]; exact List.mem_cons_self)
      unfold mantissaSign
      split
      · rename_i heq
        cases heq
        simp at hch
      · rfl

theorem JsonNumber.natAbs_sign_mul (j : JsonNumber) (n : Int) : (j.sign * n).natAbs = n.natAbs := by
  unfold JsonNumber.sign
  split <;> simp

theorem significand_fits (hv : (v : ℚ) = j.value * 10 ^ 8) (hb : |v| ≤ UPPER_BOUND) : FitsBound j.significand := by
  have hten : (10 : ℚ) ≠ 0 := by norm_num
  have height : (10 : ℚ) ^ (8 : Int) = 10 ^ 8 := by norm_cast
  have heq : (v : ℚ) = ((j.sign * j.significand : Int) : ℚ) * 10 ^ (j.scale + 8) := by
    rw [hv, j.value_eq, zpow_add₀ hten, height]
    push_cast
    ring
  obtain ⟨hpos, hneg⟩ := eq_mul_ten_zpow heq
  have habs : (v.natAbs : Int) ≤ UPPER_BOUND := by rwa [Int.natCast_natAbs]
  rcases lt_or_ge (j.scale + 8) 0 with hx | hx
  · refine ⟨v.natAbs, (-(j.scale + 8)).toNat, ?_, habs⟩
    have h := congrArg Int.natAbs (hneg hx)
    rw [JsonNumber.natAbs_sign_mul, Int.natAbs_mul, Int.natAbs_pow] at h
    simpa using h.symm
  · refine ⟨j.significand, 0, by simp, ?_⟩
    have h := congrArg Int.natAbs (hpos hx)
    rw [Int.natAbs_mul, JsonNumber.natAbs_sign_mul, Int.natAbs_pow] at h
    have hle : j.significand ≤ v.natAbs := by
      rw [h]
      exact Nat.le_mul_of_pos_right _ (Nat.pow_pos (by decide))
    omega

/-- The mantissa of a number with an amount is shifted by less than 19 places, and to the left. -/
theorem amount_shift (hs : ReadSo (j.whole ++ j.fraction) s) (hne : j.value ≠ 0) (hv : (v : ℚ) = j.value * 10 ^ 8)
    (hb : |v| ≤ UPPER_BOUND) : ∃ k : Nat, (k : Int) = j.scale + s.mantissa_tzeros + 8 ∧ k < 19 ∧
      v = j.sign * s.mantissa * 10 ^ k := by
  have heq := hv.trans (amount_eq hs)
  have hm : s.mantissa ≠ 0 := by
    intro h0
    have hzero : j.value * 10 ^ 8 = 0 := by rw [amount_eq hs, h0]; simp
    exact hne (by simpa using hzero)
  have hstrip := hs.stripped.resolve_left hm
  have hsign : j.sign = 1 ∨ j.sign = -1 := by
    unfold JsonNumber.sign
    split <;> simp
  obtain ⟨hpos, hneg⟩ := eq_mul_ten_zpow heq
  generalize j.scale + s.mantissa_tzeros + 8 = x at *
  have hx0 : 0 ≤ x := by
    -- shifted to the right, the mantissa would end with a zero
    by_contra hx
    have hright := hneg (by omega)
    obtain ⟨k, hk⟩ : ∃ k, (-x).toNat = k + 1 := ⟨(-x).toNat - 1, by omega⟩
    rw [hk, pow_succ, ← mul_assoc] at hright
    rcases hsign with h | h <;> rw [h] at hright <;> omega
  have hleft := hpos hx0
  refine ⟨x.toNat, Int.toNat_of_nonneg hx0, ?_, hleft⟩
  by_contra hbig
  have hpow : (10 : Nat) ^ 19 ≤ 10 ^ x.toNat := Nat.pow_le_pow_right (by decide) (by omega)
  have habs := congrArg Int.natAbs hleft
  rw [Int.natAbs_mul, JsonNumber.natAbs_sign_mul, Int.natAbs_pow] at habs
  have hge : 10 ^ x.toNat ≤ v.natAbs := by
    rw [habs]
    exact Nat.le_mul_of_pos_left _ (Int.natAbs_pos.mpr hm)
  rw [← Int.natCast_natAbs] at hb
  unfold UPPER_BOUND at hb
  omega

/-- **Every number with an amount is read.** -/
theorem parseFixedPoint_complete (hlen : j.chars.length < 2 ^ 31) (hne : j.value ≠ 0)
    (hv : (v : ℚ) = j.value * 10 ^ 8) (hb : |v| ≤ UPPER_BOUND)
    (hexp : ∀ e, j.exponent = some e → (e.magnitude : Int) ≤ UPPER_BOUND + 9) :
    parseFixedPoint j.chars 8 = .ok v := by
  have hdigits : IsDigits (j.whole ++ j.fraction) :=
    isDigits_append.mpr ⟨j.whole_ok.1, j.fraction_ok⟩
  have hfit := (significand_fits hv hb).prefixesFit hdigits
  have hlens : (j.whole ++ (fractionText j.fraction ++ j.exponentChars)).length < 2 ^ 31 := by
    unfold JsonNumber.chars at hlen
    simp only [List.length_append] at hlen ⊢
    omega
  have hlens' := hlens
  have hpad := length_le_fractionText j.fraction
  simp only [List.length_append] at hlens'
  obtain ⟨hend, hpoint⟩ := exponentChars_head j
  -- the digits before and after the point
  obtain ⟨s1, hwhole⟩ := wholePart_ok j.whole_ok j.whole_lead
    (fractionText_head j.fraction hend) hlens hfit.of_append
  obtain ⟨ds, hds, -, -, hread1, hofs1⟩ := (wholePart_reads hlens).of_ok hwhole
  obtain rfl := List.append_cancel_right hds
  rw [List.length_append] at hlens
  obtain ⟨s2, hfraction⟩ := fractionPart_ok hread1 hofs1 j.fraction_ok hend hpoint hlens hfit
  obtain ⟨ds, hds, -, hread2, hofs2⟩ := (fractionPart_reads hread1 hofs1 hlens).of_ok hfraction
  obtain rfl := fractionText_inj (List.append_cancel_right hds)
  -- the exponent and the shift
  obtain ⟨exponent_sign, exponent, hpart, hvalue, hexponent⟩ := exponentPart_chars hexp
  obtain ⟨k, hk, hsmall, hamount⟩ := amount_shift hread2 hne hv hb
  have hnumber : ReadNumber (j.whole ++ j.fraction) s2 exponent := by
    refine ⟨hread2, by rw [List.length_append]; omega, ?_, hexponent⟩
    rw [hofs2, List.length_append]
    omega
  have hshift : (k : Int) = (if exponent_sign then -exponent else exponent) - s2.point_ofs
      + s2.mantissa_tzeros + 8 := by
    rw [hvalue, hofs2, hk]
    rfl
  have hsigned : (if j.negative then -s2.mantissa else s2.mantissa) * 10 ^ k = v := by
    rw [hamount, JsonNumber.sign]
    split <;> simp
  obtain ⟨r, hfinish, k', hk', rfl, -⟩ := (finishAmount_reads hnumber j.negative exponent_sign).exists_ok
    ⟨k, hshift, hsmall, by rwa [hsigned]⟩
  obtain rfl : k' = k := by omega
  rw [parseFixedPoint, mantissaSign_chars]
  dsimp only
  rw [hwhole, ok_bind, hfraction, ok_bind, hpart, ok_bind, if_neg (by simp), hfinish, hsigned]

/-! ## Amounts of the remote procedure calls -/

/-- `UniValue`, as far as amounts look at it: numbers and strings keep their text. -/
inductive UniValue where
  | VNUM (val : List Char)
  | VSTR (val : List Char)
  | other

/-- How `AmountFromValue` throws, or a fault. -/
inductive AmountError where
  | rpcTypeError (message : String)
  | fault (f : Fault)

def amountFromValue (p : Params) (value : UniValue) : Except AmountError Int :=
  match value with
  | .other => .error (.rpcTypeError "Amount is not a number or string")
  | .VNUM val | .VSTR val =>
    match parseFixedPoint val 8 with
    | .error .refused => .error (.rpcTypeError "Invalid amount")
    | .error (.fault f) => .error (.fault f)
    | .ok nAmount =>
      if !p.moneyRange nAmount then .error (.rpcTypeError "Amount out of range") else .ok nAmount

def valueFromAmount (amount : Int) : Checked UniValue := do
  let sign := decide (amount < 0)
  let n_abs ← checkInt64 (if sign then -amount else amount)
  let quotient := n_abs.tdiv COIN
  let remainder := n_abs.tmod COIN
  return .VNUM ((if sign then ['-'] else []) ++ Nat.toDigits 10 quotient.toNat ++ '.' ::
    padDigits 8 remainder.toNat)

/-- The number that `ValueFromAmount` writes. -/
def amountNumber (n : Nat) : JsonNumber where
  negative := false
  whole := Nat.toDigits 10 (n / 100000000)
  fraction := padDigits 8 (n % 100000000)
  exponent := none
  whole_ok := ⟨isDigits_toDigits _, Nat.toDigits_ne_nil⟩
  whole_lead := toDigits_lead _
  fraction_ok := isDigits_padDigits _ _

theorem length_fraction_amountNumber (n : Nat) : (amountNumber n).fraction.length = 8 :=
  length_padDigits (by decide) (Nat.mod_lt n (by decide))

theorem value_amountNumber (n : Nat) : (amountNumber n).value * 10 ^ 8 = (n : ℚ) := by
  have hsig : (amountNumber n).significand = n := by
    rw [JsonNumber.significand, ofDigitChars_append, length_fraction_amountNumber]
    simp only [amountNumber, Nat.ofDigitChars_ten_toDigits, ofDigitChars_padDigits]
    omega
  have hscale : (amountNumber n).scale = -8 := by
    rw [JsonNumber.scale, length_fraction_amountNumber]
    rfl
  rw [JsonNumber.value_eq, hsig, hscale]
  have hpow : (10 : ℚ) ^ (-8 : Int) * 10 ^ 8 = 1 := by norm_num
  simp only [JsonNumber.sign, amountNumber, Bool.false_eq_true, if_false, Int.cast_one, one_mul]
  rw [mul_assoc, hpow, mul_one]

theorem chars_amountNumber (n : Nat) : (amountNumber n).chars
      = Nat.toDigits 10 (n / 100000000) ++ '.' :: padDigits 8 (n % 100000000) := by
  have hne : padDigits 8 (n % 100000000) ≠ [] := by
    have := length_fraction_amountNumber n
    intro h
    rw [amountNumber] at this
    simp [h] at this
  simp only [JsonNumber.chars, amountNumber, fractionText, hne, JsonNumber.exponentChars, if_false,
    Bool.false_eq_true, List.nil_append, Option.elim, List.append_nil]

theorem valueFromAmount_eq {n : Nat} (h : InInt64 n) : valueFromAmount n = .ok (.VNUM (amountNumber n).chars) := by
  have hsign : decide ((n : Int) < 0) = false := by simp
  rw [valueFromAmount, chars_amountNumber]
  rw [hsign, if_neg (by simp), if_neg (by simp), checkInt64_of h, ok_bind]
  rfl

theorem parseFixedPoint_amountNumber {n : Nat} (h : (n : Int) ≤ UPPER_BOUND) :
    parseFixedPoint (amountNumber n).chars 8 = .ok (n : Int) := by
  rcases Nat.eq_zero_or_pos n with rfl | hpos
  · rfl
  · have hvalue := value_amountNumber n
    refine parseFixedPoint_complete ?_ ?_ ?_ ?_ ?_
    · have hwhole : (Nat.toDigits 10 (n / 100000000)).length ≤ 11 := by
        rw [Nat.length_toDigits_le_iff (by decide) (by decide)]
        unfold UPPER_BOUND at h
        omega
      have hfraction := length_fraction_amountNumber n
      rw [chars_amountNumber, List.length_append, List.length_cons]
      simp only [amountNumber] at hfraction
      omega
    · intro hzero
      rw [hzero, zero_mul] at hvalue
      have : n = 0 := by exact_mod_cast hvalue.symm
      omega
    · rw [hvalue]
      simp
    · rwa [abs_of_nonneg (Int.natCast_nonneg n)]
    · intro e he
      cases he

/-- **JSON amounts are exact.** -/
theorem json_amounts_exact : (∀ val : List Char, val.length < 2 ^ 31 → (∀ v, parseFixedPoint val 8 = .ok v →
        ∃ j : JsonNumber, j.chars = val ∧ (v : ℚ) = j.value * 10 ^ 8 ∧ |v| ≤ 9 * 10 ^ 18) ∧
      (∀ j : JsonNumber, j.chars = val → j.value ≠ 0 → (∀ e, j.exponent = some e → e.magnitude ≤ 9 * 10 ^ 18 + 9) →
        ∀ v : Int, (v : ℚ) = j.value * 10 ^ 8 → |v| ≤ 9 * 10 ^ 18 → parseFixedPoint val 8 = .ok v) ∧
      ∀ f, parseFixedPoint val 8 ≠ .error (.fault f)) ∧
    ∀ (p : Params) (a : Int), p.nMaxMoneyOut ≤ 9 * 10 ^ 18 → p.moneyRange a = true →
      ∃ value, valueFromAmount a = .ok value ∧ amountFromValue p value = .ok a := by
  have hbound : (9 * 10 ^ 18 : Int) = UPPER_BOUND := rfl
  refine ⟨fun val hlen => ⟨fun v hv => (parseFixedPoint_reads hlen).of_ok hv, ?_,
    (parseFixedPoint_reads hlen).no_fault⟩, ?_⟩
  · rintro j rfl hne hexp v hv hb
    refine parseFixedPoint_complete hlen hne hv hb fun e he => ?_
    have := hexp e he
    omega
  · intro p a hmax ha
    obtain ⟨h0, hle⟩ := (p.moneyRange_iff a).mp ha
    obtain ⟨n, rfl⟩ := Int.eq_ofNat_of_zero_le h0
    have hfit : InInt64 n := by
      exact ⟨by omega, by omega⟩
    refine ⟨_, valueFromAmount_eq hfit, ?_⟩
    rw [amountFromValue, parseFixedPoint_amountNumber (hle.trans hmax)]
    simp [ha]

theorem supply_roundTrip : ∃ value, valueFromAmount (72000000000 * COIN) = .ok value ∧
      amountFromValue mainParams value = .ok (72000000000 * COIN) :=
  json_amounts_exact.2 mainParams (72000000000 * COIN) (by decide) (by decide)

end KrovaCoin
