import KrovaCoin.Lib.Except

/-!
# Byte codecs

A `Codec` writes the values of a type as bytes and reads them back from the front of a stream. What it writes for a
valid value is read back whatever follows, so the bytes of consecutive values can be taken apart again.

Principal results: `write_append_inj`, `flatMap_write_inj`.
-/

namespace KrovaCoin.Lib

/-! ## Little-endian numbers -/

/-- The `width` low bytes of a number, the lowest first. -/
def leBytes : Nat → Nat → List UInt8
  | 0, _ => []
  | width + 1, n => UInt8.ofNat n :: leBytes width (n / 256)

/-- The number with the given bytes. -/
def leValue : List UInt8 → Nat
  | [] => 0
  | b :: rest => b.toNat + 256 * leValue rest

@[simp] theorem leBytes_length : ∀ (width n : Nat), (leBytes width n).length = width
  | 0, _ => rfl
  | width + 1, n => by simp [leBytes, leBytes_length width]

theorem leValue_leBytes : ∀ {width n : Nat}, n < 256 ^ width → leValue (leBytes width n) = n
  | 0, n, h => by
    have : n = 0 := by simpa using h
    simp [leBytes, leValue, this]
  | width + 1, n, h => by
    have hdiv : n / 256 < 256 ^ width := by
      rw [Nat.div_lt_iff_lt_mul (by decide)]
      exact h
    simp only [leBytes, leValue, leValue_leBytes hdiv, UInt8.toNat_ofNat']
    omega

/-! ## Codecs -/

/-- A way to write the values of a type as bytes and to read them back. -/
structure Codec (α : Type) where
  write : α → List UInt8
  read : List UInt8 → Except String (α × List UInt8)
  /-- The values that are read back. -/
  Valid : α → Prop
  read_write : ∀ a rest, Valid a → read (write a ++ rest) = .ok (a, rest)

namespace Codec

variable {α β : Type}

/-- **A valid value can be taken off the front of a stream.** -/
theorem write_append_inj (c : Codec α) {a b : α} {r s : List UInt8} (ha : c.Valid a) (hb : c.Valid b)
    (h : c.write a ++ r = c.write b ++ s) : a = b ∧ r = s := by
  have hread := c.read_write a r ha
  rw [h, c.read_write b s hb] at hread
  cases hread
  exact ⟨rfl, rfl⟩

theorem write_inj (c : Codec α) {a b : α} (ha : c.Valid a) (hb : c.Valid b) (h : c.write a = c.write b) : a = b :=
  (c.write_append_inj (r := []) (s := []) ha hb (by rw [h])).1

/-- Values that are written with at least one byte can be taken off a stream up to its end. -/
theorem flatMap_write_inj (c : Codec α) (hne : ∀ a, c.write a ≠ []) : ∀ {as bs : List α},
    (∀ a ∈ as, c.Valid a) → (∀ b ∈ bs, c.Valid b) → as.flatMap c.write = bs.flatMap c.write → as = bs
  | [], [], _, _, _ => rfl
  | [], b :: bs, _, _, h => by
    exact absurd (List.append_eq_nil_iff.mp h.symm).1 (hne b)
  | a :: as, [], _, _, h => by
    exact absurd (List.append_eq_nil_iff.mp h).1 (hne a)
  | a :: as, b :: bs, has, hbs, h => by
    rw [List.forall_mem_cons] at has hbs
    obtain ⟨hab, hrest⟩ := c.write_append_inj has.1 hbs.1 h
    rw [hab, flatMap_write_inj c hne has.2 hbs.2 hrest]

/-- The exception for a stream that ends too early. -/
def endOfData : String := "CDataStream::read(): end of data"

/-- Byte strings of length `n`. -/
def bytes (n : Nat) : Codec (List UInt8) where
  write b := b
  read s := if n ≤ s.length then .ok (s.take n, s.drop n) else .error endOfData
  Valid b := b.length = n
  read_write b rest h := by
    rw [if_pos (by simp; omega), List.take_left' h, List.drop_left' h]

/-- Reads through a map that undoes the one written through. -/
def imap (c : Codec α) (f : α → β) (g : β → α) : Codec β where
  write b := c.write (g b)
  read s := do
    let (a, rest) ← c.read s
    return (f a, rest)
  Valid b := c.Valid (g b) ∧ f (g b) = b
  read_write b rest h := by
    rw [c.read_write _ _ h.1]
    simp [h.2, pure, Except.pure]

/-- Little-endian numbers of `width` bytes. -/
def nat (width : Nat) : Codec Nat where
  write n := leBytes width n
  read s := do
    let (b, rest) ← (bytes width).read s
    return (leValue b, rest)
  Valid n := n < 256 ^ width
  read_write n rest h := by
    have hread := (bytes width).read_write (leBytes width n) rest (leBytes_length width n)
    rw [show leBytes width n ++ rest = (bytes width).write (leBytes width n) ++ rest from rfl, hread]
    simp [leValue_leBytes h, pure, Except.pure]

/-- Two's complement numbers of `width` bytes. -/
def int (width : Nat) : Codec Int :=
  (nat width).imap (fun n => if n < 256 ^ width / 2 then n else (n : Int) - 256 ^ width)
    fun i => (i % 256 ^ width).toNat

theorem int_valid {width : Nat} {i : Int} (hpos : 0 < width) (h : -(256 ^ width / 2) ≤ i ∧ i < 256 ^ width / 2) :
    (int width).Valid i := by
  obtain ⟨half, hhalf⟩ : ∃ half : Nat, 256 ^ width = 2 * half := by
    obtain ⟨w, rfl⟩ : ∃ w, width = w + 1 := ⟨width - 1, by omega⟩
    exact ⟨128 * 256 ^ w, by rw [Nat.pow_succ]; omega⟩
  have hhalfInt : (256 : Int) ^ width = 2 * half := by exact_mod_cast hhalf
  show (i % 256 ^ width).toNat < 256 ^ width ∧ (if (i % 256 ^ width).toNat < 256 ^ width / 2
    then ((i % 256 ^ width).toNat : Int) else ((i % 256 ^ width).toNat : Int) - 256 ^ width) = i
  have hmod : i % 256 ^ width = if 0 ≤ i then i else i + 256 ^ width := by
    split
    · exact Int.emod_eq_of_lt (by omega) (by omega)
    · rw [← Int.add_emod_right]
      exact Int.emod_eq_of_lt (by omega) (by omega)
  split <;> omega

/-- Arrays of `n` bytes. -/
def byteArray (n : Nat) : Codec (Vector UInt8 n) :=
  (bytes n).imap (fun b => if h : b.length = n then ⟨b.toArray, by simpa using h⟩ else .replicate n 0) Vector.toList

theorem byteArray_valid {n : Nat} (v : Vector UInt8 n) : (byteArray n).Valid v := by
  have hlen : v.toList.length = n := by simp
  refine ⟨hlen, ?_⟩
  dsimp only
  rw [dif_pos hlen]
  exact Vector.toArray_inj.mp Array.toArray_toList

def byte : Codec UInt8 where
  write b := [b]
  read
    | [] => .error endOfData
    | b :: s => .ok (b, s)
  Valid _ := True
  read_write _ _ _ := rfl

/-- Reads a value and refuses it if a test fails. -/
def guarded (c : Codec α) (test : α → Except String Unit) : Codec α where
  write := c.write
  read s := do
    let (a, rest) ← c.read s
    test a
    return (a, rest)
  Valid a := c.Valid a ∧ test a = .ok ()
  read_write a rest h := by
    rw [c.read_write _ _ h.1]
    simp [h.2, pure, Except.pure]

/-- Two values, one after the other. -/
def pair (c : Codec α) (d : Codec β) : Codec (α × β) where
  write x := c.write x.1 ++ d.write x.2
  read s := do
    let (a, s) ← c.read s
    let (b, s) ← d.read s
    return ((a, b), s)
  Valid x := c.Valid x.1 ∧ d.Valid x.2
  read_write x rest h := by
    simp only [List.append_assoc, c.read_write _ _ h.1, ok_bind, d.read_write _ _ h.2]
    rfl

/-- A byte that says whether a value follows. -/
def option (c : Codec α) : Codec (Option α) where
  write
    | none => [0]
    | some a => 1 :: c.write a
  read
    | [] => .error endOfData
    | discriminant :: s =>
      if discriminant = 0 then .ok (none, s)
      else do
        let (a, rest) ← c.read s
        return (some a, rest)
  Valid x := ∀ a ∈ x, c.Valid a
  read_write
    | none, _, _ => rfl
    | some a, rest, h => by
      show (c.read (c.write a ++ rest) >>= _) = _
      rw [c.read_write a rest (h a rfl)]
      rfl

/-! ## Vectors -/

/-- The most elements that are read. -/
def MAX_SIZE : Nat := 0x02000000

def writeCompactSize (n : Nat) : List UInt8 :=
  if n < 253 then leBytes 1 n
  else if n ≤ 0xffff then 253 :: leBytes 2 n
  else if n ≤ 0xffffffff then 254 :: leBytes 4 n
  else 255 :: leBytes 8 n

/-- The wide forms of `ReadCompactSize`: a number of the given width that needs it. -/
def readWide (width least : Nat) (s : List UInt8) : Except String (Nat × List UInt8) := do
  let (n, rest) ← (nat width).read s
  rejectIf (decide (n < least)) "non-canonical ReadCompactSize()"
  rejectIf (decide (n > MAX_SIZE)) "ReadCompactSize(): size too large"
  return (n, rest)

def readCompactSize : List UInt8 → Except String (Nat × List UInt8)
  | [] => .error endOfData
  | chSize :: s =>
    if chSize < 253 then .ok (chSize.toNat, s)
    else if chSize = 253 then readWide 2 253 s
    else if chSize = 254 then readWide 4 0x10000 s
    else readWide 8 0x100000000 s

theorem readWide_leBytes {width least n : Nat} (rest : List UInt8) (hlt : n < 256 ^ width) (hge : least ≤ n)
    (hmax : n ≤ MAX_SIZE) : readWide width least (leBytes width n ++ rest) = .ok (n, rest) := by
  have hread := (nat width).read_write n rest hlt
  rw [readWide, show leBytes width n ++ rest = (nat width).write n ++ rest from rfl, hread, ok_bind]
  dsimp only
  rw [decide_eq_false (by omega : ¬ n < least), decide_eq_false (by omega : ¬ n > MAX_SIZE)]
  rfl

/-- Numbers up to `MAX_SIZE`, in one, three or five bytes. -/
def compactSize : Codec Nat where
  write := writeCompactSize
  read := readCompactSize
  Valid n := n ≤ MAX_SIZE
  read_write n rest h := by
    have hmax : n ≤ 33554432 := h
    unfold writeCompactSize
    split
    · rename_i hsmall
      have hbyte : (UInt8.ofNat n).toNat = n := by rw [UInt8.toNat_ofNat']; omega
      have hlt : UInt8.ofNat n < 253 := by
        rw [UInt8.lt_iff_toNat_lt, hbyte]
        exact hsmall
      simp [leBytes, readCompactSize, hlt, hbyte]
    · split
      · exact readWide_leBytes rest (by omega) (by omega) h
      · rw [if_pos (by omega)]
        exact readWide_leBytes rest (by omega) (by omega) h

/-- Reads `n` values. -/
def readMany (c : Codec α) : Nat → List UInt8 → Except String (List α × List UInt8)
  | 0, s => .ok ([], s)
  | n + 1, s => do
    let (a, s) ← c.read s
    let (as, s) ← readMany c n s
    return (a :: as, s)

theorem readMany_write (c : Codec α) : ∀ {as : List α} (rest : List UInt8), (∀ a ∈ as, c.Valid a) →
    readMany c as.length (as.flatMap c.write ++ rest) = .ok (as, rest)
  | [], _, _ => rfl
  | a :: as, rest, h => by
    rw [List.forall_mem_cons] at h
    simp only [List.flatMap_cons, List.append_assoc, List.length_cons, readMany, c.read_write _ _ h.1,
      ok_bind, readMany_write c rest h.2]
    rfl

/-- A vector: the number of its elements, then the elements. -/
def list (c : Codec α) : Codec (List α) where
  write as := compactSize.write as.length ++ as.flatMap c.write
  read s := do
    let (n, s) ← compactSize.read s
    readMany c n s
  Valid as := as.length ≤ MAX_SIZE ∧ ∀ a ∈ as, c.Valid a
  read_write as rest h := by
    rw [List.append_assoc, compactSize.read_write _ _ h.1, ok_bind]
    exact readMany_write c rest h.2

def byteVector : Codec (List UInt8) := byte.list

theorem byteVector_write (b : List UInt8) : byteVector.write b = writeCompactSize b.length ++ b := by
  show writeCompactSize b.length ++ b.flatMap (fun b => [b]) = _
  rw [List.flatMap_singleton']

theorem byteVector_valid {b : List UInt8} (h : b.length ≤ MAX_SIZE) : byteVector.Valid b :=
  ⟨h, fun _ _ => trivial⟩

end Codec

end KrovaCoin.Lib
