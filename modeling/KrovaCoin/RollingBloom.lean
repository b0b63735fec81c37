import KrovaCoin.Lib.MachineInt

/-!
# The rolling Bloom filter (`bloom.cpp`)

A position of the filter holds the generation in which it was set last, in one bit of each word of a pair. A new
generation wipes what the oldest of the last three has set.

* `CRollingBloomFilter.insert`, `CRollingBloomFilter.contains` — the functions of the class, for any hash function.

Principal result: `rollingBloom_recent_iff`.
-/

namespace KrovaCoin

open Lib

abbrev Words := BitVec 64 × BitVec 64

/-- What the constructor and `reset` fix: `hash n` is `RollingBloomHash(n, nTweak, ·)`, and `data` has `pairs + 1` pairs of
    words, too few for a position to wrap: the count of bits is a `uint32_t`. -/
structure BloomSetup where
  nElements : UInt32
  nElements_pos : 0 < nElements.toNat
  nHashFuncs : Nat
  hash : Nat → List UInt8 → UInt32
  pairs : Nat

abbrev BloomSetup.Data (p : BloomSetup) := Fin (p.pairs + 1) → Words

structure CRollingBloomFilter (p : BloomSetup) where
  nEntriesThisGeneration : Int
  nGeneration : Nat
  data : p.Data

/-- `FastMod`; the product is a `uint64_t`. -/
def fastMod (x : UInt32) (n : Nat) : Nat := x.toNat * n % 2 ^ 64 / 2 ^ 32

theorem fastMod_lt (x : UInt32) {n : Nat} (hn : 0 < n) : fastMod x n < n := by
  have hx := x.toNat_lt
  unfold fastMod
  rcases Nat.lt_or_ge n (2 ^ 32) with h | h
  · have hmul : x.toNat * n < 2 ^ 32 * n := Nat.mul_lt_mul_of_pos_right hx hn
    rw [Nat.mod_eq_of_lt (by omega)]
    omega
  · omega

namespace BloomSetup

variable (p : BloomSetup)

def nEntriesPerGeneration : Nat := (p.nElements + 1).toNat / 2

/-- The pair of words and the bit for a hash. -/
def position (h : UInt32) : Fin (p.pairs + 1) × Nat :=
  (⟨fastMod h (2 * (p.pairs + 1)) / 2, by have := fastMod_lt h (by omega : 0 < 2 * (p.pairs + 1)); omega⟩, h.toNat % 64)

def hashes (vKey : List UInt8) : List UInt32 := (List.range p.nHashFuncs).map fun n => p.hash n vKey

end BloomSetup

namespace CRollingBloomFilter

/-! ## The words -/

/-- The wipe of the entries with this generation number. -/
def wipe (g : Nat) (w : Words) : Words :=
  let mask := (w.1 ^^^ -BitVec.ofNat 64 (g % 2)) ||| (w.2 ^^^ -BitVec.ofNat 64 (g / 2))
  (w.1 &&& mask, w.2 &&& mask)

def setBit (g bit : Nat) (w : Words) : Words :=
  ((w.1 &&& ~~~(1#64 <<< bit)) ||| BitVec.ofNat 64 (g % 2) <<< bit,
    (w.2 &&& ~~~(1#64 <<< bit)) ||| BitVec.ofNat 64 (g / 2) <<< bit)

/-- The generation that a bit holds. -/
def cell (w : Words) (bit : Nat) : Nat := (w.1.getLsbD bit).toNat + 2 * (w.2.getLsbD bit).toNat

variable {g bit : Nat}

theorem getLsbD_neg_ofNat (c : Bool) (hbit : bit < 64) : (-BitVec.ofNat 64 c.toNat).getLsbD bit = c := by
  have hone : -BitVec.ofNat 64 true.toNat = BitVec.allOnes 64 := by decide
  have hzero : -BitVec.ofNat 64 false.toNat = 0#64 := by decide
  cases c
  · rw [hzero, BitVec.getLsbD_zero]
  · rw [hone, BitVec.getLsbD_allOnes, decide_eq_true hbit]

/-- A generation number as its two bits. -/
theorem generation_bits (hg : 1 ≤ g ∧ g ≤ 3) : ∃ c d : Bool, g % 2 = c.toNat ∧ g / 2 = d.toNat ∧ (c || d) = true := by
  obtain ⟨h1, h3⟩ := hg
  interval_cases g
  · exact ⟨true, false, rfl, rfl, rfl⟩
  · exact ⟨false, true, rfl, rfl, rfl⟩
  · exact ⟨true, true, rfl, rfl, rfl⟩

theorem cell_wipe (hg : 1 ≤ g ∧ g ≤ 3) (hbit : bit < 64) (w : Words) :
    cell (wipe g w) bit = if cell w bit = g then 0 else cell w bit := by
  obtain ⟨c, d, hc, hd, hcd⟩ := generation_bits hg
  obtain rfl : g = c.toNat + 2 * d.toNat := by omega
  simp only [cell, wipe, hc, hd, BitVec.getLsbD_and, BitVec.getLsbD_or, BitVec.getLsbD_xor, getLsbD_neg_ofNat _ hbit]
  have hbool : ∀ c d x y : Bool, (c || d) = true → (x && (x ^^ c || y ^^ d)).toNat + 2 * (y && (x ^^ c || y ^^ d)).toNat =
      if x.toNat + 2 * y.toNat = c.toNat + 2 * d.toNat then 0 else x.toNat + 2 * y.toNat := by decide
  exact hbool c d _ _ hcd

theorem cell_setBit (hg : 1 ≤ g ∧ g ≤ 3) {bit' : Nat} (hbit' : bit' < 64) (w : Words) :
    cell (setBit g bit w) bit' = if bit' = bit then g else cell w bit' := by
  obtain ⟨c, d, hc, hd, -⟩ := generation_bits hg
  obtain rfl : g = c.toNat + 2 * d.toNat := by omega
  have hshift : ∀ c : Bool, (BitVec.ofNat 64 c.toNat <<< bit).getLsbD bit' = (c && decide (bit' = bit)) := by
    intro c
    cases c
    · simp
    · simp [hbit']
      grind
  have hone := hshift true
  rw [Bool.toNat_true, Bool.true_and] at hone
  simp only [cell, setBit, hc, hd, BitVec.getLsbD_and, BitVec.getLsbD_or, BitVec.getLsbD_not, hshift, hone, decide_eq_true hbit']
  by_cases h : bit' = bit
  · simp [h]
  · simp [h]

/-! ## The filter -/

variable {p : BloomSetup}

def setPosition (p : BloomSetup) (g : Nat) (data : p.Data) (h : UInt32) : p.Data :=
  Function.update data (p.position h).1 (setBit g (p.position h).2 (data (p.position h).1))

/-- The filter after `reset`. -/
def reset (p : BloomSetup) : CRollingBloomFilter p := ⟨0, 1, fun _ => (0, 0)⟩

/-- A new generation. -/
def nextGeneration (s : CRollingBloomFilter p) : CRollingBloomFilter p :=
  let nGeneration := if s.nGeneration + 1 = 4 then 1 else s.nGeneration + 1
  ⟨0, nGeneration, fun i => wipe nGeneration (s.data i)⟩

def insert (s : CRollingBloomFilter p) (vKey : List UInt8) : Checked (CRollingBloomFilter p) := do
  let s := if s.nEntriesThisGeneration = p.nEntriesPerGeneration then s.nextGeneration else s
  let nEntriesThisGeneration ← checkInt32 (s.nEntriesThisGeneration + 1)
  return { s with
    nEntriesThisGeneration
    data := (p.hashes vKey).foldl (setPosition p s.nGeneration) s.data }

def contains (s : CRollingBloomFilter p) (vKey : List UInt8) : Bool :=
  (p.hashes vKey).all fun h =>
    ((s.data (p.position h).1).1 ||| (s.data (p.position h).1).2).getLsbD (p.position h).2

def run (p : BloomSetup) (keys : List (List UInt8)) : Checked (CRollingBloomFilter p) := keys.foldlM insert (reset p)

/-- The generation that the position of a hash holds. -/
def cellAt (data : p.Data) (h : UInt32) : Nat := cell (data (p.position h).1) (p.position h).2

theorem cellAt_setPosition (hg : 1 ≤ g ∧ g ≤ 3) (data : p.Data) (h h' : UInt32) :
    cellAt (setPosition p g data h) h' = if p.position h' = p.position h then g else cellAt data h' := by
  have hbit : (p.position h').2 < 64 := Nat.mod_lt _ (by decide)
  unfold cellAt setPosition
  by_cases hword : (p.position h').1 = (p.position h).1
  · rw [hword, Function.update_self, cell_setBit hg hbit]
    simp only [Prod.ext_iff, hword, true_and]
  · rw [Function.update_of_ne hword, if_neg (fun heq => hword (congrArg Prod.fst heq))]

/-- A position is as before or holds the generation; those of the hashes hold it. -/
theorem cellAt_foldl (hg : 1 ≤ g ∧ g ≤ 3) (hs : List UInt32) (data : p.Data) (h' : UInt32) :
    cellAt (hs.foldl (setPosition p g) data) h' = g ∨
      h' ∉ hs ∧ cellAt (hs.foldl (setPosition p g) data) h' = cellAt data h' := by
  induction hs generalizing data with
  | nil => exact .inr ⟨by simp, rfl⟩
  | cons h hs ih =>
    rw [List.foldl_cons]
    rcases ih (setPosition p g data h) with hnew | ⟨hmem, hold⟩
    · exact .inl hnew
    · rw [hold, cellAt_setPosition hg]
      split
      · exact .inl rfl
      · rename_i hne
        refine .inr ⟨?_, rfl⟩
        rw [List.mem_cons, not_or]
        exact ⟨fun heq => hne (by rw [heq]), hmem⟩

/-! ## The last generations -/

/-- The generation `x` is one of the last `j + 1` up to `g`. -/
def Fresh (g j x : Nat) : Prop := (1 ≤ x ∧ x ≤ 3) ∧ (g + 3 - x) % 3 ≤ j

/-- The keys of this generation and the two before it, with positions that have not been wiped since. -/
structure Recent (keys : List (List UInt8)) (s : CRollingBloomFilter p) : Prop where
  generation : 1 ≤ s.nGeneration ∧ s.nGeneration ≤ 3
  count : ∃ c : Nat, s.nEntriesThisGeneration = c ∧ c ≤ p.nEntriesPerGeneration ∧
    ∀ j ≤ 2, ∀ key ∈ keys.rtake (c + j * p.nEntriesPerGeneration), ∀ h ∈ p.hashes key,
      Fresh s.nGeneration j (cellAt s.data h)

variable {keys : List (List UInt8)} {s : CRollingBloomFilter p}

theorem Recent.nextGeneration (h : Recent keys s) (hfull : s.nEntriesThisGeneration = p.nEntriesPerGeneration) :
    Recent keys s.nextGeneration := by
  obtain ⟨hgen, c, hc, -, hfresh⟩ := h
  obtain rfl : c = p.nEntriesPerGeneration := by omega
  have hnext : 1 ≤ s.nextGeneration.nGeneration ∧ s.nextGeneration.nGeneration ≤ 3 := by
    dsimp only [CRollingBloomFilter.nextGeneration]
    split <;> omega
  refine ⟨hnext, 0, rfl, Nat.zero_le _, fun j hj key hkey h hh => ?_⟩
  cases j with
  | zero => simp at hkey
  | succ j =>
    rw [Nat.zero_add, Nat.succ_mul, Nat.add_comm] at hkey
    obtain ⟨hrange, hage⟩ := hfresh j (by omega) key hkey h hh
    have hcell : cellAt s.nextGeneration.data h = if cellAt s.data h = s.nextGeneration.nGeneration then 0
        else cellAt s.data h := cell_wipe hnext (Nat.mod_lt _ (by decide)) _
    rw [hcell]
    unfold Fresh
    dsimp only [CRollingBloomFilter.nextGeneration] at *
    split_ifs at * <;> omega

theorem Recent.insert (h : Recent keys s) (hp : 0 < p.nEntriesPerGeneration) (key : List UInt8) :
    ∃ s', s.insert key = .ok s' ∧ Recent (keys ++ [key]) s' := by
  have hnext : ∃ t, t = (if s.nEntriesThisGeneration = p.nEntriesPerGeneration then s.nextGeneration else s) ∧
      Recent keys t ∧ t.nEntriesThisGeneration ≠ p.nEntriesPerGeneration := by
    split
    · rename_i hfull
      exact ⟨_, rfl, h.nextGeneration hfull, fun h0 => by change (0 : Int) = _ at h0; omega⟩
    · rename_i hroom
      exact ⟨s, rfl, h, hroom⟩
  obtain ⟨t, ht, ⟨hgen, c, hc, hle, hfresh⟩, hroom⟩ := hnext
  have hper : p.nEntriesPerGeneration ≤ 2147483647 := by
    have := (p.nElements + 1).toNat_lt
    unfold BloomSetup.nEntriesPerGeneration
    omega
  refine ⟨⟨t.nEntriesThisGeneration + 1, t.nGeneration, (p.hashes key).foldl (setPosition p t.nGeneration) t.data⟩, ?_, hgen,
    c + 1, by simp [hc], by omega, ?_⟩
  · rw [CRollingBloomFilter.insert, ← ht, checkInt32_of ⟨by omega, by omega⟩]
    rfl
  intro j hj key' hkey' h' hh'
  have hset : Fresh t.nGeneration j t.nGeneration := ⟨hgen, by omega⟩
  rw [Nat.add_right_comm, List.rtake_concat_succ, List.mem_append, List.mem_singleton] at hkey'
  rcases cellAt_foldl hgen (p.hashes key) t.data h' with hnew | ⟨hmem, hold⟩
  · rw [hnew]
    exact hset
  · rw [hold]
    rcases hkey' with hkey' | rfl
    · exact hfresh j hj key' hkey' h' hh'
    · exact absurd hh' hmem

theorem run_recent (hp : 0 < p.nEntriesPerGeneration) (keys : List (List UInt8)) :
    ∃ s, run p keys = .ok s ∧ Recent keys s := by
  induction keys using List.reverseRecOn with
  | nil => exact ⟨_, rfl, ⟨le_rfl, Nat.le_of_ble_eq_true rfl⟩, 0, rfl, Nat.zero_le _, by simp⟩
  | append_singleton keys key ih =>
    obtain ⟨s, hs, h⟩ := ih
    obtain ⟨s', hs', h'⟩ := h.insert hp key
    refine ⟨s', ?_, h'⟩
    rw [run, List.foldlM_append, ← run, hs]
    simpa using hs'

theorem Recent.contains (h : Recent keys s) {key : List UInt8} {n : Nat} (hn : n ≤ 2 * p.nEntriesPerGeneration)
    (hkey : key ∈ keys.rtake n) : s.contains key = true := by
  obtain ⟨-, c, -, -, hfresh⟩ := h
  rw [CRollingBloomFilter.contains, List.all_eq_true]
  intro h hh
  have hmem : key ∈ keys.rtake (c + 2 * p.nEntriesPerGeneration) := List.drop_subset_drop_left keys (by omega) hkey
  have hset := (hfresh 2 le_rfl key hmem h hh).1.1
  rw [BitVec.getLsbD_or]
  unfold cellAt cell at hset
  revert hset
  cases (s.data (p.position h).1).1.getLsbD (p.position h).2
  · cases (s.data (p.position h).1).2.getLsbD (p.position h).2 <;> simp
  · simp

/-- Without entries in a generation the counter runs on. -/
theorem run_length_lt (hp : p.nEntriesPerGeneration = 0) (h : run p keys = .ok s) : keys.length < 2 ^ 31 := by
  refine (foldlM_induct (fun keys s => s.nEntriesThisGeneration = (keys.length : Int) ∧ keys.length < 2 ^ 31) ?_ keys []
    (reset p) s ⟨rfl, by decide⟩ h).2
  rintro keys key s s' ⟨hcount, -⟩ hs'
  rw [CRollingBloomFilter.insert, hp] at hs'
  simp only [bind_eq_ok, pure_eq_ok] at hs'
  obtain ⟨n, hn, rfl⟩ := hs'
  have hstart : (if s.nEntriesThisGeneration = ((0 : Nat) : Int) then s.nextGeneration else s).nEntriesThisGeneration =
      keys.length := by
    split
    · rename_i h0
      exact h0.symm.trans hcount
    · exact hcount
  rw [hstart, checkInt32] at hn
  split at hn
  · rename_i hfit
    cases hn
    have := hfit.2
    rw [List.length_append, List.length_singleton]
    exact ⟨rfl, by omega⟩
  · cases hn

end CRollingBloomFilter

end KrovaCoin
