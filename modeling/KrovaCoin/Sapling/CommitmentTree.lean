import KrovaCoin.Sapling.IncrementalWitness

/-!
# Reading the note commitment tree (`sapling/incrementalmerkletree.cpp`)

* `last`, `size` — the accessors of `IncrementalMerkleTree`; `size` adds up `1 << (i + 1)`, which is an `int`.

Principal result: `commitmentTree_iff`.
-/

namespace KrovaCoin.IncrementalMerkleTree

open Lib

variable {H : Type} {h : MerkleHash H} {t : IncrementalMerkleTree H} {xs : List H} {depth : Nat}

/-- `1 << n`, converted to `size_t`: the shift is one of an `int`, whose sign bit is bit 31, and shifts by more bits
    than that are undefined. -/
def shiftOne (n : Nat) : Option UInt64 :=
  if n < 31 then some (UInt64.ofNat (2 ^ n)) else if n = 31 then some (UInt64.ofInt (-2147483648)) else none

/-- The loop of `size` from index `i` on. -/
def sizeLoop : Nat → List (Option H) → UInt64 → Option UInt64
  | _, [], ret => some ret
  | i, none :: parents, ret => sizeLoop (i + 1) parents ret
  | i, some _ :: parents, ret => do
    let bit ← shiftOne (i + 1)
    sizeLoop (i + 1) parents (ret + bit)

def size (t : IncrementalMerkleTree H) : Option UInt64 :=
  sizeLoop 0 t.parents ((if t.left.isSome then 1 else 0) + if t.right.isSome then 1 else 0)

/-! ## The size -/

theorem mul_two_pow_add_le {a j k : Nat} (hjk : j ≤ k) (h : 2 ^ j * a < 2 ^ k) : 2 ^ j * a + 2 ^ j ≤ 2 ^ k := by
  obtain ⟨c, rfl⟩ := Nat.exists_eq_add_of_le hjk
  rw [Nat.pow_add] at h ⊢
  exact Nat.mul_le_mul_left (2 ^ j) (Nat.lt_of_mul_lt_mul_left h)

/-- The parents stand for a number below `2 ^ 32`, of which bit 31 is added as a negative number. -/
theorem sizeLoop_eq : ∀ (parents : List (Option H)) (i : Nat) (ret : UInt64), sizeLoop i parents ret =
      if 2 ^ (i + 1) * MerkleHash.occupancy parents < 2 ^ 32 then
        some (ret + UInt64.ofNat (2 ^ (i + 1) * MerkleHash.occupancy parents) -
          if 2 ^ (i + 1) * MerkleHash.occupancy parents < 2 ^ 31 then 0 else 4294967296)
      else none
  | [], i, ret => by simp [sizeLoop, MerkleHash.occupancy]
  | none :: parents, i, ret => by
    rw [sizeLoop, sizeLoop_eq parents (i + 1) ret, MerkleHash.occupancy, ← Nat.mul_assoc, ← Nat.pow_succ]
  | some p :: parents, i, ret => by
    have hpow : 2 ^ (i + 1) * MerkleHash.occupancy (some p :: parents) =
        2 ^ (i + 1 + 1) * MerkleHash.occupancy parents + 2 ^ (i + 1) := by
      rw [MerkleHash.occupancy, Nat.mul_add, ← Nat.mul_assoc, ← Nat.pow_succ, Nat.mul_one]
    have hpos := Nat.two_pow_pos (i + 1)
    rw [sizeLoop, hpow]
    unfold shiftOne
    split
    · have hroom1 := @mul_two_pow_add_le (MerkleHash.occupancy parents) (i + 1 + 1) 31 (by omega)
      have hroom2 := @mul_two_pow_add_le (MerkleHash.occupancy parents) (i + 1 + 1) 32 (by omega)
      rw [Option.bind_eq_bind, Option.bind_some, sizeLoop_eq parents (i + 1)]
      generalize 2 ^ (i + 1 + 1) * MerkleHash.occupancy parents = N at *
      have hlow : N < 2 ^ 31 ↔ N + 2 ^ (i + 1) < 2 ^ 31 := by omega
      have hhigh : N < 2 ^ 32 ↔ N + 2 ^ (i + 1) < 2 ^ 32 := by omega
      rw [UInt64.ofNat_add, UInt64.add_comm (UInt64.ofNat N), ← UInt64.add_assoc]
      simp only [hlow, hhigh]
    · split
      · rename_i hi'
        rw [Option.bind_eq_bind, Option.bind_some, sizeLoop_eq parents (i + 1), hi']
        rcases Nat.eq_zero_or_pos (MerkleHash.occupancy parents) with hzero | hocc
        · have hbit : UInt64.ofInt (-2147483648) = 2147483648 + -4294967296 := by decide
          rw [hzero, hbit, ← UInt64.add_assoc]
          simp [UInt64.sub_eq_add_neg]
        · rw [if_neg (by omega), if_neg (by omega)]
      · have hbig' : 2 ^ 32 ≤ 2 ^ (i + 1) := Nat.pow_le_pow_right (by omega) (by omega)
        rw [if_neg (by omega)]
        rfl

theorem Represents.size_iff (ht : Represents h depth t xs) :
    (∃ n, t.size = some n ∧ n.toNat = xs.length) ↔ xs.length ≤ 2 ^ 31 := by
  have hcount : ∀ {ys : List H} {ps : List (Option H)}, ys.length % 2 = 0 → h.Frontier 1 ps (h.pairUp 0 ys) →
      ys.length = 2 * MerkleHash.occupancy ps := fun heven hps => by
    have := MerkleHash.Frontier.length_eq h hps
    rw [h.pairUp_length] at this
    omega
  have hword : ∀ N k : Nat, k ≤ 2 → N < 2 ^ 32 →
      ((UInt64.ofNat k + UInt64.ofNat N - if N < 2 ^ 31 then 0 else 4294967296).toNat = N + k ↔ N < 2 ^ 31) := by
    intro N k hk hN
    rw [← UInt64.ofNat_add]
    have hsum : (UInt64.ofNat (k + N)).toNat = k + N := UInt64.toNat_ofNat_of_lt' (by simp [UInt64.size]; omega)
    split
    · rename_i hlow
      rw [UInt64.sub_zero, hsum]
      exact iff_of_true (Nat.add_comm k N) hlow
    · rename_i hlow
      rw [UInt64.toNat_sub, hsum]
      refine iff_of_false (fun heq => ?_) hlow
      have : (4294967296 : UInt64).toNat = 4294967296 := rfl
      omega
  cases ht with
  | empty => exact iff_of_true ⟨0, rfl, rfl⟩ (by simp)
  | @left ys ps l heven hps hlen =>
    have hlength := hcount heven hps
    have hsize : (⟨some l, none, ps⟩ : IncrementalMerkleTree H).size = _ := sizeLoop_eq ps 0 1
    rw [hsize, List.length_append, List.length_singleton, hlength]
    split
    · rename_i hN
      simp only [Option.some.injEq, exists_eq_left']
      refine (hword _ 1 (by omega) hN).trans ?_
      omega
    · refine iff_of_false (fun ⟨n, hn, _⟩ => by cases hn) ?_
      omega
  | @pair ys ps l r heven hps hlen =>
    have hlength := hcount heven hps
    have hsize : (⟨some l, some r, ps⟩ : IncrementalMerkleTree H).size = _ := sizeLoop_eq ps 0 2
    rw [hsize, List.length_append, List.length_cons, List.length_singleton, hlength]
    split
    · rename_i hN
      simp only [Option.some.injEq, exists_eq_left']
      refine (hword _ 2 (by omega) hN).trans ?_
      omega
    · refine iff_of_false (fun ⟨n, hn, _⟩ => by cases hn) ?_
      omega

theorem Represents.last_eq (ht : Represents h depth t xs) : t.last.toOption = xs.getLast? := by
  cases ht with
  | empty => rfl
  | left => simp [last, Except.toOption]
  | pair => simp [last, Except.toOption]

theorem Represents.append_error_iff (ht : Represents h depth t xs) (hdepth : 0 < depth) (x : H) :
    (∃ e, IncrementalMerkleTree.append h depth t x = .error e) ↔ xs.length = 2 ^ depth := by
  rw [← ht.isComplete_iff hdepth, IncrementalMerkleTree.append]
  split
  · rename_i hfull
    exact iff_of_true ⟨_, rfl⟩ hfull
  · rename_i hfull
    refine iff_of_false (fun ⟨e, he⟩ => ?_) hfull
    split at he <;> cases he

theorem appendAll_empty_ok (h : MerkleHash H) (hdepth : 0 < depth) (hlen : xs.length ≤ 2 ^ depth) :
    ∃ t, appendAll h depth empty xs = .ok t ∧ Represents h depth t xs ∧ t.Canonical :=
  Represents.appendAll_ok hdepth .empty (by simp [Canonical, empty]) (by simpa using hlen)

/-- **The tree is the Merkle tree of its leaves**: the root is that of the complete tree over the leaves and empty ones,
    the last leaf is the last one, `wfcheck` accepts every tree on the way, and leaves are refused when the tree is full.
    All this, and the right size, holds exactly up to `2 ^ 31` leaves. -/
theorem commitmentTree_iff (hdepth : 0 < depth) (hempty : h.EmptyLaw depth) (hlen : xs.length ≤ 2 ^ depth) :
    (∃ t, appendAll h depth empty xs = .ok t ∧
        root h depth t = h.treeRoot depth 0 (MerkleHash.padded (h.emptyRoot 0) xs) ∧
        (∃ n, t.size = some n ∧ n.toNat = xs.length) ∧ t.last.toOption = xs.getLast? ∧
        (∀ ys t', ys <+: xs → appendAll h depth empty ys = .ok t' → t'.wfcheck depth = .ok ()) ∧
        ∀ x, (∃ e, append h depth t x = .error e) ↔ xs.length = 2 ^ depth) ↔
      xs.length ≤ 2 ^ 31 := by
  obtain ⟨t, happ, ht, -⟩ := appendAll_empty_ok h hdepth hlen
  constructor
  · rintro ⟨t', happ', -, hsize, -⟩
    cases happ.symm.trans happ'
    exact ht.size_iff.mp hsize
  · intro hle
    refine ⟨t, happ, ht.root h hdepth hempty, ht.size_iff.mpr hle, ht.last_eq, fun ys t' hys happ' => ?_,
      ht.append_error_iff hdepth⟩
    obtain ⟨t1, happ1, ht1, hc1⟩ := appendAll_empty_ok h hdepth (hys.length_le.trans hlen)
    cases happ1.symm.trans happ'
    exact ht1.wfcheck_ok hc1 le_rfl hdepth

/-- A hash for which all empty roots are 0. -/
def sumHash : MerkleHash Nat := ⟨fun a b _ => a + b, fun _ => 0⟩

theorem commitmentTree_three : (∃ t, appendAll sumHash 2 empty [5, 6, 7] = .ok t ∧
        root sumHash 2 t = sumHash.treeRoot 2 0 (MerkleHash.padded (sumHash.emptyRoot 0) [5, 6, 7]) ∧
        (∃ n, t.size = some n ∧ n.toNat = [5, 6, 7].length) ∧ t.last.toOption = [5, 6, 7].getLast? ∧
        (∀ ys t', ys <+: [5, 6, 7] → appendAll sumHash 2 empty ys = .ok t' → t'.wfcheck 2 = .ok ()) ∧
        ∀ x, (∃ e, append sumHash 2 t x = .error e) ↔ [5, 6, 7].length = 2 ^ 2) ↔ [5, 6, 7].length ≤ 2 ^ 31 :=
  commitmentTree_iff (by decide) (fun _ _ => rfl) (by decide)

theorem commitmentTree_size_wraps : ∃ t, appendAll sumHash 32 empty (List.replicate (2 ^ 31 + 1) 0) = .ok t ∧
    ¬ ∃ n, t.size = some n ∧ n.toNat = 2 ^ 31 + 1 := by
  have hlen : (List.replicate (2 ^ 31 + 1) 0).length = 2 ^ 31 + 1 := List.length_replicate
  generalize List.replicate (2 ^ 31 + 1) 0 = xs at *
  obtain ⟨t, happ, ht, -⟩ := appendAll_empty_ok sumHash (show 0 < 32 by decide) (show xs.length ≤ 2 ^ 32 by omega)
  refine ⟨t, happ, fun hsize => ?_⟩
  have := ht.size_iff.mp (hlen ▸ hsize)
  omega

end KrovaCoin.IncrementalMerkleTree
