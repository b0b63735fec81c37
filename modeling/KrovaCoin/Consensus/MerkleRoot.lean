import KrovaCoin.Consensus.Merkle
import KrovaCoin.Kernel
import KrovaCoin.Lib.MerkleLevels

/-!
# `MerkleComputation` is the Merkle tree (`consensus/merkle.cpp`)

After `count` leaves, `inner[l]` is the complete node that ends at the highest multiple of `2 ^ l`, for every set bit
`l` of `count`. A node on its way up, in the leaf loop as in the final sweep, is the last node of its level; `q` is how
many nodes the level has up to it, so the counter of the source is `q * 2 ^ level` (rounded up in the sweep).

Principal results: `merkleComputation_eq`, `merkleComputation32_of_le`, `merkleComputation32_of_lt`.
-/

namespace KrovaCoin

open Lib.MerkleLevels

/-! ## The pair hash

The pair hash of the theorems below is any function: `merkleHash c` for a suitable `c`. -/

theorem leNat_range_map (k n : Nat) : leNat ((List.range k).map fun i => UInt8.ofNat (n / 256 ^ i)) = n % 256 ^ k := by
  induction k generalizing n with
  | zero => simp [leNat, Nat.mod_one]
  | succ k ih =>
    have hshift : ((fun i => UInt8.ofNat (n / 256 ^ i)) ∘ Nat.succ)
        = fun i => UInt8.ofNat (n / 256 / 256 ^ i) := by
      funext i
      simp only [Function.comp_apply, Nat.div_div_eq_div_mul, Nat.pow_succ']
    rw [List.range_succ_eq_map, List.map_cons, List.map_map, hshift, leNat, ih, Nat.pow_succ', Nat.mod_mul]
    simp

theorem Uint256.ofBytes_toBytes (x : Uint256) : Uint256.ofBytes x.toBytes = x := by
  rw [Uint256.ofBytes, Uint256.toBytes, leNat_range_map]
  apply BitVec.eq_of_toNat_eq
  simp only [BitVec.toNat_ofNat]
  omega

@[simp] theorem Uint256.length_toBytes (x : Uint256) : x.toBytes.length = 32 := by
  simp [Uint256.toBytes]

/-- Thirty-two bytes as a hash value. -/
def digestBytes (b : List UInt8) : Vector UInt8 32 := Vector.ofFn fun i => b.getD i 0

theorem toList_digestBytes {b : List UInt8} (h : b.length = 32) : (digestBytes b).toList = b := by
  rw [digestBytes, Vector.toList_ofFn]
  refine List.ext_getElem (by simp [h]) fun i hi hi' => ?_
  rw [List.getElem_ofFn, List.getD_eq_getElem?_getD, List.getElem?_eq_getElem hi', Option.getD_some]

/-- Hash functions whose double hash of two `uint256` is a given function. -/
def pairCrypto (hash : Uint256 → Uint256 → Uint256) : Crypto :=
  { zeroCrypto with
    sha256 := fun b =>
      if b.length = 64 then
        digestBytes (hash (Uint256.ofBytes (b.take 32)) (Uint256.ofBytes (b.drop 32))).toBytes
      else digestBytes b }

theorem merkleHash_pairCrypto (hash : Uint256 → Uint256 → Uint256) : merkleHash (pairCrypto hash) = hash := by
  funext a b
  have hlen : (a.toBytes ++ b.toBytes).length = 64 := by simp
  have htake : (a.toBytes ++ b.toBytes).take 32 = a.toBytes := by
    rw [List.take_append_of_le_length (by simp), List.take_of_length_le (by simp)]
  have hdrop : (a.toBytes ++ b.toBytes).drop 32 = b.toBytes := by
    rw [List.drop_append_of_le_length (by simp), List.drop_of_length_le (by simp), List.nil_append]
  have hinner : ((pairCrypto hash).sha256 (a.toBytes ++ b.toBytes)).toList = (hash a b).toBytes := by
    simp only [pairCrypto, if_pos hlen, htake, hdrop, Uint256.ofBytes_toBytes]
    exact toList_digestBytes (by simp)
  have houter : ((pairCrypto hash).sha256 (hash a b).toBytes).toList = (hash a b).toBytes := by
    exact toList_digestBytes (by simp)
  rw [merkleHash, Crypto.hash256, hinner, houter, Uint256.ofBytes_toBytes]

/-! ## The sweep in `uint32_t` -/

/-- `sweepUp` on a `uint32_t`: at level 32 the shift is undefined and `inner` has ended. -/
def sweepUp32 (c : Crypto) (count : Nat) : Nat → MerkleState → MerkleNode → Option (MerkleState × MerkleNode)
  | 0, s, n => some (s, n)
  | fuel + 1, s, n =>
    if 32 ≤ n.level then none
    else if count.testBit n.level then some (s, n)
    else
      sweepUp32 c count fuel { s with branch := (branchStep s n).1 }
        ⟨n.level + 1, merkleHash c (s.inner n.level) n.h, (branchStep s n).2⟩

/-- `sweepLoop` on a `uint32_t`: `count += 1 << level` wraps around. -/
def sweepLoop32 (c : Crypto) : Nat → Nat → MerkleState → MerkleNode → Option (MerkleState × MerkleNode)
  | 0, _, s, n => some (s, n)
  | fuel + 1, count, s, n =>
    if count = 2 ^ n.level then some (s, n)
    else
      let count := (count + 2 ^ n.level) % 2 ^ 32
      (sweepUp32 c count 33 { s with branch := if n.matchh then s.branch ++ [n.h] else s.branch }
        ⟨n.level + 1, merkleHash c n.h n.h, n.matchh⟩).bind fun r => sweepLoop32 c fuel count r.1 r.2

/-- `MerkleComputation` of fewer than `2 ^ 32` leaves; `none` is undefined behaviour.  In the loop
over the leaves `count` is at most their number, so it has a set bit below 32 and does not wrap. -/
def merkleComputation32 (c : Crypto) (leaves : List Uint256) (branchpos : Nat) :
    Option (Uint256 × Bool × List Uint256) :=
  if leaves.isEmpty then some (UINT256_ZERO, false, [])
  else
    let s := merkleLeaves c branchpos 0 ⟨fun _ => 0, false, -1, []⟩ leaves
    let level := lowestBit leaves.length 32 0
    (sweepLoop32 c 32 leaves.length s ⟨level, s.inner level, s.matchlevel == level⟩).map
      fun r => (r.2.h, r.1.mutated, r.1.branch)

/-- `ComputeMerkleRoot` of fewer than `2 ^ 32` leaves. -/
def computeMerkleRoot32 (c : Crypto) (leaves : List Uint256) : Option (Uint256 × Bool) :=
  (merkleComputation32 c leaves 0xffffffff).map fun r => (r.1, r.2.1)

/-- `ComputeMerkleBranch` of fewer than `2 ^ 32` leaves. -/
def computeMerkleBranch32 (c : Crypto) (leaves : List Uint256) (position : Nat) : Option (List Uint256) :=
  (merkleComputation32 c leaves position).map fun r => r.2.2

/-- `ComputeMerkleRootFromBranch`; `hash` starts as the leaf. -/
def computeMerkleRootFromBranch (c : Crypto) : Uint256 → List Uint256 → Nat → Uint256
  | hash, [], _ => hash
  | hash, it :: vMerkleBranch, nIndex =>
    computeMerkleRootFromBranch c
      (if nIndex.testBit 0 then merkleHash c it hash else merkleHash c hash it)
      vMerkleBranch (nIndex >>> 1)

theorem computeMerkleRootFromBranch_eq (c : Crypto) (hash : Uint256) (branch : List Uint256) (nIndex : Nat) :
    computeMerkleRootFromBranch c hash branch nIndex = rootFromSiblings (merkleHash c) hash branch nIndex := by
  induction branch generalizing hash nIndex with
  | nil => rfl
  | cons it branch ih =>
    simp only [computeMerkleRootFromBranch, rootFromSiblings, ih, Nat.testBit_zero,
      decide_eq_true_eq, Nat.shiftRight_one]

/-! ## Bits of the counter -/

theorem testBit_mul_two_pow_self (q l : Nat) : (q * 2 ^ l).testBit l = decide (q % 2 = 1) := by
  rw [Nat.mul_comm, Nat.testBit_two_pow_mul]
  simp

variable {q : Nat} {n : Nat} {c : Crypto} {f : Nat → Uint256} {N pos : Nat} {s : MerkleState} {nd : MerkleNode}
  {leaves : List Uint256}

variable {l : Nat}

theorem testBit_mul_two_pow_of_lt {i : Nat} (h : i < l) : (q * 2 ^ l).testBit i = false := by
  rw [Nat.mul_comm, Nat.testBit_two_pow_mul]
  simp [Nat.not_le.mpr h]

theorem div_two_pow_of_between (hlt : n < q * 2 ^ l) (hle : q * 2 ^ l ≤ n + 2 ^ l) : n / 2 ^ l = q - 1 := by
  have hq : 0 < q := Nat.pos_of_mul_pos_right (Nat.lt_of_le_of_lt (Nat.zero_le n) hlt)
  obtain ⟨q, rfl⟩ : ∃ k, q = k + 1 := ⟨q - 1, by omega⟩
  rw [Nat.succ_mul] at hle
  exact Nat.div_eq_of_lt_le (by rw [Nat.add_sub_cancel]; omega) (by rwa [Nat.add_sub_cancel])

theorem succ_div_two_pow {i : Nat} (hq : q % 2 = 1) (hm : q * 2 ^ l = n + 1) (hi : l < i) :
    (n + 1) / 2 ^ i = n / 2 ^ i := by
  refine Nat.succ_div_of_not_dvd fun hdvd => ?_
  rw [← hm] at hdvd
  have hbit : 2 ^ (l + 1) ∣ q * 2 ^ l := (Nat.pow_dvd_pow 2 hi).trans hdvd
  rw [Nat.pow_succ', Nat.mul_dvd_mul_iff_right (Nat.two_pow_pos l)] at hbit
  omega

/-! ## Invariants -/

section Invariants

variable (c : Crypto) (f : Nat → Uint256) (N pos : Nat)

/-- `inner` after `n` leaves. -/
def InnerOf (n : Nat) (s : MerkleState) : Prop :=
  ∀ l, n.testBit l = true → s.inner l = complete (merkleHash c) f l (n / 2 ^ l - 1)

/-- Where the wanted leaf is when the current node does not cover it: it comes after `next`, or
below `inner[l]` for some `low ≤ l`. -/
inductive Place (n low next : Nat) (s : MerkleState) : Prop
  | ahead (later : next ≤ pos) (level : s.matchlevel = -1) (branch : s.branch = [])
  | under (l : Nat) (le : low ≤ l) (bit : n.testBit l = true) (level : s.matchlevel = l)
      (index : pos / 2 ^ l = n / 2 ^ l - 1)
      (branch : s.branch = siblings (merkleHash c) f N pos l)

/-- The wanted leaf while the node `q - 1` of a level goes up. -/
inductive OnPath (n low next q : Nat) (s : MerkleState) (nd : MerkleNode) : Prop
  | covered (matchh : nd.matchh = true) (index : pos / 2 ^ nd.level = q - 1)
      (branch : s.branch = siblings (merkleHash c) f N pos nd.level)
  | elsewhere (matchh : nd.matchh = false) (place : Place c f N pos n low next s)

/-- Between two leaves. -/
structure Counted (n : Nat) (s : MerkleState) : Prop where
  inner : InnerOf c f n s
  mutated : s.mutated = true ↔ EqualPair (merkleHash c) f n
  place : Place c f N pos n 0 n s

/-- A node on its way up over the `n` leaves that `inner` has; `next` leaves have been read. -/
structure Ascent (n next q : Nat) (s : MerkleState) (nd : MerkleNode) : Prop where
  inner : InnerOf c f n s
  above : n < q * 2 ^ nd.level
  near : q * 2 ^ nd.level ≤ n + 2 ^ nd.level
  below : q * 2 ^ nd.level < N + 2 ^ nd.level
  value : nd.h = node (merkleHash c) f N nd.level (q - 1)
  tall : nd.level = 0 ∨ 2 ^ (nd.level - 1) < N
  path : OnPath c f N pos n nd.level next q s nd

/-- The head of the loop of the final sweep. -/
structure Sweep (q : Nat) (s : MerkleState) (nd : MerkleNode) : Prop where
  inner : InnerOf c f N s
  odd : q % 2 = 1
  reach : N ≤ q * 2 ^ nd.level
  below : q * 2 ^ nd.level < N + 2 ^ nd.level
  value : nd.h = node (merkleHash c) f N nd.level (q - 1)
  tall : nd.level = 0 ∨ 2 ^ (nd.level - 1) < N
  path : OnPath c f N pos N (nd.level + 1) N q s nd

end Invariants

/-! ## One level up -/

variable {next : Nat}

theorem Ascent.index_pos (h : Ascent c f N pos n next q s nd) : 0 < q :=
  Nat.pos_of_mul_pos_right (Nat.lt_of_le_of_lt (Nat.zero_le n) h.above)

theorem Ascent.inner_eq (h : Ascent c f N pos n next (2 * q) s nd) :
    s.inner nd.level = node (merkleHash c) f N nd.level (2 * (q - 1)) := by
  have hq := h.index_pos
  have hdiv := div_two_pow_of_between h.above h.near
  have hbit : n.testBit nd.level = true := by
    rw [Nat.testBit_eq_decide_div_mod_eq, hdiv]
    simp only [decide_eq_true_eq]
    omega
  rw [h.inner _ hbit, hdiv, show 2 * q - 1 - 1 = 2 * (q - 1) by omega]
  refine (node_eq_complete _ f ?_).symm
  have hbelow := h.below
  rw [show 2 * q = 2 * (q - 1) + 1 + 1 by omega, Nat.succ_mul] at hbelow
  omega

theorem Ascent.path_step (h : Ascent c f N pos n next (2 * q) s nd) (mutated : Bool) (hash : Uint256) :
    OnPath c f N pos n (nd.level + 1) next q { s with mutated := mutated, branch := (branchStep s nd).1 }
      ⟨nd.level + 1, hash, (branchStep s nd).2⟩ := by
  have hq := h.index_pos
  have hup : pos / 2 ^ (nd.level + 1) = pos / 2 ^ nd.level / 2 := by
    rw [Nat.div_div_eq_div_mul, Nat.pow_succ]
  rcases h.path with ⟨hm, hidx, hbr⟩ | ⟨hm, hplace⟩
  · -- the node covers the leaf: its left neighbour joins the branch
    have hodd : (2 * q - 1) % 2 = 1 := by omega
    have hstep : branchStep s nd = (s.branch ++ [s.inner nd.level], true) := by
      rw [branchStep, if_pos hm]
    rw [hstep]
    refine .covered rfl (by dsimp only; rw [hup, hidx]; omega) ?_
    rw [siblings_succ, siblingIndex, hidx, if_pos hodd, hbr, h.inner_eq, show 2 * q - 1 - 1 = 2 * (q - 1) by omega]
  · rcases hplace with ⟨hlater, hlevel, hbr⟩ | ⟨l, hle, hbit, hlevel, hidx, hbr⟩
    · have hstep : branchStep s nd = (s.branch, false) := by
        rw [branchStep, if_neg (by simp [hm]), if_neg (by rw [hlevel]; omega)]
      rw [hstep]
      exact .elsewhere rfl (.ahead hlater hlevel hbr)
    · rcases Nat.eq_or_lt_of_le hle with rfl | hlt
      · -- the leaf is below the left neighbour: the node itself joins the branch
        have hstep : branchStep s nd = (s.branch ++ [nd.h], true) := by
          rw [branchStep, if_neg (by simp [hm]), if_pos hlevel]
        rw [div_two_pow_of_between h.above h.near] at hidx
        have hlast : (2 * q - 1 - 1 + 1) * 2 ^ nd.level < N := by
          have hbelow := h.below
          rw [show 2 * q = 2 * q - 1 - 1 + 1 + 1 by omega, Nat.succ_mul] at hbelow
          omega
        rw [hstep]
        refine .covered rfl (by dsimp only; rw [hup, hidx]; omega) ?_
        rw [siblings_succ, siblingIndex, hidx, if_neg (by omega), if_pos hlast, hbr, h.value,
          show 2 * q - 1 - 1 + 1 = 2 * q - 1 by omega]
      · have hstep : branchStep s nd = (s.branch, false) := by
          rw [branchStep, if_neg (by simp [hm]), if_neg (by rw [hlevel]; omega)]
        rw [hstep]
        exact .elsewhere rfl (.under l hlt hbit hlevel hidx hbr)

/-- **One level up.** At a zero bit of the counter the joined node takes the ascent on. -/
theorem Ascent.step (h : Ascent c f N pos n next (2 * q) s nd) (mutated : Bool) :
    Ascent c f N pos n next q { s with mutated := mutated, branch := (branchStep s nd).1 }
      ⟨nd.level + 1, merkleHash c (s.inner nd.level) nd.h, (branchStep s nd).2⟩ := by
  have hq := h.index_pos
  have hm : q * 2 ^ (nd.level + 1) = 2 * q * 2 ^ nd.level := by ring
  have hlow : 2 * 2 ^ nd.level ≤ 2 * q * 2 ^ nd.level := Nat.mul_le_mul_right _ (by omega)
  have habove := h.above
  have hnear := h.near
  have hbelow := h.below
  have hlast : (2 * (q - 1) + 1) * 2 ^ nd.level < N := by
    have hb := h.below
    rw [show 2 * q = 2 * (q - 1) + 1 + 1 by omega, Nat.succ_mul] at hb
    omega
  refine ⟨h.inner, by dsimp only; omega, by dsimp only; omega, by dsimp only; omega, ?_, ?_,
    h.path_step mutated _⟩
  · rw [node_succ_pair _ f hlast, h.inner_eq, h.value, show 2 * q - 1 = 2 * (q - 1) + 1 by omega]
  · right
    rw [Nat.add_sub_cancel]
    omega

theorem Ascent.level_lt (h : Ascent c f N pos n next q s nd) (hq : q % 2 = 1) (hle : nd.level ≤ l)
    (hbit : n.testBit l = true) : nd.level < l := by
  refine Nat.lt_of_le_of_ne hle fun heq => ?_
  rw [← heq, Nat.testBit_eq_decide_div_mod_eq, div_two_pow_of_between h.above h.near, decide_eq_true_eq] at hbit
  omega

/-! ## The leaves -/

/-- The equal pairs compared so far: those of the first `n` leaves, and those that end with leaf
`m - 1` below `level`. -/
def Compared (c : Crypto) (f : Nat → Uint256) (n m level : Nat) : Prop :=
  EqualPair (merkleHash c) f n ∨ ∃ l j, l < level ∧ (2 * j + 2) * 2 ^ l = m ∧
    complete (merkleHash c) f l (2 * j) = complete (merkleHash c) f l (2 * j + 1)

theorem compared_succ {m level : Nat} (hq : 0 < q) (hm : 2 * q * 2 ^ level = m) :
    Compared c f n m (level + 1) ↔ Compared c f n m level ∨ complete (merkleHash c) f level (2 * (q - 1))
        = complete (merkleHash c) f level (2 * (q - 1) + 1) := by
  constructor
  · rintro (h | ⟨l, j, hl, hj, heq⟩)
    · exact .inl (.inl h)
    · rcases Nat.lt_succ_iff_lt_or_eq.mp hl with hlt | rfl
      · exact .inl (.inr ⟨l, j, hlt, hj, heq⟩)
      · have hjq : 2 * j + 2 = 2 * q :=
          Nat.eq_of_mul_eq_mul_right (Nat.two_pow_pos l) (hj.trans hm.symm)
        rw [show q - 1 = j by omega]
        exact .inr heq
  · rintro ((h | ⟨l, j, hl, hj, heq⟩) | heq)
    · exact .inl h
    · exact .inr ⟨l, j, Nat.lt_succ_of_lt hl, hj, heq⟩
    · exact .inr ⟨level, q - 1, Nat.lt_succ_self _, by rw [← hm]; congr 1; omega, heq⟩

theorem compared_iff (hq : q % 2 = 1) (hm : q * 2 ^ l = n + 1) :
    Compared c f n (n + 1) l ↔ EqualPair (merkleHash c) f (n + 1) := by
  constructor
  · rintro (⟨i, j, hle, heq⟩ | ⟨i, j, -, hj, heq⟩)
    · exact ⟨i, j, Nat.le_succ_of_le hle, heq⟩
    · exact ⟨i, j, hj.le, heq⟩
  · rintro ⟨i, j, hle, heq⟩
    rcases (Nat.lt_or_eq_of_le hle) with hlt | hend
    · exact .inl ⟨i, j, Nat.le_of_lt_succ hlt, heq⟩
    · refine .inr ⟨i, j, Nat.lt_of_not_le fun hli => ?_, hend, heq⟩
      -- an even number of nodes at or above the lowest set bit
      have hbit := testBit_mul_two_pow_self q l
      have hsplit : (2 * j + 2) * 2 ^ i = 2 * ((j + 1) * 2 ^ (i - l)) * 2 ^ l := by
        rw [← Nat.sub_add_cancel hli, Nat.pow_add, Nat.add_sub_cancel]
        ring
      rw [hm, ← hend, hsplit, testBit_mul_two_pow_self] at hbit
      simp [hq] at hbit

/-- **The way up of a leaf.** -/
theorem leafLoop_run (fuel : Nat) (h : Ascent c f N pos n next q s nd) (hfuel : q < 2 ^ fuel)
    (hN : q * 2 ^ nd.level ≤ N) (hmut : s.mutated = true ↔ Compared c f n (q * 2 ^ nd.level) nd.level) :
    ∃ k, k % 2 = 1 ∧ k * 2 ^ (leafLoop c (q * 2 ^ nd.level) fuel s nd).2.level = q * 2 ^ nd.level ∧
      Ascent c f N pos n next k (leafLoop c (q * 2 ^ nd.level) fuel s nd).1
        (leafLoop c (q * 2 ^ nd.level) fuel s nd).2 ∧
      ((leafLoop c (q * 2 ^ nd.level) fuel s nd).1.mutated = true ↔
        Compared c f n (q * 2 ^ nd.level) (leafLoop c (q * 2 ^ nd.level) fuel s nd).2.level) := by
  induction fuel generalizing q s nd with
  | zero =>
    have := h.index_pos
    omega
  | succ fuel ih =>
    rw [leafLoop]
    by_cases hbit : (q * 2 ^ nd.level).testBit nd.level = true
    · rw [if_pos hbit]
      rw [testBit_mul_two_pow_self, decide_eq_true_eq] at hbit
      exact ⟨q, hbit, rfl, h, hmut⟩
    · rw [if_neg hbit]
      rw [testBit_mul_two_pow_self, decide_eq_true_eq] at hbit
      obtain ⟨q, rfl⟩ : ∃ k, q = 2 * k := ⟨q / 2, by omega⟩
      have hq := h.index_pos
      have hm : 2 * q * 2 ^ nd.level = q * 2 ^ (nd.level + 1) := by ring
      have hright : nd.h = complete (merkleHash c) f nd.level (2 * (q - 1) + 1) := by
        rw [h.value, show 2 * q - 1 = 2 * (q - 1) + 1 by omega]
        refine node_eq_complete _ f ?_
        rwa [show 2 * (q - 1) + 1 + 1 = 2 * q by omega]
      have hleft : s.inner nd.level = complete (merkleHash c) f nd.level (2 * (q - 1)) := by
        rw [h.inner_eq]
        refine node_eq_complete _ f (Nat.le_trans (Nat.mul_le_mul_right _ ?_) hN)
        omega
      rw [hm]
      refine ih (h.step _) (by omega) (by rwa [← hm]) ?_
      rw [Bool.or_eq_true, hmut, beq_iff_eq, hleft, hright, ← hm, compared_succ (by omega) rfl]

/-- **One leaf.** -/
theorem merkleLeaf_counted (h : Counted c f N pos n s) (hn : n < N) (hN : N < 2 ^ 32) :
    Counted c f N pos (n + 1) (merkleLeaf c pos n s (f n)) := by
  have hstart : Ascent c f N pos n (n + 1) (n + 1) s ⟨0, f n, n == pos⟩ := by
    refine ⟨h.inner, by dsimp only; omega, by dsimp only; omega, by dsimp only; omega, rfl, .inl rfl,
      ?_⟩
    rcases h.place with ⟨hlater, hlevel, hbr⟩ | ⟨l, hle, hbit, hlevel, hidx, hbr⟩
    · by_cases hp : n = pos
      · exact .covered (by simpa using hp) (by simp [hp]) hbr
      · exact .elsewhere (by simpa using hp) (.ahead (by omega) hlevel hbr)
    · have hp : pos < n := by
        have hpos := Nat.two_pow_pos l
        have hge : 2 ^ l ≤ n := Nat.ge_two_pow_of_testBit hbit
        have hdiv : 0 < n / 2 ^ l := Nat.div_pos hge hpos
        by_contra hcon
        have := Nat.div_le_div_right (c := 2 ^ l) (Nat.not_lt.mp hcon)
        omega
      refine .elsewhere (by simp; omega) (.under l hle hbit hlevel hidx hbr)
  have hone : (n + 1) * 2 ^ 0 = n + 1 := by omega
  obtain ⟨q, hq, hm, hasc, hmut⟩ := leafLoop_run 32 hstart (by omega)
    (by dsimp only; omega) (by
      rw [h.mutated, Compared]
      simp)
  rw [hone] at hm hasc hmut
  set r := leafLoop c (n + 1) 32 s ⟨0, f n, n == pos⟩ with hr
  have hdiv : (n + 1) / 2 ^ r.2.level = q := by
    rw [← hm, Nat.mul_div_cancel _ (Nat.two_pow_pos _)]
  refine ⟨fun l hl => ?_, hmut.trans (compared_iff hq hm), ?_⟩
  · show Function.update r.1.inner r.2.level r.2.h l = _
    rcases Nat.lt_trichotomy l r.2.level with hlt | rfl | hgt
    · rw [← hm, testBit_mul_two_pow_of_lt hlt] at hl
      exact absurd hl (by simp)
    · rw [Function.update_self, hasc.value, hdiv]
      refine node_eq_complete _ f ?_
      rw [Nat.sub_add_cancel hasc.index_pos]
      omega
    · rw [Function.update_of_ne (by omega), succ_div_two_pow hq hm hgt]
      refine hasc.inner l ?_
      rwa [Nat.testBit_eq_decide_div_mod_eq, succ_div_two_pow hq hm hgt,
        ← Nat.testBit_eq_decide_div_mod_eq] at hl
  · rcases hasc.path with ⟨hmatch, hidx, hbr⟩ | ⟨hmatch, hplace⟩
    · refine .under r.2.level (Nat.zero_le _) ?_ (if_pos hmatch) (by rw [hdiv, hidx]) hbr
      rw [← hm, testBit_mul_two_pow_self, hq]
      rfl
    · have hkeep : (if r.2.matchh = true then (r.2.level : Int) else r.1.matchlevel)
          = r.1.matchlevel := if_neg (by simp [hmatch])
      rcases hplace with ⟨hlater, hlevel, hbr⟩ | ⟨l, hle, hbit, hlevel, hidx, hbr⟩
      · exact .ahead hlater (hkeep.trans hlevel) hbr
      · have hlt := hasc.level_lt hq hle hbit
        refine .under l (Nat.zero_le _) ?_ (hkeep.trans hlevel) ?_ hbr
        · rwa [Nat.testBit_eq_decide_div_mod_eq, succ_div_two_pow hq hm hlt,
            ← Nat.testBit_eq_decide_div_mod_eq]
        · rw [succ_div_two_pow hq hm hlt, hidx]

/-- **All leaves.** -/
theorem merkleLeaves_counted (h : Counted c f N pos n s) (hlen : n + leaves.length = N) (hN : N < 2 ^ 32)
    (hleaves : ∀ i leaf, leaves[i]? = some leaf → f (n + i) = leaf) :
    Counted c f N pos N (merkleLeaves c pos n s leaves) := by
  induction leaves generalizing n s with
  | nil =>
    rw [merkleLeaves, ← hlen]
    rwa [← hlen] at h
  | cons leaf leaves ih =>
    simp only [List.length_cons] at hlen
    have hleaf : f n = leaf := hleaves 0 leaf rfl
    rw [merkleLeaves, ← hleaf]
    refine ih (merkleLeaf_counted h (by omega) hN) (by omega) fun i x hx => ?_
    rw [show n + 1 + i = n + (i + 1) by omega]
    exact hleaves (i + 1) x (by simpa using hx)

theorem counted_zero (c : Crypto) (f : Nat → Uint256) (N pos : Nat) :
    Counted c f N pos 0 ⟨fun _ => 0, false, -1, []⟩ := by
  refine ⟨fun l hl => ?_, ?_, .ahead (Nat.zero_le _) rfl rfl⟩
  · simp at hl
  · refine ⟨fun h => absurd h (by simp), ?_⟩
    rintro ⟨l, j, hle, -⟩
    have : 0 < (2 * j + 2) * 2 ^ l := Nat.mul_pos (by omega) (Nat.two_pow_pos l)
    omega

/-! ## The final sweep -/

theorem lowestBit_run (fuel level : Nat) (hq : 0 < q) (hfuel : q < 2 ^ fuel) :
    ∃ k, k % 2 = 1 ∧ k * 2 ^ lowestBit (q * 2 ^ level) fuel level = q * 2 ^ level := by
  induction fuel generalizing q level with
  | zero => omega
  | succ fuel ih =>
    rw [lowestBit, testBit_mul_two_pow_self]
    by_cases hodd : q % 2 = 1
    · exact ⟨q, hodd, by simp [hodd]⟩
    · obtain ⟨q, rfl⟩ : ∃ k, q = 2 * k := ⟨q / 2, by omega⟩
      have hm : 2 * q * 2 ^ level = q * 2 ^ (level + 1) := by ring
      rw [if_neg (by simp), hm]
      exact ih (level + 1) (by omega) (by omega)

theorem Counted.sweep (h : Counted c f N pos N s) (h0 : 0 < N) (hN : N < 2 ^ 32) :
    ∃ q, q * 2 ^ lowestBit N 32 0 = N ∧ Sweep c f N pos q s
      ⟨lowestBit N 32 0, s.inner (lowestBit N 32 0), s.matchlevel == lowestBit N 32 0⟩ := by
  obtain ⟨q, hq, hm⟩ := lowestBit_run 32 0 h0 hN
  rw [show N * 2 ^ 0 = N by omega] at hm
  generalize lowestBit N 32 0 = level at hm
  have hpow := Nat.two_pow_pos level
  have hdiv : N / 2 ^ level = q := by rw [← hm, Nat.mul_div_cancel _ hpow]
  have hbit : N.testBit level = true := by rw [← hm, testBit_mul_two_pow_self, hq]; rfl
  have hge : 2 ^ level ≤ N := Nat.ge_two_pow_of_testBit hbit
  refine ⟨q, hm, h.inner, hq, hm.ge, by dsimp only; omega, ?_, ?_, ?_⟩
  · rw [h.inner level hbit, hdiv]
    refine (node_eq_complete _ f ?_).symm
    rw [show q - 1 + 1 = q by omega]
    exact hm.le
  · dsimp only
    rcases Nat.eq_zero_or_pos level with hl | hl
    · exact .inl hl
    · exact .inr (Nat.lt_of_lt_of_le (Nat.pow_lt_pow_right (by omega) (by omega)) hge)
  · rcases h.place with ⟨hlater, hlevel, hbr⟩ | ⟨l, -, hb, hlevel, hidx, hbr⟩
    · refine .elsewhere ?_ (.ahead hlater hlevel hbr)
      rw [hlevel]
      simp
    · by_cases hl : l = level
      · subst hl
        exact .covered (by simp [hlevel]) (by rw [hidx, hdiv]) hbr
      · refine .elsewhere (by simp [hlevel, hl]) (.under l ?_ hb hlevel hidx hbr)
        by_contra hlt
        rw [← hm, testBit_mul_two_pow_of_lt (by dsimp only at hlt; omega)] at hb
        simp at hb

theorem Sweep.step (h : Sweep c f N pos q s nd) (hq : q ≠ 1) : Ascent c f N pos N N ((q + 1) / 2)
      { s with branch := if nd.matchh then s.branch ++ [nd.h] else s.branch }
      ⟨nd.level + 1, merkleHash c nd.h nd.h, nd.matchh⟩ := by
  have hodd := h.odd
  obtain ⟨k, rfl⟩ : ∃ k, q = 2 * k + 1 := ⟨q / 2, by omega⟩
  have hk : (2 * k + 1 + 1) / 2 = k + 1 := by omega
  have hm : (k + 1) * 2 ^ (nd.level + 1) = (2 * k + 1) * 2 ^ nd.level + 2 ^ nd.level := by ring
  have hthree : 3 * 2 ^ nd.level ≤ (2 * k + 1) * 2 ^ nd.level :=
    Nat.mul_le_mul_right _ (by omega)
  have hreach := h.reach
  have hbelow := h.below
  rw [hk]
  refine ⟨h.inner, by dsimp only; omega, by dsimp only; omega, by dsimp only; omega, ?_, ?_, ?_⟩
  · rw [Nat.add_sub_cancel, node_succ_last _ f hreach, h.value, Nat.add_sub_cancel]
  · right
    rw [Nat.add_sub_cancel]
    omega
  · have hup : pos / 2 ^ (nd.level + 1) = pos / 2 ^ nd.level / 2 := by
      rw [Nat.div_div_eq_div_mul, Nat.pow_succ]
    rcases h.path with ⟨hmatch, hidx, hbr⟩ | ⟨hmatch, hplace⟩
    · refine .covered hmatch (by dsimp only; rw [hup, hidx]; omega) ?_
      have hself : siblingIndex N pos nd.level = 2 * k := by
        rw [siblingIndex, hidx, if_neg (by omega), if_neg (by rw [Nat.add_sub_cancel]; omega),
          Nat.add_sub_cancel]
      rw [siblings_succ, hself, if_pos hmatch, hbr, h.value, Nat.add_sub_cancel]
    · refine .elsewhere hmatch ?_
      rw [if_neg (by simp [hmatch])]
      exact hplace

theorem Ascent.sweep (h : Ascent c f N pos N N q s nd) (hq : q % 2 = 1) : Sweep c f N pos q s nd := by
  refine ⟨h.inner, hq, h.above.le, h.below, h.value, h.tall, ?_⟩
  rcases h.path with ⟨hmatch, hidx, hbr⟩ | ⟨hmatch, hplace⟩
  · exact .covered hmatch hidx hbr
  · rcases hplace with ⟨hlater, hlevel, hbr⟩ | ⟨l, hle, hbit, hlevel, hidx, hbr⟩
    · exact .elsewhere hmatch (.ahead hlater hlevel hbr)
    · exact .elsewhere hmatch (.under l (h.level_lt hq hle hbit) hbit hlevel hidx hbr)

theorem sweepUp_odd (hq : q % 2 = 1) (fuel : Nat) (s : MerkleState) (nd : MerkleNode) :
    sweepUp c (q * 2 ^ nd.level) fuel s nd = (s, nd) := by
  cases fuel with
  | zero => rfl
  | succ fuel => rw [sweepUp, testBit_mul_two_pow_self, if_pos (by simpa using hq)]

theorem sweepUp_even (q fuel : Nat) (s : MerkleState) (nd : MerkleNode) :
    sweepUp c (2 * q * 2 ^ nd.level) (fuel + 1) s nd
      = sweepUp c (q * 2 ^ (nd.level + 1)) fuel { s with branch := (branchStep s nd).1 }
        ⟨nd.level + 1, merkleHash c (s.inner nd.level) nd.h, (branchStep s nd).2⟩ := by
  rw [sweepUp, testBit_mul_two_pow_self, if_neg (by simp),
    show 2 * q * 2 ^ nd.level = q * 2 ^ (nd.level + 1) by ring]

theorem sweepUp_run (fuel : Nat) (h : Ascent c f N pos n next q s nd) (hfuel : q < 2 ^ fuel) : ∃ k, k % 2 = 1 ∧
      k * 2 ^ (sweepUp c (q * 2 ^ nd.level) fuel s nd).2.level = q * 2 ^ nd.level ∧
      nd.level ≤ (sweepUp c (q * 2 ^ nd.level) fuel s nd).2.level ∧
      (sweepUp c (q * 2 ^ nd.level) fuel s nd).1.mutated = s.mutated ∧
      Ascent c f N pos n next k (sweepUp c (q * 2 ^ nd.level) fuel s nd).1
        (sweepUp c (q * 2 ^ nd.level) fuel s nd).2 := by
  induction fuel generalizing q s nd with
  | zero =>
    have := h.index_pos
    omega
  | succ fuel ih =>
    rcases Nat.mod_two_eq_zero_or_one q with heven | hodd
    · obtain ⟨q, rfl⟩ : ∃ k, q = 2 * k := ⟨q / 2, by omega⟩
      rw [sweepUp_even, show 2 * q * 2 ^ nd.level = q * 2 ^ (nd.level + 1) by ring]
      obtain ⟨k, hk, hkm, hlevel, hmut, hasc⟩ := ih (h.step s.mutated) (by omega)
      exact ⟨k, hk, hkm, Nat.le_of_succ_le hlevel, hmut, hasc⟩
    · rw [sweepUp_odd hodd]
      exact ⟨q, hodd, rfl, le_rfl, rfl, h⟩

/-- One round of the sweep: the last node is doubled and goes up. -/
def sweepRound (c : Crypto) (q : Nat) (s : MerkleState) (nd : MerkleNode) : MerkleState × MerkleNode :=
  sweepUp c ((q + 1) / 2 * 2 ^ (nd.level + 1)) 32
    { s with branch := if nd.matchh then s.branch ++ [nd.h] else s.branch }
    ⟨nd.level + 1, merkleHash c nd.h nd.h, nd.matchh⟩

theorem Sweep.count_succ (h : Sweep c f N pos q s nd) :
    q * 2 ^ nd.level + 2 ^ nd.level = (q + 1) / 2 * 2 ^ (nd.level + 1) := by
  have hodd := h.odd
  obtain ⟨k, rfl⟩ : ∃ k, q = 2 * k + 1 := ⟨q / 2, by omega⟩
  rw [show (2 * k + 1 + 1) / 2 = k + 1 by omega]
  ring

theorem Sweep.low (h : Sweep c f N pos q s nd) (hq : q ≠ 1) : 2 ^ (nd.level + 1) < N := by
  have hodd := h.odd
  have hbelow := h.below
  have hthree : 3 * 2 ^ nd.level ≤ q * 2 ^ nd.level := Nat.mul_le_mul_right _ (by omega)
  omega

theorem Sweep.index_le (h : Sweep c f N pos q s nd) : q ≤ N := by
  have hodd := h.odd
  have hbelow := h.below
  have hpos := Nat.two_pow_pos nd.level
  obtain ⟨k, rfl⟩ : ∃ k, q = k + 1 := ⟨q - 1, by omega⟩
  have := Nat.le_mul_of_pos_right k hpos
  rw [Nat.succ_mul] at hbelow
  omega

theorem Sweep.top_iff : q * 2 ^ nd.level = 2 ^ nd.level ↔ q = 1 := by simp

theorem Sweep.round (h : Sweep c f N pos q s nd) (hq : q ≠ 1) (hN : N < 2 ^ 32) :
    ∃ k, k * 2 ^ (sweepRound c q s nd).2.level = (q + 1) / 2 * 2 ^ (nd.level + 1) ∧
      nd.level < (sweepRound c q s nd).2.level ∧
      (sweepRound c q s nd).1.mutated = s.mutated ∧
      Sweep c f N pos k (sweepRound c q s nd).1 (sweepRound c q s nd).2 := by
  have hle := h.index_le
  obtain ⟨k, hk, hkm, hlevel, hmut, hasc⟩ := sweepUp_run 32 (h.step hq) (by omega)
  exact ⟨k, hkm, hlevel, hmut, hasc.sweep hk⟩

theorem Sweep.loop_round (h : Sweep c f N pos q s nd) (hq : q ≠ 1) (fuel : Nat) :
    sweepLoop c (fuel + 1) (q * 2 ^ nd.level) s nd
      = sweepLoop c fuel ((q + 1) / 2 * 2 ^ (nd.level + 1)) (sweepRound c q s nd).1 (sweepRound c q s nd).2 := by
  rw [sweepLoop, if_neg (mt Sweep.top_iff.mp hq)]
  dsimp only
  rw [h.count_succ, ← sweepRound]

theorem sweepLoop_top (fuel : Nat) (s : MerkleState) (nd : MerkleNode) :
    sweepLoop c fuel (1 * 2 ^ nd.level) s nd = (s, nd) := by
  cases fuel with
  | zero => rfl
  | succ fuel => rw [sweepLoop, if_pos (Nat.one_mul _)]

theorem Sweep.level_lt (h : Sweep c f N pos q s nd) (hN : N < 2 ^ 32) (hq : q ≠ 1) : nd.level < 31 := by
  have := (Nat.pow_lt_pow_iff_right (by omega)).mp ((h.low hq).trans hN)
  omega

/-- **The sweep.** It ends at the first level with one node. -/
theorem sweepLoop_run (fuel : Nat) (h : Sweep c f N pos q s nd) (hN : N < 2 ^ 32)
    (hfuel : 31 ≤ nd.level + fuel) : Sweep c f N pos 1 (sweepLoop c fuel (q * 2 ^ nd.level) s nd).1
        (sweepLoop c fuel (q * 2 ^ nd.level) s nd).2 ∧
      (sweepLoop c fuel (q * 2 ^ nd.level) s nd).1.mutated = s.mutated := by
  induction fuel generalizing q s nd with
  | zero =>
    by_cases hq : q = 1
    · subst hq
      exact ⟨h, rfl⟩
    · have := h.level_lt hN hq
      omega
  | succ fuel ih =>
    by_cases hq : q = 1
    · subst hq
      rw [sweepLoop_top]
      exact ⟨h, rfl⟩
    · obtain ⟨k, hkm, hlt, hmut, hnext⟩ := h.round hq hN
      rw [h.loop_round hq, ← hkm, ← hmut]
      exact ih hnext (by omega)

/-! ## The whole computation -/

theorem Sweep.top (h : Sweep c f N pos 1 s nd) : nd.h = node (merkleHash c) f N nd.level 0 ∧
      (pos < N → s.branch = siblings (merkleHash c) f N pos nd.level) := by
  have hreach := h.reach
  refine ⟨h.value, fun hpos => ?_⟩
  rcases h.path with ⟨-, -, hbr⟩ | ⟨-, ⟨hlater, -, -⟩ | ⟨l, hle, hbit, -, -, -⟩⟩
  · exact hbr
  · omega
  · have hge := Nat.ge_two_pow_of_testBit hbit
    have hpow : 2 ^ nd.level < 2 ^ l := Nat.pow_lt_pow_right (by omega) hle
    omega

def leavesState (c : Crypto) (pos : Nat) (leaves : List Uint256) : MerkleState :=
  merkleLeaves c pos 0 ⟨fun _ => 0, false, -1, []⟩ leaves

def sweepStart (c : Crypto) (pos : Nat) (leaves : List Uint256) : MerkleNode :=
  ⟨lowestBit leaves.length 32 0, (leavesState c pos leaves).inner (lowestBit leaves.length 32 0),
    (leavesState c pos leaves).matchlevel == lowestBit leaves.length 32 0⟩

theorem leavesState_counted (c : Crypto) (pos : Nat) (hN : leaves.length < 2 ^ 32) :
    Counted c (leafOf UINT256_ZERO leaves) leaves.length pos leaves.length (leavesState c pos leaves) := by
  refine merkleLeaves_counted (counted_zero c _ _ pos) (Nat.zero_add _) hN fun i leaf h => ?_
  rw [Nat.zero_add, leafOf, List.getD_eq_getElem?_getD, h, Option.getD_some]

theorem sweepStart_sweep (c : Crypto) (pos : Nat) (hne : leaves ≠ []) (hN : leaves.length < 2 ^ 32) :
    ∃ q, q * 2 ^ (sweepStart c pos leaves).level = leaves.length ∧
      Sweep c (leafOf UINT256_ZERO leaves) leaves.length pos q (leavesState c pos leaves) (sweepStart c pos leaves) :=
  (leavesState_counted c pos hN).sweep (List.length_pos_iff.mpr hne) hN

/-- **The computation with an unbounded counter**: the root, whether two complete neighbours are
equal, and the siblings of the wanted leaf. -/
theorem merkleComputation_eq (c : Crypto) (hne : leaves ≠ []) (hN : leaves.length < 2 ^ 32) (pos : Nat) :
    ∃ k, leaves.length ≤ 2 ^ k ∧ (k = 0 ∨ 2 ^ (k - 1) < leaves.length) ∧ (merkleComputation c leaves pos).1
        = node (merkleHash c) (leafOf UINT256_ZERO leaves) leaves.length k 0 ∧
      ((merkleComputation c leaves pos).2.1 = true ↔
        EqualPair (merkleHash c) (leafOf UINT256_ZERO leaves) leaves.length) ∧
      (pos < leaves.length → (merkleComputation c leaves pos).2.2
        = siblings (merkleHash c) (leafOf UINT256_ZERO leaves) leaves.length pos k) := by
  have hcount := leavesState_counted c pos hN
  obtain ⟨q, hq, hsweep⟩ := sweepStart_sweep c pos hne hN
  obtain ⟨htop, hmut⟩ := sweepLoop_run 32 hsweep hN (by omega)
  rw [hq] at htop hmut
  have hrun : merkleComputation c leaves pos
      = ((sweepLoop c 32 leaves.length (leavesState c pos leaves) (sweepStart c pos leaves)).2.h,
        (sweepLoop c 32 leaves.length (leavesState c pos leaves) (sweepStart c pos leaves)).1.mutated,
        (sweepLoop c 32 leaves.length (leavesState c pos leaves)
          (sweepStart c pos leaves)).1.branch) := by
    rw [merkleComputation, if_neg (by simpa using hne)]
    rfl
  rw [hrun]
  refine ⟨_, by simpa using htop.reach, htop.tall, htop.top.1, ?_, htop.top.2⟩
  rw [hmut, hcount.mutated]

/-! ## The counter in 32 bits -/

theorem sweepUp32_eq (fuel : Nat) (hq : 0 < q) (hcount : q * 2 ^ nd.level < 2 ^ 32) (hfuel : q < 2 ^ fuel) :
    sweepUp32 c (q * 2 ^ nd.level) (fuel + 1) s nd = some (sweepUp c (q * 2 ^ nd.level) fuel s nd) := by
  induction fuel generalizing q s nd with
  | zero => omega
  | succ fuel ih =>
    have hlevel : nd.level < 32 := by
      refine (Nat.pow_lt_pow_iff_right (a := 2) (by omega)).mp (Nat.lt_of_le_of_lt ?_ hcount)
      exact Nat.le_mul_of_pos_left _ hq
    rw [sweepUp32, if_neg (by omega), testBit_mul_two_pow_self]
    rcases Nat.mod_two_eq_zero_or_one q with heven | hodd
    · obtain ⟨q, rfl⟩ : ∃ k, q = 2 * k := ⟨q / 2, by omega⟩
      have hm : 2 * q * 2 ^ nd.level = q * 2 ^ (nd.level + 1) := by ring
      rw [if_neg (by simp), sweepUp_even, hm]
      exact ih (by omega) (by rwa [← hm]) (by omega)
    · rw [if_pos (by simpa using hodd), sweepUp_odd hodd]

theorem sweepUp32_zero {fuel : Nat} (hlevel : nd.level ≤ 32) (hfuel : 32 < nd.level + fuel) :
    sweepUp32 c 0 fuel s nd = none := by
  induction fuel generalizing s nd with
  | zero => omega
  | succ fuel ih =>
    rw [sweepUp32, Nat.zero_testBit]
    by_cases hend : 32 ≤ nd.level
    · rw [if_pos hend]
    · rw [if_neg hend, if_neg (by simp)]
      exact ih (by dsimp only; omega) (by dsimp only; omega)

theorem Sweep.loop32_round (h : Sweep c f N pos q s nd) (hq : q ≠ 1) (hN : N < 2 ^ 32)
    (hcount : (q + 1) / 2 * 2 ^ (nd.level + 1) < 2 ^ 32) (fuel : Nat) :
    sweepLoop32 c (fuel + 1) (q * 2 ^ nd.level) s nd
      = sweepLoop32 c fuel ((q + 1) / 2 * 2 ^ (nd.level + 1)) (sweepRound c q s nd).1 (sweepRound c q s nd).2 := by
  have hodd := h.odd
  have hle := h.index_le
  have hup : sweepUp32 c ((q + 1) / 2 * 2 ^ (nd.level + 1)) 33
      { s with branch := if nd.matchh then s.branch ++ [nd.h] else s.branch }
      ⟨nd.level + 1, merkleHash c nd.h nd.h, nd.matchh⟩ = some (sweepRound c q s nd) :=
    sweepUp32_eq 32 (by omega) hcount (by omega)
  rw [sweepLoop32, if_neg (mt Sweep.top_iff.mp hq)]
  dsimp only
  rw [h.count_succ, Nat.mod_eq_of_lt hcount, hup, Option.bind_some]

theorem sweepLoop32_eq (fuel : Nat) (h : Sweep c f N pos q s nd) (hN : N ≤ 2 ^ 31) :
    sweepLoop32 c fuel (q * 2 ^ nd.level) s nd = some (sweepLoop c fuel (q * 2 ^ nd.level) s nd) := by
  induction fuel generalizing q s nd with
  | zero => rfl
  | succ fuel ih =>
    by_cases hq : q = 1
    · subst hq
      rw [sweepLoop_top, sweepLoop32, if_pos (Nat.one_mul _)]
    · have hcount : (q + 1) / 2 * 2 ^ (nd.level + 1) < 2 ^ 32 := by
        have hlow := h.low hq
        have hbelow := h.below
        rw [← h.count_succ]
        omega
      obtain ⟨k, hkm, -, -, hnext⟩ := h.round hq (by omega)
      rw [h.loop32_round hq (by omega) hcount, h.loop_round hq, ← hkm]
      exact ih hnext

theorem sweepLoop32_none (fuel : Nat) (h : Sweep c f N pos q s nd) (hN : N < 2 ^ 32) (hbig : 2 ^ 31 < N)
    (hcount : q * 2 ^ nd.level < 2 ^ 32) (hfuel : 31 ≤ nd.level + fuel) :
    sweepLoop32 c fuel (q * 2 ^ nd.level) s nd = none := by
  have htop : ∀ {r : Nat} {t : MerkleState} {md : MerkleNode}, Sweep c f N pos r t md →
      r * 2 ^ md.level < 2 ^ 32 → r ≠ 1 := by
    rintro r t md hs hlt rfl
    have hreach := hs.reach
    rw [Nat.one_mul] at hreach hlt
    have hlow := (Nat.pow_lt_pow_iff_right (a := 2) (by omega)).mp (hbig.trans_le hreach)
    have hhigh := (Nat.pow_lt_pow_iff_right (a := 2) (by omega)).mp hlt
    omega
  induction fuel generalizing q s nd with
  | zero =>
    have := h.level_lt hN (htop h hcount)
    omega
  | succ fuel ih =>
    have hq := htop h hcount
    have hlevel := h.level_lt hN hq
    have hwrap : (q + 1) / 2 * 2 ^ (nd.level + 1) ≤ 2 ^ 32 := by
      have hsplit : 2 ^ 32 = 2 ^ (32 - nd.level) * 2 ^ nd.level := by
        rw [← Nat.pow_add, Nat.sub_add_cancel (by omega)]
      rw [← h.count_succ, ← Nat.succ_mul, hsplit]
      rw [hsplit] at hcount
      exact Nat.mul_le_mul_right _ (Nat.lt_of_mul_lt_mul_right hcount)
    rcases Nat.lt_or_eq_of_le hwrap with hlt | heq
    · obtain ⟨k, hkm, hup, -, hnext⟩ := h.round hq hN
      rw [h.loop32_round hq hN hlt, ← hkm]
      exact ih hnext (by rwa [hkm]) (by omega)
    · rw [sweepLoop32, if_neg (mt Sweep.top_iff.mp hq)]
      dsimp only
      rw [h.count_succ, heq, Nat.mod_self, sweepUp32_zero (by dsimp only; omega)
        (by dsimp only; omega), Option.bind_none]

/-! ## The program's three functions -/

theorem merkleComputation32_eq_loop (c : Crypto) (hne : leaves ≠ []) (pos : Nat) : merkleComputation32 c leaves pos
      = (sweepLoop32 c 32 leaves.length (leavesState c pos leaves) (sweepStart c pos leaves)).map
        fun r => (r.2.h, r.1.mutated, r.1.branch) := by
  rw [merkleComputation32, if_neg (by simpa using hne)]
  rfl

/-- **Up to `2 ^ 31` leaves** the 32 bits of the counter suffice. -/
theorem merkleComputation32_of_le (c : Crypto) (hN : leaves.length ≤ 2 ^ 31) (pos : Nat) :
    merkleComputation32 c leaves pos = some (merkleComputation c leaves pos) := by
  by_cases hne : leaves = []
  · subst hne
    rfl
  · obtain ⟨q, hq, hsweep⟩ := sweepStart_sweep c pos hne (by omega)
    have hloop := sweepLoop32_eq 32 hsweep hN
    rw [hq] at hloop
    rw [merkleComputation32_eq_loop c hne, hloop, merkleComputation, if_neg (by simpa using hne)]
    rfl

/-- **Beyond `2 ^ 31` leaves** the sweep shifts by 32 and reads behind `inner`. -/
theorem merkleComputation32_of_lt (c : Crypto) (hbig : 2 ^ 31 < leaves.length) (hN : leaves.length < 2 ^ 32)
    (pos : Nat) : merkleComputation32 c leaves pos = none := by
  have hne : leaves ≠ [] := List.ne_nil_of_length_pos (by omega)
  obtain ⟨q, hq, hsweep⟩ := sweepStart_sweep c pos hne hN
  have hloop := sweepLoop32_none 32 hsweep hN hbig (by omega) (by omega)
  rw [hq] at hloop
  rw [merkleComputation32_eq_loop c hne, hloop, Option.map_none]

theorem computeMerkleRoot32_eq (c : Crypto) (hN : leaves.length ≤ 2 ^ 31) :
    computeMerkleRoot32 c leaves = some (computeMerkleRoot c leaves) := by
  rw [computeMerkleRoot32, merkleComputation32_of_le c hN]
  rfl

theorem computeMerkleRoot_fst (c : Crypto) (hN : leaves.length < 2 ^ 32) :
    (computeMerkleRoot c leaves).1 = levelRoot (merkleHash c) UINT256_ZERO leaves := by
  by_cases hne : leaves = []
  · subst hne
    rw [levelRoot]
    rfl
  · obtain ⟨k, hle, hlow, hroot, -, -⟩ := merkleComputation_eq c hne hN 0xffffffff
    rw [computeMerkleRoot, levelRoot_eq_node _ _ _ hle hne hlow]
    exact hroot

theorem computeMerkleRoot_snd (c : Crypto) (hN : leaves.length < 2 ^ 32) : (computeMerkleRoot c leaves).2 = true ↔
      EqualPair (merkleHash c) (leafOf UINT256_ZERO leaves) leaves.length := by
  by_cases hne : leaves = []
  · subst hne
    refine ⟨fun h => absurd h (by simp [computeMerkleRoot, merkleComputation]), ?_⟩
    exact fun h => absurd ((counted_zero c _ 0 0).mutated.mpr h) (by simp)
  · obtain ⟨k, -, -, -, hmut, -⟩ := merkleComputation_eq c hne hN 0xffffffff
    exact hmut

theorem computeMerkleRootFromBranch_branch (c : Crypto) (hN : leaves.length < 2 ^ 32) {position : Nat}
    {leaf : Uint256} (hleaf : leaves[position]? = some leaf) :
    computeMerkleRootFromBranch c leaf (computeMerkleBranch c leaves position) position
      = levelRoot (merkleHash c) UINT256_ZERO leaves := by
  obtain ⟨hpos, -⟩ := List.getElem?_eq_some_iff.mp hleaf
  have hne : leaves ≠ [] := List.ne_nil_of_length_pos (by omega)
  obtain ⟨k, hle, hlow, -, -, hbr⟩ := merkleComputation_eq c hne hN position
  have hf : leafOf UINT256_ZERO leaves position = leaf := by
    rw [leafOf, List.getD_eq_getElem?_getD, hleaf, Option.getD_some]
  rw [computeMerkleRootFromBranch_eq, computeMerkleBranch, hbr hpos, ← hf,
    rootFromSiblings_siblings _ _ hpos, Nat.div_eq_of_lt (hpos.trans_le hle),
    levelRoot_eq_node _ _ _ hle hne hlow]

/-- **`MerkleComputation` is the Merkle tree** exactly for the lists of up to `2 ^ 31` leaves. -/
theorem computeMerkleRoot32_eq_levelRoot_iff (c : Crypto) (leaves : List Uint256) (hlt : leaves.length < 2 ^ 32) :
    ((∃ mutated, computeMerkleRoot32 c leaves = some (levelRoot (merkleHash c) UINT256_ZERO leaves, mutated)) ∧
      ∀ position leaf, leaves[position]? = some leaf → ∃ branch, computeMerkleBranch32 c leaves position = some branch ∧
          computeMerkleRootFromBranch c leaf branch position = levelRoot (merkleHash c) UINT256_ZERO leaves) ↔
    leaves.length ≤ 2 ^ 31 := by
  constructor
  · rintro ⟨⟨mutated, hroot⟩, -⟩
    refine Nat.not_lt.mp fun hbig => ?_
    rw [computeMerkleRoot32, merkleComputation32_of_lt c hbig hlt] at hroot
    cases hroot
  · intro hle
    refine ⟨⟨(computeMerkleRoot c leaves).2, ?_⟩, fun position leaf hleaf => ?_⟩
    · rw [computeMerkleRoot32_eq c hle, ← computeMerkleRoot_fst c hlt]
    · refine ⟨computeMerkleBranch c leaves position, ?_,
        computeMerkleRootFromBranch_branch c hlt hleaf⟩
      rw [computeMerkleBranch32, merkleComputation32_of_le c hle]
      rfl

/-- Three leaves under a pair hash that tells left from right: the root doubles the last leaf. -/
theorem threeLeaves_root : (∃ mutated, computeMerkleRoot32 (pairCrypto fun a b => a + 2 * b) [1, 2, 3]
        = some (1 + 2 * 2 + 2 * (3 + 2 * 3), mutated)) ∧
      ∀ position leaf, [1, 2, 3][position]? = some leaf →
        ∃ branch, computeMerkleBranch32 (pairCrypto fun a b => a + 2 * b) [1, 2, 3] position = some branch ∧
          computeMerkleRootFromBranch (pairCrypto fun a b => a + 2 * b) leaf branch position
            = 1 + 2 * 2 + 2 * (3 + 2 * 3) := by
  have hroot : levelRoot (merkleHash (pairCrypto fun a b => a + 2 * b)) UINT256_ZERO [1, 2, 3]
      = 1 + 2 * 2 + 2 * (3 + 2 * 3) := by
    rw [merkleHash_pairCrypto]
    simp only [levelRoot, nextLevel]
  have hall := (computeMerkleRoot32_eq_levelRoot_iff (pairCrypto fun a b => a + 2 * b) [1, 2, 3]
    (by decide)).mpr (by decide)
  rwa [hroot] at hall

theorem manyLeaves_undefined : (List.replicate (2 ^ 31 + 1) (0 : Uint256)).length < 2 ^ 32 ∧
      computeMerkleRoot32 zeroCrypto (List.replicate (2 ^ 31 + 1) 0) = none := by
  have hlen : (List.replicate (2 ^ 31 + 1) (0 : Uint256)).length = 2 ^ 31 + 1 :=
    List.length_replicate
  refine ⟨by omega, ?_⟩
  rw [computeMerkleRoot32, merkleComputation32_of_lt zeroCrypto (by omega) (by omega),
    Option.map_none]

end KrovaCoin
