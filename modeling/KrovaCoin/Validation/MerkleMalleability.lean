import KrovaCoin.Validation.CheckBlock
import KrovaCoin.Consensus.MerkleRoot

/-!
# Malleability of the Merkle root (`consensus/merkle.cpp`, `validation.cpp`)

A list of transactions whose tail is repeated can have the root of the list without the repetition (CVE-2012-2459).
`MerkleComputation` reports two equal neighbours where it joins complete nodes, not in the final sweep; `CheckBlock`
refuses what it reports.

Principal result: `merkleRoot_malleability_detected`.
-/

namespace KrovaCoin

open Lib Lib.MerkleLevels

/-- The pairs that are hashed for the root of `leaves`. -/
def pairsJoined (c : Crypto) (leaves : List Uint256) : Set (Uint256 × Uint256) :=
  joined (merkleHash c) (leafOf UINT256_ZERO leaves) leaves.length

/-- The pair hash has no collision among the pairs hashed for the roots of two lists. -/
def NoCollisionBetween (c : Crypto) (xs ys : List Uint256) : Prop :=
  NoCollision (merkleHash c) (pairsJoined c xs ∪ pairsJoined c ys)

theorem computeMerkleRoot_eq_or_mutated {c : Crypto} {xs ys : List Uint256} (hx : xs.length < 2 ^ 32)
    (hy : ys.length < 2 ^ 32) (hS : NoCollisionBetween c xs ys) (hlev : levels xs.length = levels ys.length)
    (hroot : (computeMerkleRoot c xs).1 = (computeMerkleRoot c ys).1) :
    xs = ys ∨ (computeMerkleRoot c xs).2 = true ∨ (computeMerkleRoot c ys).2 = true := by
  rw [computeMerkleRoot_fst c hx, computeMerkleRoot_fst c hy] at hroot
  rw [computeMerkleRoot_snd c hx, computeMerkleRoot_snd c hy]
  exact eq_or_equalPair hS hlev hroot

theorem computeMerkleRoot32_eq_some {c : Crypto} {xs : List Uint256} {r : Uint256 × Bool} (hlt : xs.length < 2 ^ 32)
    (h : computeMerkleRoot32 c xs = some r) : computeMerkleRoot c xs = r := by
  have hle : xs.length ≤ 2 ^ 31 := by
    refine Nat.not_lt.mp fun hbig => ?_
    rw [computeMerkleRoot32, merkleComputation32_of_lt c hbig hlt] at h
    cases h
  rw [computeMerkleRoot32_eq c hle] at h
  exact Option.some.inj h

theorem checkBlock_merkle {env : Env} {node : NodeState} {block : CBlock} {pow sig : Bool}
    (h : checkBlock env node block pow true sig = .ok ()) :
    blockMerkleRoot env.crypto block = (block.hashMerkleRoot, false) ∧ block.vtx.length ≤ MAX_BLOCK_SIZE_CURRENT := by
  simp only [checkBlock, checkMerkleRoot, bind_eq_ok, rejectIf_eq_ok, exists_and_left, exists_const,
    Bool.not_true, Bool.false_eq_true, if_false, decide_eq_false_iff_not, not_or, not_lt,
    bne_eq_false_iff_eq] at h
  obtain ⟨-, ⟨hroot, hmut⟩, ⟨-, hlen, -⟩, -⟩ := h
  exact ⟨Prod.ext hroot.symm hmut, hlen⟩

/-- **Malleability is detected.**  Of two different lists of ids with trees of one height and one
root, one is reported as mutated; so two blocks with one Merkle root and trees of one height that
`CheckBlock` accepts have the same transaction ids.  The pair hash must have no collision among the
pairs of the two trees. -/
theorem merkleRoot_malleability_detected (c : Crypto) :
    (∀ (xs ys : List Uint256) (root : Uint256) (mx my : Bool), xs.length < 2 ^ 32 →
      ys.length < 2 ^ 32 → NoCollisionBetween c xs ys → xs ≠ ys →
      levels xs.length = levels ys.length → computeMerkleRoot32 c xs = some (root, mx) →
      computeMerkleRoot32 c ys = some (root, my) → mx = true ∨ my = true) ∧
    ∀ (env : Env) (node node' : NodeState) (block block' : CBlock) (pow pow' sig sig' : Bool), env.crypto = c →
      NoCollisionBetween c (block.vtx.map CTransaction.hash) (block'.vtx.map CTransaction.hash) →
      levels block.vtx.length = levels block'.vtx.length →
      block.hashMerkleRoot = block'.hashMerkleRoot →
      checkBlock env node block pow true sig = .ok () →
      checkBlock env node' block' pow' true sig' = .ok () →
      block.vtx.map CTransaction.hash = block'.vtx.map CTransaction.hash := by
  constructor
  · intro xs ys root mx my hx hy hS hne hlev hrx hry
    have hx' := computeMerkleRoot32_eq_some hx hrx
    have hy' := computeMerkleRoot32_eq_some hy hry
    have hroot : (computeMerkleRoot c xs).1 = (computeMerkleRoot c ys).1 := by rw [hx', hy']
    rcases computeMerkleRoot_eq_or_mutated hx hy hS hlev hroot with heq | hmx | hmy
    · exact absurd heq hne
    · exact .inl (by rwa [hx'] at hmx)
    · exact .inr (by rwa [hy'] at hmy)
  · rintro env node node' block block' pow pow' sig sig' rfl hS hlev hroot hok hok'
    obtain ⟨hm, hlen⟩ := checkBlock_merkle hok
    obtain ⟨hm', hlen'⟩ := checkBlock_merkle hok'
    have hsmall : MAX_BLOCK_SIZE_CURRENT < 2 ^ 32 := by decide
    rw [blockMerkleRoot] at hm hm'
    have h := computeMerkleRoot_eq_or_mutated (by rw [List.length_map]; omega)
      (by rw [List.length_map]; omega) hS (by rwa [List.length_map, List.length_map])
      (by rw [hm, hm', hroot])
    rw [hm, hm'] at h
    simpa using h

/-- A pair hash that tells left from right. -/
def shiftedSum (a b : Uint256) : Uint256 := a + 2 * b

theorem joined_three {xs : List Uint256} (hxs : xs = [1, 2, 3] ∨ xs = [1, 2, 3, 3]) :
    pairsJoined (pairCrypto shiftedSum) xs ⊆ {(1, 2), (3, 3), (5, 9)} := by
  rintro p ⟨l, j, hl, hj, rfl⟩
  have hlen : xs.length ≤ 4 := by rcases hxs with rfl | rfl <;> decide
  have hl2 : l < 2 := (Nat.pow_lt_pow_iff_right (a := 2) (by omega)).mp (by omega)
  have hj2 : j < 2 := by
    have hpow : 2 ≤ 2 ^ (l + 1) := Nat.le_self_pow (by omega) 2
    have := Nat.mul_le_mul_left j hpow
    omega
  rcases hxs with rfl | rfl <;> interval_cases l <;> interval_cases j <;>
    first | (exfalso; revert hj; decide) | decide

theorem repeatedTail_root {xs : List Uint256} (hxs : xs = [1, 2, 3] ∨ xs = [1, 2, 3, 3]) :
    ∃ mutated, computeMerkleRoot32 (pairCrypto shiftedSum) xs = some (23, mutated) := by
  have hlen : xs.length ≤ 4 := by rcases hxs with rfl | rfl <;> decide
  have hroot : levelRoot shiftedSum UINT256_ZERO xs = 23 := by
    rcases hxs with rfl | rfl <;> simp only [levelRoot, nextLevel] <;> decide
  refine ⟨(computeMerkleRoot (pairCrypto shiftedSum) xs).2, ?_⟩
  rw [computeMerkleRoot32_eq _ (by omega), ← hroot, ← merkleHash_pairCrypto shiftedSum,
    ← computeMerkleRoot_fst _ (by omega), merkleHash_pairCrypto]

/-- The list with its last id repeated has the same root, and one of the two is reported. -/
theorem repeatedTail_detected : NoCollisionBetween (pairCrypto shiftedSum) [1, 2, 3] [1, 2, 3, 3] ∧
      ∃ root mx my, computeMerkleRoot32 (pairCrypto shiftedSum) [1, 2, 3] = some (root, mx) ∧
        computeMerkleRoot32 (pairCrypto shiftedSum) [1, 2, 3, 3] = some (root, my) ∧
        (mx = true ∨ my = true) := by
  have hinj : Set.InjOn (fun p : Uint256 × Uint256 => shiftedSum p.1 p.2)
      {(1, 2), (3, 3), (5, 9)} := by
    rintro p (rfl | rfl | rfl) q (rfl | rfl | rfl) h <;> first | rfl | (revert h; decide)
  have hS : NoCollisionBetween (pairCrypto shiftedSum) [1, 2, 3] [1, 2, 3, 3] := by
    rw [NoCollisionBetween, NoCollision, merkleHash_pairCrypto]
    exact hinj.mono (Set.union_subset (joined_three (.inl rfl)) (joined_three (.inr rfl)))
  obtain ⟨mx, hx⟩ := repeatedTail_root (.inl rfl)
  obtain ⟨my, hy⟩ := repeatedTail_root (.inr rfl)
  refine ⟨hS, 23, mx, my, hx, hy, ?_⟩
  exact (merkleRoot_malleability_detected (pairCrypto shiftedSum)).1 [1, 2, 3] [1, 2, 3, 3] 23 mx my
    (by decide) (by decide) hS (by decide) (by decide +kernel) hx hy

end KrovaCoin
