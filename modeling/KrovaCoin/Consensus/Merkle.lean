import KrovaCoin.Crypto

/-!
# Merkle trees of blocks (`consensus/merkle.cpp`)

`merkleComputation` follows the constant-space algorithm of the source: `inner` holds the hashes of the complete
subtrees, by level, and the final sweep completes the odd levels. The loops over the 32 levels are given the number of
levels as fuel.
-/

namespace KrovaCoin

/-- `CHash256().Write(a).Write(b).Finalize()`. -/
def merkleHash (c : Crypto) (a b : Uint256) : Uint256 :=
  Uint256.ofBytes (c.hash256 (a.toBytes ++ b.toBytes))

/-- The variables of `MerkleComputation` that outlive one leaf. -/
structure MerkleState where
  inner : Nat → Uint256
  mutated : Bool
  matchlevel : Int
  branch : List Uint256

/-- The node on its way up: its level, its hash and whether it covers the wanted leaf. -/
structure MerkleNode where
  level : Nat
  h : Uint256
  matchh : Bool

/-- What is appended to the branch at one level. -/
def branchStep (s : MerkleState) (n : MerkleNode) : List Uint256 × Bool :=
  if n.matchh then (s.branch ++ [s.inner n.level], true)
  else if s.matchlevel = n.level then (s.branch ++ [n.h], true)
  else (s.branch, false)

/-- The `for` loop over the levels at which `count` has a zero bit. -/
def leafLoop (c : Crypto) (count : Nat) : Nat → MerkleState → MerkleNode → MerkleState × MerkleNode
  | 0, s, n => (s, n)
  | fuel + 1, s, n =>
    if count.testBit n.level then (s, n)
    else
      leafLoop c count fuel
        { s with mutated := s.mutated || s.inner n.level == n.h, branch := (branchStep s n).1 }
        ⟨n.level + 1, merkleHash c (s.inner n.level) n.h, (branchStep s n).2⟩

/-- The body of `while (count < leaves.size())`. -/
def merkleLeaf (c : Crypto) (branchpos count : Nat) (s : MerkleState) (leaf : Uint256) : MerkleState :=
  let r := leafLoop c (count + 1) 32 s ⟨0, leaf, count == branchpos⟩
  { r.1 with
    inner := Function.update r.1.inner r.2.level r.2.h
    matchlevel := if r.2.matchh then r.2.level else r.1.matchlevel }

/-- All leaves, the first of them with number `count`. -/
def merkleLeaves (c : Crypto) (branchpos : Nat) : Nat → MerkleState → List Uint256 → MerkleState
  | _, s, [] => s
  | count, s, leaf :: leaves => merkleLeaves c branchpos (count + 1) (merkleLeaf c branchpos count s leaf) leaves

/-- The inner loop of the final sweep. -/
def sweepUp (c : Crypto) (count : Nat) : Nat → MerkleState → MerkleNode → MerkleState × MerkleNode
  | 0, s, n => (s, n)
  | fuel + 1, s, n =>
    if count.testBit n.level then (s, n)
    else
      sweepUp c count fuel { s with branch := (branchStep s n).1 }
        ⟨n.level + 1, merkleHash c (s.inner n.level) n.h, (branchStep s n).2⟩

/-- `while (count != 1 << level)`: an odd level is completed by its own last node. -/
def sweepLoop (c : Crypto) : Nat → Nat → MerkleState → MerkleNode → MerkleState × MerkleNode
  | 0, _, s, n => (s, n)
  | fuel + 1, count, s, n =>
    if count = 2 ^ n.level then (s, n)
    else
      let count := count + 2 ^ n.level
      let r := sweepUp c count 32 { s with branch := if n.matchh then s.branch ++ [n.h] else s.branch }
        ⟨n.level + 1, merkleHash c n.h n.h, n.matchh⟩
      sweepLoop c fuel count r.1 r.2

/-- The lowest set bit of `count`. -/
def lowestBit (count : Nat) : Nat → Nat → Nat
  | 0, level => level
  | fuel + 1, level => if count.testBit level then level else lowestBit count fuel (level + 1)

/-- `MerkleComputation`: root, mutation flag and branch. -/
def merkleComputation (c : Crypto) (leaves : List Uint256) (branchpos : Nat) : Uint256 × Bool × List Uint256 :=
  if leaves.isEmpty then (UINT256_ZERO, false, [])
  else
    let s := merkleLeaves c branchpos 0 ⟨fun _ => 0, false, -1, []⟩ leaves
    let level := lowestBit leaves.length 32 0
    let r := sweepLoop c 32 leaves.length s ⟨level, s.inner level, s.matchlevel == level⟩
    (r.2.h, r.1.mutated, r.1.branch)

/-- `ComputeMerkleRoot`; the position `-1` is no leaf. -/
def computeMerkleRoot (c : Crypto) (leaves : List Uint256) : Uint256 × Bool :=
  let r := merkleComputation c leaves 0xffffffff
  (r.1, r.2.1)

def computeMerkleBranch (c : Crypto) (leaves : List Uint256) (position : Nat) : List Uint256 :=
  (merkleComputation c leaves position).2.2

def blockMerkleRoot (c : Crypto) (block : CBlock) : Uint256 × Bool :=
  computeMerkleRoot c (block.vtx.map CTransaction.hash)

end KrovaCoin
