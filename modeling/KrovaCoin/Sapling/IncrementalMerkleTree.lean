import KrovaCoin.Lib.MerkleWitness
import KrovaCoin.Coins.Cache

/-!
# The note commitment tree (`sapling/incrementalmerkletree.h`, `sapling/incrementalmerkletree.cpp`)

* `append`, `isComplete`, `rootAt`, `root` — the operations block validation uses.

Principal results: `Represents.append`, `Represents.root`.
-/

namespace KrovaCoin

open Lib

/-- `IncrementalMerkleTree<Depth, Hash>`. -/
structure IncrementalMerkleTree (H : Type) where
  left : Option H
  right : Option H
  /-- Collapsed left subtrees, ordered toward the root. -/
  parents : List (Option H)
  deriving DecidableEq, Repr

namespace IncrementalMerkleTree

variable {H : Type} (h : MerkleHash H)

/-- `IncrementalMerkleTree()`. -/
def empty : IncrementalMerkleTree H := ⟨none, none, []⟩

def isComplete (t : IncrementalMerkleTree H) (depth : Nat) : Bool :=
  t.left.isSome && t.right.isSome && t.parents.length == depth - 1 && t.parents.all Option.isSome

/-- The loop of `append` from index `i` on, for the remaining `n` iterations. -/
def appendLoop : Nat → Nat → List (Option H) → H → List (Option H)
  | 0, _, parents, _ => parents
  | _ + 1, _, [], combined => [some combined]
  | _ + 1, _, none :: parents, combined => some combined :: parents
  | n + 1, i, some p :: parents, combined =>
    none :: appendLoop n (i + 1) parents (h.combine p combined (i + 1))

/-- `append`; the error is the text of the exception. -/
def append (depth : Nat) (t : IncrementalMerkleTree H) (obj : H) : Except String (IncrementalMerkleTree H) :=
  if t.isComplete depth then .error "tree is full"
  else
    match t.left, t.right with
    | none, _ => .ok { t with left := some obj }
    | some _, none => .ok { t with right := some obj }
    | some left, some right =>
      .ok ⟨some obj, none, appendLoop h depth 0 t.parents (h.combine left right 0)⟩

def fillerNext (queue : List H) (depth : Nat) : H × List H :=
  match queue with
  | x :: queue => (x, queue)
  | [] => (h.emptyRoot depth, [])

/-- The loop of `root` over the parents: the root so far, the depth reached and the filler. -/
def rootParents : List (Option H) → Nat → H → List H → H × Nat × List H
  | [], d, root, queue => (root, d, queue)
  | some p :: parents, d, root, queue => rootParents parents (d + 1) (h.combine p root d) queue
  | none :: parents, d, root, queue =>
    rootParents parents (d + 1) (h.combine root (fillerNext h queue d).1 d) (fillerNext h queue d).2

/-- `while (d < depth)` in `root`, for `n = depth - d` iterations. -/
def rootFill : Nat → Nat → H → List H → H
  | 0, _, root, _ => root
  | n + 1, d, root, queue =>
    rootFill n (d + 1) (h.combine root (fillerNext h queue d).1 d) (fillerNext h queue d).2

/-- A leaf, or the next filler. -/
def leafOr (leaf : Option H) (queue : List H) : H × List H :=
  match leaf with
  | some x => (x, queue)
  | none => fillerNext h queue 0

/-- `root(depth, filler_hashes)`. -/
def rootAt (t : IncrementalMerkleTree H) (depth : Nat) (filler_hashes : List H) : H :=
  let l := leafOr h t.left filler_hashes
  let r := leafOr h t.right l.2
  let p := rootParents h t.parents 1 (h.combine l.1 r.1 0) r.2
  rootFill h (depth - p.2.1) p.2.1 p.1 p.2.2

def root (depth : Nat) (t : IncrementalMerkleTree H) : H := rootAt h t depth []

def appendAll (depth : Nat) (t : IncrementalMerkleTree H) (xs : List H) : Except String (IncrementalMerkleTree H) :=
  xs.foldlM (append h depth) t

/-! ## What the tree represents -/

/-- The tree keeps the last pair of leaves and the frontier of the pairs before it. -/
inductive Represents (depth : Nat) : IncrementalMerkleTree H → List H → Prop
  | empty : Represents depth empty []
  | left {ys : List H} {ps : List (Option H)} (l : H) (heven : ys.length % 2 = 0)
      (hps : h.Frontier 1 ps (h.pairUp 0 ys)) (hlen : ps.length < depth) :
      Represents depth ⟨some l, none, ps⟩ (ys ++ [l])
  | pair {ys : List H} {ps : List (Option H)} (l r : H) (heven : ys.length % 2 = 0)
      (hps : h.Frontier 1 ps (h.pairUp 0 ys)) (hlen : ps.length < depth) :
      Represents depth ⟨some l, some r, ps⟩ (ys ++ [l, r])

theorem appendLoop_eq_carry : ∀ {n i : Nat} {ps : List (Option H)} (x : H), ps.length < n →
    appendLoop h n i ps x = h.carry (i + 1) ps x
  | _ + 1, _, [], _, _ => rfl
  | _ + 1, _, none :: _, _, _ => rfl
  | n + 1, i, some p :: ps, x, hlen => by
    have := @appendLoop_eq_carry n (i + 1) ps (h.combine p x (i + 1)) (by simpa using hlen)
    simp only [appendLoop, MerkleHash.carry, this]

theorem carry_length_le : ∀ {d n : Nat} {ps : List (Option H)} (x : H), ps.length ≤ n →
    (ps.length = n → ps.all Option.isSome = false) → (h.carry d ps x).length ≤ n
  | _, 0, [], _, _, hfull => by simp at hfull
  | _, n + 1, [], _, _, _ => by simp [MerkleHash.carry]
  | _, _, none :: _, _, hlen, _ => by simpa [MerkleHash.carry] using hlen
  | d, n + 1, some p :: ps, x, hlen, hfull => by
    have := @carry_length_le (d + 1) n ps (h.combine p x d) (by simpa using hlen)
      (fun hps => by simpa using hfull (by simpa using hps))
    simpa [MerkleHash.carry] using this

/-- **Appending keeps the representation.** -/
theorem Represents.append {depth : Nat} {t t' : IncrementalMerkleTree H} {xs : List H} {x : H}
    (hdepth : 0 < depth) (ht : Represents h depth t xs)
    (happ : IncrementalMerkleTree.append h depth t x = .ok t') : Represents h depth t' (xs ++ [x]) := by
  unfold IncrementalMerkleTree.append at happ
  split at happ
  · cases happ
  · rename_i hfull
    cases ht with
    | empty =>
      cases happ
      exact .left x rfl rfl hdepth
    | left l heven hps hlen =>
      cases happ
      rw [List.append_assoc]
      exact .pair l x heven hps hlen
    | @pair ys ps l r heven hps hlen =>
      cases happ
      rw [appendLoop_eq_carry h _ hlen]
      refine .left x (by simp; omega) ?_ ?_
      · rw [h.pairUp_append 0 l r heven]
        exact hps.carry h _
      · have hcarry := @carry_length_le _ h 1 (depth - 1) ps (h.combine l r 0) (by omega)
          (fun hps => by simpa [isComplete, hps] using hfull)
        simp only [Nat.zero_add]
        omega

theorem fillerNext_eq (queue : List H) (d : Nat) : fillerNext h queue d = (h.nextSibling queue d, queue.tail) := by
  cases queue <;> rfl

theorem rootFill_eq_spineRoot : ∀ (k d : Nat) (r : H) (queue : List H),
    rootFill h k d r queue = h.spineRoot k d [] r queue
  | 0, _, _, _ => rfl
  | k + 1, d, r, queue => by
    rw [rootFill, fillerNext_eq, rootFill_eq_spineRoot k]
    rfl

theorem rootParents_eq_spineRoot : ∀ {ps : List (Option H)} {k d : Nat} (r : H) (queue : List H), ps.length ≤ k →
    rootFill h (k + d - (rootParents h ps d r queue).2.1) (rootParents h ps d r queue).2.1
      (rootParents h ps d r queue).1 (rootParents h ps d r queue).2.2 = h.spineRoot k d ps r queue
  | [], k, d, r, queue, _ => by
    simp only [rootParents, Nat.add_sub_cancel]
    exact rootFill_eq_spineRoot h k d r queue
  | some p :: ps, k + 1, d, r, queue, hlen => by
    rw [Nat.add_assoc, Nat.add_comm 1 d]
    exact rootParents_eq_spineRoot (h.combine p r d) queue (by simpa using hlen)
  | none :: ps, k + 1, d, r, queue, hlen => by
    rw [Nat.add_assoc, Nat.add_comm 1 d]
    simp only [rootParents, fillerNext_eq]
    exact rootParents_eq_spineRoot (h.combine r (h.nextSibling queue d) d) queue.tail (by simpa using hlen)

/-- **The root of the tree is the root of the complete tree over its leaves.** -/
theorem Represents.root {depth : Nat} (hdepth : 0 < depth) (hempty : h.EmptyLaw depth)
    {t : IncrementalMerkleTree H} {xs : List H} (ht : Represents h depth t xs) :
    IncrementalMerkleTree.root h depth t = h.treeRoot depth 0 (MerkleHash.padded (h.emptyRoot 0) xs) := by
  obtain ⟨k, rfl⟩ : ∃ k, depth = k + 1 := ⟨depth - 1, by omega⟩
  have hnil : h.Frontier 1 [] (h.pairUp 0 []) := rfl
  cases ht with
  | empty =>
    rw [← MerkleHash.padded_append_empty, ← MerkleHash.padded_append_empty, List.append_assoc,
      List.singleton_append, h.treeRoot_padded_pair hempty (by omega) rfl,
      ← hnil.root h hempty _ (by omega) (Nat.zero_le k), ← h.spineRoot_nil]
    exact rootParents_eq_spineRoot h _ _ (Nat.zero_le k)
  | left l heven hps hlen =>
    rw [← MerkleHash.padded_append_empty, List.append_assoc, List.singleton_append,
      h.treeRoot_padded_pair hempty (by omega) heven, ← hps.root h hempty _ (by omega) (by omega), ← h.spineRoot_nil]
    exact rootParents_eq_spineRoot h _ _ (Nat.le_of_lt_succ hlen)
  | pair l r heven hps hlen =>
    rw [h.treeRoot_padded_pair hempty (by omega) heven, ← hps.root h hempty _ (by omega) (by omega), ← h.spineRoot_nil]
    exact rootParents_eq_spineRoot h _ _ (Nat.le_of_lt_succ hlen)

end IncrementalMerkleTree

/-! ## The Sapling tree -/

def pedersen_empty_roots : List Uint256 := [
  0x0000000000000000000000000000000000000000000000000000000000000001,
  0x55a16c35c13ca8e6d0fef6048c29bde0c81978a7bc347607eb7fd5b26ae37d81,
  0x344e80dd16698588bcccb227dbaf93d18abbf09f430688996c178bf103fce9ff,
  0x6cbbbf93d636409a13b16f0d6e4d3a959a732ac18343bbbd7ef02eef863328d8,
  0x491bb32c1b939f4c2bc1646a6475a1be510a4b3ad80baea4deb907c965de10e1,
  0x0a39236dbbe853efae156241a0ef8ba0f0fb3717f6fc1ef731a2bcc2b2822d91,
  0x139638e78ca544cfa8bebcb1723a1d5c8a1aa83872d29128d43f1e399ccfc98a,
  0x1328a50a3d1f276a3311147fafdd8115b3cafd131bc94193d16bb424ac39c6d6,
  0x4404684b7cff53004f4b03c7db4e79cb282dd8d7274727c91c993037dcab997b,
  0x6b615b4d263934719a5f539af96314dce62e404e2d55df616b923bf15754ff43,
  0x72ce9bf4842b91fb62a51da80ae757c785f19d9d6aea114233b7d0fb59b649ba,
  0x3cc281707d93e7826b7a2cee9a2d28a6f7a41f70fa623ab7691e3b6a77c87747,
  0x4830477985e91d6b733dbeb7a55d88b1e2956fd61e1cbcdef50672c2147167ec,
  0x51b6da75cf217083216448ec8b7130b63094c50487523c8c25b74fd2c4da771b,
  0x2c0857d1f31045d9fd35eaa144a3ac6bc2cf25d227bf71a87823b9ac5ab274bd,
  0x2f640e7fb9eacae5c9101213c52657479009cd3db43fa59fe008f695dfdeacd6,
  0x5124bed15e4d987a17a7afc5a4d3d3708285c97b24a9aadfb9ee51955f67a61e,
  0x1cd5c59e2c867c690b3875d8a3f19a04ece3d7da50767d9759b70719d016db6e,
  0x00cf330e5afc0308d75b3a6f897cce9d5bf22c96c49b43807acc3a6ebf8d1ccd,
  0x1692152b00c67bd59facc6cb318d999e83d32e0e95f25f7d543e26d84884ca6a,
  0x73765241e84977760504649ad2681bfb815d1fba3074ac0516d1105a3ea45f8d,
  0x2330cfe620a5d424aecb19fd78dea61e9c0ff87b1910639e06d6ab130cabee08,
  0x492c3e83db6e0ff45a9fe2578fe9b9e848e6220bfd468630bfb182c67b556907,
  0x5008eea3d12ad611ef686a5cf8625628810fb0b7d33ab4845f68428fd737694c,
  0x12d78f77fd02125752a37f91c8f659477f69626c374debb1460ccb0228e5e0fe,
  0x4a3e3845ee76328e52911c776d6476011fe68253d62185da831a97682925d616,
  0x58cb735054a21de2e05e3893bb1c30e008907f3b0e5b9e282922469a2c64e1d2,
  0x6aed340123e2a7beb3cd48eee8387d7d6c39732046fca69c1d169cff082c12a5,
  0x2a6ebd7d5f943ff118bca6a7a32bcbb75f24948dcbd769ebcc47bcdc41b8e728,
  0x72efc7a55cda6f1df0940ab5ec648f910c99bf7e90e25785d23c4a4d034bf3e1,
  0x2da6dc46b644358045c1b438923072ed6992f325ef49eb819b5076b6145f9312,
  0x1438c5351de4b6881f97f5b6c663411d54c14cb5807f092af0a4d6d431d0eeb2,
  0x3e49b5f954aa9d3545bc6c37744661eea48d7c34e3000d82b7f0010c30f4c2fb,
  0x14ee7c99465afbc1c4ccb4d9409848612818960ee9b4e414f15b5f6498672e25,
  0x111e330e117ee8bff1d67e441de18ce074ffb666ea25ec11ddc7f7f14290b198,
  0x6a0b91545895f9602a0fd6b93a122cbd03c7076bab4d2cf4a92b5799473051d4,
  0x726cf3ceed2eefdc08921cb33fd84c4776ef677851e4337ad31bf0ac275fcd3e,
  0x0727fee860a64ffe16abcaec733b5712424a51d27848aaf83da19478a67dc326,
  0x5168dc094fc06224784583e3d5a9e80d685b4a5a292c2bd430ed5e4834ef45b5,
  0x015842d1a9fa83b540a18feb667bbd9c72735004bd247fa865679400b320fd77,
  0x25070a357ee8688799de6fe493c8d7680b9b91bacbdea6f38fb599176b57aacb,
  0x67a2084f3d47524ee38edb12359350a0b3100d1a2b0d12d07400a38cb181fe45,
  0x6af51743a565d44dc4f79d28f1cf7c5da7505b86d13e1d551e591f12f0a1600e,
  0x0d1c60884954610cd9bd9a36395fed8869477b69bee811fccba092dd84b1dfce,
  0x425f490a10a2050ef943374b1b7e3d7e0ead0c7a4364a43b319a6412666862f3,
  0x6bdff3a4e5137cfffd08e74a9637f9161fc35e8ba07152f8d3ffdebbf3e5ea7d,
  0x58a2c91ec6ef926bbfa1705dbb5bdf57fd2d3431dc93bd02856dab1efcf0cc40,
  0x2c0e8eb918e42f0de42651221a9a478823d02d87254ff60785ca1b1f492580d7,
  0x0a55bf6af212449512b4d77b70c286e9a09e89a56e84155f72a0c8854629b70d,
  0x0aae0d5936f69594493527ddc6f8f7ae93c8476dda50865475cf5595be90e2b7,
  0x2759ff86d522b6503f07ef417c59abfe6abe911f355ea64501308c852a53d22d,
  0x519858bcbad982d00c7388412e78d88fdcfca5f31983bf380eeb9a6f5c0c2f97,
  0x2909060de9a02d7d4b609eb71bae5d83a83a9b323de44a2b1890430f7b571e00,
  0x6f4362f2d4a91f0801cb1f45a840d9f1f3da75b6d5ffe5fcee54bc1ea9706eaa,
  0x03dee65fb632eca5c737ab6adddb52af85fed751122340297531e667bf3870d7,
  0x4fb2cf7e546c65c887a84375ddba661d6c3ce4bcc79fddce6df90c7e7aa127d2,
  0x69f5c076fa97d715a0d141afd1a7b789dace7e705c58c03fe583159521a5e870,
  0x1c281db093acdffc30ebb06e16351d59104ed22c0e159050fc72e85568a985e4,
  0x6b414318d6b5ca39847e466a2e80714658aef2dccef2416e89862adfeb9fa1e4,
  0x2a8aa259061ed94356adf7b52d8be5b3b8659fe388606cbd436a8047888327e9,
  0x6f1cd526593c041545156e8e44f532ac7601511a01624fffd29c3fe818a8d30b,
  0x0d0f83e1de747f1bd290b5b335ae20f17f5e91018e2de78f499037e0453441ce,
  0x555ac1951b7458967717bf9d6825c5eca39ab1b15ca6e04ebd7a3de7936f0e60]

/-- `PedersenHash::EmptyRoot`. -/
def pedersenEmptyRoot (depth : Nat) : Uint256 := pedersen_empty_roots.getD depth 0

def SAPLING_INCREMENTAL_MERKLE_TREE_DEPTH : Nat := 32

/-- `PedersenHash`: `librustzcash_merkle_hash`, for which the table of empty roots is right. -/
structure PedersenHash where
  combine : Uint256 → Uint256 → Nat → Uint256
  emptyRoots : ∀ d < SAPLING_INCREMENTAL_MERKLE_TREE_DEPTH,
    combine (pedersenEmptyRoot d) (pedersenEmptyRoot d) d = pedersenEmptyRoot (d + 1)

abbrev SaplingMerkleTree := IncrementalMerkleTree Uint256

namespace PedersenHash

variable (p : PedersenHash)

/-- The hash as the tree uses it. -/
def hash : MerkleHash Uint256 := ⟨p.combine, pedersenEmptyRoot⟩

/-- `SaplingMerkleTree::append`, over a list of commitments. -/
def appendAll (t : SaplingMerkleTree) (cmus : List Uint256) : Except String SaplingMerkleTree :=
  IncrementalMerkleTree.appendAll p.hash SAPLING_INCREMENTAL_MERKLE_TREE_DEPTH t cmus

def root (t : SaplingMerkleTree) : Uint256 :=
  IncrementalMerkleTree.root p.hash SAPLING_INCREMENTAL_MERKLE_TREE_DEPTH t

def emptyRoot : Uint256 := pedersenEmptyRoot SAPLING_INCREMENTAL_MERKLE_TREE_DEPTH

/-- What the coin caches use of the tree. -/
def treeOps : TreeOps SaplingMerkleTree := ⟨p.root, .empty⟩

end PedersenHash

end KrovaCoin
