import KrovaCoin.Consensus.MerkleRoot
import KrovaCoin.Lib.PartialTree
import KrovaCoin.Serialize

/-!
# Partial Merkle trees (`merkleblock.cpp`)

`CPartialMerkleTree` shows some transaction ids of a block together with its Merkle root.

* `CPartialMerkleTree.build` — the constructor; `serialize`, `deserialize` — the network format.

`ExtractMatches` reads what `Lib.MerkleLevels.Shows` describes (`traverseAndExtract_of_shows`,
`traverseAndExtract_shows`), and `TraverseAndBuild` writes it (`traverseAndBuild_shows`).

Principal results: `partialMerkleTree_roundTrip`, `partialMerkleTree_authentic_iff`.
-/

namespace KrovaCoin

open Lib Lib.MerkleLevels

/-! ## Flag bits as bytes -/

/-- The byte with the given bits: `ret[p / 8] |= bits[p] << (p % 8)`. -/
def packByte (bit : Nat → Bool) : UInt8 :=
  (List.range 8).foldl (fun b i => b ||| (bit i).toUInt8 <<< UInt8.ofNat i) 0

def bitsToBytes (bits : List Bool) : List UInt8 :=
  (List.range ((bits.length + 7) / 8)).map fun i => packByte fun j => bits.getD (8 * i + j) false

def bytesToBits (bytes : List UInt8) : List Bool :=
  (List.range (bytes.length * 8)).map fun p => bytes.getD (p / 8) 0 &&& 1 <<< UInt8.ofNat (p % 8) != 0

theorem packByte_bit (bit : Nat → Bool) {i : Nat} (hi : i < 8) :
    (packByte bit &&& 1 <<< UInt8.ofNat i != 0) = bit i := by
  have hall : ∀ b0 b1 b2 b3 b4 b5 b6 b7 : Bool, ∀ i : Fin 8,
      (packByte (fun j => [b0, b1, b2, b3, b4, b5, b6, b7].getD j false) &&& 1 <<< UInt8.ofNat i != 0)
        = [b0, b1, b2, b3, b4, b5, b6, b7].getD i false := by
    decide
  have hbits : ∀ j < 8, [bit 0, bit 1, bit 2, bit 3, bit 4, bit 5, bit 6, bit 7].getD j false = bit j := by
    intro j hj
    interval_cases j <;> rfl
  have := hall (bit 0) (bit 1) (bit 2) (bit 3) (bit 4) (bit 5) (bit 6) (bit 7) ⟨i, hi⟩
  rw [hbits i hi] at this
  rw [← this]
  rfl

theorem bytesToBits_bitsToBytes (bits : List Bool) : ∃ pad, bytesToBits (bitsToBytes bits) = bits ++ pad ∧
    (bits ++ pad).length = 8 * ((bits.length + 7) / 8) := by
  have hlen : (bitsToBytes bits).length = (bits.length + 7) / 8 := by simp [bitsToBytes]
  refine ⟨List.replicate (8 * ((bits.length + 7) / 8) - bits.length) false, ?_, by simp; omega⟩
  refine List.ext_getElem (by simp [bytesToBits, hlen]; omega) fun p hp _ => ?_
  have hp' : p / 8 < (bits.length + 7) / 8 := by
    simp only [bytesToBits, List.length_map, List.length_range, hlen] at hp
    omega
  have hbyte : (bitsToBytes bits).getD (p / 8) 0 = packByte fun j => bits.getD (8 * (p / 8) + j) false := by
    simp [bitsToBytes, List.getD_eq_getElem?_getD, hp']
  simp only [bytesToBits, List.getElem_map, List.getElem_range, hbyte]
  rw [packByte_bit _ (Nat.mod_lt p (by decide)), Nat.div_add_mod, List.getD_eq_getElem?_getD]
  by_cases hin : p < bits.length
  · rw [List.getElem?_eq_getElem hin, List.getElem_append_left hin, Option.getD_some]
  · rw [List.getElem?_eq_none (by omega), List.getElem_append_right (by omega), List.getElem_replicate,
      Option.getD_none]

/-! ## The model -/

structure CPartialMerkleTree where
  nTransactions : UInt32
  vBits : List Bool
  vHash : List Uint256
  fBad : Bool

/-- `CalcTreeWidth`. The callers have at most `MAX_BLOCK_SIZE_CURRENT / 60` transactions. -/
def calcTreeWidth (nTransactions height : Nat) : Nat := (nTransactions + (1 <<< height) - 1) >>> height

/-- `while (CalcTreeWidth(nHeight) > 1) nHeight++`; a tree has fewer levels than transactions. -/
def treeHeight (nTransactions : Nat) : Nat :=
  go nTransactions 0
where
  go : Nat → Nat → Nat
    | 0, nHeight => nHeight
    | fuel + 1, nHeight => if calcTreeWidth nTransactions nHeight > 1 then go fuel (nHeight + 1) else nHeight

def calcHash (c : Crypto) (nTransactions : Nat) (vTxid : List Uint256) : Nat → Nat → Uint256
  | 0, pos => leafOf UINT256_ZERO vTxid pos
  | height + 1, pos =>
    let left := calcHash c nTransactions vTxid height (pos * 2)
    let right := if pos * 2 + 1 < calcTreeWidth nTransactions height
      then calcHash c nTransactions vTxid height (pos * 2 + 1) else left
    merkleHash c left right

/-- `fParentOfMatch` of `TraverseAndBuild`. -/
def parentOfMatch (nTransactions : Nat) (vMatch : List Bool) (height pos : Nat) : Bool :=
  (List.range' (pos <<< height) (1 <<< height)).any fun p => decide (p < nTransactions) && vMatch.getD p false

namespace CPartialMerkleTree

def traverseAndBuild (c : Crypto) (vTxid : List Uint256) (vMatch : List Bool) :
    Nat → Nat → CPartialMerkleTree → CPartialMerkleTree
  | 0, pos, t =>
    { t with
      vBits := t.vBits ++ [parentOfMatch t.nTransactions.toNat vMatch 0 pos]
      vHash := t.vHash ++ [calcHash c t.nTransactions.toNat vTxid 0 pos] }
  | height + 1, pos, t =>
    let fParentOfMatch := parentOfMatch t.nTransactions.toNat vMatch (height + 1) pos
    let t := { t with vBits := t.vBits ++ [fParentOfMatch] }
    if !fParentOfMatch then
      { t with vHash := t.vHash ++ [calcHash c t.nTransactions.toNat vTxid (height + 1) pos] }
    else
      let t := traverseAndBuild c vTxid vMatch height (pos * 2) t
      if pos * 2 + 1 < calcTreeWidth t.nTransactions.toNat height
      then traverseAndBuild c vTxid vMatch height (pos * 2 + 1) t else t

/-- The constructor from a list of ids and a mask. -/
def build (c : Crypto) (vTxid : List Uint256) (vMatch : List Bool) : CPartialMerkleTree :=
  let nTransactions := UInt32.ofNat vTxid.length
  traverseAndBuild c vTxid vMatch (treeHeight nTransactions.toNat) 0 ⟨nTransactions, [], [], false⟩

/-- What is written: the number of transactions, the hashes and the bytes of the flag bits. -/
def codec : Codec (UInt32 × List Uint256 × List UInt8) :=
  uint32Codec.pair (uint256Codec.list.pair Codec.byteVector)

def serialize (t : CPartialMerkleTree) : List UInt8 := codec.write (t.nTransactions, t.vHash, bitsToBytes t.vBits)

def deserialize (s : List UInt8) : Except String (CPartialMerkleTree × List UInt8) := do
  let (x, rest) ← codec.read s
  return (⟨x.1, bytesToBits x.2.2, x.2.1, false⟩, rest)

/-- The variables of `TraverseAndExtract`. -/
structure Extraction where
  fBad : Bool
  nBitsUsed : Nat
  nHashUsed : Nat
  vMatch : List Uint256

def useHash (t : CPartialMerkleTree) (isMatch : Bool) (s : Extraction) : Uint256 × Extraction :=
  match t.vHash[s.nHashUsed]? with
  | none => (UINT256_ZERO, { s with fBad := true })
  | some hash => (hash, { s with
      nHashUsed := s.nHashUsed + 1
      vMatch := if isMatch then s.vMatch ++ [hash] else s.vMatch })

def traverseAndExtract (c : Crypto) (t : CPartialMerkleTree) : Nat → Nat → Extraction → Uint256 × Extraction
  | 0, _, s =>
    match t.vBits[s.nBitsUsed]? with
    | none => (UINT256_ZERO, { s with fBad := true })
    | some fParentOfMatch => t.useHash fParentOfMatch { s with nBitsUsed := s.nBitsUsed + 1 }
  | height + 1, pos, s =>
    match t.vBits[s.nBitsUsed]? with
    | none => (UINT256_ZERO, { s with fBad := true })
    | some false => t.useHash false { s with nBitsUsed := s.nBitsUsed + 1 }
    | some true =>
      let left := traverseAndExtract c t height (pos * 2) { s with nBitsUsed := s.nBitsUsed + 1 }
      if pos * 2 + 1 < calcTreeWidth t.nTransactions.toNat height then
        let right := traverseAndExtract c t height (pos * 2 + 1) left.2
        (merkleHash c left.1 right.1, right.2)
      else (merkleHash c left.1 left.1, left.2)

/-- `ExtractMatches`: what it returns, and `vMatch`. -/
def extractMatches (c : Crypto) (t : CPartialMerkleTree) : Uint256 × List Uint256 :=
  if t.nTransactions = 0 then (UINT256_ZERO, [])
  else if t.nTransactions.toNat > MAX_BLOCK_SIZE_CURRENT / 60 then (UINT256_ZERO, [])
  else if t.vHash.length > t.nTransactions.toNat then (UINT256_ZERO, [])
  else if t.vBits.length < t.vHash.length then (UINT256_ZERO, [])
  else
    let r := t.traverseAndExtract c (treeHeight t.nTransactions.toNat) 0 ⟨t.fBad, 0, 0, []⟩
    if r.2.fBad then (UINT256_ZERO, r.2.vMatch)
    else if (r.2.nBitsUsed + 7) / 8 ≠ (t.vBits.length + 7) / 8 then (UINT256_ZERO, r.2.vMatch)
    else if r.2.nHashUsed ≠ t.vHash.length then (UINT256_ZERO, r.2.vMatch)
    else (r.1, r.2.vMatch)

end CPartialMerkleTree

/-! ## Widths and heights -/

theorem lt_calcTreeWidth (n height pos : Nat) : pos < calcTreeWidth n height ↔ pos * 2 ^ height < n := by
  have hpos := Nat.two_pow_pos height
  rw [calcTreeWidth, Nat.shiftRight_eq_div_pow, Nat.one_shiftLeft, Nat.lt_iff_add_one_le,
    Nat.le_div_iff_mul_le hpos, Nat.succ_mul]
  omega

theorem treeHeight_go {n fuel h : Nat} (hfuel : n ≤ 2 ^ (h + fuel)) (hlow : h = 0 ∨ 2 ^ (h - 1) < n) :
    n ≤ 2 ^ treeHeight.go n fuel h ∧ (treeHeight.go n fuel h = 0 ∨ 2 ^ (treeHeight.go n fuel h - 1) < n) := by
  induction fuel generalizing h with
  | zero => exact ⟨hfuel, hlow⟩
  | succ fuel ih =>
    have hwidth := lt_calcTreeWidth n h 1
    rw [treeHeight.go]
    split
    · exact ih (by rwa [Nat.add_right_comm, Nat.add_assoc]) (.inr (by simpa using by omega))
    · exact ⟨by omega, hlow⟩

theorem treeHeight_spec (n : Nat) : n ≤ 2 ^ treeHeight n ∧ (treeHeight n = 0 ∨ 2 ^ (treeHeight n - 1) < n) :=
  treeHeight_go (by simpa using n.lt_two_pow_self.le) (.inl rfl)

theorem calcHash_eq (c : Crypto) (n : Nat) (vTxid : List Uint256) (height pos : Nat) :
    calcHash c n vTxid height pos = node (merkleHash c) (leafOf UINT256_ZERO vTxid) n height pos := by
  induction height generalizing pos with
  | zero => rfl
  | succ height ih =>
    simp only [calcHash, lt_calcTreeWidth, ih, node, Nat.mul_comm pos 2]
    split <;> rfl

theorem computeMerkleRoot_eq_node (c : Crypto) {txids : List Uint256} (hne : txids ≠ [])
    (hlen : txids.length < 2 ^ 32) : (computeMerkleRoot c txids).1 =
      node (merkleHash c) (leafOf UINT256_ZERO txids) txids.length (treeHeight txids.length) 0 := by
  obtain ⟨k, hk, hlow, hroot, -⟩ := merkleComputation_eq c hne hlen 0xffffffff
  obtain ⟨hh, hhlow⟩ := treeHeight_spec txids.length
  have hsame : k = treeHeight txids.length := by
    generalize treeHeight txids.length = h at *
    by_contra hdiff
    rcases Nat.lt_or_gt_of_ne hdiff with hlt | hgt
    · have := Nat.pow_le_pow_right (n := 2) (by decide) (show k ≤ h - 1 by omega)
      omega
    · have := Nat.pow_le_pow_right (n := 2) (by decide) (show h ≤ k - 1 by omega)
      omega
  rw [computeMerkleRoot, hroot, hsame]

/-! ## What is traversed -/

theorem prefix_drop_append {α : Type} {a b L : List α} {i : Nat} (h : a ++ b <+: L.drop i) :
    a <+: L.drop i ∧ b <+: L.drop (i + a.length) := by
  obtain ⟨r, hr⟩ := h
  refine ⟨⟨b ++ r, by rw [← hr, List.append_assoc]⟩, r, ?_⟩
  rw [← List.drop_drop, ← hr, List.append_assoc, List.drop_left]

theorem getElem?_of_prefix_drop {α : Type} {a : α} {l L : List α} {i : Nat} (h : a :: l <+: L.drop i) :
    L[i]? = some a := by
  obtain ⟨r, hr⟩ := h
  have hhead : (L.drop i)[0]? = some a := by rw [← hr]; rfl
  simpa using hhead

namespace CPartialMerkleTree

variable {c : Crypto} {t : CPartialMerkleTree} {height pos : Nat} {v : Uint256} {fs : List Bool}
  {xs as : List Uint256} {s : Extraction}

/-- The state after `bits` flags and `hashes` hashes, with the matches `as`. -/
def Extraction.advance (s : Extraction) (bits hashes : Nat) (as : List Uint256) : Extraction :=
  ⟨s.fBad, s.nBitsUsed + bits, s.nHashUsed + hashes, s.vMatch ++ as⟩

theorem useHash_of_prefix {x : Uint256} (h : x :: xs <+: t.vHash.drop s.nHashUsed) (isMatch : Bool) :
    t.useHash isMatch s = (x, s.advance 0 1 (if isMatch then [x] else [])) := by
  rw [useHash, getElem?_of_prefix_drop h]
  cases isMatch <;> simp [Extraction.advance]

/-- **Shown nodes are read.** -/
theorem traverseAndExtract_of_shows (h : Shows (merkleHash c) t.nTransactions.toNat height pos v fs xs as)
    (hbits : fs <+: t.vBits.drop s.nBitsUsed) (hhashes : xs <+: t.vHash.drop s.nHashUsed) :
    t.traverseAndExtract c height pos s = (v, s.advance fs.length xs.length as) := by
  induction h generalizing s with
  | leaf pos flag x =>
    rw [traverseAndExtract, getElem?_of_prefix_drop hbits]
    exact useHash_of_prefix (s := { s with nBitsUsed := s.nBitsUsed + 1 }) hhashes flag
  | pruned height pos x =>
    rw [traverseAndExtract, getElem?_of_prefix_drop hbits]
    exact useHash_of_prefix (s := { s with nBitsUsed := s.nBitsUsed + 1 }) hhashes false
  | @fork height pos v w fs gs xs ys as bs left inside right ihl ihr =>
    obtain ⟨-, hrest⟩ := prefix_drop_append (a := [true]) hbits
    obtain ⟨hfs, hgs⟩ := prefix_drop_append hrest
    obtain ⟨hxs, hys⟩ := prefix_drop_append hhashes
    rw [traverseAndExtract, getElem?_of_prefix_drop hbits]
    have hleft := ihl (s := { s with nBitsUsed := s.nBitsUsed + 1 }) hfs hxs
    have hright := ihr (s := Extraction.advance { s with nBitsUsed := s.nBitsUsed + 1 } fs.length xs.length as) hgs hys
    simp only [Nat.mul_comm pos 2, lt_calcTreeWidth, if_pos inside, hleft, hright]
    simp [Extraction.advance, Nat.add_assoc, Nat.add_comm 1]
  | @last height pos v fs xs as left outside ih =>
    obtain ⟨-, hfs⟩ := prefix_drop_append (a := [true]) hbits
    rw [traverseAndExtract, getElem?_of_prefix_drop hbits]
    have hleft := ih (s := { s with nBitsUsed := s.nBitsUsed + 1 }) hfs hhashes
    simp only [Nat.mul_comm pos 2, lt_calcTreeWidth, if_neg (Nat.not_lt.mpr outside), hleft]
    simp [Extraction.advance, Nat.add_assoc, Nat.add_comm 1]

theorem useHash_shows {isMatch : Bool} (h : (t.useHash isMatch s).2.fBad = false) :
    s.fBad = false ∧ ∃ x, t.useHash isMatch s = (x, s.advance 0 1 (if isMatch then [x] else [])) := by
  unfold useHash at h ⊢
  split at h
  · cases h
  · rename_i x hx
    refine ⟨h, x, ?_⟩
    cases isMatch <;> simp [Extraction.advance]

/-- **What is read without a failure is shown.** -/
theorem traverseAndExtract_shows (h : (t.traverseAndExtract c height pos s).2.fBad = false) :
    s.fBad = false ∧ ∃ fs xs as, (t.traverseAndExtract c height pos s).2.vMatch = s.vMatch ++ as ∧
      Shows (merkleHash c) t.nTransactions.toNat height pos (t.traverseAndExtract c height pos s).1 fs xs as := by
  induction height generalizing pos s with
  | zero =>
    unfold traverseAndExtract at h ⊢
    split at h
    · cases h
    · rename_i flag hflag
      obtain ⟨hbad, x, hx⟩ := useHash_shows h
      rw [hx]
      exact ⟨hbad, _, _, _, rfl, .leaf pos flag x⟩
  | succ height ih =>
    unfold traverseAndExtract at h ⊢
    split at h
    · cases h
    · obtain ⟨hbad, x, hx⟩ := useHash_shows h
      rw [hx]
      exact ⟨hbad, _, _, _, rfl, .pruned height pos x⟩
    · simp only [lt_calcTreeWidth, Nat.mul_comm pos 2] at h ⊢
      split at h
      · rename_i hin
        obtain ⟨hleft, gs, ys, bs, hbs, hright⟩ := ih h
        obtain ⟨hbad, fs, xs, as, has, hshows⟩ := ih hleft
        rw [if_pos hin]
        exact ⟨hbad, _, _, as ++ bs, by rw [hbs, has, List.append_assoc], hshows.fork hin hright⟩
      · rename_i hout
        obtain ⟨hbad, fs, xs, as, has, hshows⟩ := ih h
        rw [if_neg hout]
        exact ⟨hbad, _, _, as, has, hshows.last (Nat.not_lt.mp hout)⟩

end CPartialMerkleTree

/-! ## What is built -/

def isMatched (n : Nat) (vMatch : List Bool) (i : Nat) : Bool := decide (i < n) && vMatch.getD i false

theorem parentOfMatch_eq_false {n : Nat} {vMatch : List Bool} {height pos : Nat} (f : Nat → Uint256) :
    parentOfMatch n vMatch height pos = false ↔ leavesBelow f (isMatched n vMatch) height pos = [] := by
  rw [parentOfMatch, leavesBelow, List.map_eq_nil_iff, List.filter_eq_nil_iff, List.any_eq_false,
    Nat.shiftLeft_eq, Nat.one_shiftLeft]
  rfl

section Build

variable (c : Crypto) (vTxid : List Uint256) (vMatch : List Bool) (n : Nat)

def matchedBelow (height pos : Nat) : List Uint256 :=
  leavesBelow (leafOf UINT256_ZERO vTxid) (isMatched n vMatch) height pos

/-- **What is built shows the node**, with at most one hash and one for each level of each match. -/
theorem traverseAndBuild_shows (height pos : Nat) (t : CPartialMerkleTree) (hn : t.nTransactions.toNat = n) : ∃ fs xs,
      Shows (merkleHash c) n height pos (node (merkleHash c) (leafOf UINT256_ZERO vTxid) n height pos) fs xs
        (matchedBelow vTxid vMatch n height pos) ∧
      t.traverseAndBuild c vTxid vMatch height pos = { t with vBits := t.vBits ++ fs, vHash := t.vHash ++ xs } ∧
      xs.length ≤ 1 + (matchedBelow vTxid vMatch n height pos).length * height := by
  induction height generalizing pos t with
  | zero =>
    have hflag : parentOfMatch n vMatch 0 pos = isMatched n vMatch pos := by simp [parentOfMatch, isMatched]
    have hshows := @Shows.leaf _ (merkleHash c) n pos (isMatched n vMatch pos) (leafOf UINT256_ZERO vTxid pos)
    rw [matchedBelow, leavesBelow_zero]
    exact ⟨_, _, hshows, by rw [CPartialMerkleTree.traverseAndBuild, hn, hflag]; rfl, by simp⟩
  | succ height ih =>
    have hsplit : matchedBelow vTxid vMatch n (height + 1) pos =
        matchedBelow vTxid vMatch n height (2 * pos) ++ matchedBelow vTxid vMatch n height (2 * pos + 1) :=
      leavesBelow_succ
    cases hflag : parentOfMatch n vMatch (height + 1) pos with
    | false =>
      have hnil := (parentOfMatch_eq_false (leafOf UINT256_ZERO vTxid)).mp hflag
      rw [matchedBelow, hnil]
      refine ⟨_, _, .pruned height pos _, ?_, by simp⟩
      simp [CPartialMerkleTree.traverseAndBuild, hn, hflag, calcHash_eq]
    | true =>
      have hsome : 0 < (matchedBelow vTxid vMatch n (height + 1) pos).length := by
        rw [List.length_pos_iff]
        intro hnil
        rw [(parentOfMatch_eq_false (leafOf UINT256_ZERO vTxid)).mpr hnil] at hflag
        cases hflag
      obtain ⟨fs, xs, hleft, hbuilt, hcount⟩ := ih (2 * pos) { t with vBits := t.vBits ++ [true] } hn
      by_cases hin : (2 * pos + 1) * 2 ^ height < n
      · obtain ⟨gs, ys, hright, hbuilt', hcount'⟩ := ih (2 * pos + 1)
          { t with vBits := t.vBits ++ [true] ++ fs, vHash := t.vHash ++ xs } hn
        rw [node_succ_pair _ _ hin, hsplit] at *
        refine ⟨_, _, hleft.fork hin hright, ?_, ?_⟩
        · simp only [CPartialMerkleTree.traverseAndBuild, hn, hflag, Bool.not_true, Bool.false_eq_true, if_false,
            Nat.mul_comm pos 2, hbuilt, lt_calcTreeWidth, if_pos hin, hbuilt']
          simp
        · rw [List.length_append] at hsome ⊢
          rw [List.length_append, Nat.mul_succ, Nat.add_mul]
          omega
      · have hnil : matchedBelow vTxid vMatch n height (2 * pos + 1) = [] := leavesBelow_eq_nil fun i hi => by
          simp only [isMatched, Bool.and_eq_false_iff, decide_eq_false_iff_not]
          omega
        rw [node_succ_last _ _ (Nat.not_lt.mp hin), hsplit, hnil, List.append_nil] at *
        refine ⟨_, _, hleft.last (Nat.not_lt.mp hin), ?_, ?_⟩
        · simp [CPartialMerkleTree.traverseAndBuild, hn, hflag, Nat.mul_comm pos 2, lt_calcTreeWidth, hin, hbuilt]
        · rw [Nat.mul_succ]
          omega

end Build

/-! ## Extraction -/

theorem treeHeight_le {n : Nat} (h : n ≤ MAX_BLOCK_SIZE_CURRENT / 60) : treeHeight n ≤ 16 := by
  rcases (treeHeight_spec n).2 with hzero | hlow
  · omega
  · by_contra hbig
    have hpow := Nat.pow_le_pow_right (n := 2) (by decide) (show 16 ≤ treeHeight n - 1 by omega)
    simp only [MAX_BLOCK_SIZE_CURRENT] at h
    omega

namespace CPartialMerkleTree

variable {c : Crypto} {n : UInt32} {v : Uint256} {fs : List Bool} {xs as : List Uint256}

theorem extractMatches_of_shows (hn : n ≠ 0) (hmax : n.toNat ≤ MAX_BLOCK_SIZE_CURRENT / 60)
    (h : Shows (merkleHash c) n.toNat (treeHeight n.toNat) 0 v fs xs as) (rest : List Bool) :
    extractMatches c ⟨n, fs ++ rest, xs, false⟩ =
      if (fs.length + 7) / 8 = ((fs ++ rest).length + 7) / 8 then (v, as) else (UINT256_ZERO, as) := by
  have hpos : 0 < n.toNat := Nat.pos_of_ne_zero fun h0 => hn (UInt32.toNat_inj.mp h0)
  have hhashes := (h.hashes_le (by simpa using hpos)).1
  have hflags := h.length_le
  have hrun := traverseAndExtract_of_shows (t := ⟨n, fs ++ rest, xs, false⟩) (s := ⟨false, 0, 0, []⟩) h
    (by simp) (by simp)
  rw [extractMatches, if_neg hn, if_neg (by dsimp only; omega), if_neg (by dsimp only; omega),
    if_neg (by simp only [List.length_append]; omega)]
  simp only [hrun, Extraction.advance, Nat.zero_add, List.nil_append, Bool.false_eq_true, if_false, ne_eq,
    not_true_eq_false, ite_not]

theorem shows_size (hmax : n.toNat ≤ MAX_BLOCK_SIZE_CURRENT / 60)
    (h : Shows (merkleHash c) n.toNat (treeHeight n.toNat) 0 v fs xs as) :
    fs.length + 8 ≤ Codec.MAX_SIZE ∧ xs.length ≤ Codec.MAX_SIZE := by
  have hflags := h.flags_lt
  have hpow := Nat.pow_le_pow_right (n := 2) (by decide) (Nat.succ_le_succ (treeHeight_le hmax))
  have := h.length_le
  unfold Codec.MAX_SIZE
  omega

/-- A partial tree that was read from bytes. -/
def Received (t : CPartialMerkleTree) : Prop := ∃ s rest, deserialize s = .ok (t, rest)

theorem deserialize_serialize (n : UInt32) {bits : List Bool} {xs : List Uint256} (hbits : bits.length ≤ Codec.MAX_SIZE)
    (hhashes : xs.length ≤ Codec.MAX_SIZE) (fBad : Bool) : ∃ pad,
      deserialize (serialize ⟨n, bits, xs, fBad⟩) = .ok (⟨n, bits ++ pad, xs, false⟩, []) ∧
        (bits ++ pad).length = 8 * ((bits.length + 7) / 8) := by
  obtain ⟨pad, hpad, hlen⟩ := bytesToBits_bitsToBytes bits
  have hvalid : codec.Valid (n, xs, bitsToBytes bits) := by
    refine ⟨uint32Codec_valid n, ⟨hhashes, fun x _ => uint256Codec_valid x⟩, Codec.byteVector_valid ?_⟩
    simp only [bitsToBytes, List.length_map, List.length_range]
    omega
  have hread := codec.read_write _ [] hvalid
  rw [List.append_nil] at hread
  refine ⟨pad, ?_, hlen⟩
  rw [deserialize, serialize, hread, ← hpad]
  rfl

theorem exists_received (hn : n ≠ 0) (hmax : n.toNat ≤ MAX_BLOCK_SIZE_CURRENT / 60)
    (h : Shows (merkleHash c) n.toNat (treeHeight n.toNat) 0 v fs xs as) (more : List Bool) (hmore : more.length ≤ 8) :
    ∃ t : CPartialMerkleTree, t.Received ∧ t.nTransactions = n ∧ t.extractMatches c =
      if (fs.length + 7) / 8 = ((fs ++ more).length + 7) / 8 then (v, as) else (UINT256_ZERO, as) := by
  have hsize := shows_size hmax h
  have hlen : (fs ++ more).length ≤ Codec.MAX_SIZE := by
    rw [List.length_append]
    omega
  obtain ⟨pad, hread, hpad⟩ := deserialize_serialize n hlen hsize.2 false
  refine ⟨_, ⟨_, _, hread⟩, rfl, ?_⟩
  rw [List.append_assoc] at hpad ⊢
  rw [extractMatches_of_shows hn hmax h, hpad]
  congr 2
  omega

end CPartialMerkleTree

/-! ## Round trip -/

theorem matchedBelow_root {vTxid : List Uint256} {vMatch : List Bool} (hlen : vMatch.length = vTxid.length) :
    matchedBelow vTxid vMatch vTxid.length (treeHeight vTxid.length) 0 =
      ((vTxid.zip vMatch).filter Prod.snd).map Prod.fst := by
  have hzip : vTxid.zip vMatch =
      (List.range vTxid.length).map fun i => (leafOf UINT256_ZERO vTxid i, isMatched vTxid.length vMatch i) := by
    refine List.ext_getElem (by simp [hlen]) fun i hi _ => ?_
    simp only [List.length_zip, hlen, Nat.min_self] at hi
    simp [leafOf, isMatched, hi, hlen]
  rw [matchedBelow, leavesBelow_root (treeHeight_spec _).1 (fun i hi => by simp [isMatched] at hi; exact hi.1), hzip,
    List.filter_map, List.map_map]
  rfl

/-- **Partial Merkle trees round-trip.** -/
theorem partialMerkleTree_roundTrip (c : Crypto) {vTxid : List Uint256} {vMatch : List Bool} (hne : vTxid ≠ [])
    (hmax : vTxid.length ≤ MAX_BLOCK_SIZE_CURRENT / 60) (hlen : vMatch.length = vTxid.length) :
    ∃ t mutated, CPartialMerkleTree.deserialize (CPartialMerkleTree.build c vTxid vMatch).serialize = .ok (t, []) ∧
      computeMerkleRoot32 c vTxid = some ((t.extractMatches c).1, mutated) ∧
      (t.extractMatches c).2 = ((vTxid.zip vMatch).filter Prod.snd).map Prod.fst ∧
      (CPartialMerkleTree.build c vTxid vMatch).vHash.length ≤
        1 + (t.extractMatches c).2.length * treeHeight vTxid.length := by
  have hsmall : vTxid.length < 2 ^ 31 := by
    simp only [MAX_BLOCK_SIZE_CURRENT] at hmax
    omega
  have hcount : (UInt32.ofNat vTxid.length).toNat = vTxid.length := by
    rw [UInt32.toNat_ofNat']
    omega
  have hn : UInt32.ofNat vTxid.length ≠ 0 := fun h0 => hne (List.length_eq_zero_iff.mp (by rw [← hcount, h0]; rfl))
  obtain ⟨fs, xs, hshows, hbuilt, hbound⟩ := traverseAndBuild_shows c vTxid vMatch _ (treeHeight vTxid.length)
    0 ⟨UInt32.ofNat vTxid.length, [], [], false⟩ hcount
  have hbuild : CPartialMerkleTree.build c vTxid vMatch = ⟨UInt32.ofNat vTxid.length, fs, xs, false⟩ := by
    simp only [CPartialMerkleTree.build, hcount]
    exact hbuilt
  rw [matchedBelow_root hlen] at hshows hbound
  rw [← hcount] at hshows hmax
  obtain ⟨hbits, hhashes⟩ := CPartialMerkleTree.shows_size hmax hshows
  obtain ⟨pad, hread, hpad⟩ := CPartialMerkleTree.deserialize_serialize (UInt32.ofNat vTxid.length)
    (Nat.le_of_add_right_le hbits) hhashes false
  have hextract := CPartialMerkleTree.extractMatches_of_shows hn hmax hshows pad
  rw [if_pos (by omega), hcount, ← computeMerkleRoot_eq_node c hne (by omega)] at hextract
  refine ⟨_, (computeMerkleRoot c vTxid).2, by rw [hbuild]; exact hread, ?_, ?_, ?_⟩
  · rw [hextract, computeMerkleRoot32, merkleComputation32_of_le c hsmall.le]
    rfl
  · rw [hextract]
  · rw [hextract, hbuild]
    exact hbound

theorem threeTxids_roundTrip : ∃ t mutated,
    CPartialMerkleTree.deserialize (CPartialMerkleTree.build zeroCrypto [1, 2, 3] [false, true, true]).serialize
      = .ok (t, []) ∧
    computeMerkleRoot32 zeroCrypto [1, 2, 3] = some ((t.extractMatches zeroCrypto).1, mutated) ∧
    (t.extractMatches zeroCrypto).2 = [2, 3] ∧
    (CPartialMerkleTree.build zeroCrypto [1, 2, 3] [false, true, true]).vHash.length ≤
      1 + (t.extractMatches zeroCrypto).2.length * treeHeight 3 :=
  @partialMerkleTree_roundTrip zeroCrypto [1, 2, 3] [false, true, true] (by simp) (by decide) rfl

/-! ## Authenticity -/

theorem leavesBelow_txids (txids : List Uint256) :
    leavesBelow (leafOf UINT256_ZERO txids) (fun i => decide (i < txids.length)) (treeHeight txids.length) 0 = txids := by
  rw [leavesBelow_root (treeHeight_spec _).1 (by simp), List.filter_eq_self.mpr (by simp)]
  refine List.ext_getElem (by simp) fun i hi hi' => ?_
  simp [leafOf, hi']

theorem leafOf_inj {txids : List Uint256} (hnodup : txids.Nodup) :
    ∀ i < txids.length, ∀ j < txids.length, leafOf UINT256_ZERO txids i = leafOf UINT256_ZERO txids j → i = j := by
  intro i hi j hj h
  simp only [leafOf, List.getD_eq_getElem?_getD, List.getElem?_eq_getElem hi, List.getElem?_eq_getElem hj,
    Option.getD_some] at h
  exact (hnodup.getElem_inj_iff).mp h

theorem exists_notMem (txids : List Uint256) (h : txids.length < 2 ^ 256) : ∃ x, x ∉ txids := by
  by_contra hall
  rw [not_exists] at hall
  have hnodup : ((List.range (txids.length + 1)).map (BitVec.ofNat 256)).Nodup := by
    refine List.Nodup.map_on (fun i hi j hj hij => ?_) List.nodup_range
    have hnat := congrArg BitVec.toNat hij
    rw [List.mem_range] at hi hj
    rwa [BitVec.toNat_ofNat, BitVec.toNat_ofNat, Nat.mod_eq_of_lt (by omega), Nat.mod_eq_of_lt (by omega)] at hnat
  have hle := (List.subperm_of_subset hnodup fun x _ => not_not.mp (hall x)).length_le
  rw [List.length_map, List.length_range] at hle
  omega

theorem extractMatches_shows (c : Crypto) (t : CPartialMerkleTree) : (t.extractMatches c).1 = UINT256_ZERO ∨
    ∃ fs xs, Shows (merkleHash c) t.nTransactions.toNat (treeHeight t.nTransactions.toNat) 0
      (t.extractMatches c).1 fs xs (t.extractMatches c).2 := by
  unfold CPartialMerkleTree.extractMatches
  iterate 4
    split
    · exact .inl rfl
  dsimp only
  split
  · exact .inl rfl
  · rename_i hbad
    obtain ⟨-, fs, xs, as, has, hshows⟩ := CPartialMerkleTree.traverseAndExtract_shows (eq_false_of_ne_true hbad)
    iterate 2
      split
      · exact .inl rfl
    exact .inr ⟨fs, xs, by rwa [has]⟩

/-- **Partial Merkle trees are authentic exactly when their number of transactions repeats no node.** -/
theorem partialMerkleTree_authentic_iff (c : Crypto) {txids : List Uint256} (hnodup : txids.Nodup)
    (hunique : UniquePreimages (merkleHash c) (leafOf UINT256_ZERO txids) txids.length) {n : UInt32}
    (hheight : treeHeight n.toNat = treeHeight txids.length) :
    (∀ t : CPartialMerkleTree, t.Received → t.nTransactions = n →
      (t.extractMatches c).1 = (computeMerkleRoot c txids).1 →
        (t.extractMatches c).2.Nodup ∧ (t.extractMatches c).2.Sublist txids) ↔
      n = 0 ∨ n.toNat > MAX_BLOCK_SIZE_CURRENT / 60 ∨
        ((computeMerkleRoot c txids).1 ≠ UINT256_ZERO ∧ ¬ Repeats txids.length n.toNat) := by
  rcases eq_or_ne n 0 with hn | hn
  · refine iff_of_true (fun t _ ht _ => ?_) (.inl hn)
    rw [CPartialMerkleTree.extractMatches, if_pos (ht.trans hn)]
    exact ⟨List.nodup_nil, List.nil_sublist _⟩
  rcases Nat.lt_or_ge (MAX_BLOCK_SIZE_CURRENT / 60) n.toNat with hbig | hmax
  · refine iff_of_true (fun t _ ht _ => ?_) (.inr (.inl hbig))
    rw [CPartialMerkleTree.extractMatches, ht, if_neg hn, if_pos hbig]
    exact ⟨List.nodup_nil, List.nil_sublist _⟩
  have hspec := treeHeight_spec txids.length
  have hsmall : txids.length ≤ 2 ^ 16 := hspec.1.trans (by
    rw [← hheight]
    exact Nat.pow_le_pow_right (by decide) (treeHeight_le hmax))
  rw [or_iff_right hn, or_iff_right (by omega)]
  constructor
  · intro hall
    constructor
    · -- flags that are not used make `ExtractMatches` fail with a match
      intro hzero
      obtain ⟨x, hx⟩ := exists_notMem txids (by omega)
      obtain ⟨fs, xs, hshows⟩ := exists_shows_first (merkleHash c) (fun _ => x) (n := n.toNat) (m := n.toNat)
        (l := treeHeight n.toNat) (i := 0) (q := 0) fun _ _ h => h
      obtain ⟨t, hreceived, ht, hextract⟩ := CPartialMerkleTree.exists_received hn hmax hshows
        (List.replicate 8 false) (by simp)
      rw [if_neg (by simp; omega)] at hextract
      have hsub := (hall t hreceived ht (by rw [hextract, hzero])).2
      rw [hextract] at hsub
      exact hx (hsub.subset List.mem_cons_self)
    · intro hrepeats
      obtain ⟨fs, xs, i, hi, hshows⟩ := hrepeats.exists_shows (merkleHash c) (leafOf UINT256_ZERO txids)
        (treeHeight_spec n.toNat).1
      obtain ⟨t, hreceived, ht, hextract⟩ := CPartialMerkleTree.exists_received hn hmax hshows [] (by simp)
      rw [List.append_nil, if_pos rfl, hheight, ← computeMerkleRoot_eq_node c (List.ne_nil_of_length_pos (by omega))
        (by omega)] at hextract
      have hdup := (hall t hreceived ht (by rw [hextract])).1
      rw [hextract] at hdup
      simp at hdup
  · rintro ⟨hne, hrep⟩ t - rfl hroot
    obtain hzero | ⟨fs, xs, hshows⟩ := extractMatches_shows c t
    · exact absurd (hroot.symm.trans hzero) hne
    · have htxids : txids ≠ [] := by
        rintro rfl
        exact hne rfl
      have hsub := hshows.sublist_below hunique (leafOf_inj hnodup) hrep
        (by rw [hroot, hheight, computeMerkleRoot_eq_node c htxids (by omega)])
        (by simpa using List.length_pos_iff.mpr htxids) (by rw [hheight]; exact hspec.2)
      rw [hheight, leavesBelow_txids] at hsub
      exact ⟨hsub.nodup hnodup, hsub⟩

/-- A pair hash with unique preimages in the tree over 1, 2 and 3. -/
def threeHash (a b : Uint256) : Uint256 :=
  if a = 1 ∧ b = 2 then 10 else if a = 3 ∧ b = 3 then 11 else if a = 10 ∧ b = 11 then 12 else 0

theorem threeHash_unique : UniquePreimages (merkleHash (pairCrypto threeHash)) (leafOf UINT256_ZERO [1, 2, 3]) 3 := by
  have hinj : ∀ a b p q, threeHash a b = threeHash p q → threeHash p q ≠ 0 → a = p ∧ b = q := by
    unfold threeHash
    grind
  rw [merkleHash_pairCrypto]
  rintro _ ⟨l, j, hl, hj, rfl⟩ a b h
  refine hinj a b _ _ h ?_
  obtain ⟨rfl, rfl⟩ | ⟨rfl, rfl⟩ | ⟨rfl, rfl⟩ : (l = 0 ∧ j = 0) ∨ (l = 0 ∧ j = 1) ∨ (l = 1 ∧ j = 0) := by
    have hl2 : l < 2 := (Nat.pow_lt_pow_iff_right (a := 2) (by decide)).mp (by omega)
    interval_cases l <;> omega
  all_goals decide

theorem threeHash_root : (computeMerkleRoot (pairCrypto threeHash) [1, 2, 3]).1 = 12 := by
  decide

theorem threeTxids_authentic : UniquePreimages (merkleHash (pairCrypto threeHash)) (leafOf UINT256_ZERO [1, 2, 3]) 3 ∧
      ∀ t : CPartialMerkleTree, t.Received → t.nTransactions = 3 →
        (t.extractMatches (pairCrypto threeHash)).1 = (computeMerkleRoot (pairCrypto threeHash) [1, 2, 3]).1 →
          (t.extractMatches (pairCrypto threeHash)).2.Nodup ∧
            (t.extractMatches (pairCrypto threeHash)).2.Sublist [1, 2, 3] := by
  refine ⟨threeHash_unique, (partialMerkleTree_authentic_iff _ (by decide) threeHash_unique (by decide)).mpr
    (.inr (.inr ⟨by rw [threeHash_root]; decide, ?_⟩))⟩
  rintro ⟨l, j, -, hout, hin, -⟩
  exact absurd hout (Nat.not_le.mpr hin)

/-- A claim of four transactions, the last of them shown twice. -/
def repeatedTree : CPartialMerkleTree := ⟨4, [true, false, true, true, true, false, false, false], [10, 3, 3], false⟩

theorem repeatedTree_notAuthentic : [1, 2, (3 : Uint256)].Nodup ∧
      UniquePreimages (merkleHash (pairCrypto threeHash)) (leafOf UINT256_ZERO [1, 2, 3]) 3 ∧
      treeHeight repeatedTree.nTransactions.toNat = treeHeight 3 ∧ repeatedTree.Received ∧
      repeatedTree.extractMatches (pairCrypto threeHash) =
        ((computeMerkleRoot (pairCrypto threeHash) [1, 2, 3]).1, [3, 3]) := by
  refine ⟨by decide, threeHash_unique, by decide, ?_, ?_⟩
  · obtain ⟨pad, hread, hlen⟩ := @CPartialMerkleTree.deserialize_serialize 4 repeatedTree.vBits
      repeatedTree.vHash (by decide) (by decide) false
    obtain rfl : pad = [] := by
      have h8 : repeatedTree.vBits.length = 8 := rfl
      rw [List.length_append, h8] at hlen
      exact List.length_eq_zero_iff.mp (by omega)
    exact ⟨_, _, hread⟩
  · have hshows : Shows (merkleHash (pairCrypto threeHash)) 4 2 0 _ _ _ _ :=
      (Shows.pruned 0 0 10).fork (by decide) ((Shows.leaf 2 true 3).fork (by decide) (Shows.leaf 3 true 3))
    have hextract := CPartialMerkleTree.extractMatches_of_shows (n := 4) (by decide) (by decide) hshows
      [false, false, false]
    exact hextract

end KrovaCoin
