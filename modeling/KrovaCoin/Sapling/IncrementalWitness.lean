import KrovaCoin.Sapling.IncrementalMerkleTree
import KrovaCoin.Serialize

/-!
# Witnesses of the note commitment tree (`sapling/incrementalmerkletree.h`, `sapling/incrementalmerkletree.cpp`)

* `nextDepth`, `path`, `wfcheck` — what a witness uses of the tree.

Principal results: `WitnessOf.append`, `WitnessOf.reload`, `witness_run`.
-/

namespace KrovaCoin

open Lib

/-- `MerklePath`; the hashes are kept as such and not as vectors of bits. -/
structure MerklePath (H : Type) where
  /-- The siblings, the one below the root first. -/
  authentication_path : List H
  /-- The sides, likewise. -/
  index : List Bool
  deriving DecidableEq, Repr

namespace IncrementalMerkleTree

variable {H : Type} (h : MerkleHash H)

/-! ## What a witness uses of the tree -/

def last (t : IncrementalMerkleTree H) : Except String H :=
  match t.right, t.left with
  | some right, _ => .ok right
  | none, some left => .ok left
  | none, none => .error "tree has no cursor"

def wfcheck (depth : Nat) (t : IncrementalMerkleTree H) : Except String Unit := do
  rejectIf (decide (t.parents.length ≥ depth)) "tree has too many parents"
  rejectIf (t.parents.getLast? matches some none) "tree has non-canonical representation of parent"
  rejectIf (t.left.isNone && t.right.isSome) "tree has non-canonical representation; right should not exist"
  rejectIf (t.left.isNone && decide (t.parents.length > 0))
    "tree has non-canonical representation; parents should not be unempty"

/-- `if (!leaf) { if (skip) skip--; else return 0; }`: the new `skip`, `none` for the return. -/
def skipLeaf (leaf : Option H) (skip : Nat) : Option Nat :=
  match leaf, skip with
  | some _, skip => some skip
  | none, 0 => none
  | none, skip + 1 => some skip

/-- The loop of `next_depth` over the parents. -/
def nextDepthLoop : List (Option H) → Nat → Nat → Nat
  | [], d, skip => d + skip
  | some _ :: parents, d, skip => nextDepthLoop parents (d + 1) skip
  | none :: _, d, 0 => d
  | none :: parents, d, skip + 1 => nextDepthLoop parents (d + 1) skip

def nextDepth (t : IncrementalMerkleTree H) (skip : Nat) : Nat :=
  match skipLeaf t.left skip with
  | none => 0
  | some skip =>
    match skipLeaf t.right skip with
    | none => 0
    | some skip => nextDepthLoop t.parents 1 skip

/-- The loop of `path` over the parents: the elements pushed, the depth reached and the filler. -/
def pathParents : List (Option H) → Nat → List H → List (Bool × H) × Nat × List H
  | [], d, queue => ([], d, queue)
  | some p :: parents, d, queue =>
    let r := pathParents parents (d + 1) queue
    ((true, p) :: r.1, r.2)
  | none :: parents, d, queue =>
    let r := pathParents parents (d + 1) (fillerNext h queue d).2
    ((false, (fillerNext h queue d).1) :: r.1, r.2)

/-- `while (d < Depth)` in `path`, for `n = Depth - d` iterations. -/
def pathFill : Nat → Nat → List H → List (Bool × H)
  | 0, _, _ => []
  | n + 1, d, queue => (false, (fillerNext h queue d).1) :: pathFill n (d + 1) (fillerNext h queue d).2

def path (depth : Nat) (t : IncrementalMerkleTree H) (filler_hashes : List H) : Except String (MerklePath H) :=
  match t.left with
  | none => .error "can't create an authentication path for the beginning of the tree"
  | some left =>
    let first : (Bool × H) × List H :=
      match t.right with
      | some _ => ((true, left), filler_hashes)
      | none => ((false, (fillerNext h filler_hashes 0).1), (fillerNext h filler_hashes 0).2)
    let r := pathParents h t.parents 1 first.2
    let all := first.1 :: (r.1 ++ pathFill h (depth - r.2.1) r.2.1 r.2.2)
    .ok ⟨(all.map Prod.snd).reverse, (all.map Prod.fst).reverse⟩

/-! ## The tree as a spine -/

/-- The left siblings above the last leaf, from the leaves up. -/
def spine (t : IncrementalMerkleTree H) : List (Option H) :=
  match t.right with
  | some _ => t.left :: t.parents
  | none => none :: t.parents

theorem pathFill_eq_spinePath : ∀ (k d : Nat) (queue : List H), pathFill h k d queue = h.spinePath k d [] queue
  | 0, _, _ => rfl
  | k + 1, d, queue => by
    rw [pathFill, fillerNext_eq, pathFill_eq_spinePath k]
    rfl

theorem pathParents_eq_spinePath : ∀ {ps : List (Option H)} {k d : Nat} (queue : List H), ps.length ≤ k →
    (pathParents h ps d queue).1 ++ pathFill h (k + d - (pathParents h ps d queue).2.1)
      (pathParents h ps d queue).2.1 (pathParents h ps d queue).2.2 = h.spinePath k d ps queue
  | [], k, d, queue, _ => by
    simp only [pathParents, Nat.add_sub_cancel, List.nil_append]
    exact pathFill_eq_spinePath h k d queue
  | some p :: ps, k + 1, d, queue, hlen => by
    rw [Nat.add_assoc, Nat.add_comm 1 d]
    have := @pathParents_eq_spinePath ps k (d + 1) queue (by simpa using hlen)
    simp only [pathParents, List.cons_append, MerkleHash.spinePath, this]
  | none :: ps, k + 1, d, queue, hlen => by
    rw [Nat.add_assoc, Nat.add_comm 1 d]
    have := @pathParents_eq_spinePath ps k (d + 1) queue.tail (by simpa using hlen)
    simp only [pathParents, fillerNext_eq, List.cons_append, MerkleHash.spinePath, this]

section Spine

variable {h} {t : IncrementalMerkleTree H} {r : H} {depth : Nat}

theorem rootAt_eq_spineRoot (hlast : t.last = .ok r) (hleft : t.left.isSome = true) (hlen : t.parents.length < depth)
    (queue : List H) : rootAt h t depth queue = h.spineRoot depth 0 t.spine r queue := by
  obtain ⟨k, rfl⟩ : ∃ k, depth = k + 1 := ⟨depth - 1, by omega⟩
  obtain ⟨_ | left, _ | right, ps⟩ := t
  · cases hleft
  · cases hleft
  · cases hlast
    simp only [rootAt, leafOr, fillerNext_eq]
    exact rootParents_eq_spineRoot h _ _ (Nat.le_of_lt_succ hlen)
  · cases hlast
    exact rootParents_eq_spineRoot h _ _ (Nat.le_of_lt_succ hlen)

theorem path_eq_spinePath (hleft : t.left.isSome = true) (hlen : t.parents.length < depth) (queue : List H) :
    path h depth t queue = .ok ⟨((h.spinePath depth 0 t.spine queue).map Prod.snd).reverse,
      ((h.spinePath depth 0 t.spine queue).map Prod.fst).reverse⟩ := by
  obtain ⟨k, rfl⟩ : ∃ k, depth = k + 1 := ⟨depth - 1, by omega⟩
  obtain ⟨_ | left, _ | right, ps⟩ := t
  · cases hleft
  · cases hleft
  · have := @pathParents_eq_spinePath _ h ps k 1 queue.tail (Nat.le_of_lt_succ hlen)
    simp only [path, fillerNext_eq, this, spine, MerkleHash.spinePath]
  · have := @pathParents_eq_spinePath _ h ps k 1 queue (Nat.le_of_lt_succ hlen)
    simp only [path, this, spine, MerkleHash.spinePath]

theorem nextDepth_eq (hleft : t.left.isSome = true) (skip : Nat) : t.nextDepth skip = nextDepthLoop t.spine 0 skip := by
  obtain ⟨_ | left, _ | right, ps⟩ := t
  · cases hleft
  · cases hleft
  · cases skip <;> rfl
  · rfl

theorem le_nextDepthLoop : ∀ (qs : List (Option H)) (d skip : Nat), d ≤ nextDepthLoop qs d skip
  | [], d, skip => Nat.le_add_right d skip
  | some _ :: qs, d, skip => Nat.le_trans (Nat.le_succ d) (le_nextDepthLoop qs (d + 1) skip)
  | none :: _, d, 0 => Nat.le_refl d
  | none :: qs, d, skip + 1 => Nat.le_trans (Nat.le_succ d) (le_nextDepthLoop qs (d + 1) skip)

theorem slots_getElem? : ∀ (k d : Nat) (qs : List (Option H)) (skip : Nat), (MerkleHash.slots k d qs)[skip]? =
      if nextDepthLoop qs d skip < d + k then some (nextDepthLoop qs d skip) else none
  | 0, d, qs, skip => by
    have := le_nextDepthLoop qs d skip
    rw [if_neg (by omega)]
    rfl
  | k + 1, d, [], 0 => by simp [MerkleHash.slots, nextDepthLoop]
  | k + 1, d, [], skip + 1 => by
    have hk : d + 1 + k = d + (k + 1) := by omega
    have hskip : d + 1 + skip = d + (skip + 1) := by omega
    rw [MerkleHash.slots, List.getElem?_cons_succ, slots_getElem? k (d + 1) []]
    show (if d + 1 + skip < d + 1 + k then some (d + 1 + skip) else none) =
      if d + (skip + 1) < d + (k + 1) then some (d + (skip + 1)) else none
    rw [hk, hskip]
  | k + 1, d, some _ :: qs, skip => by
    rw [MerkleHash.slots, slots_getElem? k (d + 1) qs, Nat.add_assoc, Nat.add_comm 1 k]
    rfl
  | k + 1, d, none :: qs, 0 => by simp [MerkleHash.slots, nextDepthLoop]
  | k + 1, d, none :: qs, skip + 1 => by
    rw [MerkleHash.slots, List.getElem?_cons_succ, slots_getElem? k (d + 1) qs, Nat.add_assoc, Nat.add_comm 1 k]
    rfl

theorem Represents.spine {xs : List H} (ht : Represents h depth t xs) (hne : xs ≠ []) :
    ∃ ys r, xs = ys ++ [r] ∧ t.last = .ok r ∧ t.left.isSome = true ∧ h.Frontier 0 t.spine ys ∧
      t.parents.length < depth := by
  cases ht with
  | empty => exact absurd rfl hne
  | @left ys ps l heven hps hlen => exact ⟨ys, l, rfl, rfl, rfl, ⟨heven, hps⟩, hlen⟩
  | @pair ys ps l r heven hps hlen =>
    exact ⟨ys ++ [l], r, by simp, rfl, rfl, ⟨ys, rfl, heven, hps⟩, hlen⟩

theorem spine_length (t : IncrementalMerkleTree H) : t.spine.length = t.parents.length + 1 := by
  obtain ⟨_, _ | _, _⟩ := t <;> rfl

end Spine

/-! ## Appending -/

def Canonical (t : IncrementalMerkleTree H) : Prop := t.parents.getLast? ≠ some none

theorem carry_getLast? : ∀ {d : Nat} {ps : List (Option H)} (x : H), ps.getLast? ≠ some none →
    (h.carry d ps x).getLast? ≠ some none
  | _, [], _, _ => by simp [MerkleHash.carry]
  | _, [none], _, hps => absurd rfl hps
  | _, none :: q :: qs, _, hps => by
    exact hps
  | d, some p :: ps, x, hps => by
    have hps' : ps.getLast? ≠ some none := by
      intro hnone
      apply hps
      rw [List.getLast?_cons, hnone]
      rfl
    have ih := @carry_getLast? (d + 1) ps (h.combine p x d) hps'
    rw [MerkleHash.carry, List.getLast?_cons]
    cases hlast : (h.carry (d + 1) ps (h.combine p x d)).getLast? with
    | none =>
      cases ps with
      | nil => cases hlast
      | cons q qs => cases q <;> cases hlast
    | some q =>
      rw [hlast] at ih
      simpa using ih

section Append

variable {h} {t : IncrementalMerkleTree H} {xs : List H} {depth : Nat}

theorem Represents.isComplete_iff (ht : Represents h depth t xs) (hdepth : 0 < depth) :
    t.isComplete depth = true ↔ xs.length = 2 ^ depth := by
  obtain ⟨k, rfl⟩ : ∃ k, depth = k + 1 := ⟨depth - 1, by omega⟩
  have hpos := Nat.two_pow_pos k
  cases ht with
  | empty =>
    have hfalse : (IncrementalMerkleTree.empty : IncrementalMerkleTree H).isComplete (k + 1) = false := rfl
    simp only [hfalse, Bool.false_eq_true, List.length_nil, false_iff]
    omega
  | @left ys ps l heven hps hlen =>
    simp only [isComplete, Option.isSome_none, Bool.and_false, Bool.false_and, Bool.false_eq_true,
      List.length_append, List.length_singleton, false_iff]
    omega
  | @pair ys ps l r heven hps hlen =>
    have hcount := MerkleHash.Frontier.length_eq h hps
    rw [h.pairUp_length] at hcount
    have hlt := MerkleHash.occupancy_lt ps
    have hfull := MerkleHash.occupancy_full_iff ps
    simp only [isComplete, Option.isSome_some, Bool.true_and, Bool.and_eq_true, beq_iff_eq, ← hfull,
      Nat.add_sub_cancel, List.length_append, List.length_cons, List.length_nil]
    constructor
    · rintro ⟨hk, hocc⟩
      rw [hk] at hocc
      omega
    · intro hsize
      have hk : ps.length = k := by
        have hle : 2 ^ ps.length ≤ 2 ^ k := Nat.pow_le_pow_right (by decide) (by omega)
        exact Nat.pow_right_injective (Nat.le_refl 2) (by show 2 ^ ps.length = 2 ^ k; omega)
      rw [hk]
      omega

theorem Represents.append_ok (ht : Represents h depth t xs) (hc : t.Canonical) (hdepth : 0 < depth)
    (hlen : xs.length < 2 ^ depth) (x : H) : ∃ t', IncrementalMerkleTree.append h depth t x = .ok t' ∧
      Represents h depth t' (xs ++ [x]) ∧ t'.Canonical := by
  have hfull : t.isComplete depth = false := by
    rw [← Bool.not_eq_true, ht.isComplete_iff hdepth]
    omega
  obtain ⟨t', happ⟩ : ∃ t', IncrementalMerkleTree.append h depth t x = .ok t' := by
    unfold IncrementalMerkleTree.append
    rw [hfull, if_neg (by decide)]
    split <;> exact ⟨_, rfl⟩
  refine ⟨t', happ, ht.append h hdepth happ, ?_⟩
  unfold IncrementalMerkleTree.append at happ
  rw [hfull, if_neg (by decide)] at happ
  cases ht with
  | empty =>
    cases happ
    exact hc
  | left =>
    cases happ
    exact hc
  | pair l r heven hps hparents =>
    cases happ
    rw [appendLoop_eq_carry h _ hparents]
    exact carry_getLast? h _ hc

theorem Represents.appendAll_ok (hdepth : 0 < depth) : ∀ {ys : List H} {t : IncrementalMerkleTree H}
    {xs : List H}, Represents h depth t xs → t.Canonical → xs.length + ys.length ≤ 2 ^ depth →
    ∃ t', IncrementalMerkleTree.appendAll h depth t ys = .ok t' ∧ Represents h depth t' (xs ++ ys) ∧ t'.Canonical
  | [], t, xs, ht, hc, _ => ⟨t, rfl, by simpa using ht, hc⟩
  | y :: ys, t, xs, ht, hc, hlen => by
    rw [List.length_cons] at hlen
    obtain ⟨t1, h1, ht1, hc1⟩ := ht.append_ok hc hdepth (by omega) y
    have hrest : (xs ++ [y]).length + ys.length ≤ 2 ^ depth := by
      rw [List.length_append, List.length_singleton]
      omega
    obtain ⟨t', h', ht', hc'⟩ := Represents.appendAll_ok hdepth ht1 hc1 hrest
    refine ⟨t', ?_, by simpa using ht', hc'⟩
    unfold IncrementalMerkleTree.appendAll
    rw [List.foldlM_cons, h1, ok_bind]
    exact h'

theorem Represents.append_eq (ht : Represents h depth t xs) (hdepth : 0 < depth) (hlen : xs.length < 2 ^ depth)
    {depth' : Nat} (hlt : depth < depth') (x : H) :
    IncrementalMerkleTree.append h depth' t x = IncrementalMerkleTree.append h depth t x := by
  have hfull : t.isComplete depth = false := by
    rw [← Bool.not_eq_true, ht.isComplete_iff hdepth]
    omega
  have hparents : t.parents.length < depth := by
    cases ht with
    | empty => exact hdepth
    | left _ _ _ hparents => exact hparents
    | pair _ _ _ _ hparents => exact hparents
  have hfull' : t.isComplete depth' = false := by
    have : ¬ t.parents.length = depth' - 1 := by omega
    simp [isComplete, this]
  unfold IncrementalMerkleTree.append
  rw [hfull, hfull', if_neg (by decide), if_neg (by decide)]
  cases ht with
  | empty => rfl
  | left => rfl
  | pair l r =>
    dsimp only at hparents ⊢
    rw [appendLoop_eq_carry h _ hparents, appendLoop_eq_carry h _ (by omega)]

end Append

theorem Represents.wfcheck_ok {h : MerkleHash H} {t : IncrementalMerkleTree H} {xs : List H} {depth : Nat}
    (ht : Represents h depth t xs) (hc : t.Canonical) {depth' : Nat} (hdepth : depth ≤ depth')
    (hpos : 0 < depth) : t.wfcheck depth' = .ok () := by
  have hlast : (t.parents.getLast? matches some none) = false := by
    split
    · rename_i hnone
      exact absurd hnone hc
    · rfl
  have hparents : ¬ t.parents.length ≥ depth' := by
    cases ht with
    | empty =>
      show ¬ 0 ≥ depth'
      omega
    | left _ _ _ hparents => exact Nat.not_le.mpr (by dsimp only; omega)
    | pair _ _ _ _ hparents => exact Nat.not_le.mpr (by dsimp only; omega)
  have hleft : t.left.isNone = true → t.right = none ∧ t.parents = [] := by
    cases ht with
    | empty => exact fun _ => ⟨rfl, rfl⟩
    | left => exact fun hnone => by cases hnone
    | pair => exact fun hnone => by cases hnone
  unfold wfcheck
  rw [hlast, decide_eq_false hparents]
  cases hnone : t.left.isNone with
  | false => rfl
  | true =>
    obtain ⟨hright, hps⟩ := hleft hnone
    simp [hright, hps, rejectIf, bind, Except.bind]

end IncrementalMerkleTree

/-! ## Witnesses -/

/-- `IncrementalWitness<Depth, Hash>`. -/
structure IncrementalWitness (H : Type) where
  tree : IncrementalMerkleTree H
  filled : List H
  cursor : Option (IncrementalMerkleTree H)
  cursor_depth : Nat
  deriving DecidableEq, Repr

def IncrementalMerkleTree.witness {H : Type} (t : IncrementalMerkleTree H) : IncrementalWitness H := ⟨t, [], none, 0⟩

abbrev SaplingWitness := IncrementalWitness Uint256

/-- The serialization of `IncrementalMerkleTree`, with its check. -/
def treeCodec {H : Type} (c : Codec H) (depth : Nat) : Codec (IncrementalMerkleTree H) :=
  Codec.guarded
    ((c.option.pair (c.option.pair c.option.list)).imap (fun x => ⟨x.1, x.2.1, x.2.2⟩)
      fun t => (t.left, t.right, t.parents))
    (IncrementalMerkleTree.wfcheck depth)

namespace IncrementalWitness

variable {H : Type} (h : MerkleHash H) (c : Codec H) (depth : Nat)

def element (w : IncrementalWitness H) : Except String H := w.tree.last

def partialPath (w : IncrementalWitness H) : List H :=
  match w.cursor with
  | none => w.filled
  | some cursor => w.filled ++ [cursor.rootAt h w.cursor_depth []]

def root (w : IncrementalWitness H) : H := w.tree.rootAt h depth (w.partialPath h)

def path (w : IncrementalWitness H) : Except String (MerklePath H) := w.tree.path h depth (w.partialPath h)

def append (w : IncrementalWitness H) (obj : H) : Except String (IncrementalWitness H) :=
  match w.cursor with
  | some cursor => do
    let cursor ← cursor.append h depth obj
    if cursor.isComplete w.cursor_depth then
      return { w with filled := w.filled ++ [cursor.rootAt h w.cursor_depth []], cursor := none }
    else return { w with cursor := some cursor }
  | none =>
    let cursor_depth := w.tree.nextDepth w.filled.length
    if cursor_depth ≥ depth then .error "tree is full"
    else if cursor_depth = 0 then
      .ok { w with filled := w.filled ++ [obj], cursor_depth := cursor_depth }
    else do
      let cursor ← IncrementalMerkleTree.empty.append h depth obj
      return { w with cursor := some cursor, cursor_depth := cursor_depth }

def storedCodec : Codec (IncrementalMerkleTree H × List H × Option (IncrementalMerkleTree H)) :=
  (treeCodec c depth).pair (c.list.pair (treeCodec c depth).option)

/-- `Serialize`; the trees are checked as they are written. -/
def serialize (w : IncrementalWitness H) : Except String (List UInt8) := do
  w.tree.wfcheck depth
  match w.cursor with
  | none => .ok ()
  | some cursor => cursor.wfcheck depth
  return (storedCodec c depth).write (w.tree, w.filled, w.cursor)

/-- `Unserialize`: the witness and the rest of the stream. -/
def unserialize (s : List UInt8) : Except String (IncrementalWitness H × List UInt8) := do
  let ((tree, filled, cursor), rest) ← (storedCodec c depth).read s
  return (⟨tree, filled, cursor, tree.nextDepth filled.length⟩, rest)

/-- What is done with a witness in the course of time. -/
inductive Op (H : Type) where
  | append (obj : H)
  | reload
  deriving DecidableEq, Repr

/-- Writing a witness and reading it back. -/
def reload (w : IncrementalWitness H) : Except String (IncrementalWitness H) := do
  let s ← w.serialize c depth
  let (w, _) ← unserialize c depth s
  return w

def step (w : IncrementalWitness H) : Op H → Except String (IncrementalWitness H)
  | .append obj => w.append h depth obj
  | .reload => w.reload c depth

/-- The leaves that the operations append. -/
def Op.leaves : List (Op H) → List H
  | [] => []
  | .append obj :: ops => obj :: leaves ops
  | .reload :: ops => leaves ops

end IncrementalWitness

/-- A path leads from a leaf at a position to a root: it has a sibling for each level, its sides are the
    bits of the position, and hashing the leaf with the siblings gives the root. -/
def MerklePath.Authenticates {H : Type} (h : MerkleHash H) (depth : Nat) (p : MerklePath H) (leaf : H)
    (position : Nat) (root : H) : Prop :=
  p.authentication_path.length = depth ∧ p.index.reverse = MerkleHash.lowBits depth position ∧
    h.pathRoot 0 leaf (p.index.reverse.zip p.authentication_path.reverse) = root

namespace IncrementalWitness

open IncrementalMerkleTree

variable {H : Type} (h : MerkleHash H)

/-! ## What a witness knows -/

/-- The growing subtree: it has the height of the next slot and holds the leaves that are left. -/
def CursorOf (cursor : Option (IncrementalMerkleTree H)) (cursor_depth : Nat) (cs : List Nat) (R : List H) : Prop :=
  match cursor with
  | none => R = []
  | some t => R ≠ [] ∧ R.length < 2 ^ cursor_depth ∧ 0 < cursor_depth ∧ Represents h cursor_depth t R ∧
      t.Canonical ∧ cs.head? = some cursor_depth

/-- `w` was taken after the leaves `L` and has seen the leaves `M` since. -/
structure WitnessOf (depth : Nat) (w : IncrementalWitness H) (L M : List H) : Prop where
  tree : Represents h depth w.tree L
  canonical : w.tree.Canonical
  nonempty : L ≠ []
  filling : ∃ cs R, h.Filled (MerkleHash.slots depth 0 w.tree.spine) w.filled M cs R ∧
    CursorOf h w.cursor w.cursor_depth cs R

variable {h} {depth : Nat} {w : IncrementalWitness H} {L M : List H}

theorem WitnessOf.init {t : IncrementalMerkleTree H} (ht : Represents h depth t L) (hc : t.Canonical) (hne : L ≠ []) :
    WitnessOf h depth t.witness L [] :=
  ⟨ht, hc, hne, _, _, .nil _ _, rfl⟩

theorem WitnessOf.onSpine (hw : WitnessOf h depth w L M) :
    ∃ r, L.getLast? = some r ∧ w.tree.last = .ok r ∧ w.tree.left.isSome = true ∧ w.tree.parents.length < depth ∧
      h.OnSpine (MerkleHash.padded (h.emptyRoot 0) (L ++ M)) 0 (L.length - 1) w.tree.spine ∧
      h.node (MerkleHash.padded (h.emptyRoot 0) (L ++ M)) 0 (L.length - 1) = r := by
  obtain ⟨ys, r, rfl, hlast, hleft, hfrontier, hparents⟩ := hw.tree.spine hw.nonempty
  have hys : ys = (List.range ys.length).map
      (h.node (MerkleHash.padded (h.emptyRoot 0) (ys ++ [r] ++ M)) 0) := by
    apply List.ext_getElem
    · simp
    · intro i hi _
      simp [h.node_zero, MerkleHash.padded, List.getD_eq_getElem?_getD, List.getElem?_append_left hi,
        List.getElem?_eq_getElem hi]
  have hlen : (ys ++ [r]).length - 1 = ys.length := by simp
  refine ⟨r, by simp, hlast, hleft, hparents, ?_, ?_⟩
  · rw [hlen]
    rw [hys] at hfrontier
    exact MerkleHash.Frontier.onSpine h _ hfrontier
  · rw [hlen, h.node_zero]
    simp [MerkleHash.padded, List.getD_eq_getElem?_getD]

theorem WitnessOf.head_eq (hw : WitnessOf h depth w L M) {cs : List Nat} {R : List H}
    (hfilled : h.Filled (MerkleHash.slots depth 0 w.tree.spine) w.filled M cs R) :
    cs.head? = if w.tree.nextDepth w.filled.length < depth then some (w.tree.nextDepth w.filled.length) else none := by
  obtain ⟨_, -, -, hleft, -⟩ := hw.onSpine
  rw [hfilled.drop_eq, List.head?_drop, slots_getElem?, Nat.zero_add, nextDepth_eq hleft]

theorem WitnessOf.cursor_depth_eq (hw : WitnessOf h depth w L M) {t : IncrementalMerkleTree H}
    (hcursor : w.cursor = some t) : w.tree.nextDepth w.filled.length = w.cursor_depth ∧ w.cursor_depth < depth := by
  obtain ⟨cs, R, hfilled, hR⟩ := hw.filling
  rw [hcursor] at hR
  have hhead := hw.head_eq hfilled
  rw [hR.2.2.2.2.2] at hhead
  split at hhead
  · have heq := Option.some.inj hhead
    exact ⟨heq.symm, by omega⟩
  · cases hhead

theorem WitnessOf.partialPath_eq (hw : WitnessOf h depth w L M) (hempty : h.EmptyLaw depth) :
    w.partialPath h = h.uncles (MerkleHash.slots depth 0 w.tree.spine) M := by
  obtain ⟨cs, R, hfilled, hR⟩ := hw.filling
  rw [hfilled.uncles_eq]
  cases hcursor : w.cursor with
  | none =>
    rw [hcursor] at hR
    simp [partialPath, hcursor, show R = [] from hR]
  | some t =>
    rw [hcursor] at hR
    obtain ⟨hne, hlen, hpos, ht, -, hhead⟩ := hR
    obtain ⟨-, hdepth⟩ := hw.cursor_depth_eq hcursor
    have hroot := ht.root h hpos fun d hd => hempty d (by omega)
    rw [IncrementalMerkleTree.root] at hroot
    cases cs with
    | nil => cases hhead
    | cons d cs =>
      rw [List.head?_cons, Option.some.injEq] at hhead
      subst hhead
      have hne' : R.isEmpty = false := by simpa using hne
      simp [partialPath, hcursor, MerkleHash.uncles, hne', List.take_of_length_le (Nat.le_of_lt hlen),
        List.drop_of_length_le (Nat.le_of_lt hlen), hroot]

/-- **The root of a witness is the root of the tree with all leaves.** -/
theorem WitnessOf.root_eq (hw : WitnessOf h depth w L M) (hempty : h.EmptyLaw depth) :
    w.root h depth = h.treeRoot depth 0 (MerkleHash.padded (h.emptyRoot 0) (L ++ M)) := by
  obtain ⟨r, -, hlast, hleft, hparents, hspine, hnode⟩ := hw.onSpine
  have hL := List.length_pos_iff.mpr hw.nonempty
  have hdrop : (L ++ M).drop ((L.length - 1 + 1) * 2 ^ 0) = M := by
    rw [Nat.pow_zero, Nat.mul_one, Nat.sub_add_cancel hL]
    exact List.drop_left
  have hroot := h.spineRoot_uncles hempty hspine (k := depth) (by rw [spine_length]; omega) (by omega)
  rw [hdrop, hnode] at hroot
  rw [root, rootAt_eq_spineRoot hlast hleft hparents, hw.partialPath_eq hempty, hroot, Nat.zero_add]
  simp [MerkleHash.node]

/-- **The path of a witness leads from its leaf to its root.** -/
theorem WitnessOf.path_eq (hw : WitnessOf h depth w L M) : ∃ p r, w.path h depth = .ok p ∧ L.getLast? = some r ∧
      p.Authenticates h depth r (L.length - 1) (w.root h depth) := by
  obtain ⟨r, hr, hlast, hleft, hparents, hspine, hnode⟩ := hw.onSpine
  refine ⟨_, r, path_eq_spinePath hleft hparents _, hr, by simp, ?_, ?_⟩
  · rw [List.reverse_reverse]
    exact hspine.sides
  · rw [List.reverse_reverse, List.reverse_reverse, List.zip_map', List.map_id', h.pathRoot_spinePath, root,
      rootAt_eq_spineRoot hlast hleft hparents]

/-! ## Steps -/

/-- **Appending a leaf keeps the witness**, as long as the tree has room. -/
theorem WitnessOf.append (hw : WitnessOf h depth w L M) (hempty : h.EmptyLaw depth)
    (hroom : L.length + M.length < 2 ^ depth) (x : H) :
    ∃ w', w.append h depth x = .ok w' ∧ w'.tree = w.tree ∧ WitnessOf h depth w' L (M ++ [x]) := by
  obtain ⟨cs, R, hfilled, hR⟩ := hw.filling
  cases hcursor : w.cursor with
  | some t =>
    obtain ⟨-, hdepth⟩ := hw.cursor_depth_eq hcursor
    rw [hcursor] at hR
    obtain ⟨hne, hlen, hpos, ht, hc, hhead⟩ := hR
    obtain ⟨t', happ, ht', hc'⟩ := ht.append_ok hc hpos hlen x
    rw [← ht.append_eq hpos hlen hdepth] at happ
    simp only [IncrementalWitness.append, hcursor, happ, ok_bind]
    cases hfull : t'.isComplete w.cursor_depth with
    | true =>
      refine ⟨_, rfl, rfl, hw.tree, hw.canonical, hw.nonempty, cs.tail, [], ?_, rfl⟩
      have hsize := (ht'.isComplete_iff hpos).mp hfull
      have hroot := ht'.root h hpos fun d hd => hempty d (by omega)
      rw [IncrementalMerkleTree.root] at hroot
      rw [hroot]
      refine MerkleHash.Filled.push hsize ?_
      rw [← List.cons_head?_tail hhead] at hfilled
      exact hfilled.append x
    | false =>
      refine ⟨_, rfl, rfl, hw.tree, hw.canonical, hw.nonempty, cs, R ++ [x], hfilled.append x, ?_⟩
      have hsize : (R ++ [x]).length ≠ 2 ^ w.cursor_depth := by
        rw [Ne, ← ht'.isComplete_iff hpos, hfull]
        decide
      rw [List.length_append, List.length_singleton] at hsize
      have hlt : (R ++ [x]).length < 2 ^ w.cursor_depth := by
        rw [List.length_append, List.length_singleton]
        omega
      exact ⟨by simp, hlt, hpos, ht', hc', hhead⟩
  | none =>
    have hR' : R = [] := by rwa [hcursor] at hR
    subst hR'
    have hhead := hw.head_eq hfilled
    -- the slots have room for exactly the leaves that are missing
    have hdepth : w.tree.nextDepth w.filled.length < depth := by
      by_contra hge
      rw [if_neg hge, List.head?_eq_none_iff] at hhead
      subst hhead
      obtain ⟨_, -, -, -, hparents, hspine, -⟩ := hw.onSpine
      have hcap := hspine.room h (k := depth) (by rw [spine_length]; omega)
      have htotal := hfilled.length_eq
      have hL := List.length_pos_iff.mpr hw.nonempty
      simp only [List.map_nil, List.sum_nil, List.length_nil, Nat.pow_zero, Nat.mul_one, Nat.zero_add] at htotal hcap
      omega
    rw [if_pos hdepth] at hhead
    simp only [IncrementalWitness.append, hcursor, ge_iff_le, if_neg (Nat.not_le.mpr hdepth)]
    have hnext : h.Filled (MerkleHash.slots depth 0 w.tree.spine) w.filled (M ++ [x])
        (w.tree.nextDepth w.filled.length :: cs.tail) [x] := by
      rw [← List.cons_head?_tail hhead] at hfilled
      exact hfilled.append x
    split
    · rename_i hzero
      refine ⟨_, rfl, rfl, hw.tree, hw.canonical, hw.nonempty, cs.tail, [], ?_, rfl⟩
      rw [hzero] at hnext
      exact hnext.push rfl
    · rename_i hpos
      have hempty' : Represents h (w.tree.nextDepth w.filled.length) .empty [] := .empty
      have hone : 1 < 2 ^ w.tree.nextDepth w.filled.length := Nat.one_lt_two_pow hpos
      obtain ⟨t', happ, ht', hc'⟩ := hempty'.append_ok (by simp [Canonical, IncrementalMerkleTree.empty])
        (Nat.pos_of_ne_zero hpos) (by simp) x
      rw [← hempty'.append_eq (Nat.pos_of_ne_zero hpos) (by simp) hdepth] at happ
      simp only [happ, ok_bind]
      exact ⟨_, rfl, rfl, hw.tree, hw.canonical, hw.nonempty, _, [x], hnext, by simp, hone, Nat.pos_of_ne_zero hpos,
        ht', hc', rfl⟩

variable {c : Codec H}

theorem treeCodec_valid (hvalid : ∀ x, c.Valid x) {t : IncrementalMerkleTree H} {xs : List H} {d : Nat}
    (ht : Represents h d t xs) (hc : t.Canonical) (hpos : 0 < d) (hd : d ≤ depth) (hmax : depth ≤ Codec.MAX_SIZE) :
    (treeCodec c depth).Valid t := by
  have hparents : t.parents.length ≤ Codec.MAX_SIZE := by
    cases ht with
    | empty => exact Nat.zero_le _
    | left _ _ _ hparents => exact Nat.le_trans (Nat.le_of_lt hparents) (Nat.le_trans hd hmax)
    | pair _ _ _ _ hparents => exact Nat.le_trans (Nat.le_of_lt hparents) (Nat.le_trans hd hmax)
  exact ⟨⟨⟨fun x _ => hvalid x, fun x _ => hvalid x, hparents, fun _ _ x _ => hvalid x⟩, rfl⟩,
    ht.wfcheck_ok hc hd hpos⟩

/-- **Writing a witness and reading it back keeps it**: the depth of the growing subtree is found again. -/
theorem WitnessOf.reload (hw : WitnessOf h depth w L M) (hpos : 0 < depth) (hmax : depth ≤ Codec.MAX_SIZE)
    (hvalid : ∀ x, c.Valid x) : ∃ w', w.reload c depth = .ok w' ∧ w'.tree = w.tree ∧ WitnessOf h depth w' L M := by
  obtain ⟨cs, R, hfilled, hR⟩ := hw.filling
  have hcursor : ∀ t ∈ w.cursor, (treeCodec c depth).Valid t ∧ t.wfcheck depth = .ok () := by
    intro t hsome
    obtain ⟨-, hdepth⟩ := hw.cursor_depth_eq hsome
    rw [hsome] at hR
    obtain ⟨-, -, hpos', ht, hc, -⟩ := hR
    exact ⟨treeCodec_valid hvalid ht hc hpos' (Nat.le_of_lt hdepth) hmax,
      ht.wfcheck_ok hc (Nat.le_of_lt hdepth) hpos'⟩
  have hwrite : w.serialize c depth = .ok ((storedCodec c depth).write (w.tree, w.filled, w.cursor)) := by
    unfold serialize
    rw [hw.tree.wfcheck_ok hw.canonical (Nat.le_refl depth) hpos, ok_bind]
    cases hsome : w.cursor with
    | none => rfl
    | some t =>
      dsimp only
      rw [(hcursor t hsome).2]
      rfl
  have hfill : w.filled.length ≤ Codec.MAX_SIZE :=
    Nat.le_trans hfilled.length_le (Nat.le_trans (MerkleHash.slots_length_le _ _ _) hmax)
  have hread := (storedCodec c depth).read_write (w.tree, w.filled, w.cursor) []
    ⟨treeCodec_valid hvalid hw.tree hw.canonical hpos (Nat.le_refl depth) hmax,
      ⟨hfill, fun x _ => hvalid x⟩, fun t ht => (hcursor t ht).1⟩
  rw [List.append_nil] at hread
  refine ⟨⟨w.tree, w.filled, w.cursor, w.tree.nextDepth w.filled.length⟩, ?_, rfl, hw.tree, hw.canonical,
    hw.nonempty, cs, R, hfilled, ?_⟩
  · simp only [IncrementalWitness.reload, hwrite, unserialize, ok_bind, hread]
    rfl
  · cases hsome : w.cursor with
    | none =>
      rw [hsome] at hR
      exact hR
    | some t =>
      rw [hsome, ← (hw.cursor_depth_eq hsome).1] at hR
      exact hR

/-! ## Runs -/

theorem WitnessOf.run (hpos : 0 < depth) (hmax : depth ≤ Codec.MAX_SIZE) (hvalid : ∀ x, c.Valid x)
    (hempty : h.EmptyLaw depth) : ∀ {ops : List (Op H)} {w : IncrementalWitness H} {M : List H},
    WitnessOf h depth w L M → L.length + M.length + (Op.leaves ops).length ≤ 2 ^ depth →
    ∃ w', ops.foldlM (step h c depth) w = .ok w' ∧ w'.tree = w.tree ∧ WitnessOf h depth w' L (M ++ Op.leaves ops)
  | [], w, M, hw, _ => ⟨w, rfl, rfl, by rwa [Op.leaves, List.append_nil]⟩
  | .append x :: ops, w, M, hw, hroom => by
    rw [Op.leaves, List.length_cons] at hroom
    obtain ⟨w1, h1, htree1, hw1⟩ := hw.append hempty (by omega) x
    have hroom1 : L.length + (M ++ [x]).length + (Op.leaves ops).length ≤ 2 ^ depth := by
      rw [List.length_append, List.length_singleton]
      omega
    obtain ⟨w', hrun, htree, hw'⟩ := WitnessOf.run hpos hmax hvalid hempty hw1 hroom1
    refine ⟨w', ?_, htree.trans htree1, by simpa [Op.leaves] using hw'⟩
    show (w.append h depth x >>= _) = _
    rw [h1, ok_bind]
    exact hrun
  | .reload :: ops, w, M, hw, hroom => by
    obtain ⟨w1, h1, htree1, hw1⟩ := hw.reload hpos hmax hvalid
    have hroom1 : L.length + M.length + (Op.leaves ops).length ≤ 2 ^ depth := hroom
    obtain ⟨w', hrun, htree, hw'⟩ := WitnessOf.run hpos hmax hvalid hempty hw1 hroom1
    refine ⟨w', ?_, htree.trans htree1, hw'⟩
    show (w.reload c depth >>= _) = _
    rw [h1, ok_bind]
    exact hrun

theorem WitnessOf.congr {w1 w2 : IncrementalWitness H} (hempty : h.EmptyLaw depth)
    (h1 : WitnessOf h depth w1 L M) (h2 : WitnessOf h depth w2 L M) (htree : w1.tree = w2.tree) :
    w1.root h depth = w2.root h depth ∧ w1.path h depth = w2.path h depth := by
  have hpath : w1.partialPath h = w2.partialPath h := by
    rw [h1.partialPath_eq hempty, h2.partialPath_eq hempty, htree]
  constructor
  · rw [root, root, hpath, htree]
  · rw [IncrementalWitness.path, IncrementalWitness.path, hpath, htree]

/-- **Witnesses stay valid.** A witness taken after the leaves `L`, advanced by any later leaves and stored any number
    of times in between, has the root of the tree over all leaves, and its path leads from the last leaf of `L` to that
    root; what was stored and when does not change them. -/
theorem witness_run (h : MerkleHash H) (c : Codec H) {depth : Nat} (hpos : 0 < depth)
    (hmax : depth ≤ Codec.MAX_SIZE) (hempty : h.EmptyLaw depth) (hvalid : ∀ x, c.Valid x) {L : List H}
    (hL : L ≠ []) {ops : List (Op H)} (hroom : L.length + (Op.leaves ops).length ≤ 2 ^ depth) :
    ∃ t t' w p, IncrementalMerkleTree.appendAll h depth .empty L = .ok t ∧
      IncrementalMerkleTree.appendAll h depth .empty (L ++ Op.leaves ops) = .ok t' ∧
      ops.foldlM (step h c depth) t.witness = .ok w ∧
      w.root h depth = t'.root h depth ∧ w.path h depth = .ok p ∧
      p.Authenticates h depth (L.getLast hL) (L.length - 1) (t'.root h depth) ∧
      ∀ ops', Op.leaves ops' = Op.leaves ops → ∃ w', ops'.foldlM (step h c depth) t.witness = .ok w' ∧
        w'.root h depth = w.root h depth ∧ w'.path h depth = w.path h depth := by
  have hnil : Represents h depth .empty [] := .empty
  have hcanon : (IncrementalMerkleTree.empty : IncrementalMerkleTree H).Canonical := by
    simp [Canonical, IncrementalMerkleTree.empty]
  have hroom' : ([] : List H).length + (L ++ Op.leaves ops).length ≤ 2 ^ depth := by simpa using hroom
  have hroomL : ([] : List H).length + L.length ≤ 2 ^ depth := by
    rw [List.length_nil]
    omega
  obtain ⟨t, ht, hrep, hc⟩ := hnil.appendAll_ok hpos hcanon hroomL
  obtain ⟨t', ht', hrep', -⟩ := hnil.appendAll_ok hpos hcanon hroom'
  rw [List.nil_append] at hrep hrep'
  have hinit := WitnessOf.init hrep hc hL
  obtain ⟨w, hrun, htree, hw⟩ := hinit.run (c := c) hpos hmax hvalid hempty hroom
  obtain ⟨p, r, hp, hr, hauth⟩ := hw.path_eq
  have hroot : w.root h depth = t'.root h depth := by
    rw [hw.root_eq hempty, hrep'.root h hpos hempty, List.nil_append]
  refine ⟨t, t', w, p, ht, ht', hrun, hroot, hp, ?_, ?_⟩
  · rw [List.getLast?_eq_some_getLast hL] at hr
    cases hr
    rw [← hroot]
    exact hauth
  · intro ops' hleaves
    have hroom1 : L.length + ([] : List H).length + (Op.leaves ops').length ≤ 2 ^ depth := by
      rw [hleaves]
      exact hroom
    obtain ⟨w', hrun', htree', hw'⟩ := hinit.run (c := c) hpos hmax hvalid hempty hroom1
    rw [hleaves] at hw'
    obtain ⟨hr', hp'⟩ := WitnessOf.congr hempty hw' hw (htree'.trans htree.symm)
    exact ⟨w', hrun', hr', hp'⟩

/-- A small hash function: an empty tree has root 0. -/
def smallHash : MerkleHash Uint256 := ⟨fun a b _ => 3 * a + 5 * b, fun _ => 0⟩

theorem witness_run_small : ∃ t t' w p, IncrementalMerkleTree.appendAll smallHash 2 .empty [7, 8] = .ok t ∧
      IncrementalMerkleTree.appendAll smallHash 2 .empty [7, 8, 9, 10] = .ok t' ∧
      [Op.append 9, .reload, .append 10].foldlM (step smallHash uint256Codec 2) t.witness = .ok w ∧
      w.root smallHash 2 = t'.root smallHash 2 ∧ w.path smallHash 2 = .ok p ∧
      p.Authenticates smallHash 2 8 1 (t'.root smallHash 2) := by
  obtain ⟨t, t', w, p, ht, ht', hrun, hroot, hpath, hauth, -⟩ := witness_run smallHash uint256Codec
    (L := [7, 8]) (by decide : 0 < 2) (by decide) (fun _ _ => rfl) uint256Codec_valid (by decide)
    (by decide : [7, 8].length + (Op.leaves [Op.append (9 : Uint256), .reload, .append 10]).length ≤ 2 ^ 2)
  exact ⟨t, t', w, p, ht, ht', hrun, hroot, hpath, hauth⟩

end IncrementalWitness

end KrovaCoin
