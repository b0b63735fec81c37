import Mathlib

/-!
# Complete binary hash trees

Principal result: `Frontier.root`.
-/

namespace KrovaCoin.Lib

/-- A hash function for the nodes of a tree and the roots of its empty subtrees, by height. -/
structure MerkleHash (H : Type) where
  combine : H → H → Nat → H
  emptyRoot : Nat → H

namespace MerkleHash

variable {H : Type} (h : MerkleHash H)

/-- Up to height `D` the empty roots are roots of empty trees. -/
def EmptyLaw (D : Nat) : Prop :=
  ∀ d < D, h.combine (h.emptyRoot d) (h.emptyRoot d) d = h.emptyRoot (d + 1)

def levelUp (d : Nat) (f : Nat → H) : Nat → H := fun i => h.combine (f (2 * i)) (f (2 * i + 1)) d

/-- The root of the complete tree of height `k` over the level-`d` nodes `f`. -/
def treeRoot : Nat → Nat → (Nat → H) → H
  | 0, _, f => f 0
  | k + 1, d, f => treeRoot k (d + 1) (h.levelUp d f)

theorem treeRoot_congr : ∀ (k d : Nat) {f g : Nat → H}, (∀ i < 2 ^ k, f i = g i) → h.treeRoot k d f = h.treeRoot k d g
  | 0, _, _, _, hfg => hfg 0 (by simp)
  | k + 1, d, f, g, hfg => by
    apply treeRoot_congr k (d + 1)
    intro i hi
    unfold levelUp
    rw [hfg (2 * i) (by omega), hfg (2 * i + 1) (by omega)]

/-! ## Lists of leaves -/

/-- The leaves `xs`, then empty leaves. -/
def padded (e : H) (xs : List H) : Nat → H := fun i => xs.getD i e

theorem padded_append_empty (e : H) (xs : List H) : padded e (xs ++ [e]) = padded e xs := by
  funext i
  unfold padded
  rcases Nat.lt_trichotomy i xs.length with hi | rfl | hi
  · rw [List.getD_append _ _ _ _ hi]
  · simp
  · rw [List.getD_eq_default _ _ (by simp; omega), List.getD_eq_default _ _ (by omega)]

def pairUp (d : Nat) : List H → List H
  | a :: b :: xs => h.combine a b d :: pairUp d xs
  | _ => []

theorem pairUp_append (d : Nat) (a b : H) : ∀ {xs : List H}, xs.length % 2 = 0 →
    h.pairUp d (xs ++ [a, b]) = h.pairUp d xs ++ [h.combine a b d]
  | [], _ => rfl
  | [_], hlen => by simp at hlen
  | x :: y :: xs, hlen => by
    have hlen' : xs.length % 2 = 0 := by simp only [List.length_cons] at hlen; omega
    simp only [List.cons_append, pairUp, pairUp_append d a b hlen']

theorem levelUp_padded {d : Nat} (hd : h.combine (h.emptyRoot d) (h.emptyRoot d) d = h.emptyRoot (d + 1)) :
    ∀ {xs : List H}, xs.length % 2 = 0 →
      h.levelUp d (padded (h.emptyRoot d) xs) = padded (h.emptyRoot (d + 1)) (h.pairUp d xs)
  | [], _ => by
    funext i
    simpa [levelUp, padded, pairUp] using hd
  | [_], hlen => by simp at hlen
  | x :: y :: xs, hlen => by
    have hlen' : xs.length % 2 = 0 := by simp only [List.length_cons] at hlen; omega
    have ih := levelUp_padded hd hlen'
    funext i
    cases i with
    | zero => rfl
    | succ i => exact congrFun ih i

/-! ## Incremental trees -/

/-- `ps` holds, for the level-`d` nodes `ys`, the roots of the left subtrees that a further node will
    be hashed with: the last node if there is an odd number of them, and so on for their pairs. -/
def Frontier : Nat → List (Option H) → List H → Prop
  | _, [], ys => ys = []
  | d, none :: ps, ys => ys.length % 2 = 0 ∧ Frontier (d + 1) ps (h.pairUp d ys)
  | d, some p :: ps, ys =>
    ∃ zs, ys = zs ++ [p] ∧ zs.length % 2 = 0 ∧ Frontier (d + 1) ps (h.pairUp d zs)

/-- Adds a level-`d` node: full levels are hashed together and moved up. -/
def carry : Nat → List (Option H) → H → List (Option H)
  | _, [], x => [some x]
  | _, none :: ps, x => some x :: ps
  | d, some p :: ps, x => none :: carry (d + 1) ps (h.combine p x d)

theorem Frontier.carry : ∀ {d : Nat} {ps : List (Option H)} {ys : List H} (x : H),
    h.Frontier d ps ys → h.Frontier d (h.carry d ps x) (ys ++ [x])
  | _, [], _, _, hps => by
    cases hps
    exact ⟨[], rfl, rfl, rfl⟩
  | _, none :: _, ys, _, ⟨hlen, hps⟩ => ⟨ys, rfl, hlen, hps⟩
  | d, some p :: ps, _, x, ⟨zs, hys, hlen, hps⟩ => by
    subst hys
    refine ⟨by simp; omega, ?_⟩
    rw [List.append_assoc, List.singleton_append, h.pairUp_append d p x hlen]
    exact Frontier.carry (h.combine p x d) hps

/-- The root over a frontier whose next node is `r`: `k` levels, starting at depth `d`. -/
def frontierRoot : Nat → Nat → List (Option H) → H → H
  | 0, _, _, r => r
  | k + 1, d, [], r => frontierRoot k (d + 1) [] (h.combine r (h.emptyRoot d) d)
  | k + 1, d, none :: ps, r => frontierRoot k (d + 1) ps (h.combine r (h.emptyRoot d) d)
  | k + 1, d, some p :: ps, r => frontierRoot k (d + 1) ps (h.combine p r d)

theorem treeRoot_padded_pair {k d D : Nat} (hD : h.EmptyLaw D) (hk : d + (k + 1) ≤ D) {xs : List H}
    (hlen : xs.length % 2 = 0) (a b : H) :
    h.treeRoot (k + 1) d (padded (h.emptyRoot d) (xs ++ [a, b])) =
      h.treeRoot k (d + 1) (padded (h.emptyRoot (d + 1)) (h.pairUp d xs ++ [h.combine a b d])) := by
  show h.treeRoot k (d + 1) (h.levelUp d _) = _
  rw [h.levelUp_padded (hD d (by omega)) (by simp; omega), h.pairUp_append d a b hlen]

/-- **The root of a frontier is the root of the complete tree.** -/
theorem Frontier.root {D : Nat} (hD : h.EmptyLaw D) :
    ∀ {k d : Nat} {ps : List (Option H)} {ys : List H} (r : H), d + k ≤ D → ps.length ≤ k → h.Frontier d ps ys →
      h.frontierRoot k d ps r = h.treeRoot k d (padded (h.emptyRoot d) (ys ++ [r]))
  | 0, _, [], _, r, _, _, hps => by
    cases hps
    rfl
  | k + 1, d, [], _, r, hk, _, hps => by
    cases hps
    rw [← padded_append_empty, List.append_assoc, List.singleton_append,
      h.treeRoot_padded_pair hD hk rfl r (h.emptyRoot d)]
    have hnil : h.Frontier (d + 1) [] [] := rfl
    exact Frontier.root hD _ (by omega) (Nat.zero_le k) hnil
  | k + 1, d, none :: ps, ys, r, hk, hlen, ⟨heven, hps⟩ => by
    rw [← padded_append_empty, List.append_assoc, List.singleton_append,
      h.treeRoot_padded_pair hD hk heven r (h.emptyRoot d)]
    exact Frontier.root hD _ (by omega) (by simpa using hlen) hps
  | k + 1, d, some p :: ps, _, r, hk, hlen, ⟨zs, hys, heven, hps⟩ => by
    subst hys
    rw [List.append_assoc, List.singleton_append, h.treeRoot_padded_pair hD hk heven p r]
    exact Frontier.root hD _ (by omega) (by simpa using hlen) hps

end MerkleHash

end KrovaCoin.Lib
