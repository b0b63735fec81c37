import Mathlib

/-!
# Forests given by parents

A forest is a partial function to the parent, with a height that counts the steps to the root.

Principal results: `Meets.of_first` — from nodes of one height, the first place where two walks meet.
`Meets.of_ancestor` — the walks may start at an ancestor.
-/

namespace KrovaCoin.Lib

variable {α : Type} (parent : α → Option α)

/-- `n` steps towards the root. -/
def walkUp : Nat → α → Option α
  | 0, a => some a
  | n + 1, a => (parent a).bind (walkUp n)

/-- `c` lies on the way from `a` to its root. -/
def IsAncestor (c a : α) : Prop := ∃ n, walkUp parent n a = some c

/-- The height counts the steps to the root. -/
structure Graded (height : α → Nat) : Prop where
  step : ∀ {a b}, parent a = some b → height a = height b + 1
  root : ∀ {a}, parent a = none → height a = 0

/-- `c` is the deepest common ancestor of `a` and `b`. -/
structure Meets (height : α → Nat) (c a b : α) : Prop where
  left : IsAncestor parent c a
  right : IsAncestor parent c b
  deepest : ∀ d, IsAncestor parent d a → IsAncestor parent d b → height d ≤ height c

variable {parent}

theorem walkUp_add (m n : Nat) (a : α) : walkUp parent (m + n) a = (walkUp parent m a).bind (walkUp parent n) := by
  induction m generalizing a with
  | zero => rw [Nat.zero_add, walkUp, Option.bind_some]
  | succ m ih =>
    rw [Nat.succ_add, walkUp, walkUp]
    cases parent a with
    | none => rfl
    | some b => exact ih b

theorem walkUp_succ_of {n : Nat} {a b : α} (h : walkUp parent n a = some b) : walkUp parent (n + 1) a = parent b := by
  rw [walkUp_add, h, Option.bind_some, walkUp]
  cases parent b <;> rfl

namespace Graded

variable {height : α → Nat} (hg : Graded parent height)
include hg

theorem height_walkUp {n : Nat} {a b : α} (h : walkUp parent n a = some b) : height b + n = height a := by
  induction n generalizing a with
  | zero =>
    cases h
    rfl
  | succ n ih =>
    rw [walkUp, Option.bind_eq_some_iff] at h
    obtain ⟨c, hc, h⟩ := h
    have := ih h
    have := hg.step hc
    omega

theorem exists_walkUp {n : Nat} {a : α} (h : n ≤ height a) : ∃ b, walkUp parent n a = some b := by
  induction n generalizing a with
  | zero => exact ⟨a, rfl⟩
  | succ n ih =>
    rw [walkUp]
    cases hp : parent a with
    | none => exact absurd (hg.root hp) (by omega)
    | some b => exact ih (by have := hg.step hp; omega)

theorem walkUp_of_isAncestor {c a : α} (h : IsAncestor parent c a) :
    height c ≤ height a ∧ walkUp parent (height a - height c) a = some c := by
  obtain ⟨n, hn⟩ := h
  have := hg.height_walkUp hn
  exact ⟨by omega, by rw [show height a - height c = n by omega, hn]⟩

theorem isAncestor_of_le {d a' a : α} (hd : IsAncestor parent d a) (ha : IsAncestor parent a' a)
    (hle : height d ≤ height a') : IsAncestor parent d a' := by
  obtain ⟨hda, hd⟩ := hg.walkUp_of_isAncestor hd
  obtain ⟨haa, ha⟩ := hg.walkUp_of_isAncestor ha
  refine ⟨height a' - height d, ?_⟩
  rw [show height a - height d = (height a - height a') + (height a' - height d) by omega, walkUp_add, ha] at hd
  exact hd

end Graded

variable {height : α → Nat} {a b c : α}

theorem Meets.of_first (hg : Graded parent height) {k : Nat} (hk : walkUp parent k a = some c) (hc : IsAncestor parent c b)
    (hfirst : ∀ j d, j < k → walkUp parent j a = some d → ¬ IsAncestor parent d b) : Meets parent height c a b := by
  refine ⟨⟨k, hk⟩, hc, fun d ⟨j, hj⟩ hdb => ?_⟩
  have h1 := hg.height_walkUp hk
  have h2 := hg.height_walkUp hj
  exact Nat.le_of_not_lt fun hlt => hfirst j d (by omega) hj hdb

theorem Meets.of_ancestor (hg : Graded parent height) {a' : α} (ha : IsAncestor parent a' a)
    (hheight : height b ≤ height a') (h : Meets parent height c a' b) : Meets parent height c a b := by
  have hle : ∀ d, IsAncestor parent d a → IsAncestor parent d b → IsAncestor parent d a' := fun d hda hdb =>
    hg.isAncestor_of_le hda ha (Nat.le_trans (hg.walkUp_of_isAncestor hdb).1 hheight)
  refine ⟨?_, h.right, fun d hda hdb => h.deepest d (hle d hda hdb) hdb⟩
  obtain ⟨m, hm⟩ := ha
  obtain ⟨n, hn⟩ := h.left
  exact ⟨m + n, by rw [walkUp_add, hm]; exact hn⟩

theorem Meets.symm (h : Meets parent height c a b) : Meets parent height c b a :=
  ⟨h.right, h.left, fun d hdb hda => h.deepest d hda hdb⟩

end KrovaCoin.Lib
