import KrovaCoin.Lib.MerkleLevels

/-!
# Parts of a binary tree, depth first

A part of a tree of `Lib.MerkleLevels` is written as flags and hashes in depth-first order: a cleared
flag ends a branch with its hash, a set one goes on below it or marks a leaf.

Principal results: `Shows.sublist_below`, `Repeats.exists_shows`.
-/

namespace KrovaCoin.Lib.MerkleLevels

variable {H : Type} (hash : H → H → H)

/-- Flags and hashes that show the node `j` at level `l` of a tree over `m` leaves, its value and the
marked leaves. -/
inductive Shows (m : Nat) : Nat → Nat → H → List Bool → List H → List H → Prop
  | leaf (j : Nat) (flag : Bool) (x : H) : Shows m 0 j x [flag] [x] (if flag then [x] else [])
  | pruned (l j : Nat) (x : H) : Shows m (l + 1) j x [false] [x] []
  | fork {l j : Nat} {v w : H} {fs gs : List Bool} {xs ys as bs : List H}
      (left : Shows m l (2 * j) v fs xs as) (inside : (2 * j + 1) * 2 ^ l < m)
      (right : Shows m l (2 * j + 1) w gs ys bs) :
      Shows m (l + 1) j (hash v w) (true :: (fs ++ gs)) (xs ++ ys) (as ++ bs)
  | last {l j : Nat} {v : H} {fs : List Bool} {xs as : List H}
      (left : Shows m l (2 * j) v fs xs as) (outside : m ≤ (2 * j + 1) * 2 ^ l) :
      Shows m (l + 1) j (hash v v) (true :: fs) xs as

variable {hash} {m n l j : Nat} {v : H} {fs : List Bool} {xs as : List H} {f : Nat → H} {p : Nat → Bool}

theorem mul_two_pow_succ (j l : Nat) : j * 2 ^ (l + 1) = 2 * j * 2 ^ l := by ring

theorem succ_mul_two_pow (j l : Nat) : (2 * j + 1) * 2 ^ l = 2 * j * 2 ^ l + 2 ^ l := by ring

theorem Shows.length_le (h : Shows hash m l j v fs xs as) : xs.length ≤ fs.length := by
  induction h with
  | leaf | pruned => simp
  | fork left inside right ihl ihr =>
    simp only [List.length_append, List.length_cons]
    omega
  | last left outside ih =>
    rw [List.length_cons]
    omega

theorem Shows.flags_lt (h : Shows hash m l j v fs xs as) : fs.length < 2 ^ (l + 1) := by
  induction h with
  | leaf => simp
  | pruned l => simp
  | @fork l j v w fs gs xs ys as bs left inside right ihl ihr =>
    rw [List.length_cons, List.length_append, Nat.pow_succ]
    omega
  | @last l j v fs xs as left outside ih =>
    rw [List.length_cons, Nat.pow_succ]
    omega

theorem Shows.hashes_le (h : Shows hash m l j v fs xs as) (hj : j * 2 ^ l < m) :
    xs.length + j * 2 ^ l ≤ m ∧ xs.length ≤ 2 ^ l := by
  induction h with
  | leaf j flag x =>
    rw [List.length_singleton]
    omega
  | pruned l j x =>
    have := Nat.two_pow_pos (l + 1)
    rw [List.length_singleton]
    omega
  | @fork l j v w fs gs xs ys as bs left inside right ihl ihr =>
    rw [mul_two_pow_succ] at hj ⊢
    obtain ⟨hright, hright'⟩ := ihr inside
    rw [succ_mul_two_pow] at hright
    rw [List.length_append, Nat.pow_succ]
    omega
  | @last l j v fs xs as left outside ih =>
    rw [mul_two_pow_succ] at hj ⊢
    omega

/-! ## The leaves below a node -/

/-- The leaves below a node that satisfy `p`, in their order. -/
def leavesBelow (f : Nat → H) (p : Nat → Bool) (l j : Nat) : List H :=
  ((List.range' (j * 2 ^ l) (2 ^ l)).filter p).map f

theorem leavesBelow_zero : leavesBelow f p 0 j = if p j then [f j] else [] := by
  cases hp : p j <;> simp [leavesBelow, hp]

theorem leavesBelow_succ : leavesBelow f p (l + 1) j = leavesBelow f p l (2 * j) ++ leavesBelow f p l (2 * j + 1) := by
  rw [leavesBelow, leavesBelow, leavesBelow, mul_two_pow_succ, succ_mul_two_pow, Nat.pow_succ, Nat.mul_two,
    ← List.range'_append_1, List.filter_append, List.map_append]

theorem leavesBelow_eq_nil (h : ∀ i, j * 2 ^ l ≤ i → p i = false) : leavesBelow f p l j = [] := by
  rw [leavesBelow, List.map_eq_nil_iff, List.filter_eq_nil_iff]
  intro i hi
  rw [h i (List.mem_range'_1.mp hi).1]
  exact Bool.false_ne_true

theorem leavesBelow_root (hn : n ≤ 2 ^ l) (hp : ∀ i, p i = true → i < n) :
    leavesBelow f p l 0 = ((List.range n).filter p).map f := by
  obtain ⟨d, hd⟩ := Nat.exists_eq_add_of_le hn
  have hrest : (List.range' n d).filter p = [] := by
    rw [List.filter_eq_nil_iff]
    intro i hi hpi
    have := hp i hpi
    have := (List.mem_range'_1.mp hi).1
    omega
  have hsplit := List.range'_append_1 (s := 0) (m := n) (n := d)
  rw [Nat.zero_add] at hsplit
  rw [leavesBelow, Nat.zero_mul, hd, ← hsplit, List.filter_append, hrest, List.append_nil, List.range_eq_range']

/-! ## Shown values determine the leaves -/

/-- No other pair has the hash of a pair that is joined in the tree. -/
def UniquePreimages (hash : H → H → H) (f : Nat → H) (n : Nat) : Prop :=
  ∀ pair ∈ joined hash f n, ∀ a b, hash a b = hash pair.1 pair.2 → a = pair.1 ∧ b = pair.2

theorem UniquePreimages.children (hu : UniquePreimages hash f n) (hl : 2 ^ l < n) (hj : j * 2 ^ (l + 1) < n)
    {a b : H} (h : hash a b = node hash f n (l + 1) j) : a = node hash f n l (2 * j) ∧
      b = node hash f n l (if (2 * j + 1) * 2 ^ l < n then 2 * j + 1 else 2 * j) :=
  hu _ ⟨l, j, hl, hj, rfl⟩ a b h

theorem low_of_succ (h : l + 1 = 0 ∨ 2 ^ (l + 1 - 1) < n) : 2 ^ l < n ∧ (l = 0 ∨ 2 ^ (l - 1) < n) := by
  have hl : 2 ^ l < n := by simpa using h
  have hlow : 2 ^ (l - 1) ≤ 2 ^ l := Nat.pow_le_pow_right (by decide) (Nat.sub_le l 1)
  exact ⟨hl, .inr (by omega)⟩

theorem UniquePreimages.node_inj (hu : UniquePreimages hash f n)
    (hf : ∀ i < n, ∀ j < n, f i = f j → i = j) (hl : l = 0 ∨ 2 ^ (l - 1) < n) {i : Nat}
    (hi : i * 2 ^ l < n) (hj : j * 2 ^ l < n) (h : node hash f n l i = node hash f n l j) : i = j := by
  induction l generalizing i j with
  | zero => exact hf i (by simpa using hi) j (by simpa using hj) h
  | succ l ih =>
    obtain ⟨hl', hlow⟩ := low_of_succ hl
    obtain ⟨hleft, -⟩ := hu.children hl' hj h
    rw [mul_two_pow_succ] at hi hj
    have := ih hlow hi hj hleft
    omega

/-- The tree over `m` leaves has a node where the tree over `n` leaves repeats its neighbour, and the
leftmost path below the node is as long as the one below the neighbour. -/
def Repeats (n m : Nat) : Prop :=
  ∃ l j, j * 2 ^ (l + 1) < n ∧ n ≤ (2 * j + 1) * 2 ^ l ∧ (2 * j + 1) * 2 ^ l < m ∧
    ∀ d, 2 * j * 2 ^ l + 2 ^ d < n → (2 * j + 1) * 2 ^ l + 2 ^ d < m

section Sound

variable (hu : UniquePreimages hash f n) (hf : ∀ i < n, ∀ j < n, f i = f j → i = j)
include hu hf

theorem Shows.marks_eq_nil (h : Shows hash m l j v fs xs as) {q d : Nat} (hv : v = node hash f n l q)
    (hq : q * 2 ^ l < n) (hl : l = 0 ∨ 2 ^ (l - 1) < n) (hd : d < l) (hhas : q * 2 ^ l + 2 ^ d < n)
    (hlacks : m ≤ j * 2 ^ l + 2 ^ d) : as = [] := by
  induction h generalizing q with
  | leaf => omega
  | pruned => rfl
  | @fork l j v w fs gs xs ys as bs left inside right ihl ihr =>
    have hpow : 2 ^ d ≤ 2 ^ l := Nat.pow_le_pow_right (by decide) (by omega)
    rw [mul_two_pow_succ] at hlacks
    rw [succ_mul_two_pow] at inside
    omega
  | @last l j v fs xs as left outside ih =>
    obtain ⟨hl', hlow⟩ := low_of_succ hl
    obtain ⟨hleft, hright⟩ := hu.children hl' hq hv
    rw [mul_two_pow_succ] at hq hhas hlacks
    rcases Nat.lt_or_ge d l with hlt | hge
    · exact ih hleft hq hlow hlt hhas hlacks
    · -- the neighbours of the path would be equal
      obtain rfl : d = l := by omega
      rw [← succ_mul_two_pow] at hhas
      rw [if_pos hhas, hleft] at hright
      have := hu.node_inj hf hlow hq hhas hright
      omega

/-- **A shown node marks its own leaves in their order.** -/
theorem Shows.sublist_below (hrep : ¬ Repeats n m) (h : Shows hash m l j v fs xs as)
    (hv : v = node hash f n l j) (hj : j * 2 ^ l < n) (hl : l = 0 ∨ 2 ^ (l - 1) < n) :
    as.Sublist (leavesBelow f (fun i => decide (i < n)) l j) := by
  induction h with
  | leaf j flag x =>
    have hin : j < n := by simpa using hj
    rw [leavesBelow_zero, hv]
    cases flag <;> simp [node, hin]
  | pruned => exact List.nil_sublist _
  | @fork l j v w fs gs xs ys as bs left inside right ihl ihr =>
    obtain ⟨hl', hlow⟩ := low_of_succ hl
    obtain ⟨hleft, hright⟩ := hu.children hl' hj hv
    have hj' := hj
    rw [mul_two_pow_succ] at hj'
    rw [leavesBelow_succ]
    refine (ihl hleft hj' hlow).append ?_
    by_cases hin : (2 * j + 1) * 2 ^ l < n
    · rw [if_pos hin] at hright
      exact ihr hright hin hlow
    · rw [if_neg hin] at hright
      obtain ⟨d, hhas, hlacks⟩ : ∃ d, 2 * j * 2 ^ l + 2 ^ d < n ∧ m ≤ (2 * j + 1) * 2 ^ l + 2 ^ d := by
        by_contra hnone
        refine hrep ⟨l, j, hj, by omega, inside, fun d hd => ?_⟩
        by_contra hlt
        exact hnone ⟨d, hd, by omega⟩
      have hd : d < l := (Nat.pow_lt_pow_iff_right (a := 2) (by decide)).mp (by
        rw [succ_mul_two_pow] at hin
        omega)
      rw [right.marks_eq_nil hu hf hright hj' hlow hd hhas hlacks]
      exact List.nil_sublist _
  | @last l j v fs xs as left outside ih =>
    obtain ⟨hl', hlow⟩ := low_of_succ hl
    obtain ⟨hleft, -⟩ := hu.children hl' hj hv
    rw [mul_two_pow_succ] at hj
    rw [leavesBelow_succ, ← List.append_nil as]
    exact (ih hleft hj hlow).append (List.nil_sublist _)

end Sound

/-! ## Shown nodes -/

theorem exists_shows_plain (hash : H → H → H) (m l j : Nat) (v : H) : ∃ fs xs, Shows hash m l j v fs xs [] := by
  cases l with
  | zero => exact ⟨_, _, .leaf j false v⟩
  | succ l => exact ⟨_, _, .pruned l j v⟩

/-- The first leaf below the node `q` is marked in a proof written for the node `i`. -/
theorem exists_shows_first (hash : H → H → H) (f : Nat → H) {i q : Nat}
    (hpath : ∀ d < l, q * 2 ^ l + 2 ^ d < n → i * 2 ^ l + 2 ^ d < m) :
    ∃ fs xs, Shows hash m l i (node hash f n l q) fs xs [f (q * 2 ^ l)] := by
  induction l generalizing i q with
  | zero => exact ⟨_, _, by simpa [node] using Shows.leaf i true (f q)⟩
  | succ l ih =>
    simp only [mul_two_pow_succ] at hpath ⊢
    obtain ⟨fs, xs, hleft⟩ := ih (i := 2 * i) (q := 2 * q) fun d hd => hpath d (by omega)
    by_cases hin : (2 * i + 1) * 2 ^ l < m
    · obtain ⟨gs, ys, hright⟩ := exists_shows_plain hash m l (2 * i + 1)
        (node hash f n l (if (2 * q + 1) * 2 ^ l < n then 2 * q + 1 else 2 * q))
      exact ⟨_, _, hleft.fork hin hright⟩
    · have hout : n ≤ (2 * q + 1) * 2 ^ l := by
        have := hpath l (Nat.lt_succ_self l)
        rw [succ_mul_two_pow] at hin ⊢
        omega
      rw [node_succ_last hash f hout]
      exact ⟨_, _, hleft.last (by omega)⟩

theorem Shows.exists_root (hnm : n ≤ m) {k d : Nat} (hk : l + d = k) (hn : n ≤ 2 ^ k) (hj : j * 2 ^ l < n)
    (h : Shows hash m l j (node hash f n l j) fs xs as) : ∃ fs xs, Shows hash m k 0 (node hash f n k 0) fs xs as := by
  induction d generalizing l j fs xs with
  | zero =>
    obtain rfl : l = k := by omega
    obtain rfl : j = 0 := by
      rcases Nat.eq_zero_or_pos j with h0 | hpos
      · exact h0
      · have := Nat.le_mul_of_pos_left (2 ^ l) hpos
        omega
    exact ⟨fs, xs, h⟩
  | succ d ih =>
    obtain ⟨a, rfl | rfl⟩ : ∃ a, j = 2 * a ∨ j = 2 * a + 1 := ⟨j / 2, by omega⟩
    · rw [← mul_two_pow_succ] at hj
      by_cases hin : (2 * a + 1) * 2 ^ l < m
      · obtain ⟨gs, ys, hright⟩ := exists_shows_plain hash m l (2 * a + 1)
          (node hash f n l (if (2 * a + 1) * 2 ^ l < n then 2 * a + 1 else 2 * a))
        have hup := h.fork hin hright
        rw [List.append_nil] at hup
        exact ih (by omega) hj hup
      · have hup := h.last (by omega)
        rw [← node_succ_last hash f (by omega)] at hup
        exact ih (by omega) hj hup
    · obtain ⟨gs, ys, hleft⟩ := exists_shows_plain hash m l (2 * a) (node hash f n l (2 * a))
      have hup := hleft.fork (by omega) h
      rw [← node_succ_pair hash f hj, List.nil_append] at hup
      refine ih (by omega) ?_ hup
      rw [mul_two_pow_succ]
      exact Nat.lt_of_le_of_lt (Nat.mul_le_mul_right _ (Nat.le_succ _)) hj

/-- **A repeated node lets a leaf be marked twice.** -/
theorem Repeats.exists_shows (h : Repeats n m) (hash : H → H → H) (f : Nat → H) {k : Nat} (hm : m ≤ 2 ^ k) :
    ∃ fs xs i, i < n ∧ Shows hash m k 0 (node hash f n k 0) fs xs [f i, f i] := by
  obtain ⟨l, j, hj, hout, hin, hpath⟩ := h
  obtain ⟨fs, xs, hleft⟩ := exists_shows_first hash f (n := n) (m := m) (l := l) (i := 2 * j) (q := 2 * j)
    fun d _ hd => by omega
  obtain ⟨gs, ys, hright⟩ := exists_shows_first hash f (i := 2 * j + 1) (q := 2 * j) fun d _ => hpath d
  have hup := hleft.fork hin hright
  rw [← node_succ_last hash f hout] at hup
  have hlk : l < k := (Nat.pow_lt_pow_iff_right (a := 2) (by decide)).mp (by
    rw [succ_mul_two_pow] at hin
    omega)
  obtain ⟨fs', xs', hroot⟩ := hup.exists_root (by omega) (k := k) (d := k - (l + 1)) (by omega) (by omega) hj
  rw [mul_two_pow_succ] at hj
  exact ⟨fs', xs', 2 * j * 2 ^ l, hj, hroot⟩

end KrovaCoin.Lib.MerkleLevels
