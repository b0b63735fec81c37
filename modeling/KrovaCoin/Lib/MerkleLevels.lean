import Mathlib

/-!
# Binary trees level by level, an odd level completed by its last node

A list of leaves is reduced level by level: neighbours are joined, and the last node of an odd level is joined with
itself. The same tree is described by node and index.

Principal results: `levelRoot_eq_node`, `rootFromSiblings_siblings`, `exists_equal_pair`.
-/

namespace KrovaCoin.Lib.MerkleLevels

variable {H : Type} (hash : H → H → H)

/-! ## Levels as lists -/

def nextLevel : List H → List H
  | [] => []
  | [a] => [hash a a]
  | a :: b :: xs => hash a b :: nextLevel xs

theorem length_nextLevel (xs : List H) : (nextLevel hash xs).length = (xs.length + 1) / 2 := by
  fun_induction nextLevel hash xs with
  | case1 => simp
  | case2 a => simp
  | case3 a b xs ih =>
    simp only [List.length_cons, ih]
    omega

/-- The root of the tree over `xs`; no leaves give `zero`. -/
def levelRoot (zero : H) : List H → H
  | [] => zero
  | [a] => a
  | a :: b :: xs => levelRoot zero (nextLevel hash (a :: b :: xs))
termination_by xs => xs.length
decreasing_by
  rw [length_nextLevel]
  simp only [List.length_cons]
  omega

/-- How many levels the tree over `n` leaves has, the leaves and the root included. -/
def levels (n : Nat) : Nat := if n = 0 then 0 else Nat.clog 2 n + 1

/-! ## Nodes by level and index -/

/-- The node `j` at level `l` of the tree over the leaves `f 0, …, f (n - 1)`. -/
def node (f : Nat → H) (n : Nat) : Nat → Nat → H
  | 0, j => f j
  | l + 1, j =>
    hash (node f n l (2 * j)) (node f n l (if (2 * j + 1) * 2 ^ l < n then 2 * j + 1 else 2 * j))

/-- The node `j` at level `l` over leaves without an end. -/
def complete (f : Nat → H) : Nat → Nat → H
  | 0, j => f j
  | l + 1, j => hash (complete f l (2 * j)) (complete f l (2 * j + 1))

variable {n : Nat}

variable {l j : Nat}

theorem node_succ_pair (f : Nat → H) (h : (2 * j + 1) * 2 ^ l < n) :
    node hash f n (l + 1) j = hash (node hash f n l (2 * j)) (node hash f n l (2 * j + 1)) := by
  rw [node, if_pos h]

theorem node_succ_last (f : Nat → H) (h : n ≤ (2 * j + 1) * 2 ^ l) :
    node hash f n (l + 1) j = hash (node hash f n l (2 * j)) (node hash f n l (2 * j)) := by
  rw [node, if_neg (Nat.not_lt.mpr h)]

theorem node_eq_complete (f : Nat → H) (h : (j + 1) * 2 ^ l ≤ n) : node hash f n l j = complete hash f l j := by
  induction l generalizing j with
  | zero => rfl
  | succ l ih =>
    have hpos : 0 < 2 ^ l := Nat.two_pow_pos l
    have hsplit : (j + 1) * 2 ^ (l + 1) = (2 * j + 1) * 2 ^ l + 2 ^ l := by ring
    have hright : (2 * j + 1 + 1) * 2 ^ l = (2 * j + 1) * 2 ^ l + 2 ^ l := by ring
    rw [node_succ_pair hash f (by omega), ih (by omega), ih (by omega), complete]

variable {f g : Nat → H}

theorem node_congr (hfg : ∀ i, i < n → f i = g i) (h : j * 2 ^ l < n) : node hash f n l j = node hash g n l j := by
  induction l generalizing j with
  | zero => exact hfg j (by simpa using h)
  | succ l ih =>
    have hleft : 2 * j * 2 ^ l < n := by
      have : j * 2 ^ (l + 1) = 2 * j * 2 ^ l := by ring
      omega
    by_cases hr : (2 * j + 1) * 2 ^ l < n
    · rw [node_succ_pair hash f hr, node_succ_pair hash g hr, ih hleft, ih hr]
    · rw [node_succ_last hash f (by omega), node_succ_last hash g (by omega), ih hleft]

theorem node_shift (f : Nat → H) (n l j : Nat) :
    node hash (node hash f n 1) ((n + 1) / 2) l j = node hash f n (l + 1) j := by
  induction l generalizing j with
  | zero => rfl
  | succ l ih =>
    have hiff : (2 * j + 1) * 2 ^ l < (n + 1) / 2 ↔ (2 * j + 1) * 2 ^ (l + 1) < n := by
      have : (2 * j + 1) * 2 ^ (l + 1) = 2 * ((2 * j + 1) * 2 ^ l) := by ring
      omega
    by_cases hr : (2 * j + 1) * 2 ^ (l + 1) < n
    · rw [node_succ_pair hash _ (hiff.mpr hr), node_succ_pair hash f hr, ih, ih]
    · rw [node_succ_last hash _ (Nat.not_lt.mp (mt hiff.mp hr)),
        node_succ_last hash f (Nat.not_lt.mp hr), ih]

/-- The leaves of a list by number. -/
def leafOf (zero : H) (xs : List H) (i : Nat) : H := xs.getD i zero

theorem leafOf_nextLevel (zero : H) (xs : List H) (h : j < (xs.length + 1) / 2) :
    leafOf zero (nextLevel hash xs) j = node hash (leafOf zero xs) xs.length 1 j := by
  fun_induction nextLevel hash xs generalizing j with
  | case1 => simp at h
  | case2 a =>
    have hj : j = 0 := by simp at h; omega
    subst hj
    rfl
  | case3 a b xs ih =>
    cases j with
    | zero => simp [node, leafOf]
    | succ j =>
      have hj : j < (xs.length + 1) / 2 := by
        simp only [List.length_cons] at h
        omega
      have hshift : ∀ i, leafOf zero (a :: b :: xs) (i + 2) = leafOf zero xs i := fun i => by
        simp [leafOf]
      have hgoal : leafOf zero (hash a b :: nextLevel hash xs) (j + 1)
          = leafOf zero (nextLevel hash xs) j := by simp [leafOf]
      rw [hgoal, ih hj]
      simp only [node, pow_zero, mul_one, List.length_cons, Nat.mul_add, mul_one]
      congr 1
      by_cases hr : 2 * j + 1 < xs.length
      · rw [if_pos hr, if_pos (by omega), show 2 * j + 2 + 1 = 2 * j + 1 + 2 from rfl, hshift]
      · rw [if_neg hr, if_neg (by omega), hshift]

variable {k : Nat}

/-- The recursion over levels ends at the only node of the first level that has one. -/
theorem levelRoot_eq_node (zero : H) (xs : List H) (hle : xs.length ≤ 2 ^ k) (hne : xs ≠ [])
    (hlow : k = 0 ∨ 2 ^ (k - 1) < xs.length) : levelRoot hash zero xs = node hash (leafOf zero xs) xs.length k 0 := by
  fun_induction levelRoot hash zero xs generalizing k with
  | case1 => exact absurd rfl hne
  | case2 a =>
    have hk : k = 0 := by
      rcases hlow with rfl | hlow
      · rfl
      · simp at hlow
    subst hk
    rfl
  | case3 a b xs ih =>
    obtain ⟨k, rfl⟩ : ∃ k', k = k' + 1 := by
      cases k with
      | zero => simp at hle
      | succ k => exact ⟨k, rfl⟩
    set ys := a :: b :: xs with hys
    have hlen := length_nextLevel hash ys
    have hys2 : 2 ≤ ys.length := by simp [hys]
    have hne' : nextLevel hash ys ≠ [] := by
      intro h
      rw [h, List.length_nil] at hlen
      omega
    have hlow' : k = 0 ∨ 2 ^ (k - 1) < (nextLevel hash ys).length := by
      rcases Nat.eq_zero_or_pos k with hk | hk
      · exact .inl hk
      · right
        have hk2 : 2 ^ k = 2 * 2 ^ (k - 1) := by
          rw [← Nat.pow_succ', Nat.succ_eq_add_one, Nat.sub_add_cancel hk]
        have hlow'' : 2 ^ k < ys.length := by simpa using hlow
        omega
    rw [ih (by omega) hne' hlow', hlen]
    calc node hash (leafOf zero (nextLevel hash ys)) ((ys.length + 1) / 2) k 0
        = node hash (node hash (leafOf zero ys) ys.length 1) ((ys.length + 1) / 2) k 0 :=
          node_congr hash (fun i hi => leafOf_nextLevel hash zero ys hi) (by omega)
      _ = node hash (leafOf zero ys) ys.length (k + 1) 0 := node_shift hash _ _ k 0

/-! ## Paths and their siblings -/

/-- The node that the ancestor of leaf `i` at level `l` is joined with. -/
def siblingIndex (n i l : Nat) : Nat :=
  if i / 2 ^ l % 2 = 1 then i / 2 ^ l - 1
  else if (i / 2 ^ l + 1) * 2 ^ l < n then i / 2 ^ l + 1
  else i / 2 ^ l

/-- The siblings of leaf `i` at the `k` lowest levels. -/
def siblings (f : Nat → H) (n i k : Nat) : List H :=
  (List.range k).map fun l => node hash f n l (siblingIndex n i l)

@[simp] theorem siblings_zero (f : Nat → H) (n i : Nat) : siblings hash f n i 0 = [] := rfl

theorem siblings_succ (f : Nat → H) (n i k : Nat) : siblings hash f n i (k + 1)
      = siblings hash f n i k ++ [node hash f n k (siblingIndex n i k)] := by
  simp [siblings, List.range_succ]

@[simp] theorem length_siblings (f : Nat → H) (n i k : Nat) : (siblings hash f n i k).length = k := by
  simp [siblings]

/-- Joins `h`, the node with index `i`, with one sibling after the other. -/
def rootFromSiblings : H → List H → Nat → H
  | h, [], _ => h
  | h, b :: bs, i => rootFromSiblings (if i % 2 = 1 then hash b h else hash h b) bs (i / 2)

theorem rootFromSiblings_concat (h : H) (bs : List H) (b : H) (i : Nat) : rootFromSiblings hash h (bs ++ [b]) i
      = if i / 2 ^ bs.length % 2 = 1 then hash b (rootFromSiblings hash h bs i)
        else hash (rootFromSiblings hash h bs i) b := by
  induction bs generalizing h i with
  | nil => simp [rootFromSiblings]
  | cons a bs ih =>
    have hdiv : i / 2 / 2 ^ bs.length = i / 2 ^ (bs.length + 1) := by
      rw [Nat.div_div_eq_div_mul, Nat.pow_succ']
    rw [List.cons_append, rootFromSiblings, ih, hdiv, rootFromSiblings, List.length_cons]

variable {i : Nat}

theorem node_ancestor_succ (f : Nat → H) (hi : i < n) (l : Nat) : node hash f n (l + 1) (i / 2 ^ (l + 1))
      = if i / 2 ^ l % 2 = 1 then hash (node hash f n l (siblingIndex n i l)) (node hash f n l (i / 2 ^ l))
        else hash (node hash f n l (i / 2 ^ l)) (node hash f n l (siblingIndex n i l)) := by
  have hup : i / 2 ^ (l + 1) = i / 2 ^ l / 2 := by rw [Nat.div_div_eq_div_mul, Nat.pow_succ]
  have hin : i / 2 ^ l * 2 ^ l < n := Nat.lt_of_le_of_lt (Nat.div_mul_le_self i _) hi
  rw [hup, siblingIndex]
  generalize i / 2 ^ l = a at hin
  rcases Nat.mod_two_eq_zero_or_one a with ha | ha
  · rw [if_neg (by omega), if_neg (by omega), node, show 2 * (a / 2) = a by omega]
  · rw [if_pos ha, if_pos ha, node, show 2 * (a / 2) = a - 1 by omega,
      show a - 1 + 1 = a by omega, if_pos hin]

/-- **A path.** Joining a leaf with its siblings gives its ancestor. -/
theorem rootFromSiblings_siblings (f : Nat → H) (hi : i < n) (k : Nat) :
    rootFromSiblings hash (f i) (siblings hash f n i k) i = node hash f n k (i / 2 ^ k) := by
  induction k with
  | zero => simp [rootFromSiblings, node]
  | succ k ih =>
    rw [siblings_succ, rootFromSiblings_concat, length_siblings, ih, node_ancestor_succ hash f hi]

/-! ## Equal neighbours -/

/-- The pairs that are joined in the tree over `n` leaves. -/
def joined (f : Nat → H) (n : Nat) : Set (H × H) :=
  {p | ∃ l j, 2 ^ l < n ∧ j * 2 ^ (l + 1) < n ∧
    p = (node hash f n l (2 * j),
      node hash f n l (if (2 * j + 1) * 2 ^ l < n then 2 * j + 1 else 2 * j))}

/-- Two neighbours that are joined and of which all leaves exist are equal. -/
def EqualPair (f : Nat → H) (n : Nat) : Prop :=
  ∃ l j, (2 * j + 2) * 2 ^ l ≤ n ∧ complete hash f l (2 * j) = complete hash f l (2 * j + 1)

/-- No two different joined pairs have the same hash. -/
def NoCollision (S : Set (H × H)) : Prop := Set.InjOn (fun p => hash p.1 p.2) S

variable {hash}

variable {m : Nat}

theorem NoCollision.children {S : Set (H × H)} (hS : NoCollision hash S) (hf : joined hash f n ⊆ S)
    (hg : joined hash g m ⊆ S) (hln : 2 ^ l < n) (hlm : 2 ^ l < m) (hi : i * 2 ^ (l + 1) < n)
    (hj : j * 2 ^ (l + 1) < m) (h : node hash f n (l + 1) i = node hash g m (l + 1) j) :
    node hash f n l (2 * i) = node hash g m l (2 * j) ∧
      node hash f n l (if (2 * i + 1) * 2 ^ l < n then 2 * i + 1 else 2 * i)
        = node hash g m l (if (2 * j + 1) * 2 ^ l < m then 2 * j + 1 else 2 * j) := by
  have hpair := hS (hf ⟨l, i, hln, hi, rfl⟩) (hg ⟨l, j, hlm, hj, rfl⟩) h
  exact ⟨congrArg Prod.fst hpair, congrArg Prod.snd hpair⟩

/-- A last node without all its leaves repeats a node below it; a complete node equal to it has
the repetition among its own complete nodes. -/
theorem EqualPair.of_incomplete (hS : NoCollision hash (joined hash f n)) (hi : (i + 1) * 2 ^ l ≤ n)
    (hj : j * 2 ^ l < n) (hlast : n < (j + 1) * 2 ^ l) (h : node hash f n l i = node hash f n l j) :
    EqualPair hash f n := by
  induction l generalizing i j with
  | zero => omega
  | succ l ih =>
    have hpos : 0 < 2 ^ l := Nat.two_pow_pos l
    have hi2 : (i + 1) * 2 ^ (l + 1) = (2 * i + 1 + 1) * 2 ^ l := by ring
    have hi2' : (2 * i + 1 + 1) * 2 ^ l = (2 * i + 1) * 2 ^ l + 2 ^ l := by ring
    have hi1 : (2 * i + 1) * 2 ^ l = i * 2 ^ (l + 1) + 2 ^ l := by ring
    have hj2 : (j + 1) * 2 ^ (l + 1) = (2 * j + 1 + 1) * 2 ^ l := by ring
    obtain ⟨hleft, hright⟩ := hS.children subset_rfl subset_rfl (by omega) (by omega) (by omega)
      hj h
    rw [if_pos (by omega)] at hright
    by_cases hr : (2 * j + 1) * 2 ^ l < n
    · rw [if_pos hr] at hright
      exact ih (i := 2 * i + 1) (by omega) hr (by omega) hright
    · rw [if_neg hr, ← hleft] at hright
      refine ⟨l, i, hi2 ▸ hi, ?_⟩
      rw [← node_eq_complete hash f (n := n) (by omega),
        ← node_eq_complete hash f (n := n) (by omega), hright]

theorem nodes_agree (hS : NoCollision hash (joined hash f n ∪ joined hash g m)) (hn : k = 0 ∨ 2 ^ (k - 1) < n)
    (hm : k = 0 ∨ 2 ^ (k - 1) < m) (hnk : n ≤ 2 ^ k) (hroot : node hash f n k 0 = node hash g m k 0) {d : Nat}
    (hd : l + d = k) (hjn : j * 2 ^ l < n) (hjm : j * 2 ^ l < m) : node hash f n l j = node hash g m l j := by
  induction d generalizing l j with
  | zero =>
    obtain rfl : l = k := by omega
    have hj : j = 0 := by
      rcases Nat.eq_zero_or_pos j with hj | hj
      · exact hj
      · have := Nat.le_mul_of_pos_left (2 ^ l) hj
        omega
    rw [hj, hroot]
  | succ d ih =>
    have hlk : 2 ^ l ≤ 2 ^ (k - 1) := Nat.pow_le_pow_right (by omega) (by omega)
    have hpar : j / 2 * 2 ^ (l + 1) ≤ j * 2 ^ l := by
      calc j / 2 * 2 ^ (l + 1) = j / 2 * 2 * 2 ^ l := by ring
        _ ≤ j * 2 ^ l := Nat.mul_le_mul_right _ (Nat.div_mul_le_self j 2)
    obtain ⟨hleft, hright⟩ := hS.children Set.subset_union_left Set.subset_union_right
      (by omega) (by omega) (by omega) (by omega) (ih (l := l + 1) (j := j / 2) (by omega)
        (by omega) (by omega))
    rcases Nat.mod_two_eq_zero_or_one j with hj | hj
    · rwa [show 2 * (j / 2) = j by omega] at hleft
    · rwa [show 2 * (j / 2) + 1 = j by omega, if_pos hjn, if_pos hjm] at hright

/-- Of two trees of one height, the larger one has somewhere a right neighbour where the smaller
one repeats the left one. -/
theorem exists_extra_node (hnm : n < m) (hn : 0 < n) (hmk : m ≤ 2 ^ k) :
    ∃ l j, l < k ∧ j * 2 ^ (l + 1) < n ∧ n ≤ (2 * j + 1) * 2 ^ l ∧ (2 * j + 1) * 2 ^ l < m := by
  classical
  have htop : ∃ l, ∀ j, j * 2 ^ l < n ↔ j * 2 ^ l < m := by
    refine ⟨k, fun j => ?_⟩
    rcases Nat.eq_zero_or_pos j with rfl | hj
    · omega
    · have := Nat.le_mul_of_pos_left (2 ^ k) hj
      omega
  -- the lowest level at which both trees have as many nodes
  obtain ⟨hsame, hmin⟩ := And.intro (Nat.find_spec htop) (fun {l} => Nat.find_min htop (m := l))
  obtain ⟨l, hl⟩ : ∃ l, Nat.find htop = l + 1 := by
    refine Nat.exists_eq_succ_of_ne_zero fun h0 => ?_
    have := hsame n
    rw [h0] at this
    omega
  have hlk : l + 1 ≤ k := hl ▸ Nat.find_min' htop fun j => by
    rcases Nat.eq_zero_or_pos j with rfl | hj
    · omega
    · have := Nat.le_mul_of_pos_left (2 ^ k) hj
      omega
  rw [hl] at hsame hmin
  obtain ⟨j, hj⟩ := not_forall.mp (hmin (Nat.lt_succ_self l))
  have hjn : n ≤ j * 2 ^ l ∧ j * 2 ^ l < m := by omega
  have hodd : j % 2 = 1 := by
    rcases Nat.mod_two_eq_zero_or_one j with h | h
    · have hhalf := hsame (j / 2)
      have : j / 2 * 2 ^ (l + 1) = j * 2 ^ l := by
        rw [Nat.pow_succ', ← Nat.mul_assoc, show j / 2 * 2 = j by omega]
      omega
    · exact h
  refine ⟨l, j / 2, hlk, ?_, ?_, ?_⟩
  · refine (hsame (j / 2)).mpr ?_
    have : j / 2 * 2 ^ (l + 1) ≤ j * 2 ^ l := by
      rw [Nat.pow_succ', ← Nat.mul_assoc]
      exact Nat.mul_le_mul_right _ (by omega)
    omega
  · rw [show 2 * (j / 2) + 1 = j by omega]
    exact hjn.1
  · rw [show 2 * (j / 2) + 1 = j by omega]
    exact hjn.2

/-- Two trees of one height and one root but not of one size: the larger one has equal complete
neighbours. -/
theorem exists_equal_pair (hS : NoCollision hash (joined hash f n ∪ joined hash g m)) (hnm : n < m) (hn0 : 0 < n)
    (hn : k = 0 ∨ 2 ^ (k - 1) < n) (hmk : m ≤ 2 ^ k) (hroot : node hash f n k 0 = node hash g m k 0) :
    EqualPair hash g m := by
  obtain ⟨l, j, hlk, hjn, hlast, hjm⟩ := exists_extra_node hnm hn0 hmk
  have hlow : 2 ^ l ≤ 2 ^ (k - 1) := Nat.pow_le_pow_right (by omega) (by omega)
  have hup := nodes_agree hS hn (by omega) (by omega) hroot (d := k - (l + 1)) (by omega) hjn
    (by omega)
  obtain ⟨hleft, hright⟩ := hS.children Set.subset_union_left Set.subset_union_right
    (by omega) (by omega) hjn (by omega) hup
  rw [if_neg (by omega), if_pos hjm, hleft] at hright
  by_cases hfull : (2 * j + 1 + 1) * 2 ^ l ≤ m
  · refine ⟨l, j, hfull, ?_⟩
    rw [← node_eq_complete hash g (n := m) (by omega),
      ← node_eq_complete hash g (n := m) hfull, hright]
  · exact EqualPair.of_incomplete (hS.mono Set.subset_union_right) (by omega) hjm (by omega) hright

theorem levels_eq_succ (h : levels n = k + 1) : 0 < n ∧ n ≤ 2 ^ k ∧ (k = 0 ∨ 2 ^ (k - 1) < n) := by
  rcases Nat.eq_zero_or_pos n with rfl | hn
  · simp [levels] at h
  · rw [levels, if_neg (by omega), Nat.add_right_cancel_iff] at h
    subst h
    refine ⟨hn, Nat.le_pow_clog (by omega) n, ?_⟩
    by_cases h1 : n = 1
    · exact .inl (by simp [h1])
    · exact .inr (Nat.pow_pred_clog_lt_self (by omega) (by omega))

/-- **Different lists, one root.**  Two lists with as many levels and the same root are equal, or
one of them has two equal complete neighbours. -/
theorem eq_or_equalPair {zero : H} {xs ys : List H}
    (hS : NoCollision hash (joined hash (leafOf zero xs) xs.length ∪ joined hash (leafOf zero ys) ys.length))
    (hlev : levels xs.length = levels ys.length) (hroot : levelRoot hash zero xs = levelRoot hash zero ys) :
    xs = ys ∨ EqualPair hash (leafOf zero xs) xs.length ∨ EqualPair hash (leafOf zero ys) ys.length := by
  cases hk : levels xs.length with
  | zero =>
    have hnil : ∀ zs : List H, levels zs.length = 0 → zs = [] := fun zs h => by
      simpa [levels] using h
    exact .inl ((hnil xs hk).trans (hnil ys (hlev ▸ hk)).symm)
  | succ k =>
    obtain ⟨hx0, hxk, hxlow⟩ := levels_eq_succ hk
    obtain ⟨hy0, hyk, hylow⟩ := levels_eq_succ (hlev ▸ hk)
    rw [levelRoot_eq_node hash zero xs hxk (List.ne_nil_of_length_pos hx0) hxlow,
      levelRoot_eq_node hash zero ys hyk (List.ne_nil_of_length_pos hy0) hylow] at hroot
    rcases Nat.lt_trichotomy xs.length ys.length with hlt | heq | hgt
    · exact .inr (.inr (exists_equal_pair hS hlt hx0 hxlow hyk hroot))
    · refine .inl (List.ext_getElem heq fun i hi hi' => ?_)
      have hleaf := nodes_agree hS hxlow hylow hxk hroot (l := 0) (d := k) (by omega) (j := i)
        (by simpa using hi) (by simpa using hi')
      simpa [node, leafOf, hi, hi'] using hleaf
    · rw [Set.union_comm] at hS
      exact .inr (.inl (exists_equal_pair hS hgt hy0 hylow hxk hroot.symm))

end KrovaCoin.Lib.MerkleLevels
