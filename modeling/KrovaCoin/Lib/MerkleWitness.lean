import KrovaCoin.Lib.MerkleTree

/-!
# Authentication paths that grow with the tree

The path from a leaf to the root passes one sibling at every level. When leaves are only appended, the siblings on the
left are final, and the siblings on the right fill up one after the other, from the leaves up.

Principal results: `spineRoot_uncles`, `pathRoot_spinePath`, `Filled.uncles_eq`.
-/

namespace KrovaCoin.Lib.MerkleHash

variable {H : Type} (h : MerkleHash H)

/-! ## The number of leaves behind a frontier -/

/-- The occupation of a frontier, read as a binary number. -/
def occupancy : List (Option H) → Nat
  | [] => 0
  | none :: ps => 2 * occupancy ps
  | some _ :: ps => 2 * occupancy ps + 1

theorem pairUp_length (d : Nat) : ∀ xs : List H, (h.pairUp d xs).length = xs.length / 2
  | [] => by simp [pairUp]
  | [_] => by simp [pairUp]
  | _ :: _ :: xs => by
    simp only [pairUp, List.length_cons, pairUp_length d xs]
    omega

theorem Frontier.length_eq : ∀ {d : Nat} {ps : List (Option H)} {ys : List H}, h.Frontier d ps ys →
    ys.length = occupancy ps
  | _, [], _, hps => by
    cases hps
    rfl
  | d, none :: ps, ys, ⟨heven, hps⟩ => by
    have ih := Frontier.length_eq hps
    rw [h.pairUp_length] at ih
    simp only [occupancy]
    omega
  | d, some p :: ps, _, ⟨zs, hys, heven, hps⟩ => by
    have ih := Frontier.length_eq hps
    rw [h.pairUp_length] at ih
    simp only [hys, occupancy, List.length_append, List.length_singleton]
    omega

theorem occupancy_lt : ∀ ps : List (Option H), occupancy ps < 2 ^ ps.length
  | [] => by simp [occupancy]
  | none :: ps => by
    have := occupancy_lt ps
    simp only [occupancy, List.length_cons, Nat.pow_succ]
    omega
  | some _ :: ps => by
    have := occupancy_lt ps
    simp only [occupancy, List.length_cons, Nat.pow_succ]
    omega

theorem occupancy_full_iff : ∀ ps : List (Option H), occupancy ps + 1 = 2 ^ ps.length ↔ ps.all Option.isSome = true
  | [] => by simp [occupancy]
  | none :: ps => by
    simp only [occupancy, List.length_cons, Nat.pow_succ, List.all_cons, Option.isSome_none, Bool.false_and,
      Bool.false_eq_true, iff_false]
    omega
  | some _ :: ps => by
    have := occupancy_full_iff ps
    simp only [occupancy, List.length_cons, Nat.pow_succ, List.all_cons, Option.isSome_some, Bool.true_and, ← this]
    omega

/-! ## Nodes by height and index -/

theorem treeRoot_top : ∀ (k d : Nat) (f : Nat → H), h.treeRoot (k + 1) d f =
      h.combine (h.treeRoot k d f) (h.treeRoot k d fun j => f (2 ^ k + j)) (d + k)
  | 0, _, _ => rfl
  | k + 1, d, f => by
    have hup : h.levelUp d (fun j => f (2 ^ (k + 1) + j)) = fun j => h.levelUp d f (2 ^ k + j) := by
      funext j
      have hpow : 2 ^ (k + 1) + 2 * j = 2 * (2 ^ k + j) := by ring
      simp only [levelUp, ← Nat.add_assoc, hpow]
    rw [treeRoot, treeRoot_top k (d + 1), Nat.add_right_comm d 1 k]
    show _ = h.combine (h.treeRoot k (d + 1) (h.levelUp d f))
      (h.treeRoot k (d + 1) (h.levelUp d fun j => f (2 ^ (k + 1) + j))) (d + (k + 1))
    rw [hup]
    rfl

/-- The node of height `d` with index `i`. -/
def node (f : Nat → H) (d i : Nat) : H := h.treeRoot d 0 fun j => f (i * 2 ^ d + j)

theorem node_zero (f : Nat → H) (i : Nat) : h.node f 0 i = f i := by
  simp [node, treeRoot]

theorem node_succ (f : Nat → H) (d i : Nat) :
    h.node f (d + 1) i = h.combine (h.node f d (2 * i)) (h.node f d (2 * i + 1)) d := by
  unfold node
  rw [treeRoot_top, Nat.zero_add]
  have hleft : i * 2 ^ (d + 1) = 2 * i * 2 ^ d := by ring
  have hright : ∀ j, i * 2 ^ (d + 1) + (2 ^ d + j) = (2 * i + 1) * 2 ^ d + j := fun j => by ring
  simp only [hleft]
  congr 2
  funext j
  rw [← hright, hleft]

theorem node_parent (f : Nat → H) (d i : Nat) :
    h.node f (d + 1) (i / 2) = if i % 2 = 0 then h.combine (h.node f d i) (h.node f d (i + 1)) d
      else h.combine (h.node f d (i - 1)) (h.node f d i) d := by
  rw [node_succ]
  split
  · rw [show 2 * (i / 2) = i by omega]
  · rw [show 2 * (i / 2) = i - 1 by omega, show i - 1 + 1 = i by omega]

variable {D : Nat}

theorem treeRoot_const_empty (hD : h.EmptyLaw D) : ∀ {k d : Nat}, d + k ≤ D →
    h.treeRoot k d (fun _ => h.emptyRoot d) = h.emptyRoot (d + k)
  | 0, _, _ => rfl
  | k + 1, d, hk => by
    have hup : h.levelUp d (fun _ => h.emptyRoot d) = fun _ => h.emptyRoot (d + 1) := by
      funext i
      exact hD d (by omega)
    rw [treeRoot, hup, treeRoot_const_empty hD (by omega), Nat.add_right_comm, Nat.add_assoc]

variable {i : Nat}

theorem node_eq_emptyRoot (hD : h.EmptyLaw D) {d : Nat} (hd : d ≤ D) {xs : List H} (hlen : xs.length ≤ i * 2 ^ d) :
    h.node (padded (h.emptyRoot 0) xs) d i = h.emptyRoot d := by
  have hleaves : (fun j => padded (h.emptyRoot 0) xs (i * 2 ^ d + j)) = fun _ => h.emptyRoot 0 := by
    funext j
    exact List.getD_eq_default _ _ (by omega)
  rw [node, hleaves, h.treeRoot_const_empty hD (by omega), Nat.zero_add]

theorem node_eq_treeRoot (e : H) (d i : Nat) (xs : List H) :
    h.node (padded e xs) d i = h.treeRoot d 0 (padded e ((xs.drop (i * 2 ^ d)).take (2 ^ d))) := by
  apply h.treeRoot_congr
  intro j hj
  simp [padded, List.getD_eq_getElem?_getD, List.getElem?_drop, hj]

/-! ## The spine of a node -/

/-- `qs` holds the left siblings on the way up from the node `i` of height `d`: one at each level where
    the node is a right child. -/
def OnSpine (f : Nat → H) : Nat → Nat → List (Option H) → Prop
  | _, i, [] => i = 0
  | d, i, none :: qs => i % 2 = 0 ∧ OnSpine f (d + 1) (i / 2) qs
  | d, i, some p :: qs => i % 2 = 1 ∧ p = h.node f d (i - 1) ∧ OnSpine f (d + 1) (i / 2) qs

theorem pairUp_nodes (f : Nat → H) (d : Nat) : ∀ m : Nat,
    h.pairUp d ((List.range (2 * m)).map (h.node f d)) = (List.range m).map (h.node f (d + 1))
  | 0 => rfl
  | m + 1 => by
    rw [show 2 * (m + 1) = 2 * m + 1 + 1 by omega, List.range_succ, List.range_succ, List.append_assoc,
      List.map_append]
    show h.pairUp d (_ ++ [h.node f d (2 * m), h.node f d (2 * m + 1)]) = _
    rw [h.pairUp_append d _ _ (by simp), pairUp_nodes f d m, List.range_succ, List.map_append, ← h.node_succ]
    rfl

theorem Frontier.onSpine (f : Nat → H) : ∀ {qs : List (Option H)} {d n : Nat},
    h.Frontier d qs ((List.range n).map (h.node f d)) → h.OnSpine f d n qs
  | [], d, n, hqs => by
    have hlen := congrArg List.length hqs
    show n = 0
    simpa using hlen
  | none :: qs, d, n, ⟨heven, hqs⟩ => by
    rw [List.length_map, List.length_range] at heven
    rw [← show 2 * (n / 2) = n by omega, h.pairUp_nodes f d] at hqs
    exact ⟨heven, Frontier.onSpine f hqs⟩
  | some p :: qs, d, n, ⟨zs, hzs, heven, hqs⟩ => by
    have hlen := congrArg List.length hzs
    simp only [List.length_map, List.length_range, List.length_append, List.length_singleton] at hlen
    obtain ⟨m, rfl⟩ : ∃ m, n = m + 1 := ⟨n - 1, by omega⟩
    rw [List.range_succ, List.map_append] at hzs
    obtain ⟨hz, hp⟩ := List.append_inj hzs (by simp; omega)
    subst hz
    rw [← show 2 * (m / 2) = m by omega, h.pairUp_nodes f d] at hqs
    refine ⟨by omega, (List.cons.inj hp).1.symm, ?_⟩
    rw [show (m + 1) / 2 = m / 2 by omega]
    exact Frontier.onSpine f hqs

/-! ## Root and path along the spine -/

def nextSibling (queue : List H) (d : Nat) : H := queue.headD (h.emptyRoot d)

/-- The root reached from the node `r` of height `d`, `k` levels up. -/
def spineRoot : Nat → Nat → List (Option H) → H → List H → H
  | 0, _, _, r, _ => r
  | k + 1, d, [], r, queue => spineRoot k (d + 1) [] (h.combine r (h.nextSibling queue d) d) queue.tail
  | k + 1, d, none :: qs, r, queue => spineRoot k (d + 1) qs (h.combine r (h.nextSibling queue d) d) queue.tail
  | k + 1, d, some p :: qs, r, queue => spineRoot k (d + 1) qs (h.combine p r d) queue

/-- Without right siblings it is the root above the frontier. -/
theorem spineRoot_nil : ∀ (k d : Nat) (qs : List (Option H)) (r : H), h.spineRoot k d qs r [] = h.frontierRoot k d qs r
  | 0, _, _, _ => rfl
  | k + 1, d, [], _ => spineRoot_nil k (d + 1) [] _
  | k + 1, d, none :: qs, _ => spineRoot_nil k (d + 1) qs _
  | k + 1, d, some _ :: qs, _ => spineRoot_nil k (d + 1) qs _

/-- The siblings on that way, each with the side of the node: `true` for a right child. -/
def spinePath : Nat → Nat → List (Option H) → List H → List (Bool × H)
  | 0, _, _, _ => []
  | k + 1, d, [], queue => (false, h.nextSibling queue d) :: spinePath k (d + 1) [] queue.tail
  | k + 1, d, none :: qs, queue => (false, h.nextSibling queue d) :: spinePath k (d + 1) qs queue.tail
  | k + 1, d, some p :: qs, queue => (true, p) :: spinePath k (d + 1) qs queue

/-- The root that a path gives to a node of height `d`. -/
def pathRoot : Nat → H → List (Bool × H) → H
  | _, r, [] => r
  | d, r, (b, s) :: path => pathRoot (d + 1) (if b then h.combine s r d else h.combine r s d) path

/-- **The path leads to the root of the spine.** -/
theorem pathRoot_spinePath : ∀ (k d : Nat) (qs : List (Option H)) (r : H) (queue : List H),
    h.pathRoot d r (h.spinePath k d qs queue) = h.spineRoot k d qs r queue
  | 0, _, _, _, _ => rfl
  | k + 1, d, [], _, _ => pathRoot_spinePath k (d + 1) [] _ _
  | k + 1, d, none :: qs, _, _ => pathRoot_spinePath k (d + 1) qs _ _
  | k + 1, d, some _ :: qs, _, _ => pathRoot_spinePath k (d + 1) qs _ _

@[simp] theorem spinePath_length : ∀ (k d : Nat) (qs : List (Option H)) (queue : List H),
    (h.spinePath k d qs queue).length = k
  | 0, _, _, _ => rfl
  | k + 1, d, [], _ => by simp [spinePath, spinePath_length k (d + 1) []]
  | k + 1, d, none :: qs, _ => by simp [spinePath, spinePath_length k (d + 1) qs]
  | k + 1, d, some _ :: qs, _ => by simp [spinePath, spinePath_length k (d + 1) qs]

/-- The `k` low bits of a number, the lowest first. -/
def lowBits : Nat → Nat → List Bool
  | 0, _ => []
  | k + 1, i => decide (i % 2 = 1) :: lowBits k (i / 2)

theorem OnSpine.sides {f : Nat → H} : ∀ {k d i : Nat} {qs : List (Option H)} {queue : List H},
    h.OnSpine f d i qs → (h.spinePath k d qs queue).map Prod.fst = lowBits k i
  | 0, _, _, _, _, _ => rfl
  | k + 1, d, i, [], queue, hi => by
    have h0 : i = 0 := hi
    subst h0
    have hnil : h.OnSpine f (d + 1) 0 [] := rfl
    simp [spinePath, lowBits, hnil.sides]
  | k + 1, d, i, none :: qs, queue, hi => by
    simp [spinePath, lowBits, hi.2.sides, hi.1]
  | k + 1, d, i, some p :: qs, queue, hi => by
    simp [spinePath, lowBits, hi.2.2.sides, hi.1]

/-! ## The right siblings -/

/-- The heights of the right siblings, on `k` levels from height `d` on. -/
def slots : Nat → Nat → List (Option H) → List Nat
  | 0, _, _ => []
  | k + 1, d, [] => d :: slots k (d + 1) []
  | k + 1, d, none :: qs => d :: slots k (d + 1) qs
  | k + 1, d, some _ :: qs => slots k (d + 1) qs

theorem slots_length_le : ∀ (k d : Nat) (qs : List (Option H)), (slots k d qs).length ≤ k
  | 0, _, _ => Nat.le_refl 0
  | k + 1, d, [] => Nat.succ_le_succ (slots_length_le k (d + 1) [])
  | k + 1, d, none :: qs => Nat.succ_le_succ (slots_length_le k (d + 1) qs)
  | k + 1, d, some _ :: qs => Nat.le_succ_of_le (slots_length_le k (d + 1) qs)

/-- The roots of subtrees of the given heights over consecutive leaves, as far as there are leaves. -/
def uncles : List Nat → List H → List H
  | [], _ => []
  | c :: cs, M =>
    if M.isEmpty then []
    else h.treeRoot c 0 (padded (h.emptyRoot 0) (M.take (2 ^ c))) :: uncles cs (M.drop (2 ^ c))

@[simp] theorem uncles_nil (cs : List Nat) : h.uncles cs [] = [] := by
  cases cs <;> rfl

theorem nextSibling_uncles (hD : h.EmptyLaw D) {d : Nat} (hd : d ≤ D) (cs : List Nat) (xs : List H) :
    h.nextSibling (h.uncles (d :: cs) (xs.drop ((i + 1) * 2 ^ d))) d =
      h.node (padded (h.emptyRoot 0) xs) d (i + 1) := by
  rw [uncles]
  split
  · rename_i hempty
    rw [List.isEmpty_iff, List.drop_eq_nil_iff] at hempty
    rw [h.node_eq_emptyRoot hD hd hempty]
    rfl
  · rw [h.node_eq_treeRoot]
    rfl

theorem tail_uncles (d : Nat) (cs : List Nat) (M : List H) :
    (h.uncles (d :: cs) M).tail = h.uncles cs (M.drop (2 ^ d)) := by
  rw [uncles]
  split
  · rename_i hempty
    simp [List.isEmpty_iff.mp hempty]
  · rfl

theorem mul_two_pow_of_even (hi : i % 2 = 0) (d : Nat) : (i / 2 + 1) * 2 ^ (d + 1) = (i + 1) * 2 ^ d + 2 ^ d := by
  obtain ⟨m, rfl⟩ : ∃ m, i = 2 * m := ⟨i / 2, by omega⟩
  rw [Nat.mul_div_cancel_left m (by decide)]
  ring

theorem mul_two_pow_of_odd (hi : i % 2 = 1) (d : Nat) : (i / 2 + 1) * 2 ^ (d + 1) = (i + 1) * 2 ^ d := by
  obtain ⟨m, rfl⟩ : ∃ m, i = 2 * m + 1 := ⟨i / 2, by omega⟩
  rw [show (2 * m + 1) / 2 = m by omega]
  ring

/-- **With the right siblings over the later leaves, the spine gives the root of the whole tree.** -/
theorem spineRoot_uncles (hD : h.EmptyLaw D) {xs : List H} : ∀ {k d i : Nat} {qs : List (Option H)},
    h.OnSpine (padded (h.emptyRoot 0) xs) d i qs → qs.length ≤ k → d + k ≤ D →
    h.spineRoot k d qs (h.node (padded (h.emptyRoot 0) xs) d i) (h.uncles (slots k d qs) (xs.drop ((i + 1) * 2 ^ d))) =
      h.node (padded (h.emptyRoot 0) xs) (d + k) 0
  | 0, d, i, [], hi, _, _ => by
    have h0 : i = 0 := hi
    subst h0
    rfl
  | k + 1, d, i, [], hi, _, hk => by
    have h0 : i = 0 := hi
    subst h0
    have hnil : h.OnSpine (padded (h.emptyRoot 0) xs) (d + 1) 0 [] := rfl
    have hdrop : (0 + 1) * 2 ^ d + 2 ^ d = (0 + 1) * 2 ^ (d + 1) := by ring
    have ih := spineRoot_uncles hD hnil (Nat.zero_le k) (by omega : d + 1 + k ≤ D)
    rw [Nat.add_right_comm, Nat.add_assoc, h.node_succ] at ih
    rw [slots, spineRoot, h.nextSibling_uncles hD (by omega), h.tail_uncles, List.drop_drop, hdrop]
    exact ih
  | k + 1, d, i, none :: qs, hi, hlen, hk => by
    have ih := spineRoot_uncles hD hi.2 (by simpa using hlen) (by omega : d + 1 + k ≤ D)
    rw [Nat.add_right_comm, Nat.add_assoc, h.node_parent, if_pos hi.1] at ih
    rw [slots, spineRoot, h.nextSibling_uncles hD (by omega), h.tail_uncles, List.drop_drop, ← mul_two_pow_of_even hi.1]
    exact ih
  | k + 1, d, i, some p :: qs, hi, hlen, hk => by
    have hodd := hi.1
    have ih := spineRoot_uncles hD hi.2.2 (by simpa using hlen) (by omega : d + 1 + k ≤ D)
    rw [Nat.add_right_comm, Nat.add_assoc, h.node_parent, if_neg (by omega), ← hi.2.1] at ih
    rw [slots, spineRoot, ← mul_two_pow_of_odd hodd]
    exact ih

theorem OnSpine.room {f : Nat → H} : ∀ {k d i : Nat} {qs : List (Option H)}, h.OnSpine f d i qs →
    qs.length ≤ k → ((slots k d qs).map (2 ^ ·)).sum + (i + 1) * 2 ^ d = 2 ^ (d + k)
  | 0, d, i, [], hi, _ => by
    have h0 : i = 0 := hi
    subst h0
    simp [slots]
  | k + 1, d, i, [], hi, _ => by
    have h0 : i = 0 := hi
    subst h0
    have hnil : h.OnSpine f (d + 1) 0 [] := rfl
    have ih := hnil.room (Nat.zero_le k)
    rw [Nat.add_right_comm, Nat.add_assoc, Nat.pow_succ 2 d] at ih
    simp only [slots, List.map_cons, List.sum_cons]
    omega
  | k + 1, d, i, none :: qs, hi, hlen => by
    have ih := hi.2.room (by simpa using hlen)
    rw [Nat.add_right_comm, Nat.add_assoc] at ih
    have hi2 := mul_two_pow_of_even hi.1 d
    simp only [slots, List.map_cons, List.sum_cons]
    omega
  | k + 1, d, i, some p :: qs, hi, hlen => by
    have ih := hi.2.2.room (by simpa using hlen)
    rw [Nat.add_right_comm, Nat.add_assoc] at ih
    have hi2 := mul_two_pow_of_odd hi.1 d
    simp only [slots]
    omega

/-! ## Filling the right siblings -/

/-- The first of the leaves `M` fill subtrees of the first heights of `cs`, with the roots `fs`; for the
    heights `cs'` the leaves `R` are left. -/
inductive Filled : List Nat → List H → List H → List Nat → List H → Prop
  | nil (cs : List Nat) (M : List H) : Filled cs [] M cs M
  | cons {c : Nat} {cs cs' : List Nat} {fs M R : List H} (C : List H) (hlen : C.length = 2 ^ c)
      (hrest : Filled cs fs M cs' R) :
      Filled (c :: cs) (h.treeRoot c 0 (padded (h.emptyRoot 0) C) :: fs) (C ++ M) cs' R

variable {h}

variable {cs cs' : List Nat} {fs M R : List H}

/-- **Filled subtrees and the rest are the right siblings.** -/
theorem Filled.uncles_eq (hf : h.Filled cs fs M cs' R) : h.uncles cs M = fs ++ h.uncles cs' R := by
  induction hf with
  | nil => rfl
  | @cons c cs cs' fs M R C hlen hrest ih =>
    have hne : (C ++ M).isEmpty = false := by
      have := Nat.two_pow_pos c
      cases C with
      | nil =>
        rw [List.length_nil] at hlen
        omega
      | cons => rfl
    rw [uncles, hne, if_neg (by simp), List.take_left' hlen, List.drop_left' hlen, ih]
    rfl

theorem Filled.append (hf : h.Filled cs fs M cs' R) (x : H) : h.Filled cs fs (M ++ [x]) cs' (R ++ [x]) := by
  induction hf with
  | nil => exact .nil _ _
  | cons C hlen hrest ih =>
    rw [List.append_assoc]
    exact .cons C hlen ih

theorem Filled.push {c : Nat} (hlen : R.length = 2 ^ c) (hf : h.Filled cs fs M (c :: cs') R) :
    h.Filled cs (fs ++ [h.treeRoot c 0 (padded (h.emptyRoot 0) R)]) M cs' [] := by
  generalize hcs : c :: cs' = cs1 at hf
  induction hf with
  | nil cs M =>
    subst hcs
    simpa using Filled.cons M hlen (.nil cs' [])
  | cons C hC hrest ih => exact .cons C hC (ih hlen hcs)

theorem Filled.drop_eq (hf : h.Filled cs fs M cs' R) : cs' = cs.drop fs.length := by
  induction hf with
  | nil => rfl
  | cons C hC hrest ih => simpa using ih

theorem Filled.length_le (hf : h.Filled cs fs M cs' R) : fs.length ≤ cs.length := by
  induction hf with
  | nil => exact Nat.zero_le _
  | cons C hC hrest ih => exact Nat.succ_le_succ ih

theorem Filled.length_eq (hf : h.Filled cs fs M cs' R) :
    M.length + (cs'.map (2 ^ ·)).sum = (cs.map (2 ^ ·)).sum + R.length := by
  induction hf with
  | nil => omega
  | cons C hC hrest ih =>
    simp only [List.length_append, List.map_cons, List.sum_cons]
    omega

end KrovaCoin.Lib.MerkleHash
