import KrovaCoin.Lib.Forest
import KrovaCoin.Lib.MachineInt

/-!
# Ancestors in the tree of block indices (`chain.cpp`)

Every block index has a pointer to its predecessor and one that skips back further. Block indices are only ever added,
so they are a list here and a pointer is a position in it; a null pointer that is dereferenced is a fault.

* `getAncestor` — `CBlockIndex::GetAncestor`, which chooses between the two pointers.
* `lastCommonAncestor`, `BlockStore.findFork` — `LastCommonAncestor` and `CChain::FindFork`.

Principal result: `blockTree_ancestors`.
-/

namespace KrovaCoin

open Lib

/-! ## The code -/

/-- The links of `CBlockIndex`. -/
structure BlockNode where
  pprev : Option Nat
  nHeight : Nat
  pskip : Option Nat
  deriving DecidableEq, Repr

abbrev BlockStore := List BlockNode

def invertLowestOne (n : Nat) : Nat := n &&& (n - 1)

def getSkipHeight (height : Nat) : Nat :=
  if height < 2 then 0
  else if height &&& 1 ≠ 0 then invertLowestOne (invertLowestOne (height - 1)) + 1
  else invertLowestOne height

section Walks

variable (store : BlockStore)

/-- The block index a pointer points to. -/
def deref (p : Option Nat) : Checked BlockNode :=
  match p.bind (store[·]?) with
  | none => .error .assertion
  | some b => .ok b

/-- An iteration of `GetAncestor`: `pindexWalk` and `heightWalk`. -/
def walkStep (height : Nat) (s : Option Nat × Nat) : Checked (LoopStep (Option Nat × Nat) (Option Nat)) :=
  if s.2 > height then do
    let heightSkip := getSkipHeight s.2
    let heightSkipPrev := getSkipHeight (s.2 - 1)
    let pindexWalk ← deref store s.1
    if heightSkip = height ∨ heightSkip > height ∧
        ¬ ((heightSkipPrev : Int) < heightSkip - 2 ∧ heightSkipPrev ≥ height) then
      return .next (pindexWalk.pskip, heightSkip)
    else do
      ensure pindexWalk.pprev.isSome
      return .next (pindexWalk.pprev, s.2 - 1)
  else .ok (.done s.1)

/-- The result of a loop; it is never still running. -/
def loopResult {α : Type} (x : Checked (Option α)) : Checked α := do
  match ← x with
  | none => .error .assertion
  | some a => .ok a

def getAncestor (this : Option Nat) (height : Int) : Checked (Option Nat) := do
  let b ← deref store this
  if height > b.nHeight ∨ height < 0 then .ok none
  else loopResult (whileLoop (walkStep store height.toNat) (b.nHeight + 1) (this, b.nHeight))

/-- The part of `AddToBlockIndex` that links a block, with `BuildSkip`. -/
def addBlock (pprev : Option Nat) : Checked BlockStore :=
  match pprev with
  | none => .ok (store ++ [⟨none, 0, none⟩])
  | some p => do
    let b ← deref store p
    let pskip ← getAncestor store p (getSkipHeight (b.nHeight + 1))
    return store ++ [⟨p, b.nHeight + 1, pskip⟩]

/-- An iteration of `LastCommonAncestor`. -/
def meetStep (s : Option Nat × Option Nat) : Checked (LoopStep (Option Nat × Option Nat) (Option Nat)) :=
  if s.1 ≠ s.2 ∧ s.1.isSome ∧ s.2.isSome then do
    let pa ← deref store s.1
    let pb ← deref store s.2
    return .next (pa.pprev, pb.pprev)
  else do
    ensure (s.1 == s.2)
    return .done s.1

def sameHeight (pa pb : Option Nat) : Checked (Option Nat × Option Nat) := do
  let a ← deref store pa
  let b ← deref store pb
  if a.nHeight > b.nHeight then do
    let pa ← getAncestor store pa b.nHeight
    return (pa, pb)
  else if b.nHeight > a.nHeight then do
    let pb ← getAncestor store pb a.nHeight
    return (pa, pb)
  else return (pa, pb)

def lastCommonAncestor (pa pb : Option Nat) : Checked (Option Nat) := do
  let s ← sameHeight store pa pb
  let a ← deref store s.1
  loopResult (whileLoop (meetStep store) (a.nHeight + 1) s)

/-- `CChain::Contains`, for the vector `vChain`. -/
def chainContains (vChain : List Nat) (pindex : Option Nat) : Checked Bool := do
  let b ← deref store pindex
  return vChain[b.nHeight]? == pindex

/-- An iteration of `FindFork`. -/
def forkStep (vChain : List Nat) (pindex : Option Nat) : Checked (LoopStep (Option Nat) (Option Nat)) :=
  if pindex.isSome then do
    if ← chainContains store vChain pindex then return .done pindex
    else do
      let b ← deref store pindex
      return .next b.pprev
  else .ok (.done pindex)

def BlockStore.findFork (vChain : List Nat) (pindex : Option Nat) : Checked (Option Nat) :=
  if pindex.isNone then .ok none
  else do
    let b ← deref store pindex
    let height : Int := vChain.length - 1
    let pindex ← if b.nHeight > height then getAncestor store pindex height else .ok pindex
    loopResult (whileLoop (forkStep store vChain) (b.nHeight + 2) pindex)

end Walks

/-- The trees that are built by adding blocks to a first one. -/
inductive BlockTree : BlockStore → Prop
  | genesis : BlockTree [⟨none, 0, none⟩]
  | add {store store' : BlockStore} {p : Nat} (htree : BlockTree store) (hp : p < store.length)
      (hadd : addBlock store (some p) = .ok store') : BlockTree store'

/-! ## The tree -/

theorem invertLowestOne_le (n : Nat) : invertLowestOne n ≤ n - 1 := Nat.and_le_right

theorem getSkipHeight_lt {n : Nat} (h : 0 < n) : getSkipHeight n < n := by
  have h1 := invertLowestOne_le n
  have h2 := invertLowestOne_le (n - 1)
  have h3 := invertLowestOne_le (invertLowestOne (n - 1))
  unfold getSkipHeight
  split
  · omega
  · split <;> omega

section Tree

variable (store : BlockStore)

/-- The forest of the pointers `pprev`. -/
def prevOf (p : Nat) : Option Nat := store[p]?.bind BlockNode.pprev

def heightOf (p : Nat) : Nat := (store[p]?.map BlockNode.nHeight).getD 0

/-- The links of a tree: the skip pointer leads where the walk along `pprev` leads. -/
structure Linked : Prop where
  root : store[0]? = some ⟨none, 0, none⟩
  child : ∀ {i b}, store[i]? = some b → 0 < i → ∃ q, b.pprev = some q ∧ q < i ∧ b.nHeight = heightOf store q + 1 ∧
    b.pskip = walkUp (prevOf store) (b.nHeight - getSkipHeight b.nHeight) i

end Tree

theorem deref_some {store : BlockStore} {p : Nat} (hp : p < store.length) :
    ∃ b, store[p]? = some b ∧ deref store (some p) = .ok b ∧ b.nHeight = heightOf store p ∧ b.pprev = prevOf store p := by
  refine ⟨store[p], List.getElem?_eq_getElem hp, ?_, ?_, ?_⟩
  all_goals simp [deref, heightOf, prevOf, List.getElem?_eq_getElem hp]

section Links

variable {store : BlockStore} (hl : Linked store)
include hl

theorem Linked.graded : Graded (prevOf store) (heightOf store) := by
  have hcases : ∀ a, (prevOf store a = none ∧ heightOf store a = 0) ∨
      ∃ q, prevOf store a = some q ∧ heightOf store a = heightOf store q + 1 := by
    intro a
    cases hb : store[a]? with
    | none => exact .inl (by simp [prevOf, heightOf, hb])
    | some b =>
      rcases Nat.eq_zero_or_pos a with rfl | hpos
      · rw [hl.root] at hb
        cases hb
        exact .inl (by simp [prevOf, heightOf, hl.root])
      · obtain ⟨q, hq, -, hheight, -⟩ := hl.child hb hpos
        exact .inr ⟨q, by simp [prevOf, hb, hq], by simp [heightOf, hb, hheight]⟩
  constructor
  · intro a b hab
    rcases hcases a with ⟨hnone, -⟩ | ⟨q, hq, hheight⟩
    · rw [hnone] at hab
      cases hab
    · rw [hq] at hab
      cases hab
      exact hheight
  · intro a ha
    rcases hcases a with ⟨-, hzero⟩ | ⟨q, hq, -⟩
    · exact hzero
    · rw [hq] at ha
      cases ha

variable {p : Nat}

theorem Linked.prev_lt {q : Nat} (h : prevOf store p = some q) : q < p := by
  obtain ⟨b, hb, hq⟩ := Option.bind_eq_some_iff.1 h
  rcases Nat.eq_zero_or_pos p with rfl | hpos
  · rw [hl.root] at hb
    cases hb
    cases hq
  · obtain ⟨q', hq', hlt, -, -⟩ := hl.child hb hpos
    rw [hq'] at hq
    cases hq
    exact hlt

theorem Linked.walkUp_le {n q : Nat} (h : walkUp (prevOf store) n p = some q) : q ≤ p := by
  induction n generalizing p with
  | zero =>
    cases h
    exact Nat.le_refl _
  | succ n ih =>
    obtain ⟨r, hr, h⟩ := Option.bind_eq_some_iff.1 h
    have := ih h
    have := hl.prev_lt hr
    omega

theorem Linked.eq_zero_of_height (hp : p < store.length) (h : heightOf store p = 0) : p = 0 := by
  obtain ⟨b, hb, -, hheight, -⟩ := deref_some hp
  by_contra hne
  obtain ⟨q, -, -, hq, -⟩ := hl.child hb (Nat.pos_of_ne_zero hne)
  omega

omit hl in
/-- The walk to `target` stands on the way, at the height it believes to be at. -/
def OnWay (store : BlockStore) (height target : Nat) (s : Option Nat × Nat) : Prop :=
  height ≤ s.2 ∧ ∃ q, s.1 = some q ∧ q < store.length ∧ heightOf store q = s.2 ∧
    walkUp (prevOf store) (s.2 - height) q = some target

theorem Linked.walkStep_onWay {height target : Nat} {s : Option Nat × Nat} (hs : OnWay store height target s) :
    (∃ s', walkStep store height s = .ok (.next s') ∧ OnWay store height target s' ∧ s'.2 < s.2) ∨
      ∃ r, walkStep store height s = .ok (.done r) ∧ r = some target := by
  obtain ⟨hle, q, hq, hqlen, hqheight, hwalk⟩ := hs
  unfold walkStep
  split
  · obtain ⟨c, hc, hderef, hcheight, hcprev⟩ := deref_some hqlen
    have hpos : 0 < q := Nat.pos_of_ne_zero fun hzero => by
      rw [hzero, heightOf, hl.root] at hqheight
      have hroot : 0 = s.2 := hqheight
      omega
    obtain ⟨q', hq', hq'lt, hq'height, hskip⟩ := hl.child hc hpos
    have hlt : getSkipHeight s.2 < s.2 := getSkipHeight_lt (by omega)
    rw [hq, hderef]
    simp only [ok_bind]
    split
    · -- the skip pointer is as good as the walk to its height
      rw [show s.2 - height = (s.2 - getSkipHeight s.2) + (getSkipHeight s.2 - height) by omega, walkUp_add] at hwalk
      obtain ⟨x, hx, hwalk⟩ := Option.bind_eq_some_iff.1 hwalk
      have hxheight := hl.graded.height_walkUp hx
      have hxle := hl.walkUp_le hx
      refine .inl ⟨(c.pskip, getSkipHeight s.2), rfl, ⟨by omega, x, ?_, by omega, by omega, hwalk⟩, hlt⟩
      rw [hskip, hcheight, hqheight, hx]
    · rw [show s.2 - height = (s.2 - 1 - height) + 1 by omega, walkUp, ← hcprev, hq'] at hwalk
      refine .inl ⟨(some q', s.2 - 1), ?_, ⟨by omega, q', rfl, by omega, by omega, hwalk⟩, by omega⟩
      rw [hq']
      rfl
  · rw [show s.2 - height = 0 by omega] at hwalk
    exact .inr ⟨s.1, rfl, hq.trans hwalk⟩

/-- **`GetAncestor` follows `pprev`.** -/
theorem Linked.getAncestor_eq (hp : p < store.length) (height : Int) :
    getAncestor store (some p) height = .ok (if 0 ≤ height ∧ height ≤ heightOf store p then
      walkUp (prevOf store) (heightOf store p - height.toNat) p else none) := by
  obtain ⟨b, hb, hderef, hheight, -⟩ := deref_some hp
  rw [getAncestor, hderef, ok_bind, hheight]
  by_cases hrange : 0 ≤ height ∧ height ≤ heightOf store p
  · rw [if_neg (by omega), if_pos hrange]
    obtain ⟨target, htarget⟩ := hl.graded.exists_walkUp (Nat.sub_le (heightOf store p) height.toNat)
    have hstart : OnWay store height.toNat target (some p, heightOf store p) := ⟨by omega, p, rfl, hp, rfl, htarget⟩
    obtain ⟨r, hrun, rfl⟩ := whileLoop_total (OnWay store height.toNat target) (· = some target) Prod.snd
      (fun s => hl.walkStep_onWay) hstart (Nat.lt_succ_self (heightOf store p))
    rw [hrun, htarget]
    rfl
  · rw [if_pos (by omega), if_neg hrange]

theorem Linked.getAncestor_walkUp (hp : p < store.length) {height : Nat} (h : height ≤ heightOf store p) :
    ∃ q, getAncestor store (some p) height = .ok (some q) ∧ walkUp (prevOf store) (heightOf store p - height) p = some q ∧
      q < store.length ∧ heightOf store q = height := by
  obtain ⟨q, hq⟩ := hl.graded.exists_walkUp (Nat.sub_le (heightOf store p) height)
  have hle := hl.walkUp_le hq
  have hheight := hl.graded.height_walkUp hq
  refine ⟨q, ?_, hq, by omega, by omega⟩
  rw [hl.getAncestor_eq hp, if_pos ⟨by omega, by omega⟩, Int.toNat_natCast, hq]

/-! ## Adding a block -/

variable {x : BlockNode}

omit hl in
theorem prevOf_append (hp : p < store.length) :
    prevOf (store ++ [x]) p = prevOf store p ∧ heightOf (store ++ [x]) p = heightOf store p := by
  simp [prevOf, heightOf, List.getElem?_append_left hp]

theorem Linked.walkUp_append {n : Nat} (hp : p < store.length) :
    walkUp (prevOf (store ++ [x])) n p = walkUp (prevOf store) n p := by
  induction n generalizing p with
  | zero => rfl
  | succ n ih =>
    rw [walkUp, walkUp, (prevOf_append hp).1]
    cases hq : prevOf store p with
    | none => rfl
    | some q => exact ih (Nat.lt_trans (hl.prev_lt hq) hp)

/-- A block can be added below every block, and the links stay as they should be. -/
theorem Linked.addBlock_ok (hp : p < store.length) :
    ∃ store', addBlock store (some p) = .ok store' ∧ Linked store' := by
  obtain ⟨b, hb, hderef, hheight, -⟩ := deref_some hp
  have hlt : getSkipHeight (b.nHeight + 1) < b.nHeight + 1 := getSkipHeight_lt (Nat.succ_pos _)
  have hle : getSkipHeight (b.nHeight + 1) ≤ heightOf store p := by omega
  obtain ⟨q, hq, hwalk, -, -⟩ := hl.getAncestor_walkUp hp hle
  refine ⟨store ++ [⟨p, b.nHeight + 1, q⟩], ?_, ?_, ?_⟩
  · rw [addBlock, hderef, ok_bind, hq, ok_bind]
    rfl
  · rw [List.getElem?_append_left (by omega), hl.root]
  · intro i c hc hpos
    rcases Nat.lt_or_ge i store.length with hi | hi
    · rw [List.getElem?_append_left hi] at hc
      obtain ⟨r, hr, hrlt, hrheight, hskip⟩ := hl.child hc hpos
      refine ⟨r, hr, hrlt, ?_, ?_⟩
      · rw [hrheight, (prevOf_append (by omega)).2]
      · rw [hskip, hl.walkUp_append hi]
    · obtain rfl : i = store.length := by
        have := (List.getElem?_eq_some_iff.1 hc).1
        simp only [List.length_append, List.length_singleton] at this
        omega
      obtain rfl : c = ⟨p, b.nHeight + 1, q⟩ := by simpa using hc.symm
      refine ⟨p, rfl, hp, ?_, ?_⟩
      · rw [(prevOf_append hp).2, hheight]
      · have hprev : prevOf (store ++ [⟨p, b.nHeight + 1, q⟩]) store.length = some p := by simp [prevOf]
        rw [show b.nHeight + 1 - getSkipHeight (b.nHeight + 1) = b.nHeight - getSkipHeight (b.nHeight + 1) + 1 by omega,
          walkUp, hprev, Option.bind_some, hl.walkUp_append hp, hheight, ← hwalk, hheight]

omit hl in
theorem BlockTree.linked (h : BlockTree store) : Linked store := by
  induction h with
  | genesis =>
    refine ⟨rfl, fun {i b} hb hpos => ?_⟩
    have := (List.getElem?_eq_some_iff.1 hb).1
    simp only [List.length_singleton] at this
    omega
  | add _ hp hadd ih =>
    obtain ⟨store', hok, hlinked⟩ := ih.addBlock_ok hp
    rw [hadd] at hok
    cases hok
    exact hlinked

/-! ## Common ancestors -/

theorem Linked.isAncestor_zero (hp : p < store.length) : IsAncestor (prevOf store) 0 p := by
  obtain ⟨q, -, hq, hqlen, hheight⟩ := hl.getAncestor_walkUp hp (Nat.zero_le _)
  obtain rfl := hl.eq_zero_of_height hqlen hheight
  exact ⟨_, hq⟩

theorem Linked.exists_prev (hp : p < store.length) (hne : p ≠ 0) :
    ∃ b q, deref store (some p) = .ok b ∧ b.pprev = some q ∧ prevOf store p = some q ∧ q < store.length := by
  obtain ⟨b, hb, hderef, -, hprev⟩ := deref_some hp
  obtain ⟨q, hq, hlt, -, -⟩ := hl.child hb (Nat.pos_of_ne_zero hne)
  exact ⟨b, q, hderef, hq, by rw [← hprev, hq], by omega⟩

omit hl in
/-- The walks from `a` and `b` have taken the same number of steps and have not met before. -/
def NotMet (store : BlockStore) (a b : Nat) (s : Option Nat × Option Nat) : Prop :=
  ∃ k x y, s = (some x, some y) ∧ x < store.length ∧ y < store.length ∧ walkUp (prevOf store) k a = some x ∧
    walkUp (prevOf store) k b = some y ∧ ∀ j, j < k → walkUp (prevOf store) j a ≠ walkUp (prevOf store) j b

variable {a b : Nat}

theorem Linked.meetStep_notMet (hsame : heightOf store a = heightOf store b) {s : Option Nat × Option Nat}
    (hs : NotMet store a b s) : (∃ s', meetStep store s = .ok (.next s') ∧ NotMet store a b s' ∧
      s'.1.elim 0 (heightOf store) < s.1.elim 0 (heightOf store)) ∨
      ∃ r, meetStep store s = .ok (.done r) ∧ ∃ c, r = some c ∧ Meets (prevOf store) (heightOf store) c a b := by
  obtain ⟨k, x, y, rfl, hx, hy, hxa, hyb, hbefore⟩ := hs
  have hxheight := hl.graded.height_walkUp hxa
  have hyheight := hl.graded.height_walkUp hyb
  by_cases hxy : x = y
  · subst hxy
    refine .inr ⟨some x, by simp [meetStep, ensure], x, rfl, .of_first hl.graded hxa ⟨k, hyb⟩ ?_⟩
    rintro j d hj hd ⟨i, hi⟩
    have h1 := hl.graded.height_walkUp hd
    have h2 := hl.graded.height_walkUp hi
    obtain rfl : i = j := by omega
    exact hbefore i hj (hd.trans hi.symm)
  · -- only one block is at height 0
    have hroot : heightOf store 0 = 0 := by simp [heightOf, hl.root]
    have hne : x ≠ 0 ∧ y ≠ 0 := by
      constructor
      · rintro rfl
        exact hxy (hl.eq_zero_of_height hy (by omega)).symm
      · rintro rfl
        exact hxy (hl.eq_zero_of_height hx (by omega))
    obtain ⟨bx, x', hderef, hx', hxprev, hx'len⟩ := hl.exists_prev hx hne.1
    obtain ⟨by', y', hderef', hy', hyprev, hy'len⟩ := hl.exists_prev hy hne.2
    refine .inl ⟨(some x', some y'), ?_, ⟨k + 1, x', y', rfl, hx'len, hy'len, ?_, ?_, fun j hj => ?_⟩, ?_⟩
    · rw [meetStep, if_pos ⟨by simpa using hxy, rfl, rfl⟩, hderef, hderef', ok_bind, ok_bind, hx', hy']
      rfl
    · rw [walkUp_succ_of hxa, hxprev]
    · rw [walkUp_succ_of hyb, hyprev]
    · rcases Nat.lt_succ_iff_lt_or_eq.1 hj with hlt | rfl
      · exact hbefore j hlt
      · rw [hxa, hyb]
        simpa using hxy
    · have := hl.graded.step hxprev
      simp only [Option.elim_some]
      omega

theorem Linked.meetLoop_ok (ha : a < store.length) (hb : b < store.length)
    (hsame : heightOf store a = heightOf store b) :
    ∃ c, loopResult (whileLoop (meetStep store) (heightOf store a + 1) (some a, some b)) = .ok (some c) ∧
      Meets (prevOf store) (heightOf store) c a b := by
  have hstart : NotMet store a b (some a, some b) :=
    ⟨0, a, b, rfl, ha, hb, rfl, rfl, fun j hj => absurd hj (Nat.not_lt_zero j)⟩
  obtain ⟨r, hrun, c, rfl, hmeets⟩ := whileLoop_total (NotMet store a b)
    (fun r => ∃ c, r = some c ∧ Meets (prevOf store) (heightOf store) c a b) (fun s => s.1.elim 0 (heightOf store))
    (fun s => hl.meetStep_notMet hsame) hstart (Nat.lt_succ_self (heightOf store a))
  exact ⟨c, by rw [hrun]; rfl, hmeets⟩

theorem Linked.lastCommonAncestor_ok (ha : a < store.length) (hb : b < store.length) :
    ∃ c, lastCommonAncestor store (some a) (some b) = .ok (some c) ∧ Meets (prevOf store) (heightOf store) c a b := by
  obtain ⟨na, -, hderef, hheight, -⟩ := deref_some ha
  obtain ⟨nb, -, hderef', hheight', -⟩ := deref_some hb
  have hsplit := Nat.lt_trichotomy (heightOf store a) (heightOf store b)
  rw [lastCommonAncestor, sameHeight, hderef, hderef', ok_bind, ok_bind, hheight, hheight']
  rcases hsplit with hlt | heq | hgt
  · obtain ⟨b', hget, hb', hb'len, hb'height⟩ := hl.getAncestor_walkUp hb (Nat.le_of_lt hlt)
    obtain ⟨c, hloop, hmeets⟩ := hl.meetLoop_ok ha hb'len hb'height.symm
    refine ⟨c, ?_, (Meets.of_ancestor hl.graded ⟨_, hb'⟩ (Nat.le_of_eq hb'height.symm) hmeets.symm).symm⟩
    rw [if_neg (by omega), if_pos hlt, hget]
    simp only [ok_bind, pure_bind, hderef, hheight, hloop]
  · obtain ⟨c, hloop, hmeets⟩ := hl.meetLoop_ok ha hb heq
    refine ⟨c, ?_, hmeets⟩
    rw [if_neg (by omega), if_neg (by omega)]
    simp only [ok_bind, pure_bind, hderef, hheight, hloop]
  · obtain ⟨a', hget, ha', ha'len, ha'height⟩ := hl.getAncestor_walkUp ha (Nat.le_of_lt hgt)
    obtain ⟨na', -, hderef'', hheight'', -⟩ := deref_some ha'len
    obtain ⟨c, hloop, hmeets⟩ := hl.meetLoop_ok ha'len hb ha'height
    refine ⟨c, ?_, .of_ancestor hl.graded ⟨_, ha'⟩ (Nat.le_of_eq ha'height.symm) hmeets⟩
    rw [if_pos hgt, hget]
    simp only [ok_bind, pure_bind, hderef'', hheight'', hloop]

omit hl in
/-- `vChain` holds the blocks from the first one to `tip`. -/
def ChainOf (store : BlockStore) (tip : Nat) (vChain : List Nat) : Prop :=
  vChain.length = heightOf store tip + 1 ∧
    ∀ h, h ≤ heightOf store tip → vChain[h]? = walkUp (prevOf store) (heightOf store tip - h) tip

variable {tip : Nat} {vChain : List Nat}

theorem Linked.chainContains_iff (hchain : ChainOf store tip vChain) (hp : p < store.length)
    (hle : heightOf store p ≤ heightOf store tip) :
    ∃ b, chainContains store vChain (some p) = .ok b ∧ (b = true ↔ IsAncestor (prevOf store) p tip) := by
  obtain ⟨n, -, hderef, hheight, -⟩ := deref_some hp
  refine ⟨vChain[n.nHeight]? == some p, by rw [chainContains, hderef]; rfl, ?_⟩
  rw [beq_iff_eq, hheight, hchain.2 _ hle]
  exact ⟨fun h => ⟨_, h⟩, fun h => (hl.graded.walkUp_of_isAncestor h).2⟩

omit hl in
/-- The walk from `p` has not met the chain of `tip` before. -/
def OffChain (store : BlockStore) (tip p : Nat) (s : Option Nat) : Prop :=
  ∃ k q, s = some q ∧ q < store.length ∧ walkUp (prevOf store) k p = some q ∧
    ∀ j d, j < k → walkUp (prevOf store) j p = some d → ¬ IsAncestor (prevOf store) d tip

theorem Linked.forkStep_offChain (htip : tip < store.length) (hchain : ChainOf store tip vChain)
    (hle : heightOf store p ≤ heightOf store tip) {s : Option Nat} (hs : OffChain store tip p s) :
    (∃ s', forkStep store vChain s = .ok (.next s') ∧ OffChain store tip p s' ∧
      s'.elim 0 (heightOf store) < s.elim 0 (heightOf store)) ∨
      ∃ r, forkStep store vChain s = .ok (.done r) ∧ ∃ c, r = some c ∧ Meets (prevOf store) (heightOf store) c p tip := by
  obtain ⟨k, q, rfl, hq, hwalk, hbefore⟩ := hs
  have hheight := hl.graded.height_walkUp hwalk
  obtain ⟨b, hb, hiff⟩ := hl.chainContains_iff hchain hq (by omega)
  simp only [forkStep, Option.isSome_some, if_true, hb, ok_bind]
  cases b with
  | true => exact .inr ⟨some q, rfl, q, rfl, .of_first hl.graded hwalk (hiff.1 rfl) hbefore⟩
  | false =>
    have hoff : ¬ IsAncestor (prevOf store) q tip := fun h => Bool.false_ne_true (hiff.2 h)
    have hne : q ≠ 0 := by
      rintro rfl
      exact hoff (hl.isAncestor_zero htip)
    obtain ⟨n, q', hderef, hq', hprev, hq'len⟩ := hl.exists_prev hq hne
    refine .inl ⟨some q', by rw [hderef, ← hq']; rfl, ⟨k + 1, q', rfl, hq'len, ?_, fun j d hj hd => ?_⟩, ?_⟩
    · rw [walkUp_succ_of hwalk, hprev]
    · rcases Nat.lt_succ_iff_lt_or_eq.1 hj with hlt | rfl
      · exact hbefore j d hlt hd
      · rw [hwalk] at hd
        cases hd
        exact hoff
    · have := hl.graded.step hprev
      simp only [Option.elim_some]
      omega

theorem Linked.findFork_ok (htip : tip < store.length) (hchain : ChainOf store tip vChain) (hp : p < store.length) :
    ∃ c, BlockStore.findFork store vChain (some p) = .ok (some c) ∧ Meets (prevOf store) (heightOf store) c p tip := by
  -- the loop, from a block that is not above the tip
  have hloop : ∀ q, q < store.length → heightOf store q ≤ heightOf store tip → heightOf store q ≤ heightOf store p →
      ∃ c, loopResult (whileLoop (forkStep store vChain) (heightOf store p + 2) (some q)) = .ok (some c) ∧
        Meets (prevOf store) (heightOf store) c q tip := by
    intro q hq hle hfuel
    have hstart : OffChain store tip q (some q) := ⟨0, q, rfl, hq, rfl, fun j _ hj => absurd hj (Nat.not_lt_zero j)⟩
    obtain ⟨r, hrun, c, rfl, hmeets⟩ := whileLoop_total (OffChain store tip q)
      (fun r => ∃ c, r = some c ∧ Meets (prevOf store) (heightOf store) c q tip) (fun s => s.elim 0 (heightOf store))
      (fun s => hl.forkStep_offChain htip hchain hle) hstart
      (show heightOf store q < heightOf store p + 2 by omega)
    exact ⟨c, by rw [hrun]; rfl, hmeets⟩
  obtain ⟨n, -, hderef, hheight, -⟩ := deref_some hp
  have hlen : ((vChain.length : Int) - 1) = heightOf store tip := by
    rw [hchain.1]
    omega
  simp only [BlockStore.findFork, Option.isNone_some, Bool.false_eq_true, if_false, hderef, ok_bind, hheight, hlen]
  by_cases hgt : heightOf store p > heightOf store tip
  · obtain ⟨q, hget, hq, hqlen, hqheight⟩ := hl.getAncestor_walkUp hp (Nat.le_of_lt hgt)
    obtain ⟨c, hrun, hmeets⟩ := hloop q hqlen (by omega) (by omega)
    refine ⟨c, ?_, .of_ancestor hl.graded ⟨_, hq⟩ (Nat.le_of_eq hqheight.symm) hmeets⟩
    rw [if_pos (by omega), hget, ok_bind, hrun]
  · obtain ⟨c, hrun, hmeets⟩ := hloop p hp (by omega) (Nat.le_refl _)
    refine ⟨c, ?_, hmeets⟩
    rw [if_neg (by omega), hrun]

end Links

/-- **Ancestors in the tree of block indices.** A block can be added below every block of the tree. `GetAncestor` ends
    without a fault with the block that following `pprev` leads to, which exists at every height up to that of the
    block; `LastCommonAncestor` and `FindFork` end with the deepest common ancestor. -/
theorem blockTree_ancestors (store : BlockStore) (htree : BlockTree store) :
    (∀ p, p < store.length → ∃ store', addBlock store (some p) = .ok store' ∧ BlockTree store') ∧
    (∀ p height, p < store.length → height ≤ heightOf store p → ∃ q, getAncestor store (some p) height = .ok (some q) ∧
        walkUp (prevOf store) (heightOf store p - height) p = some q ∧ heightOf store q = height) ∧
    (∀ a b, a < store.length → b < store.length → ∃ c,
      lastCommonAncestor store (some a) (some b) = .ok (some c) ∧ Meets (prevOf store) (heightOf store) c a b) ∧
    ∀ tip p vChain, tip < store.length → p < store.length → ChainOf store tip vChain → ∃ c,
      BlockStore.findFork store vChain (some p) = .ok (some c) ∧ Meets (prevOf store) (heightOf store) c p tip := by
  have hl := htree.linked
  refine ⟨fun p hp => ?_, fun p height hp hle => ?_, fun a b ha hb => hl.lastCommonAncestor_ok ha hb,
    fun tip p vChain htip hp hchain => hl.findFork_ok htip hchain hp⟩
  · obtain ⟨store', hadd, -⟩ := hl.addBlock_ok hp
    exact ⟨store', hadd, .add htree hp hadd⟩
  · obtain ⟨q, hget, hwalk, -, hheight⟩ := hl.getAncestor_walkUp hp hle
    exact ⟨q, hget, hwalk, hheight⟩

/-- The first block and one below it. -/
def twoBlocks : BlockStore := [⟨none, 0, none⟩, ⟨some 0, 1, some 0⟩]

theorem twoBlocks_ancestors : BlockTree twoBlocks ∧ ∃ q, getAncestor twoBlocks (some 1) 0 = .ok (some q) ∧
    walkUp (prevOf twoBlocks) 1 1 = some q ∧ heightOf twoBlocks q = 0 :=
  have htree : BlockTree twoBlocks := .add .genesis (show 0 < 1 by decide) (by decide)
  ⟨htree, (blockTree_ancestors _ htree).2.1 1 0 (by decide) (by decide)⟩

end KrovaCoin
