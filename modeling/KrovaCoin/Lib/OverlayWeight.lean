import KrovaCoin.Lib.Overlay

/-!
# The weight of a map that covers values

Every value has a weight; the weight of a set of keys counts the visible and the covered values. A value that is added
stays until it is taken, so a run changes the weight by what it adds and takes.

* `Slots.weight` — the weight of a finite set of keys.

Principal result: `Runs.weight_eq`.
-/

namespace KrovaCoin.Lib

variable {K V : Type} (w : V → Int) (keys : Finset K)

def slotWeight (slot : Option V × Option V) : Int := slot.1.elim 0 w + slot.2.elim 0 w

def Slots.weight (s : Slots K V) : Int := ∑ k ∈ keys, slotWeight w (s k)

variable {w keys}

theorem Slots.weight_nonneg {s : Slots K V} (hw : ∀ v, 0 ≤ w v) : 0 ≤ s.weight w keys := by
  apply Finset.sum_nonneg
  intro k _
  unfold slotWeight
  cases (s k).1 <;> cases (s k).2 <;> simp [hw, add_nonneg]

variable [DecidableEq K]

variable (w keys) in
/-- The weight an operation adds. -/
def Op.gain : Op K V → Int
  | .add k v => if k ∈ keys then w v else 0
  | .drop _ _ => 0
  | .take k v => if k ∈ keys then -w v else 0

theorem Slots.weight_update (s : Slots K V) (k : K) (slot : Option V × Option V) :
    Slots.weight w keys (Function.update s k slot) =
      s.weight w keys + if k ∈ keys then slotWeight w slot - slotWeight w (s k) else 0 := by
  unfold Slots.weight
  by_cases hk : k ∈ keys
  · rw [if_pos hk, ← Finset.add_sum_erase keys _ hk, ← Finset.add_sum_erase keys _ hk,
      Function.update_self]
    have hrest : ∑ x ∈ keys.erase k, slotWeight w (Function.update s k slot x) =
        ∑ x ∈ keys.erase k, slotWeight w (s x) := by
      apply Finset.sum_congr rfl
      intro x hx
      rw [Function.update_of_ne (Finset.ne_of_mem_erase hx)]
    omega
  · rw [if_neg hk, add_zero]
    apply Finset.sum_congr rfl
    intro x hx
    have hne : x ≠ k := by
      rintro rfl
      exact hk hx
    rw [Function.update_of_ne hne]

theorem Slots.weight_push {s : Slots K V} {k : K} {v : V} (hcover : (s k).2 = none) :
    (s.push k v).weight w keys = s.weight w keys + if k ∈ keys then w v else 0 := by
  rw [Slots.push, Slots.weight_update]
  split
  · simp only [slotWeight, hcover, Option.elim_some, Option.elim_none]
    omega
  · rfl

theorem Slots.weight_pop {s : Slots K V} {k : K} {v : V} (hvis : (s k).1 = some v) :
    (s.pop k).weight w keys = s.weight w keys + if k ∈ keys then -w v else 0 := by
  rw [Slots.pop, Slots.weight_update]
  split
  · simp only [slotWeight, hvis, Option.elim_some, Option.elim_none]
    omega
  · rfl

/-- **A run changes the weight by what its operations add and take.** -/
theorem Runs.weight_eq {own own' : Set K} {s s' : Slots K V} {ops : List (Op K V)} (h : Runs own s ops own' s') :
    s'.weight w keys = s.weight w keys + (ops.map (Op.gain w keys)).sum := by
  induction h with
  | nil => simp
  | add _ hcover _ ih =>
    rw [ih, Slots.weight_push hcover, List.map_cons, List.sum_cons, Op.gain]
    omega
  | drop _ ih =>
    rw [ih, List.map_cons, List.sum_cons, Op.gain]
    omega
  | take hvis _ ih =>
    rw [ih, Slots.weight_pop hvis, List.map_cons, List.sum_cons, Op.gain]
    omega

end KrovaCoin.Lib
