import Mathlib

/-!
# Equal shares of an amount

An amount is shared equally by the members of a list whose flag is set; the first of them bears the remainder.

Principal results: `zipWith_afterShares`, `sum_shares`.
-/

namespace KrovaCoin.Lib

/-- The share of member `i`. -/
def share (flags : List Bool) (f : Int) (i : Nat) : Int :=
  if flags[i]? = some true then
    f / flags.count true + if (flags.take i).contains true then 0 else f % flags.count true
  else 0

section Shares

variable {f : Int}

/-- The share of a member is known from the number of shares and the members before it. -/
theorem share_length (done rest : List Bool) (flag : Bool) : share (done ++ flag :: rest) f done.length =
      if flag then f / (done ++ flag :: rest).count true +
        if done.contains true then 0 else f % (done ++ flag :: rest).count true
      else 0 := by
  unfold share
  cases flag <;> simp

/-- What a loop over the members leaves of their amounts, if each of `k` flagged members gives its share and the first of
    them the remainder; `fFirst` says that none has given yet. -/
def afterShares {α : Type} (flag : α → Bool) (amount : α → Int) (f : Int) (k : Nat) : Bool → List α → List Int
  | _, [] => []
  | fFirst, a :: as =>
    (amount a - if flag a then f / k + if fFirst then f % k else 0 else 0) ::
      afterShares flag amount f k (fFirst && !flag a) as

theorem afterShares_from {α : Type} (flag : α → Bool) (amount : α → Int) (rest done : List α) :
    afterShares flag amount f ((done ++ rest).countP flag) (!(done.map flag).contains true) rest =
      (rest.zipIdx done.length).map fun e => amount e.1 - share ((done ++ rest).map flag) f e.2 := by
  induction rest generalizing done with
  | nil => rfl
  | cons a rest ih =>
    have hassoc : done ++ a :: rest = (done ++ [a]) ++ rest := by simp
    have hflag : (!(done.map flag).contains true && !flag a) = !((done ++ [a]).map flag).contains true := by simp
    have hcount : (done.map flag ++ flag a :: rest.map flag).count true = (done ++ a :: rest).countP flag := by
      rw [← List.map_cons, ← List.map_append, List.count_eq_countP, List.countP_map]
      congr 1
      funext a
      simp
    have hshare := @share_length f (done.map flag) (rest.map flag) (flag a)
    rw [hcount, List.length_map, ← List.map_cons, ← List.map_append] at hshare
    have hrest := ih (done ++ [a])
    rw [← hassoc, ← hflag, List.length_append, List.length_singleton] at hrest
    rw [afterShares, List.zipIdx_cons, List.map_cons, hrest, hshare]
    cases (done.map flag).contains true <;> rfl

/-- **The loop takes off the shares**, whatever is made of what is left. -/
theorem zipWith_afterShares {α β : Type} (flag : α → Bool) (amount : α → Int) (g : α → Int → β) (as : List α) :
    List.zipWith g as (afterShares flag amount f (as.countP flag) true as) =
      as.zipIdx.map fun e => g e.1 (amount e.1 - share (as.map flag) f e.2) := by
  have hzip : ∀ (l : List α) (n : Nat) (h : α × Nat → Int),
      List.zipWith g l ((l.zipIdx n).map h) = (l.zipIdx n).map fun e => g e.1 (h e) := by
    intro l
    induction l with
    | nil =>
      intro n h
      rfl
    | cons a l ih =>
      intro n h
      rw [List.zipIdx_cons, List.map_cons, List.zipWith_cons_cons, ih, List.map_cons]
  have hall : afterShares flag amount f (as.countP flag) true as = _ := afterShares_from flag amount as []
  rw [hall, List.nil_append, List.length_nil, hzip]

theorem share_nonneg (flags : List Bool) (hf : 0 ≤ f) (i : Nat) : 0 ≤ share flags f i := by
  unfold share
  split
  · rename_i hflag
    have hcount : (0 : Int) < flags.count true :=
      Int.natCast_pos.mpr (List.count_pos_iff.mpr (List.mem_of_getElem? hflag))
    have hquot := Int.ediv_nonneg hf hcount.le
    have hrem := Int.emod_nonneg f hcount.ne'
    split <;> omega
  · exact le_refl 0

theorem share_eq_zero {flags : List Bool} {i : Nat} (h : flags[i]? ≠ some true) : share flags f i = 0 := if_neg h

theorem sum_shares_from : ∀ (rest done : List Bool),
    ((List.range' done.length rest.length).map (share (done ++ rest) f)).sum =
      rest.count true * (f / (done ++ rest).count true) +
        if done.contains true then 0 else if rest.contains true then f % (done ++ rest).count true else 0
  | [], done => by simp
  | flag :: rest, done => by
    have hassoc : done ++ flag :: rest = (done ++ [flag]) ++ rest := by simp
    have ih := sum_shares_from rest (done ++ [flag])
    rw [← hassoc, List.length_append, List.length_singleton] at ih
    rw [List.length_cons, List.range'_succ, List.map_cons, List.sum_cons, ih, share_length]
    cases flag with
    | false =>
      simp
    | true =>
      cases hdone : done.contains true with
      | true =>
        simp only [if_true, List.count_cons, List.contains_append, hdone, Bool.true_or, beq_self_eq_true]
        push_cast
        ring
      | false =>
        simp only [if_true, List.count_cons, List.contains_append, hdone, List.contains_cons, List.contains_nil,
          beq_self_eq_true, Bool.true_or, Bool.false_or, Bool.false_eq_true, if_false]
        push_cast
        ring

/-- **The shares add up to the amount**, if there is a member to bear it. -/
theorem sum_shares (flags : List Bool) :
    ((List.range flags.length).map (share flags f)).sum = if flags.count true = 0 then 0 else f := by
  have h := @sum_shares_from f flags []
  rw [List.length_nil, List.nil_append, ← List.range_eq_range'] at h
  rw [h]
  by_cases hcount : flags.count true = 0
  · rw [if_pos hcount, hcount]
    simp [List.count_eq_zero.mp hcount]
  · have hmem : flags.contains true = true := by
      simpa using List.count_pos_iff.mp (Nat.pos_of_ne_zero hcount)
    rw [if_neg hcount, hmem, if_pos rfl]
    simpa using Int.mul_ediv_add_emod f (flags.count true)

theorem sum_zipIdx_sub {α : Type} (amount : α → Int) (given : Nat → Int) (as : List α) :
    (as.zipIdx.map fun e => amount e.1 - given e.2).sum =
      (as.map amount).sum - ((List.range as.length).map given).sum := by
  have hsplit : ∀ es : List (α × Nat), (es.map fun e => amount e.1 - given e.2).sum =
      ((es.map Prod.fst).map amount).sum - ((es.map Prod.snd).map given).sum := by
    intro es
    induction es with
    | nil => rfl
    | cons e es ih =>
      simp only [List.map_cons, List.sum_cons, ih]
      ring
  rw [hsplit, List.zipIdx_map_fst, List.zipIdx_map_snd, List.range_eq_range']

end Shares

end KrovaCoin.Lib
