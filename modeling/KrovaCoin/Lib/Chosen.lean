import Mathlib

/-!
# Chosen elements

A list of flags chooses elements of another list.

Principal result: `sum_chosen_set` — setting a flag adds the weight of its element.
-/

namespace KrovaCoin.Lib

variable {α : Type}

/-- The elements whose flag is set. -/
def chosen : List α → List Bool → List α
  | a :: as, b :: bs => if b then a :: chosen as bs else chosen as bs
  | _, _ => []

theorem chosen_sublist : ∀ (as : List α) (bs : List Bool), (chosen as bs).Sublist as
  | [], bs => by cases bs <;> exact .slnil
  | a :: as, [] => List.nil_sublist _
  | a :: as, b :: bs => by
    have ih := chosen_sublist as bs
    cases b with
    | true => exact ih.cons_cons a
    | false => exact ih.cons a

theorem chosen_true : ∀ as : List α, chosen as (List.replicate as.length true) = as
  | [] => rfl
  | a :: as => by
    rw [List.length_cons, List.replicate_succ, chosen, if_pos rfl, chosen_true as]

theorem chosen_false : ∀ as : List α, chosen as (List.replicate as.length false) = []
  | [] => rfl
  | a :: as => by
    rw [List.length_cons, List.replicate_succ, chosen, if_neg (by decide), chosen_false as]

theorem set_eq_self {as : List α} {i : Nat} {a : α} (h : as[i]? = some a) : as.set i a = as := by
  obtain ⟨hlt, hget⟩ := List.getElem?_eq_some_iff.mp h
  rw [← hget]
  exact List.set_getElem_self hlt

theorem sum_chosen_set (v : α → Int) : ∀ {as : List α} {bs : List Bool} {i : Nat} {a : α}, as[i]? = some a →
    bs[i]? = some false → ((chosen as (bs.set i true)).map v).sum = ((chosen as bs).map v).sum + v a
  | [], _, _, _, ha, _ => by simp at ha
  | _ :: _, [], _, _, _, hb => by simp at hb
  | a' :: as, b :: bs, 0, a, ha, hb => by
    obtain rfl : a' = a := by simpa using ha
    obtain rfl : b = false := by simpa using hb
    simp only [List.set_cons_zero, chosen, if_true, Bool.false_eq_true, if_false, List.map_cons, List.sum_cons]
    ring
  | a' :: as, b :: bs, i + 1, a, ha, hb => by
    have ih := sum_chosen_set v (show as[i]? = some a by simpa using ha) (show bs[i]? = some false by simpa using hb)
    cases b with
    | true =>
      simp only [List.set_cons_succ, chosen, if_true, List.map_cons, List.sum_cons, ih]
      ring
    | false =>
      exact ih

end KrovaCoin.Lib
