import KrovaCoin.Lib.Except

/-!
# Two's complement integers

Machine integers are kept as `Int` and reduced where a computation may leave the range of its type.
The moduli are written out, so that `omega` decides goals about them.

* `toInt64` / `toInt32` — the value a signed register holds after the mathematical result `x`.
* `Checked` — computations that stop at a failed assertion or at a value outside its type.
-/

namespace KrovaCoin.Lib

/-- `x` is representable as a signed 64-bit integer. -/
def InInt64 (x : Int) : Prop := -9223372036854775808 ≤ x ∧ x ≤ 9223372036854775807

/-- `x` is representable as a signed 32-bit integer. -/
def InInt32 (x : Int) : Prop := -2147483648 ≤ x ∧ x ≤ 2147483647

instance (x : Int) : Decidable (InInt64 x) := by unfold InInt64; infer_instance

instance (x : Int) : Decidable (InInt32 x) := by unfold InInt32; infer_instance

/-- `x` reduced to a signed 64-bit integer. -/
def toInt64 (x : Int) : Int := (x + 9223372036854775808) % 18446744073709551616 - 9223372036854775808

theorem toInt64_of_inInt64 {x : Int} (h : InInt64 x) : toInt64 x = x := by
  unfold toInt64 InInt64 at *
  omega

theorem inInt64_toInt64 (x : Int) : InInt64 (toInt64 x) := by
  unfold toInt64 InInt64
  omega

theorem toInt64_eq_iff (x y : Int) : toInt64 x = toInt64 y ↔ (x - y) % 18446744073709551616 = 0 := by
  unfold toInt64
  omega

theorem toInt64_add_toInt64 (x y : Int) : toInt64 (toInt64 x + y) = toInt64 (x + y) := by
  unfold toInt64
  omega

theorem foldl_toInt64 (l : List Int) : ∀ {v : Int}, InInt64 v →
    l.foldl (fun v x => toInt64 (v + x)) v = toInt64 (v + l.sum) := by
  induction l with
  | nil =>
    intro v hv
    rw [List.foldl_nil, List.sum_nil, Int.add_zero, toInt64_of_inInt64 hv]
  | cons x l ih =>
    intro v _
    rw [List.foldl_cons, ih (inInt64_toInt64 _), toInt64_add_toInt64, List.sum_cons, Int.add_assoc]

/-! ## Checked computations -/

/-- What stops a checked computation. -/
inductive Fault where
  | assertion
  | overflow
  deriving DecidableEq, Repr

abbrev Checked (α : Type) := Except Fault α

/-- `assert(c)`. -/
def ensure (c : Bool) : Checked Unit := if c then .ok () else .error .assertion

/-- A signed 64-bit result. -/
def checkInt64 (x : Int) : Checked Int := if InInt64 x then .ok x else .error .overflow

/-- A signed 32-bit result. -/
def checkInt32 (x : Int) : Checked Int := if InInt32 x then .ok x else .error .overflow

/-- A signed 128-bit result. -/
def checkInt128 (x : Int) : Checked Int :=
  if -170141183460469231731687303715884105728 ≤ x ∧ x ≤ 170141183460469231731687303715884105727
  then .ok x else .error .overflow

theorem ensure_of {c : Bool} (h : c = true) : ensure c = .ok () := by
  rw [ensure, if_pos h]

theorem checkInt64_of {x : Int} (h : InInt64 x) : checkInt64 x = .ok x := if_pos h

theorem checkInt32_of {x : Int} (h : InInt32 x) : checkInt32 x = .ok x := if_pos h

theorem checkInt128_of_nonneg {x : Int} (h0 : 0 ≤ x)
    (h : x ≤ 170141183460469231731687303715884105727) : checkInt128 x = .ok x :=
  if_pos ⟨by omega, h⟩

/-! What has held when a checked computation goes on. -/

theorem ensure_eq_ok {c : Bool} {u : Unit} : ensure c = .ok u ↔ c = true := by
  cases c <;> simp [ensure]

theorem checkInt64_eq_ok {x y : Int} (h : checkInt64 x = .ok y) : y = x := by
  unfold checkInt64 at h
  split at h <;> cases h
  rfl

theorem inInt64_of_checkInt64 {x y : Int} (h : checkInt64 x = .ok y) : InInt64 x := by
  unfold checkInt64 at h
  split at h
  · assumption
  · cases h

theorem foldlM_checkInt64 {α : Type} {f : α → Int} {l : List α} {x y : Int}
    (h : l.foldlM (fun x a => checkInt64 (x + f a)) x = .ok y) : y = x + (l.map f).sum := by
  induction l generalizing x with
  | nil =>
    cases h
    simp
  | cons a l ih =>
    rw [List.foldlM_cons, bind_eq_ok] at h
    obtain ⟨x', hx', h⟩ := h
    rw [ih h, checkInt64_eq_ok hx', List.map_cons, List.sum_cons, Int.add_assoc]

theorem checkInt32_eq_ok {x y : Int} (h : checkInt32 x = .ok y) : y = x := by
  unfold checkInt32 at h
  split at h <;> cases h
  rfl

theorem checkInt128_eq_ok {x y : Int} (h : checkInt128 x = .ok y) : y = x := by
  unfold checkInt128 at h
  split at h <;> cases h
  rfl

end KrovaCoin.Lib
