import KrovaCoin.Lib.Except

/-!
# Undo logs over a map that covers values

A cache over a store can show a value of its own at a key that has a value in the store. Taking the cache's value away
makes the value of the store visible again.

Principal results: `Runs.undo_iff`, `Runs.good_iff`.
-/

namespace KrovaCoin.Lib

variable {K V W : Type}

/-! ## Operations -/

/-- An operation of a run; `take` records the value it takes. -/
inductive Op (K V : Type) where
  | add (k : K) (v : V)
  | drop (k : K) (v : V)
  | take (k : K) (v : V)

/-- The key is taken by some operation. -/
def Taken (k : K) (ops : List (Op K V)) : Prop := ∃ v, Op.take k v ∈ ops

/-- The key is added before it is taken for the first time, and taken after that. -/
def CoveredTake (k : K) : List (Op K V) → Prop
  | [] => False
  | .add k' _ :: ops => k = k' ∧ Taken k ops ∨ CoveredTake k ops
  | .drop _ _ :: ops => CoveredTake k ops
  | .take k' _ :: ops => k ≠ k' ∧ CoveredTake k ops

/-- The value is added at the key and the key is taken after that. -/
def AddedTaken (k : K) (v : V) : List (Op K V) → Prop
  | [] => False
  | .add k' v' :: ops => k = k' ∧ v = v' ∧ Taken k ops ∨ AddedTaken k v ops
  | .drop _ _ :: ops => AddedTaken k v ops
  | .take _ _ :: ops => AddedTaken k v ops

variable {k : K}

@[simp] theorem taken_nil : ¬ Taken k ([] : List (Op K V)) := by
  simp [Taken]

variable {ops : List (Op K V)}

variable {v : V}

@[simp] theorem taken_cons_add {k' : K} : Taken k (.add k' v :: ops) ↔ Taken k ops := by
  simp [Taken]

@[simp] theorem taken_cons_drop {k' : K} : Taken k (.drop k' v :: ops) ↔ Taken k ops := by
  simp [Taken]

@[simp] theorem taken_cons_take {k' : K} : Taken k (.take k' v :: ops) ↔ k = k' ∨ Taken k ops := by
  simp only [Taken, List.mem_cons, Op.take.injEq]
  constructor
  · rintro ⟨v', ⟨hk, -⟩ | hmem⟩
    · exact .inl hk
    · exact .inr ⟨v', hmem⟩
  · rintro (hk | ⟨v', hmem⟩)
    · exact ⟨v, .inl ⟨hk, rfl⟩⟩
    · exact ⟨v', .inr hmem⟩

variable {ops' : List (Op K V)}

@[simp] theorem taken_append : Taken k (ops ++ ops') ↔ Taken k ops ∨ Taken k ops' := by
  simp [Taken, exists_or]

theorem coveredTake_append_takes (inputs : List (K × V)) :
    CoveredTake k ((inputs.map fun input => Op.take input.1 input.2) ++ ops) ↔
      k ∉ inputs.map Prod.fst ∧ CoveredTake k ops := by
  induction inputs with
  | nil => simp
  | cons input inputs ih => simp only [List.map_cons, List.cons_append, CoveredTake, ih, List.mem_cons, not_or, and_assoc]

/-- Before a part of a run without takes, what is added in it and taken later counts as well. -/
theorem coveredTake_append (hops : ∀ k v, Op.take k v ∉ ops) :
    CoveredTake k (ops ++ ops') ↔ (∃ v, Op.add k v ∈ ops) ∧ Taken k ops' ∨ CoveredTake k ops' := by
  induction ops with
  | nil => simp
  | cons op ops ih =>
    have hrest : ∀ k v, Op.take k v ∉ ops := fun k v hmem => hops k v (List.mem_cons_of_mem _ hmem)
    have hnot : ¬ Taken k ops := fun ⟨v, hmem⟩ => hrest k v hmem
    cases op with
    | add k' v' =>
      simp only [List.cons_append, CoveredTake, ih hrest, taken_append, hnot, false_or, List.mem_cons, Op.add.injEq,
        exists_or, exists_and_left, exists_eq, and_true]
      tauto
    | drop k' v' => simpa [CoveredTake] using ih hrest
    | take k' v' => exact absurd List.mem_cons_self (hops k' v')

theorem addedTaken_append_takes (inputs : List (K × V)) :
    AddedTaken k v ((inputs.map fun input => Op.take input.1 input.2) ++ ops) ↔ AddedTaken k v ops := by
  induction inputs with
  | nil => simp
  | cons input inputs ih => simpa [AddedTaken] using ih

theorem AddedTaken.mem (h : AddedTaken k v ops) : Op.add k v ∈ ops := by
  induction ops with
  | nil => exact h.elim
  | cons op ops ih =>
    cases op with
    | add k' v' =>
      rcases h with ⟨rfl, rfl, -⟩ | hrest
      · exact List.mem_cons_self
      · exact List.mem_cons_of_mem _ (ih hrest)
    | drop k' v' => exact List.mem_cons_of_mem _ (ih h)
    | take k' v' => exact List.mem_cons_of_mem _ (ih h)

theorem addedTaken_append (hops : ∀ k v, Op.take k v ∉ ops) :
    AddedTaken k v (ops ++ ops') ↔ Op.add k v ∈ ops ∧ Taken k ops' ∨ AddedTaken k v ops' := by
  induction ops with
  | nil => simp
  | cons op ops ih =>
    have hrest : ∀ k v, Op.take k v ∉ ops := fun k v hmem => hops k v (List.mem_cons_of_mem _ hmem)
    have hnot : ¬ Taken k ops := fun ⟨v, hmem⟩ => hrest k v hmem
    cases op with
    | add k' v' =>
      simp only [List.cons_append, AddedTaken, ih hrest, taken_append, hnot, false_or, List.mem_cons, Op.add.injEq]
      tauto
    | drop k' v' => simpa [AddedTaken] using ih hrest
    | take k' v' => exact absurd List.mem_cons_self (hops k' v')

/-! ## Slots -/

variable [DecidableEq K]

/-- The visible value and the covered value of every key. -/
abbrev Slots (K V : Type) := K → Option V × Option V

namespace Slots

variable (s : Slots K V) {k k' : K} (v : V)

/-- A new value, over the visible one. -/
def push (k : K) (v : V) : Slots K V := Function.update s k (some v, (s k).1)

/-- The visible value is taken away. -/
def pop (k : K) : Slots K V := Function.update s k ((s k).2, none)

/-- The visible value is replaced. -/
def replace (k : K) (v : V) : Slots K V := Function.update s k (some v, (s k).2)

@[simp] theorem push_self : s.push k v k = (some v, (s k).1) := by
  simp [push]

theorem push_ne (h : k' ≠ k) : s.push k v k' = s k' := by
  simp [push, h]

@[simp] theorem pop_self : s.pop k k = ((s k).2, none) := by
  simp [pop]

theorem pop_ne (h : k' ≠ k) : s.pop k k' = s k' := by
  simp [pop, h]

@[simp] theorem replace_self : s.replace k v k = (some v, (s k).2) := by
  simp [replace]

theorem replace_ne (h : k' ≠ k) : s.replace k v k' = s k' := by
  simp [replace, h]

variable {s v}

theorem pop_push (h : (s k).2 = none) : (s.push k v).pop k = s := by
  funext k'
  by_cases hk : k' = k
  · subst hk
    rw [pop_self, push_self]
    exact Prod.ext rfl h.symm
  · rw [pop_ne _ hk, push_ne _ _ hk]

theorem push_pop (h : s k = (some v, none)) : (s.pop k).push k v = s := by
  funext k'
  by_cases hk : k' = k
  · subst hk
    rw [push_self, pop_self, h]
  · rw [push_ne _ _ hk, pop_ne _ hk]

theorem pop_comm (hk : k ≠ k') : (s.pop k).pop k' = (s.pop k').pop k := by
  unfold pop
  rw [Function.update_of_ne hk.symm, Function.update_of_ne hk, Function.update_comm hk]

/-- All values, visible or covered, have a property. -/
def All (P : V → Prop) (s : Slots K V) : Prop := ∀ k v, (s k).1 = some v ∨ (s k).2 = some v → P v

variable {P : V → Prop}

theorem All.push (hs : s.All P) (k : K) (hv : P v) : (s.push k v).All P := by
  intro k' v' h
  by_cases hk : k' = k
  · subst hk
    rw [push_self] at h
    rcases h with h | h
    · exact Option.some.inj h ▸ hv
    · exact hs k' v' (.inl h)
  · rw [push_ne _ _ hk] at h
    exact hs k' v' h

theorem All.pop (hs : s.All P) (k : K) : (s.pop k).All P := by
  intro k' v' h
  by_cases hk : k' = k
  · subst hk
    rw [pop_self] at h
    rcases h with h | h
    · exact hs k' v' (.inr h)
    · cases h
  · rw [pop_ne _ hk] at h
    exact hs k' v' h

theorem All.replace (hs : s.All P) (k : K) (hv : P v) : (s.replace k v).All P := by
  intro k' v' h
  by_cases hk : k' = k
  · subst hk
    rw [replace_self] at h
    rcases h with h | h
    · exact Option.some.inj h ▸ hv
    · exact hs k' v' (.inr h)
  · rw [replace_ne _ _ hk] at h
    exact hs k' v' h

end Slots

/-! ## Forward runs -/

/-- A run of operations. `own` are the keys whose visible value the run has added. -/
inductive Runs : Set K → Slots K V → List (Op K V) → Set K → Slots K V → Prop where
  | nil (own : Set K) (s : Slots K V) : Runs own s [] own s
  | add {own own' : Set K} {s s' : Slots K V} {ops : List (Op K V)} {k : K} {v : V} (hown : k ∉ own)
      (hcover : (s k).2 = none) (hrest : Runs (insert k own) (s.push k v) ops own' s') :
      Runs own s (.add k v :: ops) own' s'
  | drop {own own' : Set K} {s s' : Slots K V} {ops : List (Op K V)} {k : K} {v : V}
      (hrest : Runs own s ops own' s') : Runs own s (.drop k v :: ops) own' s'
  | take {own own' : Set K} {s s' : Slots K V} {ops : List (Op K V)} {k : K} {v : V}
      (hvis : (s k).1 = some v) (hrest : Runs (own \ {k}) (s.pop k) ops own' s') :
      Runs own s (.take k v :: ops) own' s'

variable {own : Set K} {s s' : Slots K V}

variable {own' : Set K}

theorem Runs.append {own'' : Set K} {s'' : Slots K V} (h : Runs own s ops own' s') (h' : Runs own' s' ops' own'' s'') :
    Runs own s (ops ++ ops') own'' s'' := by
  induction h with
  | nil => exact h'
  | add hown hcover _ ih => exact .add hown hcover (ih h')
  | drop _ ih => exact .drop (ih h')
  | take hvis _ ih => exact .take hvis (ih h')

/-- A key with a value of the run is taken before it is added again, so it does not come to be added first. -/
theorem Runs.not_coveredTake (h : Runs own s ops own' s') (hk : k ∈ own) : ¬ CoveredTake k ops := by
  induction h with
  | nil => exact id
  | @add own own' s s' ops k' v hown _ _ ih =>
    rintro (⟨rfl, -⟩ | hrest)
    · exact hown hk
    · exact ih (.inr hk) hrest
  | drop _ ih => exact ih hk
  | @take own own' s s' ops k' v _ _ ih =>
    rintro ⟨hne, hrest⟩
    exact ih ⟨hk, hne⟩ hrest

/-- If the values at the start and those that are added have a property, so have those that are taken and those at the
    end. -/
theorem Runs.all {P : V → Prop} (h : Runs own s ops own' s') (hs : s.All P) (hadds : ∀ k v, Op.add k v ∈ ops → P v) :
    s'.All P ∧ ∀ k v, Op.take k v ∈ ops → P v := by
  induction h with
  | nil => exact ⟨hs, by simp⟩
  | @add own own' s s' ops k v _ _ _ ih =>
    obtain ⟨hall, htaken⟩ := ih (hs.push k (hadds k v List.mem_cons_self)) fun k' v' hmem =>
      hadds k' v' (List.mem_cons_of_mem _ hmem)
    refine ⟨hall, fun k' v' hmem => htaken k' v' ?_⟩
    simpa using hmem
  | drop _ ih =>
    obtain ⟨hall, htaken⟩ := ih hs fun k' v' hmem => hadds k' v' (List.mem_cons_of_mem _ hmem)
    refine ⟨hall, fun k' v' hmem => htaken k' v' ?_⟩
    simpa using hmem
  | @take own own' s s' ops k v hvis _ ih =>
    obtain ⟨hall, htaken⟩ := ih (hs.pop k) fun k' v' hmem => hadds k' v' (List.mem_cons_of_mem _ hmem)
    refine ⟨hall, fun k' v' hmem => ?_⟩
    rcases List.mem_cons.mp hmem with heq | hrest
    · cases heq
      exact hs k v (.inl hvis)
    · exact htaken k' v' hrest

/-! ## Runs that cover nothing -/

/-- No value is covered. -/
def Slots.Uncovered (s : Slots K V) : Prop := ∀ k, (s k).2 = none

/-- Every addition is made at a key without a visible value. -/
def FreshAdds : Slots K V → List (Op K V) → Prop
  | _, [] => True
  | s, .add k v :: ops => (s k).1 = none ∧ FreshAdds (s.push k v) ops
  | s, .drop _ _ :: ops => FreshAdds s ops
  | s, .take k _ :: ops => FreshAdds (s.pop k) ops

theorem Slots.Uncovered.push (h : s.Uncovered) (hk : (s k).1 = none) (v : V) : (s.push k v).Uncovered := by
  intro k'
  by_cases hne : k' = k
  · rw [hne, push_self]
    exact hk
  · rw [push_ne _ _ hne]
    exact h k'

theorem Slots.Uncovered.pop (h : s.Uncovered) (k : K) : (s.pop k).Uncovered := by
  intro k'
  by_cases hne : k' = k
  · rw [hne, pop_self]
  · rw [pop_ne _ hne]
    exact h k'

theorem Runs.uncovered (h : Runs own s ops own' s') (hs : s.Uncovered) (hfresh : FreshAdds s ops) : s'.Uncovered := by
  induction h with
  | nil => exact hs
  | add _ _ _ ih => exact ih (hs.push hfresh.1 _) hfresh.2
  | drop _ ih => exact ih hs hfresh
  | take _ _ ih => exact ih (hs.pop _) hfresh

/-- Additions are fresh if their keys are absent at the start, or hold a value of the run, and are not
    taken: a key of the run cannot be added to. -/
theorem Runs.freshAdds (h : Runs own s ops own' s')
    (hadds : ∀ k v, Op.add k v ∈ ops → ((s k).1 = none ∨ k ∈ own) ∧ ¬ Taken k ops) : FreshAdds s ops := by
  induction h with
  | nil => trivial
  | @add own own' s s' ops k v hown _ _ ih =>
    refine ⟨(hadds k v List.mem_cons_self).1.resolve_right hown, ih fun k' v' hmem => ?_⟩
    obtain ⟨habsent, hnot⟩ := hadds k' v' (List.mem_cons_of_mem _ hmem)
    refine ⟨?_, by simpa using hnot⟩
    by_cases hk : k' = k
    · exact .inr (.inl hk)
    · rw [Slots.push_ne _ _ hk]
      exact habsent.imp_right .inr
  | drop _ ih =>
    apply ih
    intro k' v' hmem
    obtain ⟨habsent, hnot⟩ := hadds k' v' (List.mem_cons_of_mem _ hmem)
    exact ⟨habsent, by simpa using hnot⟩
  | take _ _ ih =>
    apply ih
    intro k' v' hmem
    obtain ⟨habsent, hnot⟩ := hadds k' v' (List.mem_cons_of_mem _ hmem)
    rw [taken_cons_take, not_or] at hnot
    rw [Slots.pop_ne _ hnot.1]
    exact ⟨habsent.imp_right fun hk => ⟨hk, hnot.1⟩, hnot.2⟩

/-- A value that is visible at the end was there and has not been taken, or has been added. -/
theorem Runs.visible (h : Runs own s ops own' s') (hs : s.Uncovered) (hfresh : FreshAdds s ops) (hk : (s' k).1 ≠ none) :
    (s k).1 ≠ none ∧ ¬ Taken k ops ∨ ∃ v, Op.add k v ∈ ops := by
  induction h with
  | nil => exact .inl ⟨hk, taken_nil⟩
  | @add own own' s s' ops k' v _ _ _ ih =>
    rcases ih (hs.push hfresh.1 v) hfresh.2 hk with ⟨hvis, hnot⟩ | ⟨v', hmem⟩
    · by_cases hne : k = k'
      · exact .inr ⟨v, hne ▸ List.mem_cons_self⟩
      · rw [Slots.push_ne _ _ hne] at hvis
        exact .inl ⟨hvis, by simpa using hnot⟩
    · exact .inr ⟨v', List.mem_cons_of_mem _ hmem⟩
  | drop _ ih =>
    rcases ih hs hfresh hk with ⟨hvis, hnot⟩ | ⟨v', hmem⟩
    · exact .inl ⟨hvis, by simpa using hnot⟩
    · exact .inr ⟨v', List.mem_cons_of_mem _ hmem⟩
  | @take own own' s s' ops k' v _ _ ih =>
    rcases ih (hs.pop k') hfresh hk with ⟨hvis, hnot⟩ | ⟨v', hmem⟩
    · by_cases hne : k = k'
      · rw [hne, Slots.pop_self] at hvis
        exact absurd (hs k') hvis
      · rw [Slots.pop_ne _ hne] at hvis
        refine .inl ⟨hvis, ?_⟩
        rw [taken_cons_take, not_or]
        exact ⟨hne, hnot⟩
    · exact .inr ⟨v', List.mem_cons_of_mem _ hmem⟩

/-- What an operation does to a plain map. -/
def Op.apply (m : K → Option V) : Op K V → K → Option V
  | .add k v => Function.update m k (some v)
  | .drop _ _ => m
  | .take k _ => Function.update m k none

/-- If nothing is covered, the visible values change as those of a plain map do. -/
theorem Runs.visible_eq (h : Runs own s ops own' s') (hs : s.Uncovered) (hfresh : FreshAdds s ops) :
    (fun k => (s' k).1) = ops.foldl Op.apply fun k => (s k).1 := by
  induction h with
  | nil => rfl
  | @add own own' s s' ops k v _ _ _ ih =>
    rw [ih (hs.push hfresh.1 v) hfresh.2, List.foldl_cons]
    congr 1
    funext k'
    simp only [Op.apply, Slots.push, Function.update_apply]
    split <;> rfl
  | drop _ ih => exact ih hs hfresh
  | @take own own' s s' ops k v _ _ ih =>
    rw [ih (hs.pop k) hfresh, List.foldl_cons]
    congr 1
    funext k'
    simp only [Op.apply, Slots.pop, Function.update_apply]
    split
    · exact hs k
    · rfl

/-! ## Backward runs -/

section Undo

variable [DecidableEq W] (key : V → W) (codec : V → V)

/-- One operation taken back; `key` is what is compared of a value, `codec` what its record reads. -/
def undoOp (op : Op K V) (w : Slots K V × Bool) : Slots K V × Bool :=
  match op with
  | .add k v => (w.1.pop k, w.2 && decide ((w.1 k).1.map key = some (key v)))
  | .drop k v => (w.1.pop k, w.2 && decide ((w.1 k).1.map key = some (key v)))
  | .take k v =>
    if (w.1 k).1.isSome then (w.1.replace k (codec v), false) else (w.1.push k (codec v), w.2)

theorem undoOp_add_comm {k k' : K} (hk : k ≠ k') (v v' : V) (w : Slots K V × Bool) :
    undoOp key codec (.add k v) (undoOp key codec (.add k' v') w) =
      undoOp key codec (.add k' v') (undoOp key codec (.add k v) w) := by
  simp only [undoOp, Slots.pop_ne _ hk, Slots.pop_ne _ hk.symm, Slots.pop_comm hk, Bool.and_right_comm]

/-- The operations taken back, the last one first. -/
def undo (ops : List (Op K V)) (s : Slots K V) : Slots K V × Bool := ops.foldr (undoOp key codec) (s, true)

theorem undo_cons (op : Op K V) (ops : List (Op K V)) (s : Slots K V) :
    undo key codec (op :: ops) s = undoOp key codec op (undo key codec ops s) := rfl

omit [DecidableEq W] in
/-- No take uncovers a value, every record is faithful, and nothing was dropped. -/
def Good : Slots K V → List (Op K V) → Prop
  | _, [] => True
  | s, .add k v :: ops => Good (s.push k v) ops
  | _, .drop _ _ :: _ => False
  | s, .take k v :: ops => (s k).2 = none ∧ codec v = v ∧ Good (s.pop k) ops

/-- What is asked of the values in an operation: added and taken values are of a kind that dropped ones
    are not taken for. -/
def Op.Ok (P : V → Prop) : Op K V → Prop
  | .add _ v => P v
  | .drop _ v => ∀ x, P x → key x ≠ key v
  | .take _ v => P v

variable {own own' : Set K} {s s' : Slots K V} {ops : List (Op K V)}

theorem Runs.undo_of_good (h : Runs own s ops own' s') (hgood : Good codec s ops) :
    undo key codec ops s' = (s, true) := by
  induction h with
  | nil => rfl
  | add _ hcover _ ih =>
    rw [undo_cons, ih hgood]
    simp [undoOp, Slots.pop_push hcover]
  | drop => exact hgood.elim
  | @take own own' s s' ops k v hvis _ ih =>
    obtain ⟨hcover, hcodec, hrest⟩ := hgood
    rw [undo_cons, ih hrest]
    simp [undoOp, hcover, hcodec, Slots.push_pop (Prod.ext hvis hcover)]

variable {P : V → Prop} {key codec}

theorem undo_all (hops : ∀ op ∈ ops, op.Ok key P) (hP : ∀ v, P v → P (codec v)) (hs : s.All P) :
    (undo key codec ops s).1.All P := by
  induction ops with
  | nil => exact hs
  | cons op ops ih =>
    have hall := ih fun o ho => hops o (List.mem_cons_of_mem _ ho)
    have hop := hops op List.mem_cons_self
    rw [undo_cons]
    cases op with
    | add k v => exact hall.pop k
    | drop k v => exact hall.pop k
    | take k v =>
      simp only [undoOp]
      split
      · exact hall.replace k (hP v hop)
      · exact hall.push k (hP v hop)

/-- **A backward run without complaint has either been exact, or has put back a value that differs from
    the one taken**, which then stays visible. -/
theorem Runs.undo_clean (h : Runs own s ops own' s') (hops : ∀ op ∈ ops, op.Ok key P) (hP : ∀ v, P v → P (codec v))
    (hcodec : ∀ v, P v → codec v = v ∨ key (codec v) ≠ key v) (hs : s'.All P)
    (hclean : (undo key codec ops s').2 = true) : ((undo key codec ops s').1 = s ∧ Good codec s ops) ∨
      ∃ k v v', (s k).1 = some v ∧ ((undo key codec ops s').1 k).1 = some v' ∧ key v' ≠ key v := by
  induction h with
  | nil => exact .inl ⟨rfl, trivial⟩
  | @add own own' s s' ops k v _ hcover _ ih =>
    rw [undo_cons] at hclean ⊢
    simp only [undoOp, Bool.and_eq_true, decide_eq_true_eq] at hclean ⊢
    obtain ⟨hclean, hmatch⟩ := hclean
    rcases ih (fun o ho => hops o (List.mem_cons_of_mem _ ho)) hs hclean with
      ⟨heq, hgood⟩ | ⟨k', u, u', hu, hu', hne⟩
    · exact .inl ⟨by rw [heq, Slots.pop_push hcover], hgood⟩
    · by_cases hk : k' = k
      · -- the comparison with the value added has failed
        subst hk
        rw [Slots.push_self] at hu
        rw [hu', Option.map_some, Option.some.injEq, Option.some.inj hu] at hmatch
        exact absurd hmatch hne
      · rw [Slots.push_ne _ _ hk] at hu
        exact .inr ⟨k', u, u', hu, (congrArg Prod.fst (Slots.pop_ne _ hk)).trans hu', hne⟩
  | @drop own own' s s' ops k v _ ih =>
    rw [undo_cons] at hclean
    simp only [undoOp, Bool.and_eq_true, decide_eq_true_eq] at hclean
    obtain ⟨x, hx, hkey⟩ := Option.map_eq_some_iff.mp hclean.2
    have hall := undo_all (fun o ho => hops o (List.mem_cons_of_mem _ ho)) hP hs
    exact absurd hkey (hops _ List.mem_cons_self x (hall k x (.inl hx)))
  | @take own own' s s' ops k v hvis _ ih =>
    rw [undo_cons] at hclean ⊢
    simp only [undoOp] at hclean ⊢
    split at hclean
    · cases hclean
    · rename_i hnone
      rw [if_neg hnone]
      simp only [Option.not_isSome_iff_eq_none] at hnone
      rcases ih (fun o ho => hops o (List.mem_cons_of_mem _ ho)) hs hclean with
        ⟨heq, hgood⟩ | ⟨k', u, u', hu, hu', hne⟩
      · rw [heq, Slots.pop_self] at hnone
        rcases hcodec v (hops _ List.mem_cons_self) with hv | hv
        · refine .inl ⟨?_, hnone, hv, hgood⟩
          rw [heq, hv, Slots.push_pop (Prod.ext hvis hnone)]
        · exact .inr ⟨k, v, codec v, hvis, by simp, hv⟩
      · by_cases hk : k' = k
        · subst hk
          rw [hu'] at hnone
          cases hnone
        · rw [Slots.pop_ne _ hk] at hu
          exact .inr ⟨k', u, u', hu, (congrArg Prod.fst (Slots.push_ne _ _ hk)).trans hu', hne⟩

/-- **The backward run restores the visible values without a complaint exactly for good runs.** -/
theorem Runs.undo_iff (h : Runs own s ops own' s') (hops : ∀ op ∈ ops, op.Ok key P) (hP : ∀ v, P v → P (codec v))
    (hcodec : ∀ v, P v → codec v = v ∨ key (codec v) ≠ key v) (hs : s'.All P) :
    ((undo key codec ops s').2 = true ∧ ∀ k, ((undo key codec ops s').1 k).1 = (s k).1) ↔ Good codec s ops := by
  constructor
  · rintro ⟨hclean, hvis⟩
    rcases h.undo_clean hops hP hcodec hs hclean with ⟨-, hgood⟩ | ⟨k, v, v', hv, hv', hne⟩
    · exact hgood
    · rw [hvis k, hv] at hv'
      exact absurd (congrArg key (Option.some.inj hv')).symm hne
  · intro hgood
    rw [h.undo_of_good key codec hgood]
    exact ⟨rfl, fun _ => rfl⟩

end Undo

/-- What makes a run good, read off its operations: nothing is dropped, a covered value is not
    uncovered, a visible one is not covered and then uncovered, and the records of the values that are
    taken are faithful, be they visible at the start or added by the run. -/
structure Undoable (codec : V → V) (own : Set K) (s : Slots K V) (ops : List (Op K V)) : Prop where
  nodrop : ∀ k v, .drop k v ∉ ops
  nocover : ∀ k, Taken k ops → (s k).2 = none
  nooverwrite : ∀ k, k ∉ own → (s k).1 ≠ none → ¬ CoveredTake k ops
  visible : ∀ k v, (s k).1 = some v → Taken k ops → codec v = v
  added : ∀ k v, AddedTaken k v ops → codec v = v

variable {codec : V → V}

theorem undoable_add (hown : k ∉ own) (hcover : (s k).2 = none) (hnot : ¬ CoveredTake k ops) :
    Undoable codec own s (.add k v :: ops) ↔ Undoable codec (insert k own) (s.push k v) ops := by
  constructor
  · rintro ⟨hdrop, hnocover, hover, hvis, hadded⟩
    refine ⟨fun k' v' hmem => hdrop k' v' (List.mem_cons_of_mem _ hmem), fun k' ht => ?_,
      fun k' hk' hsome hc => ?_, fun k' v' hv' ht => ?_, fun k' v' ha => hadded k' v' (.inr ha)⟩
    · by_cases hk : k' = k
      · subst hk
        rw [Slots.push_self]
        by_contra hne
        exact hover k' hown hne (.inl ⟨rfl, ht⟩)
      · rw [Slots.push_ne _ _ hk]
        exact hnocover k' (taken_cons_add.mpr ht)
    · rw [Set.mem_insert_iff, not_or] at hk'
      rw [Slots.push_ne _ _ hk'.1] at hsome
      exact hover k' hk'.2 hsome (.inr hc)
    · by_cases hk : k' = k
      · subst hk
        rw [Slots.push_self] at hv'
        exact hadded k' v' (.inl ⟨rfl, (Option.some.inj hv').symm, ht⟩)
      · rw [Slots.push_ne _ _ hk] at hv'
        exact hvis k' v' hv' (taken_cons_add.mpr ht)
  · rintro ⟨hdrop, hnocover, hover, hvis, hadded⟩
    have hself : Taken k ops → (s k).1 = none := fun ht => by
      have := hnocover k ht
      rwa [Slots.push_self] at this
    refine ⟨fun k' v' hmem => ?_, fun k' ht => ?_, fun k' hk' hsome hc => ?_, fun k' v' hv' ht => ?_,
      fun k' v' ha => ?_⟩
    · rcases List.mem_cons.mp hmem with h | h
      · cases h
      · exact hdrop k' v' h
    · by_cases hk : k' = k
      · rw [hk]
        exact hcover
      · have := hnocover k' (taken_cons_add.mp ht)
        rwa [Slots.push_ne _ _ hk] at this
    · rcases hc with ⟨rfl, ht⟩ | hc
      · exact hsome (hself ht)
      · by_cases hk : k' = k
        · exact hnot (hk ▸ hc)
        · refine hover k' ?_ (by rwa [Slots.push_ne _ _ hk]) hc
          simp [hk, hk']
    · have ht' := taken_cons_add.mp ht
      by_cases hk : k' = k
      · subst hk
        rw [hself ht'] at hv'
        cases hv'
      · exact hvis k' v' (by rwa [Slots.push_ne _ _ hk]) ht'
    · rcases ha with ⟨rfl, rfl, ht⟩ | ha
      · exact hvis k' v' (by rw [Slots.push_self]) ht
      · exact hadded k' v' ha

theorem undoable_take (hsome : (s k).1 = some v) : Undoable codec own s (.take k v :: ops) ↔
      (s k).2 = none ∧ codec v = v ∧ Undoable codec (own \ {k}) (s.pop k) ops := by
  constructor
  · rintro ⟨hdrop, hnocover, hover, hvis, hadded⟩
    have hk0 : (s k).2 = none := hnocover k (taken_cons_take.mpr (.inl rfl))
    refine ⟨hk0, hvis k v hsome (taken_cons_take.mpr (.inl rfl)),
      fun k' v' hmem => hdrop k' v' (List.mem_cons_of_mem _ hmem), fun k' ht => ?_,
      fun k' hk' hne hc => ?_, fun k' v' hv' ht => ?_, fun k' v' ha => hadded k' v' ha⟩
    · by_cases hk : k' = k
      · rw [hk, Slots.pop_self]
      · rw [Slots.pop_ne _ hk]
        exact hnocover k' (taken_cons_take.mpr (.inr ht))
    · by_cases hk : k' = k
      · rw [hk, Slots.pop_self] at hne
        exact hne hk0
      · rw [Slots.pop_ne _ hk] at hne
        refine hover k' (fun hmem => hk' ⟨hmem, hk⟩) hne ⟨hk, hc⟩
    · by_cases hk : k' = k
      · rw [hk, Slots.pop_self, hk0] at hv'
        cases hv'
      · rw [Slots.pop_ne _ hk] at hv'
        exact hvis k' v' hv' (taken_cons_take.mpr (.inr ht))
  · rintro ⟨hk0, hcodec, hdrop, hnocover, hover, hvis, hadded⟩
    refine ⟨fun k' v' hmem => ?_, fun k' ht => ?_, fun k' hk' hne hc => ?_, fun k' v' hv' ht => ?_,
      fun k' v' ha => hadded k' v' ha⟩
    · rcases List.mem_cons.mp hmem with h | h
      · cases h
      · exact hdrop k' v' h
    · by_cases hk : k' = k
      · rw [hk]
        exact hk0
      · have := hnocover k' ((taken_cons_take.mp ht).resolve_left hk)
        rwa [Slots.pop_ne _ hk] at this
    · obtain ⟨hk, hc⟩ := hc
      exact hover k' (fun hmem => hk' hmem.1) (by rwa [Slots.pop_ne _ hk]) hc
    · by_cases hk : k' = k
      · rw [hk, hsome] at hv'
        rw [← Option.some.inj hv', hcodec]
      · exact hvis k' v' (by rwa [Slots.pop_ne _ hk]) ((taken_cons_take.mp ht).resolve_left hk)

/-- **Goodness of a run, read off the list of its operations.** -/
theorem Runs.good_iff (h : Runs own s ops own' s') : Good codec s ops ↔ Undoable codec own s ops := by
  induction h with
  | nil own s =>
    refine ⟨fun _ => ⟨by simp, by simp, fun _ _ _ h => h, by simp, fun _ _ h => h.elim⟩, fun _ => trivial⟩
  | add hown hcover hrest ih =>
    rw [undoable_add hown hcover (hrest.not_coveredTake (Set.mem_insert _ _))]
    exact ih
  | @drop own own' s s' ops k v =>
    exact ⟨fun h => h.elim, fun h => h.nodrop k v List.mem_cons_self⟩
  | take hvis _ ih =>
    rw [undoable_take hvis]
    exact and_congr_right fun _ => and_congr_right fun _ => ih

end KrovaCoin.Lib
