import Mathlib

/-!
# Ledgers and their unspent values

A ledger is a list of entries, the newest first. An entry spends keys and creates values at keys.

Principal results: `unspent_ne_none_iff`, `Along.sum_unspent_le`.
-/

namespace KrovaCoin.Lib

variable {E K V : Type} [DecidableEq K] {spends : E → List K} {creates : E → K → Option V} {e : E}
  {newer older es : List E} {k : K} {v : V}

/-- The value at a key after the entries: the inputs of an entry are spent before its outputs are created. -/
def unspent (spends : E → List K) (creates : E → K → Option V) : List E → K → Option V
  | [], _ => none
  | e :: older, k =>
    match creates e k with
    | some v => some v
    | none => if k ∈ spends e then none else unspent spends creates older k

/-- Every entry spends only what is there. -/
def Ordered (spends : E → List K) (creates : E → K → Option V) : List E → Prop
  | [] => True
  | e :: older => (∀ k ∈ spends e, unspent spends creates older k ≠ none) ∧ Ordered spends creates older

/-- Every entry is so related to the older ones. -/
def Along (R : E → List E → Prop) : List E → Prop
  | [] => True
  | e :: older => R e older ∧ Along R older

theorem Along.mono {R S : E → List E → Prop} (himp : ∀ {e older}, R e older → S e older) :
    ∀ {es : List E}, Along R es → Along S es
  | [], _ => trivial
  | _ :: _, ⟨hR, h⟩ => ⟨himp hR, h.mono himp⟩

/-- The sum over all entries. -/
def sumAlong (f : E → List E → Int) : List E → Int
  | [] => 0
  | e :: older => f e older + sumAlong f older

theorem sumAlong_add (f g : E → List E → Int) : ∀ es : List E,
    sumAlong (fun e older => f e older + g e older) es = sumAlong f es + sumAlong g es
  | [] => rfl
  | e :: older => by
    have ih := sumAlong_add f g older
    simp only [sumAlong]
    omega

theorem unspent_cons_of_none (h : creates e k = none) :
    unspent spends creates (e :: older) k = if k ∈ spends e then none else unspent spends creates older k := by
  rw [unspent, h]

theorem unspent_cons_of_some (h : creates e k = some v) : unspent spends creates (e :: older) k = some v := by
  rw [unspent, h]

/-- **What is there was created and not spent since.** -/
theorem unspent_ne_none_iff : unspent spends creates es k ≠ none ↔
    ∃ newer e older, es = newer ++ e :: older ∧ creates e k ≠ none ∧ ∀ e' ∈ newer, k ∉ spends e' := by
  induction es with
  | nil => simp [unspent]
  | cons e es ih =>
    cases hcreates : creates e k with
    | some v =>
      rw [unspent_cons_of_some hcreates]
      refine iff_of_true (by simp) ⟨[], e, es, rfl, by simp [hcreates], by simp⟩
    | none =>
      rw [unspent_cons_of_none hcreates]
      by_cases hspends : k ∈ spends e
      · rw [if_pos hspends]
        refine iff_of_false (by simp) ?_
        rintro ⟨newer, e', older, heq, hcreates', hnot⟩
        cases newer with
        | nil =>
          cases heq
          exact hcreates' hcreates
        | cons e'' newer =>
          cases heq
          exact hnot e List.mem_cons_self hspends
      · rw [if_neg hspends, ih]
        constructor
        · rintro ⟨newer, e', older, rfl, hcreates', hnot⟩
          refine ⟨e :: newer, e', older, rfl, hcreates', ?_⟩
          simpa using ⟨hspends, hnot⟩
        · rintro ⟨newer, e', older, heq, hcreates', hnot⟩
          cases newer with
          | nil =>
            cases heq
            exact absurd hcreates hcreates'
          | cons e'' newer =>
            cases heq
            exact ⟨newer, e', older, rfl, hcreates', fun a ha => hnot a (List.mem_cons_of_mem _ ha)⟩

/-- A key that the newer entries do not create is spent by one of them or as it was before. -/
theorem unspent_append (h : ∀ e ∈ newer, creates e k = none) : unspent spends creates (newer ++ older) k =
      if ∃ e ∈ newer, k ∈ spends e then none else unspent spends creates older k := by
  induction newer with
  | nil => simp
  | cons e newer ih =>
    rw [List.cons_append, unspent_cons_of_none (h e List.mem_cons_self),
      ih fun e' he' => h e' (List.mem_cons_of_mem _ he')]
    by_cases hspends : k ∈ spends e
    · simp [hspends]
    · simp [hspends]

/-- A value that is there and was not created by the newer entries was there before. -/
theorem unspent_of_append (h : unspent spends creates (newer ++ older) k = some v)
    (hnot : ∀ e ∈ newer, creates e k ≠ some v) : unspent spends creates older k = some v := by
  induction newer with
  | nil => exact h
  | cons e newer ih =>
    cases hcreates : creates e k with
    | some v' =>
      rw [List.cons_append, unspent_cons_of_some hcreates] at h
      exact absurd (hcreates.trans h) (hnot e List.mem_cons_self)
    | none =>
      rw [List.cons_append, unspent_cons_of_none hcreates] at h
      split at h
      · cases h
      · exact ih h fun e' he' => hnot e' (List.mem_cons_of_mem _ he')

/-- A key that the newer entries of an ordered ledger spend and do not create was there before them. -/
theorem Ordered.unspent_of_spent (h : Ordered spends creates (newer ++ older)) (hspent : ∃ e ∈ newer, k ∈ spends e)
    (hnot : ∀ e ∈ newer, creates e k = none) : unspent spends creates older k ≠ none := by
  induction newer with
  | nil => simp at hspent
  | cons e newer ih =>
    rw [List.cons_append] at h
    obtain ⟨hthere, hrest⟩ := h
    have hnot' : ∀ e' ∈ newer, creates e' k = none := fun e' he' => hnot e' (List.mem_cons_of_mem _ he')
    by_cases hlater : ∃ e' ∈ newer, k ∈ spends e'
    · exact ih hrest hlater hnot'
    · obtain ⟨e', he', hspends⟩ := hspent
      rcases List.mem_cons.mp he' with rfl | he'
      · have := hthere k hspends
        rwa [unspent_append hnot', if_neg hlater] at this
      · exact absurd ⟨e', he', hspends⟩ hlater

/-- An entry creates values of no more than what it takes away and a gain. -/
structure Gains (spends : E → List K) (creates : E → K → Option V) (w : V → Int) (gain : E → List E → Int) (e : E)
    (older : List E) : Prop where
  nodup : (spends e).Nodup
  nonneg : ∀ k v, creates e k = some v → 0 ≤ w v
  sum_le : ∀ keys : Finset K, ∑ k ∈ keys, (creates e k).elim 0 w ≤
    ((spends e).map fun k => (unspent spends creates older k).elim 0 w).sum + gain e older

variable {w : V → Int} {gain : E → List E → Int}

theorem Along.unspent_nonneg (h : Along (Gains spends creates w gain) es) (k : K) :
    0 ≤ (unspent spends creates es k).elim 0 w := by
  induction es with
  | nil => exact le_refl 0
  | cons e older ih =>
    cases hcreates : creates e k with
    | some v =>
      rw [unspent_cons_of_some hcreates]
      exact h.1.nonneg k v hcreates
    | none =>
      rw [unspent_cons_of_none hcreates]
      split
      · exact le_refl 0
      · exact ih h.2

/-- **The values that are there add up to no more than all gains.** -/
theorem Along.sum_unspent_le (h : Along (Gains spends creates w gain) es) (keys : Finset K) :
    ∑ k ∈ keys, (unspent spends creates es k).elim 0 w ≤ sumAlong gain es := by
  induction es generalizing keys with
  | nil => simp [unspent, sumAlong]
  | cons e older ih =>
    have hnonneg := h.2.unspent_nonneg
    -- with the keys that the entry spends, what it takes away is part of the sum before
    have hspent : ((spends e).map fun k => (unspent spends creates older k).elim 0 w).sum =
        ∑ k ∈ keys ∪ (spends e).toFinset, if k ∈ spends e then (unspent spends creates older k).elim 0 w else 0 := by
      simp only [← List.mem_toFinset]
      rw [Finset.sum_ite_mem, Finset.inter_eq_right.mpr Finset.subset_union_right, List.sum_toFinset _ h.1.nodup]
    have hstep : ∀ k, (unspent spends creates (e :: older) k).elim 0 w ≤ (creates e k).elim 0 w +
        ((unspent spends creates older k).elim 0 w -
          if k ∈ spends e then (unspent spends creates older k).elim 0 w else 0) := by
      intro k
      have hk := hnonneg k
      rw [unspent]
      split <;> split <;> simp_all
    calc ∑ k ∈ keys, (unspent spends creates (e :: older) k).elim 0 w
      _ ≤ ∑ k ∈ keys ∪ (spends e).toFinset, (unspent spends creates (e :: older) k).elim 0 w :=
        Finset.sum_le_sum_of_subset_of_nonneg Finset.subset_union_left fun k _ _ => h.unspent_nonneg k
      _ ≤ ∑ k ∈ keys ∪ (spends e).toFinset, ((creates e k).elim 0 w +
          ((unspent spends creates older k).elim 0 w -
            if k ∈ spends e then (unspent spends creates older k).elim 0 w else 0)) :=
        Finset.sum_le_sum fun k _ => hstep k
      _ ≤ sumAlong gain (e :: older) := by
        rw [Finset.sum_add_distrib, Finset.sum_sub_distrib, ← hspent, sumAlong]
        have hcreated := h.1.sum_le (keys ∪ (spends e).toFinset)
        have hbefore := ih h.2 (keys ∪ (spends e).toFinset)
        omega

theorem sum_find?_le {K A : Type} [DecidableEq K] (p : K × A → Bool) {w : K × A → Int} (keys : Finset K) :
    ∀ {l : List (K × A)}, (∀ x ∈ l, 0 ≤ w x) →
      ∑ k ∈ keys, (l.find? fun x => x.1 == k && p x).elim 0 w ≤ (l.map w).sum
  | [], _ => by simp
  | x :: l, h => by
    have ih := sum_find?_le p keys fun y hy => h y (List.mem_cons_of_mem _ hy)
    have hstep : ∀ k, ((x :: l).find? fun x => x.1 == k && p x).elim 0 w ≤
        (if x.1 = k then w x else 0) + (l.find? fun x => x.1 == k && p x).elim 0 w := by
      intro k
      have hx := h x List.mem_cons_self
      have hrest : 0 ≤ (l.find? fun x => x.1 == k && p x).elim 0 w := by
        cases hfind : l.find? fun x => x.1 == k && p x with
        | none => exact le_refl 0
        | some y => exact h y (List.mem_cons_of_mem _ (List.mem_of_find?_eq_some hfind))
      rw [List.find?_cons]
      grind
    calc ∑ k ∈ keys, ((x :: l).find? fun x => x.1 == k && p x).elim 0 w
      _ ≤ ∑ k ∈ keys, ((if x.1 = k then w x else 0) + (l.find? fun x => x.1 == k && p x).elim 0 w) :=
        Finset.sum_le_sum fun k _ => hstep k
      _ ≤ ((x :: l).map w).sum := by
        rw [Finset.sum_add_distrib, Finset.sum_ite_eq, List.map_cons, List.sum_cons]
        have hx := h x List.mem_cons_self
        split <;> omega

end KrovaCoin.Lib
