import Mathlib

/-!
# A register that keeps the latest value

A register of values with time stamps: a value replaces the present one if its stamp is later. The result of a sequence
of writes depends on their order when two values share the latest stamp.

* `foldl_keepLatest_agree`, `foldl_keepLatest_first` — what two orders have in common, and how they differ.
-/

namespace KrovaCoin.Lib

section Latest

variable {α τ : Type} [LinearOrder τ] (time : α → τ)

/-- One write: a value of the same time does not replace the present one. -/
def keepLatest (s : Option α) (a : α) : Option α :=
  match s with
  | none => some a
  | some b => if time b ≥ time a then some b else some a

/-- The value is later than that of the register. -/
def Later (s : Option α) (a : α) : Prop := ∀ b ∈ s, time b < time a

/-- Of the values later than that of the register, one alone has the latest time. -/
def SingleLatest (s : Option α) (M : α → Prop) : Prop :=
  ∀ a b, M a → M b → Later time s a → (∀ c, M c → time c ≤ time a) → time b = time a → a = b

variable {time} {s : Option α}

theorem keepLatest_of_later {a : α} (h : Later time s a) : keepLatest time s a = some a := by
  cases s with
  | none => rfl
  | some b => exact if_neg (not_le.mpr (h b rfl))

theorem keepLatest_of_not_later {a : α} (h : ¬ Later time s a) : keepLatest time s a = s := by
  cases s with
  | none => exact absurd (fun _ hb => by cases hb) h
  | some b =>
    refine if_pos (not_lt.mp fun hlt => h ?_)
    rintro c ⟨⟩
    exact hlt

/-- A write stores its value, or leaves the register; both are as late as before. -/
theorem Later.of_keepLatest {a b : α} (h : Later time (keepLatest time s a) b) : Later time s b ∧ time a < time b := by
  by_cases hlater : Later time s a
  · rw [keepLatest_of_later hlater] at h
    exact ⟨fun c hc => (hlater c hc).trans (h a rfl), h a rfl⟩
  · rw [keepLatest_of_not_later hlater] at h
    refine ⟨h, ?_⟩
    by_contra hle
    exact hlater fun c hc => (h c hc).trans_le (not_lt.mp hle)

theorem Later.of_foldl {l : List α} {b : α} (h : Later time (l.foldl (keepLatest time) s) b) :
    Later time s b ∧ ∀ a ∈ l, time a < time b := by
  induction l generalizing s with
  | nil => exact ⟨h, fun _ ha => absurd ha List.not_mem_nil⟩
  | cons a l ih =>
    obtain ⟨hstep, hrest⟩ := ih h
    exact ⟨hstep.of_keepLatest.1, List.forall_mem_cons.mpr ⟨hstep.of_keepLatest.2, hrest⟩⟩

variable (time) in
/-- The register holds its first value, or one of the values written that are later. -/
theorem foldl_keepLatest_choice (l : List α) : l.foldl (keepLatest time) s = s ∨
      ∃ a ∈ l, Later time s a ∧ l.foldl (keepLatest time) s = some a := by
  induction l generalizing s with
  | nil => exact .inl rfl
  | cons a l ih =>
    rw [List.foldl_cons]
    by_cases hlater : Later time s a
    · rw [keepLatest_of_later hlater]
      rcases ih (s := some a) with hsame | ⟨b, hb, hab, heq⟩
      · exact .inr ⟨a, List.mem_cons_self, hlater, hsame⟩
      · exact .inr ⟨b, List.mem_cons_of_mem _ hb, fun c hc => (hlater c hc).trans (hab a rfl), heq⟩
    · rw [keepLatest_of_not_later hlater]
      rcases ih (s := s) with hsame | ⟨b, hb, hlater', heq⟩
      · exact .inl hsame
      · exact .inr ⟨b, List.mem_cons_of_mem _ hb, hlater', heq⟩

/-- Two sequences of the same values leave the same register, if one value alone is the latest. -/
theorem foldl_keepLatest_agree {M : α → Prop} (hsingle : SingleLatest time s M) {l l' : List α}
    (hl : ∀ a, a ∈ l ↔ M a) (hl' : ∀ a, a ∈ l' ↔ M a) :
    l.foldl (keepLatest time) s = l'.foldl (keepLatest time) s := by
  -- what is stored is no earlier than anything written, in either order
  have hnot : ∀ {k : List α}, (∀ a, a ∈ k ↔ M a) → ∀ a, M a → ¬ Later time (k.foldl (keepLatest time) s) a :=
    fun hk a ha hlater => lt_irrefl _ (hlater.of_foldl.2 a ((hk a).mpr ha))
  rcases foldl_keepLatest_choice time (s := s) l with hs | ⟨a, ha, hlater, heq⟩ <;>
    rcases foldl_keepLatest_choice time (s := s) l' with hs' | ⟨b, hb, hlater', heq'⟩
  · rw [hs, hs']
  · exact absurd (by rw [hs]; exact hlater') (hnot hl b ((hl' b).mp hb))
  · exact absurd (by rw [hs']; exact hlater) (hnot hl' a ((hl a).mp ha))
  · have hle : ∀ c, M c → time c ≤ time a := fun c hc => by
      refine not_lt.mp fun hlt => hnot hl c hc ?_
      rw [heq]
      rintro d ⟨⟩
      exact hlt
    have hge : time a ≤ time b := by
      refine not_lt.mp fun hlt => hnot hl' a ((hl a).mp ha) ?_
      rw [heq']
      rintro d ⟨⟩
      exact hlt
    have hMb := (hl' b).mp hb
    rw [heq, heq', hsingle a b ((hl a).mp ha) hMb hlater hle (le_antisymm (hle b hMb) hge)]

theorem foldl_keepLatest_first {a : α} {l : List α} (hlater : Later time s a) (hle : ∀ c ∈ l, time c ≤ time a) :
    (a :: l).foldl (keepLatest time) s = some a := by
  rw [List.foldl_cons, keepLatest_of_later hlater]
  rcases foldl_keepLatest_choice time (s := some a) l with hsame | ⟨b, hb, hlater', -⟩
  · exact hsame
  · exact absurd (hlater' a rfl) (not_lt.mpr (hle b hb))

end Latest

end KrovaCoin.Lib
