import Mathlib

/-!
# Computations that may fail

* `bind_eq_ok` — a sequence succeeds when both parts do.
* `bind_ne_error`, `foldlM_ne_error` — a failure that no part of a computation raises.
* `forM_eq_ok` — a loop of checks succeeds when every check does.
-/

namespace KrovaCoin.Lib

variable {ε α β σ ρ : Type}

/-- Fail with `e` if the condition holds. -/
def rejectIf (c : Bool) (e : ε) : Except ε Unit := if c then .error e else .ok ()

variable {e : ε}

theorem rejectIf_eq_ok {c : Bool} {u : Unit} : rejectIf c e = .ok u ↔ c = false := by
  cases c <;> simp [rejectIf]

@[simp] theorem ok_bind (a : α) (f : α → Except ε β) : ((.ok a : Except ε α) >>= f) = f a := rfl

@[simp] theorem error_bind (e : ε) (f : α → Except ε β) : ((.error e : Except ε α) >>= f) = .error e := rfl

variable {x : Except ε α} {f : α → Except ε β}

theorem bind_eq_ok {b : β} : (x >>= f) = .ok b ↔ ∃ a, x = .ok a ∧ f a = .ok b := by
  cases x with
  | error e => simp [bind, Except.bind]
  | ok a => simp [bind, Except.bind]

theorem map_eq_ok {f : α → β} {b : β} : f <$> x = .ok b ↔ ∃ a, x = .ok a ∧ f a = b := by
  cases x with
  | error e => simp
  | ok a => simp

theorem bind_ne_error (hx : x ≠ .error e) (hf : ∀ a, x = .ok a → f a ≠ .error e) : (x >>= f) ≠ .error e := by
  cases x with
  | error e' =>
    intro h
    cases h
    exact hx rfl
  | ok a => exact hf a rfl

theorem rejectIf_ne_error {c : Bool} {e' : ε} (h : e' ≠ e) : rejectIf c e' ≠ .error e := by
  cases c <;> simp [rejectIf, h]

theorem foldlM_ne_error {f : σ → α → Except ε σ} : ∀ {l : List α} {s : σ},
    (∀ a ∈ l, ∀ s, f s a ≠ .error e) → l.foldlM f s ≠ .error e := by
  intro l
  induction l with
  | nil =>
    intro s _ h
    cases h
  | cons a l ih =>
    intro s hf
    apply bind_ne_error
    · exact hf a List.mem_cons_self s
    · intro s1 _
      exact ih fun a' ha' => hf a' (List.mem_cons_of_mem _ ha')

theorem mapM_ne_error : ∀ {l : List α}, (∀ a ∈ l, f a ≠ .error e) → l.mapM f ≠ .error e := by
  intro l
  induction l with
  | nil =>
    intro _ h
    cases h
  | cons a l ih =>
    intro hf
    rw [List.mapM_cons]
    apply bind_ne_error
    · exact hf a List.mem_cons_self
    · intro b _
      apply bind_ne_error
      · exact ih fun a' ha' => hf a' (List.mem_cons_of_mem _ ha')
      · intro bs _ h
        cases h

theorem exists_of_mapM : ∀ {l : List α} {bs : List β}, l.mapM f = .ok bs →
    ∀ a ∈ l, ∃ b ∈ bs, f a = .ok b
  | a :: l, _, h, a', ha' => by
    rw [List.mapM_cons] at h
    obtain ⟨b, hb, h⟩ := bind_eq_ok.mp h
    obtain ⟨bs, hbs, h⟩ := bind_eq_ok.mp h
    cases h
    obtain rfl | hmem := List.mem_cons.mp ha'
    · exact ⟨b, List.mem_cons_self, hb⟩
    · obtain ⟨b', hb', hf⟩ := exists_of_mapM hbs a' hmem
      exact ⟨b', List.mem_cons_of_mem _ hb', hf⟩

theorem pure_eq_ok {a b : α} : (pure a : Except ε α) = .ok b ↔ a = b := by
  simp [pure, Except.pure]

theorem forM_eq_ok {f : α → Except ε Unit} {u : Unit} : ∀ {l : List α}, l.forM f = .ok u ↔ ∀ a ∈ l, f a = .ok ()
  | [] => by simp [pure_eq_ok]
  | a :: l => by
    have hcons : (a :: l).forM f = (f a >>= fun _ => l.forM f) := rfl
    rw [hcons, bind_eq_ok, List.forall_mem_cons]
    constructor
    · rintro ⟨⟨⟩, ha, hl⟩
      exact ⟨ha, forM_eq_ok.mp hl⟩
    · rintro ⟨ha, hl⟩
      exact ⟨(), ha, forM_eq_ok.mpr hl⟩

/-- A loop keeps what every iteration keeps; the property may speak about the part of the list that is done. -/
theorem foldlM_induct {f : σ → α → Except ε σ} (P : List α → σ → Prop)
    (step : ∀ done a s s', P done s → f s a = .ok s' → P (done ++ [a]) s') :
    ∀ (l done : List α) (s s' : σ), P done s → l.foldlM f s = .ok s' → P (done ++ l) s'
  | [], done, s, s', hP, h => by
    have hs : s = s' := pure_eq_ok.mp h
    rw [List.append_nil, ← hs]
    exact hP
  | a :: l, done, s, s', hP, h => by
    obtain ⟨s1, h1, hrest⟩ := bind_eq_ok.mp h
    have := foldlM_induct P step l (done ++ [a]) s1 s' (step done a s s1 hP h1) hrest
    rwa [List.append_assoc] at this

theorem exists_ok_of_toBool (h : x.toBool = true) : ∃ a, x = .ok a := by
  cases x with
  | error e => cases h
  | ok a => exact ⟨a, rfl⟩

theorem exists_ok_some {x : Except ε (Option α)} (h : x.toOption.join.isSome = true) : ∃ a, x = .ok (some a) := by
  match x with
  | .error e => cases h
  | .ok none => cases h
  | .ok (some a) => exact ⟨a, rfl⟩

/-- If each iteration succeeds exactly when that of another loop does and `P` holds, so does the loop. -/
theorem foldlM_eq_ok_and {f g : σ → α → Except ε σ} {P : α → Prop}
    (step : ∀ s a s', f s a = .ok s' ↔ P a ∧ g s a = .ok s') : ∀ {l : List α} {s s' : σ},
      l.foldlM f s = .ok s' ↔ (∀ a ∈ l, P a) ∧ l.foldlM g s = .ok s' := by
  intro l
  induction l with
  | nil => simp
  | cons a l ih =>
    intro s s'
    rw [List.foldlM_cons, List.foldlM_cons, bind_eq_ok, bind_eq_ok, List.forall_mem_cons]
    constructor
    · rintro ⟨s1, hf, hrest⟩
      have hstep := (step s a s1).mp hf
      have htail := ih.mp hrest
      exact ⟨⟨hstep.1, htail.1⟩, s1, hstep.2, htail.2⟩
    · rintro ⟨⟨hP, hall⟩, s1, hg, hrest⟩
      exact ⟨s1, (step s a s1).mpr ⟨hP, hg⟩, ih.mpr ⟨hall, hrest⟩⟩

/-! ## Loops -/

/-- What one iteration of a loop does: it goes on, or the loop has returned. -/
inductive LoopStep (σ ρ : Type) where
  | next (s : σ)
  | done (r : ρ)

/-- A loop with a bound on the number of iterations; `none` if it is still running. -/
def whileLoop (body : σ → Except ε (LoopStep σ ρ)) : Nat → σ → Except ε (Option ρ)
  | 0, _ => .ok none
  | fuel + 1, s => do
    match ← body s with
    | .next s' => whileLoop body fuel s'
    | .done r => return some r

/-- The loop is still running after any number of iterations. -/
def Diverges (body : σ → Except ε (LoopStep σ ρ)) (s : σ) : Prop := ∀ fuel, whileLoop body fuel s = .ok none

variable {body : σ → Except ε (LoopStep σ ρ)}

theorem Diverges.of_next {s s' : σ} (hnext : body s = .ok (.next s')) (h : Diverges body s') : Diverges body s := by
  intro fuel
  cases fuel with
  | zero => rfl
  | succ fuel =>
    rw [whileLoop, hnext]
    exact h fuel

theorem Diverges.of_fixed {s : σ} (hnext : body s = .ok (.next s)) : Diverges body s := by
  intro fuel
  induction fuel with
  | zero => rfl
  | succ fuel ih =>
    rw [whileLoop, hnext]
    exact ih

/-- **Total correctness of a loop**: with an invariant that every iteration keeps while a measure falls, the
    loop returns within the measure, and what it returns satisfies the postcondition. -/
theorem whileLoop_total (Inv : σ → Prop) (Post : ρ → Prop) (μ : σ → Nat)
    (hbody : ∀ s, Inv s → (∃ s', body s = .ok (.next s') ∧ Inv s' ∧ μ s' < μ s) ∨
      ∃ r, body s = .ok (.done r) ∧ Post r) :
    ∀ {fuel : Nat} {s : σ}, Inv s → μ s < fuel → ∃ r, whileLoop body fuel s = .ok (some r) ∧ Post r := by
  intro fuel
  induction fuel with
  | zero =>
    intro s _ hfuel
    omega
  | succ fuel ih =>
    intro s hinv hfuel
    rcases hbody s hinv with ⟨s', hs', hinv', hlt⟩ | ⟨r, hr, hpost⟩
    · obtain ⟨r, hrun, hpost⟩ := ih hinv' (by omega)
      exact ⟨r, by rw [whileLoop, hs', ok_bind]; exact hrun, hpost⟩
    · exact ⟨r, by rw [whileLoop, hr, ok_bind]; rfl, hpost⟩

/-- A loop whose iterations may fail comes to an end if a measure falls while it goes on. -/
theorem whileLoop_ne_none (Inv : σ → Prop) (μ : σ → Nat)
    (hbody : ∀ s s', Inv s → body s = .ok (.next s') → Inv s' ∧ μ s' < μ s) :
    ∀ {fuel : Nat} {s : σ}, Inv s → μ s < fuel → whileLoop body fuel s ≠ .ok none := by
  intro fuel
  induction fuel with
  | zero =>
    intro s _ hfuel
    omega
  | succ fuel ih =>
    intro s hs hfuel h
    rw [whileLoop, bind_eq_ok] at h
    obtain ⟨step, hstep, h⟩ := h
    cases step with
    | next s' =>
      obtain ⟨hs', hlt⟩ := hbody s s' hs hstep
      exact ih hs' (by omega) h
    | done r => cases h

/-- What a loop returns, one of its iterations returns, in a state with the invariant. -/
theorem whileLoop_done (Inv : σ → Prop) (hbody : ∀ s s', Inv s → body s = .ok (.next s') → Inv s') :
    ∀ {fuel : Nat} {s : σ} {r : ρ}, Inv s → whileLoop body fuel s = .ok (some r) → ∃ s', Inv s' ∧ body s' = .ok (.done r) := by
  intro fuel
  induction fuel with
  | zero =>
    intro s r _ h
    cases h
  | succ fuel ih =>
    intro s r hs h
    rw [whileLoop, bind_eq_ok] at h
    obtain ⟨step, hstep, h⟩ := h
    cases step with
    | next s' => exact ih (hbody s s' hs hstep) h
    | done r' =>
      cases h
      exact ⟨s, hs, hstep⟩

end KrovaCoin.Lib
