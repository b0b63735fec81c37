import Mathlib

/-!
# Serialised callbacks of a scheduler client

`SingleThreadedSchedulerClient` of `scheduler.cpp`. Any number of threads add callbacks, take scheduled
`ProcessQueue` tasks and run them; `step` moves one thread to its next critical section of
`m_cs_callbacks_pending` or to its next call of the scheduler, so a list of events is an interleaving.
-/

namespace KrovaCoin.SchedulerClient

variable {ι α : Type} [DecidableEq ι]

/-- Where a thread is with respect to the client. `inside` is the callback that called `AddToProcessQueue`. -/
inductive Position (α : Type) where
  | outside
  | processQueue
  | callback (c : α)
  | clearFlag
  | maybeSchedule (inside : Option α)
  | schedule (inside : Option α)
  deriving DecidableEq, Repr

namespace Position

/-- The callback that the thread is executing. -/
def running : Position α → Option α
  | callback c => some c
  | maybeSchedule inside | schedule inside => inside
  | _ => none

/-- The thread has set `m_are_callbacks_running` and not yet reset it. -/
def Owns (p : Position α) : Prop := p = clearFlag ∨ p.running.isSome

/-- The thread still has to look at the queue, or to schedule a look at it. -/
def Looks : Position α → Prop
  | processQueue | maybeSchedule _ | schedule _ => True
  | _ => False

/-- Where `AddToProcessQueue` returns to. -/
def resume : Option α → Position α
  | none => outside
  | some c => callback c

@[simp] theorem resume_owns (inside : Option α) : (resume inside).Owns ↔ inside.isSome := by
  cases inside <;> simp [resume, Owns, running]

end Position

/-- The client, the tasks of the scheduler that call `ProcessQueue` and the position of each thread; `added` and
`started` are the history of the callbacks. -/
structure State (ι α : Type) where
  callbacksPending : List α := []
  areCallbacksRunning : Bool := false
  scheduled : Nat := 0
  threads : ι → Position α := fun _ => .outside
  added : List α := []
  started : List α := []

/-- What a thread does next. -/
inductive Event (ι α : Type) where
  | addToProcessQueue (i : ι) (func : α)
  | serviceQueue (i : ι)
  | emptyQueue (i : ι)
  | advance (i : ι)

namespace State

/-- Thread `i` goes to `p`. -/
def goto (s : State ι α) (i : ι) (p : Position α) : State ι α :=
  { s with threads := Function.update s.threads i p }

/-- The critical section of `AddToProcessQueue`. -/
def addToProcessQueue (s : State ι α) (i : ι) (inside : Option α) (func : α) : State ι α :=
  { s with callbacksPending := s.callbacksPending ++ [func], added := s.added ++ [func] }.goto i
    (.maybeSchedule inside)

/-- The critical section of `ProcessQueue`. -/
def processQueue (s : State ι α) (i : ι) : State ι α :=
  if s.areCallbacksRunning then s.goto i .outside
  else match s.callbacksPending with
    | [] => s.goto i .outside
    | callback :: rest =>
      { s with areCallbacksRunning := true, callbacksPending := rest,
               started := s.started ++ [callback] }.goto i (.callback callback)

/-- The critical section of `MaybeScheduleProcessQueue`. -/
def maybeScheduleProcessQueue (s : State ι α) (i : ι) (inside : Option α) : State ι α :=
  if s.areCallbacksRunning then s.goto i (.resume inside)
  else if s.callbacksPending.isEmpty then s.goto i (.resume inside)
  else s.goto i (.schedule inside)

/-- One step of a thread that is in the client. A callback may return or throw: the destructor of
`RAIICallbacksRunning` runs either way. -/
def advance (s : State ι α) (i : ι) : State ι α :=
  match s.threads i with
  | .outside => s
  | .processQueue => s.processQueue i
  | .callback _ => s.goto i .clearFlag
  | .clearFlag => { s with areCallbacksRunning := false }.goto i (.maybeSchedule none)
  | .maybeSchedule inside => s.maybeScheduleProcessQueue i inside
  | .schedule inside => { s with scheduled := s.scheduled + 1 }.goto i (.resume inside)

/-- One event; an event that the thread is not in a position for changes nothing. -/
def step (s : State ι α) : Event ι α → State ι α
  | .addToProcessQueue i func =>
    match s.threads i with
    | .outside => s.addToProcessQueue i none func
    | .callback c => s.addToProcessQueue i (some c) func
    | _ => s
  | .serviceQueue i =>
    match s.threads i, s.scheduled with
    | .outside, n + 1 => { s with scheduled := n }.goto i .processQueue
    | _, _ => s
  | .emptyQueue i =>
    match s.threads i with
    | .outside => s.goto i .processQueue
    | _ => s
  | .advance i => s.advance i

def run (es : List (Event ι α)) : State ι α := es.foldl step {}

end State

/-- The next step of thread `i` in `MaybeScheduleProcessQueue` leads to a scheduled `ProcessQueue`. -/
def WillSchedule (s : State ι α) (i : ι) : Prop :=
  (∃ inside, s.threads i = .schedule inside) ∨
    (∃ inside, s.threads i = .maybeSchedule inside) ∧ s.areCallbacksRunning = false ∧ s.callbacksPending ≠ []

/-! ## The invariant -/

/-- `owner` ties the running flag to the one thread that will reset it; `live` says who is responsible for a
pending callback. -/
structure Consistent (s : State ι α) : Prop where
  order : s.started ++ s.callbacksPending = s.added
  owner : ∀ i, (s.threads i).Owns → s.areCallbacksRunning = true
  unique : ∀ i j, (s.threads i).Owns → (s.threads j).Owns → i = j
  owned : s.areCallbacksRunning = true → ∃ i, (s.threads i).Owns
  live : s.callbacksPending ≠ [] →
    s.areCallbacksRunning = true ∨ 0 < s.scheduled ∨ ∃ i, (s.threads i).Looks

variable {s : State ι α} {i : ι} {p : Position α}

theorem Consistent.init : Consistent ({} : State ι α) where
  order := rfl
  owner i h := by simp [Position.Owns, Position.running] at h
  unique i j h := by simp [Position.Owns, Position.running] at h
  owned h := by cases h
  live h := absurd rfl h

/-- A thread that keeps its ownership may go anywhere, as long as somebody still looks at a pending callback. -/
theorem Consistent.goto (h : Consistent s) (n : Nat) (hp : p.Owns ↔ (s.threads i).Owns)
    (hl : s.callbacksPending ≠ [] → s.areCallbacksRunning = true ∨ 0 < n ∨ p.Looks ∨
      ∃ j ≠ i, (s.threads j).Looks) : Consistent ({ s with scheduled := n }.goto i p) := by
  have howns : ∀ j, ((s.goto i p).threads j).Owns ↔ (s.threads j).Owns := by
    intro j
    by_cases hj : j = i
    · subst hj
      simpa [State.goto] using hp
    · simp [State.goto, hj]
  refine ⟨h.order, fun j hj => h.owner j ((howns j).mp hj),
    fun j k hj hk => h.unique j k ((howns j).mp hj) ((howns k).mp hk), fun hr => ?_, fun hne => ?_⟩
  · obtain ⟨j, hj⟩ := h.owned hr
    exact ⟨j, (howns j).mpr hj⟩
  · rcases hl hne with hr | hs | hp | ⟨j, hji, hj⟩
    · exact .inl hr
    · exact .inr (.inl hs)
    · exact .inr (.inr ⟨i, by simpa [State.goto] using hp⟩)
    · exact .inr (.inr ⟨j, by simpa [State.goto, hji] using hj⟩)

/-- A thread that does not look itself leaves the obligation to the others. -/
theorem Consistent.live_others (h : Consistent s) (hi : ¬ (s.threads i).Looks) (hne : s.callbacksPending ≠ []) :
    s.areCallbacksRunning = true ∨ 0 < s.scheduled ∨ p.Looks ∨ ∃ j ≠ i, (s.threads j).Looks := by
  rcases h.live hne with hr | hs | ⟨j, hj⟩
  · exact .inl hr
  · exact .inr (.inl hs)
  · exact .inr (.inr (.inr ⟨j, fun hji => hi (hji ▸ hj), hj⟩))

theorem Consistent.addToProcessQueue (h : Consistent s) {inside : Option α} (func : α)
    (hi : s.threads i = .resume inside) : Consistent (s.addToProcessQueue i inside func) := by
  have howns : (Position.maybeSchedule inside).Owns ↔ (s.threads i).Owns := by
    rw [hi, Position.resume_owns]
    simp [Position.Owns, Position.running]
  -- the invariant of the state before the push, with the thread already in `MaybeScheduleProcessQueue`
  have hmoved := h.goto s.scheduled howns fun _ => .inr (.inr (.inl trivial))
  refine ⟨?_, hmoved.owner, hmoved.unique, hmoved.owned, fun _ => .inr (.inr ⟨i, ?_⟩)⟩
  · simp [State.addToProcessQueue, State.goto, ← h.order]
  · simp [State.addToProcessQueue, State.goto, Position.Looks]

theorem Consistent.processQueue (h : Consistent s) (hi : s.threads i = .processQueue) :
    Consistent (s.processQueue i) := by
  have howns : (Position.outside : Position α).Owns ↔ (s.threads i).Owns := by
    simp [hi, Position.Owns, Position.running]
  unfold State.processQueue
  split
  case isTrue hr => exact h.goto _ howns fun _ => .inl hr
  case isFalse hr =>
    split
    case h_1 hnil => exact h.goto _ howns fun hne => absurd hnil hne
    case h_2 callback rest hcons =>
      have hfree : ∀ j, ¬ (s.threads j).Owns := fun j hj => hr (h.owner j hj)
      have honly : ∀ j, (Function.update s.threads i (Position.callback callback) j).Owns → j = i := by
        intro j hj
        by_contra hji
        simp only [Function.update_of_ne hji] at hj
        exact hfree j hj
      refine ⟨?_, fun _ _ => rfl, fun j k hj hk => (honly j hj).trans (honly k hk).symm, fun _ => ⟨i, ?_⟩,
        fun _ => .inl rfl⟩
      · simp [State.goto, ← h.order, hcons]
      · simp [State.goto, Position.Owns, Position.running]

/-- The only owner resets the flag and goes on to look at the queue. -/
theorem Consistent.clearFlag (h : Consistent s) (hi : s.threads i = .clearFlag) :
    Consistent ({ s with areCallbacksRunning := false }.goto i (.maybeSchedule none)) := by
  have hnone : ∀ j, ¬ (Function.update s.threads i (Position.maybeSchedule none) j).Owns := by
    intro j hj
    by_cases hji : j = i
    · subst hji
      simp [Position.Owns, Position.running] at hj
    · rw [Function.update_of_ne hji] at hj
      exact hji (h.unique j i hj (.inl hi))
  refine ⟨h.order, fun j hj => absurd hj (hnone j), fun j _ hj => absurd hj (hnone j), fun hr => absurd hr Bool.false_ne_true,
    fun _ => .inr (.inr ⟨i, ?_⟩)⟩
  simp [State.goto, Position.Looks]

theorem Consistent.maybeScheduleProcessQueue (h : Consistent s) {inside : Option α}
    (hi : s.threads i = .maybeSchedule inside) : Consistent (s.maybeScheduleProcessQueue i inside) := by
  have howns : (s.threads i).Owns ↔ inside.isSome := by simp [hi, Position.Owns, Position.running]
  have hback : (Position.resume inside).Owns ↔ (s.threads i).Owns := by rw [howns, Position.resume_owns]
  unfold State.maybeScheduleProcessQueue
  split
  case isTrue hr => exact h.goto _ hback fun _ => .inl hr
  case isFalse =>
    split
    case isTrue hnil => exact h.goto _ hback fun hne => absurd (List.isEmpty_iff.mp hnil) hne
    case isFalse =>
      refine h.goto _ ?_ fun _ => .inr (.inr (.inl trivial))
      rw [howns]
      simp [Position.Owns, Position.running]

theorem Consistent.advance (h : Consistent s) (i : ι) : Consistent (s.advance i) := by
  unfold State.advance
  split
  case h_1 => exact h
  case h_2 hi => exact h.processQueue hi
  case h_3 c hi =>
    refine h.goto _ ?_ (h.live_others ?_)
    · simp [hi, Position.Owns, Position.running]
    · simp [hi, Position.Looks]
  case h_4 hi => exact h.clearFlag hi
  case h_5 inside hi => exact h.maybeScheduleProcessQueue hi
  case h_6 inside hi =>
    refine h.goto _ ?_ fun _ => .inr (.inl (Nat.succ_pos _))
    rw [Position.resume_owns, hi]
    simp [Position.Owns, Position.running]

theorem Consistent.step (h : Consistent s) (e : Event ι α) : Consistent (s.step e) := by
  have henter : (Position.processQueue : Position α).Owns ↔ (Position.outside : Position α).Owns := by
    simp [Position.Owns, Position.running]
  cases e with
  | addToProcessQueue i func =>
    dsimp only [State.step]
    split
    case h_1 hi => exact h.addToProcessQueue func hi
    case h_2 c hi => exact h.addToProcessQueue func hi
    case h_3 => exact h
  | serviceQueue i =>
    dsimp only [State.step]
    split
    case h_1 n hi hn => exact h.goto n (hi ▸ henter) fun _ => .inr (.inr (.inl trivial))
    case h_2 => exact h
  | emptyQueue i =>
    dsimp only [State.step]
    split
    case h_1 hi => exact h.goto _ (hi ▸ henter) fun _ => .inr (.inr (.inl trivial))
    case h_2 => exact h
  | advance i => exact h.advance i

theorem Consistent.run (es : List (Event ι α)) : Consistent (State.run es) := by
  suffices ∀ s : State ι α, Consistent s → Consistent (es.foldl State.step s) from this _ .init
  induction es with
  | nil => exact fun s h => h
  | cons e es ih => exact fun s h => ih _ (h.step e)

/-- **Callbacks are serialised and never stranded.** After every interleaving the callbacks that have started are
the first ones that were added, in that order; at most one thread executes a callback; and while one is pending, a
callback is running, or a `ProcessQueue` call is scheduled or executing, or a thread is about to schedule one. -/
theorem run_serialised (es : List (Event ι α)) : let s := State.run es
    s.started ++ s.callbacksPending = s.added ∧
    (∀ i j, (s.threads i).running.isSome → (s.threads j).running.isSome → i = j) ∧
    (s.callbacksPending ≠ [] →
      (∃ i, (s.threads i).running.isSome) ∨ 0 < s.scheduled ∨
      (∃ i, s.threads i = .processQueue ∨ s.threads i = .clearFlag) ∨ ∃ i, WillSchedule s i) := by
  intro s
  have h : Consistent s := Consistent.run es
  refine ⟨h.order, fun i j hi hj => h.unique i j (.inr hi) (.inr hj), fun hne => ?_⟩
  cases hr : s.areCallbacksRunning with
  | true =>
    obtain ⟨i, hi | hi⟩ := h.owned hr
    · exact .inr (.inr (.inl ⟨i, .inr hi⟩))
    · exact .inl ⟨i, hi⟩
  | false =>
    rcases h.live hne with ht | hs | ⟨i, hi⟩
    · exact absurd (hr.symm.trans ht) Bool.false_ne_true
    · exact .inr (.inl hs)
    · cases hp : s.threads i with
      | processQueue => exact .inr (.inr (.inl ⟨i, .inl hp⟩))
      | maybeSchedule inside => exact .inr (.inr (.inr ⟨i, .inr ⟨⟨inside, hp⟩, hr, hne⟩⟩))
      | schedule inside => exact .inr (.inr (.inr ⟨i, .inl ⟨inside, hp⟩⟩))
      | outside | callback | clearFlag => simp [hp, Position.Looks] at hi

/-- Two threads race: the callback `1` is still running when thread `1` adds `2`, so thread `1` schedules nothing
and the end of the callback schedules the call that starts `2`. -/
example : (State.run [.addToProcessQueue (0 : Fin 2) 1, .advance 0, .advance 0, .serviceQueue 0, .advance 0,
    .addToProcessQueue 1 2, .advance 1, .advance 0, .advance 0, .advance 0, .advance 0, .serviceQueue 1,
    .advance 1]).started = [1, 2] := by decide

end KrovaCoin.SchedulerClient
