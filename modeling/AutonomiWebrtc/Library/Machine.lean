import Mathlib.Data.List.Basic
import Mathlib.Tactic.Common

/-!
# Machines with partial steps

A machine is a function `step : State → Event → Option State`; an event that is
not enabled in a state gives `none`.  Nondeterminism (what the environment
answers, which of several pending computations goes on) lives in the choice of
the events, so a property of every run is a property of every event list.

The rules used below:

* `run_invariant`: what one step preserves, a whole run preserves;
* `exists_step_of_run`: what holds at the end of a run and not at its start came about in a
  step;
* `run_length_le`: if every step earns one unit more than it borrows, the
  earnings bound the length of the run;
* `exists_run_of_progress`: if a state that is not finished always has a step and
  runs cannot be long, some run finishes;
* `guard`: the runs whose steps all meet a condition, and `exists_refused_of_run`: the first
  step of a run that does not;
* `exists_run_of_interleave`: what holds of every run of a machine holds of each of
  many independent copies, whatever the interleaving.
-/

namespace Machine

variable {State Event : Type*} {step : State → Event → Option State}

/-- Feed a list of events to the machine; `none` as soon as one is not enabled. -/
def run (step : State → Event → Option State) : State → List Event → Option State
  | state, [] => some state
  | state, event :: rest =>
      match step state event with
      | none => none
      | some next => run step next rest

@[simp] theorem run_nil (state : State) : run step state [] = some state :=
  rfl

theorem run_cons_eq_some {state final : State} {event : Event} {rest : List Event} :
    run step state (event :: rest) = some final ↔
      ∃ next, step state event = some next ∧ run step next rest = some final := by
  rw [run]
  cases step state event <;> simp

/-- A run can be continued by another one. -/
theorem run_append {state middle final : State} {first second : List Event}
    (hfirst : run step state first = some middle)
    (hsecond : run step middle second = some final) :
    run step state (first ++ second) = some final := by
  induction first generalizing state with
  | nil =>
      obtain rfl : state = middle := by simpa using hfirst
      exact hsecond
  | cons event rest ih =>
      obtain ⟨next, hstep, hrest⟩ := run_cons_eq_some.mp hfirst
      exact run_cons_eq_some.mpr ⟨next, hstep, ih hrest⟩

/-- A run splits at any point of its event list. -/
theorem exists_of_run_append {state final : State} {first second : List Event}
    (hrun : run step state (first ++ second) = some final) :
    ∃ middle, run step state first = some middle ∧ run step middle second = some final := by
  induction first generalizing state with
  | nil => exact ⟨state, rfl, hrun⟩
  | cons event rest ih =>
      obtain ⟨next, hstep, hrest⟩ := run_cons_eq_some.mp hrun
      obtain ⟨middle, hmiddle, hsecond⟩ := ih hrest
      exact ⟨middle, run_cons_eq_some.mpr ⟨next, hstep, hmiddle⟩, hsecond⟩

/-- **Invariant rule.**  A property that every step preserves holds at the end
of every run that starts in it. -/
theorem run_invariant (Inv : State → Prop)
    (hstep : ∀ state event next, Inv state → step state event = some next → Inv next)
    {state final : State} {events : List Event} (hstart : Inv state)
    (hrun : run step state events = some final) : Inv final := by
  induction events generalizing state with
  | nil =>
      obtain rfl : state = final := by simpa using hrun
      exact hstart
  | cons event rest ih =>
      obtain ⟨next, hnext, hrest⟩ := run_cons_eq_some.mp hrun
      exact ih (hstep _ _ _ hstart hnext) hrest

/-- **Rule of the step that did it.**  What holds at the end of a run and not at its start
comes about in one of its steps. -/
theorem exists_step_of_run (Holds : State → Prop) {state final : State} {events : List Event}
    (hrun : run step state events = some final) (hstart : ¬ Holds state) (hfinal : Holds final) :
    ∃ before event after current next, events = before ++ event :: after ∧
      run step state before = some current ∧ step current event = some next ∧
      ¬ Holds current ∧ Holds next := by
  induction events generalizing state with
  | nil =>
      obtain rfl : state = final := by simpa using hrun
      exact absurd hfinal hstart
  | cons event rest ih =>
      obtain ⟨next, hnext, hrest⟩ := run_cons_eq_some.mp hrun
      by_cases hholds : Holds next
      · exact ⟨[], event, rest, state, next, rfl, rfl, hnext, hstart, hholds⟩
      · obtain ⟨before, later, after, current, last, rfl, hbefore, hstep, hcurrent, hlast⟩ :=
          ih hrest hholds
        exact ⟨event :: before, later, after, current, last, rfl,
          run_cons_eq_some.mpr ⟨next, hnext, hbefore⟩, hstep, hcurrent, hlast⟩

/-- **Amortization rule.**  When every step earns one unit more than it adds to
what is owed, the number of events of a run is bounded by what it earned. -/
theorem run_length_le (Inv : State → Prop) (earned owed : State → ℕ)
    (hstep : ∀ state event next, Inv state → step state event = some next → Inv next)
    (hearn : ∀ state event next, Inv state → step state event = some next →
      earned state + owed next + 1 ≤ earned next + owed state)
    {state final : State} {events : List Event} (hstart : Inv state)
    (hrun : run step state events = some final) :
    earned state + owed final + events.length ≤ earned final + owed state := by
  induction events generalizing state with
  | nil =>
      obtain rfl : state = final := by simpa using hrun
      simp
  | cons event rest ih =>
      obtain ⟨next, hnext, hrest⟩ := run_cons_eq_some.mp hrun
      have hearned := hearn _ _ _ hstart hnext
      have hle := ih (hstep _ _ _ hstart hnext) hrest
      simp only [List.length_cons]
      omega

/-- **Progress rule.**  If every unfinished state of the invariant has a step that
keeps it, and the runs inside the invariant are bounded, some run finishes. -/
theorem exists_run_of_progress (Inv Finished : State → Prop) (bound : ℕ) {state : State}
    (hprogress : ∀ current, Inv current → ¬ Finished current →
      ∃ event next, step current event = some next ∧ Inv next)
    (hbound : ∀ events final, run step state events = some final → Inv final →
      events.length ≤ bound)
    (hstart : Inv state) :
    ∃ events final, run step state events = some final ∧ Inv final ∧ Finished final := by
  -- Either some run finishes, or there are runs of every length.
  have hlong : ∀ length : ℕ, ∃ events final, run step state events = some final ∧ Inv final ∧
      (Finished final ∨ events.length = length) := by
    intro length
    induction length with
    | zero => exact ⟨[], state, rfl, hstart, .inr rfl⟩
    | succ length ih =>
        obtain ⟨events, final, hrun, hinv, hcase⟩ := ih
        by_cases hfinished : Finished final
        · exact ⟨events, final, hrun, hinv, .inl hfinished⟩
        · obtain ⟨event, next, hstep, hnext⟩ := hprogress final hinv hfinished
          refine ⟨events ++ [event], next, ?_, hnext, .inr ?_⟩
          · exact run_append hrun (run_cons_eq_some.mpr ⟨next, hstep, rfl⟩)
          · rw [List.length_append, hcase.resolve_left hfinished]
            rfl
  obtain ⟨events, final, hrun, hinv, hfinished | hlength⟩ := hlong (bound + 1)
  · exact ⟨events, final, hrun, hinv, hfinished⟩
  · have hle := hbound events final hrun hinv
    omega

/-! ## Machines under a condition -/

/-- The machine that takes only the steps that meet a condition. -/
def guard (allowed : State → Event → Bool) (step : State → Event → Option State) (state : State)
    (event : Event) : Option State :=
  if allowed state event then step state event else none

theorem guard_eq_some {allowed : State → Event → Bool} {state next : State} {event : Event} :
    guard allowed step state event = some next ↔
      allowed state event = true ∧ step state event = some next := by
  unfold guard
  split <;> simp_all

/-- A run under a condition is a run. -/
theorem run_of_guard {allowed : State → Event → Bool} {state final : State} {events : List Event}
    (hrun : run (guard allowed step) state events = some final) :
    run step state events = some final := by
  induction events generalizing state with
  | nil => exact hrun
  | cons event rest ih =>
      obtain ⟨next, hstep, hrest⟩ := run_cons_eq_some.mp hrun
      exact run_cons_eq_some.mpr ⟨next, (guard_eq_some.mp hstep).2, ih hrest⟩

/-- **The first refused step.**  A run that is none under the condition has a first step
that does not meet it. -/
theorem exists_refused_of_run {allowed : State → Event → Bool} {state final : State}
    {events : List Event} (hrun : run step state events = some final)
    (hguard : run (guard allowed step) state events ≠ some final) :
    ∃ first event rest middle next, events = first ++ event :: rest ∧
      run (guard allowed step) state first = some middle ∧ allowed middle event = false ∧
      step middle event = some next ∧ run step next rest = some final := by
  induction events generalizing state with
  | nil => exact absurd hrun hguard
  | cons event rest ih =>
      obtain ⟨next, hstep, hrest⟩ := run_cons_eq_some.mp hrun
      cases hallowed : allowed state event with
      | false => exact ⟨[], event, rest, state, next, rfl, rfl, hallowed, hstep, hrest⟩
      | true =>
          have hnext : guard allowed step state event = some next :=
            guard_eq_some.mpr ⟨hallowed, hstep⟩
          have hlater : run (guard allowed step) next rest ≠ some final := by
            intro hlater
            exact hguard (run_cons_eq_some.mpr ⟨next, hnext, hlater⟩)
          obtain ⟨first, refused, after, middle, last, rfl, hfirst, hfinal⟩ := ih hrest hlater
          exact ⟨event :: first, refused, after, middle, last, rfl,
            run_cons_eq_some.mpr ⟨next, hnext, hfirst⟩, hfinal⟩

/-! ## Machines side by side -/

/-- Independent machines next to each other: an event goes to one of them. -/
def interleave (step : State → Event → Option State) (states : List State)
    (event : ℕ × Event) : Option (List State) :=
  match states[event.1]? with
  | none => none
  | some state => (step state event.2).map fun next => states.set event.1 next

/-- **Projection.**  Every component of an interleaved run has made a run of its
own. -/
theorem exists_run_of_interleave {states finals : List State} {events : List (ℕ × Event)}
    (hrun : run (interleave step) states events = some finals) {index : ℕ} {final : State}
    (hfinal : finals[index]? = some final) :
    ∃ state own, states[index]? = some state ∧ run step state own = some final := by
  induction events generalizing states with
  | nil =>
      obtain rfl : states = finals := by simpa using hrun
      exact ⟨final, [], hfinal, rfl⟩
  | cons event rest ih =>
      obtain ⟨middle, hstep, hrest⟩ := run_cons_eq_some.mp hrun
      obtain ⟨state, own, hstate, hown⟩ := ih hrest
      obtain ⟨which, inner⟩ := event
      unfold interleave at hstep
      split at hstep
      · cases hstep
      · rename_i before hbefore
        obtain ⟨next, hnext, rfl⟩ := Option.map_eq_some_iff.mp hstep
        by_cases hsame : which = index
        · subst hsame
          rw [List.getElem?_set_self (List.getElem?_eq_some_iff.mp hbefore).1] at hstate
          exact ⟨before, inner :: own, hbefore,
            run_cons_eq_some.mpr ⟨state, hnext.trans hstate, hown⟩⟩
        · rw [List.getElem?_set_ne hsame] at hstate
          exact ⟨state, own, hstate, hown⟩

end Machine
