import Mathlib.Tactic.Common

/-!
Contract: runs of a partial, labelled step function whose steps are guarded.

Owns:
- `run`, which executes a trace of labels and stops when a step is not enabled;
- `Guarded`, which asks that every step of a trace meets a guard in the state
  it starts from;
- the invariant rule for guarded runs and the splitting of runs and guards at
  a point of the trace.
-/

namespace LabelledRun

universe u v

variable {State : Type u} {Label : Type v}

/-- Execute a trace from `state`; `none` when some step is not enabled. -/
def run (step : State → Label → Option State) : State → List Label → Option State
  | state, [] => some state
  | state, label :: trace =>
    match step state label with
    | none => none
    | some next => run step next trace

/-- Every step of the trace meets `guard` in the state it starts from. -/
def Guarded (step : State → Label → Option State) (guard : State → Label → Prop) :
    State → List Label → Prop
  | _, [] => True
  | state, label :: trace =>
    guard state label ∧
      match step state label with
      | none => True
      | some next => Guarded step guard next trace

private def guardedDecidable (step : State → Label → Option State)
    (guard : State → Label → Prop) [∀ state label, Decidable (guard state label)] :
    (state : State) → (trace : List Label) → Decidable (Guarded step guard state trace)
  | _, [] => isTrue trivial
  | state, label :: trace =>
    letI : Decidable (match step state label with
        | none => True
        | some next => Guarded step guard next trace) :=
      match step state label with
      | none => isTrue trivial
      | some next => guardedDecidable step guard next trace
    inferInstanceAs (Decidable (_ ∧ _))

instance (step : State → Label → Option State) (guard : State → Label → Prop)
    [∀ state label, Decidable (guard state label)] (state : State) (trace : List Label) :
    Decidable (Guarded step guard state trace) :=
  guardedDecidable step guard state trace

variable {step : State → Label → Option State} {guard : State → Label → Prop} {label : Label}
  {state next middle start final : State} {trace first second : List Label}

theorem run_cons_eq_some :
    run step state (label :: trace) = some final ↔
      ∃ next, step state label = some next ∧ run step next trace = some final := by
  cases enabled : step state label with
  | none => simp [run, enabled]
  | some next => simp [run, enabled]

theorem run_append_eq_some :
    run step state (first ++ second) = some final ↔
      ∃ middle, run step state first = some middle ∧ run step middle second = some final := by
  induction first generalizing state with
  | nil => simp [run]
  | cons label trace ih =>
    rw [List.cons_append, run_cons_eq_some]
    constructor
    · rintro ⟨next, enabled, rest⟩
      obtain ⟨middle, reached, tail⟩ := ih.mp rest
      exact ⟨middle, run_cons_eq_some.mpr ⟨next, enabled, reached⟩, tail⟩
    · rintro ⟨middle, reached, tail⟩
      obtain ⟨next, enabled, reachedNext⟩ := run_cons_eq_some.mp reached
      exact ⟨next, enabled, ih.mpr ⟨middle, reachedNext, tail⟩⟩

theorem Guarded.tail (guarded : Guarded step guard state (label :: trace))
    (enabled : step state label = some next) : Guarded step guard next trace := by
  have rest := guarded.2
  rwa [enabled] at rest

theorem Guarded.left_of_append (guarded : Guarded step guard state (first ++ second)) :
    Guarded step guard state first := by
  induction first generalizing state with
  | nil => trivial
  | cons label trace ih =>
    refine ⟨guarded.1, ?_⟩
    cases enabled : step state label with
    | none => trivial
    | some next => exact ih (guarded.tail enabled)

theorem Guarded.right_of_append (guarded : Guarded step guard state (first ++ second))
    (reached : run step state first = some middle) :
    Guarded step guard middle second := by
  induction first generalizing state with
  | nil =>
    obtain rfl := Option.some.inj reached
    exact guarded
  | cons label trace ih =>
    obtain ⟨next, enabled, rest⟩ := run_cons_eq_some.mp reached
    exact ih (guarded.tail enabled) rest

theorem Guarded.and {other : State → Label → Prop} (guarded : Guarded step guard state trace)
    (guardedToo : Guarded step other state trace) :
    Guarded step (fun state label => guard state label ∧ other state label) state trace := by
  induction trace generalizing state with
  | nil => trivial
  | cons label trace ih =>
    refine ⟨⟨guarded.1, guardedToo.1⟩, ?_⟩
    cases enabled : step state label with
    | none => trivial
    | some next => exact ih (guarded.tail enabled) (guardedToo.tail enabled)

theorem guarded_of_forall (meets : ∀ label ∈ trace, ∀ state, guard state label) :
    Guarded step guard start trace := by
  induction trace generalizing start with
  | nil => trivial
  | cons label trace ih =>
    have rest : ∀ next, Guarded step guard next trace := fun _ =>
      ih fun other member => meets other (List.mem_cons_of_mem _ member)
    refine ⟨meets label List.mem_cons_self start, ?_⟩
    cases step start label with
    | none => trivial
    | some next => exact rest next

theorem Guarded.and_forall {scope : Label → Prop} (guarded : Guarded step guard state trace)
    (inScope : ∀ label ∈ trace, scope label) :
    Guarded step (fun state label => scope label ∧ guard state label) state trace :=
  (guarded_of_forall fun label member _ => inScope label member).and guarded

/-- Invariant rule: what holds at the start and is kept by every step that
meets the guard holds in every state a guarded run reaches. -/
theorem invariant_of_guarded (Inv : State → Prop)
    (preserved : ∀ {state next : State} {label : Label},
      Inv state → guard state label → step state label = some next → Inv next)
    (initial : Inv start) (guarded : Guarded step guard start trace)
    (reached : run step start trace = some final) : Inv final := by
  induction trace generalizing start with
  | nil =>
    obtain rfl := Option.some.inj reached
    exact initial
  | cons label trace ih =>
    obtain ⟨next, enabled, rest⟩ := run_cons_eq_some.mp reached
    exact ih (preserved initial guarded.1 enabled)
      (guarded.tail enabled) rest

theorem invariant_of_run (Inv : State → Prop)
    (preserved : ∀ {state next : State} {label : Label},
      Inv state → step state label = some next → Inv next)
    (initial : Inv start)
    (reached : run step start trace = some final) : Inv final := by
  have guarded : Guarded step (fun _ _ => True) start trace := guarded_of_forall fun _ _ _ =>
    trivial
  exact invariant_of_guarded Inv (fun held _ => preserved held) initial guarded reached

end LabelledRun
