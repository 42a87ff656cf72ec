import Mathlib.Tactic.Common

/-!
Contract: calls on a shared state that return a value or an error, and rules of
postconditions for them.

Owns:
- `Call`, where an error keeps the state changes made before it and a call may
  also never return;
- the primitive calls;
- `wp`, the weakest condition under which whatever the call returns satisfies a
  postcondition, with one rule for each way of building calls;
- `Keeps`, the frame property that a call relates the state before to the state
  after by a preorder, whatever it returns.
-/

universe u v w

/-- A call on states `σ` with errors `ε`: `none` when it never returns. -/
def Call (σ : Type u) (ε : Type v) (α : Type w) : Type (max u v w) :=
  σ → Option (Except ε α × σ)

namespace Call

variable {σ : Type u} {ε : Type v} {α β : Type w}

def pure (value : α) : Call σ ε α := fun state => some (.ok value, state)

def bind (call : Call σ ε α) (next : α → Call σ ε β) : Call σ ε β := fun state =>
  match call state with
  | none => none
  | some (.error error, after) => some (.error error, after)
  | some (.ok value, after) => next value after

instance : Monad (Call σ ε) where
  pure := Call.pure
  bind := Call.bind

def throw (error : ε) : Call σ ε α := fun state => some (.error error, state)

def gets (read : σ → α) : Call σ ε α := fun state => some (.ok (read state), state)

def modify (change : σ → σ) : Call σ ε PUnit := fun state => some (.ok ⟨⟩, change state)

def hang : Call σ ε α := fun _ => none

def ofOption (error : ε) : Option α → Call σ ε α
  | none => throw error
  | some value => pure value

def ofExcept (result : Except ε α) : Call σ ε α := fun state => some (result, state)

/-- Run a call and return its error as a value. -/
def attempt {ε' : Type v} {α : Type w} (call : Call σ ε α) : Call σ ε' (Except ε α) :=
  fun state => (call state).map fun outcome => (.ok outcome.1, outcome.2)

/-- Run `body` for the numbers below `count`, in order, and thread a value through. -/
def iterate (body : Nat → α → Call σ ε α) : (count : Nat) → α → Call σ ε α
  | 0, value => pure value
  | count + 1, value => bind (iterate body count value) (body count)

def forEach {ι : Type*} (body : ι → Call σ ε PUnit) : List ι → Call σ ε PUnit
  | [] => pure ⟨⟩
  | item :: items => bind (body item) fun _ => forEach body items

/-- Run a call on one component of the state. -/
def zoom {τ : Type u} (get : σ → τ) (set : τ → σ → σ) (call : Call τ ε α) : Call σ ε α :=
  fun state => (call (get state)).map fun outcome => (outcome.1, set outcome.2 state)

/-- Whatever the call returns from `state` satisfies the postcondition. -/
def wp (call : Call σ ε α) (post : Except ε α → σ → Prop) (state : σ) : Prop :=
  ∀ result after, call state = some (result, after) → post result after

variable {call : Call σ ε α} {post : Except ε α → σ → Prop} {done : Except ε β → σ → Prop}
  {state : σ}

theorem wp_iff_of_returns {after : σ} {result : Except ε α}
    (returns : call state = some (result, after)) :
    wp call post state ↔ post result after := by
  constructor
  · intro holds
    exact holds _ _ returns
  · intro holds other last returned
    obtain ⟨rfl, rfl⟩ := Prod.mk.inj (Option.some.inj (returns.symm.trans returned))
    exact holds

/-- What every outcome of a call satisfies, the state after it does. -/
theorem of_wp {post : σ → Prop} {next : σ}
    (holds : wp call (fun _ after => post after) state)
    (stepped : (call state).map Prod.snd = some next) : post next := by
  obtain ⟨outcome, returned, rfl⟩ := Option.map_eq_some_iff.mp stepped
  exact holds _ _ returned

@[simp] theorem wp_pure (value : α) :
    wp (Pure.pure value : Call σ ε α) post state ↔ post (.ok value) state :=
  wp_iff_of_returns rfl

@[simp] theorem wp_throw (error : ε) :
    wp (throw error : Call σ ε α) post state ↔ post (.error error) state :=
  wp_iff_of_returns rfl

@[simp] theorem wp_gets (read : σ → α) :
    wp (gets read : Call σ ε α) post state ↔ post (.ok (read state)) state :=
  wp_iff_of_returns rfl

@[simp] theorem wp_modify {post : Except ε PUnit → σ → Prop} (change : σ → σ) :
    wp (modify change : Call σ ε PUnit) post state ↔ post (.ok ⟨⟩) (change state) :=
  wp_iff_of_returns rfl

@[simp] theorem wp_hang : wp (hang : Call σ ε α) post state := by
  rintro _ _ ⟨⟩

@[simp] theorem wp_ofOption (error : ε) (value : Option α) :
    wp (ofOption error value : Call σ ε α) post state ↔
      (value = none → post (.error error) state) ∧
        ∀ found, value = some found → post (.ok found) state := by
  cases value with
  | none =>
    rw [ofOption, wp_throw]
    simp
  | some found =>
    rw [ofOption, show (pure found : Call σ ε α) = Pure.pure found from rfl, wp_pure]
    simp

@[simp] theorem wp_ofExcept (result : Except ε α) :
    wp (ofExcept result : Call σ ε α) post state ↔ post result state :=
  wp_iff_of_returns rfl

@[simp] theorem wp_zoom {τ : Type u} (get : σ → τ) (set : τ → σ → σ) (call : Call τ ε α) :
    wp (zoom get set call) post state ↔
      wp call (fun result part => post result (set part state)) (get state) := by
  constructor
  · intro holds result part returned
    exact holds _ _ (by simp [zoom, returned])
  · intro holds result after returned
    obtain ⟨outcome, reached, rfl, rfl⟩ := by
      simpa only [zoom, Option.map_eq_some_iff, Prod.mk.injEq] using returned
    exact holds _ _ reached

@[simp] theorem wp_attempt {ε' : Type v} {post : Except ε' (Except ε α) → σ → Prop}
    (call : Call σ ε α) :
    wp (attempt call) post state ↔ wp call (fun result after => post (.ok result) after) state := by
  constructor
  · intro holds result after returned
    exact holds _ _ (by simp [attempt, returned])
  · intro holds result after returned
    obtain ⟨outcome, reached, rfl, rfl⟩ := by
      simpa only [attempt, Option.map_eq_some_iff, Prod.mk.injEq] using returned
    exact holds _ _ reached

/-- Sequencing: an error of the first call ends the second one too. -/
@[simp] theorem wp_bind (call : Call σ ε α) (next : α → Call σ ε β) :
    wp (call >>= next) done state ↔
      wp call (fun result after =>
        match result with
        | .error error => done (.error error) after
        | .ok value => wp (next value) done after) state := by
  constructor
  · intro holds result after returned
    cases result with
    | error error => exact holds _ _ (by simp [Bind.bind, Call.bind, returned])
    | ok value =>
      intro final last nextReturned
      exact holds _ _ (by simpa [Bind.bind, Call.bind, returned] using nextReturned)
  · intro holds final last returned
    cases first : call state with
    | none => simp [Bind.bind, Call.bind, first] at returned
    | some pair =>
      obtain ⟨result, after⟩ := pair
      have reached := holds result after first
      cases result with
      | error error =>
        simp only [Bind.bind, Call.bind, first, Option.some.injEq, Prod.mk.injEq] at returned
        obtain ⟨rfl, rfl⟩ := returned
        exact reached
      | ok value => exact reached final last (by simpa [Bind.bind, Call.bind, first] using returned)

/-! Sequencing after a primitive call. -/

theorem wp_bind_gets (read : σ → α) (next : α → Call σ ε β) :
    wp (gets read >>= next) done state ↔ wp (next (read state)) done state := by
  rw [wp_bind, wp_gets]

theorem wp_bind_modify (change : σ → σ) (next : PUnit → Call σ ε β) :
    wp (modify change >>= next) done state ↔ wp (next ⟨⟩) done (change state) := by
  rw [wp_bind, wp_modify]

theorem wp_bind_ofOption (error : ε) (value : Option α) (next : α → Call σ ε β) :
    wp (ofOption error value >>= next) done state ↔
      (value = none → done (.error error) state) ∧
        ∀ found, value = some found → wp (next found) done state := by
  rw [wp_bind, wp_ofOption]

@[simp] theorem wp_ite (condition : Prop) [Decidable condition] (first second : Call σ ε α) :
    wp (if condition then first else second) post state ↔
      (condition → wp first post state) ∧ (¬ condition → wp second post state) := by
  by_cases holds : condition <;> simp [holds]

theorem wp_mono {weaker : Except ε α → σ → Prop} (holds : wp call post state)
    (implies : ∀ result after, post result after → weaker result after) :
    wp call weaker state :=
  fun result after returned => implies _ _ (holds result after returned)

theorem wp_and {first second : Except ε α → σ → Prop}
    (holds : wp call first state) (also : wp call second state) :
    wp call (fun result after => first result after ∧ second result after) state :=
  fun result after returned => ⟨holds result after returned, also result after returned⟩

theorem wp_mp {first second : Except ε α → σ → Prop} (holds : wp call first state)
    (implies : wp call (fun result after => first result after → second result after) state) :
    wp call second state :=
  fun result after returned => implies result after returned (holds result after returned)

/-! ### Loops -/

def outcome (returns : α → σ → Prop) (fails : ε → σ → Prop) : Except ε α → σ → Prop
  | .ok value => returns value
  | .error error => fails error

/-- Invariant rule for counted loops, however their rounds end. -/
theorem wp_iterate_keeps {body : Nat → α → Call σ ε α} {holds : σ → Prop} {count : Nat} {value : α}
    (initial : holds state)
    (step : ∀ index < count, ∀ value state, holds state →
      wp (body index value) (fun _ after => holds after) state) :
    wp (iterate body count value) (fun _ after => holds after) state := by
  induction count with
  | zero => exact (wp_pure value).mpr initial
  | succ count ih =>
    refine (wp_bind (iterate body count value) (body count)).mpr (wp_mono
      (ih fun index below => step index (by omega)) ?_)
    intro result after held
    cases result with
    | error error => exact held
    | ok value => exact step count (by omega) value after held

/-- Invariant rule for counted loops of which every round returns. -/
theorem wp_iterate_returns {body : Nat → PUnit → Call σ ε PUnit} (Inv : Nat → σ → Prop)
    {count : Nat} (initial : Inv 0 state)
    (step : ∀ index < count, ∀ state, Inv index state →
      wp (body index ⟨⟩) (fun result after => result = .ok ⟨⟩ ∧ Inv (index + 1) after) state) :
    wp (iterate body count ⟨⟩) (fun result after => result = .ok ⟨⟩ ∧ Inv count after) state := by
  induction count with
  | zero => exact (wp_pure PUnit.unit).mpr ⟨rfl, initial⟩
  | succ count ih =>
    refine (wp_bind (iterate body count ⟨⟩) (body count)).mpr (wp_mono
      (ih fun index below => step index (by omega)) ?_)
    rintro _ after ⟨rfl, held⟩
    exact step count (by omega) after held

theorem wp_forEach_keeps {ι : Type*} {body : ι → Call σ ε PUnit} {holds : σ → Prop}
    {items : List ι} (initial : holds state)
    (step : ∀ item ∈ items, ∀ state, holds state →
      wp (body item) (fun _ after => holds after) state) :
    wp (forEach body items) (fun _ after => holds after) state := by
  induction items generalizing state with
  | nil => exact (wp_pure PUnit.unit).mpr initial
  | cons item items ih =>
    refine (wp_bind (body item) fun _ => forEach body items).mpr
      (wp_mono (step item List.mem_cons_self state initial) ?_)
    intro result after held
    cases result with
    | error error => exact held
    | ok _ =>
      exact ih held fun later member =>
        step later (List.mem_cons_of_mem _ member)

theorem wp_bind_pure {value : α → β} {post : σ → Prop}
    (holds : wp call (fun _ after => post after) state) :
    wp (call >>= fun result => Pure.pure (value result)) (fun _ after => post after) state := by
  rw [wp_bind]
  refine wp_mono holds ?_
  intro result after reached
  cases result with
  | error error => exact reached
  | ok result => exact wp_pure _ |>.mpr reached

/-! ### Frames -/

/-- Whatever the call returns, the states before and after are related. -/
def Keeps (relation : σ → σ → Prop) (call : Call σ ε α) : Prop :=
  ∀ state, wp call (fun _ after => relation state after) state

section Frame

variable {relation : σ → σ → Prop} [IsPreorder σ relation]

theorem keeps_pure (value : α) : Keeps relation (Pure.pure value : Call σ ε α) := by
  intro state
  rw [wp_pure]
  exact Std.Refl.refl state

theorem keeps_throw (error : ε) : Keeps relation (throw error : Call σ ε α) := by
  intro state
  rw [wp_throw]
  exact Std.Refl.refl state

theorem keeps_gets (read : σ → α) : Keeps relation (gets read : Call σ ε α) := by
  intro state
  rw [wp_gets]
  exact Std.Refl.refl state

omit [IsPreorder σ relation] in
theorem keeps_modify {change : σ → σ} (changes : ∀ state, relation state (change state)) :
    Keeps relation (modify change : Call σ ε PUnit) := by
  intro state
  rw [wp_modify]
  exact changes state

omit [IsPreorder σ relation] in
theorem keeps_hang : Keeps relation (hang : Call σ ε α) := fun _ => wp_hang

omit [IsPreorder σ relation] in
theorem keeps_zoom {τ : Type u} {get : σ → τ} {set : τ → σ → σ}
    (ignored : ∀ part state, relation state (set part state)) (call : Call τ ε α) :
    Keeps relation (zoom get set call) := by
  intro state
  rw [wp_zoom]
  intro _ part _
  exact ignored part state

theorem keeps_ofOption (error : ε) (value : Option α) :
    Keeps relation (ofOption error value : Call σ ε α) := by
  cases value with
  | none => exact keeps_throw error
  | some found => exact keeps_pure found

theorem Keeps.bind {call : Call σ ε α} {next : α → Call σ ε β} (first : Keeps relation call)
    (rest : ∀ value, Keeps relation (next value)) : Keeps relation (call >>= next) := by
  intro state
  rw [wp_bind]
  refine wp_mono (first state) ?_
  intro result middle toMiddle
  cases result with
  | error error => exact toMiddle
  | ok value =>
    refine wp_mono (rest value middle) ?_
    intro _ after toAfter
    exact IsTrans.trans _ _ _ toMiddle toAfter

omit [IsPreorder σ relation] in
theorem Keeps.ite {condition : Prop} [Decidable condition] {first second : Call σ ε α}
    (whenTrue : Keeps relation first) (whenFalse : Keeps relation second) :
    Keeps relation (if condition then first else second) := by
  by_cases holds : condition <;> simpa [holds]

end Frame

/-! ### Evaluation -/

instance decidableReturned {result : Type*} [DecidableEq result] (outcome : Option (result × σ))
    (value : result) (test : σ → Prop) [DecidablePred test] :
    Decidable (∃ after, outcome = some (value, after) ∧ test after) :=
  decidable_of_iff (∃ pair, outcome = some pair ∧ pair.1 = value ∧ test pair.2)
    ⟨fun ⟨⟨_, after⟩, returned, isValue, passes⟩ => ⟨after, isValue ▸ returned, passes⟩,
      fun ⟨after, returned, passes⟩ => ⟨(value, after), returned, rfl, passes⟩⟩

instance {result : Type*} [DecidableEq result] [DecidableEq ε] [DecidableEq α]
    (outcome : Option (result × σ)) (value : result) (next : Call σ ε α) (last : Except ε α)
    (test : σ → σ → Prop) [∀ middle, DecidablePred (test middle)] :
    Decidable (∃ middle after, outcome = some (value, middle) ∧
      next middle = some (last, after) ∧ test middle after) :=
  haveI : DecidablePred fun middle =>
      ∃ after, next middle = some (last, after) ∧ test middle after :=
    fun middle => decidableReturned (next middle) last (test middle)
  decidable_of_iff (∃ middle, outcome = some (value, middle) ∧
    ∃ after, next middle = some (last, after) ∧ test middle after) (by simp only [exists_and_left])

end Call
