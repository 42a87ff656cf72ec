import Cyllor.Lib.Call

/-!
Contract: calls that return.

Owns: `succeeds`, that a call returns a value, in a state with a postcondition, with one rule
for each way of building calls; `ends`, the same for a call that may also return an error;
and the rules by which a postcondition of every outcome joins them.
-/

universe u v w

namespace Call

variable {σ : Type u} {ε : Type v} {α β : Type w} {state : σ} {value : α} {change : σ → σ}
  {call : Call σ ε α} {next : α → Call σ ε β} {read : σ → α} {ε' : Type v} {τ : Type u}
  {get : σ → τ} {set : τ → σ → σ} {inner : Call τ ε α} {panics : Prop}

def succeeds (call : Call σ ε α) (post : α → σ → Prop) (state : σ) : Prop :=
  ∃ value after, call state = some (.ok value, after) ∧ post value after

section

variable {post : α → σ → Prop} {done : β → σ → Prop}

theorem succeeds_mono {weaker : α → σ → Prop} (holds : succeeds call post state)
    (implies : ∀ value after, post value after → weaker value after) :
    succeeds call weaker state := by
  obtain ⟨value, after, returned, reached⟩ := holds
  exact ⟨value, after, returned, implies value after reached⟩

theorem succeeds_and_wp {every : Except ε α → σ → Prop} (holds : succeeds call post state)
    (always : wp call every state) :
    succeeds call (fun value after => post value after ∧ every (.ok value) after) state := by
  obtain ⟨value, after, returned, reached⟩ := holds
  exact ⟨value, after, returned, reached, always _ _ returned⟩

theorem succeeds_pure (holds : post value state) :
    succeeds (Pure.pure value : Call σ ε α) post state :=
  ⟨value, state, rfl, holds⟩

theorem succeeds_modify {post : PUnit → σ → Prop} (holds : post ⟨⟩ (change state)) :
    succeeds (modify change : Call σ ε PUnit) post state :=
  ⟨⟨⟩, change state, rfl, holds⟩

theorem succeeds_bind
    (holds : succeeds call (fun value after => succeeds (next value) done after) state) :
    succeeds (call >>= next) done state := by
  obtain ⟨value, middle, returned, result, after, rest, reached⟩ := holds
  refine ⟨result, after, ?_, reached⟩
  change bind call next state = _
  rw [bind, returned]
  exact rest

theorem succeeds_bind_gets (holds : succeeds (next (read state)) done state) :
    succeeds (gets read >>= next) done state :=
  succeeds_bind ⟨read state, state, rfl, holds⟩

theorem succeeds_bind_modify {next : PUnit → Call σ ε β}
    (holds : succeeds (next ⟨⟩) done (change state)) :
    succeeds (modify change >>= next) done state :=
  succeeds_bind ⟨⟨⟩, change state, rfl, holds⟩

theorem succeeds_bind_ofOption {error : ε} (holds : succeeds (next value) done state) :
    succeeds (ofOption error (some value) >>= next) done state :=
  succeeds_bind ⟨value, state, rfl, holds⟩

theorem succeeds_attempt {post : Except ε α → σ → Prop}
    (holds : succeeds call (fun value after => post (.ok value) after) state) :
    succeeds (attempt call : Call σ ε' (Except ε α)) post state := by
  obtain ⟨value, after, returned, reached⟩ := holds
  exact ⟨.ok value, after, by rw [attempt, returned]; rfl, reached⟩

theorem succeeds_zoom
    (holds : succeeds inner (fun value after => post value (set after state)) (get state)) :
    succeeds (zoom get set inner) post state := by
  obtain ⟨value, after, returned, reached⟩ := holds
  exact ⟨value, set after state, by rw [zoom, returned]; rfl, reached⟩

theorem succeeds_iterate {body : Nat → α → Call σ ε α} (Inv : Nat → α → σ → Prop) {count : Nat}
    (initial : Inv 0 value state)
    (step : ∀ index < count, ∀ value state, Inv index value state →
      succeeds (body index value) (Inv (index + 1)) state) :
    succeeds (iterate body count value) (Inv count) state := by
  induction count with
  | zero => exact succeeds_pure initial
  | succ count ih =>
    refine succeeds_bind (succeeds_mono
      (ih fun index below => step index (by omega)) ?_)
    exact fun value after reached => step count (by omega) value after reached

end

/-! ### Calls that return -/

def ends (call : Call σ ε α) (post : Except ε α → σ → Prop) (state : σ) : Prop :=
  ∃ result after, call state = some (result, after) ∧ post result after

variable {post : Except ε α → σ → Prop} {done : Except ε β → σ → Prop}

section

variable (holds : ends call post state)

include holds

theorem ends_mono {weaker : Except ε α → σ → Prop}
    (imp : ∀ result after, post result after → weaker result after) : ends call weaker state := by
  obtain ⟨result, after, returned, reached⟩ := holds
  exact ⟨result, after, returned, imp result after reached⟩

theorem ends_and_wp {every : Except ε α → σ → Prop} (always : wp call every state) :
    ends call (fun result after => post result after ∧ every result after) state := by
  obtain ⟨result, after, returned, reached⟩ := holds
  exact ⟨result, after, returned, reached, always result after returned⟩

/-- A call has one outcome, so what holds of it holds of every outcome. -/
theorem wp_of_ends : wp call post state := by
  obtain ⟨result, after, returned, reached⟩ := holds
  intro result' after' returned'
  obtain ⟨rfl, rfl⟩ := Prod.mk.inj (Option.some.inj (returned.symm.trans returned'))
  exact reached

end

theorem ends_of_succeeds
    (holds : succeeds call (fun value after => post (.ok value) after) state) :
    ends call post state := by
  obtain ⟨value, after, returned, reached⟩ := holds
  exact ⟨.ok value, after, returned, reached⟩

theorem wp_of_succeeds {post : α → σ → Prop} (holds : succeeds call post state) :
    wp call (fun result after => ∃ value, result = .ok value ∧ post value after) state :=
  wp_of_ends (ends_of_succeeds (succeeds_mono holds fun value _ reached => ⟨value, rfl, reached⟩))

theorem ends_pure (holds : post (.ok value) state) :
    ends (Pure.pure value : Call σ ε α) post state :=
  ⟨.ok value, state, rfl, holds⟩

theorem ends_throw {error : ε} (holds : post (.error error) state) :
    ends (throw error : Call σ ε α) post state :=
  ⟨.error error, state, rfl, holds⟩

theorem ends_bind
    (holds : ends call (fun result after =>
      match result with
      | .error error => done (.error error) after
      | .ok value => ends (next value) done after) state) :
    ends (call >>= next) done state := by
  obtain ⟨result, after, returned, reached⟩ := holds
  cases result with
  | error error =>
    refine ⟨.error error, after, ?_, reached⟩
    show Call.bind call next state = _
    rw [Call.bind, returned]
  | ok value =>
    obtain ⟨result, final, returnedNext, reachedNext⟩ := reached
    refine ⟨result, final, ?_, reachedNext⟩
    show Call.bind call next state = _
    rw [Call.bind, returned]
    exact returnedNext

theorem ends_bind_of_succeeds
    (holds : succeeds call (fun value after => ends (next value) done after) state) :
    ends (call >>= next) done state :=
  ends_bind (ends_of_succeeds holds)

theorem ends_bind_gets (holds : ends (next (read state)) done state) :
    ends (gets read >>= next) done state :=
  ends_bind_of_succeeds ⟨read state, state, rfl, holds⟩

theorem ends_bind_modify {next : PUnit → Call σ ε β} (holds : ends (next ⟨⟩) done (change state)) :
    ends (modify change >>= next) done state :=
  ends_bind_of_succeeds ⟨⟨⟩, change state, rfl, holds⟩

theorem succeeds_attempt_of_ends (holds : ends call post state) :
    succeeds (attempt call : Call σ ε' (Except ε α)) post state := by
  obtain ⟨result, after, returned, reached⟩ := holds
  exact ⟨result, after, by rw [attempt, returned]; rfl, reached⟩

theorem ends_zoom
    (holds : ends inner (fun result after => post result (set after state)) (get state)) :
    ends (zoom get set inner) post state := by
  obtain ⟨result, after, returned, reached⟩ := holds
  exact ⟨result, set after state, by rw [zoom, returned]; rfl, reached⟩

/-! ### Calls that return or panic -/

/-- The call returns, or it panics and the condition holds. -/
def endsOr (panics : Prop) (call : Call σ ε α) (post : Except ε α → σ → Prop) (state : σ) : Prop :=
  ends call post state ∨ panics ∧ call state = none

theorem endsOr_mono {more : Prop} {weaker : Except ε α → σ → Prop}
    (holds : endsOr panics call post state) (implies : panics → more)
    (imp : ∀ result after, post result after → weaker result after) :
    endsOr more call weaker state :=
  holds.imp (fun returns => ends_mono returns imp) (And.imp_left implies)

theorem wp_of_endsOr (holds : endsOr panics call post state) : wp call post state := by
  rcases holds with returns | ⟨-, none⟩
  · exact wp_of_ends returns
  · intro result after returned
    cases none.symm.trans returned

theorem endsOr_zoom
    (holds : endsOr panics inner (fun result after => post result (set after state)) (get state)) :
    endsOr panics (zoom get set inner) post state :=
  holds.imp ends_zoom (And.imp_right fun none => by rw [zoom, none]; rfl)

theorem endsOr_bind
    (holds : endsOr panics call (fun result after =>
      match result with
      | .error error => done (.error error) after
      | .ok value => endsOr panics (next value) done after) state) :
    endsOr panics (call >>= next) done state := by
  rcases holds with ⟨_ | value, after, returned, reached⟩ | ⟨panicked, none⟩
  · exact .inl (ends_bind ⟨_, after, returned, reached⟩)
  · refine reached.imp (fun returns => ends_bind ⟨_, after, returned, returns⟩)
      (And.imp_right fun none => ?_)
    show Call.bind call next state = _
    rw [Call.bind, returned]
    exact none
  · refine .inr ⟨panicked, ?_⟩
    show Call.bind call next state = _
    rw [Call.bind, none]

theorem endsOr_bind_gets (holds : endsOr panics (next (read state)) done state) :
    endsOr panics (gets read >>= next) done state :=
  endsOr_bind (.inl ⟨_, state, rfl, holds⟩)

/-! ### Calls that succeed or panic -/

/-- The call succeeds, or it panics and the condition holds. -/
def succeedsOr (panics : Prop) (call : Call σ ε α) (post : α → σ → Prop) (state : σ) : Prop :=
  succeeds call post state ∨ panics ∧ call state = none

theorem succeedsOr_bind {post : β → σ → Prop}
    (holds : succeeds call (fun value after => succeedsOr panics (next value) post after) state) :
    succeedsOr panics (call >>= next) post state := by
  obtain ⟨value, after, returned, reached | ⟨panicked, none⟩⟩ := holds
  · exact .inl (succeeds_bind ⟨value, after, returned, reached⟩)
  · refine .inr ⟨panicked, ?_⟩
    show Call.bind call next state = _
    rw [Call.bind, returned]
    exact none

theorem wp_of_succeedsOr {post : α → σ → Prop}
    (holds : succeedsOr panics call post state) :
    wp call (fun result after => ∃ value, result = .ok value ∧ post value after) state :=
  wp_of_endsOr (holds.imp_left fun returns => ends_of_succeeds
    (succeeds_mono returns fun value _ reached => ⟨value, rfl, reached⟩))

end Call
