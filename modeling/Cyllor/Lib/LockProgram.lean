import Cyllor.Lib.LabelledRun
import Mathlib.Data.Fintype.Basic

/-!
Contract: programs that take and give back locks around their accesses to a
shared state, and processors that run such programs side by side.

Owns:
- `LockProgram`, one access, one acquisition or one release at a time, with
  `holding` for a guard that is dropped however its scope is left;
- `Obeys`, the condition that every acquisition on every path is allowed by the
  locks held there, with one rule for each way of building programs;
- `LockState` and its step, where an acquisition waits until no processor holds
  the lock;
- the invariant that every processor still obeys the rule it started with.

The locks do not count: a processor that acquires a lock it holds waits for
itself.
-/

open Function (update update_self update_of_ne update_eq_self)

/-- A program over the shared state `σ`. Every access names the site it is made
at, so that a rule can speak about what is found there. -/
inductive LockProgram (σ Lock Site ε α : Type) : Type where
  | done (result : Except ε α)
  | acquire (lock : Lock) (rest : LockProgram σ Lock Site ε α)
  | release (lock : Lock) (rest : LockProgram σ Lock Site ε α)
  | access (site : Site) (change : σ → σ) (rest : σ → LockProgram σ Lock Site ε α)
  | stuck

namespace LockProgram

variable {σ Lock Site ε α β : Type}

/-- Continue with the result of a program, also when it is an error. -/
def andThen : LockProgram σ Lock Site ε α → (Except ε α → LockProgram σ Lock Site ε β) →
    LockProgram σ Lock Site ε β
  | done result, next => next result
  | acquire lock rest, next => acquire lock (rest.andThen next)
  | release lock rest, next => release lock (rest.andThen next)
  | access site change rest, next => access site change fun state => (rest state).andThen next
  | stuck, _ => stuck

/-- Continue with the value of a program; an error ends both. -/
def bind (program : LockProgram σ Lock Site ε α) (next : α → LockProgram σ Lock Site ε β) :
    LockProgram σ Lock Site ε β :=
  program.andThen fun
    | .error error => done (.error error)
    | .ok value => next value

instance : Monad (LockProgram σ Lock Site ε) where
  pure value := done (.ok value)
  bind := bind

def throw (error : ε) : LockProgram σ Lock Site ε α := done (.error error)

def ofOption (error : ε) : Option α → LockProgram σ Lock Site ε α
  | none => throw error
  | some value => done (.ok value)

/-- Run a program and return its error as a value. -/
def attempt (program : LockProgram σ Lock Site ε α) : LockProgram σ Lock Site ε (Except ε α) :=
  program.andThen fun result => done (.ok result)

/-- Read the shared state at a site. -/
def readAt (site : Site) (read : σ → α) : LockProgram σ Lock Site ε α :=
  access site id fun state => done (.ok (read state))

/-- Change the shared state at a site and return what was read before. -/
def updateAt (site : Site) (read : σ → α) (change : σ → σ) : LockProgram σ Lock Site ε α :=
  access site change fun state => done (.ok (read state))

def holding (lock : Lock) (body : LockProgram σ Lock Site ε α) : LockProgram σ Lock Site ε α :=
  acquire lock (body.andThen fun result => release lock (done result))

def forEach {ι : Type} (body : ι → LockProgram σ Lock Site ε Unit) :
    List ι → LockProgram σ Lock Site ε Unit
  | [] => done (.ok ())
  | item :: items => bind (body item) fun _ => forEach body items

/-! ### Rules of acquisition -/

section Obeys

variable [DecidableEq Lock] (expects : Site → σ → Prop) (allowed : List Lock → Lock → Prop)

/-- Started with the locks `held`, the program acquires only locks that are allowed
by those it then holds and releases only locks it holds, as long as every access
finds what is expected at its site. When it returns, the locks still held satisfy
`post`. -/
def Obeys : List Lock → LockProgram σ Lock Site ε α → (Except ε α → List Lock → Prop) → Prop
  | held, done result, post => post result held
  | held, acquire lock rest, post => allowed held lock ∧ Obeys (lock :: held) rest post
  | held, release lock rest, post => lock ∈ held ∧ Obeys (held.erase lock) rest post
  | held, access site _ rest, post => ∀ state, expects site state → Obeys held (rest state) post
  | _, stuck, _ => True

/-- The program obeys the rule and gives back what it takes. -/
def Balanced (held : List Lock) (program : LockProgram σ Lock Site ε α) : Prop :=
  Obeys expects allowed held program fun _ after => after = held

variable {expects allowed} {held : List Lock}

theorem Obeys.andThen {program : LockProgram σ Lock Site ε α}
    {next : Except ε α → LockProgram σ Lock Site ε β} {middle : Except ε α → List Lock → Prop}
    {post : Except ε β → List Lock → Prop} (first : Obeys expects allowed held program middle)
    (second : ∀ result after, middle result after →
      Obeys expects allowed after (next result) post) :
    Obeys expects allowed held (program.andThen next) post := by
  induction program generalizing held with
  | done result => exact second result held first
  | acquire lock rest ih => exact ⟨first.1, ih first.2⟩
  | release lock rest ih => exact ⟨first.1, ih first.2⟩
  | access site change rest ih =>
    intro state expected
    exact ih state (first state expected)
  | stuck => trivial

theorem balanced_done (result : Except ε α) :
    Balanced expects allowed held (done result : LockProgram σ Lock Site ε α) := rfl

theorem balanced_pure (value : α) :
    Balanced expects allowed held (pure value : LockProgram σ Lock Site ε α) := rfl

theorem balanced_throw (error : ε) :
    Balanced expects allowed held (throw error : LockProgram σ Lock Site ε α) := rfl

theorem balanced_stuck :
    Balanced expects allowed held (stuck : LockProgram σ Lock Site ε α) := trivial

theorem balanced_ofOption (error : ε) (value : Option α) :
    Balanced expects allowed held (ofOption error value : LockProgram σ Lock Site ε α) := by
  cases value <;> rfl

theorem balanced_readAt (site : Site) (read : σ → α) :
    Balanced expects allowed held (readAt site read : LockProgram σ Lock Site ε α) :=
  fun _ _ => rfl

theorem balanced_updateAt (site : Site) (read : σ → α) (change : σ → σ) :
    Balanced expects allowed held (updateAt site read change : LockProgram σ Lock Site ε α) :=
  fun _ _ => rfl

section

variable {program : LockProgram σ Lock Site ε α} (first : Balanced expects allowed held program)

include first

theorem Balanced.andThen {next : Except ε α → LockProgram σ Lock Site ε β}
    (second : ∀ result, Balanced expects allowed held (next result)) :
    Balanced expects allowed held (program.andThen next) := by
  refine Obeys.andThen first ?_
  rintro result after rfl
  exact second result

theorem Balanced.bind {next : α → LockProgram σ Lock Site ε β}
    (second : ∀ value, Balanced expects allowed held (next value)) :
    Balanced expects allowed held (program >>= next) := by
  refine first.andThen ?_
  rintro (error | value)
  · exact balanced_done _
  · exact second value

end

/-- What follows a read may rely on what is expected at its site. -/
theorem balanced_readAt_bind {site : Site} {read : σ → α}
    {next : α → LockProgram σ Lock Site ε β}
    (second : ∀ state, expects site state → Balanced expects allowed held (next (read state))) :
    Balanced expects allowed held (readAt site read >>= next) :=
  second

theorem Balanced.attempt {program : LockProgram σ Lock Site ε α}
    (first : Balanced expects allowed held program) :
    Balanced expects allowed held program.attempt :=
  first.andThen fun _ => balanced_done _

theorem Balanced.holding {lock : Lock} {body : LockProgram σ Lock Site ε α}
    (permitted : allowed held lock) (inside : Balanced expects allowed (lock :: held) body) :
    Balanced expects allowed held (holding lock body) := by
  refine ⟨permitted, Obeys.andThen inside ?_⟩
  rintro result after rfl
  exact ⟨List.mem_cons_self, List.erase_cons_head lock held⟩

theorem Balanced.ite {condition : Prop} [Decidable condition]
    {yes no : LockProgram σ Lock Site ε α} (ifTrue : Balanced expects allowed held yes)
    (ifFalse : Balanced expects allowed held no) :
    Balanced expects allowed held (if condition then yes else no) := by
  split
  · exact ifTrue
  · exact ifFalse

theorem balanced_forEach {ι : Type} {body : ι → LockProgram σ Lock Site ε Unit}
    (each : ∀ item, Balanced expects allowed held (body item)) (items : List ι) :
    Balanced expects allowed held (forEach body items) := by
  induction items with
  | nil => exact balanced_done _
  | cons item items ih => exact (each item).bind fun _ => ih

end Obeys

end LockProgram

/-! ### Processors -/

/-- Processors with the locks each holds, the last acquired first, and the rest of
the program each runs. -/
structure LockState (σ Lock Site ε Cpu : Type) where
  shared : σ
  held : Cpu → List Lock
  program : Cpu → Option (LockProgram σ Lock Site ε Unit)

/-- A processor enters a call, or takes one step of the program it runs. -/
inductive LockLabel (Cpu Entry : Type) where
  | start (cpu : Cpu) (entry : Entry)
  | advance (cpu : Cpu)

namespace LockState

variable {σ Lock Site ε Cpu Entry : Type}

def idle (shared : σ) : LockState σ Lock Site ε Cpu where
  shared := shared
  held _ := []
  program _ := none

def wants (state : LockState σ Lock Site ε Cpu) (cpu : Cpu) : Option Lock :=
  match state.program cpu with
  | some (.acquire lock _) => some lock
  | _ => none

def siteOf (state : LockState σ Lock Site ε Cpu) : LockLabel Cpu Entry → Option Site
  | .start _ _ => none
  | .advance cpu =>
    match state.program cpu with
    | some (.access site _ _) => some site
    | _ => none

/-- The access that a label makes finds what is expected at its site. -/
def MeetsAt (expects : Site → σ → Prop) (state : LockState σ Lock Site ε Cpu)
    (label : LockLabel Cpu Entry) : Prop :=
  ∀ site ∈ state.siteOf label, expects site state.shared

instance (expects : Site → σ → Prop) [∀ site state, Decidable (expects site state)]
    (state : LockState σ Lock Site ε Cpu) (label : LockLabel Cpu Entry) :
    Decidable (state.MeetsAt expects label) :=
  match found : state.siteOf label with
  | none => isTrue (by simp [MeetsAt, found])
  | some site => decidable_of_iff (expects site state.shared) (by simp [MeetsAt, found])

/-- The processor is about to acquire a lock it holds. -/
def Relocks (state : LockState σ Lock Site ε Cpu) (cpu : Cpu) : Prop :=
  ∃ lock ∈ state.wants cpu, lock ∈ state.held cpu

/-- The first processor is about to acquire a lock that the second holds. -/
def WaitsFor (state : LockState σ Lock Site ε Cpu) (first second : Cpu) : Prop :=
  ∃ lock ∈ state.wants first, lock ∈ state.held second

instance [DecidableEq Lock] (state : LockState σ Lock Site ε Cpu) (first second : Cpu) :
    Decidable (state.WaitsFor first second) :=
  match found : state.wants first with
  | none => isFalse (by simp [WaitsFor, found])
  | some lock => decidable_of_iff (lock ∈ state.held second) (by simp [WaitsFor, found])

/-- One step; an acquisition is enabled once no processor holds the lock. -/
def step [DecidableEq Lock] [DecidableEq Cpu] [Fintype Cpu]
    (code : Entry → LockProgram σ Lock Site ε Unit) (state : LockState σ Lock Site ε Cpu) :
    LockLabel Cpu Entry → Option (LockState σ Lock Site ε Cpu)
  | .start cpu entry =>
    match state.program cpu with
    | none => some { state with program := update state.program cpu (code entry) }
    | some _ => none
  | .advance cpu =>
    match state.program cpu with
    | none => none
    | some (.done _) =>
      some { state with program := update state.program cpu none }
    | some (.acquire lock rest) =>
      if ∀ other, lock ∉ state.held other then
        some { state with
          held := update state.held cpu (lock :: state.held cpu)
          program := update state.program cpu rest }
      else none
    | some (.release lock rest) =>
      some { state with
        held := update state.held cpu ((state.held cpu).erase lock)
        program := update state.program cpu rest }
    | some (.access _ change rest) =>
      some { state with
        shared := change state.shared
        program := update state.program cpu (rest state.shared) }
    | some .stuck => none

theorem mem_held_of_step [DecidableEq Lock] [DecidableEq Cpu] [Fintype Cpu]
    {code : Entry → LockProgram σ Lock Site ε Unit} {state next : LockState σ Lock Site ε Cpu}
    {label : LockLabel Cpu Entry} (stepped : state.step code label = some next) {cpu : Cpu}
    {lock : Lock} (holds : lock ∈ next.held cpu) :
    lock ∈ state.held cpu ∨ label = .advance cpu ∧ state.wants cpu = some lock := by
  cases label with
  | start starting entry =>
    simp only [step] at stepped
    split at stepped
    · obtain rfl := Option.some.inj stepped
      exact .inl holds
    · contradiction
  | advance moving =>
    simp only [step] at stepped
    split at stepped
    · contradiction
    · obtain rfl := Option.some.inj stepped
      exact .inl holds
    · rename_i acquired rest runs
      split at stepped
      · obtain rfl := Option.some.inj stepped
        by_cases same : cpu = moving
        · subst same
          simp only [update_self, List.mem_cons] at holds
          refine holds.symm.imp_right ?_
          rintro rfl
          exact ⟨rfl, by simp [wants, runs]⟩
        · exact .inl (by simpa [same] using holds)
      · contradiction
    · obtain rfl := Option.some.inj stepped
      by_cases same : cpu = moving
      · subst same
        exact .inl (List.mem_of_mem_erase (by simpa using holds))
      · exact .inl (by simpa [same] using holds)
    · obtain rfl := Option.some.inj stepped
      exact .inl holds
    · contradiction

/-- Every processor obeys the rule from here on and holds nothing between calls. -/
structure Obedient [DecidableEq Lock] (expects : Site → σ → Prop)
    (allowed : List Lock → Lock → Prop) (state : LockState σ Lock Site ε Cpu) : Prop where
  running : ∀ cpu program, state.program cpu = some program →
    program.Obeys expects allowed (state.held cpu) fun _ after => after = []
  outside : ∀ cpu, state.program cpu = none → state.held cpu = []

section Obedient

variable [DecidableEq Lock] {expects : Site → σ → Prop} {allowed : List Lock → Lock → Prop}
  {state next : LockState σ Lock Site ε Cpu}

theorem obedient_idle (shared : σ) :
    Obedient expects allowed (idle shared : LockState σ Lock Site ε Cpu) where
  running _ _ runs := nomatch runs
  outside _ _ := rfl

section

variable (obedient : Obedient expects allowed state)

include obedient

/-- What a processor is about to acquire is allowed by what it holds. -/
theorem Obedient.allowed_of_wants {cpu : Cpu} {lock : Lock} (wanted : state.wants cpu = some lock) :
    allowed (state.held cpu) lock := by
  unfold wants at wanted
  split at wanted
  · rename_i other rest runs
    obtain rfl := Option.some.inj wanted
    exact (obedient.running cpu _ runs).1
  · contradiction

private theorem Obedient.replace [DecidableEq Cpu] (cpu : Cpu) (shared : σ) {held : List Lock}
    {program : LockProgram σ Lock Site ε Unit}
    (running : program.Obeys expects allowed held fun _ after => after = []) :
    Obedient expects allowed
      { shared := shared
        held := update state.held cpu held
        program := update state.program cpu program } where
  running other rest runs := by
    by_cases same : other = cpu
    · subst same
      simp only [update_self, Option.some.injEq] at runs ⊢
      exact runs ▸ running
    · simp only [update_of_ne same] at runs ⊢
      exact obedient.running other rest runs
  outside other stopped := by
    by_cases same : other = cpu
    · simp [same] at stopped
    · simp only [update_of_ne same] at stopped ⊢
      exact obedient.outside other stopped

private theorem Obedient.continue [DecidableEq Cpu] (cpu : Cpu) (shared : σ)
    {program : LockProgram σ Lock Site ε Unit}
    (running : program.Obeys expects allowed (state.held cpu) fun _ after => after = []) :
    Obedient expects allowed
      { state with
        shared := shared
        program := update state.program cpu program } := by
  have replaced := obedient.replace cpu shared running
  rwa [update_eq_self] at replaced

private theorem Obedient.finish [DecidableEq Cpu] (cpu : Cpu) (free : state.held cpu = []) :
    Obedient expects allowed
      { state with program := update state.program cpu none } where
  running other rest runs := by
    by_cases same : other = cpu
    · simp [same] at runs
    · exact obedient.running other rest (by simpa [same] using runs)
  outside other stopped := by
    by_cases same : other = cpu
    · exact same ▸ free
    · exact obedient.outside other (by simpa [same] using stopped)

end

variable [DecidableEq Cpu] [Fintype Cpu] {code : Entry → LockProgram σ Lock Site ε Unit}

/-- A step whose access finds what is expected keeps every processor obedient, if
the call it starts obeys the rule from no lock held. -/
theorem Obedient.step (obedient : Obedient expects allowed state) {label : LockLabel Cpu Entry}
    (starts : ∀ cpu entry, label = .start cpu entry →
      LockProgram.Balanced expects allowed [] (code entry))
    (meets : state.MeetsAt expects label) (stepped : state.step code label = some next) :
    Obedient expects allowed next := by
  cases label with
  | start cpu entry =>
    simp only [LockState.step] at stepped
    split at stepped
    · rename_i stopped
      obtain rfl := Option.some.inj stepped
      refine obedient.continue cpu state.shared ?_
      rw [obedient.outside cpu stopped]
      exact starts cpu entry rfl
    · contradiction
  | advance cpu =>
    have running := obedient.running cpu
    simp only [LockState.step] at stepped
    split at stepped
    · contradiction
    · rename_i runs
      obtain rfl := Option.some.inj stepped
      exact obedient.finish cpu (running _ runs)
    · rename_i lock rest runs
      split at stepped
      · obtain rfl := Option.some.inj stepped
        exact obedient.replace cpu state.shared (running _ runs).2
      · contradiction
    · rename_i lock rest runs
      obtain rfl := Option.some.inj stepped
      exact obedient.replace cpu state.shared (running _ runs).2
    · rename_i site change rest runs
      obtain rfl := Option.some.inj stepped
      have found : expects site state.shared := meets site (by simp [siteOf, runs])
      exact obedient.continue cpu (change state.shared) (running _ runs state.shared found)
    · contradiction

end Obedient

end LockState
