import Cyllor.Proc.CloneErrors

/-!
Contract: the word that `sys_exit` clears for a thread's joiner (`CLEAR_CHILD_TID` in
`syscall/process.rs`, its registration by `set_tid_address` and at the end of `do_clone`).

Owns:
- `Machine`, the registrations, the memory of every address space and the position of every
  thread between `do_clone`, the two removals of `sys_exit` and its end;
- that `sys_exit` removes the registration before it looks for it, so that the word is zero
  afterwards when it was zero before, or when `do_clone` registers in between;
- that without such a late registration it is zero in no other case.

Does not own: the robust list and the restartable sequences of a thread, its process entry,
and stores of user code.
-/

namespace Cyllor.ClearTid

open Syscall Sched Arch Machine Machine
open Call hiding pure bind
open Function (update update_self update_of_ne)

/-! ### Copies of zeroes -/

/-- Every byte is what it was, or zero, and stays mapped. -/
def ZeroesOnly (before after : UserMemory) : Prop :=
  (∀ addr value, after.byte addr = some value → before.byte addr = some value ∨ value = 0) ∧
    ∀ addr, (before.byte addr).isSome → (after.byte addr).isSome

instance : IsPreorder UserMemory ZeroesOnly where
  refl _ := ⟨fun _ _ => .inl, fun _ => id⟩
  trans _ _ _ first second := by
    refine ⟨fun addr value holds => ?_, fun addr mapped => second.2 addr (first.2 addr mapped)⟩
    rcases second.1 addr value holds with before | zero
    · exact first.1 addr value before
    · exact .inr zero

theorem zeroesOnly_store (memory : UserMemory) (addr : Nat) :
    ZeroesOnly memory (memory.store addr 0) := by
  refine ⟨fun other value holds => ?_, (UserMemory.grows_store memory addr 0).1⟩
  simp only [UserMemory.store] at holds
  split at holds
  · exact .inr (Option.some.inj holds).symm
  · split at holds
    · cases before : memory.byte other with
      | none => simp_all
      | some byte => simp_all
    · exact .inl holds

theorem zeroesOnly_copyToUser (addr len : Nat) :
    (copyToUser addr (List.replicate len 0)).Keeps ZeroesOnly := by
  induction len generalizing addr with
  | zero => exact keeps_pure _
  | succ len ih =>
    exact keeps_hang.ite ((keeps_gets _).bind fun _ => Keeps.ite
      ((keeps_modify fun memory => zeroesOnly_store memory addr).bind fun _ =>
        ih (addr + 1)) (keeps_throw _))

/-- The bytes of the range are zero. -/
def ZeroRange (memory : UserMemory) (addr len : Nat) : Prop :=
  ∀ offset < len, memory.byte (UserMemory.index (addr + offset)) = some 0

instance (memory : UserMemory) (addr len : Nat) : Decidable (ZeroRange memory addr len) :=
  inferInstanceAs (Decidable (∀ offset < len, _))

abbrev ZeroWord (memory : UserMemory) (addr : Nat) : Prop := ZeroRange memory addr 4

theorem ZeroesOnly.zero {before after : UserMemory} (only : ZeroesOnly before after) {addr : Nat}
    (zero : before.byte addr = some 0) : after.byte addr = some 0 := by
  obtain ⟨value, holds⟩ := Option.isSome_iff_exists.mp (only.2 addr (by rw [zero]; rfl))
  rcases only.1 addr value holds with same | rfl
  · rw [holds, ← same, zero]
  · exact holds

theorem ZeroRange.of_zeroesOnly {before after : UserMemory} {addr len : Nat}
    (zero : ZeroRange before addr len) (only : ZeroesOnly before after) :
    ZeroRange after addr len :=
  fun offset below => only.zero (zero offset below)

theorem zeroRange_copyToUser {memory : UserMemory} {addr len : Nat}
    (readable : memory.Readable addr len) :
    wp (copyToUser addr (List.replicate len 0)) (fun _ after => ZeroRange after addr len)
      memory := by
  induction len generalizing addr memory with
  | zero => exact (wp_pure _).mpr fun _ below => absurd below (Nat.not_lt_zero _)
  | succ len ih =>
    have here : (memory.byte (UserMemory.index addr)).isSome := readable 0 (Nat.succ_pos len)
    have later : (memory.store addr 0).Readable (addr + 1) len := by
      refine UserMemory.Readable.of_grows ?_ (UserMemory.grows_store memory addr 0)
      intro offset below
      rw [Nat.add_assoc, Nat.add_comm 1]
      exact readable (offset + 1) (Nat.succ_lt_succ below)
    rw [List.replicate_succ, copyToUser, wp_ite]
    refine ⟨fun _ => wp_hang, fun _ => ?_⟩
    rw [wp_bind_gets, here, Bool.true_or, if_pos rfl, wp_bind_modify]
    have tail := ih later
    have only := zeroesOnly_copyToUser (addr + 1) len (memory.store addr 0)
    intro result after returned offset below
    cases offset with
    | zero =>
      have stored : (memory.store addr 0).byte (UserMemory.index addr) = some 0 := by
        simp [UserMemory.store]
      exact (only result after returned).zero stored
    | succ offset =>
      have zero := tail result after returned offset (Nat.lt_of_succ_lt_succ below)
      rwa [Nat.add_assoc, Nat.add_comm 1] at zero

/-! ### Registrations and exits -/

inductive Phase where
  /-- Not created yet. -/
  | fresh
  | running
  /-- In `do_clone`, with the child queued and still to be registered. -/
  | registering (child ctid : Nat)
  /-- In `sys_exit`, between the two removals of its registration. -/
  | noted
  /-- In `sys_exit`, past both. -/
  | exited
deriving DecidableEq, Repr

/-- The registrations, and the threads with their address spaces. An address space has the
id of the thread it was made for. -/
structure Machine where
  clearChildTid : Std.ExtTreeMap Nat Nat compare
  phase : Nat → Phase
  space : Nat → Nat
  memory : Nat → UserMemory

inductive Step where
  /-- `spawn_user_process`: a thread with a space of its own. -/
  | spawn (tid : Nat) (memory : UserMemory)
  | setTidAddress (tid tidptr : Nat)
  /-- `do_clone` up to the queueing of the child. -/
  | clone (parent child : Nat) (flags ctid : Word)
  /-- The end of `do_clone`. -/
  | register (parent : Nat)
  /-- `sys_exit` up to the end of `note_process_exit`. -/
  | noteExit (tid : Nat)
  /-- The rest of `sys_exit` up to `mark_current_dead`. -/
  | clearTid (tid : Nat)
  /-- `exit_group`, or a death by signal: every member loses its registration. -/
  | cleanup (tids : List Nat)

namespace Machine

def boot : Machine := ⟨∅, fun _ => .fresh, id, fun _ => ⟨fun _ => none, fun _ => false⟩⟩

def setPhase (machine : Machine) (tid : Nat) (phase : Phase) : Machine :=
  { machine with phase := update machine.phase tid phase }

def view (machine : Machine) (tid : Nat) : UserMemory := machine.memory (machine.space tid)

/-- A new thread and the space it gets. -/
def enter (machine : Machine) (tid space : Nat) (memory : UserMemory) : Machine where
  clearChildTid := machine.clearChildTid
  phase := update machine.phase tid .running
  space := update machine.space tid space
  memory := update machine.memory space memory

/-- What `do_clone` goes on with once the child is queued. -/
def afterQueue (child : Nat) (flags ctid : Word) : Phase :=
  if hasFlag flags Proc.CLONE_CHILD_CLEARTID ∧ ctid ≠ 0 then .registering child ctid.toNat
  else .running

def registerClearChildTid (machine : Machine) (tid tidptr : Nat) : Machine :=
  if tidptr ≠ 0 then
    { machine with clearChildTid := machine.clearChildTid.insert tid tidptr }
  else machine

def cleanupThreadState (machine : Machine) (tid : Nat) : Machine :=
  { machine with clearChildTid := machine.clearChildTid.erase tid }

/-- The second removal of `sys_exit`, with the copy to the word it finds. The result of the
copy is dropped. -/
def clearWord (machine : Machine) (tid : Nat) : Option Machine :=
  match machine.clearChildTid[tid]? with
  | none => some machine
  | some tidptr =>
    if tidptr ≠ 0 then
      (copyToUser tidptr (leBytes 4 0) (machine.view tid)).map fun outcome =>
        { machine.cleanupThreadState tid with
          memory := update machine.memory (machine.space tid) outcome.2 }
    else some (machine.cleanupThreadState tid)

def step (machine : Machine) : Step → Option Machine
  | .spawn tid memory =>
    if machine.phase tid = .fresh then some (machine.enter tid tid memory) else none
  | .setTidAddress tid tidptr =>
    if machine.phase tid = .running then
      some { machine with clearChildTid := machine.clearChildTid.insert tid tidptr }
    else none
  | .clone parent child flags ctid =>
    if machine.phase parent = .running ∧ machine.phase child = .fresh then
      let space := if hasFlag flags CLONE_VM then machine.space parent else child
      some ((machine.enter child space (machine.view parent)).setPhase parent
        (afterQueue child flags ctid))
    else none
  | .register parent =>
    match machine.phase parent with
    | .registering child ctid =>
      some ((machine.registerClearChildTid child ctid).setPhase parent .running)
    | _ => none
  | .noteExit tid =>
    if machine.phase tid = .running then
      some ((machine.cleanupThreadState tid).setPhase tid .noted)
    else none
  | .clearTid tid =>
    if machine.phase tid = .noted then
      (machine.clearWord tid).map fun cleared => cleared.setPhase tid .exited
    else none
  | .cleanup tids => some (tids.foldl cleanupThreadState machine)

abbrev run (machine : Machine) (trace : List Step) : Option Machine :=
  LabelledRun.run step machine trace

/-! ### What a step can do -/

variable {machine next : Machine} {tid home : Nat}

theorem clearWord_cases (cleared : machine.clearWord tid = some next) :
    next = machine ∧ machine.clearChildTid[tid]? = none ∨
      next = machine.cleanupThreadState tid ∨
      ∃ tidptr result after, machine.clearChildTid[tid]? = some tidptr ∧
        copyToUser tidptr (List.replicate 4 0) (machine.view tid) = some (result, after) ∧
        next = { machine.cleanupThreadState tid with
          memory := update machine.memory (machine.space tid) after } := by
  unfold clearWord at cleared
  cases found : machine.clearChildTid[tid]? with
  | none =>
    rw [found] at cleared
    exact .inl ⟨(Option.some.inj cleared).symm, rfl⟩
  | some tidptr =>
    simp only [found] at cleared
    split at cleared
    case isFalse => exact .inr (.inl (Option.some.inj cleared).symm)
    case isTrue =>
      obtain ⟨⟨result, after⟩, returned, rfl⟩ := Option.map_eq_some_iff.mp cleared
      exact .inr (.inr ⟨tidptr, result, after, rfl, returned, rfl⟩)

theorem foldl_cleanup (tids : List Nat) (machine : Machine) : ∃ registrations,
    tids.foldl cleanupThreadState machine = { machine with clearChildTid := registrations } ∧
      ∀ {tid : Nat}, machine.clearChildTid[tid]? = none → registrations[tid]? = none := by
  induction tids generalizing machine with
  | nil => exact ⟨_, rfl, id⟩
  | cons other tids ih =>
    obtain ⟨registrations, isFold, stays⟩ := ih (machine.cleanupThreadState other)
    refine ⟨registrations, isFold, fun {tid} removed => stays ?_⟩
    rw [cleanupThreadState, Std.ExtTreeMap.getElem?_erase, removed]
    exact ite_self none

theorem registerClearChildTid_eq (child ctid : Nat) : ∃ registrations,
    machine.registerClearChildTid child ctid = { machine with clearChildTid := registrations } ∧
      ∀ {tid : Nat}, tid ≠ child → registrations[tid]? = machine.clearChildTid[tid]? := by
  unfold registerClearChildTid
  split
  · refine ⟨_, rfl, fun {tid} other => ?_⟩
    rw [Std.ExtTreeMap.getElem?_insert, if_neg]
    exact fun equal => other (Std.LawfulEqCmp.compare_eq_iff_eq.mp equal).symm
  · exact ⟨_, rfl, fun _ => rfl⟩

/-- The effect of an enabled step on the threads and their memory. -/
inductive Effect (machine : Machine) : Machine → Prop where
  /-- Registrations and phases of created threads change. -/
  | quiet {next : Machine} (phase : ∀ tid, machine.phase tid = .fresh ↔ next.phase tid = .fresh)
      (space : next.space = machine.space) (memory : next.memory = machine.memory) :
      Effect machine next
  /-- A thread is created, in a space of its own or in that of its parent. -/
  | created {next : Machine} (tid space : Nat) (content : UserMemory)
      (fresh : machine.phase tid = .fresh)
      (phase : ∀ other, next.phase other = .fresh ↔ machine.phase other = .fresh ∧ other ≠ tid)
      (spaces : next.space = update machine.space tid space)
      (memory : next.memory = update machine.memory space content)
      (own : space = tid ∨
        (∃ parent, machine.phase parent ≠ .fresh ∧ space = machine.space parent ∧
          content = machine.memory space)) : Effect machine next
  /-- A thread between the two removals clears the word it is registered for. -/
  | cleared {next : Machine} (tid tidptr : Nat) (result : Except Errno Unit)
      (after : UserMemory) (noted : machine.phase tid = .noted)
      (registered : machine.clearChildTid[tid]? = some tidptr)
      (returned : copyToUser tidptr (List.replicate 4 0) (machine.view tid) =
        some (result, after))
      (phase : ∀ other, machine.phase other = .fresh ↔ next.phase other = .fresh)
      (space : next.space = machine.space)
      (memory : next.memory = update machine.memory (machine.space tid) after) :
      Effect machine next

private theorem fresh_update {phase : Nat → Phase} {moved : Nat} {new : Phase}
    (before : phase moved ≠ .fresh) (after : new ≠ .fresh) (tid : Nat) :
    phase tid = .fresh ↔ update phase moved new tid = .fresh := by
  by_cases same : tid = moved
  · subst same
    simp [before, after]
  · simp [same]

theorem afterQueue_ne_fresh (child : Nat) (flags ctid : Word) :
    afterQueue child flags ctid ≠ .fresh := by
  unfold afterQueue
  split <;> simp

theorem effect_of_step {step : Step} (enabled : machine.step step = some next) :
    Effect machine next := by
  cases step with
  | spawn tid memory =>
    obtain ⟨fresh, rfl⟩ : machine.phase tid = .fresh ∧ machine.enter tid tid memory = next := by
      simpa [step] using enabled
    refine .created tid tid memory fresh (fun other => ?_) rfl rfl (.inl rfl)
    by_cases same : other = tid <;> simp [enter, same]
  | setTidAddress tid tidptr =>
    simp only [step, Option.ite_none_right_eq_some, Option.some.injEq] at enabled
    obtain ⟨_, rfl⟩ := enabled
    exact .quiet (fun _ => Iff.rfl) rfl rfl
  | clone parent child flags ctid =>
    simp only [step, Option.ite_none_right_eq_some, Option.some.injEq] at enabled
    obtain ⟨⟨running, fresh⟩, rfl⟩ := enabled
    have distinct : parent ≠ child := by
      rintro rfl
      rw [running] at fresh
      cases fresh
    refine .created child _ (machine.view parent) fresh (fun other => ?_) rfl rfl ?_
    · by_cases isParent : other = parent
      · subst isParent
        simp [setPhase, afterQueue_ne_fresh, running]
      · by_cases isChild : other = child
        · subst isChild
          simp [setPhase, enter, isParent]
        · simp [setPhase, enter, isParent, isChild]
    · split
      · exact .inr ⟨parent, by simp [running], rfl, rfl⟩
      · exact .inl rfl
  | register parent =>
    simp only [step] at enabled
    split at enabled
    case h_1 child ctid registering =>
      obtain rfl := Option.some.inj enabled
      obtain ⟨registrations, isNext, -⟩ := @registerClearChildTid_eq machine child ctid
      rw [isNext]
      exact .quiet (fresh_update (by simp [registering]) (by simp)) rfl rfl
    case h_2 => cases enabled
  | noteExit tid =>
    simp only [step, Option.ite_none_right_eq_some, Option.some.injEq] at enabled
    obtain ⟨running, rfl⟩ := enabled
    exact .quiet (fresh_update (by simp [running]) (by simp)) rfl rfl
  | clearTid tid =>
    simp only [step, Option.ite_none_right_eq_some, Option.map_eq_some_iff] at enabled
    obtain ⟨noted, cleared, clears, rfl⟩ := enabled
    have phases := @fresh_update machine.phase tid .exited (by simp [noted]) (by simp)
    rcases clearWord_cases clears with ⟨rfl, _⟩ | rfl | ⟨tidptr, result, after, found, copied, rfl⟩
    · exact .quiet phases rfl rfl
    · exact .quiet phases rfl rfl
    · exact .cleared tid tidptr result after noted found copied phases rfl rfl
  | cleanup tids =>
    obtain rfl := Option.some.inj enabled
    obtain ⟨registrations, isNext, -⟩ := foldl_cleanup tids machine
    rw [isNext]
    exact .quiet (fun _ => Iff.rfl) rfl rfl

/-! ### Runs -/

/-- Every thread lives in a space that was made for some thread. -/
def SpacesMade (machine : Machine) : Prop :=
  ∀ tid, machine.phase tid ≠ .fresh → machine.phase (machine.space tid) ≠ .fresh

theorem spacesMade_boot : SpacesMade boot := fun _ created => absurd rfl created

theorem spacesMade_step {step : Step} (made : SpacesMade machine)
    (enabled : machine.step step = some next) : SpacesMade next := by
  intro tid created
  cases effect_of_step enabled with
  | quiet phase space _ | cleared _ _ _ _ _ _ _ phase space _ =>
    rw [space]
    exact fun fresh => made tid (mt (phase tid).mp created) ((phase _).mpr fresh)
  | created new space content fresh phase spaces _ own =>
    rw [spaces, Ne, phase]
    by_cases same : tid = new
    · subst same
      rw [update_self]
      rcases own with rfl | ⟨parent, parentCreated, rfl, _⟩
      · exact fun fresh => fresh.2 rfl
      · exact fun fresh => made parent parentCreated fresh.1
    · rw [update_of_ne same]
      have wasCreated : machine.phase tid ≠ .fresh := fun fresh =>
        created ((phase tid).mpr ⟨fresh, same⟩)
      exact fun fresh => made tid wasCreated fresh.1

theorem spacesMade_of_run {trace : List Step} (reached : boot.run trace = some machine) :
    SpacesMade machine :=
  LabelledRun.invariant_of_run SpacesMade spacesMade_step spacesMade_boot reached

/-- A thread that existed in a state `start` is still in its space, whose memory relates to
what it was. -/
structure Later (relation : UserMemory → UserMemory → Prop) (start : Machine) (tid : Nat)
    (machine : Machine) : Prop where
  created : machine.phase tid ≠ .fresh
  home : machine.phase (start.space tid) ≠ .fresh
  space : machine.space tid = start.space tid
  memory : relation (start.view tid) (machine.view tid)

/-- Whatever word an exiting thread may clear in this state, the relation allows. -/
def AllowsClears (relation : UserMemory → UserMemory → Prop) (machine : Machine) : Prop :=
  ∀ tid tidptr result after base, machine.phase tid = .noted →
    machine.clearChildTid[tid]? = some tidptr →
    copyToUser tidptr (List.replicate 4 0) (machine.view tid) = some (result, after) →
    relation base (machine.view tid) → relation base after

theorem Later.step {relation : UserMemory → UserMemory → Prop} {start : Machine} {step : Step}
    (later : Later relation start tid machine) (allows : AllowsClears relation machine)
    (enabled : machine.step step = some next) : Later relation start tid next := by
  have before := later.memory
  rw [view, view, later.space] at before
  cases effect_of_step enabled with
  | quiet phase space memory =>
    refine ⟨mt (phase _).mpr later.created, mt (phase _).mpr later.home, ?_, ?_⟩
    · rw [space, later.space]
    · rw [view, view, space, later.space, memory]
      exact before
  | created new newSpace content fresh phase spaces memory own =>
    have other : tid ≠ new := fun same => later.created (same ▸ fresh)
    have sameSpace : next.space tid = start.space tid := by
      rw [spaces, update_of_ne other, later.space]
    refine ⟨fun nowFresh => later.created ((phase _).mp nowFresh).1,
      fun nowFresh => later.home ((phase _).mp nowFresh).1, sameSpace, ?_⟩
    rw [view, view, sameSpace, memory]
    by_cases same : start.space tid = newSpace
    · subst same
      rw [update_self]
      rcases own with isNew | ⟨_, _, _, rfl⟩
      · exact absurd (isNew ▸ fresh) later.home
      · exact before
    · rw [update_of_ne same]
      exact before
  | cleared exiting tidptr result after noted registered returned phase space memory =>
    refine ⟨mt (phase _).mpr later.created, mt (phase _).mpr later.home, ?_, ?_⟩
    · rw [space, later.space]
    · rw [view, view, space, later.space, memory]
      by_cases same : start.space tid = machine.space exiting
      · rw [same, update_self]
        rw [same] at before
        exact allows exiting tidptr result after _ noted registered returned before
      · rw [update_of_ne same]
        exact before

theorem allowsClears_zeroesOnly (machine : Machine) : AllowsClears ZeroesOnly machine :=
  fun _ tidptr result after _ _ _ returned before =>
    IsTrans.trans _ _ _ before (zeroesOnly_copyToUser tidptr 4 _ result after returned)

/-- Exits write zeroes only. -/
theorem later_of_run {start final : Machine} {trace : List Step}
    (later : Later ZeroesOnly start tid machine) (reached : machine.run trace = some final) :
    Later ZeroesOnly start tid final :=
  LabelledRun.invariant_of_run (Later ZeroesOnly start tid)
    (fun later enabled => later.step (allowsClears_zeroesOnly _) enabled) later reached

/-- The step registers no thread that is between its two removals. -/
def RegistersOutside (machine : Machine) : Step → Prop
  | .register parent =>
    match machine.phase parent with
    | .registering child _ => machine.phase child ≠ .noted
    | _ => True
  | _ => True

/-- Between its two removals a thread has no registration. -/
def NotedRemoved (machine : Machine) : Prop :=
  ∀ tid, machine.phase tid = .noted → machine.clearChildTid[tid]? = none

theorem notedRemoved_boot : NotedRemoved boot := fun _ noted => by cases noted

private theorem noted_of_update {phase : Nat → Phase} {moved tid : Nat} {new : Phase}
    (elsewhere : new ≠ .noted) (noted : update phase moved new tid = .noted) :
    tid ≠ moved ∧ phase tid = .noted := by
  by_cases same : tid = moved
  · subst same
    rw [update_self] at noted
    exact absurd noted elsewhere
  · rw [update_of_ne same] at noted
    exact ⟨same, noted⟩

section

variable {registrations : Std.ExtTreeMap Nat Nat compare} (removed : registrations[tid]? = none)

include removed

private theorem getElem?_erase_none (other : Nat) : (registrations.erase other)[tid]? = none := by
  rw [Std.ExtTreeMap.getElem?_erase, removed]
  exact ite_self none

private theorem getElem?_insert_none {other : Nat} (different : tid ≠ other) (tidptr : Nat) :
    (registrations.insert other tidptr)[tid]? = none := by
  rw [Std.ExtTreeMap.getElem?_insert, if_neg, removed]
  exact fun equal => different (Std.LawfulEqCmp.compare_eq_iff_eq.mp equal).symm

end

theorem notedRemoved_step {step : Step} (removed : NotedRemoved machine)
    (outside : RegistersOutside machine step) (enabled : machine.step step = some next) :
    NotedRemoved next := by
  intro tid noted
  cases step with
  | spawn new memory =>
    simp only [step, Option.ite_none_right_eq_some, Option.some.injEq] at enabled
    obtain ⟨_, rfl⟩ := enabled
    exact removed tid (noted_of_update (by simp) noted).2
  | setTidAddress caller tidptr =>
    simp only [step, Option.ite_none_right_eq_some, Option.some.injEq] at enabled
    obtain ⟨running, rfl⟩ := enabled
    have other : tid ≠ caller := fun same => by
      have isRunning : machine.phase tid = .running := same ▸ running
      cases isRunning.symm.trans noted
    exact getElem?_insert_none (removed tid noted) other tidptr
  | clone parent child flags ctid =>
    simp only [step, Option.ite_none_right_eq_some, Option.some.injEq] at enabled
    obtain ⟨_, rfl⟩ := enabled
    have notParent : afterQueue child flags ctid ≠ .noted := by
      unfold afterQueue
      split <;> simp
    exact removed tid (noted_of_update (by simp) (noted_of_update notParent noted).2).2
  | register parent =>
    simp only [step] at enabled
    split at enabled
    case h_2 => cases enabled
    case h_1 child ctid registering =>
      obtain rfl := Option.some.inj enabled
      simp only [RegistersOutside, registering] at outside
      obtain ⟨registrations, isNext, elsewhere⟩ := @registerClearChildTid_eq machine child ctid
      rw [isNext] at noted ⊢
      have before := (noted_of_update (by simp) noted).2
      exact (elsewhere fun same => outside (same ▸ before)).trans (removed tid before)
  | noteExit exiting =>
    simp only [step, Option.ite_none_right_eq_some, Option.some.injEq] at enabled
    obtain ⟨_, rfl⟩ := enabled
    by_cases same : tid = exiting
    · subst same
      simp [setPhase, cleanupThreadState]
    · simp only [setPhase, update_of_ne same] at noted
      exact getElem?_erase_none (removed tid noted) exiting
  | clearTid exiting =>
    simp only [step, Option.ite_none_right_eq_some, Option.map_eq_some_iff] at enabled
    obtain ⟨_, cleared, clears, rfl⟩ := enabled
    rcases clearWord_cases clears with ⟨rfl, _⟩ | rfl | ⟨tidptr, result, after, _, _, rfl⟩
    · exact removed tid (noted_of_update (by simp) noted).2
    · exact getElem?_erase_none (removed tid (noted_of_update (by simp) noted).2) exiting
    · exact getElem?_erase_none (removed tid (noted_of_update (by simp) noted).2) exiting
  | cleanup tids =>
    obtain rfl := Option.some.inj enabled
    obtain ⟨registrations, isNext, stays⟩ := foldl_cleanup tids machine
    rw [isNext] at noted ⊢
    exact stays (removed tid noted)

/-- Without late registrations no exit writes to memory. -/
theorem unchanged_of_run {start final : Machine} {trace : List Step}
    (removed : NotedRemoved start) (later : Later Eq start tid start)
    (outside : LabelledRun.Guarded step RegistersOutside start trace)
    (reached : start.run trace = some final) : Later Eq start tid final := by
  have invariant : NotedRemoved final ∧ Later Eq start tid final :=
    LabelledRun.invariant_of_guarded
      (fun machine => NotedRemoved machine ∧ Later Eq start tid machine)
      (fun held outside enabled => by
        refine ⟨notedRemoved_step held.1 outside enabled, held.2.step ?_ enabled⟩
        intro exiting _ _ _ _ noted registered
        cases (held.1 exiting noted).symm.trans registered)
      ⟨removed, later⟩ outside reached
  exact invariant.2

/-! ### The word after `sys_exit` -/

/-- A thread that calls `sys_exit`, with a registration for a word that is mapped. -/
structure Registered (machine : Machine) (tid tidptr : Nat) : Prop where
  running : machine.phase tid = .running
  registered : machine.clearChildTid[tid]? = some tidptr
  notNull : tidptr ≠ 0
  mapped : (machine.view tid).Readable tidptr 4

/-- The `do_clone` that made the thread registers it for that word after the first removal of
its `sys_exit`, and the second one finds it. -/
def RegisteredLate (start : Machine) (tid tidptr : Nat) (trace : List Step) : Prop :=
  ∃ first rest middle, trace = first ++ .clearTid tid :: rest ∧
    start.run first = some middle ∧ middle.clearChildTid[tid]? = some tidptr

private theorem zeroWord_clearTid {start : Machine} {tidptr : Nat}
    (held : Later ZeroesOnly start tid machine) (mapped : (start.view tid).Readable tidptr 4)
    (notNull : tidptr ≠ 0) (found : machine.clearChildTid[tid]? = some tidptr)
    (enabled : machine.step (.clearTid tid) = some next) : ZeroWord (next.view tid) tidptr := by
  simp only [step, Option.ite_none_right_eq_some, Option.map_eq_some_iff] at enabled
  obtain ⟨_, cleared, clears, rfl⟩ := enabled
  simp only [clearWord, found, if_pos notNull, Option.map_eq_some_iff] at clears
  obtain ⟨⟨result, after⟩, returned, rfl⟩ := clears
  have stillMapped : (machine.view tid).Readable tidptr 4 :=
    fun offset below => held.memory.2 _ (mapped offset below)
  have zero := zeroRange_copyToUser stillMapped result after returned
  simpa [view, setPhase, cleanupThreadState] using zero

/-- For every run of registrations and exits: in every state after a thread registered for a
mapped word has entered `sys_exit`, so also when the call is over, that word is zero if it was
zero when the thread entered, or if its `do_clone` registered it between the two removals. In
runs in which no registration falls between the two removals of an exiting thread, it is zero
in no other case. -/
theorem sysExit_clears_word {before trace : List Step} {start final : Machine} {tid tidptr : Nat}
    (reached : boot.run before = some start) (registered : Registered start tid tidptr)
    (exits : start.run (.noteExit tid :: trace) = some final) :
    (ZeroWord (start.view tid) tidptr ∨ RegisteredLate start tid tidptr (.noteExit tid :: trace) →
        ZeroWord (final.view tid) tidptr) ∧
      (LabelledRun.Guarded step RegistersOutside boot (before ++ .noteExit tid :: trace) →
        ZeroWord (final.view tid) tidptr → ZeroWord (start.view tid) tidptr) := by
  have created : start.phase tid ≠ .fresh := by simp [registered.running]
  have home := spacesMade_of_run reached tid created
  have atStart : Later ZeroesOnly start tid start := ⟨created, home, rfl, refl _⟩
  refine ⟨?_, fun outside zero => ?_⟩
  · rintro (zero | ⟨first, rest, middle, split, reachedMiddle, found⟩)
    · exact zero.of_zeroesOnly (later_of_run atStart exits).memory
    · rw [split] at exits
      obtain ⟨between, reachedBetween, goesOn⟩ := LabelledRun.run_append_eq_some.mp exits
      obtain rfl := Option.some.inj (reachedMiddle.symm.trans reachedBetween)
      obtain ⟨after, enabled, continues⟩ := LabelledRun.run_cons_eq_some.mp goesOn
      have held := later_of_run atStart reachedMiddle
      have zero := zeroWord_clearTid held registered.mapped registered.notNull found enabled
      have made := LabelledRun.invariant_of_run SpacesMade spacesMade_step
        (spacesMade_of_run reached) reachedMiddle
      have createdAfter := (held.step (allowsClears_zeroesOnly _) enabled).created
      have homeAfter := spacesMade_step made enabled tid createdAfter
      exact zero.of_zeroesOnly (later_of_run ⟨createdAfter, homeAfter, rfl,
        refl _⟩ continues).memory
  · have removed : NotedRemoved start :=
      LabelledRun.invariant_of_guarded NotedRemoved notedRemoved_step notedRemoved_boot
        outside.left_of_append reached
    have same := unchanged_of_run removed ⟨created, home, rfl, rfl⟩
      (outside.right_of_append reached) exits
    rw [same.memory]
    exact zero

instance (machine : Machine) (tid tidptr : Nat) : Decidable (Registered machine tid tidptr) :=
  decidable_of_iff
    (machine.phase tid = .running ∧ machine.clearChildTid[tid]? = some tidptr ∧ tidptr ≠ 0 ∧
      (machine.view tid).Readable tidptr 4)
    ⟨fun ⟨running, registered, notNull, mapped⟩ => ⟨running, registered, notNull, mapped⟩,
      fun held => ⟨held.running, held.registered, held.notNull, held.mapped⟩⟩

def pageOf (byte : UInt8) : UserMemory where
  byte addr := if addr / PAGE_SIZE = 1 then some byte else none
  room _ := false

/-- Thread 2, registered for the word at 4096 by the `do_clone` of thread 1. -/
def registeredByClone (memory : UserMemory) : List Step :=
  [.spawn 1 memory, .clone 1 2 (CLONE_VM ||| Proc.CLONE_CHILD_CLEARTID) 4096, .register 1]

/-- Thread 2 sets its own address while the `do_clone` that made it is under way; this one
registers it again after the first removal. -/
theorem sysExit_clears_word_late :
    ∃ start final, boot.run [.spawn 1 (pageOf 7),
        .clone 1 2 (CLONE_VM ||| Proc.CLONE_CHILD_CLEARTID) 4096, .setTidAddress 2 4096] =
          some start ∧
      Registered start 2 4096 ∧
      start.run [.noteExit 2, .register 1, .clearTid 2] = some final ∧
      ¬ ZeroWord (start.view 2) 4096 ∧ ZeroWord (final.view 2) 4096 := by
  obtain ⟨start, reached, registered, nonzero, returns, late⟩ :
      ∃ start, boot.run [.spawn 1 (pageOf 7),
          .clone 1 2 (CLONE_VM ||| Proc.CLONE_CHILD_CLEARTID) 4096, .setTidAddress 2 4096] =
            some start ∧
        Registered start 2 4096 ∧ ¬ ZeroWord (start.view 2) 4096 ∧
        (start.run [.noteExit 2, .register 1, .clearTid 2]).isSome ∧
        ∃ middle, start.run [.noteExit 2, .register 1] = some middle ∧
          middle.clearChildTid[2]? = some 4096 := by
    decide +kernel
  obtain ⟨final, exits⟩ := Option.isSome_iff_exists.mp returns
  obtain ⟨middle, reachedMiddle, found⟩ := late
  exact ⟨start, final, reached, registered, exits, nonzero,
    (sysExit_clears_word reached registered exits).1
      (.inr ⟨[.noteExit 2, .register 1], [], middle, rfl, reachedMiddle, found⟩)⟩

/-- Thread 2 is registered, its `sys_exit` runs to its end and leaves the word at 4096 as it
was, which is not zero. -/
theorem sysExit_leaves_word :
    ∃ start final, boot.run (registeredByClone (pageOf 7)) = some start ∧
      Registered start 2 4096 ∧ start.run [.noteExit 2, .clearTid 2] = some final ∧
      final.phase 2 = .exited ∧ ¬ ZeroWord (final.view 2) 4096 := by
  simp only [exists_and_left]
  decide +kernel

end Machine

end Cyllor.ClearTid
