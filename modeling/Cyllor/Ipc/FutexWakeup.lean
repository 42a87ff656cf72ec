import Cyllor.Sched.Conservation

/-!
Contract: wakeups of futex waiters.

Owns:
- `NoLostWaiter`, that a thread Blocked inside an untimed FUTEX_WAIT is still
  queued on its address, or is among the waiters that a FUTEX_WAKE in progress
  has popped and is about to look for;
- the condition on steps under which runs of FUTEX_WAIT and FUTEX_WAKE keep it,
  and a run that loses a wakeup without it.

The control positions of threads are those of `Cyllor.Sched.Kernel`.
-/

namespace Cyllor.Sched.Kernel

open Scheduler Cyllor.Ipc QueueMap
open Function (update update_self update_of_ne forall_update_iff)

variable {cpus : Nat} {kernel next : Kernel cpus} {moved pid : Pid} {old new : Pc}
  {call : FutexWait} {cpu : Fin cpus} {thread : Thread}

/-- The operations of this module: FUTEX_WAIT and FUTEX_WAKE calls, with the
spawning, ticks and scheduling around them. -/
def WaitWakeScope : Label cpus → Prop
  | .spawn _ | .advance _ _ | .preempt _ | .timer _ => True
  | .futex _ args _ => args.futexOp &&& FUTEX_CMD_MASK ≠ FUTEX_REQUEUE ∧
      args.futexOp &&& FUTEX_CMD_MASK ≠ FUTEX_CMP_REQUEUE
  | .sleepTicks _ _ | .exit _ | .exitGroup _ _ | .kill _ => False

instance (label : Label cpus) : Decidable (WaitWakeScope label) := by
  cases label <;> unfold WaitWakeScope <;> infer_instance

/-- The FUTEX_WAIT call a thread is inside of. -/
def insideWait : Pc → Option FutexWait
  | .enqueue call => some call
  | .mark _ (.futexWait call) => some call
  | .register _ _ (.futexWait call) => some call
  | .yield (.futexWait call) => some call
  | .unqueue call => some call
  | .takeToken call => some call
  | _ => none

/-- The waiters that a FUTEX_WAKE has popped and not yet looked for. -/
def pickedAt : Pc → List Pid
  | .cancelWakeup tid rest _ => tid :: rest
  | .wakeTid tid rest _ => tid :: rest
  | .addToken _ rest _ => rest
  | _ => []

/-- A FUTEX_WAKE in progress will look for `pid`. -/
def WillBeLookedFor (kernel : Kernel cpus) (pid : Pid) : Prop :=
  ∃ waker ∈ kernel.spawned, pid ∈ pickedAt (kernel.pc waker)

instance (kernel : Kernel cpus) (pid : Pid) : Decidable (WillBeLookedFor kernel pid) :=
  inferInstanceAs (Decidable (∃ waker ∈ kernel.spawned, _))

/-- The waiter can still be found by a FUTEX_WAKE. -/
def Findable (kernel : Kernel cpus) (pid : Pid) (call : FutexWait) : Prop :=
  pid ∈ queueAt kernel.waiters call.uaddr ∨ WillBeLookedFor kernel pid

/-- No thread is Blocked inside an untimed FUTEX_WAIT where no FUTEX_WAKE can
find it. -/
def NoLostWaiter (kernel : Kernel cpus) : Prop :=
  ∀ pid, BlockedPid kernel.sched pid → ∀ call, insideWait (kernel.pc pid) = some call →
    call.timeout = 0 → Findable kernel pid call

/-! ### The condition on steps -/

/-- The thread has queued itself and has yet to mark itself Blocked. -/
def marksWait : Pc → Option FutexWait
  | .mark _ (.futexWait call) => some call
  | _ => none

/-- A section of a FUTEX call does not fall into a window in which a wakeup is
lost: `wake_tid` does not look for a waiter that has yet to mark itself Blocked,
and a waiter does not leave its queue while it is still Blocked. -/
def WaitSafeAt (kernel : Kernel cpus) (thread : Thread) : Pc → Prop
  | .wakeTid tid _ _ => marksWait (kernel.pc tid) = none
  | .unqueue _ => thread.state ≠ .Blocked
  | _ => True

/-- The step avoids these windows, and calls start on CPUs with a `CURRENT_PID`
entry. -/
def WaitSafe (kernel : Kernel cpus) : Label cpus → Prop
  | .futex cpu _ _ => cpu.val < MAX_CPUS
  | .advance cpu _ =>
    match kernel.sched.current cpu with
    | none => True
    | some thread => WaitSafeAt kernel thread (kernel.pc thread.pid)
  | _ => True

instance (kernel : Kernel cpus) (thread : Thread) (pc : Pc) :
    Decidable (WaitSafeAt kernel thread pc) := by
  unfold WaitSafeAt
  split <;> infer_instance

instance (kernel : Kernel cpus) (label : Label cpus) : Decidable (WaitSafe kernel label) := by
  unfold WaitSafe
  split
  · infer_instance
  · split <;> infer_instance
  · infer_instance

/-! ### The invariant -/

/-- The positions of threads that only call FUTEX_WAIT and FUTEX_WAKE. -/
def WaitWakePc : Pc → Prop
  | .user | .enqueue _ | .unqueue _ | .takeToken _ | .popWaiters _ _ => True
  | .cancelWakeup _ _ _ | .wakeTid _ _ _ | .addToken _ _ _ => True
  | .mark _ blocking | .register _ _ blocking | .yield blocking =>
    ∃ call, blocking = .futexWait call
  | .requeueWaiters _ _ _ _ | .markCurrentDead | .markThreadsDead _ | .exitYield => False

/-- The positions between marking itself Blocked and leaving the queue. -/
def blockedWindow : Pc → Option FutexWait
  | .register _ _ (.futexWait call) => some call
  | .yield (.futexWait call) => some call
  | .unqueue call => some call
  | _ => none

structure WaitInvariant (kernel : Kernel cpus) : Prop where
  ledger : Ledger kernel
  scope : ∀ pid, WaitWakePc (kernel.pc pid)
  ownTid : ∀ pid call, insideWait (kernel.pc pid) = some call → call.tid = pid
  marks : ∀ pid call, marksWait (kernel.pc pid) = some call → Findable kernel pid call
  blocked : ∀ pid, BlockedPid kernel.sched pid → pid ≠ 0 ∧
    ∃ call, blockedWindow (kernel.pc pid) = some call ∧ Findable kernel pid call

theorem not_blockedPid_init (pid : Pid) : ¬ BlockedPid (Scheduler.init cpus) pid := by
  rintro ⟨place, thread, standing, _, blocked⟩
  cases place with
  | current cpu =>
    obtain rfl := Option.some.inj standing
    cases blocked
  | queue cpu => cases standing

theorem waitInvariant_boot (cpus : Nat) : WaitInvariant (boot cpus) where
  ledger := ledger_boot cpus
  scope _ := trivial
  ownTid _ _ inside := by cases inside
  marks _ _ marking := by cases marking
  blocked pid blocked := absurd blocked (not_blockedPid_init pid)

/-- One thread moves to a new position. Whoever it still looks for and whoever stays queued can
still be found. -/
private theorem Findable.keep (found : Findable kernel pid call) (atOld : kernel.pc moved = old)
    (pc : next.pc = update kernel.pc moved new) (spawned : next.spawned = kernel.spawned)
    (kept : pid ∈ pickedAt old → pid ∈ pickedAt new)
    (queued : pid ∈ queueAt kernel.waiters call.uaddr → Findable next pid call) :
    Findable next pid call := by
  rcases found with inQueue | ⟨waker, isSpawned, picked⟩
  · exact queued inQueue
  · refine .inr ⟨waker, spawned ▸ isSpawned, ?_⟩
    rw [pc]
    by_cases same : waker = moved
    · subst same
      rw [update_self]
      exact kept (atOld ▸ picked)
    · rw [update_of_ne same]
      exact picked

/-- One thread moves. The invariant carries over when the moving thread is Blocked only inside the
window, nobody else becomes Blocked, and whoever must be findable still is. -/
private theorem WaitInvariant.move (invariant : WaitInvariant kernel) (notIdle : moved ≠ 0)
    (pc : next.pc = update kernel.pc moved new) (ledger : Ledger next) (scope : WaitWakePc new)
    (ownTid : ∀ call, insideWait new = some call → call.tid = moved)
    (marks : ∀ call, marksWait new = some call → Findable next moved call)
    (blockedMoved : BlockedPid next.sched moved →
      ∃ call, blockedWindow new = some call ∧ Findable next moved call)
    (blockedOther : ∀ pid, pid ≠ moved → BlockedPid next.sched pid → BlockedPid kernel.sched pid)
    (findable : ∀ pid call, pid ≠ moved →
      marksWait (kernel.pc pid) = some call ∨ BlockedPid next.sched pid →
      Findable kernel pid call → Findable next pid call) : WaitInvariant next where
  ledger := ledger
  scope := by
    rw [pc]
    exact (forall_update_iff _ fun _ => WaitWakePc).mpr ⟨scope, fun pid _ => invariant.scope pid⟩
  ownTid := by
    rw [pc]
    exact (forall_update_iff _ fun pid pc => ∀ call, insideWait pc = some call → call.tid = pid).mpr
      ⟨ownTid, fun pid _ => invariant.ownTid pid⟩
  marks := by
    rw [pc]
    refine (forall_update_iff _ fun pid pc => ∀ call, marksWait pc = some call →
      Findable next pid call).mpr ⟨marks, fun pid same call marking => ?_⟩
    exact findable pid call same (.inl marking) (invariant.marks pid call marking)
  blocked := by
    rw [pc]
    refine (forall_update_iff _ fun pid pc => BlockedPid next.sched pid → pid ≠ 0 ∧
      ∃ call, blockedWindow pc = some call ∧ Findable next pid call).mpr
        ⟨fun blocked => ⟨notIdle, blockedMoved blocked⟩, fun pid same blocked => ?_⟩
    obtain ⟨pidNotIdle, call, window, found⟩ :=
      invariant.blocked pid (blockedOther pid same blocked)
    exact ⟨pidNotIdle, call, window, findable pid call same (.inr blocked) found⟩

private theorem WaitInvariant.not_blocked (invariant : WaitInvariant kernel) {pc : Pc}
    (atPc : kernel.pc pid = pc) (outside : blockedWindow pc = none) :
    ¬ BlockedPid kernel.sched pid := by
  intro blocked
  obtain ⟨_, call, window, _⟩ := invariant.blocked pid blocked
  rw [atPc, outside] at window
  cases window

private theorem WaitInvariant.still (invariant : WaitInvariant kernel) (ledger : Ledger next)
    (pc : next.pc = kernel.pc) (waiters : next.waiters = kernel.waiters)
    (spawned : ∀ waker ∈ kernel.spawned, waker ∈ next.spawned)
    (blocked : ∀ pid, BlockedPid next.sched pid → BlockedPid kernel.sched pid) :
    WaitInvariant next := by
  have findable (pid : Pid) (call : FutexWait) (found : Findable kernel pid call) :
      Findable next pid call := by
    rcases found with queued | ⟨waker, isSpawned, picked⟩
    · exact .inl (waiters ▸ queued)
    · exact .inr ⟨waker, spawned waker isSpawned, pc ▸ picked⟩
  refine ⟨ledger, pc ▸ invariant.scope, pc ▸ invariant.ownTid, ?_, ?_⟩
  · intro pid call marking
    exact findable pid call (invariant.marks pid call (pc ▸ marking))
  · intro pid isBlocked
    obtain ⟨notIdle, call, window, found⟩ := invariant.blocked pid (blocked pid isBlocked)
    exact ⟨notIdle, call, pc ▸ window, findable pid call found⟩

section

variable (woke : Nat) (picked : List Pid)

include woke picked

@[simp] theorem pickedAt_pickedPc : pickedAt (pickedPc woke picked) = picked := by
  cases picked <;> rfl

@[simp] theorem marksWait_pickedPc : marksWait (pickedPc woke picked) = none := by
  cases picked <;> rfl

@[simp] theorem insideWait_pickedPc : insideWait (pickedPc woke picked) = none := by
  cases picked <;> rfl

private theorem waitWakePc_pickedPc : WaitWakePc (pickedPc woke picked) := by
  cases picked <;> trivial

end

section

variable (invariant : WaitInvariant kernel)

include invariant

/-- A thread that is outside the window and stays outside moves, and nobody
becomes Blocked. Whoever it stops looking for must not need to be found. -/
private theorem WaitInvariant.quiet (executes : Executes kernel cpu thread old)
    (pc : next.pc = update kernel.pc thread.pid new) (waiters : next.waiters = kernel.waiters)
    (spawned : next.spawned = kernel.spawned) (ledger : Ledger next) (scope : WaitWakePc new)
    (ownTid : ∀ call, insideWait new = some call → call.tid = thread.pid)
    (marks : marksWait new = none) (outside : blockedWindow old = none)
    (blocked : ∀ pid, BlockedPid next.sched pid → BlockedPid kernel.sched pid)
    (kept : ∀ pid, marksWait (kernel.pc pid) ≠ none ∨ BlockedPid next.sched pid →
      pid ∈ pickedAt old → pid ∈ pickedAt new) :
    WaitInvariant next := by
  refine invariant.move executes.notIdle pc ledger scope ownTid ?_ ?_ (fun pid _ => blocked pid) ?_
  · intro call marking
    rw [marks] at marking
    cases marking
  · intro isBlocked
    exact absurd (blocked _ isBlocked) (invariant.not_blocked executes.pc outside)
  · intro pid call _ needed found
    have needed : marksWait (kernel.pc pid) ≠ none ∨ BlockedPid next.sched pid :=
      needed.imp_left fun marking => by simp [marking]
    exact found.keep executes.pc pc spawned (kept pid needed) fun queued => .inl (waiters ▸ queued)

private theorem waitInvariant_futex {args : FutexArgs} {view : FutexView}
    (executes : Executes kernel cpu thread .user) (inScope : WaitWakeScope (.futex cpu args view))
    (recorded : cpu.val < MAX_CPUS) (ledger : Ledger (kernel.startFutex cpu args view thread.pid)) :
    WaitInvariant (kernel.startFutex cpu args view thread.pid) := by
  have own := invariant.ledger.getCurrentPid_eq executes.present recorded
  have entered := doFutex_cases args view (kernel.getCurrentPid cpu)
  refine invariant.quiet executes rfl rfl rfl ledger ?_ ?_ ?_ rfl (fun _ blocked => blocked)
    (fun _ _ => nofun)
  · rcases entered with ⟨_, entry⟩ | ⟨_, entry, _⟩ | entry | ⟨requeues, _⟩
    · simp [entry, entryPc, WaitWakePc]
    · simp [entry, entryPc, WaitWakePc]
    · simp [entry, entryPc, WaitWakePc]
    · exact absurd requeues (not_or.mpr inScope)
  · intro call inside
    rcases entered with ⟨_, entry⟩ | ⟨waiting, entry, tid⟩ | entry | ⟨_, entry⟩ <;>
      simp only [entry, entryPc, insideWait, Option.some.injEq, reduceCtorEq] at inside
    subst inside
    exact tid.trans own
  · rcases entered with ⟨_, entry⟩ | ⟨_, entry, _⟩ | entry | ⟨_, entry⟩ <;>
      simp [entry, entryPc, marksWait]

private theorem waitInvariant_enqueue (executes : Executes kernel cpu thread (.enqueue call))
    (isNext : next = { kernel with waiters := push kernel.waiters call.uaddr call.tid }.setPc
      thread.pid (.mark (kernel.wakeAt call) (.futexWait call)))
    (ledger : Ledger next) : WaitInvariant next := by
  subst isNext
  have own : call.tid = thread.pid := invariant.ownTid _ _ (by rw [executes.pc]; rfl)
  refine invariant.move executes.notIdle rfl ledger ⟨call, rfl⟩ ?_ ?_ ?_ (fun _ _ blocked =>
    blocked) ?_
  · rintro inside ⟨⟩
    exact own
  · rintro marking ⟨⟩
    refine .inl ?_
    simp [setPc, queueAt_push, own]
  · intro isBlocked
    exact absurd isBlocked (invariant.not_blocked executes.pc rfl)
  · intro pid other _ _ found
    refine found.keep executes.pc rfl rfl (by rintro ⟨⟩) fun queued => .inl ?_
    simp only [setPc, queueAt_push]
    split
    case isTrue same => exact List.mem_append_left _ (same ▸ queued)
    case isFalse => exact queued

private theorem waitInvariant_mark {wakeAt : Nat} {blocking : Blocking}
    (executes : Executes kernel cpu thread (.mark wakeAt blocking)) (registered : Pid)
    (isNext : next = { kernel with sched := kernel.sched.markCurrentBlocked cpu }.setPc
      thread.pid (.register registered wakeAt blocking))
    (ledger : Ledger next) : WaitInvariant next := by
  subst isNext
  obtain ⟨call, rfl⟩ : ∃ call, blocking = .futexWait call :=
    show WaitWakePc (.mark wakeAt blocking) from executes.pc ▸ invariant.scope thread.pid
  have findable {pid : Pid} {other : FutexWait} (found : Findable kernel pid other) :
      Findable ({ kernel with sched := kernel.sched.markCurrentBlocked cpu }.setPc
        thread.pid (.register registered wakeAt (.futexWait call))) pid other :=
    found.keep executes.pc rfl rfl nofun .inl
  refine invariant.move executes.notIdle rfl ledger ⟨call, rfl⟩ ?_ (by simp [marksWait]) ?_ ?_
    (fun _ _ _ _ => findable)
  · rintro inside ⟨⟩
    exact invariant.ownTid _ _ (by rw [executes.pc]; rfl)
  · intro _
    exact ⟨call, rfl, findable (invariant.marks _ _ (by rw [executes.pc]; rfl))⟩
  · intro pid different blocked
    rcases BlockedPid.of_markCurrentBlocked executes.present blocked with old | same
    · exact old
    · exact absurd same different

private theorem waitInvariant_window (executes : Executes kernel cpu thread old)
    (pc : next.pc = update kernel.pc thread.pid new) (oldWindow : blockedWindow old = some call)
    (newWindow : blockedWindow new = some call) (inside : insideWait old = some call)
    (newInside : insideWait new = some call) (marks : marksWait new = none) (scope : WaitWakePc new)
    (picks : pickedAt old = []) (waiters : next.waiters = kernel.waiters)
    (spawned : next.spawned = kernel.spawned) (ledger : Ledger next)
    (blocked : ∀ pid, BlockedPid next.sched pid → BlockedPid kernel.sched pid) :
    WaitInvariant next := by
  have findable {pid : Pid} {other : FutexWait} (found : Findable kernel pid other) :
      Findable next pid other :=
    found.keep executes.pc pc spawned (fun picked => absurd (picks ▸ picked) List.not_mem_nil)
      fun queued => .inl (waiters ▸ queued)
  refine invariant.move executes.notIdle pc ledger scope ?_ (by simp [marks]) ?_
    (fun pid _ => blocked pid) (fun _ _ _ _ => findable)
  · intro other otherInside
    obtain rfl := Option.some.inj (newInside.symm.trans otherInside)
    exact invariant.ownTid _ _ (executes.pc ▸ inside)
  · intro isBlocked
    obtain ⟨_, other, window, found⟩ := invariant.blocked _ (blocked _ isBlocked)
    rw [executes.pc, oldWindow] at window
    obtain rfl := Option.some.inj window
    exact ⟨call, newWindow, findable found⟩

private theorem waitInvariant_unqueue (executes : Executes kernel cpu thread (.unqueue call))
    (awake : thread.state ≠ .Blocked)
    (isNext : next = { kernel with
      waiters := unqueueWaiter kernel.waiters call.uaddr call.tid }.setPc thread.pid
        (.takeToken call))
    (ledger : Ledger next) : WaitInvariant next := by
  subst isNext
  have own : call.tid = thread.pid := invariant.ownTid _ _ (by rw [executes.pc]; rfl)
  refine invariant.move executes.notIdle rfl ledger trivial ?_ (by simp [marksWait]) ?_
    (fun _ _ blocked => blocked) ?_
  · rintro inside ⟨⟩
    exact own
  · rintro ⟨place, other, standing, samePid, isBlocked⟩
    have present : At kernel.sched (.current cpu) thread := executes.present
    obtain ⟨_, rfl⟩ :=
      invariant.ledger.distinctPids.eq_of_at present standing samePid executes.notIdle
    exact absurd isBlocked awake
  · intro pid other different _ found
    refine found.keep executes.pc rfl rfl nofun fun queued => .inl ?_
    simp only [setPc, queueAt_unqueueWaiter, own]
    split
    case isTrue same =>
      rw [List.mem_filter]
      exact ⟨same ▸ queued, by simpa using different⟩
    case isFalse => exact queued

/-- The waiters that a FUTEX_WAKE takes out of the queue are looked for. -/
private theorem waitInvariant_popWaiters {uaddr count : Nat} {woke : Nat}
    (executes : Executes kernel cpu thread (.popWaiters uaddr count))
    (isNext : next = { kernel with
      waiters := (Ipc.popWaiters kernel.waiters uaddr count).2 }.wakePicked thread.pid
        (Ipc.popWaiters kernel.waiters uaddr count).1 woke)
    (ledger : Ledger next) : WaitInvariant next := by
  subst isNext
  refine invariant.move executes.notIdle rfl ledger (waitWakePc_pickedPc _ _) (by simp) (by simp)
    ?_ (fun _ _ blocked => blocked) ?_
  · intro isBlocked
    exact absurd isBlocked (invariant.not_blocked executes.pc rfl)
  · intro pid call _ _ found
    refine found.keep executes.pc rfl rfl nofun fun queued => ?_
    by_cases same : call.uaddr = uaddr
    · rw [same, ← List.take_append_drop count (queueAt kernel.waiters uaddr)] at queued
      rcases List.mem_append.mp queued with taken | left
      · refine .inr ⟨thread.pid, ?_, ?_⟩
        · exact invariant.ledger.mem_spawned
            (show At kernel.sched (.current cpu) thread from executes.present) executes.notIdle
        · simpa [wakePicked, setPc, popWaiters_fst] using taken
      · refine .inl ?_
        simpa [wakePicked, setPc, queueAt_popWaiters, same] using left
    · refine .inl ?_
      simpa [wakePicked, setPc, queueAt_popWaiters, same] using queued

/-- Every step of FUTEX_WAIT and FUTEX_WAKE that avoids the windows keeps the
invariant. -/
theorem waitInvariant_step {label : Label cpus} (inScope : WaitWakeScope label)
    (safe : WaitSafe kernel label) (enabled : kernel.step label = some next) :
    WaitInvariant next := by
  have ledger := ledger_step invariant.ledger enabled
  -- a thread at any position outside FUTEX_WAIT and FUTEX_WAKE contradicts the invariant
  have scope {cpu : Fin cpus} {thread : Thread} {pc : Pc}
      (executes : Executes kernel cpu thread pc) : WaitWakePc pc :=
    executes.pc ▸ invariant.scope thread.pid
  -- whoever `wake_tid` looks for has marked itself
  have sought {cpu : Fin cpus} {word : Option Nat} {thread : Thread} {tid pid : Pid}
      {rest : List Pid} {woke : Nat}
      (executes : Executes kernel cpu thread (.wakeTid tid rest woke))
      (safe : WaitSafe kernel (.advance cpu word)) {blocked : Prop}
      (needed : marksWait (kernel.pc pid) ≠ none ∨ blocked) (other : blocked → pid ≠ tid) :
      pid ≠ tid := by
    refine needed.elim (fun marking => ?_) other
    rintro rfl
    have unmarked : marksWait (kernel.pc pid) = none := by
      simpa [WaitSafe, executes.present, executes.pc, WaitSafeAt] using safe
    exact marking unmarked
  cases section_of_step enabled with
  | spawn thread target ready =>
    exact invariant.still ledger rfl rfl (fun _ => List.mem_cons_of_mem _)
      fun _ => BlockedPid.of_pushBack ready
  | preempt cpu =>
    exact invariant.still ledger rfl rfl (fun _ member => member) fun _ => BlockedPid.of_schedule
  | timerCount | timerPop =>
    exact invariant.still ledger rfl rfl (fun _ member => member) fun _ blocked => blocked
  | timerWake =>
    exact invariant.still ledger rfl rfl (fun _ member => member)
      fun _ => BlockedPid.of_wakeSleepers
  | sleepNothing | sleepTicks | exit | exitGroup | kill => exact absurd inScope id
  | requeueWaiters _ _ _ _ executes | markCurrentDead executes | markThreadsDead _ executes
  | exitYield executes => exact (scope executes).elim
  | futex args view executes => exact waitInvariant_futex invariant executes inScope safe ledger
  | enqueue call executes => exact waitInvariant_enqueue invariant executes rfl ledger
  | mark wakeAt blocking executes => exact waitInvariant_mark invariant executes _ rfl ledger
  | register registered wakeAt blocking executes =>
    obtain ⟨call, rfl⟩ : ∃ call, blocking = .futexWait call := scope executes
    exact waitInvariant_window invariant executes rfl rfl rfl rfl rfl rfl ⟨call, rfl⟩ rfl rfl rfl
      ledger fun _ blocked => blocked
  | yield blocking executes =>
    obtain ⟨call, rfl⟩ : ∃ call, blocking = .futexWait call := scope executes
    exact waitInvariant_window invariant executes rfl rfl rfl rfl rfl rfl trivial rfl rfl rfl
      ledger fun _ => BlockedPid.of_schedule
  | unqueue call executes =>
    refine waitInvariant_unqueue invariant executes ?_ rfl ledger
    simpa [WaitSafe, executes.present, executes.pc, WaitSafeAt] using safe
  | takeToken call tokens result executes =>
    exact invariant.quiet executes rfl rfl rfl ledger trivial (by simp [insideWait]) rfl rfl
      (fun _ blocked => blocked) (fun _ _ => nofun)
  | popWaiters uaddr count executes => exact waitInvariant_popWaiters invariant executes rfl ledger
  | cancelWakeup tid rest woke executes =>
    exact invariant.quiet executes rfl rfl rfl ledger trivial (by simp [insideWait]) rfl rfl
      (fun _ blocked => blocked) (fun _ _ picked => picked)
  | wakeFound tid rest woke sched executes found =>
    refine invariant.quiet executes rfl rfl rfl ledger trivial (by simp [insideWait]) rfl rfl
      (fun _ => BlockedPid.of_wakeTid found) ?_
    intro pid needed picked
    refine (List.mem_cons.mp picked).resolve_left (sought executes safe needed fun blocked => ?_)
    have notIdle := (invariant.blocked pid (blocked.of_wakeTid found)).1
    rintro rfl
    exact not_blockedPid_of_wakeTid_eq_some invariant.ledger.distinctPids found notIdle blocked
  | wakeMissed tid rest woke executes missing =>
    refine invariant.quiet executes rfl rfl rfl ledger (waitWakePc_pickedPc _ _) (by simp)
      (by simp) rfl (fun _ blocked => blocked) ?_
    intro pid needed picked
    rw [pickedAt_pickedPc]
    refine (List.mem_cons.mp picked).resolve_left (sought executes safe needed fun blocked => ?_)
    rintro rfl
    exact not_blockedPid_of_wakeTid_eq_none missing blocked
  | addToken tid rest woke executes =>
    exact invariant.quiet executes rfl rfl rfl ledger (waitWakePc_pickedPc _ _) (by simp)
      (by simp) rfl (fun _ blocked => blocked)
      (fun _ _ picked => (pickedAt_pickedPc woke rest).symm ▸ picked)

end

/-- Threads 1, 2 and 3 on two CPUs; thread 1 waits on a futex word and thread 2
runs a complete FUTEX_WAKE. `wakeEarly` lets the wake run after the waiter has
queued itself and before it has marked itself Blocked. -/
def queueThenWake (wakeEarly : Bool) : List (Label 2) :=
  let wait : FutexArgs := ⟨0x100, FUTEX_WAIT, 0, 0, 0, 0⟩
  let wake : FutexArgs := ⟨0x100, FUTEX_WAKE, 1, 0, 0, 0⟩
  let view : FutexView := ⟨some 0, none, 0⟩
  let block : List (Label 2) := [.advance 0 none, .advance 0 none, .advance 0 none]
  let waker : List (Label 2) :=
    [.futex 1 wake view, .advance 1 none, .advance 1 none, .advance 1 none]
  [.spawn (Thread.newKernel 1 0 0), .spawn (Thread.newKernel 2 0 0),
    .spawn (Thread.newKernel 3 0 0), .preempt 0, .preempt 1, .futex 0 wait view,
    .advance 0 none] ++
    (if wakeEarly then waker ++ block else block ++ waker ++ [.advance 1 none])

end Cyllor.Sched.Kernel
