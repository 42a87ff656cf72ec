import Cyllor.Ipc.FutexWakeup

/-!
Contract: what the futex queues hold.

Owns:
- `QueuesFaithful`, that every queued tid is a live thread inside a FUTEX_WAIT
  and is stored once;
- `codeStep`, the sections together with the code that goes on after a thread was dropped;
- the condition on steps under which runs of all futex operations, ticks and
  deaths keep it, and runs that leave a stale tid behind without it.
-/

namespace Cyllor.Sched.Kernel

open Scheduler Cyllor.Ipc QueueMap

variable {cpus : Nat} {kernel next : Kernel cpus} {pid tid : Pid} {cpu : Fin cpus}
  {thread : Thread} {sched : Scheduler cpus} {uaddr uaddr2 nrWake nrRequeue : Nat}

/-- Every queued tid belongs to a live thread inside a FUTEX_WAIT and is stored
once. -/
structure QueuesFaithful (kernel : Kernel cpus) : Prop where
  live : ∀ tid, Listed kernel.waiters tid → LivePid kernel.sched tid
  inside : ∀ tid, Listed kernel.waiters tid → (insideWait (kernel.pc tid)).isSome
  once : StoredOnce kernel.waiters

/-! ### Code that outlives its thread -/

/-- `schedule` drops the thread that a CPU executes: the thread, and the one in whose place its
code goes on. Its registers are saved to the thread at the back of the run queue; with an empty
queue there is no context switch, and the code goes on at once for the next thread. -/
def displaced (sched : Scheduler cpus) (cpu : Fin cpus) : Option (Pid × Pid) :=
  match (sched.schedule cpu).discarded, (sched.schedule cpu).switch with
  | some out, some switch =>
    if switch.idleToNew then none
    else
      (match switch.saveTo with
      | some index => ((sched.schedule cpu).sched.runQueues cpu)[index]?
      | none => (sched.schedule cpu).sched.current cpu).map fun place : Thread =>
          (out.pid, place.pid)
  | _, _ => none

def displacedBy (kernel : Kernel cpus) (label : Label cpus) : Option (Pid × Pid) :=
  (kernel.schedulesOn label).bind (displaced kernel.sched)

/-- One section, with the code of a dropped thread in its new place. -/
def codeStep (kernel : Kernel cpus) (label : Label cpus) : Option (Kernel cpus) :=
  (kernel.step label).map fun next =>
    match kernel.displacedBy label with
    | none => next
    | some (out, place) => next.setPc place (next.pc out)

/-! ### The condition on steps -/

def NoneQueued (kernel : Kernel cpus) (pids : List Pid) : Prop :=
  ∀ pid ∈ pids, ¬ Listed kernel.waiters pid

def OnlyQueuedAt (kernel : Kernel cpus) (uaddr : Nat) (tid : Pid) : Prop :=
  ∀ entry ∈ kernel.waiters.toList, tid ∈ entry.2 → entry.1 = uaddr

/-- `schedule` does not discard a Ready thread that is queued. -/
def KeepsQueued (kernel : Kernel cpus) (cpu : Fin cpus) : Prop :=
  match kernel.sched.current cpu with
  | none => True
  | some out => Listed kernel.waiters out.pid → KeepsOutgoing kernel.sched cpu

/-- The section leaves no stale tid behind: a thread that queues itself is not
dead, a waiter that leaves its queue is in no other, threads that are killed are
not queued, and `schedule` does not discard a queued thread. -/
def QueueSafeAt (kernel : Kernel cpus) (cpu : Fin cpus) (thread : Thread) : Pc → Prop
  | .enqueue _ => thread.state ≠ .Dead
  | .unqueue call => OnlyQueuedAt kernel call.uaddr thread.pid
  | .markThreadsDead members => NoneQueued kernel members
  | .yield _ => KeepsQueued kernel cpu
  | .exitYield => KeepsQueued kernel cpu
  | _ => True

/-- The step leaves no stale tid behind, and calls start on CPUs with a
`CURRENT_PID` entry. -/
def QueueSafe (kernel : Kernel cpus) : Label cpus → Prop
  | .futex cpu _ _ => cpu.val < MAX_CPUS
  | .advance cpu _ =>
    match kernel.sched.current cpu with
    | none => True
    | some thread => QueueSafeAt kernel cpu thread (kernel.pc thread.pid)
  | .preempt cpu => KeepsQueued kernel cpu
  | .kill pids => NoneQueued kernel pids
  | _ => True

/-- Code that outlives its thread is not inside a FUTEX_WAIT, and the thread in whose place it
goes on is not queued. -/
def CodeSafe (kernel : Kernel cpus) (label : Label cpus) : Prop :=
  match kernel.displacedBy label with
  | none => True
  | some (out, place) => insideWait (kernel.pc out) = none ∧ ¬ Listed kernel.waiters place

instance (kernel : Kernel cpus) (pids : List Pid) : Decidable (NoneQueued kernel pids) :=
  inferInstanceAs (Decidable (∀ pid ∈ pids, _))

instance (kernel : Kernel cpus) (cpu : Fin cpus) : Decidable (KeepsQueued kernel cpu) := by
  delta KeepsQueued
  rcases kernel.sched.current cpu <;> infer_instance

instance (kernel : Kernel cpus) (cpu : Fin cpus) (thread : Thread) (pc : Pc) :
    Decidable (QueueSafeAt kernel cpu thread pc) := by
  delta QueueSafeAt OnlyQueuedAt
  rcases pc <;> infer_instance

instance (kernel : Kernel cpus) (label : Label cpus) : Decidable (QueueSafe kernel label) := by
  delta QueueSafe
  rcases label
  case advance cpu view =>
    dsimp only
    rcases kernel.sched.current cpu <;> infer_instance
  all_goals infer_instance

instance (kernel : Kernel cpus) (label : Label cpus) : Decidable (CodeSafe kernel label) := by
  delta CodeSafe
  rcases kernel.displacedBy label <;> infer_instance

/-! ### The invariant -/

/-- The positions of a thread that may be queued. -/
def queuedWindow : Pc → Bool
  | .mark _ (.futexWait _) => true
  | .register _ _ (.futexWait _) => true
  | .yield (.futexWait _) => true
  | .unqueue _ => true
  | _ => false

structure QueueInvariant (kernel : Kernel cpus) : Prop where
  ledger : Ledger kernel
  ownTid : ∀ pid call, insideWait (kernel.pc pid) = some call → call.tid = pid
  notIdle : ¬ Listed kernel.waiters 0
  live : ∀ tid, Listed kernel.waiters tid → LivePid kernel.sched tid
  window : ∀ tid, Listed kernel.waiters tid → queuedWindow (kernel.pc tid) = true
  once : StoredOnce kernel.waiters

theorem queueInvariant_boot (cpus : Nat) : QueueInvariant (boot cpus) where
  ledger := ledger_boot cpus
  ownTid _ _ inside := by cases inside
  notIdle := by simp [boot, listed_iff]
  live tid listed := by simp [boot, listed_iff] at listed
  window tid listed := by simp [boot, listed_iff] at listed
  once := storedOnce_empty

section

variable (invariant : QueueInvariant kernel)

include invariant

private theorem QueueInvariant.not_listed {pc : Pc} (atPc : kernel.pc pid = pc)
    (outside : queuedWindow pc = false) : ¬ Listed kernel.waiters pid := by
  intro listed
  have window := invariant.window pid listed
  rw [atPc, outside] at window
  cases window

/-- One thread moves. The invariant carries over when nobody is added to a queue,
queued threads stay live, and the moving thread leaves the window only when it
has left the queues. -/
private theorem QueueInvariant.move {moved : Pid} {new : Pc}
    (pc : next.pc = Function.update kernel.pc moved new) (ledger : Ledger next)
    (ownTid : ∀ call, insideWait new = some call → call.tid = moved)
    (window : Listed next.waiters moved → queuedWindow new = true)
    (queues : ∀ tid, Listed next.waiters tid → Listed kernel.waiters tid)
    (once : StoredOnce next.waiters)
    (live : ∀ tid, tid ≠ 0 → Listed next.waiters tid → LivePid kernel.sched tid →
      LivePid next.sched tid) :
    QueueInvariant next where
  ledger := ledger
  ownTid := by
    rw [pc]
    exact (Function.forall_update_iff _ fun pid pc => ∀ call, insideWait pc = some call →
      call.tid = pid).mpr ⟨ownTid, fun pid _ => invariant.ownTid pid⟩
  notIdle listed := invariant.notIdle (queues 0 listed)
  live tid listed := by
    refine live tid ?_ listed (invariant.live tid (queues tid listed))
    rintro rfl
    exact invariant.notIdle (queues 0 listed)
  window := by
    rw [pc]
    exact (Function.forall_update_iff _ fun tid pc => Listed next.waiters tid →
      queuedWindow pc = true).mpr
        ⟨window, fun tid _ listed => invariant.window tid (queues tid listed)⟩
  once := once

private theorem QueueInvariant.calm {old new : Pc} (executes : Executes kernel cpu thread old)
    (pc : next.pc = Function.update kernel.pc thread.pid new)
    (waiters : next.waiters = kernel.waiters) (ledger : Ledger next)
    (ownTid : ∀ call, insideWait new = some call → call.tid = thread.pid)
    (window : queuedWindow old = true → queuedWindow new = true)
    (live : ∀ tid, tid ≠ 0 → Listed kernel.waiters tid → LivePid kernel.sched tid →
      LivePid next.sched tid) :
    QueueInvariant next := by
  refine invariant.move pc ledger ownTid ?_ (fun _ listed => waiters ▸ listed)
    (waiters ▸ invariant.once) (fun tid notIdle listed => live tid notIdle (waiters ▸ listed))
  intro listed
  exact window (executes.pc ▸ invariant.window thread.pid (waiters ▸ listed))

private theorem QueueInvariant.still (pc : next.pc = kernel.pc)
    (waiters : next.waiters = kernel.waiters) (ledger : Ledger next)
    (live : ∀ tid, tid ≠ 0 → Listed kernel.waiters tid → LivePid kernel.sched tid →
      LivePid next.sched tid) :
    QueueInvariant next := by
  refine ⟨ledger, pc ▸ invariant.ownTid, waiters ▸ invariant.notIdle, ?_,
    fun tid listed => pc ▸ invariant.window tid (waiters ▸ listed), waiters ▸ invariant.once⟩
  intro tid listed
  rw [waiters] at listed
  refine live tid ?_ listed (invariant.live tid listed)
  rintro rfl
  exact invariant.notIdle listed

/-- A queued thread survives a `schedule` that keeps it. -/
private theorem QueueInvariant.live_schedule (keeps : KeepsQueued kernel cpu) (notIdle : tid ≠ 0)
    (listed : Listed kernel.waiters tid) : LivePid (kernel.sched.schedule cpu).sched tid := by
  have live := invariant.live tid listed
  refine live.schedule invariant.ledger.distinctPids notIdle ?_
  rintro gone discarded rfl
  obtain ⟨out, present⟩ := Option.isSome_iff_exists.mp (invariant.ledger.occupied cpu)
  obtain ⟨rfl, picks, state⟩ := discarded_schedule present discarded
  simp only [KeepsQueued, present, KeepsOutgoing] at keeps
  rw [account_pid] at notIdle listed live
  obtain ⟨place, thread, standing, samePid, alive⟩ := live
  have outStands : At kernel.sched (.current cpu) out := present
  obtain ⟨_, rfl⟩ := invariant.ledger.distinctPids.eq_of_at outStands standing samePid notIdle
  have kept := keeps listed
  tauto

end

private theorem livePid_setCurrentState {state : ThreadState}
    (keepsAlive : state ≠ .Dead ∨ ∀ thread, sched.current cpu = some thread → thread.pid ≠ tid)
    (live : LivePid sched tid) : LivePid (sched.setCurrentState cpu state) tid := by
  refine live.retagged (retagged_setCurrentState sched cpu state) ?_ ?_
  · intro place old new related
    split at related <;> rw [related]
  · intro place old new standing related samePid alive
    split at related
    case isTrue here =>
      subst here related
      rcases keepsAlive with notDead | other
      · exact notDead
      · exact absurd samePid (other old standing)
    case isFalse => rwa [related]

private theorem livePid_markThreadsDead {pids : List Pid} (spared : tid ∉ pids)
    (live : LivePid sched tid) : LivePid (sched.markThreadsDead pids) tid := by
  refine live.retagged (retagged_markThreadsDead sched pids) ?_ ?_
  · rintro place old new rfl
    exact markDead_pid pids old
  · rintro place old new _ rfl rfl alive
    simpa [markDead, spared] using alive

private theorem livePid_wakeTid {after : Scheduler cpus} (found : wakeTid sched tid = some after)
    (live : LivePid sched pid) : LivePid after pid := by
  refine live.retagged (retagged_wakeTid found) Woken.pid_eq ?_
  rintro place old new _ (rfl | ⟨_, _, rfl⟩) _ alive
  · exact alive
  · simp

private theorem livePid_wakeSleepers {pids : List Pid} (live : LivePid sched pid) :
    LivePid (wakeSleepers sched pids) pid := by
  refine live.retagged (retagged_wakeSleepers sched pids) WokenInQueue.pid_eq ?_
  rintro place old new _ (rfl | ⟨_, _, _, rfl⟩) _ alive
  · exact alive
  · simp

/-! ### The queue operations -/

private theorem listed_of_sublist {before after : FutexWaiters}
    (sublist : ∀ key, (queueAt after key).Sublist (queueAt before key))
    (listed : Listed after tid) : Listed before tid := by
  obtain ⟨key, member⟩ := listed_iff.mp listed
  exact listed_iff.mpr ⟨key, (sublist key).subset member⟩

private theorem popWaiters_sublist (waiters : FutexWaiters) (uaddr count key : Nat) :
    (queueAt (Ipc.popWaiters waiters uaddr count).2 key).Sublist (queueAt waiters key) := by
  rw [queueAt_popWaiters]
  split
  case isTrue same => exact same ▸ List.drop_sublist _ _
  case isFalse => exact List.Sublist.refl _

private theorem mem_requeueWaiters {waiters : FutexWaiters} {key tid : Nat}
    (member : tid ∈ queueAt (Ipc.requeueWaiters waiters uaddr uaddr2 nrWake nrRequeue).2 key) :
    (tid ∈ queueAt waiters key ∧
        (key = uaddr → tid ∈ ((queueAt waiters uaddr).drop nrWake).drop nrRequeue)) ∨
      key = uaddr2 ∧ tid ∈ ((queueAt waiters uaddr).drop nrWake).take nrRequeue := by
  rw [queueAt_requeueWaiters] at member
  rcases List.mem_append.mp member with left | moved
  · refine .inl ?_
    split at left
    case isTrue same =>
      subst same
      exact ⟨List.mem_of_mem_drop (List.mem_of_mem_drop left), fun _ => left⟩
    case isFalse different => exact ⟨left, fun same => absurd same different⟩
  · split at moved
    case isTrue same => exact .inr ⟨same, moved⟩
    case isFalse => cases moved

private theorem listed_requeueWaiters {waiters : FutexWaiters} {tid : Nat}
    (listed : Listed (Ipc.requeueWaiters waiters uaddr uaddr2 nrWake nrRequeue).2 tid) :
    Listed waiters tid := by
  obtain ⟨key, member⟩ := listed_iff.mp listed
  rcases mem_requeueWaiters member with ⟨stayed, _⟩ | ⟨_, moved⟩
  · exact listed_iff.mpr ⟨key, stayed⟩
  · exact listed_iff.mpr ⟨uaddr, List.mem_of_mem_drop (List.mem_of_mem_take moved)⟩

/-- FUTEX_REQUEUE keeps every tid stored once, also onto the same address. -/
private theorem storedOnce_requeueWaiters {waiters : FutexWaiters} (once : StoredOnce waiters)
    (uaddr uaddr2 nrWake nrRequeue : Nat) :
    StoredOnce (Ipc.requeueWaiters waiters uaddr uaddr2 nrWake nrRequeue).2 := by
  have sourceNodup : ((queueAt waiters uaddr).drop nrWake).Nodup :=
    (once.nodup uaddr).sublist (List.drop_sublist _ _)
  have disjoint {tid : Pid} (left : tid ∈ ((queueAt waiters uaddr).drop nrWake).drop nrRequeue)
      (moved : tid ∈ ((queueAt waiters uaddr).drop nrWake).take nrRequeue) : False := by
    rw [← List.take_append_drop nrRequeue ((queueAt waiters uaddr).drop nrWake)] at sourceNodup
    exact (List.nodup_append'.mp sourceNodup).2.2 moved left
  have inSource {tid : Pid} (moved : tid ∈ ((queueAt waiters uaddr).drop nrWake).take nrRequeue) :
      tid ∈ queueAt waiters uaddr := List.mem_of_mem_drop (List.mem_of_mem_take moved)
  constructor
  · intro key
    rw [queueAt_requeueWaiters, List.nodup_append']
    refine ⟨?_, ?_, ?_⟩
    · split
      · exact sourceNodup.sublist (List.drop_sublist _ _)
      · exact once.nodup key
    · split
      · exact sourceNodup.sublist (List.take_sublist _ _)
      · exact List.nodup_nil
    · intro tid left moved
      split at moved
      case isFalse => cases moved
      case isTrue =>
        split at left
        case isTrue => exact disjoint left moved
        case isFalse different => exact different (once.single left (inSource moved))
  · intro key other tid atKey atOther
    rcases mem_requeueWaiters atKey with ⟨first, firstLeft⟩ | ⟨rfl, firstMoved⟩ <;>
      rcases mem_requeueWaiters atOther with ⟨second, secondLeft⟩ | ⟨rfl, secondMoved⟩
    · exact once.single first second
    · exact (disjoint (firstLeft (once.single first (inSource secondMoved))) secondMoved).elim
    · exact (disjoint (secondLeft (once.single second (inSource firstMoved))) firstMoved).elim
    · rfl

section

variable (invariant : QueueInvariant kernel)

include invariant

private theorem insideWait_entryPc (executes : Executes kernel cpu thread .user)
    (recorded : cpu.val < MAX_CPUS) (args : FutexArgs) (view : FutexView) (call : FutexWait)
    (inside : insideWait (entryPc (doFutex args view (kernel.getCurrentPid cpu))) = some call) :
    call.tid = thread.pid := by
  have own := invariant.ledger.getCurrentPid_eq executes.present recorded
  rcases doFutex_cases args view (kernel.getCurrentPid cpu) with
      ⟨_, entry⟩ | ⟨waiting, entry, tid⟩ | entry | ⟨_, entry⟩ <;>
    simp only [entry, entryPc, insideWait, Option.some.injEq, reduceCtorEq] at inside
  subst inside
  exact tid.trans own

private theorem queueInvariant_enqueue {call : FutexWait}
    (executes : Executes kernel cpu thread (.enqueue call)) (alive : thread.state ≠ .Dead)
    (isNext : next = { kernel with waiters := push kernel.waiters call.uaddr call.tid }.setPc
      thread.pid (.mark (kernel.wakeAt call) (.futexWait call)))
    (ledger : Ledger next) : QueueInvariant next := by
  subst isNext
  have own : call.tid = thread.pid := invariant.ownTid _ _ (by rw [executes.pc]; rfl)
  have fresh : ¬ Listed kernel.waiters call.tid := own ▸ invariant.not_listed executes.pc rfl
  constructor
  · exact ledger
  · intro pid other inside
    by_cases same : pid = thread.pid
    · subst same
      obtain rfl : call = other := by simpa [setPc, insideWait] using inside
      exact own
    · exact invariant.ownTid pid other (by simpa [setPc, same] using inside)
  · intro listed
    rcases listed_push.mp listed with old | new
    · exact invariant.notIdle old
    · exact executes.notIdle (own.symm.trans new.symm)
  · intro tid listed
    rcases listed_push.mp listed with old | rfl
    · exact invariant.live tid old
    · exact ⟨.current cpu, thread, executes.present, own.symm, alive⟩
  · intro tid listed
    by_cases same : tid = thread.pid
    · subst same
      simp [setPc, queuedWindow]
    · have old : Listed kernel.waiters tid := by
        rcases listed_push.mp listed with old | new
        · exact old
        · exact absurd (new.trans own) same
      simpa [setPc, same] using invariant.window tid old
  · exact invariant.once.push fresh

private theorem queueInvariant_unqueue {call : FutexWait}
    (executes : Executes kernel cpu thread (.unqueue call))
    (onlyHere : OnlyQueuedAt kernel call.uaddr thread.pid)
    (isNext : next = { kernel with
      waiters := unqueueWaiter kernel.waiters call.uaddr call.tid }.setPc thread.pid
        (.takeToken call))
    (ledger : Ledger next) : QueueInvariant next := by
  subst isNext
  have own : call.tid = thread.pid := invariant.ownTid _ _ (by rw [executes.pc]; rfl)
  have sublist (key : Nat) :
    (queueAt (unqueueWaiter kernel.waiters call.uaddr call.tid) key).Sublist
      (queueAt kernel.waiters key) := by
    rw [queueAt_unqueueWaiter]
    split
    case isTrue same => exact same ▸ List.filter_sublist
    case isFalse => exact List.Sublist.refl _
  refine invariant.move rfl ledger ?_ ?_ (fun _ => listed_of_sublist sublist)
    (invariant.once.of_sublist sublist) (fun _ _ _ live => live)
  · rintro inside ⟨⟩
    exact own
  · -- the thread has left its own queue, and it was in no other
    intro listed
    obtain ⟨key, member⟩ := listed_iff.mp listed
    obtain ⟨queue, found, inQueue⟩ := mem_queueAt_iff.mp ((sublist key).subset member)
    obtain rfl : key = call.uaddr :=
      onlyHere (key, queue) (Std.ExtTreeMap.mem_toList_iff_getElem?_eq_some.mpr found) inQueue
    simp [setPc, queueAt_unqueueWaiter, own] at member

/-- A thread that is not queued takes waiters out of the queues. -/
private theorem queueInvariant_wakePicked {old : Pc} {waiters : FutexWaiters}
    {picked : List Pid} {woke : Nat} (executes : Executes kernel cpu thread old)
    (outside : queuedWindow old = false)
    (queues : ∀ tid, Listed waiters tid → Listed kernel.waiters tid) (once : StoredOnce waiters)
    (ledger : Ledger ({ kernel with waiters }.wakePicked thread.pid picked woke)) :
    QueueInvariant ({ kernel with waiters }.wakePicked thread.pid picked woke) := by
  refine invariant.move rfl ledger (by simp) ?_ queues once (fun _ _ _ live => live)
  intro listed
  exact absurd (queues _ listed) (invariant.not_listed executes.pc outside)

end

/-- Where a thread continues after `block_current_until` it is inside the same
wait, and still where a queued thread may be. -/
private theorem insideWait_resume (blocking : Blocking) :
    insideWait (Blocking.resume blocking) = insideWait (.yield blocking) ∧
      queuedWindow (Blocking.resume blocking) = queuedWindow (.yield blocking) := by
  cases blocking <;> exact ⟨rfl, rfl⟩

private theorem insideWait_blocking (wakeAt : Nat) (registered : Pid) (blocking : Blocking) :
    insideWait (.register registered wakeAt blocking) = insideWait (.mark wakeAt blocking) ∧
      insideWait (.yield blocking) = insideWait (.register registered wakeAt blocking) ∧
      queuedWindow (.register registered wakeAt blocking) = queuedWindow (.mark wakeAt blocking) ∧
      queuedWindow (.yield blocking) = queuedWindow (.register registered wakeAt blocking) := by
  cases blocking <;> exact ⟨rfl, rfl, rfl, rfl⟩

/-- Every step that leaves no stale tid behind keeps the invariant. -/
theorem queueInvariant_step {label : Label cpus} (invariant : QueueInvariant kernel)
    (safe : QueueSafe kernel label) (enabled : kernel.step label = some next) :
    QueueInvariant next := by
  have ledger := ledger_step invariant.ledger enabled
  have safeAt {cpu : Fin cpus} {word : Option Nat} {thread : Thread} {pc : Pc}
      (executes : Executes kernel cpu thread pc) (safe : QueueSafe kernel (.advance cpu word)) :
      QueueSafeAt kernel cpu thread pc := by
    simpa [QueueSafe, executes.present, executes.pc] using safe
  cases section_of_step enabled with
  | spawn thread target =>
    exact invariant.still rfl rfl ledger fun _ _ _ live => live.pushBack
  | sleepNothing => exact invariant
  | futex args view executes =>
    exact invariant.calm executes rfl rfl ledger
      (insideWait_entryPc invariant executes safe args view) (by simp [queuedWindow])
      fun _ _ _ live => live
  | sleepTicks _ executes | exit executes | exitGroup _ executes | takeToken _ _ _ executes
  | cancelWakeup _ _ _ executes =>
    exact invariant.calm executes rfl rfl ledger (by simp [insideWait]) (by simp [queuedWindow])
      fun _ _ _ live => live
  | wakeMissed _ _ _ executes | addToken _ _ _ executes =>
    exact invariant.calm executes rfl rfl ledger (by simp) (by simp [queuedWindow])
      fun _ _ _ live => live
  | enqueue call executes =>
    exact queueInvariant_enqueue invariant executes (safeAt executes safe) rfl ledger
  | mark wakeAt blocking executes =>
    obtain ⟨inside, _, window, _⟩ := insideWait_blocking wakeAt (kernel.getCurrentPid _) blocking
    refine invariant.calm executes rfl rfl ledger ?_ (fun old => window.trans old)
      fun _ _ _ => livePid_setCurrentState (.inl (by decide))
    intro call newInside
    exact invariant.ownTid _ _ (executes.pc ▸ inside ▸ newInside)
  | register registered wakeAt blocking executes =>
    obtain ⟨_, inside, _, window⟩ := insideWait_blocking wakeAt registered blocking
    refine invariant.calm executes rfl rfl ledger ?_ (fun old => window.trans old)
      fun _ _ _ live => live
    intro call newInside
    exact invariant.ownTid _ _ (executes.pc ▸ inside ▸ newInside)
  | yield blocking executes =>
    obtain ⟨inside, window⟩ := insideWait_resume blocking
    refine invariant.calm executes rfl rfl ledger ?_ (fun old => window.trans old)
      fun _ notIdle listed _ => invariant.live_schedule (safeAt executes safe) notIdle listed
    intro call newInside
    exact invariant.ownTid _ _ (executes.pc ▸ inside ▸ newInside)
  | unqueue call executes =>
    exact queueInvariant_unqueue invariant executes (safeAt executes safe) rfl ledger
  | popWaiters uaddr count executes =>
    have sublist := popWaiters_sublist kernel.waiters uaddr count
    exact queueInvariant_wakePicked invariant executes rfl (fun _ => listed_of_sublist sublist)
      (invariant.once.of_sublist sublist) ledger
  | requeueWaiters uaddr uaddr2 nrWake nrRequeue executes =>
    exact queueInvariant_wakePicked invariant executes rfl (fun _ => listed_requeueWaiters)
      (storedOnce_requeueWaiters invariant.once _ _ _ _) ledger
  | wakeFound tid rest woke sched executes found =>
    exact invariant.calm executes rfl rfl ledger (by simp [insideWait]) (by simp [queuedWindow])
      fun _ _ _ => livePid_wakeTid found
  | markCurrentDead executes =>
    refine invariant.calm executes rfl rfl ledger (by simp [insideWait]) (by simp [queuedWindow])
      fun tid _ listed => livePid_setCurrentState (.inr ?_)
    rintro thread present rfl
    obtain rfl := Option.some.inj (executes.present.symm.trans present)
    exact invariant.not_listed executes.pc rfl listed
  | markThreadsDead members executes =>
    have spared : NoneQueued kernel members := safeAt executes safe
    exact invariant.calm executes rfl rfl ledger (by simp [insideWait]) (by simp [queuedWindow])
      fun tid _ listed => livePid_markThreadsDead fun member => spared tid member listed
  | exitYield executes =>
    exact invariant.calm executes rfl rfl ledger (by simp [insideWait]) (by simp [queuedWindow])
      fun _ notIdle listed _ => invariant.live_schedule (safeAt executes safe) notIdle listed
  | preempt cpu =>
    exact invariant.still rfl rfl ledger
      fun _ notIdle listed _ => invariant.live_schedule safe notIdle listed
  | timerCount | timerPop => exact invariant.still rfl rfl ledger fun _ _ _ live => live
  | timerWake => exact invariant.still rfl rfl ledger fun _ _ _ => livePid_wakeSleepers
  | kill pids =>
    exact invariant.still rfl rfl ledger
      fun tid _ listed => livePid_markThreadsDead fun member => safe tid member listed

private theorem insideWait_of_schedulesOn {label : Label cpus}
    (schedules : kernel.schedulesOn label = some cpu) (enabled : kernel.step label = some next) :
    next.waiters = kernel.waiters ∧
      ∀ pid, insideWait (kernel.pc pid) = none → insideWait (next.pc pid) = none := by
  obtain ⟨code, rfl, rfl | ⟨thread, blocking, executes, rfl⟩ | ⟨thread, executes, rfl⟩⟩ :=
    scheduleOn_of_schedulesOn schedules enabled
  · exact ⟨rfl, fun _ outside => outside⟩
  · refine ⟨rfl, (Function.forall_update_iff _ fun pid pc => insideWait (kernel.pc pid) = none →
      insideWait pc = none).mpr ⟨fun outside => ?_, fun _ _ outside => outside⟩⟩
    rw [executes.pc] at outside
    exact (insideWait_resume blocking).1.trans outside
  · exact ⟨rfl, (Function.forall_update_iff _ fun pid pc => insideWait (kernel.pc pid) = none →
      insideWait pc = none).mpr ⟨fun _ => rfl, fun _ _ outside => outside⟩⟩

theorem queueInvariant_codeStep {label : Label cpus} (invariant : QueueInvariant kernel)
    (safe : QueueSafe kernel label ∧ CodeSafe kernel label)
    (enabled : kernel.codeStep label = some next) : QueueInvariant next := by
  obtain ⟨stepped, isStep, rfl⟩ := Option.map_eq_some_iff.mp enabled
  have kept := queueInvariant_step invariant safe.1 isStep
  have codeSafe := safe.2
  rw [CodeSafe] at codeSafe
  cases displaces : kernel.displacedBy label with
  | none => exact kept
  | some moved =>
    obtain ⟨cpu, schedules, -⟩ := Option.bind_eq_some_iff.mp displaces
    obtain ⟨sameQueues, staysOutside⟩ := insideWait_of_schedulesOn schedules isStep
    rw [displaces] at codeSafe
    have outside := staysOutside moved.1 codeSafe.1
    refine kept.move rfl ⟨kept.ledger.occupied, kept.ledger.currentPid, kept.ledger.nodup,
      kept.ledger.notIdle, kept.ledger.balance⟩ (fun call inside => ?_) (fun listed => ?_)
      (fun _ listed => listed) kept.once fun _ _ _ live => live
    · cases outside.symm.trans inside
    · have wasListed : Listed kernel.waiters moved.2 := sameQueues ▸ listed
      exact absurd wasListed codeSafe.2

private theorem isSome_insideWait_of_window {pc : Pc} (window : queuedWindow pc = true) :
    (insideWait pc).isSome := by
  cases pc with
  | mark _ blocking | register _ _ blocking | yield blocking =>
      cases blocking <;> simp_all [queuedWindow, insideWait]
  | _ => simp_all [queuedWindow, insideWait]

/-- In every run of futex calls, sleeps, ticks, scheduling and deaths whose steps
leave no stale tid behind, the futex queues are faithful in every state
reached. -/
theorem queuesFaithful_of_run {trace : List (Label cpus)} {final : Kernel cpus}
    (safe : LabelledRun.Guarded codeStep
      (fun kernel label => QueueSafe kernel label ∧ CodeSafe kernel label) (boot cpus) trace)
    (reached : LabelledRun.run codeStep (boot cpus) trace = some final) :
    QueuesFaithful final := by
  have invariant : QueueInvariant final :=
    LabelledRun.invariant_of_guarded QueueInvariant queueInvariant_codeStep
      (queueInvariant_boot cpus) safe reached
  exact ⟨invariant.live, fun tid listed => isSome_insideWait_of_window (invariant.window tid
    listed),
    invariant.once⟩

/-- Thread 1 waits on one futex word for one tick and thread 2 requeues it to
another; with `timesOut`, the tick comes and the wait returns. -/
def requeueThenTimeout (timesOut : Bool) : List (Label 2) :=
  let wait : FutexArgs := ⟨0x100, FUTEX_WAIT, 0, 0x200, 0, 0⟩
  let requeue : FutexArgs := ⟨0x100, FUTEX_REQUEUE, 0, 1, 0x300, 0⟩
  let view : FutexView := ⟨some 0, some (0, 10000000), 100⟩
  [.spawn (Thread.newKernel 1 0 0), .spawn (Thread.newKernel 2 0 0),
    .spawn (Thread.newKernel 3 0 0), .preempt 0, .preempt 1, .futex 0 wait view,
    .advance 0 none, .advance 0 none, .advance 0 none, .advance 0 none,
    .futex 1 requeue view, .advance 1 none] ++
    (if timesOut then
      [.timer 1, .timer 1, .timer 1, .preempt 0, .advance 0 none, .advance 0 (some 0)]
    else [])

/-- Thread 2 exits with thread 5 alone in its run queue. -/
def exitBeside : List (Label 2) :=
  [.spawn (Thread.newKernel 4 0 0), .spawn (Thread.newKernel 5 0 0), .exit 1, .advance 1 none,
    .advance 1 none]

/-- While the requeued waiter is still waiting, the queues are faithful, also after thread 2 has
exited and its code goes on for thread 5. -/
theorem queuesFaithful_requeue :
    ∃ final, LabelledRun.run codeStep (boot 2) (requeueThenTimeout false ++ exitBeside) =
        some final ∧
      final.pc 5 = .mark u64Max .exited ∧ queueAt final.waiters 0x300 = [1] ∧
      QueuesFaithful final := by
  have safe : LabelledRun.Guarded codeStep
      (fun kernel label => QueueSafe kernel label ∧ CodeSafe kernel label) (boot 2)
      (requeueThenTimeout false ++ exitBeside) := by
    decide +kernel
  obtain ⟨final, reached, code, queue⟩ :
      ∃ final, LabelledRun.run codeStep (boot 2) (requeueThenTimeout false ++ exitBeside) =
          some final ∧
        final.pc 5 = .mark u64Max .exited ∧ queueAt final.waiters 0x300 = [1] := by
    decide +kernel
  exact ⟨final, reached, code, queue, queuesFaithful_of_run safe reached⟩

/-- Once its timed wait has returned with ETIMEDOUT, the requeued thread 1 is
still queued on the second word. -/
theorem requeued_timeout_leaves_stale_tid :
    ∃ final, LabelledRun.run codeStep (boot 2) (requeueThenTimeout true) = some final ∧
      final.result 1 = some (.error .ETIMEDOUT) ∧ final.pc 1 = .user ∧
      queueAt final.waiters 0x300 = [1] ∧ ¬ QueuesFaithful final := by
  obtain ⟨final, reached, returned, atUser, queue⟩ :
      ∃ final, LabelledRun.run codeStep (boot 2) (requeueThenTimeout true) = some final ∧
        final.result 1 = some (.error .ETIMEDOUT) ∧ final.pc 1 = .user ∧
        queueAt final.waiters 0x300 = [1] := by
    decide +kernel
  refine ⟨final, reached, returned, atUser, queue, fun faithful => ?_⟩
  have inside := faithful.inside 1 (listed_iff.mpr ⟨0x300, by simp [queue]⟩)
  rw [atUser] at inside
  cases inside

end Cyllor.Sched.Kernel
