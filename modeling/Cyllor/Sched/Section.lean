import Cyllor.Sched.Kernel
import Cyllor.Sched.Retag

/-!
Contract: the case analysis of `Kernel.step`.

Owns:
- `Section`, one constructor for each kind of section with the state it starts
  from and the state it leaves;
- `section_of_step`, that every enabled step is one of them;
- the effect of a step on the scheduler table alone, which is all that
  conservation arguments need.
-/

namespace Cyllor.Sched.Kernel

open Cyllor.Ipc

variable {cpus : Nat} {kernel next : Kernel cpus} {cpu : Fin cpus}

/-- `thread` executes on `cpu` and is about to run the section `pc`. -/
structure Executes (kernel : Kernel cpus) (cpu : Fin cpus) (thread : Thread) (pc : Pc) : Prop where
  present : kernel.sched.current cpu = some thread
  notIdle : thread.pid ≠ 0
  pc : kernel.pc thread.pid = pc

/-- The sections of the kernel, with their effect. -/
inductive Section (kernel : Kernel cpus) : Label cpus → Kernel cpus → Prop where
  | spawn (thread : Thread) (target : Fin cpus) (ready : thread.state = .Ready)
      (notIdle : thread.pid ≠ 0) (fresh : thread.pid ∉ kernel.spawned) :
      Section kernel (.spawn thread)
        { kernel with
          sched := kernel.sched.pushBack target thread
          spawned := thread.pid :: kernel.spawned }
  | sleepNothing (cpu : Fin cpus) : Section kernel (.sleepTicks cpu 0) kernel
  | sleepTicks {cpu : Fin cpus} {thread : Thread} (n : Nat)
      (executes : Executes kernel cpu thread .user) (positive : n ≠ 0)
      (inRange : kernel.tick + n ≤ u64Max) :
      Section kernel (.sleepTicks cpu n)
        (kernel.setPc thread.pid (.mark (kernel.tick + n) .sleepTicks))
  | futex {cpu : Fin cpus} {thread : Thread} (args : FutexArgs) (view : FutexView)
      (executes : Executes kernel cpu thread .user) :
      Section kernel (.futex cpu args view) (kernel.startFutex cpu args view thread.pid)
  | exit {cpu : Fin cpus} {thread : Thread} (executes : Executes kernel cpu thread .user) :
      Section kernel (.exit cpu) (kernel.setPc thread.pid .markCurrentDead)
  | exitGroup {cpu : Fin cpus} {thread : Thread} (members : List Pid)
      (executes : Executes kernel cpu thread .user) :
      Section kernel (.exitGroup cpu members) (kernel.setPc thread.pid (.markThreadsDead members))
  | enqueue {cpu : Fin cpus} {thread : Thread} {word : Option Nat} (call : FutexWait)
      (executes : Executes kernel cpu thread (.enqueue call)) :
      Section kernel (.advance cpu word)
        ({ kernel with waiters := QueueMap.push kernel.waiters call.uaddr call.tid }.setPc
          thread.pid (.mark (kernel.wakeAt call) (.futexWait call)))
  | mark {cpu : Fin cpus} {thread : Thread} {word : Option Nat} (wakeAt : Nat)
      (blocking : Blocking) (executes : Executes kernel cpu thread (.mark wakeAt blocking)) :
      Section kernel (.advance cpu word)
        ({ kernel with sched := kernel.sched.markCurrentBlocked cpu }.setPc thread.pid
          (.register (kernel.getCurrentPid cpu) wakeAt blocking))
  | register {cpu : Fin cpus} {thread : Thread} {word : Option Nat} (registered : Pid)
      (wakeAt : Nat) (blocking : Blocking)
      (executes : Executes kernel cpu thread (.register registered wakeAt blocking)) :
      Section kernel (.advance cpu word)
        ({ kernel with sleepQueue := QueueMap.push kernel.sleepQueue wakeAt registered }.setPc
          thread.pid (.yield blocking))
  | yield {cpu : Fin cpus} {thread : Thread} {word : Option Nat} (blocking : Blocking)
      (executes : Executes kernel cpu thread (.yield blocking)) :
      Section kernel (.advance cpu word)
        ((kernel.scheduleOn cpu).setPc thread.pid (Blocking.resume blocking))
  | unqueue {cpu : Fin cpus} {thread : Thread} {word : Option Nat} (call : FutexWait)
      (executes : Executes kernel cpu thread (.unqueue call)) :
      Section kernel (.advance cpu word)
        ({ kernel with waiters := unqueueWaiter kernel.waiters call.uaddr call.tid }.setPc
          thread.pid (.takeToken call))
  | takeToken {cpu : Fin cpus} {thread : Thread} {word : Option Nat} (call : FutexWait)
      (tokens : FutexTokens) (result : SyscallResult)
      (executes : Executes kernel cpu thread (.takeToken call)) :
      Section kernel (.advance cpu word)
        ({ kernel with tokens := tokens }.leave thread.pid result)
  | popWaiters {cpu : Fin cpus} {thread : Thread} {word : Option Nat} (uaddr count : Nat)
      (executes : Executes kernel cpu thread (.popWaiters uaddr count)) :
      Section kernel (.advance cpu word)
        ({ kernel with waiters := (Ipc.popWaiters kernel.waiters uaddr count).2 }.wakePicked
          thread.pid (Ipc.popWaiters kernel.waiters uaddr count).1
          (Ipc.popWaiters kernel.waiters uaddr count).1.length)
  | requeueWaiters {cpu : Fin cpus} {thread : Thread} {word : Option Nat}
      (uaddr uaddr2 nrWake nrRequeue : Nat)
      (executes : Executes kernel cpu thread (.requeueWaiters uaddr uaddr2 nrWake nrRequeue)) :
      Section kernel (.advance cpu word)
        ({ kernel with
            waiters := (Ipc.requeueWaiters kernel.waiters uaddr uaddr2 nrWake nrRequeue).2
          }.wakePicked thread.pid
          (Ipc.requeueWaiters kernel.waiters uaddr uaddr2 nrWake nrRequeue).1
          (Ipc.requeueWaiters kernel.waiters uaddr uaddr2 nrWake nrRequeue).1.length)
  | cancelWakeup {cpu : Fin cpus} {thread : Thread} {word : Option Nat} (tid : Pid)
      (rest : List Pid) (woke : Nat)
      (executes : Executes kernel cpu thread (.cancelWakeup tid rest woke)) :
      Section kernel (.advance cpu word)
        ({ kernel with sleepQueue := QueueMap.retainAll kernel.sleepQueue (· ≠ tid) }.setPc
          thread.pid (.wakeTid tid rest woke))
  | wakeFound {cpu : Fin cpus} {thread : Thread} {word : Option Nat} (tid : Pid)
      (rest : List Pid) (woke : Nat) (sched : Scheduler cpus)
      (executes : Executes kernel cpu thread (.wakeTid tid rest woke))
      (found : kernel.sched.wakeTid tid = some sched) :
      Section kernel (.advance cpu word)
        ({ kernel with sched := sched }.setPc thread.pid (.addToken tid rest woke))
  | wakeMissed {cpu : Fin cpus} {thread : Thread} {word : Option Nat} (tid : Pid)
      (rest : List Pid) (woke : Nat)
      (executes : Executes kernel cpu thread (.wakeTid tid rest woke))
      (missing : kernel.sched.wakeTid tid = none) :
      Section kernel (.advance cpu word) (kernel.wakePicked thread.pid rest woke)
  | addToken {cpu : Fin cpus} {thread : Thread} {word : Option Nat} (tid : Pid)
      (rest : List Pid) (woke : Nat)
      (executes : Executes kernel cpu thread (.addToken tid rest woke)) :
      Section kernel (.advance cpu word)
        ({ kernel with tokens := Ipc.addToken kernel.tokens tid }.wakePicked thread.pid rest woke)
  | markCurrentDead {cpu : Fin cpus} {thread : Thread} {word : Option Nat}
      (executes : Executes kernel cpu thread .markCurrentDead) :
      Section kernel (.advance cpu word)
        ({ kernel with sched := kernel.sched.markCurrentDead cpu }.setPc thread.pid .exitYield)
  | markThreadsDead {cpu : Fin cpus} {thread : Thread} {word : Option Nat} (members : List Pid)
      (executes : Executes kernel cpu thread (.markThreadsDead members)) :
      Section kernel (.advance cpu word)
        ({ kernel with sched := kernel.sched.markThreadsDead members }.setPc thread.pid .exitYield)
  | exitYield {cpu : Fin cpus} {thread : Thread} {word : Option Nat}
      (executes : Executes kernel cpu thread .exitYield) :
      Section kernel (.advance cpu word)
        ((kernel.scheduleOn cpu).setPc thread.pid (.mark u64Max .exited))
  | preempt (cpu : Fin cpus) : Section kernel (.preempt cpu) (kernel.scheduleOn cpu)
  | timerCount {cpu : Fin cpus} (idle : kernel.timer cpu = .idle) (inRange : kernel.tick < u64Max) :
      Section kernel (.timer cpu)
        ({ kernel with tick := kernel.tick + 1 }.setTimer cpu (.pop (kernel.tick + 1)))
  | timerPop {cpu : Fin cpus} (now : Nat) (popping : kernel.timer cpu = .pop now) :
      Section kernel (.timer cpu)
        ({ kernel with
            sleepQueue := (QueueMap.drain (fun wakeAt => decide (wakeAt ≤ now))
              kernel.sleepQueue).2 }.setTimer cpu
          (if (QueueMap.drain (fun wakeAt => decide (wakeAt ≤ now)) kernel.sleepQueue).1 = []
            then .idle
            else .wake (QueueMap.drain (fun wakeAt => decide (wakeAt ≤ now)) kernel.sleepQueue).1))
  | timerWake {cpu : Fin cpus} (pids : List Pid) (waking : kernel.timer cpu = .wake pids) :
      Section kernel (.timer cpu)
        ({ kernel with sched := kernel.sched.wakeSleepers pids }.setTimer cpu .idle)
  | kill (pids : List Pid) :
      Section kernel (.kill pids)
        { kernel with sched := kernel.sched.markThreadsDead pids }

theorem caller_eq_some {thread : Thread} (calling : kernel.caller cpu = some thread) :
    kernel.sched.current cpu = some thread ∧ thread.pid ≠ 0 := by
  obtain ⟨present, notIdle⟩ := Option.filter_eq_some_iff.mp calling
  exact ⟨present, by simpa using notIdle⟩

private theorem startCall_eq_some {start : Pid → Option (Kernel cpus)}
    (started : kernel.startCall cpu start = some next) :
    ∃ thread, Executes kernel cpu thread .user ∧ start thread.pid = some next := by
  unfold startCall at started
  cases calling : kernel.caller cpu with
  | none => simp [calling] at started
  | some thread =>
    obtain ⟨present, notIdle⟩ := caller_eq_some calling
    simp only [calling] at started
    split at started
    case isTrue atUser => exact ⟨thread, ⟨present, notIdle, atUser⟩, started⟩
    case isFalse => cases started

private theorem section_of_advance {word : Option Nat} {thread : Thread}
    (present : kernel.sched.current cpu = some thread) (notIdle : thread.pid ≠ 0)
    (enabled : kernel.advance cpu word thread.pid = some next) :
    Section kernel (.advance cpu word) next := by
  have executes {pc : Pc} (pcEq : kernel.pc thread.pid = pc) : Executes kernel cpu thread pc :=
    ⟨present, notIdle, pcEq⟩
  unfold advance at enabled
  split at enabled
  case h_1 => cases enabled
  case h_2 call pcEq => exact Option.some.inj enabled ▸ .enqueue call (executes pcEq)
  case h_3 wakeAt blocking pcEq =>
      exact Option.some.inj enabled ▸ .mark wakeAt blocking (executes pcEq)
  case h_4 registered wakeAt blocking pcEq =>
      exact Option.some.inj enabled ▸ .register registered wakeAt blocking (executes pcEq)
  case h_5 blocking pcEq => exact Option.some.inj enabled ▸ .yield blocking (executes pcEq)
  case h_6 call pcEq => exact Option.some.inj enabled ▸ .unqueue call (executes pcEq)
  case h_7 call pcEq => exact Option.some.inj enabled ▸ .takeToken call _ _ (executes pcEq)
  case h_8 uaddr count pcEq =>
      exact Option.some.inj enabled ▸ .popWaiters uaddr count (executes pcEq)
  case h_9 uaddr uaddr2 nrWake nrRequeue pcEq =>
      exact Option.some.inj enabled ▸ .requeueWaiters uaddr uaddr2 nrWake nrRequeue (executes pcEq)
  case h_10 tid rest woke pcEq =>
      exact Option.some.inj enabled ▸ .cancelWakeup tid rest woke (executes pcEq)
  case h_11 tid rest woke pcEq =>
      split at enabled
      case h_1 sched found =>
        exact Option.some.inj enabled ▸ .wakeFound tid rest woke sched (executes pcEq) found
      case h_2 missing =>
        exact Option.some.inj enabled ▸ .wakeMissed tid rest woke (executes pcEq) missing
  case h_12 tid rest woke pcEq =>
      exact Option.some.inj enabled ▸ .addToken tid rest woke (executes pcEq)
  case h_13 pcEq => exact Option.some.inj enabled ▸ .markCurrentDead (executes pcEq)
  case h_14 members pcEq =>
      exact Option.some.inj enabled ▸ .markThreadsDead members (executes pcEq)
  case h_15 pcEq => exact Option.some.inj enabled ▸ .exitYield (executes pcEq)

private theorem section_of_timerTick (enabled : kernel.timerTick cpu = some next) :
    Section kernel (.timer cpu) next := by
  unfold timerTick at enabled
  split at enabled
  case h_1 idle =>
      split at enabled
      case isTrue inRange => exact Option.some.inj enabled ▸ .timerCount idle inRange
      case isFalse => cases enabled
  case h_2 now popping => exact Option.some.inj enabled ▸ .timerPop now popping
  case h_3 pids waking => exact Option.some.inj enabled ▸ .timerWake pids waking

theorem section_of_step {label : Label cpus} (enabled : kernel.step label = some next) :
    Section kernel label next := by
  cases label with
  | spawn thread =>
    simp only [step, spawn] at enabled
    split at enabled
    case isTrue accepted =>
      obtain ⟨target, _, rfl⟩ := Option.map_eq_some_iff.mp enabled
      exact .spawn thread target accepted.1 accepted.2.1 accepted.2.2
    case isFalse => cases enabled
  | sleepTicks cpu n =>
    simp only [step] at enabled
    obtain ⟨thread, executes, started⟩ := startCall_eq_some enabled
    unfold sleepTicks at started
    split at started
    case isTrue zero =>
      subst zero
      exact Option.some.inj started ▸ .sleepNothing cpu
    case isFalse positive =>
      split at started
      case isTrue inRange =>
        exact Option.some.inj started ▸ .sleepTicks n executes positive inRange
      case isFalse => cases started
  | futex cpu args view =>
    simp only [step] at enabled
    obtain ⟨thread, executes, started⟩ := startCall_eq_some enabled
    exact Option.some.inj started ▸ .futex args view executes
  | exit cpu =>
    simp only [step] at enabled
    obtain ⟨thread, executes, started⟩ := startCall_eq_some enabled
    exact Option.some.inj started ▸ .exit executes
  | exitGroup cpu members =>
    simp only [step] at enabled
    obtain ⟨thread, executes, started⟩ := startCall_eq_some enabled
    exact Option.some.inj started ▸ .exitGroup members executes
  | advance cpu word =>
    simp only [step] at enabled
    cases calling : kernel.caller cpu with
    | none => simp [calling] at enabled
    | some thread =>
      obtain ⟨present, notIdle⟩ := caller_eq_some calling
      simp only [calling] at enabled
      exact section_of_advance present notIdle enabled
  | preempt cpu => exact Option.some.inj enabled ▸ .preempt cpu
  | timer cpu => exact section_of_timerTick enabled
  | kill pids => exact Option.some.inj enabled ▸ .kill pids

/-! ### Effect on the scheduler table -/

/-- The section is a call of `schedule`. -/
def schedulesAt : Pc → Bool
  | .yield _ => true
  | .exitYield => true
  | _ => false

/-- The CPU whose `schedule` a label runs. -/
def schedulesOn (kernel : Kernel cpus) : Label cpus → Option (Fin cpus)
  | .preempt cpu => some cpu
  | .advance cpu _ =>
    match kernel.caller cpu with
    | none => none
    | some thread => if schedulesAt (kernel.pc thread.pid) then some cpu else none
  | _ => none

/-- What a step does to the table: nothing, add a fresh thread, change states in
place, or schedule. -/
inductive TableEffect (kernel : Kernel cpus) (label : Label cpus) (next : Kernel cpus) : Prop where
  | unchanged (sched : next.sched = kernel.sched)
      (currentPid : next.currentPid = kernel.currentPid) (spawned : next.spawned = kernel.spawned)
      (discarded : next.discarded = kernel.discarded)
  | spawned (thread : Thread) (target : Fin cpus) (notIdle : thread.pid ≠ 0)
      (fresh : thread.pid ∉ kernel.spawned)
      (sched : next.sched = kernel.sched.pushBack target thread)
      (currentPid : next.currentPid = kernel.currentPid)
      (spawned : next.spawned = thread.pid :: kernel.spawned)
      (discarded : next.discarded = kernel.discarded)
  | retagged (relation : Scheduler.Place cpus → Thread → Thread → Prop)
      (keepsPid : ∀ {place old new}, relation place old new → new.pid = old.pid)
      (sched : Scheduler.Retagged relation kernel.sched next.sched)
      (currentPid : next.currentPid = kernel.currentPid)
      (spawned : next.spawned = kernel.spawned) (discarded : next.discarded = kernel.discarded)
  | scheduled (cpu : Fin cpus) (schedules : kernel.schedulesOn label = some cpu)
      (sched : next.sched = (kernel.sched.schedule cpu).sched)
      (currentPid : next.currentPid = (kernel.scheduleOn cpu).currentPid)
      (spawned : next.spawned = kernel.spawned)
      (discarded : next.discarded = (kernel.sched.schedule cpu).discarded.toList ++
        kernel.discarded)

private theorem schedulesOn_advance {thread : Thread} {pc : Pc}
    (executes : Executes kernel cpu thread pc) (word : Option Nat) :
    kernel.schedulesOn (.advance cpu word) =
      if schedulesAt pc then some cpu else none := by
  have calling : kernel.caller cpu = some thread := by
    simp [caller, executes.present, executes.notIdle]
  simp only [schedulesOn, calling, executes.pc]

private theorem keepsPid_setCurrentState {state : ThreadState} {place : Scheduler.Place cpus}
    {old new : Thread}
    (related : if place = .current cpu then new = { old with state := state } else new = old) :
    new.pid = old.pid := by
  split at related <;> rw [related]

private theorem keepsPid_markDead {pids : List Pid} {old new : Thread}
    (related : new = Scheduler.markDead pids old) : new.pid = old.pid := by
  rw [related, Scheduler.markDead_pid]

theorem tableEffect_of_step {label : Label cpus} (enabled : kernel.step label = some next) :
    TableEffect kernel label next := by
  cases section_of_step enabled with
  | spawn thread target _ notIdle fresh =>
    exact .spawned thread target notIdle fresh rfl rfl rfl rfl
  | mark | markCurrentDead =>
    exact .retagged _ keepsPid_setCurrentState (Scheduler.retagged_setCurrentState _ _ _) rfl rfl
      rfl
  | markThreadsDead | kill =>
    exact .retagged _ keepsPid_markDead (Scheduler.retagged_markThreadsDead _ _) rfl rfl rfl
  | wakeFound _ _ _ _ _ found =>
    exact .retagged _ Scheduler.Woken.pid_eq (Scheduler.retagged_wakeTid found) rfl rfl rfl
  | timerWake =>
    exact .retagged _ Scheduler.WokenInQueue.pid_eq (Scheduler.retagged_wakeSleepers _ _) rfl rfl
      rfl
  | yield _ executes | exitYield executes =>
    exact .scheduled _ (schedulesOn_advance executes _) rfl rfl rfl rfl
  | preempt cpu => exact .scheduled cpu rfl rfl rfl rfl rfl
  | _ => exact .unchanged rfl rfl rfl rfl

/-- A step that runs `schedule` is `schedule` and moves the thread that called it, if one did. -/
theorem scheduleOn_of_schedulesOn {label : Label cpus}
    (schedules : kernel.schedulesOn label = some cpu) (enabled : kernel.step label = some next) :
    ∃ code, next = { kernel.scheduleOn cpu with pc := code } ∧
      (code = kernel.pc ∨
        (∃ thread blocking, Executes kernel cpu thread (.yield blocking) ∧
          code = Function.update kernel.pc thread.pid (Blocking.resume blocking)) ∨
        ∃ thread, Executes kernel cpu thread .exitYield ∧
          code = Function.update kernel.pc thread.pid (.mark u64Max .exited)) := by
  cases section_of_step enabled with
  | preempt other =>
    obtain rfl := Option.some.inj schedules
    exact ⟨_, rfl, .inl rfl⟩
  | yield _ executes =>
    rw [schedulesOn_advance executes] at schedules
    obtain rfl := Option.some.inj schedules
    exact ⟨_, rfl, .inr (.inl ⟨_, _, executes, rfl⟩)⟩
  | exitYield executes =>
    rw [schedulesOn_advance executes] at schedules
    obtain rfl := Option.some.inj schedules
    exact ⟨_, rfl, .inr (.inr ⟨_, executes, rfl⟩)⟩
  | enqueue _ executes | mark _ _ executes | register _ _ _ executes | unqueue _ executes
  | takeToken _ _ _ executes | popWaiters _ _ executes | requeueWaiters _ _ _ _ executes
  | cancelWakeup _ _ _ executes | wakeFound _ _ _ _ executes | wakeMissed _ _ _ executes
  | addToken _ _ _ executes | markCurrentDead executes | markThreadsDead _ executes =>
    rw [schedulesOn_advance executes] at schedules
    cases schedules
  | _ => cases schedules

end Cyllor.Sched.Kernel
