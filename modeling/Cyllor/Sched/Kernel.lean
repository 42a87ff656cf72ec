import Cyllor.Ipc.Futex
import Cyllor.Lib.LabelledRun
import Cyllor.Sched.Scheduler

/-!
Contract: the transition system of the scheduler, the sleep queue and the futex
tables (`sched/scheduler.rs`, `sched/wait.rs`, `sched/cpu.rs`, `ipc/futex.rs`,
`syscall/process.rs`).

Owns:
- `Kernel`, the shared tables together with the position of every thread in
  the code it executes and of every CPU in its timer interrupt;
- `step`, where each label is one lock-delimited section of one CPU;
- `boot`, the state after `scheduler::init`.

A thread executes its own sections in program order while it is in a current
slot; sections of different CPUs interleave freely, and `schedule` may run on
any CPU at any time (timer interrupt, reschedule interrupt). `spawned` and
`discarded` record history and are read by no section.

Does not own: register contents (`Cyllor.Sched.Switch`), user memory, which
enters as the words that the labels say were read, process bookkeeping, and code
that goes on after its thread was dropped (`Cyllor.Ipc.FutexQueues`).
-/

namespace Cyllor.Sched

open Cyllor.Ipc

variable {cpus : Nat}

/-- `cpu::MAX_CPUS`: CPUs beyond have no `CURRENT_PID` entry. -/
def MAX_CPUS : Nat := 8

inductive Blocking where
  | sleepTicks
  | futexWait (call : FutexWait)
  | exited
deriving DecidableEq, Repr

inductive Pc where
  | user
  | enqueue (call : FutexWait)
  | mark (wakeAt : Nat) (blocking : Blocking)
  | register (pid : Pid) (wakeAt : Nat) (blocking : Blocking)
  | yield (blocking : Blocking)
  | unqueue (call : FutexWait)
  | takeToken (call : FutexWait)
  | popWaiters (uaddr count : Nat)
  | requeueWaiters (uaddr uaddr2 nrWake nrRequeue : Nat)
  | cancelWakeup (tid : Pid) (rest : List Pid) (woke : Nat)
  | wakeTid (tid : Pid) (rest : List Pid) (woke : Nat)
  | addToken (tid : Pid) (rest : List Pid) (woke : Nat)
  | markCurrentDead
  | markThreadsDead (members : List Pid)
  | exitYield
deriving DecidableEq, Repr

inductive Timer where
  | idle
  | pop (now : Nat)
  | wake (pids : List Pid)
deriving DecidableEq, Repr

/-- Shared kernel state with the control positions of threads and timers. -/
structure Kernel (cpus : Nat) where
  sched : Scheduler cpus
  currentPid : Fin cpus → Pid
  tick : Nat
  sleepQueue : QueueMap Nat Pid
  timer : Fin cpus → Timer
  waiters : FutexWaiters
  tokens : FutexTokens
  pc : Pid → Pc
  result : Pid → Option SyscallResult
  spawned : List Pid
  discarded : List Thread

/-- One section. The `futex` label carries what the call reads of user memory,
the `advance` label the user word in case the section reads it. -/
inductive Label (cpus : Nat) where
  | spawn (thread : Thread)
  | sleepTicks (cpu : Fin cpus) (n : Nat)
  | futex (cpu : Fin cpus) (args : FutexArgs) (view : FutexView)
  | exit (cpu : Fin cpus)
  | exitGroup (cpu : Fin cpus) (members : List Pid)
  | advance (cpu : Fin cpus) (word : Option Nat)
  | preempt (cpu : Fin cpus)
  | timer (cpu : Fin cpus)
  | kill (pids : List Pid)
deriving DecidableEq

namespace Kernel

def boot (cpus : Nat) : Kernel cpus where
  sched := Scheduler.init cpus
  currentPid _ := 0
  tick := 0
  sleepQueue := ∅
  timer _ := .idle
  waiters := ∅
  tokens := ∅
  pc _ := .user
  result _ := none
  spawned := []
  discarded := []

def setCurrentPid (currentPid : Fin cpus → Pid) (cpu : Fin cpus) (pid : Pid) : Fin cpus → Pid :=
  if cpu.val < MAX_CPUS then Function.update currentPid cpu pid else currentPid

def getCurrentPid (kernel : Kernel cpus) (cpu : Fin cpus) : Pid :=
  if cpu.val < MAX_CPUS then kernel.currentPid cpu else 0

def setPc (kernel : Kernel cpus) (pid : Pid) (pc : Pc) : Kernel cpus :=
  { kernel with pc := Function.update kernel.pc pid pc }

def leave (kernel : Kernel cpus) (pid : Pid) (result : SyscallResult) : Kernel cpus :=
  { kernel.setPc pid .user with result := Function.update kernel.result pid (some result) }

/-- `schedule` on a CPU; a switch also updates `CURRENT_PID`. -/
def scheduleOn (kernel : Kernel cpus) (cpu : Fin cpus) : Kernel cpus :=
  let scheduled := kernel.sched.schedule cpu
  { kernel with
    sched := scheduled.sched
    discarded := scheduled.discarded.toList ++ kernel.discarded
    currentPid :=
      match scheduled.switch, scheduled.sched.current cpu with
      | some _, some next => setCurrentPid kernel.currentPid cpu next.pid
      | _, _ => kernel.currentPid }

def caller (kernel : Kernel cpus) (cpu : Fin cpus) : Option Thread :=
  (kernel.sched.current cpu).filter fun thread => thread.pid ≠ 0

/-- Start a system call of the thread a CPU executes. -/
def startCall (kernel : Kernel cpus) (cpu : Fin cpus) (start : Pid → Option (Kernel cpus)) :
    Option (Kernel cpus) :=
  match kernel.caller cpu with
  | none => none
  | some thread => if kernel.pc thread.pid = .user then start thread.pid else none

/-- `spawn_kernel_thread`, `spawn_user_process` and `do_clone`: a new Ready
thread goes to the least loaded CPU. `alloc_pid` hands out each id once, from 1. -/
def spawn (kernel : Kernel cpus) (thread : Thread) : Option (Kernel cpus) :=
  if thread.state = .Ready ∧ thread.pid ≠ 0 ∧ thread.pid ∉ kernel.spawned then
    kernel.sched.leastLoadedCpu.map fun target =>
      { kernel with
        sched := kernel.sched.pushBack target thread
        spawned := thread.pid :: kernel.spawned }
  else none

/-- `sleep_ticks` up to `block_current_until`; an overflowing deadline panics. -/
def sleepTicks (kernel : Kernel cpus) (n : Nat) (pid : Pid) : Option (Kernel cpus) :=
  if n = 0 then some kernel
  else if kernel.tick + n ≤ u64Max then some (kernel.setPc pid (.mark (kernel.tick + n)
    .sleepTicks))
  else none

/-- The position of a thread whose `do_futex` passed its checks, or returned. -/
def entryPc : FutexEntry → Pc
  | .finished _ => .user
  | .wait call => .enqueue call
  | .wake uaddr count => .popWaiters uaddr count
  | .requeue uaddr uaddr2 nrWake nrRequeue => .requeueWaiters uaddr uaddr2 nrWake nrRequeue

/-- `do_futex` up to its first shared section. -/
def startFutex (kernel : Kernel cpus) (cpu : Fin cpus) (args : FutexArgs) (view : FutexView)
    (pid : Pid) : Kernel cpus :=
  let entry := doFutex args view (kernel.getCurrentPid cpu)
  { kernel.setPc pid (entryPc entry) with
    result :=
      match entry with
      | .finished result => Function.update kernel.result pid (some result)
      | _ => kernel.result }

/-- Head of the loop over the picked waiters. -/
def pickedPc (woke : Nat) : List Pid → Pc
  | [] => .user
  | tid :: rest => .cancelWakeup tid rest woke

/-- Enter the loop over the picked waiters; after the last one the call returns. -/
def wakePicked (kernel : Kernel cpus) (pid : Pid) (picked : List Pid) (woke : Nat) : Kernel cpus :=
  { kernel.setPc pid (pickedPc woke picked) with
    result :=
      if picked = [] then Function.update kernel.result pid (some (.ok woke)) else kernel.result }

/-- Where a thread continues after `block_current_until`. -/
def Blocking.resume : Blocking → Pc
  | .sleepTicks => .user
  | .futexWait call => .unqueue call
  | .exited => .mark u64Max .exited

/-- Deadline of a FUTEX_WAIT. -/
def wakeAt (kernel : Kernel cpus) (call : FutexWait) : Nat :=
  if call.timeout ≠ 0 then saturatingAdd kernel.tick call.timeoutTicks else u64Max

/-- The next section of the thread that a CPU executes. -/
def advance (kernel : Kernel cpus) (cpu : Fin cpus) (word : Option Nat) (pid : Pid) :
    Option (Kernel cpus) :=
  match kernel.pc pid with
  | .user => none
  | .enqueue call => some
      ({ kernel with waiters := QueueMap.push kernel.waiters call.uaddr call.tid }.setPc pid
        (.mark (kernel.wakeAt call) (.futexWait call)))
  | .mark wakeAt blocking => some
      ({ kernel with sched := kernel.sched.markCurrentBlocked cpu }.setPc pid
        (.register (kernel.getCurrentPid cpu) wakeAt blocking))
  | .register registered wakeAt blocking => some
      ({ kernel with sleepQueue := QueueMap.push kernel.sleepQueue wakeAt registered }.setPc pid
        (.yield blocking))
  | .yield blocking => some ((kernel.scheduleOn cpu).setPc pid (Blocking.resume blocking))
  | .unqueue call => some
      ({ kernel with waiters := unqueueWaiter kernel.waiters call.uaddr call.tid }.setPc pid
        (.takeToken call))
  | .takeToken call =>
    let taken := Ipc.takeToken kernel.tokens call.tid
    some ({ kernel with tokens := taken.2 }.leave pid (waitResult call taken.1 word))
  | .popWaiters uaddr count =>
    let popped := Ipc.popWaiters kernel.waiters uaddr count
    some ({ kernel with waiters := popped.2 }.wakePicked pid popped.1 popped.1.length)
  | .requeueWaiters uaddr uaddr2 nrWake nrRequeue =>
    let popped := Ipc.requeueWaiters kernel.waiters uaddr uaddr2 nrWake nrRequeue
    some ({ kernel with waiters := popped.2 }.wakePicked pid popped.1 popped.1.length)
  | .cancelWakeup tid rest woke => some
      ({ kernel with sleepQueue := QueueMap.retainAll kernel.sleepQueue (· ≠ tid) }.setPc pid
        (.wakeTid tid rest woke))
  | .wakeTid tid rest woke =>
    match kernel.sched.wakeTid tid with
    | some sched => some ({ kernel with sched := sched }.setPc pid (.addToken tid rest woke))
    | none => some (kernel.wakePicked pid rest woke)
  | .addToken tid rest woke => some
      ({ kernel with tokens := Ipc.addToken kernel.tokens tid }.wakePicked pid rest woke)
  | .markCurrentDead => some
      ({ kernel with sched := kernel.sched.markCurrentDead cpu }.setPc pid .exitYield)
  | .markThreadsDead members => some
      ({ kernel with sched := kernel.sched.markThreadsDead members }.setPc pid .exitYield)
  | .exitYield => some ((kernel.scheduleOn cpu).setPc pid (.mark u64Max .exited))

def setTimer (kernel : Kernel cpus) (cpu : Fin cpus) (timer : Timer) : Kernel cpus :=
  { kernel with timer := Function.update kernel.timer cpu timer }

/-- The next section of `wait::tick` on a CPU; an overflowing count panics. -/
def timerTick (kernel : Kernel cpus) (cpu : Fin cpus) : Option (Kernel cpus) :=
  match kernel.timer cpu with
  | .idle =>
    if kernel.tick < u64Max then
      some ({ kernel with tick := kernel.tick + 1 }.setTimer cpu (.pop (kernel.tick + 1)))
    else none
  | .pop now =>
    let drained := QueueMap.drain (fun wakeAt => decide (wakeAt ≤ now)) kernel.sleepQueue
    some ({ kernel with sleepQueue := drained.2 }.setTimer cpu
      (if drained.1 = [] then .idle else .wake drained.1))
  | .wake pids => some
      ({ kernel with sched := kernel.sched.wakeSleepers pids }.setTimer cpu .idle)

/-- One section of the kernel; `none` when the label names no section that can
run, or one that panics. -/
def step (kernel : Kernel cpus) : Label cpus → Option (Kernel cpus)
  | .spawn thread => kernel.spawn thread
  | .sleepTicks cpu n => kernel.startCall cpu (kernel.sleepTicks n)
  | .futex cpu args view => kernel.startCall cpu fun pid =>
    some (kernel.startFutex cpu args view pid)
  | .exit cpu => kernel.startCall cpu fun pid => some (kernel.setPc pid .markCurrentDead)
  | .exitGroup cpu members => kernel.startCall cpu fun pid =>
    some (kernel.setPc pid (.markThreadsDead members))
  | .advance cpu word =>
    match kernel.caller cpu with
    | none => none
    | some thread => kernel.advance cpu word thread.pid
  | .preempt cpu => some (kernel.scheduleOn cpu)
  | .timer cpu => kernel.timerTick cpu
  | .kill pids => some { kernel with sched := kernel.sched.markThreadsDead pids }

abbrev run (kernel : Kernel cpus) (trace : List (Label cpus)) : Option (Kernel cpus) :=
  LabelledRun.run step kernel trace

end Kernel

end Cyllor.Sched
