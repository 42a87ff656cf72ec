import Cyllor.Sched.Thread

/-!
Contract: the scheduler table and the critical sections that change it
(`sched/scheduler.rs`, the waking halves of `sched/wait.rs` and
`ipc/futex.rs`).

Owns:
- `Scheduler`, one run queue and one current slot for each CPU;
- `schedule`, with its local pick, work stealing, requeueing and the save
  target it hands to the context switch;
- the state-marking sections: blocking, killing and waking threads.

Every definition here is one section under the `SCHEDULER` lock. Which section
runs when is decided in `Cyllor.Sched.Kernel`.
-/

namespace Cyllor.Sched

variable {cpus : Nat}

structure Scheduler (cpus : Nat) where
  runQueues : Fin cpus → List Thread
  current : Fin cpus → Option Thread
  initialized : Bool

namespace Scheduler

/-- `scheduler::init`: empty queues and one idle thread for each CPU. -/
def init (cpus : Nat) : Scheduler cpus where
  runQueues _ := []
  current _ := some Thread.newIdle
  initialized := true

def setQueue (sched : Scheduler cpus) (cpu : Fin cpus) (queue : List Thread) : Scheduler cpus :=
  { sched with runQueues := Function.update sched.runQueues cpu queue }

def setCurrent (sched : Scheduler cpus) (cpu : Fin cpus) (thread : Thread) : Scheduler cpus :=
  { sched with current := Function.update sched.current cpu (some thread) }

def pushBack (sched : Scheduler cpus) (cpu : Fin cpus) (thread : Thread) : Scheduler cpus :=
  sched.setQueue cpu (sched.runQueues cpu ++ [thread])

/-! ### Choosing a CPU and a thread -/

def readyCount (queue : List Thread) : Nat :=
  (queue.filter fun thread => thread.state = .Ready).length

/-- `least_loaded_cpu`: `min_by_key` keeps the first of several minima. -/
def leastLoadedCpu (sched : Scheduler cpus) : Option (Fin cpus) :=
  (List.finRange cpus).argmin fun cpu => readyCount (sched.runQueues cpu)

def removeAt (queue : List Thread) (index : Nat) : Option (Thread × List Thread) :=
  queue[index]?.map fun thread => (thread, queue.eraseIdx index)

/-- Position of the Ready thread of least `vruntime`, the first of several. -/
def minReadyIdx (queue : List Thread) : Option Nat :=
  ((queue.zipIdx.filter fun entry => entry.1.state = .Ready).argmin
    fun entry => entry.1.vruntime).map Prod.snd

/-- Position of the Ready thread nearest the back. -/
def lastReadyIdx (queue : List Thread) : Option Nat :=
  (queue.zipIdx.reverse.find? fun entry => entry.1.state = .Ready).map Prod.snd

/-- The other CPU with most Ready threads: `max_by_key` keeps the last of
several maxima, hence the reversal. -/
def victim (sched : Scheduler cpus) (cpu : Fin cpus) : Option (Fin cpus) :=
  ((List.finRange cpus).filter (· ≠ cpu)).reverse.argmax
    fun other => readyCount (sched.runQueues other)

def pickLocal (sched : Scheduler cpus) (cpu : Fin cpus) : Option (Thread × Scheduler cpus) :=
  ((minReadyIdx (sched.runQueues cpu)).bind (removeAt (sched.runQueues cpu))).map
    fun picked => (picked.1, sched.setQueue cpu picked.2)

/-- Steal from the busiest other CPU when it has more than one Ready thread. -/
def steal (sched : Scheduler cpus) (cpu : Fin cpus) : Option (Thread × Scheduler cpus) :=
  (victim sched cpu).bind fun other =>
    if readyCount (sched.runQueues other) > 1 then
      ((lastReadyIdx (sched.runQueues other)).bind (removeAt (sched.runQueues other))).map
        fun picked => (picked.1, sched.setQueue other picked.2)
    else none

/-- The thread `schedule` switches to, with the table it was removed from. -/
def pickNext (sched : Scheduler cpus) (cpu : Fin cpus) : Option (Thread × Scheduler cpus) :=
  (pickLocal sched cpu).or (steal sched cpu)

/-! ### Scheduling -/

/-- Time-slice accounting of the running thread. -/
def account (thread : Thread) : Thread :=
  if thread.pid ≠ 0 then { thread with vruntime := saturatingAdd thread.vruntime 1 } else thread

def accountCurrent (sched : Scheduler cpus) (cpu : Fin cpus) : Scheduler cpus :=
  { sched with current := Function.update sched.current cpu ((sched.current cpu).map account) }

/-- `next` as it becomes current: prepared on its first run, then Running. -/
def dispatch (next : Thread) : Thread :=
  if next.isUser ∧ next.firstRun then
    { next with
      context := next.context.prepareFirstRun
      firstRun := false
      state := .Running }
  else { next with state := .Running }

/-- What goes back on the run queue for an outgoing thread: Running becomes
Ready, Blocked stays Blocked, every other state is not requeued. -/
def requeued (out : Thread) : List Thread :=
  if out.state = .Running then [{ out with state := .Ready }]
  else if out.state = .Blocked then [out]
  else []

/-- `switch_info`: where the outgoing registers are saved (a position in this
CPU's run queue, `none` for a null pointer), whether the idle thread was
replaced, and the user page table to activate. -/
structure Switch where
  saveTo : Option Nat
  idleToNew : Bool
  pageTable : Option Nat
deriving DecidableEq, Repr

/-- Result of the locked part of `schedule`. `discarded` is the thread value
that goes out of scope there. -/
structure Scheduled (cpus : Nat) where
  sched : Scheduler cpus
  switch : Option Switch
  discarded : Option Thread

def backIdx (queue : List Thread) : Option Nat :=
  if queue = [] then none else some (queue.length - 1)

/-- The bookkeeping once a next thread has been taken out of its queue. -/
def switchTo (sched : Scheduler cpus) (cpu : Fin cpus) (next : Thread) : Scheduled cpus :=
  match sched.current cpu with
  | none => ⟨sched, none, some next⟩
  | some out =>
    let next := dispatch next
    let pageTable := if next.isUser then some next.context.pageTableRoot else none
    if out.pid = 0 then
      ⟨sched.setCurrent cpu next, some ⟨none, true, pageTable⟩, some out⟩
    else
      let queue := sched.runQueues cpu ++ requeued out
      ⟨(sched.setQueue cpu queue).setCurrent cpu next,
        some ⟨backIdx queue, false, pageTable⟩,
        if requeued out = [] then some out else none⟩

/-- The part of `schedule` under the `SCHEDULER` lock. -/
def schedule (sched : Scheduler cpus) (cpu : Fin cpus) : Scheduled cpus :=
  if sched.initialized then
    let sched := accountCurrent sched cpu
    match pickNext sched cpu with
    | none => ⟨sched, none, none⟩
    | some (next, sched) => switchTo sched cpu next
  else ⟨sched, none, none⟩

/-! ### Marking and waking threads -/

/-- Change the state of a CPU's current thread, if it has one. -/
def setCurrentState (sched : Scheduler cpus) (cpu : Fin cpus) (state : ThreadState) :
    Scheduler cpus :=
  { sched with
    current := Function.update sched.current cpu
      ((sched.current cpu).map fun thread => { thread with state := state }) }

/-- First section of `block_current_until`. -/
def markCurrentBlocked (sched : Scheduler cpus) (cpu : Fin cpus) : Scheduler cpus :=
  sched.setCurrentState cpu .Blocked

def markCurrentDead (sched : Scheduler cpus) (cpu : Fin cpus) : Scheduler cpus :=
  sched.setCurrentState cpu .Dead

def markDead (pids : List Pid) (thread : Thread) : Thread :=
  if thread.pid ∈ pids then { thread with state := .Dead } else thread

def markThreadsDead (sched : Scheduler cpus) (pids : List Pid) : Scheduler cpus :=
  { sched with
    current := fun cpu => (sched.current cpu).map (markDead pids)
    runQueues := fun cpu => (sched.runQueues cpu).map (markDead pids) }

/-- Make the first Blocked thread `pid` of a queue Ready; `none` if there is none. -/
def wakeFirst (pid : Pid) : List Thread → Option (List Thread)
  | [] => none
  | thread :: rest =>
    if thread.pid = pid ∧ thread.state = .Blocked then
      some ({ thread with state := .Ready } :: rest)
    else (wakeFirst pid rest).map (thread :: ·)

/-- The search of `wait::tick` for one pid: run queues only, CPU by CPU. -/
def wakeSleeper (sched : Scheduler cpus) (pid : Pid) : Scheduler cpus :=
  ((List.finRange cpus).findSome? fun cpu =>
    (wakeFirst pid (sched.runQueues cpu)).map (sched.setQueue cpu)).getD sched

/-- Second section of `wait::tick`. -/
def wakeSleepers (sched : Scheduler cpus) (pids : List Pid) : Scheduler cpus :=
  pids.foldl wakeSleeper sched

/-- The search of `wake_tid` on one CPU: the current slot, then the run queue. -/
def wakeOnCpu (sched : Scheduler cpus) (tid : Pid) (cpu : Fin cpus) : Option (Scheduler cpus) :=
  match sched.current cpu with
  | some thread =>
    if thread.pid = tid ∧ thread.state = .Blocked then
      some (sched.setCurrent cpu { thread with state := .Ready })
    else (wakeFirst tid (sched.runQueues cpu)).map (sched.setQueue cpu)
  | none => (wakeFirst tid (sched.runQueues cpu)).map (sched.setQueue cpu)

/-- `wake_tid`: the table after waking `tid`, `none` when it found no Blocked
thread of that id. -/
def wakeTid (sched : Scheduler cpus) (tid : Pid) : Option (Scheduler cpus) :=
  (List.finRange cpus).findSome? (wakeOnCpu sched tid)

end Scheduler

end Cyllor.Sched
