import Cyllor.Lib.RoundRobin
import Cyllor.Sched.SchedulerFacts

/-!
Contract: the threads of one CPU take turns (`schedule`, accounting and local pick).

Owns:
- `Runnable`, a CPU whose threads are all ready to run;
- that one call of `schedule` gives a turn to the running thread and runs the first of the
  queue, as long as the queue is level;
- fairness of any number of calls.

The queue is not sorted. It is level: the threads that had fewer turns stand before those that
had one more, because the thread that had its turn goes to the back. So the first of the least
is always the front, and the pick that could remove from the middle never does.
-/

namespace Cyllor.Sched.Scheduler

open RoundRobin

variable {cpus : Nat} {sched : Scheduler cpus} {cpu : Fin cpus}

def threads (sched : Scheduler cpus) (cpu : Fin cpus) : List Thread :=
  (sched.current cpu).toList ++ sched.runQueues cpu

def turnsOf (thread : Thread) : Pid × Nat := (thread.pid, thread.vruntime)

/-- The CPU runs a thread other than the idle one, all threads in its queue are ready, and there
is nothing to steal if the queue is empty. -/
structure Runnable (sched : Scheduler cpus) (cpu : Fin cpus) : Prop where
  initialized : sched.initialized = true
  running : ∃ thread, sched.current cpu = some thread ∧ thread.state = .Running
  ready : ∀ thread ∈ sched.runQueues cpu, thread.state = .Ready
  notIdle : ∀ thread ∈ sched.threads cpu, thread.pid ≠ 0
  alone : sched.runQueues cpu = [] →
    ∀ other, other ≠ cpu → readyCount (sched.runQueues other) ≤ 1

theorem minReadyIdx_front {front : Thread} {rest : List Thread}
    (ready : ∀ thread ∈ front :: rest, thread.state = .Ready)
    (least : ∀ thread ∈ rest, front.vruntime ≤ thread.vruntime) :
    minReadyIdx (front :: rest) = some 0 := by
  have all : ((front :: rest).zipIdx.filter fun entry => entry.1.state = .Ready) =
      (front :: rest).zipIdx := by
    refine List.filter_eq_self.mpr fun entry member => decide_eq_true ?_
    exact ready _ (List.fst_mem_of_mem_zipIdx member)
  have first : (front :: rest).zipIdx.argmin (fun entry => entry.1.vruntime) =
      some (front, 0) := by
    rw [List.zipIdx_cons, List.argmin_cons]
    cases found : (rest.zipIdx (0 + 1)).argmin (fun entry => entry.1.vruntime) with
    | none => rfl
    | some entry =>
      have member := List.argmin_mem found
      exact if_neg (Nat.not_lt.mpr (least _ (List.fst_mem_of_mem_zipIdx member)))
  rw [minReadyIdx, all, first]
  rfl

theorem steal_eq_none (nothing : ∀ other, other ≠ cpu → readyCount (sched.runQueues other) ≤ 1) :
    steal sched cpu = none := by
  rw [steal]
  cases found : victim sched cpu with
  | none => rfl
  | some other =>
    have isOther : other ≠ cpu := by
      have member := List.argmax_mem found
      rw [List.mem_reverse, List.mem_filter] at member
      exact of_decide_eq_true member.2
    exact if_neg (Nat.not_lt.mpr (nothing other isOther))

theorem account_turnsOf {thread : Thread} (notIdle : thread.pid ≠ 0)
    (below : thread.vruntime < u64Max) :
    turnsOf (account thread) = (thread.pid, thread.vruntime + 1) := by
  rw [account, if_pos notIdle, turnsOf, saturatingAdd, Nat.min_eq_left (by omega)]

/-- A call of `schedule` gives a turn to the running thread. -/
def GivesTurn (sched : Scheduler cpus) (cpu : Fin cpus) : Prop :=
  Runnable (schedule sched cpu).sched cpu ∧
    ((schedule sched cpu).sched.threads cpu).map turnsOf = turn ((sched.threads cpu).map turnsOf)

section Turn

variable {running : Thread} (runnable : Runnable sched cpu)
  (isCurrent : sched.current cpu = some running)

include runnable isCurrent

theorem Runnable.of_current : sched.threads cpu = running :: sched.runQueues cpu ∧
    running.pid ≠ 0 ∧ running.state = .Running := by
  have isThreads : sched.threads cpu = running :: sched.runQueues cpu := by
    rw [threads, isCurrent]
    rfl
  obtain ⟨thread, isThread, state⟩ := runnable.running
  rw [← Option.some.inj (isCurrent.symm.trans isThread)] at state
  exact ⟨isThreads, runnable.notIdle running (by simp [isThreads]), state⟩

theorem schedule_single (empty : sched.runQueues cpu = []) (below : running.vruntime < u64Max) :
    GivesTurn sched cpu := by
  obtain ⟨isThreads, notIdle, isRunning⟩ := runnable.of_current isCurrent
  rw [empty] at isThreads
  have noPick : pickNext (accountCurrent sched cpu) cpu = none := by
    have noLocal : pickLocal (accountCurrent sched cpu) cpu = none := by
      rw [pickLocal, show (accountCurrent sched cpu).runQueues cpu = [] from empty]
      rfl
    rw [pickNext, noLocal, Option.none_or]
    exact steal_eq_none (runnable.alone empty)
  have isNext : (schedule sched cpu).sched = accountCurrent sched cpu := by
    rw [schedule, if_pos runnable.initialized]
    dsimp only
    rw [noPick]
  have nowCurrent : (accountCurrent sched cpu).current cpu = some (account running) := by
    simp [accountCurrent, isCurrent]
  have nowThreads : (accountCurrent sched cpu).threads cpu = [account running] := by
    rw [threads, nowCurrent, show (accountCurrent sched cpu).runQueues cpu = [] from empty]
    rfl
  rw [GivesTurn, isNext]
  refine ⟨⟨runnable.initialized, ⟨_, nowCurrent, ?_⟩, runnable.ready, ?_, runnable.alone⟩, ?_⟩
  · rw [account_state, isRunning]
  · intro thread member
    rw [nowThreads, List.mem_singleton] at member
    rw [member, account_pid]
    exact notIdle
  · rw [nowThreads, isThreads, List.map_singleton, account_turnsOf notIdle below]
    rfl

/-- Otherwise the front of the queue runs, if no thread in the queue had fewer turns. -/
theorem schedule_front {front : Thread} {rest : List Thread}
    (isQueue : sched.runQueues cpu = front :: rest)
    (least : ∀ thread ∈ rest, front.vruntime ≤ thread.vruntime)
    (below : running.vruntime < u64Max) : GivesTurn sched cpu := by
  obtain ⟨isThreads, notIdle, isRunning⟩ := runnable.of_current isCurrent
  rw [isQueue] at isThreads
  have picks : pickNext (accountCurrent sched cpu) cpu =
      some (front, (accountCurrent sched cpu).setQueue cpu rest) := by
    have allReady : ∀ thread ∈ front :: rest, thread.state = .Ready :=
      fun thread member => runnable.ready thread (isQueue ▸ member)
    have isLocal : pickLocal (accountCurrent sched cpu) cpu =
        some (front, (accountCurrent sched cpu).setQueue cpu rest) := by
      rw [pickLocal, show (accountCurrent sched cpu).runQueues cpu = front :: rest from isQueue,
        minReadyIdx_front allReady least]
      rfl
    rw [pickNext, isLocal, Option.some_or]
  have nowCurrent : ((accountCurrent sched cpu).setQueue cpu rest).current cpu =
      some (account running) := by
    simp [accountCurrent, setQueue, isCurrent]
  have isRequeued : requeued (account running) = [{ account running with state := .Ready }] := by
    rw [requeued, if_pos (by rw [account_state, isRunning])]
  have isNext : (schedule sched cpu).sched =
      (((accountCurrent sched cpu).setQueue cpu rest).setQueue cpu
        (rest ++ [{ account running with state := .Ready }])).setCurrent cpu (dispatch front) := by
    rw [schedule, if_pos runnable.initialized]
    dsimp only
    rw [picks]
    dsimp only
    rw [switchTo, nowCurrent]
    dsimp only
    rw [if_neg (by rw [account_pid]; exact notIdle), isRequeued]
    simp [setQueue]
  have nowThreads : (schedule sched cpu).sched.threads cpu =
      dispatch front :: rest ++ [{ account running with state := .Ready }] := by
    rw [threads, isNext]
    simp [setCurrent, setQueue]
  refine ⟨⟨?_, ?_, ?_, ?_, ?_⟩, ?_⟩
  · rw [isNext]
    exact runnable.initialized
  · refine ⟨dispatch front, ?_, dispatch_state front⟩
    rw [isNext]
    simp [setCurrent]
  · intro thread member
    rw [isNext] at member
    simp only [setCurrent, setQueue, Function.update_self, List.mem_append,
      List.mem_singleton] at member
    obtain inRest | rfl := member
    · exact runnable.ready thread (by rw [isQueue]; exact List.mem_cons_of_mem _ inRest)
    · rfl
  · intro thread member
    rw [nowThreads] at member
    simp only [List.cons_append, List.mem_cons, List.mem_append, List.not_mem_nil,
      or_false] at member
    obtain rfl | inRest | rfl := member
    · rw [dispatch_pid]
      exact runnable.notIdle front (by simp [isThreads])
    · exact runnable.notIdle thread (by simp [isThreads, inRest])
    · exact (account_pid running).trans_ne notIdle
  · intro empty
    rw [isNext] at empty
    simp [setCurrent, setQueue] at empty
  · have dispatched : turnsOf (dispatch front) = turnsOf front := by
      rw [dispatch]
      split_ifs <;> rfl
    have requeuedTurns : turnsOf { account running with state := .Ready } =
        (running.pid, running.vruntime + 1) := account_turnsOf notIdle below
    rw [nowThreads, isThreads, List.map_append, List.map_cons, dispatched, List.map_singleton,
      requeuedTurns, List.map_cons, List.map_cons]
    rfl

end Turn

/-! ### Any number of calls -/

/-- The table after some calls of `schedule` on one CPU. -/
def schedules (sched : Scheduler cpus) (cpu : Fin cpus) : Nat → Scheduler cpus
  | 0 => sched
  | calls + 1 => (schedule (schedules sched cpu calls) cpu).sched

def pidsAt (sched : Scheduler cpus) (cpu : Fin cpus) : List Pid :=
  (sched.threads cpu).map Thread.pid

theorem map_fst_turnsOf (list : List Thread) : (list.map turnsOf).map Prod.fst =
    list.map Thread.pid := by
  rw [List.map_map]
  rfl

theorem schedule_level {pids : List Pid} {start turns : Nat} (runnable : Runnable sched cpu)
    (level : Level pids start turns ((sched.threads cpu).map turnsOf))
    (below : start + turns / pids.length < u64Max) :
    Runnable (schedule sched cpu).sched cpu ∧
      Level pids start (turns + 1) (((schedule sched cpu).sched.threads cpu).map turnsOf) := by
  obtain ⟨running, isCurrent, _⟩ := runnable.running
  have isFirst : (sched.threads cpu).map turnsOf =
      turnsOf running :: (sched.runQueues cpu).map turnsOf := by
    rw [(runnable.of_current isCurrent).1, List.map_cons]
  have runningBelow : running.vruntime < u64Max := by
    rw [show running.vruntime = start + turns / pids.length from level.head isFirst]
    exact below
  have scheduled : GivesTurn sched cpu := by
    cases isQueue : sched.runQueues cpu with
    | nil => exact schedule_single runnable isCurrent isQueue runningBelow
    | cons front rest =>
      refine schedule_front runnable isCurrent isQueue ?_ runningBelow
      intro thread member
      have ordered := level.pairwise
      rw [isFirst, isQueue, List.map_cons, List.pairwise_cons, List.pairwise_cons] at ordered
      exact ordered.2.1 (turnsOf thread) (List.mem_map_of_mem member)
  refine ⟨scheduled.1, ?_⟩
  rw [scheduled.2]
  exact level.next

theorem schedules_level {start : Nat} (runnable : Runnable sched cpu)
    (equal : ∀ thread ∈ sched.threads cpu, thread.vruntime = start) {calls : Nat}
    (below : start + calls / (pidsAt sched cpu).length < u64Max) :
    Runnable (schedules sched cpu calls) cpu ∧
      Level (pidsAt sched cpu) start calls
        (((schedules sched cpu calls).threads cpu).map turnsOf) := by
  induction calls with
  | zero =>
    refine ⟨runnable, ?_⟩
    obtain ⟨running, isCurrent, _⟩ := runnable.running
    have nonempty : pidsAt sched cpu ≠ [] := by
      rw [pidsAt, threads, isCurrent]
      exact List.cons_ne_nil _ _
    have isStart : (sched.threads cpu).map turnsOf =
        (pidsAt sched cpu).map fun pid => (pid, start) := by
      rw [pidsAt, List.map_map]
      refine List.map_congr_left fun thread member => ?_
      rw [turnsOf, equal thread member]
      rfl
    rw [schedules, isStart]
    exact level_zero nonempty start
  | succ calls ih =>
    have earlier : calls / (pidsAt sched cpu).length ≤ (calls + 1) / (pidsAt sched cpu).length :=
      Nat.div_le_div_right (Nat.le_succ calls)
    have stillBelow : start + calls / (pidsAt sched cpu).length < u64Max := by omega
    obtain ⟨stays, level⟩ := ih stillBelow
    exact schedule_level stays level stillBelow

def runningPid (sched : Scheduler cpus) (cpu : Fin cpus) : Option Pid :=
  (sched.current cpu).map Thread.pid

/-- The threads of a CPU that are always ready to run, with equal counts at the start, stay the
same threads; their counts differ by at most one and the running thread has the least; and in
every round, of as many calls as there are threads, each of them runs once. -/
theorem schedules_fair {start : Nat} (runnable : Runnable sched cpu)
    (equal : ∀ thread ∈ sched.threads cpu, thread.vruntime = start) {calls : Nat}
    (below : start + calls / (pidsAt sched cpu).length < u64Max) :
    (pidsAt (schedules sched cpu calls) cpu).Perm (pidsAt sched cpu) ∧
    (∀ thread ∈ (schedules sched cpu calls).threads cpu,
      ∀ other ∈ (schedules sched cpu calls).threads cpu, thread.vruntime ≤ other.vruntime + 1) ∧
    (∃ running, (schedules sched cpu calls).current cpu = some running ∧
      ∀ thread ∈ (schedules sched cpu calls).threads cpu, running.vruntime ≤ thread.vruntime) ∧
    ∀ first, first + (pidsAt sched cpu).length ≤ calls + 1 →
      ((List.range (pidsAt sched cpu).length).map fun later =>
        runningPid (schedules sched cpu (first + later)) cpu).Perm
          ((pidsAt sched cpu).map some) := by
  have levels : ∀ earlier ≤ calls, Runnable (schedules sched cpu earlier) cpu ∧
      Level (pidsAt sched cpu) start earlier
        (((schedules sched cpu earlier).threads cpu).map turnsOf) := by
    intro earlier isEarlier
    refine schedules_level runnable equal ?_
    have fewer := @Nat.div_le_div_right earlier calls (pidsAt sched cpu).length isEarlier
    omega
  obtain ⟨stays, level⟩ := levels calls (le_refl calls)
  have bounds : ∀ thread ∈ (schedules sched cpu calls).threads cpu,
      start + calls / (pidsAt sched cpu).length ≤ thread.vruntime ∧
        thread.vruntime ≤ start + calls / (pidsAt sched cpu).length + 1 :=
    fun thread member => level.bounds (List.mem_map_of_mem member)
  refine ⟨?_, ?_, ?_, ?_⟩
  · rw [pidsAt, ← map_fst_turnsOf, level.rotated]
    exact List.rotate_perm _ calls
  · intro thread member other otherMember
    have upper := (bounds thread member).2
    have lower := (bounds other otherMember).1
    omega
  · obtain ⟨running, isCurrent, _⟩ := stays.running
    refine ⟨running, isCurrent, fun thread member => ?_⟩
    have isFirst : ((schedules sched cpu calls).threads cpu).map turnsOf =
        turnsOf running :: ((schedules sched cpu calls).runQueues cpu).map turnsOf := by
      rw [threads, isCurrent]
      rfl
    rw [show running.vruntime = start + calls / (pidsAt sched cpu).length from level.head isFirst]
    exact (bounds thread member).1
  · intro first within
    have heads : ((List.range (pidsAt sched cpu).length).map fun later =>
        runningPid (schedules sched cpu (first + later)) cpu) =
        (List.range (pidsAt sched cpu).length).map fun later =>
          ((pidsAt sched cpu).rotate (first + later)).head? := by
      refine List.map_congr_left fun later member => ?_
      have isEarlier : first + later ≤ calls := by
        have := List.mem_range.mp member
        omega
      obtain ⟨staysThen, levelThen⟩ := levels (first + later) isEarlier
      obtain ⟨running, isCurrent, _⟩ := staysThen.running
      rw [← levelThen.rotated, map_fst_turnsOf, threads, runningPid, isCurrent]
      rfl
    rw [heads]
    exact heads_perm (pidsAt sched cpu) first

def threeThreads : Scheduler 1 where
  runQueues _ := [Thread.newKernel 2 0 0, Thread.newKernel 3 0 0]
  current _ := some { Thread.newKernel 1 0 0 with state := .Running }
  initialized := true

theorem runnable_threeThreads : Runnable threeThreads 0 where
  initialized := rfl
  running := ⟨_, rfl, rfl⟩
  ready := by decide
  notIdle := by decide
  alone empty := by cases empty

theorem schedules_fair_threeThreads :
    ((List.range 3).map fun later => runningPid (schedules threeThreads 0 (4 + later)) 0).Perm
      [some 1, some 2, some 3] :=
  (@schedules_fair 1 threeThreads 0 0 runnable_threeThreads (by decide) 7
    (by decide)).2.2.2 4 (by decide)

end Cyllor.Sched.Scheduler
