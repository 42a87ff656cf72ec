import Cyllor.Sched.Sleep

/-!
Contract: what becomes of threads that were marked dead.

Owns:
- `AllDead`, that every thread of an id which still stands in the table is dead;
- that every section keeps it, apart from the first section of
  `block_current_until`, which marks the current thread Blocked without looking at
  its state;
- the runs in which dead threads stay dead.
-/

namespace Cyllor.Sched.Scheduler

variable {cpus : Nat}

/-- Every thread of that id that stands in the table is dead. -/
def AllDead (sched : Scheduler cpus) (pid : Pid) : Prop :=
  ∀ place thread, At sched place thread → thread.pid = pid → thread.state = .Dead

variable {sched : Scheduler cpus} {pid : Pid}

theorem AllDead.pushBack (dead : AllDead sched pid) {target : Fin cpus} {thread : Thread}
    (other : thread.pid ≠ pid) : AllDead (sched.pushBack target thread) pid := by
  intro place standing isAt samePid
  rcases at_pushBack isAt with old | rfl
  · exact dead place standing old samePid
  · exact absurd samePid other

/-- A dead thread is not picked, and not put back on a queue. -/
theorem AllDead.schedule (dead : AllDead sched pid) (cpu : Fin cpus) :
    AllDead (sched.schedule cpu).sched pid := by
  intro place thread isAt samePid
  cases at_schedule isAt with
  | stays before wasAt beforePid state =>
    rw [state]
    exact dead place before wasAt (beforePid ▸ samePid)
  | picked source before wasAt ready _ beforePid _ =>
    have isDead := dead _ before wasAt (beforePid ▸ samePid)
    rw [ready] at isDead
    cases isDead
  | requeued before wasAt _ _ _ beforePid state =>
    have isDead := dead _ before wasAt (beforePid ▸ samePid)
    rcases state with ⟨running, -⟩ | ⟨blocked, -⟩
    · rw [running] at isDead
      cases isDead
    · rw [blocked] at isDead
      cases isDead

theorem AllDead.retagged {relation : Place cpus → Thread → Thread → Prop}
    {after : Scheduler cpus} (dead : AllDead sched pid) (retagged : Retagged relation sched after)
    (keeps : ∀ {place old new}, At sched place old → relation place old new →
      new.pid = old.pid ∧ (old.pid = pid → old.state = .Dead → new.state = .Dead)) :
    AllDead after pid := by
  intro place new isAt samePid
  obtain ⟨old, wasAt, related⟩ := retagged.of_at isAt
  obtain ⟨kept, staysDead⟩ := keeps wasAt related
  rw [kept] at samePid
  exact staysDead samePid (dead place old wasAt samePid)

theorem AllDead.pickNext_ne (dead : AllDead sched pid) {cpu : Fin cpus} {next : Thread}
    {rest : Scheduler cpus} (picked : pickNext (accountCurrent sched cpu) cpu = some (next, rest)) :
    next.pid ≠ pid := by
  intro samePid
  obtain ⟨source, member, ready, -⟩ := at_of_pickNext picked
  have isDead := dead _ next member samePid
  rw [ready] at isDead
  cases isDead

end Scheduler

namespace Kernel

open Scheduler

variable {cpus : Nat}

/-- A thread that is about to mark itself Blocked has not been killed. -/
def BlocksAlive (kernel : Kernel cpus) : Label cpus → Prop
  | .advance cpu _ =>
    match kernel.sched.current cpu with
    | none => True
    | some thread => marksAt (kernel.pc thread.pid) → thread.state ≠ .Dead
  | _ => True

instance (kernel : Kernel cpus) (label : Label cpus) : Decidable (BlocksAlive kernel label) := by
  delta BlocksAlive
  rcases label
  case advance cpu view =>
    dsimp only
    rcases kernel.sched.current cpu <;> infer_instance
  all_goals exact instDecidableTrue

/-- The id was given to a thread, and what is left of it is dead. -/
def Buried (pid : Pid) (kernel : Kernel cpus) : Prop :=
  pid ∈ kernel.spawned ∧ AllDead kernel.sched pid

theorem buried_step {kernel next : Kernel cpus} {label : Label cpus} {pid : Pid}
    (buried : Buried pid kernel) (alive : BlocksAlive kernel label)
    (enabled : kernel.step label = some next) : Buried pid next := by
  obtain ⟨spawned, dead⟩ := buried
  cases section_of_step enabled with
  | spawn thread target _ _ fresh =>
    refine ⟨List.mem_cons_of_mem _ spawned, dead.pushBack ?_⟩
    rintro rfl
    exact fresh spawned
  | mark wakeAt blocking executes =>
    refine ⟨spawned, dead.retagged (retagged_setCurrentState kernel.sched _ .Blocked) ?_⟩
    intro place old new isAt related
    split at related
    · rename_i here
      subst here
      obtain rfl := Option.some.inj (executes.present.symm.trans isAt)
      simp only [BlocksAlive, executes.present, executes.pc, marksAt] at alive
      subst related
      exact ⟨rfl, fun _ isDead => absurd isDead (alive trivial)⟩
    · subst related
      exact ⟨rfl, fun _ => id⟩
  | markCurrentDead executes =>
    refine ⟨spawned, dead.retagged (retagged_setCurrentState kernel.sched _ .Dead) ?_⟩
    intro place old new _ related
    split at related <;> subst related
    · exact ⟨rfl, fun _ _ => rfl⟩
    · exact ⟨rfl, fun _ => id⟩
  | markThreadsDead members _ | kill members =>
    refine ⟨spawned, dead.retagged (retagged_markThreadsDead kernel.sched members) ?_⟩
    rintro place old new - rfl
    refine ⟨markDead_pid members old, fun _ isDead => ?_⟩
    unfold markDead
    split
    · rfl
    · exact isDead
  | wakeFound tid _ _ _ _ found =>
    refine ⟨spawned, dead.retagged (retagged_wakeTid found) ?_⟩
    rintro place old new - (rfl | ⟨-, blocked, rfl⟩)
    · exact ⟨rfl, fun _ => id⟩
    · exact ⟨rfl, fun _ isDead => by rw [blocked] at isDead; cases isDead⟩
  | timerWake pids _ =>
    refine ⟨spawned, dead.retagged (retagged_wakeSleepers kernel.sched pids) ?_⟩
    rintro place old new - (rfl | ⟨-, -, blocked, rfl⟩)
    · exact ⟨rfl, fun _ => id⟩
    · exact ⟨rfl, fun _ isDead => by rw [blocked] at isDead; cases isDead⟩
  | yield | exitYield | preempt => exact ⟨spawned, dead.schedule _⟩
  | _ => exact ⟨spawned, dead⟩

/-- In a run in which no killed thread goes on to block, a thread that was marked dead
stays dead as long as it stands in the table, and is never picked again. -/
theorem dead_absorbing_of_run {trace rest : List (Label cpus)} {middle final : Kernel cpus}
    (alive : LabelledRun.Guarded step BlocksAlive (boot cpus) (trace ++ rest))
    (reached : (boot cpus).run trace = some middle) {place : Place cpus} {thread : Thread}
    (isAt : At middle.sched place thread) (notIdle : thread.pid ≠ 0) (dead : thread.state = .Dead)
    (continued : middle.run rest = some final) :
    (∀ place later, At final.sched place later → later.pid = thread.pid → later.state = .Dead) ∧
      ∀ cpu next after, pickNext (accountCurrent final.sched cpu) cpu = some (next, after) →
        next.pid ≠ thread.pid := by
  have ledger := ledger_of_run reached
  -- ids are not given twice, so the dead thread is the only one of its id
  have buried : Buried thread.pid middle := by
    refine ⟨ledger.mem_spawned isAt notIdle, fun other later laterAt samePid => ?_⟩
    obtain ⟨-, same⟩ := ledger.distinctPids.eq_of_at isAt laterAt samePid notIdle
    rw [same, dead]
  have aliveAfter := alive.right_of_append reached
  have buriedFinally := LabelledRun.invariant_of_guarded (Buried thread.pid)
    (fun inv permitted enabled => buried_step inv permitted enabled) buried aliveAfter continued
  exact ⟨buriedFinally.2, fun cpu next after picked => buriedFinally.2.pickNext_ne picked⟩

/-- Threads 1 and 2 on one CPU; thread 1 goes to sleep. `killEarly` kills it before it has
marked itself Blocked, and otherwise it is killed once it sleeps. -/
def sleepAndDie (killEarly : Bool) : List (Label 1) × List (Label 1) :=
  let start : List (Label 1) :=
    [.spawn (Thread.newKernel 1 0 0), .spawn (Thread.newKernel 2 0 0), .preempt 0,
      .sleepTicks 0 1]
  let block : List (Label 1) := [.advance 0 none, .advance 0 none, .advance 0 none]
  let wake : List (Label 1) := [.timer 0, .timer 0, .timer 0, .preempt 0]
  if killEarly then (start ++ [.kill [1]], block ++ wake)
  else (start ++ block ++ [.kill [1]], wake)

/-- A thread that is killed in its sleep is not picked when its deadline comes. -/
theorem dead_absorbing_sleepAndDie :
    LabelledRun.Guarded step BlocksAlive (boot 1)
        ((sleepAndDie false).1 ++ (sleepAndDie false).2) ∧
      ∃ middle final, (boot 1).run (sleepAndDie false).1 = some middle ∧
        middle.run (sleepAndDie false).2 = some final ∧
        ∀ place later, At final.sched place later → later.pid = 1 → later.state = .Dead := by
  have alive : LabelledRun.Guarded step BlocksAlive (boot 1)
      ((sleepAndDie false).1 ++ (sleepAndDie false).2) := by
    decide +kernel
  obtain ⟨middle, reached, ⟨thread, queued, isFirst, dead⟩, enabled⟩ :
      ∃ middle, (boot 1).run (sleepAndDie false).1 = some middle ∧
        (∃ thread ∈ middle.sched.runQueues 0, thread.pid = 1 ∧ thread.state = .Dead) ∧
        (middle.run (sleepAndDie false).2).isSome := by
    decide +kernel
  obtain ⟨final, continued⟩ := Option.isSome_iff_exists.mp enabled
  have isAt : At middle.sched (.queue 0) thread := queued
  have absorbed := dead_absorbing_of_run alive reached isAt (by rw [isFirst]; decide) dead continued
  rw [isFirst] at absorbed
  exact ⟨alive, middle, final, reached, continued, absorbed.1⟩

/-- A thread that is killed just before it marks itself Blocked is woken by its deadline
and runs again. -/
theorem killed_thread_runs_again :
    ∃ middle final, (boot 1).run (sleepAndDie true).1 = some middle ∧
      (middle.sched.current 0).map (fun thread => (thread.pid, thread.state)) = some (1, .Dead) ∧
      middle.run (sleepAndDie true).2 = some final ∧
      (final.sched.current 0).map (fun thread => (thread.pid, thread.state)) =
        some (1, .Running) := by
  simp only [exists_and_left]
  decide +kernel

end Kernel

end Cyllor.Sched
