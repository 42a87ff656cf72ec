import Cyllor.Sched.Conservation

/-!
Contract: timed wakeups of sleeping threads.

Owns:
- `NoLostSleeper`, that every thread Blocked in a run queue is still registered
  in the sleep queue, or is in the list that a tick in progress is about to
  wake;
- the condition on steps under which runs of `sleep_ticks`, `schedule` and
  `wait::tick` keep it, and a run that loses a wakeup without it.
-/

namespace Cyllor.Sched.Kernel

open Scheduler

variable {cpus : Nat} {kernel next : Kernel cpus}

/-- The operations of this module: spawning, sleeping, ticks and scheduling. -/
def SleepScope : Label cpus → Prop
  | .spawn _ | .sleepTicks _ _ | .advance _ _ | .preempt _ | .timer _ => True
  | .futex _ _ _ | .exit _ | .exitGroup _ _ | .kill _ => False

instance (label : Label cpus) : Decidable (SleepScope label) := by
  delta SleepScope
  rcases label <;> infer_instance

/-- The ids that a tick has taken out of the sleep queue and not yet looked for. -/
def toWake : Timer → List Pid
  | .wake pids => pids
  | _ => []

/-- A later section of some tick will look for `pid`. -/
def WillBeWoken (kernel : Kernel cpus) (pid : Pid) : Prop :=
  QueueMap.Listed kernel.sleepQueue pid ∨ ∃ cpu, pid ∈ toWake (kernel.timer cpu)

instance (kernel : Kernel cpus) (pid : Pid) : Decidable (WillBeWoken kernel pid) :=
  inferInstanceAs (Decidable (_ ∨ _))

/-- Every thread that is Blocked in a run queue will be woken. -/
def NoLostSleeper (kernel : Kernel cpus) : Prop :=
  ∀ cpu, ∀ thread ∈ kernel.sched.runQueues cpu, thread.state = .Blocked →
    WillBeWoken kernel thread.pid

instance (kernel : Kernel cpus) : Decidable (NoLostSleeper kernel) :=
  inferInstanceAs (Decidable (∀ cpu, ∀ thread ∈ kernel.sched.runQueues cpu, _))

/-! ### The condition on steps -/

/-- The thread has marked itself Blocked and has yet to register its deadline. -/
def registersAt : Pc → Bool
  | .register _ _ _ => true
  | _ => false

def marksAt : Pc → Bool
  | .mark _ _ => true
  | _ => false

/-- An interrupt does not take the CPU from a thread that has yet to register. -/
def RegistersFirst (kernel : Kernel cpus) (cpu : Fin cpus) : Prop :=
  match kernel.sched.current cpu with
  | none => True
  | some thread => registersAt (kernel.pc thread.pid) →
      pickNext (accountCurrent kernel.sched cpu) cpu = none

/-- A tick about to look for threads finds none of them Blocked in a current
slot, unless that thread has, or is about to register, a further deadline. -/
def TickFindsQueued (kernel : Kernel cpus) (cpu : Fin cpus) : Prop :=
  ∀ other, match kernel.sched.current other with
    | none => True
    | some thread => thread.state = .Blocked → thread.pid ∈ toWake (kernel.timer cpu) →
        QueueMap.Listed kernel.sleepQueue thread.pid ∨ registersAt (kernel.pc thread.pid)

/-- A thread that blocks runs on a CPU with a `CURRENT_PID` entry. -/
def BlocksRecorded (kernel : Kernel cpus) (cpu : Fin cpus) : Prop :=
  match kernel.sched.current cpu with
  | none => True
  | some thread => marksAt (kernel.pc thread.pid) → cpu.val < MAX_CPUS

/-- The step does not fall into a window in which a wakeup is lost. -/
def SleepSafe (kernel : Kernel cpus) : Label cpus → Prop
  | .preempt cpu => RegistersFirst kernel cpu
  | .timer cpu => TickFindsQueued kernel cpu
  | .advance cpu _ => BlocksRecorded kernel cpu
  | _ => True

instance (kernel : Kernel cpus) (label : Label cpus) : Decidable (SleepSafe kernel label) := by
  delta SleepSafe RegistersFirst TickFindsQueued BlocksRecorded
  rcases label
  case preempt cpu =>
    dsimp only
    rcases kernel.sched.current cpu <;> infer_instance
  case timer cpu =>
    exact @Nat.decidableForallFin _ _ fun other => by
      rcases kernel.sched.current other <;> infer_instance
  case advance cpu view =>
    dsimp only
    rcases kernel.sched.current cpu <;> infer_instance
  all_goals exact instDecidableTrue

/-! ### The invariant -/

/-- The positions of threads that do nothing but sleep. -/
def SleepPc : Pc → Prop
  | .user => True
  | .mark _ blocking | .register _ _ blocking | .yield blocking => blocking = .sleepTicks
  | _ => False

/-- Every Blocked thread will be woken, or is still in its current slot and has
yet to register its deadline. -/
def BlockedAccounted (kernel : Kernel cpus) : Prop :=
  ∀ place thread, At kernel.sched place thread → thread.state = .Blocked →
    thread.pid ≠ 0 ∧ (WillBeWoken kernel thread.pid ∨
      (∃ cpu, place = .current cpu) ∧ registersAt (kernel.pc thread.pid) = true)

structure SleepInvariant (kernel : Kernel cpus) : Prop where
  ledger : Ledger kernel
  sleeping : ∀ pid, SleepPc (kernel.pc pid)
  ownPid : ∀ pid registered wakeAt blocking,
    kernel.pc pid = .register registered wakeAt blocking → registered = pid
  blocked : BlockedAccounted kernel

theorem sleepInvariant_boot (cpus : Nat) : SleepInvariant (boot cpus) where
  ledger := ledger_boot cpus
  sleeping _ := trivial
  ownPid _ _ _ _ atUser := by cases atUser
  blocked place thread standing blocked := by
    cases place with
    | current cpu =>
      obtain rfl := Option.some.inj standing
      cases blocked
    | queue cpu => cases standing

/-- The account carries over when no thread becomes Blocked or moves, no wakeup
disappears, and a thread about to register has registered or still will. -/
private theorem BlockedAccounted.frame (accounted : BlockedAccounted kernel)
    (threads : ∀ place thread, At next.sched place thread → thread.state = .Blocked →
      At kernel.sched place thread) (woken : ∀ pid, WillBeWoken kernel pid → WillBeWoken next pid)
    (registers : ∀ pid, registersAt (kernel.pc pid) = true →
      WillBeWoken next pid ∨ registersAt (next.pc pid) = true) :
    BlockedAccounted next := by
  intro place thread standing blocked
  obtain ⟨notIdle, covered | ⟨here, registering⟩⟩ :=
    accounted place thread (threads place thread standing blocked) blocked
  · exact ⟨notIdle, .inl (woken _ covered)⟩
  · rcases registers _ registering with covered | still
    · exact ⟨notIdle, .inl covered⟩
    · exact ⟨notIdle, .inr ⟨here, still⟩⟩

/-- Moving a thread between positions of which the old one does not register
keeps every thread that is about to register. -/
private theorem registersAt_update {moved pid : Pid} {old new : Pc}
    (atOld : kernel.pc moved = old) (other : registersAt old = false)
    (registering : registersAt (kernel.pc pid) = true) :
    registersAt (Function.update kernel.pc moved new pid) = true := by
  by_cases same : pid = moved
  · subst same
    rw [atOld, other] at registering
    cases registering
  · rw [Function.update_of_ne same]
    exact registering

/-- `schedule` on a CPU whose current thread is not about to register keeps
the account. -/
private theorem blockedAccounted_schedule {cpu : Fin cpus} (accounted : BlockedAccounted kernel)
    (ready : ∀ thread, kernel.sched.current cpu = some thread →
      pickNext (accountCurrent kernel.sched cpu) cpu ≠ none →
      registersAt (kernel.pc thread.pid) = false)
    (sched : next.sched = (kernel.sched.schedule cpu).sched)
    (woken : ∀ pid, WillBeWoken kernel pid → WillBeWoken next pid)
    (registers : ∀ pid, registersAt (kernel.pc pid) = true → registersAt (next.pc pid) = true) :
    BlockedAccounted next := by
  intro place thread standing blocked
  rw [sched] at standing
  cases at_schedule standing with
  | stays before wasThere pid state =>
    obtain ⟨notIdle, covered | ⟨here, registering⟩⟩ :=
      accounted place before wasThere (state ▸ blocked)
    · exact ⟨pid ▸ notIdle, .inl (pid ▸ woken _ covered)⟩
    · exact ⟨pid ▸ notIdle, .inr ⟨here, pid ▸ registers _ registering⟩⟩
  | picked _ _ _ _ _ _ running =>
    rw [running] at blocked
    cases blocked
  | requeued before wasCurrent picks notIdle here pid state =>
    have wasBlocked : before.state = .Blocked := by
      rcases state with ⟨_, nowReady⟩ | ⟨wasBlocked, _⟩
      · rw [nowReady] at blocked
        cases blocked
      · exact wasBlocked
    obtain ⟨_, covered | ⟨_, registering⟩⟩ := accounted _ before wasCurrent wasBlocked
    · exact ⟨pid ▸ notIdle, .inl (pid ▸ woken _ covered)⟩
    · rw [ready before wasCurrent picks] at registering
      cases registering

/-- The second section of `tick` keeps the account: whom it finds becomes Ready,
and whom it misses is current and covered otherwise. -/
private theorem blockedAccounted_timerWake {cpu : Fin cpus} {pids : List Pid}
    (ledger : Ledger kernel) (accounted : BlockedAccounted kernel)
    (waking : kernel.timer cpu = .wake pids) (finds : TickFindsQueued kernel cpu) :
    BlockedAccounted
      ({ kernel with sched := kernel.sched.wakeSleepers pids }.setTimer cpu .idle) := by
  intro place thread standing blocked
  have wasThere : At kernel.sched place thread := by
    obtain ⟨old, oldStands, rfl | ⟨_, _, _, rfl⟩⟩ :=
      (retagged_wakeSleepers kernel.sched pids).of_at standing
    · exact oldStands
    · cases blocked
  obtain ⟨notIdle, (listed | ⟨other, member⟩) | registering⟩ :=
    accounted place thread wasThere blocked
  · exact ⟨notIdle, .inl (.inl listed)⟩
  · by_cases same : other = cpu
    · subst same
      cases place with
      | queue queueCpu =>
        rw [waking] at member
        exact absurd blocked
          (not_blocked_wakeSleepers ledger.distinctPids standing member notIdle)
      | current currentCpu =>
        have found := finds currentCpu
        rw [show kernel.sched.current currentCpu = some thread from wasThere] at found
        rcases found blocked member with listed | registering
        · exact ⟨notIdle, .inl (.inl listed)⟩
        · exact ⟨notIdle, .inr ⟨⟨currentCpu, rfl⟩, registering⟩⟩
    · refine ⟨notIdle, .inl (.inr ⟨other, ?_⟩)⟩
      simpa [setTimer, same] using member
  · exact ⟨notIdle, .inr registering⟩

private theorem willBeWoken_timerPop {cpu : Fin cpus} {now : Nat}
    (popping : kernel.timer cpu = .pop now) (pid : Pid) (covered : WillBeWoken kernel pid) :
    let drained := QueueMap.drain (fun wakeAt => decide (wakeAt ≤ now)) kernel.sleepQueue
    WillBeWoken ({ kernel with sleepQueue := drained.2 }.setTimer cpu
      (if drained.1 = [] then .idle else .wake drained.1)) pid := by
  rcases covered with listed | ⟨other, member⟩
  · rcases QueueMap.listed_drain (fun wakeAt => decide (wakeAt ≤ now)) listed with drained | left
    · refine .inr ⟨cpu, ?_⟩
      simpa [setTimer, List.ne_nil_of_mem drained, toWake] using drained
    · exact .inl left
  · by_cases same : other = cpu
    · subst same
      simp [popping, toWake] at member
    · refine .inr ⟨other, ?_⟩
      simpa [setTimer, same] using member

private theorem blockedAccounted_mark {cpu : Fin cpus} {thread : Thread} {wakeAt : Nat}
    {blocking : Blocking} (accounted : BlockedAccounted kernel)
    (executes : Executes kernel cpu thread (.mark wakeAt blocking)) (registered : Pid) :
    BlockedAccounted
      ({ kernel with sched := kernel.sched.markCurrentBlocked cpu }.setPc thread.pid
        (.register registered wakeAt blocking)) := by
  intro place marked standing blocked
  obtain ⟨old, oldStands, related⟩ :=
    (retagged_setCurrentState kernel.sched cpu .Blocked).of_at standing
  split at related
  case isTrue here =>
    subst here
    obtain rfl := Option.some.inj (executes.present.symm.trans oldStands)
    subst related
    exact ⟨executes.notIdle, .inr ⟨⟨cpu, rfl⟩, by simp [setPc, registersAt]⟩⟩
  case isFalse =>
    subst related
    obtain ⟨notIdle, covered | ⟨here, registering⟩⟩ := accounted place _ oldStands blocked
    · exact ⟨notIdle, .inl covered⟩
    · exact ⟨notIdle, .inr ⟨here, registersAt_update executes.pc rfl registering⟩⟩

private theorem SleepInvariant.move (invariant : SleepInvariant kernel) {moved : Pid} {new : Pc}
    (ledger : Ledger next) (blocked : BlockedAccounted next)
    (pc : next.pc = Function.update kernel.pc moved new) (sleeps : SleepPc new)
    (own : ∀ registered wakeAt blocking, new = .register registered wakeAt blocking →
      registered = moved) : SleepInvariant next where
  ledger := ledger
  sleeping := by
    rw [pc, Function.forall_update_iff kernel.pc fun _ => SleepPc]
    exact ⟨sleeps, fun pid _ => invariant.sleeping pid⟩
  ownPid := by
    rw [pc, Function.forall_update_iff kernel.pc fun pid pc => ∀ registered wakeAt blocking,
      pc = .register registered wakeAt blocking → registered = pid]
    exact ⟨own, fun pid _ => invariant.ownPid pid⟩
  blocked := blocked

/-- Every step of the sleeping code that avoids the windows keeps the invariant. -/
theorem sleepInvariant_step {label : Label cpus} (invariant : SleepInvariant kernel)
    (inScope : SleepScope label) (safe : SleepSafe kernel label)
    (enabled : kernel.step label = some next) :
    SleepInvariant next := by
  have ledger := ledger_step invariant.ledger enabled
  -- a thread at any position outside the sleeping code contradicts the invariant
  have sleeping {cpu : Fin cpus} {thread : Thread} {pc : Pc}
      (executes : Executes kernel cpu thread pc) : SleepPc pc :=
    executes.pc ▸ invariant.sleeping thread.pid
  cases section_of_step enabled with
  | spawn thread target ready =>
    refine ⟨ledger, invariant.sleeping, invariant.ownPid, ?_⟩
    refine invariant.blocked.frame ?_ (fun _ covered => covered) (fun _ => .inr)
    intro place standing stands blocked
    rcases at_pushBack stands with old | rfl
    · exact old
    · rw [ready] at blocked
      cases blocked
  | sleepNothing => exact invariant
  | sleepTicks n executes =>
    refine invariant.move ledger ?_ rfl rfl (by simp)
    exact invariant.blocked.frame (fun _ _ standing _ => standing) (fun _ covered => covered)
      fun _ registering => .inr (registersAt_update executes.pc rfl registering)
  | @mark cpu thread _ wakeAt blocking executes =>
    have recorded : cpu.val < MAX_CPUS := by
      simpa [SleepSafe, BlocksRecorded, executes.present, executes.pc, marksAt] using safe
    have own := invariant.ledger.getCurrentPid_eq executes.present recorded
    obtain rfl : blocking = .sleepTicks := sleeping executes
    refine invariant.move ledger (blockedAccounted_mark invariant.blocked executes _) rfl rfl ?_
    rintro _ _ _ ⟨⟩
    exact own
  | register registered wakeAt blocking executes =>
    have own := invariant.ownPid _ _ _ _ executes.pc
    obtain rfl : blocking = .sleepTicks := sleeping executes
    refine invariant.move ledger ?_ rfl rfl (by simp)
    refine invariant.blocked.frame (fun _ _ standing _ => standing) ?_ ?_
    · rintro pid (listed | pending)
      · exact .inl (QueueMap.listed_push.mpr (.inl listed))
      · exact .inr pending
    · intro pid registering
      by_cases same : pid = registered
      · exact .inl (.inl (QueueMap.listed_push.mpr (.inr same)))
      · rw [own] at same
        refine .inr ?_
        simpa [setPc, same] using registering
  | @yield cpu thread _ blocking executes =>
    obtain rfl : blocking = .sleepTicks := sleeping executes
    refine invariant.move ledger ?_ rfl trivial (by simp [Blocking.resume])
    refine blockedAccounted_schedule invariant.blocked ?_ rfl (fun _ covered => covered)
      fun _ registering => registersAt_update executes.pc rfl registering
    intro current present _
    obtain rfl := Option.some.inj (executes.present.symm.trans present)
    rw [executes.pc]
    rfl
  | preempt cpu =>
    refine ⟨ledger, invariant.sleeping, invariant.ownPid, ?_⟩
    refine blockedAccounted_schedule invariant.blocked ?_ rfl (fun _ covered => covered)
      fun _ registering => registering
    intro thread present picks
    have first : RegistersFirst kernel cpu := safe
    simp only [RegistersFirst, present] at first
    exact Bool.eq_false_iff.mpr fun registering => picks (first registering)
  | @timerCount cpu idle inRange =>
    refine ⟨ledger, invariant.sleeping, invariant.ownPid, ?_⟩
    refine invariant.blocked.frame (fun _ _ standing _ => standing) ?_ (fun _ => .inr)
    rintro pid (listed | ⟨other, member⟩)
    · exact .inl listed
    · refine .inr ⟨other, ?_⟩
      by_cases same : other = cpu
      · subst same
        simp [idle, toWake] at member
      · simpa [setTimer, same] using member
  | timerPop now popping =>
    refine ⟨ledger, invariant.sleeping, invariant.ownPid, ?_⟩
    exact invariant.blocked.frame (fun _ _ standing _ => standing)
      (willBeWoken_timerPop popping) (fun _ => .inr)
  | timerWake pids waking =>
    exact ⟨ledger, invariant.sleeping, invariant.ownPid,
      blockedAccounted_timerWake invariant.ledger invariant.blocked waking safe⟩
  | futex | exit | exitGroup | kill => exact absurd inScope id
  | enqueue _ executes | unqueue _ executes | takeToken _ _ _ executes | popWaiters _ _ executes
  | requeueWaiters _ _ _ _ executes | cancelWakeup _ _ _ executes | wakeFound _ _ _ _ executes
  | wakeMissed _ _ _ executes | addToken _ _ _ executes | markCurrentDead executes
  | markThreadsDead _ executes | exitYield executes =>
    exact (sleeping executes).elim

/-- In every run of spawning, sleeping, ticks and scheduling whose steps avoid
the windows of `SleepSafe`, a thread that is Blocked in a run queue has a
pending wakeup in every state reached. -/
theorem noLostSleeper_of_run {trace : List (Label cpus)} {final : Kernel cpus}
    (inScope : ∀ label ∈ trace, SleepScope label)
    (safe : LabelledRun.Guarded step SleepSafe (boot cpus) trace)
    (reached : (boot cpus).run trace = some final) : NoLostSleeper final := by
  have invariant : SleepInvariant final :=
    LabelledRun.invariant_of_guarded SleepInvariant
      (fun invariant safe enabled => sleepInvariant_step invariant safe.1 safe.2 enabled)
      (sleepInvariant_boot cpus) (safe.and_forall inScope) reached
  intro cpu thread queued blocked
  obtain ⟨_, covered | ⟨⟨_, impossible⟩, _⟩⟩ :=
    invariant.blocked (.queue cpu) thread queued blocked
  · exact covered
  · cases impossible

/-- Threads 1, 2 and 3 on two CPUs; thread 1 sleeps for one tick and CPU 1 takes
the next timer interrupt. `tickEarly` lets the tick run before the sleeper has
called `schedule`. -/
def sleepAndTick (tickEarly : Bool) : List (Label 2) :=
  let tick : List (Label 2) := [.timer 1, .timer 1, .timer 1]
  [.spawn (Thread.newKernel 1 0 0), .spawn (Thread.newKernel 2 0 0),
    .spawn (Thread.newKernel 3 0 0), .preempt 0, .sleepTicks 0 1, .advance 0 none,
    .advance 0 none] ++
    (if tickEarly then tick ++ [.advance 0 none] else .advance 0 none :: tick)

/-- A tick after the sleeper has left its CPU finds it. -/
theorem noLostSleeper_sleepAndTick :
    (∀ label ∈ sleepAndTick false, SleepScope label) ∧
      LabelledRun.Guarded step SleepSafe (boot 2) (sleepAndTick false) ∧
      ∃ final, (boot 2).run (sleepAndTick false) = some final ∧ NoLostSleeper final := by
  have inScope : ∀ label ∈ sleepAndTick false, SleepScope label := by decide
  have safe : LabelledRun.Guarded step SleepSafe (boot 2) (sleepAndTick false) := by
    decide +kernel
  have enabled : ((boot 2).run (sleepAndTick false)).isSome := by decide +kernel
  obtain ⟨final, reached⟩ := Option.isSome_iff_exists.mp enabled
  exact ⟨inScope, safe, final, reached, noLostSleeper_of_run inScope safe reached⟩

/-- A tick that runs while the sleeper is Blocked but still current takes its
entry, does not find it in a run queue and forgets it: thread 1 ends up Blocked
in a run queue with no entry left and no tick in progress. -/
theorem early_tick_loses_sleeper :
    (∀ label ∈ sleepAndTick true, SleepScope label) ∧
      ∃ final, (boot 2).run (sleepAndTick true) = some final ∧
        (∃ thread ∈ final.sched.runQueues 0, thread.pid = 1 ∧ thread.state = .Blocked) ∧
        ¬ QueueMap.Listed final.sleepQueue 1 ∧ (∀ cpu, final.timer cpu = .idle) ∧
        ¬ NoLostSleeper final := by
  decide +kernel

end Cyllor.Sched.Kernel
