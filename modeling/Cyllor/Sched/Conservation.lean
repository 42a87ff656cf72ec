import Cyllor.Sched.Section

/-!
Contract: which threads the scheduler table holds over a whole run.

Owns:
- `Ledger`, the account that holds in every reachable state: each id that was
  handed out stands in the table or has been discarded, once;
- `Conserved`, that no live thread is dropped or duplicated;
- that runs in which `schedule` never replaces a Ready thread are conserving,
  and a run that loses a thread without that condition.
-/

namespace Cyllor.Sched.Kernel

open Scheduler Cyllor.Ipc

variable {cpus : Nat} {kernel next : Kernel cpus}

/-- The account of thread ids. -/
structure Ledger (kernel : Kernel cpus) : Prop where
  occupied : ∀ cpu, (kernel.sched.current cpu).isSome
  currentPid : ∀ cpu, cpu.val < MAX_CPUS →
    (kernel.sched.current cpu).map Thread.pid = some (kernel.currentPid cpu)
  nodup : kernel.spawned.Nodup
  notIdle : 0 ∉ kernel.spawned
  balance : ∀ pid, pid ≠ 0 →
    (pids kernel.sched).count pid + (pidsOf kernel.discarded).count pid = kernel.spawned.count pid

private theorem count_pids_init (pid : Pid) (notIdle : pid ≠ 0) :
    (pids (Scheduler.init cpus)).count pid = 0 := by
  rw [Multiset.count_eq_zero, mem_pids_iff]
  rintro ⟨place, thread, standing, rfl⟩
  cases place with
  | current cpu =>
    obtain rfl := Option.some.inj standing
    exact notIdle rfl
  | queue cpu => cases standing

theorem ledger_boot (cpus : Nat) : Ledger (boot cpus) where
  occupied _ := rfl
  currentPid _ _ := rfl
  nodup := List.nodup_nil
  notIdle := List.not_mem_nil
  balance pid notIdle := by
    simp [boot, count_pids_init pid notIdle]

private theorem pids_pushBack (sched : Scheduler cpus) (target : Fin cpus) (thread : Thread) :
    pids (sched.pushBack target thread) = pids sched + {thread.pid} := by
  refine (add_zero _).symm.trans (pids_balance target ?_ ?_)
  · intro different distinct
    simp [slotPids, pushBack, setQueue, distinct]
  · simp [slotPids, pushBack, setQueue, add_assoc]

private theorem currentPid_scheduleOn (ledger : Ledger kernel) (cpu other : Fin cpus)
    (recorded : other.val < MAX_CPUS) :
    ((kernel.sched.schedule cpu).sched.current other).map Thread.pid =
      some ((kernel.scheduleOn cpu).currentPid other) := by
  have before := ledger.currentPid other recorded
  have kept (same : other ≠ cpu ∨ (kernel.sched.schedule cpu).switch = none) :=
    current_schedule same (ledger.occupied cpu)
  obtain ⟨next, present⟩ :=
    Option.isSome_iff_exists.mp (isSome_current_schedule cpu cpu ledger.occupied)
  simp only [scheduleOn, present]
  cases switched : (kernel.sched.schedule cpu).switch with
  | none => rw [kept (.inr switched), before]
  | some switch =>
    by_cases same : other = cpu
    · subst same
      simp [setCurrentPid, recorded, present]
    · rw [kept (.inl same), before]
      by_cases small : cpu.val < MAX_CPUS <;> simp [setCurrentPid, small, same]

/-- States and contexts of threads do not enter the account. -/
theorem Ledger.retagged (ledger : Ledger kernel) {relation : Place cpus → Thread → Thread → Prop}
    (keepsPid : ∀ {place old new}, relation place old new → new.pid = old.pid)
    (sched : Retagged relation kernel.sched next.sched)
    (currentPid : next.currentPid = kernel.currentPid) (spawned : next.spawned = kernel.spawned)
    (discarded : next.discarded = kernel.discarded) : Ledger next := by
  constructor
  · intro cpu
    rw [sched.isSome_current]
    exact ledger.occupied cpu
  · intro cpu recorded
    rw [sched.current_pid keepsPid, currentPid]
    exact ledger.currentPid cpu recorded
  · rw [spawned]
    exact ledger.nodup
  · rw [spawned]
    exact ledger.notIdle
  · rw [spawned, discarded, sched.pids_eq keepsPid]
    exact ledger.balance

theorem ledger_step {label : Label cpus} (ledger : Ledger kernel)
    (enabled : kernel.step label = some next) : Ledger next := by
  cases tableEffect_of_step enabled with
  | unchanged sched currentPid spawned discarded =>
    constructor
    · rw [sched]
      exact ledger.occupied
    · rw [sched, currentPid]
      exact ledger.currentPid
    · rw [spawned]
      exact ledger.nodup
    · rw [spawned]
      exact ledger.notIdle
    · rw [sched, spawned, discarded]
      exact ledger.balance
  | spawned thread target notIdle fresh sched currentPid spawned discarded =>
    constructor
    · rw [sched]
      exact ledger.occupied
    · rw [sched, currentPid]
      exact ledger.currentPid
    · rw [spawned]
      exact List.nodup_cons.mpr ⟨fresh, ledger.nodup⟩
    · rw [spawned, List.mem_cons, not_or]
      exact ⟨notIdle.symm, ledger.notIdle⟩
    · intro pid pidNotIdle
      have balance := ledger.balance pid pidNotIdle
      rw [sched, spawned, discarded, pids_pushBack, Multiset.count_add, List.count_cons,
        Multiset.count_singleton]
      by_cases same : pid = thread.pid
      · simp only [same, if_true, beq_self_eq_true] at balance ⊢
        omega
      · simp only [same, if_false, beq_iff_eq, Ne.symm same] at balance ⊢
        omega
  | retagged relation keepsPid sched currentPid spawned discarded =>
    exact ledger.retagged keepsPid sched currentPid spawned discarded
  | scheduled cpu _ sched currentPid spawned discarded =>
    constructor
    · intro other
      rw [sched]
      exact isSome_current_schedule cpu other ledger.occupied
    · intro other recorded
      rw [sched, currentPid]
      exact currentPid_scheduleOn ledger cpu other recorded
    · rw [spawned]
      exact ledger.nodup
    · rw [spawned]
      exact ledger.notIdle
    · intro pid notIdle
      have balance := ledger.balance pid notIdle
      have moved := congrArg (Multiset.count pid) (pids_schedule kernel.sched cpu)
      rw [Multiset.count_add] at moved
      rw [sched, spawned, discarded, pidsOf_append, Multiset.count_add]
      simp only [discardedPids] at moved
      omega

theorem ledger_of_run {trace : List (Label cpus)} {final : Kernel cpus}
    (reached : (boot cpus).run trace = some final) : Ledger final :=
  LabelledRun.invariant_of_run Ledger ledger_step (ledger_boot cpus) reached

/-- No id but that of the idle threads ever stands in the table twice. -/
theorem Ledger.distinctPids (ledger : Ledger kernel) :
    DistinctPids kernel.sched := by
  intro pid notIdle
  have balance := ledger.balance pid notIdle
  have once := List.nodup_iff_count_le_one.mp ledger.nodup pid
  omega

theorem Ledger.mem_spawned (ledger : Ledger kernel) {place : Place cpus} {thread : Thread}
    (standing : At kernel.sched place thread) (notIdle : thread.pid ≠ 0) :
    thread.pid ∈ kernel.spawned := by
  have present : 0 < (pids kernel.sched).count thread.pid :=
    Multiset.count_pos.mpr (mem_pids_iff.mpr ⟨place, thread, standing, rfl⟩)
  have balance := ledger.balance thread.pid notIdle
  exact List.count_pos_iff.mp (by omega)

/-- On a CPU with a `CURRENT_PID` entry that entry is the running thread's id. -/
theorem Ledger.getCurrentPid_eq (ledger : Ledger kernel) {cpu : Fin cpus} {thread : Thread}
    (present : kernel.sched.current cpu = some thread) (recorded : cpu.val < MAX_CPUS) :
    kernel.getCurrentPid cpu = thread.pid := by
  have current := ledger.currentPid cpu recorded
  rw [present] at current
  simpa [getCurrentPid, recorded] using (Option.some.inj current).symm

/-! ### Live threads -/

/-- The thread left the table after it had died. -/
def Reaped (kernel : Kernel cpus) (pid : Pid) : Prop :=
  ∃ thread ∈ kernel.discarded, thread.pid = pid ∧ thread.state = .Dead

instance (kernel : Kernel cpus) (pid : Pid) : Decidable (Reaped kernel pid) :=
  inferInstanceAs (Decidable (∃ thread ∈ kernel.discarded, _))

/-- Every spawned thread that was not reaped stands in the table exactly once. -/
def Conserved (kernel : Kernel cpus) : Prop :=
  ∀ pid ∈ kernel.spawned, ¬ Reaped kernel pid → (pids kernel.sched).count pid = 1

instance (kernel : Kernel cpus) : Decidable (Conserved kernel) :=
  inferInstanceAs (Decidable (∀ pid ∈ kernel.spawned, _))

/-- `schedule` on `cpu` finds its current thread idle, not Ready, or nothing to
replace it with. -/
def KeepsOutgoing (sched : Scheduler cpus) (cpu : Fin cpus) : Prop :=
  match sched.current cpu with
  | none => True
  | some out => out.pid = 0 ∨ out.state ≠ .Ready ∨ pickNext (accountCurrent sched cpu) cpu = none

instance (sched : Scheduler cpus) (cpu : Fin cpus) : Decidable (KeepsOutgoing sched cpu) := by
  unfold KeepsOutgoing
  split <;> infer_instance

/-- Every `schedule` of the step keeps its outgoing thread. -/
def SchedulesKeep (kernel : Kernel cpus) (label : Label cpus) : Prop :=
  ∀ cpu, kernel.schedulesOn label = some cpu → KeepsOutgoing kernel.sched cpu

instance (kernel : Kernel cpus) (label : Label cpus) : Decidable (SchedulesKeep kernel label) :=
  inferInstanceAs (Decidable (∀ _ : Fin cpus, _))

/-- Everything that was discarded was idle or dead. -/
def OnlyDeadDiscarded (kernel : Kernel cpus) : Prop :=
  ∀ thread ∈ kernel.discarded, thread.pid ≠ 0 → thread.state = .Dead

private theorem onlyDeadDiscarded_step {label : Label cpus} (ledger : Ledger kernel)
    (onlyDead : OnlyDeadDiscarded kernel) (keeps : SchedulesKeep kernel label)
    (enabled : kernel.step label = some next) :
    OnlyDeadDiscarded next := by
  cases tableEffect_of_step enabled with
  | unchanged _ _ _ discarded | spawned _ _ _ _ _ _ _ discarded
  | retagged _ _ _ _ _ discarded =>
    unfold OnlyDeadDiscarded
    rw [discarded]
    exact onlyDead
  | scheduled cpu schedules _ _ _ discarded =>
    intro thread member notIdle
    rw [discarded, List.mem_append, Option.mem_toList] at member
    rcases member with gone | earlier
    · obtain ⟨out, present⟩ := Option.isSome_iff_exists.mp (ledger.occupied cpu)
      obtain ⟨rfl, picks, state⟩ := discarded_schedule present gone
      have kept := keeps cpu schedules
      simp only [KeepsOutgoing, present] at kept
      simp only [account_pid, account_state] at notIdle ⊢
      tauto
    · exact onlyDead thread earlier notIdle

private theorem conserved_of_ledger (ledger : Ledger kernel) (onlyDead : OnlyDeadDiscarded kernel) :
    Conserved kernel := by
  intro pid member notReaped
  have notIdle : pid ≠ 0 := fun zero => ledger.notIdle (zero ▸ member)
  have noneGone : (pidsOf kernel.discarded).count pid = 0 := by
    rw [Multiset.count_eq_zero]
    intro gone
    obtain ⟨thread, discarded, rfl⟩ := List.mem_map.mp (Multiset.mem_coe.mp gone)
    exact notReaped ⟨thread, discarded, rfl, onlyDead thread discarded notIdle⟩
  have balance := ledger.balance pid notIdle
  rw [List.count_eq_one_of_mem ledger.nodup member] at balance
  omega

/-- In every run in which `schedule` never replaces a Ready outgoing thread,
every spawned thread that has not died and been reaped stands exactly once
among the current slots and run queues. -/
theorem conserved_of_run {trace : List (Label cpus)} {final : Kernel cpus}
    (keeps : LabelledRun.Guarded step SchedulesKeep (boot cpus) trace)
    (reached : (boot cpus).run trace = some final) : Conserved final := by
  have invariant : Ledger final ∧ OnlyDeadDiscarded final :=
    LabelledRun.invariant_of_guarded (fun kernel => Ledger kernel ∧ OnlyDeadDiscarded kernel)
      (fun both keeps enabled => ⟨ledger_step both.1 enabled,
        onlyDeadDiscarded_step both.1 both.2 keeps enabled⟩)
      ⟨ledger_boot cpus, fun _ member => absurd member List.not_mem_nil⟩ keeps reached
  exact conserved_of_ledger invariant.1 invariant.2

/-- Threads 1, 2 and 3 on two CPUs; thread 1 waits on a futex and thread 2 wakes
it. `wakeEarly` lets the wake run before the waiter has called `schedule`. -/
def waitAndWake (wakeEarly : Bool) : List (Label 2) :=
  let wait : FutexArgs := ⟨0x100, FUTEX_WAIT, 0, 0, 0, 0⟩
  let wake : FutexArgs := ⟨0x100, FUTEX_WAKE, 1, 0, 0, 0⟩
  let view : FutexView := ⟨some 0, none, 0⟩
  let block : List (Label 2) := [.advance 0 none, .advance 0 none]
  let waker : List (Label 2) :=
    [.futex 1 wake view, .advance 1 none, .advance 1 none, .advance 1 none]
  [.spawn (Thread.newKernel 1 0 0), .spawn (Thread.newKernel 2 0 0),
    .spawn (Thread.newKernel 3 0 0), .preempt 0, .preempt 1, .futex 0 wait view] ++ block ++
    (if wakeEarly then waker ++ block else block ++ waker)

/-- When the wake comes after the waiter has left its CPU, nothing is lost. -/
theorem conserved_waitAndWake :
    LabelledRun.Guarded step SchedulesKeep (boot 2) (waitAndWake false) ∧
      ∃ final, (boot 2).run (waitAndWake false) = some final ∧ Conserved final := by
  have keeps : LabelledRun.Guarded step SchedulesKeep (boot 2) (waitAndWake false) := by
    decide +kernel
  have enabled : ((boot 2).run (waitAndWake false)).isSome := by decide +kernel
  obtain ⟨final, reached⟩ := Option.isSome_iff_exists.mp enabled
  exact ⟨keeps, final, reached, conserved_of_run keeps reached⟩

/-- When the wake finds the waiter Blocked but still current, `schedule` then
sees a Ready outgoing thread and drops it: thread 1 is neither dead nor in the
table. -/
theorem early_wake_loses_thread :
    ∃ final, (boot 2).run (waitAndWake true) = some final ∧
      1 ∈ final.spawned ∧ ¬ Reaped final 1 ∧ (pids final.sched).count 1 = 0 ∧
      ¬ Conserved final := by
  decide +kernel

/-- However the sections of the CPUs interleave, no thread but the idle ones is ever in two
places: it runs on one CPU at most, and is not queued while it runs. -/
theorem stands_once_of_run {trace : List (Label cpus)} {final : Kernel cpus}
    (reached : (boot cpus).run trace = some final) {place other : Place cpus}
    {thread twin : Thread} (here : At final.sched place thread) (there : At final.sched other twin)
    (same : twin.pid = thread.pid) (notIdle : thread.pid ≠ 0) : other = place ∧ twin = thread :=
  (ledger_of_run reached).distinctPids.eq_of_at here there same notIdle

theorem stands_once_waitAndWake :
    ∃ final thread, (boot 2).run (waitAndWake true) = some final ∧
      final.sched.current 0 = some thread ∧ thread.pid = 3 ∧
      ∀ other twin, At final.sched other twin → twin.pid = 3 → other = .current 0 := by
  obtain ⟨final, reached, thread, runs, isThree⟩ : ∃ final,
      (boot 2).run (waitAndWake true) = some final ∧
        ∃ thread, final.sched.current 0 = some thread ∧ thread.pid = 3 := by
    decide +kernel
  have here : At final.sched (.current 0) thread := runs
  refine ⟨final, thread, reached, runs, isThree, fun other twin there same => ?_⟩
  exact (stands_once_of_run reached here there (same.trans isThree.symm) (by simp [isThree])).1

end Cyllor.Sched.Kernel
