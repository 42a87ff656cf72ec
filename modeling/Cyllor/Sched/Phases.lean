import Cyllor.Sched.Conservation

/-!
Contract: the two phases of `schedule`, the bookkeeping under the lock and the switch of
registers after its release, interleaved over the CPUs.

Owns:
- `Phased`, the kernel with the threads that CPUs have left in the table but whose
  registers they still hold, or have saved to where the thread no longer is;
- `SelectsSaved`, that a CPU picks no such thread;
- the runs in which no CPU does, which are those where no CPU steals from one that is
  between the phases and no thread is added to its queue.
-/

namespace Cyllor.Sched

variable {cpus : Nat}

namespace Scheduler

variable {sched : Scheduler cpus} {cpu : Fin cpus}

/-- The threads of that id stand in one queue only. -/
def ParkedAt (sched : Scheduler cpus) (home : Fin cpus) (pid : Pid) : Prop :=
  ∀ place thread, At sched place thread → thread.pid = pid → place = .queue home

/-- A thread that a CPU has switched away from is in the queue of that CPU. -/
theorem parkedAt_outgoing (distinct : DistinctPids sched) {out : Thread}
    (present : sched.current cpu = some out) (notIdle : out.pid ≠ 0)
    (switched : (schedule sched cpu).switch ≠ none) :
    ParkedAt (schedule sched cpu).sched cpu out.pid := by
  intro place thread isAt samePid
  have wasCurrent : At sched (.current cpu) out := present
  cases at_schedule isAt with
  | requeued _ _ _ _ here _ _ => exact here
  | stays before wasAt beforePid _ =>
    obtain ⟨rfl, -⟩ := distinct.eq_of_at wasCurrent wasAt (beforePid ▸ samePid) notIdle
    rcases current_schedule_cases (by rw [present]; rfl) with
      ⟨stays, -⟩ | ⟨-, next, rest, picked, current⟩
    · exact absurd stays switched
    · obtain ⟨source, wasQueued, -⟩ := at_of_pickNext picked
      rw [At, current, Function.update_self] at isAt
      rw [← Option.some.inj isAt, dispatch_pid] at samePid
      obtain ⟨impossible, -⟩ := distinct.eq_of_at wasCurrent wasQueued samePid notIdle
      cases impossible
  | picked source before wasAt _ _ beforePid _ =>
    obtain ⟨impossible, -⟩ :=
      distinct.eq_of_at wasCurrent wasAt (beforePid ▸ samePid) notIdle
    cases impossible

theorem ParkedAt.schedule {home : Fin cpus} {pid : Pid} (parked : ParkedAt sched home pid)
    (occupied : (sched.current cpu).isSome)
    (notPicked : ∀ next after, pickNext (accountCurrent sched cpu) cpu = some (next, after) →
      next.pid ≠ pid) : ParkedAt (schedule sched cpu).sched home pid := by
  intro place thread isAt samePid
  cases at_schedule isAt with
  | stays before wasAt beforePid _ => exact parked place before wasAt (beforePid ▸ samePid)
  | requeued before wasAt _ _ _ beforePid _ =>
    cases parked _ before wasAt (beforePid ▸ samePid)
  | picked _ _ _ _ here _ _ =>
    subst here
    rcases current_schedule_cases occupied with ⟨-, same⟩ | ⟨-, next, rest, picked, current⟩
    · have wasThere := same cpu
      rw [isAt, Option.map_some, samePid] at wasThere
      obtain ⟨before, wasThere, beforePid⟩ := Option.map_eq_some_iff.mp wasThere.symm
      cases parked (.current cpu) before wasThere beforePid
    · rw [At, current, Function.update_self] at isAt
      rw [← Option.some.inj isAt, dispatch_pid] at samePid
      exact absurd samePid (notPicked next rest picked)

theorem ParkedAt.retagged {relation : Place cpus → Thread → Thread → Prop}
    {after : Scheduler cpus} {home : Fin cpus} {pid : Pid} (parked : ParkedAt sched home pid)
    (retagged : Retagged relation sched after)
    (keepsPid : ∀ {place old new}, relation place old new → new.pid = old.pid) :
    ParkedAt after home pid := by
  intro place new isAt samePid
  obtain ⟨old, wasAt, related⟩ := retagged.of_at isAt
  exact parked place old wasAt (keepsPid related ▸ samePid)

end Scheduler

open Scheduler

/-! ### The system -/

/-- The kernel, and for each CPU that is between the phases of `schedule` the thread it
comes from. The registers of a `lost` thread go to a place in memory that its queue has left. -/
structure Phased (cpus : Nat) where
  kernel : Kernel cpus
  leaving : Fin cpus → Option Pid
  lost : List Pid

/-- A section of the kernel, or the second phase of `schedule` on a CPU, which saves the
registers of the thread it leaves. -/
inductive PhaseLabel (cpus : Nat) where
  | locked (label : Label cpus)
  | switch (cpu : Fin cpus)
deriving DecidableEq

/-- The CPU that executes a section, where the label names it. -/
def Label.cpu : Label cpus → Option (Fin cpus)
  | .spawn _ | .kill _ => none
  | .sleepTicks cpu _ | .futex cpu _ _ | .exit cpu | .exitGroup cpu _ | .advance cpu _
  | .preempt cpu | .timer cpu => some cpu

namespace Phased

def boot (cpus : Nat) : Phased cpus := ⟨Kernel.boot cpus, fun _ => none, []⟩

/-- The CPU has yet to switch registers before it executes anything else. -/
def Busy (state : Phased cpus) (label : Label cpus) : Prop :=
  ∃ cpu, label.cpu = some cpu ∧ (state.leaving cpu).isSome

instance (state : Phased cpus) (label : Label cpus) : Decidable (state.Busy label) :=
  inferInstanceAs (Decidable (∃ _ : Fin cpus, _))

/-- The CPUs between the phases once a section is over. -/
def leave (state : Phased cpus) (label : Label cpus) : Fin cpus → Option Pid :=
  match state.kernel.schedulesOn label with
  | none => state.leaving
  | some cpu =>
    if (state.kernel.sched.schedule cpu).switch.isSome then
      Function.update state.leaving cpu ((state.kernel.sched.current cpu).map Thread.pid)
    else state.leaving

/-- The queue that a section adds a new thread to. -/
def growing (state : Phased cpus) : Label cpus → Option (Fin cpus)
  | .spawn _ => state.kernel.sched.leastLoadedCpu
  | _ => none

/-- A queue that grows may move in memory, while `old_ctx` still points to where the thread at
its back was. -/
def strand (state : Phased cpus) (label : Label cpus) : List Pid :=
  ((state.growing label).bind state.leaving).toList ++ state.lost

def step (state : Phased cpus) : PhaseLabel cpus → Option (Phased cpus)
  | .locked label =>
    if state.Busy label then none
    else (state.kernel.step label).map fun next => ⟨next, state.leave label, state.strand label⟩
  | .switch cpu =>
    if (state.leaving cpu).isSome then
      some { state with leaving := Function.update state.leaving cpu none }
    else none

def Unsaved (state : Phased cpus) (pid : Pid) : Prop :=
  pid ≠ 0 ∧ ((∃ cpu, state.leaving cpu = some pid) ∨ pid ∈ state.lost)

/-- A CPU that schedules does not pick a thread whose registers are not saved. -/
def SelectsSaved (state : Phased cpus) : PhaseLabel cpus → Prop
  | .locked label => ∀ cpu, state.kernel.schedulesOn label = some cpu → ∀ next after,
      pickNext (accountCurrent state.kernel.sched cpu) cpu = some (next, after) →
        ¬ state.Unsaved next.pid
  | .switch _ => True

/-- A CPU that finds nothing to run in its own queue does not turn to one that is between
the phases, and no thread is added to the queue of such a CPU. -/
def Settled (state : Phased cpus) : PhaseLabel cpus → Prop
  | .locked label =>
    (∀ cpu, state.kernel.schedulesOn label = some cpu →
      pickLocal (accountCurrent state.kernel.sched cpu) cpu = none →
        ∀ other, victim (accountCurrent state.kernel.sched cpu) cpu = some other →
          state.leaving other = none) ∧
    (state.growing label).bind state.leaving = none
  | .switch _ => True

instance (state : Phased cpus) : (label : PhaseLabel cpus) → Decidable (state.Settled label)
  | .locked _ => inferInstanceAs (Decidable ((∀ _ : Fin cpus, _) ∧ _))
  | .switch _ => instDecidableTrue

/-! ### The invariant -/

/-- The threads whose registers are not saved stand in the queues of the CPUs that left
them. -/
structure Inv (state : Phased cpus) : Prop where
  ledger : Kernel.Ledger state.kernel
  spawned : ∀ {cpu pid}, state.leaving cpu = some pid → pid ≠ 0 → pid ∈ state.kernel.spawned
  parked : ∀ {cpu pid}, state.leaving cpu = some pid → pid ≠ 0 →
    ParkedAt state.kernel.sched cpu pid
  nothingLost : state.lost = []

theorem inv_boot (cpus : Nat) : Inv (boot cpus) where
  ledger := Kernel.ledger_boot cpus
  spawned isLeaving := by cases isLeaving
  parked isLeaving := by cases isLeaving
  nothingLost := rfl

/-- A CPU that is not between the phases, and does not steal from one that is, picks a
thread whose registers are saved. -/
theorem Inv.selectsSaved {state : Phased cpus} (inv : Inv state) {cpu : Fin cpus}
    (free : state.leaving cpu = none)
    (settled : pickLocal (accountCurrent state.kernel.sched cpu) cpu = none →
      ∀ other, victim (accountCurrent state.kernel.sched cpu) cpu = some other →
        state.leaving other = none) {next : Thread} {after : Scheduler cpus}
    (picked : pickNext (accountCurrent state.kernel.sched cpu) cpu = some (next, after)) :
    ¬ state.Unsaved next.pid := by
  rintro ⟨notIdle, ⟨home, isLeaving⟩ | isLost⟩
  swap
  · rw [inv.nothingLost] at isLost
    cases isLost
  obtain ⟨source, wasQueued, -, origin⟩ := at_of_pickNext picked
  obtain rfl : source = home := by
    have here := inv.parked isLeaving notIdle _ next wasQueued rfl
    cases here
    rfl
  have sourceFree : state.leaving source = none := by
    rcases origin with rfl | ⟨nothing, isVictim⟩
    · exact free
    · exact settled nothing source isVictim
  rw [sourceFree] at isLeaving
  cases isLeaving

section

variable {state : Phased cpus} {label : Label cpus} {next : Kernel cpus} (inv : Inv state)
  (enabled : state.kernel.step label = some next)

include inv enabled

theorem Inv.unscheduled (schedules : state.kernel.schedulesOn label = none) :
    Inv ⟨next, state.leaving, []⟩ where
  ledger := Kernel.ledger_step inv.ledger enabled
  spawned isLeaving notIdle := by
    have before := inv.spawned isLeaving notIdle
    cases Kernel.tableEffect_of_step enabled with
    | unchanged _ _ spawned | retagged _ _ _ _ spawned =>
      rw [spawned]
      exact before
    | spawned _ _ _ _ _ _ spawned =>
      rw [spawned]
      exact List.mem_cons_of_mem _ before
    | scheduled cpu contradiction =>
      rw [schedules] at contradiction
      cases contradiction
  parked isLeaving notIdle := by
    have before := inv.parked isLeaving notIdle
    cases Kernel.tableEffect_of_step enabled with
    | unchanged sched =>
      rw [sched]
      exact before
    | spawned thread target _ fresh sched =>
      rw [sched]
      intro place standing isAt samePid
      rcases at_pushBack isAt with old | rfl
      · exact before place standing old samePid
      · rw [samePid] at fresh
        exact absurd (inv.spawned isLeaving notIdle) fresh
    | retagged relation keepsPid sched => exact before.retagged sched keepsPid
    | scheduled cpu contradiction =>
      rw [schedules] at contradiction
      cases contradiction
  nothingLost := rfl

/-- `schedule` on a CPU that is not between the phases parks the thread it leaves, and
moves no other parked thread. -/
theorem Inv.scheduled {cpu : Fin cpus} (schedules : state.kernel.schedulesOn label = some cpu)
    (free : state.leaving cpu = none) (settled : state.Settled (.locked label)) :
    Inv ⟨next, state.leave label, []⟩ := by
  obtain ⟨code, isNext, -⟩ := Kernel.scheduleOn_of_schedulesOn schedules enabled
  have isSched : next.sched = (state.kernel.sched.schedule cpu).sched := isNext ▸ rfl
  have isSpawned : next.spawned = state.kernel.spawned := isNext ▸ rfl
  have occupied := inv.ledger.occupied cpu
  obtain ⟨out, present⟩ := Option.isSome_iff_exists.mp occupied
  have distinct := inv.ledger.distinctPids
  -- a CPU is between the phases since before, or since this switch
  have origin : ∀ {other pid}, state.leave label other = some pid →
      state.leaving other = some pid ∨
        other = cpu ∧ pid = out.pid ∧ (state.kernel.sched.schedule cpu).switch ≠ none := by
    intro other pid isLeaving
    simp only [leave, schedules] at isLeaving
    split at isLeaving
    · rename_i switched
      by_cases same : other = cpu
      · subst same
        rw [Function.update_self, present, Option.map_some] at isLeaving
        exact .inr ⟨rfl, (Option.some.inj isLeaving).symm,
          fun none => by rw [none] at switched; cases switched⟩
      · rw [Function.update_of_ne same] at isLeaving
        exact .inl isLeaving
    · exact .inl isLeaving
  refine ⟨Kernel.ledger_step inv.ledger enabled, ?_, ?_, rfl⟩
  · intro other pid isLeaving notIdle
    dsimp only
    rw [isSpawned]
    rcases origin isLeaving with before | ⟨-, rfl, -⟩
    · exact inv.spawned before notIdle
    · have wasCurrent : At state.kernel.sched (.current cpu) out := present
      exact inv.ledger.mem_spawned wasCurrent notIdle
  · intro other pid isLeaving notIdle
    dsimp only
    rw [isSched]
    rcases origin isLeaving with before | ⟨rfl, rfl, switched⟩
    · refine (inv.parked before notIdle).schedule occupied fun picked after isPicked samePid => ?_
      refine inv.selectsSaved free (settled.1 cpu schedules) isPicked ⟨?_, .inl ⟨other, ?_⟩⟩
      · rw [samePid]
        exact notIdle
      · rw [samePid]
        exact before
    · exact parkedAt_outgoing distinct present notIdle switched

end

theorem not_busy {state next : Phased cpus} {label : Label cpus} {cpu : Fin cpus}
    (enabled : state.step (.locked label) = some next)
    (schedules : state.kernel.schedulesOn label = some cpu) : state.leaving cpu = none := by
  simp only [step] at enabled
  split at enabled
  case isTrue => cases enabled
  case isFalse idle =>
    have isCpu : label.cpu = some cpu := by
      cases label with
      | preempt other => exact schedules
      | advance other word =>
        simp only [Kernel.schedulesOn] at schedules
        split at schedules
        · cases schedules
        · split at schedules
          · exact schedules
          · cases schedules
      | _ => cases schedules
    cases isLeaving : state.leaving cpu with
    | none => rfl
    | some pid => exact absurd ⟨cpu, isCpu, by rw [isLeaving]; rfl⟩ idle

theorem inv_step {state next : Phased cpus} {label : PhaseLabel cpus} (inv : Inv state)
    (settled : state.Settled label) (enabled : state.step label = some next) : Inv next := by
  cases label with
  | switch cpu =>
    simp only [step] at enabled
    split at enabled
    case isFalse => cases enabled
    case isTrue =>
      obtain rfl := Option.some.inj enabled
      have before : ∀ {other pid}, Function.update state.leaving cpu none other = some pid →
          state.leaving other = some pid := by
        intro other pid isLeaving
        by_cases same : other = cpu
        · rw [same, Function.update_self] at isLeaving
          cases isLeaving
        · rwa [Function.update_of_ne same] at isLeaving
      exact ⟨inv.ledger, fun isLeaving => inv.spawned (before isLeaving),
        fun isLeaving => inv.parked (before isLeaving), inv.nothingLost⟩
  | locked label =>
    have free : ∀ {cpu}, state.kernel.schedulesOn label = some cpu → state.leaving cpu = none :=
      not_busy enabled
    simp only [step] at enabled
    split at enabled
    case isTrue => cases enabled
    case isFalse =>
      obtain ⟨kernel, stepped, rfl⟩ := Option.map_eq_some_iff.mp enabled
      rw [strand, settled.2, inv.nothingLost]
      cases schedules : state.kernel.schedulesOn label with
      | none =>
        have kept : state.leave label = state.leaving := by simp only [leave, schedules]
        rw [kept]
        exact inv.unscheduled stepped schedules
      | some cpu => exact inv.scheduled stepped schedules (free schedules) settled

/-- In a run in which no CPU steals from one that is between the phases of `schedule` and no
thread is added to the queue of such a CPU, no CPU ever picks a thread whose registers are not
saved yet. -/
theorem selectsSaved_of_run {trace : List (PhaseLabel cpus)} {label : PhaseLabel cpus}
    {state next : Phased cpus}
    (settled : LabelledRun.Guarded step Settled (boot cpus) (trace ++ [label]))
    (reached : LabelledRun.run step (boot cpus) trace = some state)
    (enabled : state.step label = some next) : state.SelectsSaved label := by
  have inv := LabelledRun.invariant_of_guarded Inv
    (fun inv permitted stepped => inv_step inv permitted stepped) (inv_boot cpus)
    settled.left_of_append reached
  have permitted := (settled.right_of_append reached).1
  cases label with
  | switch cpu => trivial
  | locked label =>
    intro cpu schedules picked after isPicked
    exact inv.selectsSaved (not_busy enabled schedules) (permitted.1 cpu schedules) isPicked

/-- Two CPUs. The first leaves thread 1 for thread 2, with thread 4 waiting; the second runs
thread 3 and has nothing else to run. `finished` lets the first CPU complete its switch. -/
def leaveAndSteal (finished : Bool) : List (PhaseLabel 2) :=
  [.locked (.spawn (Thread.newKernel 1 0 0)), .locked (.preempt 0), .switch 0,
    .locked (.spawn (Thread.newKernel 2 0 0)), .locked (.spawn (Thread.newKernel 3 0 0)),
    .locked (.spawn (Thread.newKernel 4 0 0)), .locked (.preempt 1), .switch 1,
    .locked (.preempt 0)] ++ if finished then [.switch 0] else []

/-- Once the first CPU has saved thread 1, the second one may steal it. -/
theorem selectsSaved_leaveAndSteal :
    LabelledRun.Guarded step Settled (boot 2)
        (leaveAndSteal true ++ [.locked (.preempt 1)]) ∧
      ∃ state, LabelledRun.run step (boot 2) (leaveAndSteal true) = some state ∧
        state.SelectsSaved (.locked (.preempt 1)) := by
  have settled : LabelledRun.Guarded step Settled (boot 2)
      (leaveAndSteal true ++ [.locked (.preempt 1)]) := by
    decide +kernel
  obtain ⟨state, reached, continues⟩ :
      ∃ state, LabelledRun.run step (boot 2) (leaveAndSteal true) = some state ∧
        (state.step (.locked (.preempt 1))).isSome := by
    decide +kernel
  obtain ⟨next, enabled⟩ := Option.isSome_iff_exists.mp continues
  exact ⟨settled, state, reached, selectsSaved_of_run settled reached enabled⟩

/-- The second CPU steals thread 1 while the first one still holds its registers. -/
theorem steals_unsaved_thread :
    ∃ state next after, LabelledRun.run step (boot 2) (leaveAndSteal false) = some state ∧
      (state.step (.locked (.preempt 1))).isSome = true ∧
      pickNext (accountCurrent state.kernel.sched 1) 1 = some (next, after) ∧ next.pid = 1 ∧
      state.Unsaved next.pid := by
  obtain ⟨state, reached, enabled, isLeaving, ⟨next, after⟩, picked, isOne⟩ :
      ∃ state, LabelledRun.run step (boot 2) (leaveAndSteal false) = some state ∧
        (state.step (.locked (.preempt 1))).isSome = true ∧ state.leaving 0 = some 1 ∧
        ∃ picked, pickNext (accountCurrent state.kernel.sched 1) 1 = some picked ∧
          picked.1.pid = 1 := by
    decide +kernel
  dsimp only at isOne
  refine ⟨state, next, after, reached, enabled, picked, isOne, ?_, .inl ⟨0, ?_⟩⟩
  · rw [isOne]
    decide
  · rw [isOne]
    exact isLeaving

end Phased

end Cyllor.Sched
