import Cyllor.Sched.SchedulerFacts

/-!
Contract: the register half of `schedule` and when it agrees with the table.

Owns:
- `scheduleAndSwitch`, the locked bookkeeping followed by `context_switch_raw`
  or `switch_to_new_raw`;
- `SwitchesTo`, the effect a switch is meant to have on saved contexts and on
  the CPU;
- the outgoing states for which the code has exactly that effect.
-/

namespace Cyllor.Sched.Scheduler

open Thread

variable {cpus : Nat}

/-- The table and the registers of the switching CPU once `schedule` is over. -/
structure Switched (cpus : Nat) where
  sched : Scheduler cpus
  registers : Registers

/-- Write `registers` into the Context of the thread at `index` of a queue. -/
def saveAt (queue : List Thread) (index : Nat) (registers : Registers) : List Thread :=
  queue.modify index fun thread => { thread with context := thread.context.save registers }

/-- The registers a CPU resumes with when it restores its current thread. -/
def restoreCurrent (sched : Scheduler cpus) (cpu : Fin cpus) (registers : Registers) : Registers :=
  match sched.current cpu with
  | some thread => thread.context.toRegisters
  | none => registers

/-- `schedule` as a whole: with a null `old_ctx` and no idle thread replaced
neither assembly routine is called. -/
def scheduleAndSwitch (sched : Scheduler cpus) (cpu : Fin cpus) (registers : Registers) :
    Switched cpus :=
  let scheduled := schedule sched cpu
  match scheduled.switch with
  | none => ⟨scheduled.sched, registers⟩
  | some switch =>
    if switch.idleToNew then
      ⟨scheduled.sched, restoreCurrent scheduled.sched cpu registers⟩
    else
      match switch.saveTo with
      | none => ⟨scheduled.sched, registers⟩
      | some index =>
        let saved := saveAt (scheduled.sched.runQueues cpu) index registers
        ⟨scheduled.sched.setQueue cpu saved, restoreCurrent scheduled.sched cpu registers⟩

/-- What replacing `out` by `next` on `cpu` is meant to do, where `rest` is the
table without `next`: the registers go into the Context of `out` itself, which
stands at the back of the queue, or nowhere for an idle or dead `out`; every
other Context is as before, up to the first-run preparation of `next`; and the
CPU continues from the Context of its new current thread. -/
structure SwitchesTo (rest : Scheduler cpus) (cpu : Fin cpus) (out next : Thread)
    (registers : Registers) (switched : Switched cpus) : Prop where
  current : switched.sched.current = Function.update rest.current cpu (some (dispatch next))
  elsewhere : ∀ other, other ≠ cpu → switched.sched.runQueues other = rest.runQueues other
  saved : if out.pid = 0 ∨ out.state = .Dead then
      switched.sched.runQueues cpu = rest.runQueues cpu
    else ∃ own : Thread, switched.sched.runQueues cpu = rest.runQueues cpu ++ [own] ∧
      own.pid = out.pid ∧ own.context = out.context.save registers
  resumes : switched.registers = (dispatch next).context.toRegisters

/-! ### The three shapes of a switch -/

variable {sched rest : Scheduler cpus} {cpu : Fin cpus} {out next : Thread}

private theorem schedule_of_pickNext (initialized : sched.initialized = true)
    (picked : pickNext (accountCurrent sched cpu) cpu = some (next, rest)) :
    schedule sched cpu = switchTo rest cpu next := by
  simp [schedule, initialized, picked]

private theorem backIdx_append_singleton (queue : List Thread) (own : Thread) :
    backIdx (queue ++ [own]) = some queue.length := by
  simp [backIdx]

private theorem saveAt_append_singleton (queue : List Thread) (own : Thread)
    (registers : Registers) :
    saveAt (queue ++ [own]) queue.length registers =
      queue ++ [{ own with context := own.context.save registers }] := by
  induction queue with
  | nil => rfl
  | cons head tail ih =>
    simpa [saveAt, List.modify_succ_cons] using ih

section

variable (initialized : sched.initialized = true) (present : sched.current cpu = some out)
  (picked : pickNext (accountCurrent sched cpu) cpu = some (next, rest))

include initialized present picked

private theorem switchesTo_of_idle (idle : out.pid = 0) (registers : Registers) :
    SwitchesTo rest cpu out next registers (scheduleAndSwitch sched cpu registers) := by
  have equation : scheduleAndSwitch sched cpu registers =
      ⟨rest.setCurrent cpu (dispatch next), (dispatch next).context.toRegisters⟩ := by
    simp [scheduleAndSwitch, schedule_of_pickNext initialized picked, switchTo,
      outgoing_of_pickNext present picked, idle, restoreCurrent, setCurrent]
  rw [equation]
  exact ⟨rfl, fun _ _ => rfl, by simp [idle, setCurrent], rfl⟩

private theorem switchesTo_of_requeued (notIdle : out.pid ≠ 0) (notDead : out.state ≠ .Dead)
    (own : Thread) (queued : requeued (account out) = [own]) (ownPid : own.pid = out.pid)
    (ownContext : own.context = out.context) (registers : Registers) :
    SwitchesTo rest cpu out next registers (scheduleAndSwitch sched cpu registers) := by
  have equation : scheduleAndSwitch sched cpu registers =
      ⟨((rest.setQueue cpu (rest.runQueues cpu ++ [own])).setCurrent cpu (dispatch next)).setQueue
        cpu
          (rest.runQueues cpu ++ [{ own with context := own.context.save registers }]),
        (dispatch next).context.toRegisters⟩ := by
    simp [scheduleAndSwitch, schedule_of_pickNext initialized picked, switchTo,
      outgoing_of_pickNext present picked, notIdle, restoreCurrent, queued,
      backIdx_append_singleton, ← saveAt_append_singleton, setCurrent, setQueue]
  rw [equation]
  refine ⟨rfl, ?_, ?_, rfl⟩
  · intro other different
    simp [setQueue, setCurrent, different]
  · rw [if_neg (by simp [notIdle, notDead])]
    exact ⟨{ own with context := own.context.save registers }, by simp [setQueue], ownPid,
      by rw [ownContext]⟩

/-- Any other outgoing thread: the save target is whatever stands at the back
of the queue, and without one the switch is skipped. -/
private theorem scheduleAndSwitch_of_dropped (notIdle : out.pid ≠ 0)
    (dropped : requeued (account out) = []) (registers : Registers) :
    (rest.runQueues cpu = [] ∧ (scheduleAndSwitch sched cpu registers).registers = registers) ∨
      ∃ others last, rest.runQueues cpu = others ++ [last] ∧
        (scheduleAndSwitch sched cpu registers).sched.runQueues cpu =
          others ++ [{ last with context := last.context.save registers }] := by
  rcases List.eq_nil_or_concat (rest.runQueues cpu) with empty | ⟨others, last, queue⟩
  · refine .inl ⟨empty, ?_⟩
    simp [scheduleAndSwitch, schedule_of_pickNext initialized picked, switchTo,
      outgoing_of_pickNext present picked, notIdle, dropped, empty, backIdx]
  · rw [List.concat_eq_append] at queue
    refine .inr ⟨others, last, queue, ?_⟩
    simp [scheduleAndSwitch, schedule_of_pickNext initialized picked, switchTo,
      outgoing_of_pickNext present picked, notIdle, dropped, queue, backIdx_append_singleton,
      ← saveAt_append_singleton, setCurrent, setQueue]

end

private theorem exists_registers_ne (registers : Registers) :
    ∃ different : Registers, different ≠ registers :=
  ⟨{ registers with sp := registers.sp + 1 }, by
    intro same
    have sameSp := congrArg Registers.sp same
    simp at sameSp⟩

section

variable (initialized : sched.initialized = true) (present : sched.current cpu = some out)
  (picked : pickNext (accountCurrent sched cpu) cpu = some (next, rest)) (notIdle : out.pid ≠ 0)

include initialized present picked notIdle

/-- A Ready outgoing thread is not saved anywhere as itself. -/
private theorem not_switchesTo_of_ready (ready : out.state = .Ready) (registers : Registers) :
    ¬ SwitchesTo rest cpu out next registers (scheduleAndSwitch sched cpu registers) := by
  intro switches
  have dropped : requeued (account out) = [] := by simp [requeued, ready]
  have saved := switches.saved
  rw [if_neg (by simp [notIdle, ready])] at saved
  obtain ⟨own, queue, _⟩ := saved
  have lengths := congrArg List.length queue
  have shapes := scheduleAndSwitch_of_dropped initialized present picked notIdle dropped registers
  rcases shapes with ⟨empty, _⟩ | ⟨others, last, before, after⟩
  · have untouched : (scheduleAndSwitch sched cpu registers).sched.runQueues cpu = [] := by
      simp [scheduleAndSwitch, schedule_of_pickNext initialized picked, switchTo,
        outgoing_of_pickNext present picked, notIdle, dropped, empty, backIdx, setCurrent, setQueue]
    simp [untouched] at lengths
  · simp [before, after] at lengths

/-- A dead outgoing thread overwrites the Context at the back of the queue, or
keeps running when the queue is empty. -/
private theorem not_switchesTo_of_dead (dead : out.state = .Dead) :
    ∃ registers,
      ¬ SwitchesTo rest cpu out next registers (scheduleAndSwitch sched cpu registers) := by
  have dropped : requeued (account out) = [] := by simp [requeued, dead]
  have shapes := scheduleAndSwitch_of_dropped initialized present picked notIdle dropped
  rcases List.eq_nil_or_concat (rest.runQueues cpu) with empty | ⟨others, last, queue⟩
  · obtain ⟨registers, different⟩ := exists_registers_ne (dispatch next).context.toRegisters
    refine ⟨registers, fun switches => ?_⟩
    rcases shapes registers with ⟨_, kept⟩ | ⟨others, last, before, _⟩
    · exact different (kept.symm.trans switches.resumes)
    · simp [empty] at before
  · obtain ⟨registers, different⟩ := exists_registers_ne last.context.toRegisters
    refine ⟨registers, fun switches => ?_⟩
    have saved := switches.saved
    rw [if_pos (.inr dead)] at saved
    rcases shapes registers with ⟨empty, _⟩ | ⟨front, back, before, after⟩
    · simp [empty] at queue
    · rw [after, before] at saved
      rw [before, List.concat_eq_append] at queue
      obtain ⟨_, rfl⟩ : front = others ∧ back = last := by simpa using queue
      have sameThread := (List.append_inj_right saved (by rfl))
      have sameContext := congrArg context (List.singleton_inj.mp sameThread)
      exact different (congrArg Context.toRegisters sameContext)

end

/-- Whenever `schedule` replaces the current thread of a CPU, the switch saves
the registers into the outgoing thread's own Context, writes no other Context
and resumes the new current thread exactly when the outgoing thread is idle,
Running or Blocked. -/
theorem switchesTo_iff (initialized : sched.initialized = true)
    (present : sched.current cpu = some out)
    (picked : pickNext (accountCurrent sched cpu) cpu = some (next, rest)) :
    (∀ registers,
      SwitchesTo rest cpu out next registers (scheduleAndSwitch sched cpu registers)) ↔
      out.pid = 0 ∨ out.state = .Running ∨ out.state = .Blocked := by
  constructor
  · intro switches
    by_contra excluded
    push Not at excluded
    obtain ⟨notIdle, notRunning, notBlocked⟩ := excluded
    cases state : out.state with
    | Running => exact notRunning state
    | Blocked => exact notBlocked state
    | Ready =>
      exact not_switchesTo_of_ready initialized present picked notIdle state
        Context.zero.toRegisters (switches _)
    | Dead =>
      obtain ⟨registers, failing⟩ :=
        not_switchesTo_of_dead initialized present picked notIdle state
      exact failing (switches registers)
  · intro kept registers
    by_cases idle : out.pid = 0
    · exact switchesTo_of_idle initialized present picked idle registers
    · rcases kept with isIdle | running | blocked
      · exact absurd isIdle idle
      · refine switchesTo_of_requeued initialized present picked idle (by simp [running])
          { account out with state := .Ready } (by simp [requeued, running]) ?_ ?_ registers
        · simp
        · simp
      · refine switchesTo_of_requeued initialized present picked idle (by simp [blocked])
          (account out) (by simp [requeued, blocked]) ?_ ?_ registers
        · simp
        · simp

def oneRunningTwoReady (state : ThreadState) : Scheduler 1 where
  runQueues _ := [newKernel 2 0x1000 0x8000, newKernel 3 0x2000 0x9000]
  current _ := some { newKernel 1 0x3000 0xa000 with state := state }
  initialized := true

/-- A preempted Running thread is saved into its own Context. -/
theorem switchesTo_running :
    (oneRunningTwoReady .Running).current 0 =
        some { newKernel 1 0x3000 0xa000 with state := .Running } ∧
      ∀ registers, SwitchesTo
        ((accountCurrent (oneRunningTwoReady .Running) 0).setQueue 0
          [newKernel 3 0x2000 0x9000]) 0
        { newKernel 1 0x3000 0xa000 with state := .Running }
        (newKernel 2 0x1000 0x8000) registers
        (scheduleAndSwitch (oneRunningTwoReady .Running) 0 registers) :=
  ⟨rfl, (switchesTo_iff rfl rfl rfl).mpr (by decide)⟩

/-- A thread killed while it runs: its registers land in the Context of thread 3,
which is only waiting. -/
theorem killed_thread_overwrites_context :
    (oneRunningTwoReady .Dead).initialized = true ∧
      (oneRunningTwoReady .Dead).current 0 =
        some { newKernel 1 0x3000 0xa000 with state := .Dead } ∧
      pickNext (accountCurrent (oneRunningTwoReady .Dead) 0) 0 =
        some (newKernel 2 0x1000 0x8000,
          (accountCurrent (oneRunningTwoReady .Dead) 0).setQueue 0
            [newKernel 3 0x2000 0x9000]) ∧
      (scheduleAndSwitch (oneRunningTwoReady .Dead) 0 Context.zero.toRegisters).sched.runQueues 0 =
        [{ newKernel 3 0x2000 0x9000 with context := Context.zero }] ∧
      ¬ SwitchesTo
        ((accountCurrent (oneRunningTwoReady .Dead) 0).setQueue 0
          [newKernel 3 0x2000 0x9000]) 0
        { newKernel 1 0x3000 0xa000 with state := .Dead }
        (newKernel 2 0x1000 0x8000) Context.zero.toRegisters
        (scheduleAndSwitch (oneRunningTwoReady .Dead) 0 Context.zero.toRegisters) := by
  refine ⟨rfl, rfl, rfl, by decide, fun switches => ?_⟩
  have saved := switches.saved
  rw [if_pos (.inr rfl)] at saved
  exact absurd saved (by decide)

end Cyllor.Sched.Scheduler
