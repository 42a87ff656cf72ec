import Cyllor.Sched.Scheduler
import Mathlib.Algebra.BigOperators.Fin

/-!
Contract: what each section of the scheduler does to the threads it holds.

Owns:
- `Place` and `At`, the places of the table and the threads standing there;
- `pids`, the multiset of thread ids over all places;
- for every section, where a thread of the new table comes from and how its
  state changed, and the effect on `pids`.
-/

namespace Cyllor.Sched.Scheduler

variable {cpus : Nat} {queue : List Thread} {thread next after : Thread}
  {sched other : Scheduler cpus} {cpu : Fin cpus}

inductive Place (cpus : Nat) where
  | current (cpu : Fin cpus)
  | queue (cpu : Fin cpus)
deriving DecidableEq

variable {place : Place cpus}

def At (sched : Scheduler cpus) : Place cpus → Thread → Prop
  | .current cpu, thread => sched.current cpu = some thread
  | .queue cpu, thread => thread ∈ sched.runQueues cpu

/-! ### Picking the next thread -/

theorem removeAt_eq_some {rest : List Thread} {index : Nat}
    (removed : removeAt queue index = some (thread, rest)) :
    ∃ front back, queue = front ++ thread :: back ∧ rest = front ++ back ∧
      queue[index]? = some thread := by
  obtain ⟨found, lookup, pair⟩ := Option.map_eq_some_iff.mp removed
  obtain ⟨rfl, rfl⟩ := Prod.mk.inj pair
  obtain ⟨inRange, value⟩ := List.getElem?_eq_some_iff.mp lookup
  refine ⟨queue.take index, queue.drop (index + 1), ?_, ?_, lookup⟩
  · rw [← value, List.cons_getElem_drop_succ, List.take_append_drop]
  · exact List.eraseIdx_eq_take_drop_succ queue index

private theorem state_of_mem_zipIdx {entry : Thread × Nat} (member : entry ∈ queue.zipIdx) :
    queue[entry.2]? = some entry.1 := by
  obtain ⟨thread, index⟩ := entry
  exact List.mem_zipIdx_iff_getElem?.mp member

theorem minReadyIdx_ready {index : Nat} (found : minReadyIdx queue = some index) :
    ∃ thread, queue[index]? = some thread ∧ thread.state = .Ready := by
  obtain ⟨entry, least, rfl⟩ := Option.map_eq_some_iff.mp found
  have member := List.argmin_mem least
  rw [List.mem_filter] at member
  exact ⟨entry.1, state_of_mem_zipIdx member.1, by simpa using member.2⟩

theorem lastReadyIdx_ready {index : Nat} (found : lastReadyIdx queue = some index) :
    ∃ thread, queue[index]? = some thread ∧ thread.state = .Ready := by
  obtain ⟨entry, last, rfl⟩ := Option.map_eq_some_iff.mp found
  have member := List.mem_reverse.mp (List.mem_of_find?_eq_some last)
  have ready := List.find?_some last
  exact ⟨entry.1, state_of_mem_zipIdx member, by simpa using ready⟩

private theorem ready_of_removeAt {rest : List Thread} {position : Option Nat}
    (ready : ∀ index, position = some index →
      ∃ thread, queue[index]? = some thread ∧ thread.state = .Ready)
    (picked : position.bind (removeAt queue) = some (next, rest)) :
    ∃ front back, queue = front ++ next :: back ∧ rest = front ++ back ∧
      next.state = .Ready := by
  obtain ⟨index, found, removed⟩ := Option.bind_eq_some_iff.mp picked
  obtain ⟨front, back, split, remaining, lookup⟩ := removeAt_eq_some removed
  obtain ⟨thread, sameLookup, isReady⟩ := ready index found
  obtain rfl := Option.some.inj (lookup.symm.trans sameLookup)
  exact ⟨front, back, split, remaining, isReady⟩

/-- The next thread is Ready and is taken out of one run queue: the CPU's own one, or
the victim's when the own one has nothing to run. -/
theorem pickNext_source {after : Scheduler cpus}
    (picked : pickNext sched cpu = some (next, after)) :
    ∃ source front back, sched.runQueues source = front ++ next :: back ∧
      next.state = .Ready ∧ after = sched.setQueue source (front ++ back) ∧
      (source = cpu ∨ pickLocal sched cpu = none ∧ victim sched cpu = some source) := by
  rcases Option.or_eq_some_iff.mp picked with localPick | ⟨nothing, stolen⟩
  · obtain ⟨⟨thread, rest⟩, removed, pair⟩ := Option.map_eq_some_iff.mp localPick
    obtain ⟨rfl, rfl⟩ := Prod.mk.inj pair
    obtain ⟨front, back, split, rfl, ready⟩ :=
      ready_of_removeAt (fun _ => minReadyIdx_ready) removed
    exact ⟨cpu, front, back, split, ready, rfl, .inl rfl⟩
  · obtain ⟨other, isVictim, guarded⟩ := Option.bind_eq_some_iff.mp stolen
    split at guarded
    case isFalse => cases guarded
    case isTrue =>
      obtain ⟨⟨thread, rest⟩, removed, pair⟩ := Option.map_eq_some_iff.mp guarded
      obtain ⟨rfl, rfl⟩ := Prod.mk.inj pair
      obtain ⟨front, back, split, rfl, ready⟩ :=
        ready_of_removeAt (fun _ => lastReadyIdx_ready) removed
      exact ⟨other, front, back, split, ready, rfl, .inr ⟨nothing, isVictim⟩⟩

theorem current_of_pickNext {rest : Scheduler cpus}
    (picked : pickNext sched cpu = some (next, rest)) : rest.current = sched.current := by
  obtain ⟨source, front, back, -, -, rfl, -⟩ := pickNext_source picked
  rfl

/-! ### Scheduling -/

@[simp] theorem account_pid (thread : Thread) : (account thread).pid = thread.pid := by
  unfold account
  split <;> rfl

@[simp] theorem account_state (thread : Thread) : (account thread).state = thread.state := by
  unfold account
  split <;> rfl

@[simp] theorem account_context (thread : Thread) :
    (account thread).context = thread.context := by
  unfold account
  split <;> rfl

@[simp] theorem dispatch_pid (next : Thread) : (dispatch next).pid = next.pid := by
  unfold dispatch
  split <;> rfl

@[simp] theorem dispatch_state (next : Thread) : (dispatch next).state = .Running := by
  unfold dispatch
  split <;> rfl

/-- `schedule` does nothing, only accounts, or switches to the thread it picks. -/
theorem schedule_cases (sched : Scheduler cpus) (cpu : Fin cpus) :
    schedule sched cpu = ⟨sched, none, none⟩ ∨
      schedule sched cpu = ⟨accountCurrent sched cpu, none, none⟩ ∨
      ∃ next rest, pickNext (accountCurrent sched cpu) cpu = some (next, rest) ∧
        schedule sched cpu = switchTo rest cpu next := by
  unfold schedule
  split
  case isFalse => exact .inl rfl
  case isTrue =>
    refine .inr ?_
    cases picked : pickNext (accountCurrent sched cpu) cpu with
    | none => exact .inl (by simp [picked])
    | some pair => exact .inr ⟨pair.1, pair.2, rfl, by simp [picked]⟩

/-- A thread that `schedule` picks was Ready in a run queue: the CPU's own one, or the victim's
when the own one has nothing to run. -/
theorem at_of_pickNext {rest : Scheduler cpus}
    (picked : pickNext (accountCurrent sched cpu) cpu = some (next, rest)) :
    ∃ source, At sched (.queue source) next ∧ next.state = .Ready ∧
      (source = cpu ∨ pickLocal (accountCurrent sched cpu) cpu = none ∧
        victim (accountCurrent sched cpu) cpu = some source) := by
  obtain ⟨source, front, back, queue, ready, -, origin⟩ := pickNext_source picked
  have inQueue : next ∈ (accountCurrent sched cpu).runQueues source := by simp [queue]
  exact ⟨source, inQueue, ready, origin⟩

theorem outgoing_of_pickNext {out : Thread} {rest : Scheduler cpus}
    (present : sched.current cpu = some out)
    (picked : pickNext (accountCurrent sched cpu) cpu = some (next, rest)) :
    rest.current cpu = some (account out) := by
  simp [current_of_pickNext picked, accountCurrent, present]

theorem map_pid_accountCurrent (sched : Scheduler cpus) (cpu other : Fin cpus) :
    ((accountCurrent sched cpu).current other).map Thread.pid =
      (sched.current other).map Thread.pid := by
  by_cases same : other = cpu
  · subst same
    cases present : sched.current other <;> simp [accountCurrent, present]
  · simp [accountCurrent, same]

theorem at_accountCurrent (standing : At (accountCurrent sched cpu) place after) :
    ∃ before, At sched place before ∧ after.pid = before.pid ∧ after.state = before.state ∧
      after.context = before.context := by
  cases place with
  | queue other => exact ⟨after, standing, rfl, rfl, rfl⟩
  | current other =>
    by_cases same : other = cpu
    · subst same
      simp only [At, accountCurrent, Function.update_self, Option.map_eq_some_iff] at standing
      obtain ⟨before, standing, rfl⟩ := standing
      exact ⟨before, standing, account_pid before, account_state before, account_context before⟩
    · simp only [At, accountCurrent, Function.update_of_ne same] at standing
      exact ⟨after, standing, rfl, rfl, rfl⟩

/-- What goes back on the run queue for an outgoing thread that may be idle. -/
private def returned (out : Thread) : List Thread :=
  if out.pid = 0 then [] else requeued out

private theorem returned_cases (out : Thread) :
    (out.pid ≠ 0 ∧ out.state = .Running ∧ returned out = [{ out with state := .Ready }]) ∨
      (out.pid ≠ 0 ∧ out.state = .Blocked ∧ returned out = [out]) ∨
      ((out.pid = 0 ∨ out.state = .Ready ∨ out.state = .Dead) ∧ returned out = []) := by
  unfold returned requeued
  split
  case isTrue idle => simp [idle]
  case isFalse notIdle => cases state : out.state <;> simp [notIdle]

private theorem switchTo_eq (next : Thread) {out : Thread}
    (present : sched.current cpu = some out) :
    ∃ switch, switchTo sched cpu next =
      ⟨(sched.setQueue cpu (sched.runQueues cpu ++ returned out)).setCurrent cpu (dispatch next),
        some switch, if returned out = [] then some out else none⟩ := by
  simp only [switchTo, present, returned]
  split
  case isTrue =>
    have same : sched.setQueue cpu (sched.runQueues cpu ++ []) = sched := by simp [setQueue]
    rw [same]
    exact ⟨_, rfl⟩
  case isFalse => exact ⟨_, rfl⟩

/-- How a thread of the table after `schedule` relates to the table before:
unchanged in place, just picked, or just requeued. -/
inductive Moved (sched : Scheduler cpus) (cpu : Fin cpus) (place : Place cpus)
    (after : Thread) : Prop where
  | stays (before : Thread) (standing : At sched place before)
      (pid : after.pid = before.pid) (state : after.state = before.state)
  | picked (source : Fin cpus) (before : Thread) (standing : At sched (.queue source) before)
      (ready : before.state = .Ready) (here : place = .current cpu)
      (pid : after.pid = before.pid) (running : after.state = .Running)
  | requeued (before : Thread) (standing : At sched (.current cpu) before)
      (picks : pickNext (accountCurrent sched cpu) cpu ≠ none)
      (notIdle : before.pid ≠ 0) (here : place = .queue cpu) (pid : after.pid = before.pid)
      (state : before.state = .Running ∧ after.state = .Ready ∨
        before.state = .Blocked ∧ after.state = .Blocked)

theorem at_setQueue :
    At (sched.setQueue cpu queue) place thread ↔
      if place = .queue cpu then thread ∈ queue else At sched place thread := by
  cases place with
  | current other => simp [At, setQueue]
  | queue other =>
    by_cases same : other = cpu
    · subst same
      simp [At, setQueue]
    · simp [At, setQueue, same]

theorem at_setCurrent {replacement : Thread} :
    At (sched.setCurrent cpu replacement) place thread ↔
      if place = .current cpu then thread = replacement else At sched place thread := by
  cases place with
  | queue other => simp [At, setCurrent]
  | current other =>
    by_cases same : other = cpu
    · subst same
      simp [At, setCurrent, eq_comm]
    · simp [At, setCurrent, same]

theorem at_pushBack {pushed : Thread} (standing : At (sched.pushBack cpu pushed) place thread) :
    At sched place thread ∨ thread = pushed := by
  rw [pushBack, at_setQueue] at standing
  split at standing
  case isTrue here =>
    rcases List.mem_append.mp standing with old | new
    · exact .inl (here ▸ old)
    · exact .inr (List.mem_singleton.mp new)
  case isFalse => exact .inl standing

private theorem at_switchTo (standing : At (switchTo sched cpu next).sched place after) :
    At sched place after ∨ (place = .current cpu ∧ after = dispatch next) ∨
      place = .queue cpu ∧ ∃ out, sched.current cpu = some out ∧ after ∈ returned out := by
  cases present : sched.current cpu with
  | none =>
    simp only [switchTo, present] at standing
    exact .inl standing
  | some out =>
    obtain ⟨_, equation⟩ := switchTo_eq next present
    rw [equation, at_setCurrent] at standing
    split at standing
    case isTrue here => exact .inr (.inl ⟨here, standing⟩)
    case isFalse =>
      rw [at_setQueue] at standing
      split at standing
      case isFalse => exact .inl standing
      case isTrue here =>
        rcases List.mem_append.mp standing with old | new
        · exact .inl (here ▸ old)
        · exact .inr (.inr ⟨here, out, rfl, new⟩)

/-- Every thread of the table after `schedule` stayed, was picked, or was
requeued. -/
theorem at_schedule (standing : At (schedule sched cpu).sched place after) :
    Moved sched cpu place after := by
  rcases schedule_cases sched cpu with unchanged | accounted | switched
  · rw [unchanged] at standing
    exact .stays after standing rfl rfl
  · rw [accounted] at standing
    obtain ⟨before, standing, pid, state, _⟩ := at_accountCurrent standing
    exact .stays before standing pid state
  · obtain ⟨next, rest, picked, equation⟩ := switched
    have picks : pickNext (accountCurrent sched cpu) cpu ≠ none := by simp [picked]
    obtain ⟨source, front, back, split, ready, rfl, -⟩ := pickNext_source picked
    replace split : sched.runQueues source = front ++ next :: back := split
    rw [equation] at standing
    have nextStanding : At sched (.queue source) next := by
      simp [At, split]
    rcases at_switchTo standing with old | ⟨here, rfl⟩ | ⟨here, out, present, member⟩
    · rw [at_setQueue] at old
      split at old
      case isTrue here =>
        subst here
        refine .stays after ?_ rfl rfl
        rcases List.mem_append.mp old with left | right <;> simp [At, *]
      case isFalse =>
        obtain ⟨before, standing, pid, state, _⟩ := at_accountCurrent old
        exact .stays before standing pid state
    · exact .picked source next nextStanding ready here (dispatch_pid next) (dispatch_state next)
    · have outgoing : At (accountCurrent sched cpu) (.current cpu) out := present
      obtain ⟨before, wasCurrent, pid, state, _⟩ := at_accountCurrent outgoing
      rcases returned_cases out with ⟨notIdle, running, list⟩ | ⟨notIdle, blocked, list⟩ | ⟨_, list⟩
      · obtain rfl := List.mem_singleton.mp (list ▸ member)
        exact .requeued before wasCurrent picks (pid ▸ notIdle) here pid
          (.inl ⟨state ▸ running, rfl⟩)
      · obtain rfl := List.mem_singleton.mp (list ▸ member)
        exact .requeued before wasCurrent picks (pid ▸ notIdle) here pid
          (.inr ⟨state ▸ blocked, blocked⟩)
      · rw [list] at member
        cases member

/-- The thread that `schedule` discards is the outgoing one, when it is idle,
Ready or dead. -/
theorem discarded_schedule {out gone : Thread} (present : sched.current cpu = some out)
    (discarded : (schedule sched cpu).discarded = some gone) :
    gone = account out ∧ pickNext (accountCurrent sched cpu) cpu ≠ none ∧
      (out.pid = 0 ∨ out.state = .Ready ∨ out.state = .Dead) := by
  rcases schedule_cases sched cpu with unchanged | accounted | switched
  · simp [unchanged] at discarded
  · simp [accounted] at discarded
  · obtain ⟨next, rest, picked, equation⟩ := switched
    obtain ⟨_, isSwitch⟩ := switchTo_eq next (outgoing_of_pickNext present picked)
    rw [equation, isSwitch] at discarded
    rcases returned_cases (account out) with ⟨_, _, list⟩ | ⟨_, _, list⟩ | ⟨state, list⟩
    · simp [list] at discarded
    · simp [list] at discarded
    · simp only [list, if_true, Option.some.injEq] at discarded
      exact ⟨discarded.symm, by simp [picked], by simpa using state⟩

/-- The current slots after `schedule`: the same threads, or the picked one in the slot of the
CPU. -/
theorem current_schedule_cases (occupied : (sched.current cpu).isSome) :
    ((schedule sched cpu).switch = none ∧ ∀ other,
        ((schedule sched cpu).sched.current other).map Thread.pid =
          (sched.current other).map Thread.pid) ∨
      (schedule sched cpu).switch ≠ none ∧ ∃ next rest,
        pickNext (accountCurrent sched cpu) cpu = some (next, rest) ∧
        (schedule sched cpu).sched.current =
          Function.update sched.current cpu (some (dispatch next)) := by
  rcases schedule_cases sched cpu with unchanged | accounted | ⟨next, rest, picked, equation⟩
  · rw [unchanged]
    exact .inl ⟨rfl, fun _ => rfl⟩
  · rw [accounted]
    exact .inl ⟨rfl, map_pid_accountCurrent sched cpu⟩
  · obtain ⟨out, present⟩ := Option.isSome_iff_exists.mp occupied
    obtain ⟨switch, isSwitch⟩ := switchTo_eq next (outgoing_of_pickNext present picked)
    rw [equation, isSwitch]
    refine .inr ⟨nofun, next, rest, picked, ?_⟩
    simp [setCurrent, setQueue, current_of_pickNext picked, accountCurrent]

theorem isSome_current_schedule (cpu other : Fin cpus)
    (occupied : ∀ place, (sched.current place).isSome) :
    ((schedule sched cpu).sched.current other).isSome := by
  rcases current_schedule_cases (occupied cpu) with ⟨-, same⟩ | ⟨-, next, rest, -, current⟩
  · have kept := congrArg Option.isSome (same other)
    rw [Option.isSome_map, Option.isSome_map] at kept
    rw [kept]
    exact occupied other
  · rw [current, Function.update_apply]
    split
    · rfl
    · exact occupied other

/-- `schedule` changes no current slot but its own, and that only by switching. -/
theorem current_schedule {other : Fin cpus}
    (kept : other ≠ cpu ∨ (schedule sched cpu).switch = none)
    (occupied : (sched.current cpu).isSome) :
    ((schedule sched cpu).sched.current other).map Thread.pid =
      (sched.current other).map Thread.pid := by
  rcases current_schedule_cases occupied with ⟨-, same⟩ | ⟨switched, next, rest, -, current⟩
  · exact same other
  · rw [current, Function.update_of_ne (kept.resolve_right switched)]

/-! ### Thread ids over the whole table -/

def pidsOf (threads : List Thread) : Multiset Pid :=
  threads.map Thread.pid

@[simp] theorem pidsOf_nil : pidsOf [] = 0 := rfl

@[simp] theorem pidsOf_cons (thread : Thread) (threads : List Thread) :
    pidsOf (thread :: threads) = {thread.pid} + pidsOf threads := rfl

@[simp] theorem pidsOf_append (first second : List Thread) :
    pidsOf (first ++ second) = pidsOf first + pidsOf second := by
  simp [pidsOf]

/-- Ids at the two places of one CPU. -/
def slotPids (sched : Scheduler cpus) (cpu : Fin cpus) : Multiset Pid :=
  pidsOf (sched.current cpu).toList + pidsOf (sched.runQueues cpu)

/-- Ids of all threads in the table, with multiplicity. -/
def pids (sched : Scheduler cpus) : Multiset Pid :=
  ∑ cpu, slotPids sched cpu

theorem pids_eq_of_slots (same : ∀ cpu, slotPids sched cpu = slotPids other cpu) :
    pids sched = pids other :=
  Finset.sum_congr rfl fun cpu _ => same cpu

theorem pids_balance (cpu : Fin cpus) {lost gained : Multiset Pid}
    (elsewhere : ∀ different, different ≠ cpu →
      slotPids other different = slotPids sched different)
    (here : slotPids other cpu + lost = slotPids sched cpu + gained) :
    pids other + lost = pids sched + gained := by
  have splitAt (table : Scheduler cpus) : pids table =
      (∑ different ∈ Finset.univ.erase cpu, slotPids table different) + slotPids table cpu :=
    (Finset.sum_erase_add _ _ (Finset.mem_univ cpu)).symm
  have rest : ∑ different ∈ Finset.univ.erase cpu, slotPids other different =
      ∑ different ∈ Finset.univ.erase cpu, slotPids sched different :=
    Finset.sum_congr rfl fun different member =>
      elsewhere different (Finset.ne_of_mem_erase member)
  rw [splitAt other, splitAt sched, rest, add_assoc, here, add_assoc]

theorem mem_pids_iff {pid : Pid} :
    pid ∈ pids sched ↔ ∃ place thread, At sched place thread ∧ thread.pid = pid := by
  simp only [pids, Multiset.mem_sum, Finset.mem_univ, true_and, slotPids, Multiset.mem_add,
    pidsOf, Multiset.mem_coe, List.mem_map, Option.mem_toList]
  constructor
  · rintro ⟨cpu, ⟨thread, present, rfl⟩ | ⟨thread, queued, rfl⟩⟩
    · exact ⟨.current cpu, thread, present, rfl⟩
    · exact ⟨.queue cpu, thread, queued, rfl⟩
  · rintro ⟨place, thread, standing, rfl⟩
    cases place with
    | current cpu => exact ⟨cpu, .inl ⟨thread, standing, rfl⟩⟩
    | queue cpu => exact ⟨cpu, .inr ⟨thread, standing, rfl⟩⟩

/-- Ids of the thread that `schedule` let go out of scope. -/
def discardedPids (scheduled : Scheduled cpus) : Multiset Pid :=
  pidsOf scheduled.discarded.toList

theorem slotPids_eq_of_same
    (current : (other.current cpu).map Thread.pid = (sched.current cpu).map Thread.pid)
    (queue : (other.runQueues cpu).map Thread.pid = (sched.runQueues cpu).map Thread.pid) :
    slotPids other cpu = slotPids sched cpu := by
  unfold slotPids pidsOf
  rw [queue, ← Option.toList_map, ← Option.toList_map, current]

theorem pids_accountCurrent (sched : Scheduler cpus) (cpu : Fin cpus) :
    pids (accountCurrent sched cpu) = pids sched := by
  exact pids_eq_of_slots fun other =>
    slotPids_eq_of_same (map_pid_accountCurrent sched cpu other) rfl

private theorem pids_remove {source : Fin cpus} {front back : List Thread}
    (split : sched.runQueues source = front ++ next :: back) :
    pids (sched.setQueue source (front ++ back)) + {next.pid} = pids sched := by
  refine (pids_balance source ?_ ?_).trans (add_zero _)
  · intro different distinct
    simp [slotPids, setQueue, distinct]
  · simp only [slotPids, setQueue, Function.update_self, split, pidsOf_append, pidsOf_cons]
    abel

/-- The outgoing thread is requeued or discarded, never both. -/
private theorem pidsOf_returned (out : Thread) :
    pidsOf (returned out) +
      pidsOf (if returned out = [] then some out else none).toList = {out.pid} := by
  rcases returned_cases out with ⟨_, _, list⟩ | ⟨_, _, list⟩ | ⟨_, list⟩ <;> simp [list]

private theorem pids_switchTo :
    pids (switchTo sched cpu next).sched + discardedPids (switchTo sched cpu next) =
      pids sched + {next.pid} := by
  cases present : sched.current cpu with
  | none => simp [switchTo, present, discardedPids]
  | some out =>
    obtain ⟨_, equation⟩ := switchTo_eq next present
    rw [equation]
    refine pids_balance cpu ?_ ?_
    · intro different distinct
      simp [slotPids, setCurrent, setQueue, distinct]
    · have outgoing := pidsOf_returned out
      simp only [slotPids, discardedPids, setCurrent, setQueue, present,
        Function.update_self, Option.toList_some, pidsOf_cons, pidsOf_nil, pidsOf_append,
        dispatch_pid, ← outgoing]
      abel

theorem pids_schedule (sched : Scheduler cpus) (cpu : Fin cpus) :
    pids (schedule sched cpu).sched + discardedPids (schedule sched cpu) = pids sched := by
  rcases schedule_cases sched cpu with unchanged | accounted | switched
  · rw [unchanged]
    simp [discardedPids]
  · rw [accounted]
    simp [discardedPids, pids_accountCurrent]
  · obtain ⟨next, rest, picked, equation⟩ := switched
    obtain ⟨source, front, back, split, -, rfl, -⟩ := pickNext_source picked
    rw [equation, pids_switchTo, pids_remove split, pids_accountCurrent]

/-! ### Distinct ids -/

/-- No id other than that of the idle threads stands in the table twice. -/
def DistinctPids (sched : Scheduler cpus) : Prop :=
  ∀ pid, pid ≠ 0 → (pids sched).count pid ≤ 1

private theorem pids_vacate (present : sched.current cpu = some thread) :
    pids { sched with current := Function.update sched.current cpu none } + {thread.pid} =
      pids sched := by
  refine (pids_balance cpu ?_ ?_).trans (add_zero _)
  · intro different distinct
    simp [slotPids, distinct]
  · simp [slotPids, present, add_comm]

private theorem exists_without (standing : At sched place thread) :
    ∃ without : Scheduler cpus, pids without + {thread.pid} = pids sched ∧
      ∀ otherPlace other, At sched otherPlace other →
        At without otherPlace other ∨ otherPlace = place ∧ other = thread := by
  cases place with
  | current cpu =>
    refine ⟨_, pids_vacate standing, ?_⟩
    intro otherPlace other otherStanding
    cases otherPlace with
    | queue otherCpu => exact .inl otherStanding
    | current otherCpu =>
      by_cases same : otherCpu = cpu
      · subst same
        exact .inr ⟨rfl, Option.some.inj (otherStanding.symm.trans standing)⟩
      · refine .inl ?_
        simpa [At, same] using otherStanding
  | queue cpu =>
    obtain ⟨front, back, split⟩ := List.append_of_mem standing
    refine ⟨_, pids_remove split, ?_⟩
    intro otherPlace other otherStanding
    rw [at_setQueue]
    by_cases same : otherPlace = .queue cpu
    · subst same
      rw [At, split] at otherStanding
      simp only [List.mem_append, List.mem_cons, if_true] at otherStanding ⊢
      tauto
    · rw [if_neg same]
      exact .inl otherStanding

/-- With distinct ids, an id determines the thread and its place. -/
theorem DistinctPids.eq_of_at (distinct : DistinctPids sched) {otherPlace : Place cpus}
    {other : Thread} (standing : At sched place thread)
    (otherStanding : At sched otherPlace other) (samePid : other.pid = thread.pid)
    (notIdle : thread.pid ≠ 0) : otherPlace = place ∧ other = thread := by
  obtain ⟨without, balance, elsewhere⟩ := exists_without standing
  rcases elsewhere otherPlace other otherStanding with still | same
  · have remaining : other.pid ∈ pids without := mem_pids_iff.mpr ⟨_, _, still, rfl⟩
    have once := distinct thread.pid notIdle
    rw [← balance, Multiset.count_add, Multiset.count_singleton_self] at once
    rw [samePid] at remaining
    have positive := Multiset.count_pos.mpr remaining
    omega
  · exact same

end Cyllor.Sched.Scheduler
