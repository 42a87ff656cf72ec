import Cyllor.Sched.SchedulerFacts

/-!
Contract: the sections that change thread states without moving threads.

Owns:
- `Retagged`, which relates two tables holding the same threads at the same
  places up to a relation on each thread;
- that every marking and waking section is a retagging, and which states it
  changes;
- what a waking section guarantees about the thread it looks for.
-/

namespace Cyllor.Sched.Scheduler

variable {cpus : Nat} {relation : Place cpus → Thread → Thread → Prop} {old new thread : Thread}
  {place : Place cpus} {pid tid : Pid} {after sched before : Scheduler cpus} {cpu : Fin cpus}

/-- Both tables have the same shape, and the threads at each place are related. -/
structure Retagged (relation : Place cpus → Thread → Thread → Prop)
    (before after : Scheduler cpus) : Prop where
  current : ∀ cpu, Option.Rel (relation (.current cpu)) (before.current cpu) (after.current cpu)
  queues : ∀ cpu,
    List.Forall₂ (relation (.queue cpu)) (before.runQueues cpu) (after.runQueues cpu)

private theorem exists_left_of_mem {α : Type} {relation : α → α → Prop} {old new : List α}
    (related : List.Forall₂ relation old new) {value : α} (member : value ∈ new) :
    ∃ source ∈ old, relation source value := by
  induction related with
  | nil => cases member
  | cons holds _ ih =>
    rcases List.mem_cons.mp member with rfl | rest
    · exact ⟨_, List.mem_cons_self, holds⟩
    · obtain ⟨source, sourceMember, sourceHolds⟩ := ih rest
      exact ⟨source, List.mem_cons_of_mem _ sourceMember, sourceHolds⟩

namespace Retagged

section

variable (retagged : Retagged relation before after)

include retagged

theorem of_at (standing : At after place new) :
    ∃ old, At before place old ∧ relation place old new := by
  cases place with
  | queue cpu => exact exists_left_of_mem (retagged.queues cpu) standing
  | current cpu =>
    have related := retagged.current cpu
    rw [show after.current cpu = some new from standing] at related
    cases found : before.current cpu with
    | none => simp [found] at related
    | some old =>
      rw [found, Option.rel_some_some] at related
      exact ⟨old, found, related⟩

theorem to_at (standing : At before place old) :
    ∃ new, At after place new ∧ relation place old new := by
  cases place with
  | queue cpu => exact exists_left_of_mem (retagged.queues cpu).flip standing
  | current cpu =>
    have related := retagged.current cpu
    rw [show before.current cpu = some old from standing] at related
    cases found : after.current cpu with
    | none => simp [found] at related
    | some new =>
      rw [found, Option.rel_some_some] at related
      exact ⟨new, found, related⟩

theorem current_pid (keepsPid : ∀ {place old new}, relation place old new → new.pid = old.pid)
    (cpu : Fin cpus) :
    (after.current cpu).map Thread.pid = (before.current cpu).map Thread.pid := by
  have related := retagged.current cpu
  cases old : before.current cpu <;> cases new : after.current cpu <;> simp_all
  exact keepsPid related

theorem pids_eq (keepsPid : ∀ {place old new}, relation place old new → new.pid = old.pid) :
    pids after = pids before := by
  have listPids {place : Place cpus} {old new : List Thread}
      (related : List.Forall₂ (relation place) old new) :
      new.map Thread.pid = old.map Thread.pid := by
    induction related with
    | nil => rfl
    | cons holds _ ih =>
      rw [List.map_cons, List.map_cons, keepsPid holds, ih]
  exact pids_eq_of_slots fun cpu =>
    slotPids_eq_of_same (retagged.current_pid keepsPid cpu) (listPids (retagged.queues cpu))

theorem isSome_current (cpu : Fin cpus) :
    (after.current cpu).isSome = (before.current cpu).isSome := by
  have related := retagged.current cpu
  cases old : before.current cpu <;> cases new : after.current cpu <;> simp_all

end

end Retagged

/-! ### Marking -/

theorem retagged_setCurrentState (sched : Scheduler cpus) (cpu : Fin cpus)
    (state : ThreadState) :
    Retagged (fun place old new => if place = .current cpu then new = { old with state := state }
      else new = old) sched (sched.setCurrentState cpu state) where
  queues other := List.forall₂_same.mpr fun _ _ => by simp
  current other := by
    by_cases same : other = cpu
    · subst same
      cases present : sched.current other <;> simp [setCurrentState, present]
    · cases present : sched.current other <;> simp [setCurrentState, present, same]

theorem retagged_markThreadsDead (sched : Scheduler cpus) (pids : List Pid) :
    Retagged (fun _ old new => new = markDead pids old) sched (sched.markThreadsDead pids) where
  queues cpu := List.forall₂_map_right_iff.mpr (List.forall₂_same.mpr fun _ _ => rfl)
  current cpu := by
    cases present : sched.current cpu <;> simp [markThreadsDead, present]

@[simp] theorem markDead_pid (pids : List Pid) (thread : Thread) :
    (markDead pids thread).pid = thread.pid := by
  unfold markDead
  split <;> rfl

/-! ### Waking -/

/-- `new` is `old`, or the Blocked thread `pid` made Ready. -/
def Woken (pid : Pid) (old new : Thread) : Prop :=
  new = old ∨ old.pid = pid ∧ old.state = .Blocked ∧ new = { old with state := .Ready }

theorem Woken.pid_eq (woken : Woken pid old new) :
    new.pid = old.pid := by
  rcases woken with rfl | ⟨_, _, rfl⟩ <;> rfl

theorem wakeFirst_eq_some {queue after : List Thread} (found : wakeFirst pid queue = some after) :
    List.Forall₂ (Woken pid) queue after ∧
      ∃ thread ∈ after, thread.pid = pid ∧ thread.state = .Ready := by
  induction queue generalizing after with
  | nil => cases found
  | cons thread rest ih =>
    have unchanged : List.Forall₂ (Woken pid) rest rest :=
      List.forall₂_same.mpr fun _ _ => .inl rfl
    unfold wakeFirst at found
    split at found
    case isTrue matching =>
      obtain rfl := Option.some.inj found
      refine ⟨.cons (.inr ⟨matching.1, matching.2, rfl⟩) unchanged, ?_⟩
      exact ⟨_, List.mem_cons_self, matching.1, rfl⟩
    case isFalse =>
      obtain ⟨tail, foundTail, rfl⟩ := Option.map_eq_some_iff.mp found
      obtain ⟨related, woken, member, facts⟩ := ih foundTail
      exact ⟨.cons (.inl rfl) related, woken, List.mem_cons_of_mem _ member, facts⟩

theorem wakeFirst_eq_none {queue : List Thread} (missing : wakeFirst pid queue = none)
    (member : thread ∈ queue) (samePid : thread.pid = pid) : thread.state ≠ .Blocked := by
  induction queue with
  | nil => cases member
  | cons head rest ih =>
    unfold wakeFirst at missing
    split at missing
    case isTrue => cases missing
    case isFalse noMatch =>
      rcases List.mem_cons.mp member with rfl | inRest
      · exact fun blocked => noMatch ⟨samePid, blocked⟩
      · exact ih (Option.map_eq_none_iff.mp missing) inRest

/-- `new` is `old`, or a queued Blocked thread of one of the ids made Ready. -/
def WokenInQueue (pids : List Pid) (place : Place cpus) (old new : Thread) : Prop :=
  new = old ∨ (∃ cpu, place = .queue cpu) ∧ old.pid ∈ pids ∧ old.state = .Blocked ∧
    new = { old with state := .Ready }

theorem WokenInQueue.pid_eq {pids : List Pid} (woken : WokenInQueue pids place old new) :
    new.pid = old.pid := by
  rcases woken with rfl | ⟨_, _, _, rfl⟩ <;> rfl

private theorem retagged_refl (reflexive : ∀ place thread, relation place thread thread)
    (sched : Scheduler cpus) :
    Retagged relation sched sched where
  queues _ := List.forall₂_same.mpr fun _ _ => reflexive _ _
  current cpu := by
    cases present : sched.current cpu <;> simp [reflexive]

private theorem retagged_setQueue (reflexive : ∀ place thread, relation place thread thread)
    {queue : List Thread}
    (related : List.Forall₂ (relation (.queue cpu)) (sched.runQueues cpu) queue) :
    Retagged relation sched (sched.setQueue cpu queue) where
  current := (retagged_refl reflexive sched).current
  queues other := by
    by_cases same : other = cpu
    · subst same
      simpa [setQueue] using related
    · simpa [setQueue, same] using (retagged_refl reflexive sched).queues other

/-- The search of `tick` either finds no queued Blocked thread of the id, or
wakes one. -/
theorem wakeSleeper_cases (sched : Scheduler cpus) (pid : Pid) :
    (wakeSleeper sched pid = sched ∧
      ∀ cpu thread, thread ∈ sched.runQueues cpu → thread.pid = pid → thread.state ≠ .Blocked) ∨
    ∃ cpu queue, wakeFirst pid (sched.runQueues cpu) = some queue ∧
      wakeSleeper sched pid = sched.setQueue cpu queue := by
  unfold wakeSleeper
  cases search : (List.finRange cpus).findSome? fun cpu =>
      (wakeFirst pid (sched.runQueues cpu)).map (sched.setQueue cpu) with
  | none =>
    refine .inl ⟨rfl, fun cpu thread member samePid => ?_⟩
    have missing := List.findSome?_eq_none_iff.mp search cpu (List.mem_finRange cpu)
    exact wakeFirst_eq_none (Option.map_eq_none_iff.mp missing) member samePid
  | some after =>
    obtain ⟨cpu, _, found⟩ := List.exists_of_findSome?_eq_some search
    obtain ⟨queue, woken, rfl⟩ := Option.map_eq_some_iff.mp found
    exact .inr ⟨cpu, queue, woken, rfl⟩

theorem retagged_wakeSleeper (sched : Scheduler cpus) (pid : Pid) :
    Retagged (WokenInQueue [pid]) sched (wakeSleeper sched pid) := by
  have reflexive (place : Place cpus) (thread : Thread) :
      WokenInQueue [pid] place thread thread := .inl rfl
  rcases wakeSleeper_cases sched pid with ⟨unchanged, _⟩ | ⟨cpu, queue, found, equation⟩
  · rw [unchanged]
    exact retagged_refl reflexive sched
  · rw [equation]
    refine retagged_setQueue reflexive ((wakeFirst_eq_some found).1.imp ?_)
    rintro old new (rfl | ⟨samePid, blocked, rfl⟩)
    · exact .inl rfl
    · exact .inr ⟨⟨cpu, rfl⟩, by simp [samePid], blocked, rfl⟩

theorem Retagged.mono {weaker : Place cpus → Thread → Thread → Prop}
    (retagged : Retagged relation before after)
    (implies : ∀ place old new, relation place old new → weaker place old new) :
    Retagged weaker before after where
  queues cpu := (retagged.queues cpu).imp (implies _)
  current cpu := by
    have related := retagged.current cpu
    cases old : before.current cpu <;> cases new : after.current cpu <;> simp_all

theorem Retagged.trans {first second : Place cpus → Thread → Thread → Prop}
    {middle : Scheduler cpus} (left : Retagged first before middle)
    (right : Retagged second middle after) :
    Retagged (fun place old new => ∃ between, first place old between ∧ second place between new)
      before after where
  queues cpu := by
    have leftQueue := left.queues cpu
    have rightQueue := right.queues cpu
    generalize before.runQueues cpu = beforeQueue at leftQueue ⊢
    generalize middle.runQueues cpu = middleQueue at leftQueue rightQueue
    generalize after.runQueues cpu = afterQueue at rightQueue ⊢
    induction leftQueue generalizing afterQueue with
    | nil =>
      cases rightQueue
      exact .nil
    | cons holds _ ih =>
      cases rightQueue with
      | cons nextHolds rest => exact .cons ⟨_, holds, nextHolds⟩ (ih _ rest)
  current cpu := by
    have leftCurrent := left.current cpu
    have rightCurrent := right.current cpu
    cases old : before.current cpu <;> cases between : middle.current cpu <;>
      cases new : after.current cpu <;> simp_all
    exact ⟨_, leftCurrent, rightCurrent⟩

theorem retagged_wakeSleepers (sched : Scheduler cpus) (pids : List Pid) :
    Retagged (WokenInQueue pids) sched (wakeSleepers sched pids) := by
  induction pids generalizing sched with
  | nil => exact retagged_refl (fun _ _ => .inl rfl) sched
  | cons pid pids ih =>
    have composed := (retagged_wakeSleeper sched pid).trans
      (ih (wakeSleeper sched pid))
    refine composed.mono ?_
    rintro place old new ⟨between, rfl | ⟨queued, member, blocked, rfl⟩, last⟩
    · rcases last with rfl | ⟨queued, member, blocked, rfl⟩
      · exact .inl rfl
      · exact .inr ⟨queued, List.mem_cons_of_mem _ member, blocked, rfl⟩
    · rcases last with rfl | ⟨_, _, impossible, _⟩
      · refine .inr ⟨queued, ?_, blocked, rfl⟩
        exact List.mem_cons.mpr (.inl (List.mem_singleton.mp member))
      · cases impossible

theorem Retagged.distinctPids (retagged : Retagged relation before after)
    (keepsPid : ∀ {place old new}, relation place old new → new.pid = old.pid)
    (distinct : DistinctPids before) : DistinctPids after := by
  unfold DistinctPids
  rw [retagged.pids_eq keepsPid]
  exact distinct

private theorem not_blocked_wakeSleeper (distinct : DistinctPids sched)
    (queued : thread ∈ (wakeSleeper sched thread.pid).runQueues cpu) (notIdle : thread.pid ≠ 0) :
    thread.state ≠ .Blocked := by
  have distinctAfter :=
    (retagged_wakeSleeper sched thread.pid).distinctPids WokenInQueue.pid_eq distinct
  rcases wakeSleeper_cases sched thread.pid with ⟨unchanged, none⟩ | ⟨other, queue, found, equation⟩
  · rw [unchanged] at queued
    exact none cpu thread queued rfl
  · obtain ⟨_, woken, member, samePid, ready⟩ := wakeFirst_eq_some found
    have wokenStands : At (wakeSleeper sched thread.pid) (.queue other) woken := by
      rw [equation]
      simpa [At, setQueue] using member
    have threadStands : At (wakeSleeper sched thread.pid) (.queue cpu) thread := queued
    obtain ⟨_, same⟩ := distinctAfter.eq_of_at threadStands wokenStands samePid notIdle
    rw [← same, ready]
    decide

/-- After the second section of `tick` none of its ids is Blocked in a queue. -/
theorem not_blocked_wakeSleepers (distinct : DistinctPids sched) {pids : List Pid}
    (queued : thread ∈ (wakeSleepers sched pids).runQueues cpu) (member : thread.pid ∈ pids)
    (notIdle : thread.pid ≠ 0) : thread.state ≠ .Blocked := by
  induction pids generalizing sched with
  | nil => cases member
  | cons pid pids ih =>
    have distinctAfter :=
      (retagged_wakeSleeper sched pid).distinctPids WokenInQueue.pid_eq distinct
    by_cases inRest : thread.pid ∈ pids
    · exact ih distinctAfter queued inRest
    · -- the head is the thread's id: it was woken, and later searches block nobody
      obtain rfl : thread.pid = pid := by simpa [inRest] using member
      have standing : At (wakeSleepers (wakeSleeper sched thread.pid) pids) (.queue cpu) thread :=
        queued
      obtain ⟨old, oldStands, same | ⟨_, oldMember, _, same⟩⟩ :=
        (retagged_wakeSleepers _ _).of_at standing
      · subst same
        exact not_blocked_wakeSleeper distinct oldStands notIdle
      · rw [same]
        simp

/-! ### `wake_tid` -/

theorem retagged_setCurrent (reflexive : ∀ place thread, relation place thread thread)
    (present : sched.current cpu = some old) (related : relation (.current cpu) old new) :
    Retagged relation sched (sched.setCurrent cpu new) where
  queues := (retagged_refl reflexive sched).queues
  current other := by
    by_cases same : other = cpu
    · subst same
      simpa [setCurrent, present] using related
    · simpa [setCurrent, same] using (retagged_refl reflexive sched).current other

private theorem wakeOnCpu_eq_some (found : wakeOnCpu sched tid cpu = some after) :
    Retagged (fun _ => Woken tid) sched after ∧
      ∃ place thread, At after place thread ∧ thread.pid = tid ∧ thread.state = .Ready := by
  have reflexive (_ : Place cpus) (thread : Thread) : Woken tid thread thread := .inl rfl
  have inQueue (foundQueue : (wakeFirst tid (sched.runQueues cpu)).map (sched.setQueue cpu) =
      some after) : Retagged (fun _ => Woken tid) sched after ∧
      ∃ place thread, At after place thread ∧ thread.pid = tid ∧ thread.state = .Ready := by
    obtain ⟨queue, woken, rfl⟩ := Option.map_eq_some_iff.mp foundQueue
    obtain ⟨related, thread, member, samePid, ready⟩ := wakeFirst_eq_some woken
    refine ⟨retagged_setQueue reflexive related, .queue cpu, thread, ?_, samePid, ready⟩
    simpa [At, setQueue] using member
  unfold wakeOnCpu at found
  cases present : sched.current cpu with
  | none =>
    simp only [present] at found
    exact inQueue found
  | some thread =>
    simp only [present] at found
    split at found
    case isFalse => exact inQueue found
    case isTrue matching =>
      obtain rfl := Option.some.inj found
      have related : Woken tid thread { thread with state := .Ready } :=
        .inr ⟨matching.1, matching.2, rfl⟩
      refine ⟨retagged_setCurrent reflexive present related, .current cpu,
        { thread with state := .Ready }, ?_, matching.1, rfl⟩
      simp [At, setCurrent]

private theorem wakeOnCpu_eq_none (missing : wakeOnCpu sched tid cpu = none)
    (standing : At sched (.current cpu) thread ∨ At sched (.queue cpu) thread)
    (samePid : thread.pid = tid) : thread.state ≠ .Blocked := by
  unfold wakeOnCpu at missing
  have inQueue (noQueue : (wakeFirst tid (sched.runQueues cpu)).map (sched.setQueue cpu) = none)
      (queued : thread ∈ sched.runQueues cpu) : thread.state ≠ .Blocked :=
    wakeFirst_eq_none (Option.map_eq_none_iff.mp noQueue) queued samePid
  cases present : sched.current cpu with
  | none =>
    simp only [present] at missing
    rcases standing with current | queued
    · simp [At, present] at current
    · exact inQueue missing queued
  | some other =>
    simp only [present] at missing
    split at missing
    case isTrue => cases missing
    case isFalse noMatch =>
      rcases standing with current | queued
      · obtain rfl := Option.some.inj (present.symm.trans current)
        exact fun blocked => noMatch ⟨samePid, blocked⟩
      · exact inQueue missing queued

theorem retagged_wakeTid (found : wakeTid sched tid = some after) :
    Retagged (fun _ => Woken tid) sched after := by
  obtain ⟨cpu, _, foundOnCpu⟩ := List.exists_of_findSome?_eq_some found
  exact (wakeOnCpu_eq_some foundOnCpu).1

/-- When `wake_tid` finds nothing, no thread of that id is Blocked anywhere. -/
theorem not_blocked_of_wakeTid_eq_none (missing : wakeTid sched tid = none)
    (standing : At sched place thread) (samePid : thread.pid = tid) :
    thread.state ≠ .Blocked := by
  have missingOn (cpu : Fin cpus) : wakeOnCpu sched tid cpu = none :=
    List.findSome?_eq_none_iff.mp missing cpu (List.mem_finRange cpu)
  cases place with
  | current cpu => exact wakeOnCpu_eq_none (missingOn cpu) (.inl standing) samePid
  | queue cpu => exact wakeOnCpu_eq_none (missingOn cpu) (.inr standing) samePid

theorem not_blocked_of_wakeTid_eq_some (distinct : DistinctPids sched)
    (found : wakeTid sched tid = some after) (standing : At after place thread)
    (samePid : thread.pid = tid) (notIdle : tid ≠ 0) : thread.state ≠ .Blocked := by
  obtain ⟨cpu, _, foundOnCpu⟩ := List.exists_of_findSome?_eq_some found
  obtain ⟨retagged, wokenPlace, woken, wokenStands, wokenPid, ready⟩ := wakeOnCpu_eq_some foundOnCpu
  have distinctAfter := retagged.distinctPids Woken.pid_eq distinct
  obtain ⟨_, same⟩ := distinctAfter.eq_of_at wokenStands standing
    (samePid.trans wokenPid.symm) (wokenPid ▸ notIdle)
  rw [same, ready]
  decide

/-! ### Blocked ids -/

/-- A thread of that id is Blocked somewhere in the table. -/
def BlockedPid (sched : Scheduler cpus) (pid : Pid) : Prop :=
  ∃ place thread, At sched place thread ∧ thread.pid = pid ∧ thread.state = .Blocked

theorem BlockedPid.of_pushBack {pushed : Thread} (ready : pushed.state = .Ready)
    (blocked : BlockedPid (sched.pushBack cpu pushed) pid) : BlockedPid sched pid := by
  obtain ⟨place, thread, standing, samePid, isBlocked⟩ := blocked
  rcases at_pushBack standing with old | rfl
  · exact ⟨place, thread, old, samePid, isBlocked⟩
  · rw [ready] at isBlocked
    cases isBlocked

theorem BlockedPid.of_schedule (blocked : BlockedPid (schedule sched cpu).sched pid) :
    BlockedPid sched pid := by
  obtain ⟨place, thread, standing, rfl, isBlocked⟩ := blocked
  cases at_schedule standing with
  | stays before wasThere samePid state =>
    exact ⟨place, before, wasThere, samePid.symm, state ▸ isBlocked⟩
  | picked _ _ _ _ _ _ running =>
    rw [running] at isBlocked
    cases isBlocked
  | requeued before wasCurrent _ _ _ samePid state =>
    rcases state with ⟨_, nowReady⟩ | ⟨wasBlocked, _⟩
    · rw [nowReady] at isBlocked
      cases isBlocked
    · exact ⟨_, before, wasCurrent, samePid.symm, wasBlocked⟩

theorem BlockedPid.of_wakeTid (found : wakeTid sched tid = some after)
    (blocked : BlockedPid after pid) :
    BlockedPid sched pid := by
  obtain ⟨place, thread, standing, samePid, isBlocked⟩ := blocked
  obtain ⟨old, oldStands, rfl | ⟨_, _, rfl⟩⟩ := (retagged_wakeTid found).of_at standing
  · exact ⟨place, _, oldStands, samePid, isBlocked⟩
  · cases isBlocked

theorem BlockedPid.of_wakeSleepers {pids : List Pid}
    (blocked : BlockedPid (wakeSleepers sched pids) pid) : BlockedPid sched pid := by
  obtain ⟨place, thread, standing, samePid, isBlocked⟩ := blocked
  obtain ⟨old, oldStands, rfl | ⟨_, _, _, rfl⟩⟩ := (retagged_wakeSleepers sched pids).of_at standing
  · exact ⟨place, _, oldStands, samePid, isBlocked⟩
  · cases isBlocked

theorem BlockedPid.of_markCurrentBlocked {current : Thread}
    (present : sched.current cpu = some current)
    (blocked : BlockedPid (sched.markCurrentBlocked cpu) pid) :
    BlockedPid sched pid ∨ pid = current.pid := by
  obtain ⟨place, thread, standing, samePid, isBlocked⟩ := blocked
  obtain ⟨old, oldStands, related⟩ := (retagged_setCurrentState sched cpu .Blocked).of_at standing
  split at related
  case isTrue here =>
    subst here related
    obtain rfl := Option.some.inj (present.symm.trans oldStands)
    exact .inr samePid.symm
  case isFalse =>
    subst related
    exact .inl ⟨place, _, oldStands, samePid, isBlocked⟩

theorem not_blockedPid_of_wakeTid_eq_none (missing : wakeTid sched tid = none) :
    ¬ BlockedPid sched tid := by
  rintro ⟨place, thread, standing, samePid, isBlocked⟩
  exact not_blocked_of_wakeTid_eq_none missing standing samePid isBlocked

theorem not_blockedPid_of_wakeTid_eq_some (distinct : DistinctPids sched)
    (found : wakeTid sched tid = some after) (notIdle : tid ≠ 0) :
    ¬ BlockedPid after tid := by
  rintro ⟨place, thread, standing, samePid, isBlocked⟩
  exact not_blocked_of_wakeTid_eq_some distinct found standing samePid notIdle isBlocked

/-! ### Live ids -/

/-- A thread of that id stands in the table and is not dead. -/
def LivePid (sched : Scheduler cpus) (pid : Pid) : Prop :=
  ∃ place thread, At sched place thread ∧ thread.pid = pid ∧ thread.state ≠ .Dead

theorem LivePid.pushBack {pushed : Thread} (live : LivePid sched pid) :
    LivePid (sched.pushBack cpu pushed) pid := by
  obtain ⟨place, thread, standing, samePid, alive⟩ := live
  refine ⟨place, thread, ?_, samePid, alive⟩
  rw [Scheduler.pushBack, at_setQueue]
  split
  case isTrue here =>
    subst here
    exact List.mem_append_left _ standing
  case isFalse => exact standing

theorem LivePid.retagged (live : LivePid before pid) (retagged : Retagged relation before after)
    (keepsPid : ∀ {place old new}, relation place old new → new.pid = old.pid)
    (keepsAlive : ∀ {place old new}, At before place old → relation place old new →
      old.pid = pid → old.state ≠ .Dead → new.state ≠ .Dead) : LivePid after pid := by
  obtain ⟨place, thread, standing, samePid, alive⟩ := live
  obtain ⟨new, newStands, related⟩ := retagged.to_at standing
  exact ⟨place, new, newStands, (keepsPid related).trans samePid,
    keepsAlive standing related samePid alive⟩

theorem LivePid.schedule (distinct : DistinctPids sched) (notIdle : pid ≠ 0)
    (live : LivePid sched pid)
    (kept : ∀ gone, (sched.schedule cpu).discarded = some gone → gone.pid ≠ pid) :
    LivePid (sched.schedule cpu).sched pid := by
  obtain ⟨place, thread, standing, rfl, alive⟩ := live
  have balance := congrArg (Multiset.count thread.pid) (pids_schedule sched cpu)
  have notGone : (discardedPids (sched.schedule cpu)).count thread.pid = 0 := by
    rw [Multiset.count_eq_zero]
    intro member
    obtain ⟨gone, discarded, samePid⟩ := List.mem_map.mp (Multiset.mem_coe.mp member)
    exact kept gone (Option.mem_toList.mp discarded) samePid
  have present : 0 < (pids sched).count thread.pid :=
    Multiset.count_pos.mpr (mem_pids_iff.mpr ⟨place, thread, standing, rfl⟩)
  rw [Multiset.count_add, notGone, Nat.add_zero] at balance
  rw [← balance, Multiset.count_pos, mem_pids_iff] at present
  obtain ⟨newPlace, new, newStands, samePid⟩ := present
  refine ⟨newPlace, new, newStands, samePid, ?_⟩
  cases at_schedule newStands with
  | stays before wasThere beforePid state =>
    obtain ⟨_, rfl⟩ :=
      distinct.eq_of_at standing wasThere (beforePid.symm.trans samePid) notIdle
    exact state ▸ alive
  | picked _ _ _ _ _ _ running =>
    rw [running]
    decide
  | requeued _ _ _ _ _ _ state =>
    rcases state with ⟨_, ready⟩ | ⟨_, blocked⟩
    · rw [ready]
      decide
    · rw [blocked]
      decide

end Cyllor.Sched.Scheduler
