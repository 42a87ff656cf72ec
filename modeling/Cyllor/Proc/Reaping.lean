import Cyllor.Proc.Lifecycle

/-!
Contract: an exit is reported once, to the parent, with the code of the first report, however
the exits, kills and waits of the threads are interleaved.

Owns:
- that exits, records and waits keep `Lifecycle`, and so does every turn if a thread enters
  calls only once its entry was inserted;
- what follows for a whole run: each process is reaped at most once.
-/

namespace Cyllor.Proc

open Machine

variable {machine next : Machine} {actor pid : Nat}

/-! ### Exit -/

theorem Lifecycle.unrecorded (life : Lifecycle machine)
    (running : firstCode machine.log pid = none) :
    machine.exited[pid]? = none ∧ pid ∉ reaped machine.log ∧
      ∀ other parent code, machine.recording other ≠ some (pid, parent, code) := by
  have notDue : ∀ parent code, ¬ Due machine.log pid parent code := by
    intro parent code due
    have exited := due.2.1
    rw [running] at exited
    cases exited
  refine ⟨?_, ?_, ?_⟩
  · apply Option.eq_none_iff_forall_ne_some.mpr
    intro record found
    exact notDue _ _ (life.records found).1
  · intro member
    obtain ⟨event, isEvent, isTarget⟩ := List.mem_filterMap.mp member
    cases event with
    | created entry => cases isTarget
    | noted other code => cases isTarget
    | returned waiter target status options =>
      dsimp only at isTarget
      split at isTarget
      · cases isTarget
      · cases isTarget
        exact notDue _ _ (life.returns isEvent)
  · intro other parent code recording
    exact notDue _ _ (life.recordings recording).1

theorem Lifecycle.created_of_entry {process : Process} (life : Lifecycle machine)
    (listed : machine.table[pid]? = some process) :
    ∃ entry, createdAs machine.log pid = some entry ∧ entry.kin = process.kin ∧
      firstCode machine.log pid = none := by
  have fromLog := life.entries pid
  rw [listed, Option.map_some] at fromLog
  cases noted : firstCode machine.log pid with
  | some code =>
    rw [noted] at fromLog
    cases fromLog
  | none =>
    rw [noted] at fromLog
    obtain ⟨entry, created, isKin⟩ := Option.map_eq_some_iff.mp fromLog.symm
    exact ⟨entry, created, isKin, rfl⟩

theorem Lifecycle.due_of_exit (life : Lifecycle machine) (code : Int)
    (waited : (exitInfo machine.table pid).1 ≠ 0 ∧ (exitInfo machine.table pid).2 = pid) :
    firstCode machine.log pid = none ∧
      Due (machine.log ++ [.noted pid code]) pid (exitInfo machine.table pid).1 code := by
  cases listed : machine.table[pid]? with
  | none =>
    rw [exitInfo_of_none (by rw [listed]; rfl)] at waited
    exact absurd rfl waited.1
  | some process =>
    obtain ⟨entry, created, isKin, running⟩ := life.created_of_entry listed
    rw [exitInfo_of_kin (by rw [listed, Option.map_some, ← isKin])] at waited ⊢
    refine ⟨running, waited.1, ?_, entry, ?_, waited.2, rfl⟩
    · rw [firstCode_noted, running, if_pos rfl, Option.none_or]
    · rw [createdAs_noted, created]

theorem Lifecycle.exitInfo_of_due {parent : Nat} {code code' : Int} (life : Lifecycle machine)
    (running : firstCode machine.log pid = none)
    (due : Due (machine.log ++ [.noted pid code]) pid parent code') :
    code' = code ∧ exitInfo machine.table pid = (parent, pid) := by
  obtain ⟨-, exited, entry, created, isLeader, isParent⟩ := due
  rw [firstCode_noted, running, if_pos rfl, Option.none_or] at exited
  rw [createdAs_noted] at created
  have listed := life.entries pid
  rw [running, created] at listed
  refine ⟨(Option.some.inj exited).symm, ?_⟩
  rw [exitInfo_of_kin listed]
  show (entry.ppid, entry.tgid) = (parent, pid)
  rw [isLeader, isParent]

theorem of_recording_record {info : Nat × Nat} {code : Int} {rest marks : List Nat} {stops : Bool}
    {record : Nat × Nat × Int}
    (recording :
      (some (Op.record pid info code rest marks stops)).bind Op.recording = some record) :
    record = (pid, info.1, code) ∧ info.1 ≠ 0 ∧ info.2 = pid := by
  rw [Option.bind_some, Op.recording] at recording
  split at recording
  case isTrue waited => exact ⟨(Option.some.inj recording).symm, waited⟩
  case isFalse => cases recording

theorem Lifecycle.note {rest : List Nat} (code : Int) (marks : List Nat)
    (stops : Bool) (life : Lifecycle machine) (leaving : machine.leaving actor = pid :: rest)
    (idle : machine.recording actor = none) :
    Lifecycle ({ machine with
      table := dropEntry machine.table pid
      log := machine.log ++ [Event.noted pid code] }.setOp actor
        (some (.record pid (exitInfo machine.table pid) code rest marks stops))) := by
  have settled : ∀ {other}, other ∈ pid :: rest → machine.Settled other := by
    intro other member
    rw [← leaving] at member
    exact life.leaves member
  -- nobody else is about to record a process that exits only now
  have recordsNow {child parent : Nat} {code' : Int}
      (now : (some (Op.record pid (exitInfo machine.table pid) code rest marks stops)).bind
        Op.recording = some (child, parent, code')) :
      Due (machine.log ++ [.noted pid code]) child parent code' ∧
        (machine.exited[child]? = none ∧ child ∉ reaped machine.log) ∧
        ∀ other parent code, machine.recording other ≠ some (child, parent, code) := by
    obtain ⟨isRecord, waited⟩ := of_recording_record now
    cases isRecord
    obtain ⟨running, due⟩ := life.due_of_exit code waited
    exact ⟨due, and_assoc.mpr (life.unrecorded running)⟩
  constructor
  case makes =>
    intro other entry making
    have before := (bind_setOp_of_none rfl making).2
    obtain ⟨below, notCreated, notNoted⟩ := life.makes before
    have apart : pid ≠ entry.pid := Ne.symm ((settled List.mem_cons_self).2 other entry before)
    dsimp only [Machine.setOp]
    rw [createdAs_noted, notCreated, firstCode_noted, notNoted, if_neg apart]
    exact ⟨below, rfl, rfl⟩
  case apart =>
    intro first second entry₁ entry₂ isFirst isSecond same
    exact life.apart (bind_setOp_of_none rfl isFirst).2
      (bind_setOp_of_none rfl isSecond).2 same
  case below =>
    intro other entry created
    dsimp only [Machine.setOp] at created
    rw [createdAs_noted] at created
    exact life.below created
  case exitsBelow =>
    intro other code' noted
    dsimp only [Machine.setOp] at noted
    rw [firstCode_noted] at noted
    by_cases isPid : pid = other
    · rw [← isPid]
      exact (settled List.mem_cons_self).1
    · rw [if_neg isPid, Option.or_none] at noted
      exact life.exitsBelow noted
  case entries =>
    intro other
    show ((dropEntry machine.table pid)[other]?).map Process.kin =
      if (firstCode (machine.log ++ [Event.noted pid code]) other).isSome then none
      else (createdAs (machine.log ++ [Event.noted pid code]) other).map Process.kin
    rw [kin_dropEntry, firstCode_noted, createdAs_noted]
    by_cases isPid : pid = other
    · rw [if_pos isPid, if_pos isPid, if_pos]
      cases firstCode machine.log other <;> rfl
    · rw [if_neg isPid, if_neg isPid, Option.or_none]
      exact life.entries other
  case leaves =>
    intro other left member
    refine settled_setOp rfl ?_
    rcases mem_leaving_setOp member with now | before
    · exact settled (List.mem_cons_of_mem _ now)
    · exact life.leaves before
  case records =>
    intro other parent code' found
    obtain ⟨due, notReaped⟩ := life.records found
    dsimp only [Machine.setOp]
    rw [reaped_noted]
    exact ⟨due.noted pid code, notReaped⟩
  case recordings =>
    intro other child parent code' recording
    dsimp only [Machine.setOp]
    rw [reaped_noted]
    rcases bind_setOp_cases recording with ⟨-, now⟩ | ⟨-, before⟩
    · exact ⟨(recordsNow now).1, (recordsNow now).2.1⟩
    · obtain ⟨due, notFound, notReaped⟩ := life.recordings before
      exact ⟨due.noted pid code, notFound, notReaped⟩
  case single =>
    intro first second child parent parent' code₁ code₂ isFirst isSecond
    rcases bind_setOp_cases isFirst with ⟨first_eq, now⟩ | ⟨-, firstBefore⟩
    · rcases bind_setOp_cases isSecond with ⟨second_eq, -⟩ | ⟨-, secondBefore⟩
      · rw [first_eq, second_eq]
      · exact absurd secondBefore ((recordsNow now).2.2 _ _ _)
    · rcases bind_setOp_cases isSecond with ⟨-, now⟩ | ⟨-, secondBefore⟩
      · exact absurd firstBefore ((recordsNow now).2.2 _ _ _)
      · exact life.single firstBefore secondBefore
  case takes =>
    intro other target taking
    exact life.takes (bind_setOp_of_none rfl taking).2
  case returns =>
    intro waiter target status options member
    rcases List.mem_append.mp member with old | new
    · exact (life.returns old).noted pid code
    · cases List.mem_singleton.mp new
  case once =>
    dsimp only [Machine.setOp]
    rw [reaped_noted]
    exact life.once
  case settles =>
    intro child parent code' due
    change Due (machine.log ++ [Event.noted pid code]) child parent code' at due
    show _ ∨ child ∈ reaped (machine.log ++ [Event.noted pid code]) ∨ _
    rw [reaped_noted]
    by_cases first : pid = child ∧ firstCode machine.log child = none
    · -- the first report: this thread is about to record it
      obtain ⟨rfl, running⟩ := first
      obtain ⟨rfl, isInfo⟩ := life.exitInfo_of_due running due
      refine .inr (.inr ⟨actor, ?_⟩)
      rw [recording_setOp, if_pos rfl, Option.bind_some, Op.recording, isInfo,
        if_pos ⟨due.1, rfl⟩]
    · have before : Due machine.log child parent code' := by
        obtain ⟨hasParent, exited, entry, created, isLeader, isParent⟩ := due
        rw [createdAs_noted] at created
        refine ⟨hasParent, ?_, entry, created, isLeader, isParent⟩
        rw [firstCode_noted] at exited
        cases noted : firstCode machine.log child with
        | none =>
          have notPid : pid ≠ child := fun isPid => first ⟨isPid, noted⟩
          rw [noted, if_neg notPid] at exited
          cases exited
        | some earlier =>
          rwa [noted, Option.some_or] at exited
      apply (life.settles before).imp_right
      apply Or.imp_right
      intro ⟨other, recording⟩
      exact ⟨other, recording_setOp_of_idle idle recording _⟩

/-- A thread records the exit that it has reported, if the process is a leader with a parent,
and goes on with the processes that are left. -/
theorem Lifecycle.record {info : Nat × Nat} {code : Int} {rest marks : List Nat} {stops : Bool}
    (life : Lifecycle machine)
    (inCall : machine.ops actor = some (.record pid info code rest marks stops)) :
    Lifecycle ({ machine with exited := recordExit machine.exited pid info code }.setOp actor
      (some (.exits rest code marks stops))) := by
  have leaving : machine.leaving actor = rest := by
    rw [Machine.leaving, inCall]
    rfl
  have isRecording : machine.recording actor =
      if info.1 ≠ 0 ∧ info.2 = pid then some (pid, info.1, code) else none := by
    rw [Machine.recording, inCall]
    rfl
  by_cases waited : info.1 ≠ 0 ∧ info.2 = pid
  case neg =>
    rw [if_neg waited] at isRecording
    rw [recordExit, if_neg waited]
    exact life.goOn isRecording rfl (fun left member => life.leaves (leaving ▸ member)) rfl rfl
  case pos =>
  rw [if_pos waited] at isRecording
  rw [recordExit, if_pos waited]
  obtain ⟨isDue, notFound, notReaped⟩ := life.recordings isRecording
  have elsewhere {key : Nat} {record : Nat × Int} (found : machine.exited[key]? = some record) :
      pid ≠ key := by
    rintro rfl
    cases notFound.symm.trans found
  have lookup : ∀ key : Nat, (machine.exited.insert pid (info.1, code))[key]? =
      if pid = key then some (info.1, code) else machine.exited[key]? := by
    intro key
    rw [Std.ExtTreeMap.getElem?_insert]
    simp
  constructor
  case makes => exact fun making => life.makes (bind_setOp_of_none rfl making).2
  case apart =>
    exact fun first second => life.apart (bind_setOp_of_none rfl first).2
      (bind_setOp_of_none rfl second).2
  case below => exact life.below
  case exitsBelow => exact life.exitsBelow
  case entries => exact life.entries
  case leaves =>
    intro other left member
    refine settled_setOp rfl ?_
    rcases mem_leaving_setOp member with now | before
    · exact life.leaves (leaving ▸ now)
    · exact life.leaves before
  case records =>
    intro child parent code' found
    change (machine.exited.insert pid (info.1, code))[child]? = some (parent, code') at found
    rw [lookup] at found
    by_cases isPid : pid = child
    · rw [if_pos isPid] at found
      cases found
      rw [← isPid]
      exact ⟨isDue, notReaped⟩
    · rw [if_neg isPid] at found
      exact life.records found
  case recordings =>
    intro other child parent code' recording
    obtain ⟨notActor, before⟩ := bind_setOp_of_none rfl recording
    obtain ⟨due, missing, notTaken⟩ := life.recordings before
    have notPid : pid ≠ child := by
      intro isPid
      rw [← isPid] at before
      exact notActor (life.single before isRecording)
    refine ⟨due, ?_, notTaken⟩
    show (machine.exited.insert pid (info.1, code))[child]? = none
    rw [lookup, if_neg notPid, missing]
  case single =>
    intro first second child parent parent' code₁ code₂ isFirst isSecond
    exact life.single (bind_setOp_of_none rfl isFirst).2
      (bind_setOp_of_none rfl isSecond).2
  case takes =>
    intro other target taking
    obtain ⟨status, found⟩ := life.takes (bind_setOp_of_none rfl taking).2
    refine ⟨status, ?_⟩
    show (machine.exited.insert pid (info.1, code))[target]? = some (other, status)
    rw [lookup, if_neg (elsewhere found), found]
  case returns => exact life.returns
  case once => exact life.once
  case settles =>
    intro child parent code' due
    show (machine.exited.insert pid (info.1, code))[child]? = some (parent, code') ∨ _
    rw [lookup]
    rcases life.settles due with found | taken | ⟨other, recording⟩
    · rw [if_neg (elsewhere found)]
      exact .inl found
    · exact .inr (.inl taken)
    · by_cases isActor : other = actor
      · rw [isActor, isRecording] at recording
        cases recording
        rw [if_pos rfl]
        exact .inl rfl
      · refine .inr (.inr ⟨other, ?_⟩)
        rw [recording_setOp, if_neg isActor]
        exact recording

/-! ### Wait -/

theorem findRecord_eq_some {exited : Records} {parent target : Nat} {pid : Int}
    (found : Machine.findRecord exited parent pid = some target) :
    ∃ code, exited[target]? = some (parent, code) := by
  unfold Machine.findRecord at found
  split at found
  · split at found
    · rename_i record isRecord
      split at found
      · rename_i isParent
        cases found
        exact ⟨record.2, by rw [isRecord, ← isParent]⟩
      · cases found
    · cases found
  · obtain ⟨entry, isEntry, isTarget⟩ := Option.map_eq_some_iff.mp found
    have isParent : entry.2.1 = parent := by simpa using List.find?_some isEntry
    have member := List.mem_of_find?_eq_some isEntry
    rw [← isTarget, ← isParent]
    exact ⟨entry.2.2, Std.ExtTreeMap.mem_toList_iff_getElem?_eq_some.mp member⟩

/-- A wait returns the record that it has found, and takes it without `WNOWAIT`. -/
theorem Lifecycle.take {target : Nat} {status : Int} (options : Nat)
    (life : Lifecycle machine) (found : machine.exited[target]? = some (actor, status))
    (free : ∀ other, machine.taking other ≠ some target) :
    Lifecycle { machine with
      exited := if options &&& WNOWAIT ≠ 0 then machine.exited else machine.exited.erase target
      log := machine.log ++ [Event.returned actor target status options] } := by
  obtain ⟨isDue, notReaped⟩ := life.records found
  have lookup : ∀ key : Nat,
      (if options &&& WNOWAIT ≠ 0 then machine.exited else machine.exited.erase target)[key]? =
        if options &&& WNOWAIT = 0 ∧ target = key then none else machine.exited[key]? := by
    intro key
    by_cases keeps : options &&& WNOWAIT ≠ 0
    · rw [if_pos keeps, if_neg fun taken => keeps taken.1]
    · rw [if_neg keeps, Std.ExtTreeMap.getElem?_erase]
      simp [not_not.mp keeps]
  have taken : ∀ child, child ∈ reaped (machine.log ++
      [Event.returned actor target status options]) ↔
      child ∈ reaped machine.log ∨ (options &&& WNOWAIT = 0 ∧ target = child) := by
    intro child
    rw [reaped_returned, List.mem_append]
    by_cases keeps : options &&& WNOWAIT ≠ 0
    · simp [keeps]
    · simp [not_not.mp keeps, eq_comm]
  constructor
  case makes =>
    intro other entry making
    dsimp only
    rw [createdAs_returned, firstCode_returned]
    exact life.makes making
  case apart => exact life.apart
  case below =>
    intro pid entry created
    dsimp only at created
    rw [createdAs_returned] at created
    exact life.below created
  case exitsBelow =>
    intro pid code noted
    dsimp only at noted
    rw [firstCode_returned] at noted
    exact life.exitsBelow noted
  case entries =>
    intro pid
    dsimp only
    rw [createdAs_returned, firstCode_returned]
    exact life.entries pid
  case leaves => exact life.leaves
  case records =>
    intro child parent code isRecord
    dsimp only at isRecord
    rw [lookup] at isRecord
    split at isRecord
    · cases isRecord
    · rename_i notTaken
      obtain ⟨due, notBefore⟩ := life.records isRecord
      refine ⟨due_returned.mpr due, ?_⟩
      intro member
      exact ((taken child).mp member).elim notBefore notTaken
  case recordings =>
    intro other child parent code recording
    obtain ⟨due, missing, notBefore⟩ := life.recordings recording
    refine ⟨due_returned.mpr due, ?_, ?_⟩
    · dsimp only
      rw [lookup, missing, ite_self]
    · intro member
      rcases (taken child).mp member with before | ⟨-, isTarget⟩
      · exact notBefore before
      · rw [← isTarget, found] at missing
        cases missing
  case single => exact life.single
  case takes =>
    intro other child taking
    obtain ⟨code, isRecord⟩ := life.takes taking
    have notTarget : target ≠ child := by
      rintro rfl
      exact free other taking
    refine ⟨code, ?_⟩
    dsimp only
    rw [lookup, if_neg fun gone => notTarget gone.2, isRecord]
  case returns =>
    intro waiter child code flags member
    apply due_returned.mpr
    rcases List.mem_append.mp member with old | new
    · exact life.returns old
    · cases List.mem_singleton.mp new
      exact isDue
  case once =>
    dsimp only
    rw [reaped_returned]
    apply List.Nodup.append life.once
    · split
      · exact List.nodup_nil
      · exact List.nodup_singleton _
    · intro child before now
      split at now
      · cases now
      · rw [List.mem_singleton.mp now] at before
        exact notReaped before
  case settles =>
    intro child parent code due
    rcases life.settles (due_returned.mp due) with isRecord | before | recorded
    · by_cases gone : options &&& WNOWAIT = 0 ∧ target = child
      · exact .inr (.inl ((taken child).mpr (.inr gone)))
      · refine .inl ?_
        dsimp only
        rw [lookup, if_neg gone, isRecord]
    · exact .inr (.inl ((taken child).mpr (.inl before)))
    · exact .inr (.inr recorded)

/-! ### Every turn -/

/-- A thread that enters a call is the boot thread, or its entry was inserted before. -/
def EntryFirst (machine : Machine) : Turn → Prop
  | .call actor _ => actor = 0 ∨ (createdAs machine.log actor).isSome
  | .go _ => True

instance (machine : Machine) (turn : Turn) : Decidable (EntryFirst machine turn) := by
  cases turn <;> unfold EntryFirst <;> infer_instance

/-- A process that was created is settled: its number is not given out again. -/
theorem Lifecycle.settled_of_created (life : Lifecycle machine)
    (created : (createdAs machine.log pid).isSome) : machine.Settled pid := by
  obtain ⟨made, isMade⟩ := Option.isSome_iff_exists.mp created
  refine ⟨life.below isMade, ?_⟩
  intro other entry making isPid
  have notCreated := (life.makes making).2.1
  rw [isPid, isMade] at notCreated
  cases notCreated

theorem Lifecycle.settled_of_member {tgid : Nat} (life : Lifecycle machine)
    (member : pid ∈ members machine.table tgid) : machine.Settled pid := by
  obtain ⟨key, process, listed, -, isPid⟩ := mem_members.mp member
  obtain ⟨entry, created, isKin, -⟩ := life.created_of_entry listed
  have isKey : pid = key := by
    rw [← isPid, ← pid_of_createdAs created]
    exact (congrArg Prod.fst isKin).symm
  apply life.settled_of_created
  rw [isKey, created]
  rfl

theorem Lifecycle.enter (call : ProcCall) (life : Lifecycle machine)
    (idle : machine.ops actor = none)
    (settled : machine.Settled actor) : Lifecycle (machine.enter actor call) := by
  have onlyActor : ∀ pid ∈ [actor], machine.Settled pid := by
    intro pid member
    rw [List.mem_singleton.mp member]
    exact settled
  have noRecord : machine.recording actor = none := by rw [Machine.recording, idle]; rfl
  cases call with
  | spawn => exact life.begin idle rfl rfl rfl rfl rfl
  | clone flags ptid room =>
    rw [Machine.enter]
    split
    · exact life
    · split
      · exact life.skipPid
      · exact life.begin idle rfl rfl rfl rfl rfl
  | exit code => exact life.goOn noRecord rfl onlyActor rfl rfl
  | exitGroup code => exact life.goOn noRecord rfl (List.forall_mem_nil _) rfl rfl
  | killGroup tgid sig =>
    rw [Machine.enter]
    split
    · exact life
    · exact life.goOn noRecord rfl (List.forall_mem_nil _) rfl rfl
  | killThread tid sig =>
    rw [Machine.enter]
    split
    · exact life
    · rename_i accepted
      apply life.goOn noRecord rfl _ rfl rfl
      intro pid member
      rw [List.mem_singleton.mp member]
      obtain ⟨process, listed⟩ := Option.ne_none_iff_exists'.mp
        fun missing => accepted (.inl (Option.isNone_iff_eq_none.mpr missing))
      obtain ⟨entry, created, -⟩ := life.created_of_entry listed
      exact life.settled_of_created (created ▸ rfl)
  | signal sig =>
    rw [Machine.enter]
    split
    · exact life.goOn noRecord rfl onlyActor rfl rfl
    · exact life
  | wait pid options => exact life.goOn noRecord rfl (List.forall_mem_nil _) rfl rfl

theorem Machine.setOp_setOp (first second : Option Op) :
    (machine.setOp actor first).setOp actor second = machine.setOp actor second := by
  unfold Machine.setOp
  simp only [Function.update_idem]

theorem Lifecycle.advance {op : Op} (life : Lifecycle machine)
    (inCall : machine.ops actor = some op) : Lifecycle (machine.advance actor op) := by
  have isMaking : machine.making actor = op.making := by rw [Machine.making, inCall]; rfl
  have isLeaving : machine.leaving actor = op.leaving := by rw [Machine.leaving, inCall]; rfl
  have isRecording : machine.recording actor = op.recording := by
    rw [Machine.recording, inCall]; rfl
  have isTaking : machine.taking actor = op.taking := by rw [Machine.taking, inCall]; rfl
  cases op with
  | spawnInsert entry =>
    have inserted := life.inserted 0 isMaking isRecording
    have queueing := @Lifecycle.goOn _ actor (some (.spawnQueue entry.pid)) inserted
      (by rw [recording_setOp, if_pos rfl]; rfl) rfl (List.forall_mem_nil _) rfl rfl
    rw [setOp_setOp] at queueing
    exact queueing
  | spawnQueue pid =>
    exact (life.schedule _ machine.dead).goOn isRecording rfl (List.forall_mem_nil _) rfl rfl
  | cloneQueue entry flags =>
    apply (life.schedule _ machine.dead).setOp
    · intro entry' making
      exact .inl (isMaking.trans making)
    · intro pid member
      cases member
    · exact isRecording
    · rfl
    · intro target taking
      cases taking
  | cloneInsert entry flags => exact life.inserted flags isMaking isRecording
  | groupExit tgid code marks stops =>
    exact life.goOn isRecording rfl (fun pid member => life.settled_of_member member) rfl rfl
  | exits pids code marks stops =>
    cases pids with
    | nil =>
      have marked := life.schedule machine.queued
        fun pid => machine.dead pid || marks.contains pid
      cases stops with
      | false => exact marked.goOn isRecording rfl (List.forall_mem_nil _) rfl rfl
      | true => exact marked.goOn isRecording rfl (List.forall_mem_nil _) rfl rfl
    | cons pid rest => exact life.note code marks stops isLeaving isRecording
  | record pid info code rest marks stops => exact life.record inCall
  | waitLook pid options =>
    rw [Machine.advance]
    split
    · rename_i target found
      apply life.setOp
      · intro entry making
        cases making
      · intro left member
        cases member
      · exact isRecording
      · rfl
      · intro child taking
        cases taking
        exact findRecord_eq_some found
    · exact life.goOn isRecording rfl (List.forall_mem_nil _) rfl rfl
  | waitTake target pid options =>
    obtain ⟨status, found⟩ := life.takes isTaking
    have ended : Lifecycle (machine.setOp actor none) :=
      life.goOn isRecording rfl (List.forall_mem_nil _) rfl rfl
    rw [Machine.advance]
    rw [found]
    apply ended.take options found
    -- a record has one parent, so nobody else is about to take this one
    intro other taking
    obtain ⟨notActor, before⟩ := bind_setOp_of_none rfl taking
    obtain ⟨code, isRecord⟩ := life.takes before
    cases found.symm.trans isRecord
    exact notActor rfl
  | waitLive pid options =>
    rw [Machine.advance]
    split
    · split <;> exact life.goOn isRecording rfl (List.forall_mem_nil _) rfl rfl
    · exact life.goOn isRecording rfl (List.forall_mem_nil _) rfl rfl
  | waitRecheck pid options =>
    rw [Machine.advance]
    split
    · exact life.goOn isRecording rfl (List.forall_mem_nil _) rfl rfl
    · exact life.goOn isRecording rfl (List.forall_mem_nil _) rfl rfl
  | stopped => exact life

/-! ### Whole runs -/

theorem Machine.Settled.begin {op : Op} {entry : Process} (settled : machine.Settled pid)
    (isNext : entry.pid = machine.nextPid) (making : op.making = some entry) :
    ({ machine with nextPid := machine.nextPid + 1 }.setOp actor (some op)).Settled pid := by
  refine ⟨Nat.lt_succ_of_lt settled.1, ?_⟩
  intro other entry' making'
  rcases bind_setOp_cases making' with ⟨-, now⟩ | ⟨-, before⟩
  · rw [Option.bind_some, making] at now
    rw [← Option.some.inj now, isNext]
    exact Nat.ne_of_gt settled.1
  · exact settled.2 other entry' before

theorem Machine.Settled.enter (call : ProcCall) (settled : machine.Settled pid) :
    (machine.enter actor call).Settled pid := by
  cases call with
  | spawn => exact settled.begin rfl rfl
  | clone flags ptid room =>
    rw [Machine.enter]
    split
    · exact settled
    · split
      · exact ⟨Nat.lt_succ_of_lt settled.1, settled.2⟩
      · exact settled.begin rfl rfl
  | exit code => exact settled_setOp rfl settled
  | exitGroup code => exact settled_setOp rfl settled
  | killGroup tgid sig =>
    rw [Machine.enter]
    split
    · exact settled
    · exact settled_setOp rfl settled
  | killThread tid sig =>
    rw [Machine.enter]
    split
    · exact settled
    · exact settled_setOp rfl settled
  | signal sig =>
    rw [Machine.enter]
    split
    · exact settled_setOp rfl settled
    · exact settled
  | wait target options => exact settled_setOp rfl settled

theorem Machine.making_advance {op : Op} (inCall : machine.ops actor = some op) {other : Nat}
    {entry : Process} (making : (machine.advance actor op).making other = some entry) :
    machine.making other = some entry := by
  have isMaking : machine.making actor = op.making := by rw [Machine.making, inCall]; rfl
  have fromSetOp : ∀ {base : Machine} {after : Option Op}, base.ops = machine.ops →
      (after.bind Op.making = none ∨ after.bind Op.making = op.making) →
      (base.setOp actor after).making other = some entry →
      machine.making other = some entry := by
    intro base after sameOps kept making
    rcases bind_setOp_cases making with ⟨rfl, now⟩ | ⟨-, before⟩
    · rcases kept with none | same
      · cases none.symm.trans now
      · rw [isMaking, ← same, now]
    · rwa [sameOps] at before
  cases op with
  | spawnInsert made => exact fromSetOp rfl (.inl rfl) making
  | spawnQueue child => exact fromSetOp rfl (.inl rfl) making
  | cloneQueue made flags => exact fromSetOp rfl (.inr rfl) making
  | cloneInsert made flags => exact fromSetOp rfl (.inl rfl) making
  | groupExit tgid code marks stops => exact fromSetOp rfl (.inl rfl) making
  | exits pids code marks stops =>
    cases pids with
    | nil =>
      rw [Machine.advance] at making
      exact fromSetOp rfl (.inl (by cases stops <;> rfl)) making
    | cons left rest => exact fromSetOp rfl (.inl rfl) making
  | record left info code rest marks stops => exact fromSetOp rfl (.inl rfl) making
  | waitLook target options =>
    rw [Machine.advance] at making
    split at making <;> exact fromSetOp rfl (.inl rfl) making
  | waitTake target left options => exact fromSetOp rfl (.inl rfl) making
  | waitLive target options =>
    rw [Machine.advance] at making
    split at making
    · exact fromSetOp rfl (.inl (by split <;> rfl)) making
    · exact fromSetOp rfl (.inl rfl) making
  | waitRecheck target options =>
    rw [Machine.advance] at making
    split at making <;> exact fromSetOp rfl (.inl rfl) making
  | stopped => exact making

theorem Machine.nextPid_advance (op : Op) :
    (machine.advance actor op).nextPid = machine.nextPid := by
  unfold Machine.advance
  split <;> first | rfl | (split <;> rfl)

theorem Machine.Settled.step {turn : Turn} (settled : machine.Settled pid)
    (stepped : machine.step turn = some next) : next.Settled pid := by
  cases turn with
  | call caller call =>
    rw [Machine.step] at stepped
    split at stepped
    · cases stepped
      exact settled.enter call
    · cases stepped
  | go caller =>
    obtain ⟨op, inCall, rfl⟩ := Option.map_eq_some_iff.mp stepped
    refine ⟨?_, fun other entry making => settled.2 other entry ?_⟩
    · rw [nextPid_advance]
      exact settled.1
    · exact Machine.making_advance inCall making

/-- One turn keeps the life cycles, if the thread's entry was inserted before it runs. -/
theorem Lifecycle.step {turn : Turn} (life : Lifecycle machine) (boot : machine.Settled 0)
    (entryFirst : EntryFirst machine turn) (stepped : machine.step turn = some next) :
    Lifecycle next := by
  cases turn with
  | call caller call =>
    rw [Machine.step] at stepped
    split at stepped
    · rename_i enabled
      cases stepped
      apply life.enter call enabled.2
      rcases entryFirst with isBoot | created
      · rw [isBoot]
        exact boot
      · exact life.settled_of_created created
    · cases stepped
  | go caller =>
    obtain ⟨op, inCall, rfl⟩ := Option.map_eq_some_iff.mp stepped
    exact life.advance inCall

def Op.waitOptions : Op → Option Nat
  | .waitLook _ options => some options
  | .waitTake _ _ options => some options
  | .waitLive _ options => some options
  | .waitRecheck _ options => some options
  | _ => none

/-- No section of a wait with `WNOWAIT` changes the records. -/
theorem exited_advance_of_waitNoWait (machine : Machine) (actor : Nat) {op : Op} {options : Nat}
    (isWait : op.waitOptions = some options) (keeps : options &&& WNOWAIT ≠ 0) :
    (machine.advance actor op).exited = machine.exited := by
  cases op with
  | waitLook pid flags =>
    rw [Machine.advance]
    split <;> rfl
  | waitTake target pid flags =>
    cases isWait
    exact if_pos keeps
  | waitLive pid flags =>
    rw [Machine.advance]
    split <;> rfl
  | waitRecheck pid flags =>
    rw [Machine.advance]
    split <;> rfl
  | _ => cases isWait

section

variable {trace : List Turn} {final : Machine}
  (entryFirst : LabelledRun.Guarded Machine.step EntryFirst Machine.boot trace)
  (reached : Machine.boot.run trace = some final)

include entryFirst reached

/-- In every run in which each process has its entry before it runs, the tables agree with
the log throughout. -/
theorem lifecycle_of_run : Lifecycle final := by
  have both : Lifecycle final ∧ final.Settled 0 :=
    LabelledRun.invariant_of_guarded (fun machine => Lifecycle machine ∧ machine.Settled 0)
      (fun holds guard stepped => ⟨holds.1.step holds.2 guard stepped, holds.2.step stepped⟩)
      ⟨lifecycle_boot, Nat.zero_lt_one, fun other entry making => by cases making⟩
      entryFirst reached
  exact both.1

/-- In every run of creations, exits, kills and waits in which each process has its entry
before it runs: no process is reaped twice; a wait returns a thread-group leader to its
parent only, with the code of the first report of its exit; a wait with `WNOWAIT` leaves the
records as they are; and no process has both a record and an entry. -/
theorem reaped_once_of_run :
    (reaped final.log).Nodup ∧
      (∀ waiter target status options, .returned waiter target status options ∈ final.log →
        firstCode final.log target = some status ∧
          ∃ entry, createdAs final.log target = some entry ∧ entry.pid = target ∧
            entry.tgid = target ∧ entry.ppid = waiter) ∧
      (∀ actor op options, final.ops actor = some op → op.waitOptions = some options →
        options &&& WNOWAIT ≠ 0 → (final.advance actor op).exited = final.exited) ∧
      ∀ pid : Nat, final.exited[pid]? = none ∨ final.table[pid]? = none := by
  have life := lifecycle_of_run entryFirst reached
  refine ⟨life.once, ?_, ?_, ?_⟩
  · intro waiter target status options member
    obtain ⟨-, exited, entry, created, isLeader, isParent⟩ := life.returns member
    exact ⟨exited, entry, created, pid_of_createdAs created, isLeader, isParent⟩
  · intro actor op options _ isWait keeps
    exact exited_advance_of_waitNoWait final actor isWait keeps
  · intro pid
    cases listed : final.table[pid]? with
    | none => exact .inr rfl
    | some process =>
      obtain ⟨-, -, -, running⟩ := life.created_of_entry listed
      exact .inl (life.unrecorded running).1

/-- A child is made, exits with 7, and its parent waits for it twice. -/
def forkExitWait : List Turn :=
  [.call 0 .spawn, .go 0, .go 0, .call 1 (.clone 0 0 true), .go 1, .go 1, .call 2 (.exit 7),
    .go 2, .go 2, .go 2, .call 1 (.wait (-1) WNOWAIT), .go 1, .go 1, .call 1 (.wait (-1) 0),
    .go 1, .go 1]

omit entryFirst reached in
theorem reaped_once_forkExitWait :
    ∃ final, Machine.boot.run forkExitWait = some final ∧
      Event.returned 1 2 7 0 ∈ final.log ∧ (reaped final.log).Nodup ∧
      ∀ pid : Nat, final.exited[pid]? = none ∨ final.table[pid]? = none := by
  obtain ⟨final, reached, returns⟩ : ∃ final, Machine.boot.run forkExitWait = some final ∧
      Event.returned 1 2 7 0 ∈ final.log := by
    decide +kernel
  have holds := reaped_once_of_run (by decide +kernel) reached
  exact ⟨final, reached, returns, holds.1, holds.2.2.2⟩

/-- A process has its entry from its creation to the first report of its exit, with the parent
and the thread group it was created with; and the record due to its parent is neither lost nor
doubled: it is present, was taken once, or is the next section of exactly one call. -/
theorem exits_accounted_of_run :
    (∀ pid : Nat, (final.table[pid]?).map Process.kin =
      if (firstCode final.log pid).isSome then none
      else (createdAs final.log pid).map Process.kin) ∧
    ∀ (pid parent : Nat) (code : Int), Due final.log pid parent code →
      final.exited[pid]? = some (parent, code) ∧ pid ∉ reaped final.log ∧
          (∀ actor, final.recording actor ≠ some (pid, parent, code)) ∨
        final.exited[pid]? = none ∧ (reaped final.log).count pid = 1 ∧
          (∀ actor, final.recording actor ≠ some (pid, parent, code)) ∨
        final.exited[pid]? = none ∧ pid ∉ reaped final.log ∧
          ∃! actor, final.recording actor = some (pid, parent, code) := by
  have life := lifecycle_of_run entryFirst reached
  refine ⟨life.entries, fun pid parent code due => ?_⟩
  rcases life.settles due with present | taken | ⟨actor, records⟩
  · refine .inl ⟨present, (life.records present).2, fun actor records => ?_⟩
    cases (life.recordings records).2.1.symm.trans present
  · refine .inr (.inl ⟨?_, List.count_eq_one_of_mem life.once taken, fun actor records => ?_⟩)
    · apply Option.eq_none_iff_forall_ne_some.mpr
      exact fun record present => (life.records present).2 taken
    · exact (life.recordings records).2.2 taken
  · obtain ⟨-, absent, untaken⟩ := life.recordings records
    exact .inr (.inr ⟨absent, untaken, actor, records, fun _ other => life.single other records⟩)

end

theorem exits_accounted_forkExitWait :
    ∃ final, Machine.boot.run forkExitWait = some final ∧ ∀ pid : Nat,
      (final.table[pid]?).map Process.kin = if (firstCode final.log pid).isSome then none
        else (createdAs final.log pid).map Process.kin := by
  obtain ⟨final, reached⟩ := Option.isSome_iff_exists.mp (show
    (Machine.boot.run forkExitWait).isSome by decide +kernel)
  exact ⟨final, reached, (exits_accounted_of_run (by decide +kernel) reached).1⟩

end Cyllor.Proc
