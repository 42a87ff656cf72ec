import Cyllor.Proc.Sections

/-!
Contract: the life of a process, from its entry over its exit to the wait that takes its
record, across all interleavings.

Owns:
- what a log says about a process: how it was created, the code of its first exit, and
  whether it was reaped;
- `Lifecycle`, which ties the tables and the calls in progress to the log;
- that it is kept where a process is created and where nothing of it changes.
-/

namespace Cyllor.Proc

variable {parent pid : Nat}

/-! ### What a log says -/

/-- The entry that the process was created with. -/
def createdAs (log : List Event) (pid : Nat) : Option Process :=
  log.findSome? fun
    | .created entry => if entry.pid = pid then some entry else none
    | _ => none

/-- The code of the first `note_process_exit` for the process. -/
def firstCode (log : List Event) (pid : Nat) : Option Int :=
  log.findSome? fun
    | .noted other code => if other = pid then some code else none
    | _ => none

/-- The processes that waits without `WNOWAIT` returned, in order. -/
def reaped (log : List Event) : List Nat :=
  log.filterMap fun
    | .returned _ target _ options => if options &&& WNOWAIT ≠ 0 then none else some target
    | _ => none

/-- The process was created as a thread-group leader with this parent, and has first exited
with this code: the parent is due a record. -/
def Due (log : List Event) (pid parent : Nat) (code : Int) : Prop :=
  parent ≠ 0 ∧ firstCode log pid = some code ∧
    ∃ entry, createdAs log pid = some entry ∧ entry.tgid = pid ∧ entry.ppid = parent

section Log

variable {log : List Event} {pid : Nat}

theorem createdAs_created (entry : Process) :
    createdAs (log ++ [.created entry]) pid =
      (createdAs log pid).or (if entry.pid = pid then some entry else none) := by
  rw [createdAs, List.findSome?_append]
  simp only [List.findSome?_cons, List.findSome?_nil]
  by_cases isPid : entry.pid = pid
  · simp [isPid, createdAs]
  · simp [isPid, createdAs]

theorem createdAs_noted (other : Nat) (code : Int) :
    createdAs (log ++ [.noted other code]) pid = createdAs log pid := by
  rw [createdAs, List.findSome?_append]
  exact Option.or_none

theorem createdAs_returned (waiter target options : Nat) (status : Int) :
    createdAs (log ++ [.returned waiter target status options]) pid = createdAs log pid := by
  rw [createdAs, List.findSome?_append]
  exact Option.or_none

theorem firstCode_created (entry : Process) :
    firstCode (log ++ [.created entry]) pid = firstCode log pid := by
  rw [firstCode, List.findSome?_append]
  exact Option.or_none

theorem firstCode_noted (other : Nat) (code : Int) :
    firstCode (log ++ [.noted other code]) pid =
      (firstCode log pid).or (if other = pid then some code else none) := by
  rw [firstCode, List.findSome?_append]
  simp only [List.findSome?_cons, List.findSome?_nil]
  by_cases isPid : other = pid
  · simp [isPid, firstCode]
  · simp [isPid, firstCode]

theorem firstCode_returned (waiter target options : Nat) (status : Int) :
    firstCode (log ++ [.returned waiter target status options]) pid = firstCode log pid := by
  rw [firstCode, List.findSome?_append]
  exact Option.or_none

theorem reaped_created (entry : Process) : reaped (log ++ [.created entry]) = reaped log := by
  rw [reaped, List.filterMap_append]
  exact List.append_nil _

theorem reaped_noted (other : Nat) (code : Int) :
    reaped (log ++ [.noted other code]) = reaped log := by
  rw [reaped, List.filterMap_append]
  exact List.append_nil _

theorem reaped_returned (waiter target options : Nat) (status : Int) :
    reaped (log ++ [.returned waiter target status options]) =
      reaped log ++ if options &&& WNOWAIT ≠ 0 then [] else [target] := by
  rw [reaped, List.filterMap_append]
  apply congrArg (reaped log ++ ·)
  by_cases keeps : options &&& WNOWAIT ≠ 0
  · rw [if_pos keeps]
    exact List.filterMap_cons_none (if_pos keeps)
  · rw [if_neg keeps]
    exact List.filterMap_cons_some (if_neg keeps)

theorem pid_of_createdAs {entry : Process} (created : createdAs log pid = some entry) :
    entry.pid = pid := by
  obtain ⟨event, -, isEvent⟩ := List.exists_of_findSome?_eq_some created
  cases event with
  | created other =>
    dsimp only at isEvent
    split at isEvent
    · rename_i isPid
      cases isEvent
      exact isPid
    · cases isEvent
  | noted other code => cases isEvent
  | returned waiter target status options => cases isEvent

theorem Due.created {code : Int} (due : Due log pid parent code) (entry : Process) :
    Due (log ++ [.created entry]) pid parent code := by
  obtain ⟨hasParent, exited, made, created, isLeader, isParent⟩ := due
  refine ⟨hasParent, ?_, made, ?_, isLeader, isParent⟩
  · rw [firstCode_created, exited]
  · rw [createdAs_created, created, Option.some_or]

theorem Due.noted {code : Int} (due : Due log pid parent code) (other : Nat) (code' : Int) :
    Due (log ++ [.noted other code']) pid parent code := by
  obtain ⟨hasParent, exited, made, created, isLeader, isParent⟩ := due
  refine ⟨hasParent, ?_, made, ?_, isLeader, isParent⟩
  · rw [firstCode_noted, exited, Option.some_or]
  · rw [createdAs_noted, created]

theorem due_returned {waiter target options : Nat} {code status : Int} :
    Due (log ++ [.returned waiter target status options]) pid parent code ↔
      Due log pid parent code := by
  rw [Due, Due, firstCode_returned, createdAs_returned]

end Log

/-! ### What a thread in a call is about to do -/

/-- The entry that it is about to insert. -/
def Op.making : Op → Option Process
  | .spawnInsert entry => some entry
  | .cloneQueue entry _ => some entry
  | .cloneInsert entry _ => some entry
  | _ => none

/-- The processes whose entries it is about to remove. -/
def Op.leaving : Op → List Nat
  | .exits pids _ _ _ => pids
  | .record _ _ _ rest _ _ => rest
  | _ => []

/-- The record that it is about to insert: child, parent and code. -/
def Op.recording : Op → Option (Nat × Nat × Int)
  | .record pid info code _ _ _ =>
    if info.1 ≠ 0 ∧ info.2 = pid then some (pid, info.1, code) else none
  | _ => none

/-- The child whose record it is about to take. -/
def Op.taking : Op → Option Nat
  | .waitTake target _ _ => some target
  | _ => none

namespace Machine

def making (machine : Machine) (actor : Nat) : Option Process := (machine.ops actor).bind Op.making

def leaving (machine : Machine) (actor : Nat) : List Nat :=
  ((machine.ops actor).map Op.leaving).getD []

def recording (machine : Machine) (actor : Nat) : Option (Nat × Nat × Int) :=
  (machine.ops actor).bind Op.recording

def taking (machine : Machine) (actor : Nat) : Option Nat := (machine.ops actor).bind Op.taking

/-- The number was given out, and no thread is about to insert an entry for it. -/
def Settled (machine : Machine) (pid : Nat) : Prop :=
  pid < machine.nextPid ∧ ∀ actor entry, machine.making actor = some entry → entry.pid ≠ pid

end Machine

/-- The part of an entry that an exit reads. -/
def Process.kin (process : Process) : Nat × Nat × Nat := (process.pid, process.tgid, process.ppid)

/-- The tables and the calls in progress agree with the log: a process has its entry from its
creation to its first exit, and the record due to its parent is in progress, present or
taken, exactly one of them. -/
structure Lifecycle (machine : Machine) : Prop where
  makes : ∀ {actor entry}, machine.making actor = some entry → entry.pid < machine.nextPid ∧
    createdAs machine.log entry.pid = none ∧ firstCode machine.log entry.pid = none
  apart : ∀ {actor other entry entry'}, machine.making actor = some entry →
    machine.making other = some entry' → entry.pid = entry'.pid → actor = other
  below : ∀ {pid entry}, createdAs machine.log pid = some entry → pid < machine.nextPid
  exitsBelow : ∀ {pid code}, firstCode machine.log pid = some code → pid < machine.nextPid
  entries : ∀ pid : Nat, (machine.table[pid]?).map Process.kin =
    if (firstCode machine.log pid).isSome then none
    else (createdAs machine.log pid).map Process.kin
  leaves : ∀ {actor pid}, pid ∈ machine.leaving actor → machine.Settled pid
  records : ∀ {pid parent : Nat} {code : Int}, machine.exited[pid]? = some (parent, code) →
    Due machine.log pid parent code ∧ pid ∉ reaped machine.log
  recordings : ∀ {actor pid parent code}, machine.recording actor = some (pid, parent, code) →
    Due machine.log pid parent code ∧ machine.exited[pid]? = none ∧ pid ∉ reaped machine.log
  single : ∀ {actor other pid parent parent' code code'},
    machine.recording actor = some (pid, parent, code) →
    machine.recording other = some (pid, parent', code') → actor = other
  takes : ∀ {actor target}, machine.taking actor = some target →
    ∃ code, machine.exited[target]? = some (actor, code)
  returns : ∀ {waiter target status options},
    .returned waiter target status options ∈ machine.log → Due machine.log target waiter status
  once : (reaped machine.log).Nodup
  settles : ∀ {pid parent code}, Due machine.log pid parent code →
    machine.exited[pid]? = some (parent, code) ∨ pid ∈ reaped machine.log ∨
      ∃ actor, machine.recording actor = some (pid, parent, code)

theorem lifecycle_boot : Lifecycle Machine.boot where
  makes making := by cases making
  apart making := by cases making
  below created := by cases created
  exitsBelow noted := by cases noted
  entries pid := by simp [Machine.boot, createdAs, firstCode]
  leaves member := by cases member
  records found := by simp [Machine.boot] at found
  recordings recording := by cases recording
  single recording := by cases recording
  takes taking := by cases taking
  returns member := by cases member
  once := List.nodup_nil
  settles due := by cases due.2.1

/-! ### The tables under their operations -/

theorem kin_insertClone (table : Table) (entry : Process) (flags key : Nat) :
    ((insertClone table entry flags)[key]?).map Process.kin =
      if entry.pid = key then some entry.kin else (table[key]?).map Process.kin := by
  have sameKin : (Process.kin ∘ fun process : Process =>
      if flags &&& Mm.CLONE_THREAD ≠ 0 ∧ key = entry.tgid then process.addThread entry.pid
      else process) = Process.kin := by
    funext process
    show Process.kin (ite _ _ _) = _
    split <;> rfl
  rw [getElem?_insertClone, Option.map_map, sameKin]
  by_cases isKey : entry.pid = key
  · rw [if_pos isKey, if_pos isKey, Option.map_some]
  · rw [if_neg isKey, if_neg isKey]

theorem kin_dropEntry (table : Table) (pid key : Nat) :
    ((dropEntry table pid)[key]?).map Process.kin =
      if pid = key then none else (table[key]?).map Process.kin := by
  rw [getElem?_dropEntry]
  by_cases isKey : pid = key
  · rw [if_pos isKey, if_pos isKey, Option.map_none]
  · rw [if_neg isKey, if_neg isKey, Option.map_map]
    apply congrFun
    apply congrArg
    funext process
    show Process.kin (ite _ _ _) = _
    split <;> rfl

/-- What an exit reads of a process is a part of its `kin`. -/
theorem exitInfo_of_kin {table : Table} {kin : Nat × Nat × Nat}
    (found : (table[pid]?).map Process.kin = some kin) :
    exitInfo table pid = (kin.2.2, kin.2.1) := by
  obtain ⟨process, isEntry, isKin⟩ := Option.map_eq_some_iff.mp found
  rw [exitInfo, isEntry, ← isKin]
  rfl

theorem exitInfo_of_none {table : Table} (missing : (table[pid]?).map Process.kin = none) :
    exitInfo table pid = (0, pid) := by
  rw [exitInfo, Option.map_eq_none_iff.mp missing]

/-! ### Calls in progress under a change of one of them -/

namespace Machine

variable (machine : Machine) (actor other : Nat) (op : Option Op)

theorem ops_setOp : (machine.setOp actor op).ops other =
    if other = actor then op else machine.ops other :=
  Function.update_apply _ _ _ _

theorem recording_setOp : (machine.setOp actor op).recording other =
    if other = actor then op.bind Op.recording else machine.recording other := by
  rw [recording, ops_setOp]
  exact apply_ite (fun op : Option Op => op.bind Op.recording) _ _ _

variable {machine actor other op}

theorem bind_setOp_cases {α : Type} {part : Op → Option α} {value : α}
    (isPart : ((machine.setOp actor op).ops other).bind part = some value) :
    other = actor ∧ op.bind part = some value ∨
      other ≠ actor ∧ (machine.ops other).bind part = some value := by
  rw [ops_setOp] at isPart
  by_cases isActor : other = actor
  · rw [if_pos isActor] at isPart
    exact .inl ⟨isActor, isPart⟩
  · rw [if_neg isActor] at isPart
    exact .inr ⟨isActor, isPart⟩

theorem bind_setOp_of_none {α : Type} {part : Op → Option α} {value : α}
    (isNone : op.bind part = none)
    (isPart : ((machine.setOp actor op).ops other).bind part = some value) :
    other ≠ actor ∧ (machine.ops other).bind part = some value :=
  (bind_setOp_cases isPart).resolve_left fun here => nomatch isNone.symm.trans here.2

theorem mem_leaving_setOp (member : pid ∈ (machine.setOp actor op).leaving other) :
    pid ∈ (op.map Op.leaving).getD [] ∨ pid ∈ machine.leaving other := by
  rw [leaving, ops_setOp] at member
  split at member
  · exact .inl member
  · exact .inr member

theorem recording_setOp_of_idle {record : Nat × Nat × Int} (idle : machine.recording actor = none)
    (recording : machine.recording other = some record) (op : Option Op) :
    (machine.setOp actor op).recording other = some record := by
  rw [recording_setOp, if_neg, recording]
  rintro rfl
  cases idle.symm.trans recording

theorem settled_setOp (isNone : op.bind Op.making = none) (settled : machine.Settled pid) :
    (machine.setOp actor op).Settled pid :=
  ⟨settled.1, fun other entry making => settled.2 other entry (bind_setOp_of_none isNone making).2⟩

end Machine

/-! ### Turns that leave the tables and the log as they are -/

open Machine

variable {machine : Machine} {actor : Nat} {entry : Process}

theorem Lifecycle.schedule (life : Lifecycle machine) (queued dead : Nat → Bool) :
    Lifecycle { machine with queued := queued, dead := dead } :=
  ⟨life.makes, life.apart, life.below, life.exitsBelow, life.entries, life.leaves, life.records,
    life.recordings, life.single, life.takes, life.returns, life.once, life.settles⟩

theorem Lifecycle.skipPid (life : Lifecycle machine) :
    Lifecycle { machine with nextPid := machine.nextPid + 1 } where
  makes making := by
    have made := life.makes making
    exact ⟨Nat.lt_succ_of_lt made.1, made.2⟩
  apart := life.apart
  below created := Nat.lt_succ_of_lt (life.below created)
  exitsBelow noted := Nat.lt_succ_of_lt (life.exitsBelow noted)
  entries := life.entries
  leaves member := by
    have settled := life.leaves member
    exact ⟨Nat.lt_succ_of_lt settled.1, settled.2⟩
  records := life.records
  recordings := life.recordings
  single := life.single
  takes := life.takes
  returns := life.returns
  once := life.once
  settles := life.settles

/-- A number that was given out and is used for nothing yet. -/
def Machine.Unused (machine : Machine) (pid : Nat) : Prop :=
  machine.Settled pid ∧ (createdAs machine.log pid = none ∧ firstCode machine.log pid = none) ∧
    ∀ other, pid ∉ machine.leaving other

/-- A thread enters a call, goes on in it or leaves it, with no record to insert before or after.
An entry to insert is the one it had, or has an unused number. -/
theorem Lifecycle.setOp {op : Option Op} (life : Lifecycle machine)
    (makes : ∀ entry, op.bind Op.making = some entry → machine.making actor = some entry ∨
      machine.Unused entry.pid ∧ (op.map Op.leaving).getD [] = [])
    (leaves : ∀ pid ∈ (op.map Op.leaving).getD [], machine.Settled pid)
    (before : machine.recording actor = none) (after : op.bind Op.recording = none)
    (takes : ∀ target, op.bind Op.taking = some target →
      ∃ code, machine.exited[target]? = some (actor, code)) :
    Lifecycle (machine.setOp actor op) := by
  have made : ∀ {other entry}, (machine.setOp actor op).making other = some entry →
      machine.making other = some entry ∨
        (other = actor ∧ machine.Unused entry.pid ∧ (op.map Op.leaving).getD [] = []) := by
    intro other entry making
    rcases bind_setOp_cases making with ⟨rfl, now⟩ | ⟨-, before⟩
    · exact (makes entry now).imp_right fun unused => ⟨rfl, unused⟩
    · exact .inl before
  have sameRecording : ∀ other,
      (machine.setOp actor op).recording other = machine.recording other := by
    intro other
    rw [recording_setOp]
    by_cases isActor : other = actor
    · rw [if_pos isActor, after, isActor, before]
    · rw [if_neg isActor]
  constructor
  case makes =>
    intro other entry making
    rcases made making with before | ⟨-, unused, -⟩
    · exact life.makes before
    · exact ⟨unused.1.1, unused.2.1⟩
  case apart =>
    intro first second entry₁ entry₂ isFirst isSecond same
    rcases made isFirst with firstBefore | ⟨first_eq, unused, -⟩
    · rcases made isSecond with secondBefore | ⟨-, unused, -⟩
      · exact life.apart firstBefore secondBefore same
      · exact absurd same (unused.1.2 _ _ firstBefore)
    · rcases made isSecond with secondBefore | ⟨second_eq, -⟩
      · exact absurd same.symm (unused.1.2 _ _ secondBefore)
      · rw [first_eq, second_eq]
  case below => exact life.below
  case exitsBelow => exact life.exitsBelow
  case entries => exact life.entries
  case leaves =>
    intro other pid member
    have settled : machine.Settled pid := (mem_leaving_setOp member).elim (leaves pid) life.leaves
    refine ⟨settled.1, fun maker entry making => ?_⟩
    rcases made making with before | ⟨-, unused, none⟩
    · exact settled.2 maker entry before
    · rintro rfl
      rcases mem_leaving_setOp member with now | before
      · rw [none] at now
        cases now
      · exact unused.2.2 other before
  case records => exact life.records
  case recordings =>
    intro other pid parent code recording
    rw [sameRecording] at recording
    exact life.recordings recording
  case single =>
    intro first second pid parent parent' code code' isFirst isSecond
    rw [sameRecording] at isFirst isSecond
    exact life.single isFirst isSecond
  case takes =>
    intro other target taking
    rcases bind_setOp_cases taking with ⟨rfl, now⟩ | ⟨-, before⟩
    · exact takes target now
    · exact life.takes before
  case returns => exact life.returns
  case once => exact life.once
  case settles =>
    intro pid parent code due
    simp only [sameRecording]
    exact life.settles due

theorem Lifecycle.goOn {op : Option Op} (life : Lifecycle machine)
    (before : machine.recording actor = none) (making : op.bind Op.making = none)
    (leaves : ∀ pid ∈ (op.map Op.leaving).getD [], machine.Settled pid)
    (recording : op.bind Op.recording = none) (taking : op.bind Op.taking = none) :
    Lifecycle (machine.setOp actor op) := by
  apply life.setOp _ leaves before recording
  · intro target isTaking
    cases taking.symm.trans isTaking
  · intro entry isMaking
    cases making.symm.trans isMaking

/-! ### Creation -/

theorem Lifecycle.fresh (life : Lifecycle machine) :
    createdAs machine.log machine.nextPid = none ∧
      firstCode machine.log machine.nextPid = none := by
  constructor
  · apply Option.eq_none_iff_forall_ne_some.mpr
    intro made created
    exact Nat.lt_irrefl _ (life.below created)
  · apply Option.eq_none_iff_forall_ne_some.mpr
    intro code noted
    exact Nat.lt_irrefl _ (life.exitsBelow noted)

theorem Lifecycle.begin {op : Op} (life : Lifecycle machine) (idle : machine.ops actor = none)
    (isNext : entry.pid = machine.nextPid) (making : op.making = some entry)
    (noLeaving : op.leaving = []) (noRecording : op.recording = none)
    (noTaking : op.taking = none) :
    Lifecycle ({ machine with nextPid := machine.nextPid + 1 }.setOp actor (some op)) := by
  have noLeft : ((some op).map Op.leaving).getD [] = [] := noLeaving
  apply life.skipPid.setOp
  · intro entry' isMaking
    obtain rfl : entry = entry' := Option.some.inj (making.symm.trans isMaking)
    rw [isNext]
    refine .inr ⟨⟨⟨Nat.lt_succ_self _, fun other made isMade => ?_⟩, life.fresh, ?_⟩, noLeft⟩
    · exact Nat.ne_of_lt (life.makes isMade).1
    · exact fun other member => Nat.lt_irrefl _ (life.leaves member).1
  · intro pid member
    rw [noLeft] at member
    cases member
  · show (machine.ops actor).bind Op.recording = none
    rw [idle]
    rfl
  · exact noRecording
  · intro target isTaking
    cases noTaking.symm.trans isTaking

/-! ### Insertion -/

theorem Lifecycle.insert (flags : Nat) (life : Lifecycle machine)
    (settled : machine.Settled entry.pid)
    (notCreated : createdAs machine.log entry.pid = none)
    (notNoted : firstCode machine.log entry.pid = none) :
    Lifecycle { machine with
      table := insertClone machine.table entry flags
      log := machine.log ++ [Event.created entry] } where
  makes {other entry'} isMaking := by
    obtain ⟨below', notCreated', notNoted'⟩ := life.makes isMaking
    have apart : entry.pid ≠ entry'.pid := Ne.symm (settled.2 other entry' isMaking)
    dsimp only
    rw [createdAs_created, notCreated', if_neg apart, firstCode_created, notNoted']
    exact ⟨below', rfl, rfl⟩
  apart := life.apart
  below {pid made} created := by
    dsimp only at created
    rw [createdAs_created] at created
    by_cases isPid : entry.pid = pid
    · rw [← isPid]
      exact settled.1
    · rw [if_neg isPid, Option.or_none] at created
      exact life.below created
  exitsBelow noted := by
    dsimp only at noted
    rw [firstCode_created] at noted
    exact life.exitsBelow noted
  entries pid := by
    dsimp only
    rw [kin_insertClone, firstCode_created, createdAs_created]
    by_cases isPid : entry.pid = pid
    · rw [isPid] at notCreated notNoted
      rw [if_pos isPid, if_pos isPid, notNoted, notCreated]
      rfl
    · rw [if_neg isPid, if_neg isPid, Option.or_none]
      exact life.entries pid
  leaves := life.leaves
  records found := by
    obtain ⟨due, notReaped⟩ := life.records found
    dsimp only
    rw [reaped_created]
    exact ⟨due.created entry, notReaped⟩
  recordings recording := by
    obtain ⟨due, notFound, notReaped⟩ := life.recordings recording
    dsimp only
    rw [reaped_created]
    exact ⟨due.created entry, notFound, notReaped⟩
  single := life.single
  takes := life.takes
  returns member := by
    rcases List.mem_append.mp member with old | new
    · exact (life.returns old).created entry
    · cases List.mem_singleton.mp new
  once := by
    dsimp only
    rw [reaped_created]
    exact life.once
  settles {pid parent code} due := by
    obtain ⟨hasParent, exited, made, created, isLeader, isParent⟩ := due
    dsimp only at exited created ⊢
    rw [firstCode_created] at exited
    -- the new process has not exited, so nothing is due for it
    have notEntry : entry.pid ≠ pid := by
      intro isPid
      rw [isPid, exited] at notNoted
      cases notNoted
    rw [createdAs_created, if_neg notEntry, Option.or_none] at created
    rw [reaped_created]
    exact life.settles ⟨hasParent, exited, made, created, isLeader, isParent⟩

/-- A thread inserts the entry that it has made, and leaves its call. -/
theorem Lifecycle.inserted (flags : Nat) (life : Lifecycle machine)
    (making : machine.making actor = some entry)
    (idle : machine.recording actor = none) :
    Lifecycle ({ machine with
      table := insertClone machine.table entry flags
      log := machine.log ++ [Event.created entry] }.setOp actor none) := by
  obtain ⟨below, notCreated, notNoted⟩ := life.makes making
  have ended : Lifecycle (machine.setOp actor none) := life.goOn idle rfl nofun rfl rfl
  apply ended.insert flags ⟨below, ?_⟩ notCreated notNoted
  intro other entry' isMaking same
  obtain ⟨notActor, before⟩ := bind_setOp_of_none rfl isMaking
  exact notActor (life.apart before making same)

end Cyllor.Proc
