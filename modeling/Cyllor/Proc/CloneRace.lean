import Cyllor.Proc.Reaping

/-!
Contract: `do_clone` against the child it has made runnable.

Owns:
- that a thread is marked dead only after its exit was reported;
- what follows for waits when each process has its entry before it runs;
- the run in which a child exits before `do_clone` has inserted its entry.
-/

namespace Cyllor.Proc

def Reported (log : List Event) (pid : Nat) : Prop := (firstCode log pid).isSome

def CreatedIn (log : List Event) (tgid pid : Nat) : Prop :=
  ∃ entry, createdAs log pid = some entry ∧ entry.tgid = tgid

section Log

variable {log : List Event} {pid tgid : Nat}

theorem Reported.append (reported : Reported log pid) (events : List Event) :
    Reported (log ++ events) pid := by
  obtain ⟨code, noted⟩ := Option.isSome_iff_exists.mp reported
  have kept : firstCode (log ++ events) pid = some code := by
    unfold firstCode at noted ⊢
    rw [List.findSome?_append, noted, Option.some_or]
  exact Option.isSome_iff_exists.mpr ⟨code, kept⟩

theorem reported_noted (pid : Nat) (code : Int) : Reported (log ++ [.noted pid code]) pid := by
  unfold Reported
  rw [firstCode_noted, if_pos rfl]
  cases firstCode log pid <;> rfl

theorem CreatedIn.append (created : CreatedIn log tgid pid) (events : List Event) :
    CreatedIn (log ++ events) tgid pid := by
  obtain ⟨entry, made, inGroup⟩ := created
  refine ⟨entry, ?_, inGroup⟩
  unfold createdAs at made ⊢
  rw [List.findSome?_append, made, Option.some_or]

end Log

/-- The threads that the call will mark dead are reported by then: each is reported, or among
those that the call still reports. -/
def Op.Marks (log : List Event) : Op → Prop
  | .groupExit tgid _ marks _ => ∀ pid ∈ marks, Reported log pid ∨ CreatedIn log tgid pid
  | .exits pids _ marks _ => ∀ pid ∈ marks, pid ∈ pids ∨ Reported log pid
  | .record _ _ _ rest marks _ => ∀ pid ∈ marks, pid ∈ rest ∨ Reported log pid
  | _ => True

theorem Op.Marks.append {log : List Event} {op : Op} (marks : op.Marks log)
    (events : List Event) : op.Marks (log ++ events) := by
  cases op with
  | groupExit tgid code marked stops =>
    intro pid member
    exact (marks pid member).imp (·.append events) (·.append events)
  | exits pids code marked stops =>
    intro pid member
    exact (marks pid member).imp_right (·.append events)
  | record left info code rest marked stops =>
    intro pid member
    exact (marks pid member).imp_right (·.append events)
  | _ => trivial

/-- Dead threads were reported, and so will be those about to be marked. -/
structure DeadReported (machine : Machine) : Prop where
  dead : ∀ {pid}, machine.dead pid = true → Reported machine.log pid
  marks : ∀ {actor op}, machine.ops actor = some op → op.Marks machine.log

theorem deadReported_boot : DeadReported Machine.boot where
  dead marked := by cases marked
  marks inCall := by cases inCall

variable {machine next : Machine} {actor : Nat}

/-- A turn that appends to the log and moves one thread keeps the invariant, if it does for
what the turn marks and for the thread that moves. -/
theorem DeadReported.setOp {base : Machine} {op : Option Op} {events : List Event}
    (reported : DeadReported machine) (sameOps : base.ops = machine.ops)
    (isLog : base.log = machine.log ++ events)
    (dead : ∀ pid, base.dead pid = true → machine.dead pid = true ∨ Reported base.log pid)
    (marks : ∀ after, op = some after → after.Marks base.log) :
    DeadReported (base.setOp actor op) where
  dead {pid} marked := by
    rcases dead pid marked with before | now
    · show Reported base.log pid
      rw [isLog]
      exact (reported.dead before).append events
    · exact now
  marks {other after} inCall := by
    show after.Marks base.log
    rw [Machine.ops_setOp] at inCall
    by_cases isActor : other = actor
    · rw [if_pos isActor] at inCall
      exact marks after inCall
    · rw [if_neg isActor, sameOps] at inCall
      rw [isLog]
      exact (reported.marks inCall).append events

theorem DeadReported.goOn {base : Machine} {op : Option Op} (reported : DeadReported machine)
    (sameOps : base.ops = machine.ops) (sameLog : base.log = machine.log)
    (sameDead : base.dead = machine.dead)
    (marks : ∀ after, op = some after → after.Marks machine.log) :
    DeadReported (base.setOp actor op) := by
  apply reported.setOp sameOps (sameLog.trans (List.append_nil _).symm)
  · intro pid marked
    rw [sameDead] at marked
    exact .inl marked
  · rw [sameLog]
    exact marks

theorem Lifecycle.createdIn_of_member {pid tgid : Nat} (life : Lifecycle machine)
    (member : pid ∈ members machine.table tgid) : CreatedIn machine.log tgid pid := by
  obtain ⟨key, process, listed, inGroup, isPid⟩ := mem_members.mp member
  obtain ⟨entry, created, isKin, -⟩ := life.created_of_entry listed
  have isKey : pid = key := by
    rw [← isPid, ← pid_of_createdAs created]
    exact (congrArg Prod.fst isKin).symm
  refine ⟨entry, isKey ▸ created, ?_⟩
  rw [← inGroup]
  exact congrArg (fun kin => kin.2.1) isKin

/-- A process of the group that was not reported still has its entry. -/
theorem Lifecycle.member_of_createdIn {pid tgid : Nat} (life : Lifecycle machine)
    (created : CreatedIn machine.log tgid pid) (running : ¬ Reported machine.log pid) :
    pid ∈ members machine.table tgid := by
  obtain ⟨entry, made, inGroup⟩ := created
  have listed := life.entries pid
  unfold Reported at running
  rw [if_neg running, made] at listed
  obtain ⟨process, isEntry, isKin⟩ := Option.map_eq_some_iff.mp listed
  refine mem_members.mpr ⟨pid, process, isEntry, ?_, ?_⟩
  · rw [← inGroup]
    exact congrArg (fun kin => kin.2.1) isKin
  · rw [← pid_of_createdAs made]
    exact congrArg Prod.fst isKin

theorem DeadReported.enter (call : ProcCall) (reported : DeadReported machine)
    (life : Lifecycle machine) : DeadReported (machine.enter actor call) := by
  have nothing : ∀ {op : Op} {base : Machine}, base.ops = machine.ops → base.log = machine.log →
      base.dead = machine.dead → op.Marks machine.log →
      DeadReported (base.setOp actor (some op)) := by
    intro op base sameOps sameLog sameDead marks
    apply reported.goOn sameOps sameLog sameDead
    intro after isOp
    cases isOp
    exact marks
  have group : ∀ tgid, ∀ pid ∈ members machine.table tgid,
      Reported machine.log pid ∨ CreatedIn machine.log tgid pid :=
    fun tgid pid member => .inr (life.createdIn_of_member member)
  cases call with
  | spawn => exact nothing rfl rfl rfl trivial
  | clone flags ptid room =>
    rw [Machine.enter]
    split
    · exact reported
    · split
      · exact ⟨reported.dead, reported.marks⟩
      · exact nothing rfl rfl rfl trivial
  | exit code => exact nothing rfl rfl rfl fun pid member => .inl member
  | exitGroup code => exact nothing rfl rfl rfl (group _)
  | killGroup tgid sig =>
    rw [Machine.enter]
    split
    · exact reported
    · exact nothing rfl rfl rfl (group _)
  | killThread tid sig =>
    rw [Machine.enter]
    split
    · exact reported
    · exact nothing rfl rfl rfl fun pid member => .inl member
  | signal sig =>
    rw [Machine.enter]
    split
    · exact nothing rfl rfl rfl fun pid member => .inl member
    · exact reported
  | wait pid options => exact nothing rfl rfl rfl trivial

theorem DeadReported.advance {op : Op} (reported : DeadReported machine)
    (life : Lifecycle machine) (inCall : machine.ops actor = some op) :
    DeadReported (machine.advance actor op) := by
  have marked := reported.marks inCall
  have noMarks : ∀ {after : Op} {log : List Event}, after.Marks log → ∀ other,
      some after = some other → other.Marks log := by
    intro after log marks other isAfter
    cases isAfter
    exact marks
  cases op with
  | spawnInsert entry =>
    refine reported.setOp (by rfl) (by rfl) (fun pid => .inl) ?_
    exact noMarks trivial
  | spawnQueue pid => exact reported.goOn rfl rfl rfl fun after isAfter => by cases isAfter
  | cloneQueue entry flags =>
    refine reported.goOn (by rfl) (by rfl) (by rfl) ?_
    exact noMarks trivial
  | cloneInsert entry flags =>
    exact reported.setOp rfl rfl (fun pid => .inl) fun after isAfter => by cases isAfter
  | groupExit tgid code marks stops =>
    refine reported.goOn (by rfl) (by rfl) (by rfl) ?_
    intro after isAfter
    cases isAfter
    intro pid member
    by_cases isReported : Reported machine.log pid
    · exact .inr isReported
    · rcases marked pid member with now | created
      · exact absurd now isReported
      · exact .inl (life.member_of_createdIn created isReported)
  | exits pids code marks stops =>
    cases pids with
    | nil =>
      rw [Machine.advance]
      refine reported.setOp (by rfl) (by exact (List.append_nil _).symm) ?_ ?_
      · intro pid isDead
        rcases Bool.or_eq_true_iff.mp isDead with before | now
        · exact .inl before
        · rcases marked pid (List.contains_iff_mem.mp now) with left | isReported
          · cases left
          · exact .inr isReported
      · intro after isAfter
        cases stops with
        | true =>
          cases isAfter
          trivial
        | false => cases isAfter
    | cons pid rest =>
      refine reported.setOp (by rfl) (by rfl) (fun other => .inl) ?_
      intro after isAfter
      cases isAfter
      intro other member
      rcases marked other member with left | isReported
      · rcases List.mem_cons.mp left with isPid | later
        · rw [isPid]
          exact .inr (reported_noted pid code)
        · exact .inl later
      · exact .inr (isReported.append _)
  | record pid info code rest marks stops =>
    refine reported.goOn (by rfl) (by rfl) (by rfl) ?_
    intro after isAfter
    cases isAfter
    exact marked
  | waitLook pid options =>
    rw [Machine.advance]
    split <;> exact reported.goOn (by rfl) (by rfl) (by rfl) (by exact noMarks trivial)
  | waitTake target pid options =>
    exact reported.setOp rfl rfl (fun pid => .inl) fun after isAfter => by cases isAfter
  | waitLive pid options =>
    rw [Machine.advance]
    split
    · refine reported.goOn (by rfl) (by rfl) (by rfl) ?_
      intro after isAfter
      split at isAfter <;> cases isAfter
      trivial
    · refine reported.goOn (by rfl) (by rfl) (by rfl) ?_
      exact noMarks trivial
  | waitRecheck pid options =>
    rw [Machine.advance]
    split
    · refine reported.goOn (by rfl) (by rfl) (by rfl) ?_
      exact noMarks trivial
    · exact reported.goOn rfl rfl rfl fun after isAfter => by cases isAfter
  | stopped => exact reported

theorem DeadReported.step {turn : Turn} (reported : DeadReported machine)
    (life : Lifecycle machine) (stepped : machine.step turn = some next) : DeadReported next := by
  cases turn with
  | call caller call =>
    rw [Machine.step] at stepped
    split at stepped
    · cases stepped
      exact reported.enter call life
    · cases stepped
  | go caller =>
    obtain ⟨op, inCall, rfl⟩ := Option.map_eq_some_iff.mp stepped
    exact reported.advance life inCall

/-! ### Whole runs -/

section

variable {trace : List Turn} {final : Machine}
  (entryFirst : LabelledRun.Guarded Machine.step EntryFirst Machine.boot trace)
  (reached : Machine.boot.run trace = some final)

include entryFirst reached

/-- In every run in which each process has its entry before it runs, dead threads were
reported throughout. -/
theorem deadReported_of_run : Lifecycle final ∧ DeadReported final := by
  have all : (Lifecycle final ∧ final.Settled 0) ∧ DeadReported final :=
    LabelledRun.invariant_of_guarded
      (fun machine => (Lifecycle machine ∧ machine.Settled 0) ∧ DeadReported machine)
      (fun holds guard stepped => ⟨⟨holds.1.1.step holds.1.2 guard stepped,
        holds.1.2.step stepped⟩, holds.2.step holds.1.1 stepped⟩)
      ⟨⟨lifecycle_boot, Nat.zero_lt_one, fun other entry making => by cases making⟩,
        deadReported_boot⟩
      entryFirst reached
  exact ⟨all.1.1, all.2⟩

/-- In every run in which each process has its entry before it runs: a child that is dead has
no entry, and if it is a thread-group leader, its parent's record is there, was taken, or is
the next section of the call that reported the exit; and a wait that finds a live child finds
one that is not dead. -/
theorem dead_child_recorded_of_run :
    (∀ child entry, createdAs final.log child = some entry → final.dead child = true →
      final.table[child]? = none ∧
        (entry.tgid = child → entry.ppid ≠ 0 → ∃ code, firstCode final.log child = some code ∧
          (final.exited[child]? = some (entry.ppid, code) ∨ child ∈ reaped final.log ∨
            ∃ actor, final.recording actor = some (child, entry.ppid, code)))) ∧
      ∀ parent pid, Machine.hasLive final.table parent pid = true →
        ∃ (child : Nat) (process : Process), final.table[child]? = some process ∧
          process.ppid = parent ∧ process.tgid = child ∧ (0 < pid → child = pid.toNat) ∧
          final.dead child = false := by
  obtain ⟨life, reported⟩ := deadReported_of_run entryFirst reached
  constructor
  · intro child entry created isDead
    obtain ⟨code, noted⟩ := Option.isSome_iff_exists.mp (reported.dead isDead)
    constructor
    · have listed := life.entries child
      rw [noted] at listed
      exact Option.map_eq_none_iff.mp listed
    · intro isLeader hasParent
      exact ⟨code, noted, life.settles ⟨hasParent, noted, entry, created, isLeader, rfl⟩⟩
  · intro parent pid isLive
    obtain ⟨⟨child, process⟩, member, found⟩ := List.any_eq_true.mp isLive
    obtain ⟨isParent, isLeader, isTarget⟩ := of_decide_eq_true found
    have listed := Std.ExtTreeMap.mem_toList_iff_getElem?_eq_some.mp member
    obtain ⟨entry, created, isKin, running⟩ := life.created_of_entry listed
    have isChild : process.pid = child := by
      rw [← pid_of_createdAs created]
      exact (congrArg Prod.fst isKin).symm
    refine ⟨child, process, listed, isParent, isLeader.symm.trans isChild, ?_, ?_⟩
    · intro positive
      rw [← isChild]
      exact isTarget positive
    · apply Bool.eq_false_iff.mpr
      intro isDead
      have isReported := reported.dead isDead
      unfold Reported at isReported
      rw [running] at isReported
      cases isReported

end

theorem dead_child_recorded_forkExit :
    ∃ final, Machine.boot.run (forkExitWait.take 10) = some final ∧ final.dead 2 = true ∧
      final.table[2]? = none ∧
      ∀ entry, createdAs final.log 2 = some entry → entry.tgid = 2 → entry.ppid ≠ 0 →
        ∃ code, firstCode final.log 2 = some code ∧
          (final.exited[2]? = some (entry.ppid, code) ∨ 2 ∈ reaped final.log ∨
            ∃ actor, final.recording actor = some (2, entry.ppid, code)) := by
  obtain ⟨final, reached, isDead, isCreated⟩ :
      ∃ final, Machine.boot.run (forkExitWait.take 10) = some final ∧ final.dead 2 = true ∧
        (createdAs final.log 2).isSome := by
    decide +kernel
  obtain ⟨made, created⟩ := Option.isSome_iff_exists.mp isCreated
  have holds := (dead_child_recorded_of_run (by decide +kernel) reached).1 2
  exact ⟨final, reached, isDead, (holds made created isDead).1,
    fun entry isEntry => (holds entry isEntry isDead).2⟩

/-- A wait that finds an entry and no record comes back to where it was. -/
theorem waits_again {pid : Int} {options : Nat}
    (inCall : machine.ops actor = some (.waitLook pid options))
    (noRecord : Machine.findRecord machine.exited actor pid = none)
    (isLive : Machine.hasLive machine.table actor pid = true)
    (blocks : options &&& WNOHANG = 0) :
    machine.run [.go actor, .go actor] = some machine := by
  have looks : machine.step (.go actor) =
      some (machine.setOp actor (some (.waitLive pid options))) := by
    rw [Machine.step, inCall, Option.map_some, Machine.advance, noRecord]
  have waits : (machine.setOp actor (some (.waitLive pid options))).step (.go actor) =
      some machine := by
    rw [Machine.step, Machine.ops_setOp, if_pos rfl, Option.map_some, Machine.advance,
      if_pos (by exact isLive), if_neg (by simpa using blocks), Machine.setOp_setOp]
    apply congrArg some
    unfold Machine.setOp
    rw [← inCall, Function.update_eq_self]
  apply LabelledRun.run_cons_eq_some.mpr
  refine ⟨_, looks, ?_⟩
  apply LabelledRun.run_cons_eq_some.mpr
  exact ⟨_, waits, rfl⟩

/-- A child that was queued exits before `do_clone` inserts its entry: it is dead, its entry
stays and there is no record, so its parent waits for it again and again. -/
theorem child_exits_before_entry :
    ∃ final, Machine.boot.run [.call 0 .spawn, .go 0, .go 0, .call 1 (.clone 0 0 true), .go 1,
        .call 2 (.exit 7), .go 2, .go 2, .go 2, .go 1, .call 1 (.wait (-1) 0)] = some final ∧
      final.dead 2 = true ∧
      (final.table[2]?).map (fun process => (process.ppid, process.tgid)) = some (1, 2) ∧
      final.exited[2]? = none ∧ reaped final.log = [] ∧
      (∀ actor < final.nextPid, final.recording actor = none) ∧
      final.ops 1 = some (.waitLook (-1) 0) ∧ final.run [.go 1, .go 1] = some final := by
  obtain ⟨final, reached, isDead, listed, noRecord, notReaped, nobody, inCall, notFound, isLive⟩ :
      ∃ final, Machine.boot.run [.call 0 .spawn, .go 0, .go 0, .call 1 (.clone 0 0 true), .go 1,
          .call 2 (.exit 7), .go 2, .go 2, .go 2, .go 1, .call 1 (.wait (-1) 0)] = some final ∧
        final.dead 2 = true ∧
        (final.table[2]?).map (fun process => (process.ppid, process.tgid)) = some (1, 2) ∧
        final.exited[2]? = none ∧ reaped final.log = [] ∧
        (∀ actor < final.nextPid, final.recording actor = none) ∧
        final.ops 1 = some (.waitLook (-1) 0) ∧ Machine.findRecord final.exited 1 (-1) = none ∧
        Machine.hasLive final.table 1 (-1) = true := by
    decide +kernel
  exact ⟨final, reached, isDead, listed, noRecord, notReaped, nobody, inCall,
    waits_again inCall notFound isLive rfl⟩

end Cyllor.Proc
