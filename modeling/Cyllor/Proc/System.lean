import Cyllor.Proc.Table

/-!
Contract: the calls on processes, one whole call after another (`sched/mod.rs`,
`syscall/process.rs`).

Owns:
- `EXITED_CHILDREN`, and `note_process_exit` and `note_thread_group_exit` as whole calls;
- the calls that change sessions, process groups and credentials, with their checks;
- the labels, the outcome of each, and the step of the state under one.
-/

namespace Cyllor.Proc

open Cyllor.Mm (cloneRejects)

/-- Exit records: child to parent and exit code. -/
abbrev Records := BTreeMap Nat (Nat × Int)

structure State where
  table : Table
  exited : Records
  nextPid : Nat

def State.boot (nextPid : Nat) : State := ⟨∅, ∅, nextPid⟩

/-! ### Exits -/

/-- The section of `note_process_exit` on the exit records: only thread-group leaders with
a parent are recorded. -/
def recordExit (exited : Records) (pid : Nat) (info : Nat × Nat) (code : Int) : Records :=
  if info.1 ≠ 0 ∧ info.2 = pid then exited.insert pid (info.1, code) else exited

def noteProcessExit (state : State) (pid : Nat) (code : Int) : State :=
  { state with
    table := dropEntry state.table pid
    exited := recordExit state.exited pid (exitInfo state.table pid) code }

def noteThreadGroupExit (state : State) (tgid : Nat) (code : Int) : State :=
  (members state.table tgid).foldl (fun state pid => noteProcessExit state pid code) state

/-! ### Sessions and process groups -/

/-- `sys_setsid` of the process `pid`. -/
def sysSetsid (table : Table) (pid : Nat) : Except Errno (Nat × Table) :=
  match table[pid]? with
  | none => .error .ESRCH
  | some proc =>
    if proc.pgid = pid then .error .EPERM
    else .ok (pid, table.insert pid { proc with sid := pid, pgid := pid })

/-- The process that an argument of `sys_setpgid` names. -/
def pgidTarget (caller : Nat) (pid : Int) : Except Errno Nat :=
  if pid = 0 then .ok caller else if 0 < pid then .ok pid.toNat else .error .EINVAL

/-- `sys_setpgid` of the process `caller`. -/
def sysSetpgid (table : Table) (caller : Nat) (pid pgid : Int) : Except Errno (Nat × Table) :=
  if pgid < 0 then .error .EINVAL
  else
    match pgidTarget caller pid with
    | .error error => .error error
    | .ok target =>
      match table[caller]? with
      | none => .error .ESRCH
      | some callerProc =>
        let newPgid := if pgid = 0 then target else pgid.toNat
        match table[target]? with
        | none => .error .ESRCH
        | some proc =>
          if proc.sid ≠ callerProc.sid then .error .EPERM
          else if newPgid ≠ target ∧ ¬ table.toList.any (fun entry =>
              entry.2.pgid = newPgid ∧ entry.2.sid = callerProc.sid) then .error .EPERM
          else .ok (0, table.insert target { proc with pgid := newPgid })

/-! ### Credentials -/

/-- The calls on credentials; a negative argument of a `setres` call keeps the value. -/
inductive CredCall where
  | setuid (uid : UInt32)
  | setgid (gid : UInt32)
  | setresuid (ruid euid suid : Int32)
  | setresgid (rgid egid sgid : Int32)
deriving DecidableEq, Repr

/-- One argument of a `setres` call: negative keeps the current value, and another value
must be one of the three ids unless the caller is privileged. -/
def chooseId (isRoot : Bool) (real effective saved current : UInt32) (argument : Int32) :
    Except Errno UInt32 :=
  if 0 ≤ argument then
    let v := argument.toUInt32
    if !isRoot ∧ v ≠ real ∧ v ≠ effective ∧ v ≠ saved then .error .EPERM else .ok v
  else .ok current

def sysSetuid (p : Process) (uid : UInt32) : Except Errno Process :=
  if p.euid ≠ 0 ∧ uid ≠ p.uid ∧ uid ≠ p.euid then .error .EPERM
  else .ok { p with uid := uid, euid := uid, suid := uid }

/-- `sys_setgid`, which asks for the effective group, not for the effective user. -/
def sysSetgid (p : Process) (gid : UInt32) : Except Errno Process :=
  if p.egid ≠ 0 ∧ gid ≠ p.gid ∧ gid ≠ p.egid then .error .EPERM
  else .ok { p with gid := gid, egid := gid, sgid := gid }

def sysSetresuid (p : Process) (ruid euid suid : Int32) : Except Errno Process := do
  let isRoot := p.euid == 0
  let nr ← chooseId isRoot p.uid p.euid p.suid p.uid ruid
  let ne ← chooseId isRoot p.uid p.euid p.suid p.euid euid
  let ns ← chooseId isRoot p.uid p.euid p.suid p.suid suid
  return { p with uid := nr, euid := ne, suid := ns }

def sysSetresgid (p : Process) (rgid egid sgid : Int32) : Except Errno Process := do
  let isRoot := p.euid == 0
  let nr ← chooseId isRoot p.gid p.egid p.sgid p.gid rgid
  let ne ← chooseId isRoot p.gid p.egid p.sgid p.egid egid
  let ns ← chooseId isRoot p.gid p.egid p.sgid p.sgid sgid
  return { p with gid := nr, egid := ne, sgid := ns }

/-- A call on the credentials of an entry. -/
def CredCall.apply (p : Process) : CredCall → Except Errno Process
  | .setuid uid => sysSetuid p uid
  | .setgid gid => sysSetgid p gid
  | .setresuid ruid euid suid => sysSetresuid p ruid euid suid
  | .setresgid rgid egid sgid => sysSetresgid p rgid egid sgid

/-- A call on credentials by the process `pid`. -/
def sysCred (table : Table) (pid : Nat) (call : CredCall) : Except Errno (Nat × Table) :=
  match table[pid]? with
  | none => .error .ESRCH
  | some p =>
    match call.apply p with
    | .error error => .error error
    | .ok changed => .ok (0, table.insert pid changed)

/-! ### Successful calls -/

variable {table after : Table} {value : Nat}

theorem sysSetsid_ok {pid : Nat} (done : sysSetsid table pid = .ok (value, after)) :
    ∃ proc, table[pid]? = some proc ∧ proc.pgid ≠ pid ∧
      after = table.insert pid { proc with sid := pid, pgid := pid } := by
  unfold sysSetsid at done
  split at done
  · cases done
  · rename_i proc found
    split at done
    · cases done
    · rename_i notLeader
      cases done
      exact ⟨proc, found, notLeader, rfl⟩

/-- A successful `sys_setpgid` moves a process of the caller's session to a group of its own
number, or to a group with a member in that session. -/
theorem sysSetpgid_ok {caller : Nat} {pid pgid : Int}
    (done : sysSetpgid table caller pid pgid = .ok (value, after)) :
    ∃ callerProc target proc newPgid, table[caller]? = some callerProc ∧
      table[target]? = some proc ∧ proc.sid = callerProc.sid ∧
      (newPgid = target ∨ ∃ (key : Nat) (member : Process), table[key]? = some member ∧
        member.pgid = newPgid ∧ member.sid = callerProc.sid) ∧
      after = table.insert target { proc with pgid := newPgid } := by
  unfold sysSetpgid at done
  split at done
  · cases done
  · split at done
    · cases done
    · rename_i target _
      split at done
      · cases done
      · rename_i callerProc foundCaller
        dsimp only at done
        generalize (if pgid = 0 then target else pgid.toNat) = newPgid at done
        split at done
        · cases done
        · rename_i proc found
          split at done
          · cases done
          · rename_i sameSession
            split at done
            · cases done
            · rename_i allowed
              cases done
              refine ⟨callerProc, target, proc, newPgid, foundCaller, found, not_not.mp sameSession,
                ?_, rfl⟩
              by_cases own : newPgid = target
              · exact .inl own
              · right
                have someMember := not_not.mp (not_and.mp allowed own)
                obtain ⟨⟨key, member⟩, listed, inGroup⟩ := List.any_eq_true.mp someMember
                have found := Std.ExtTreeMap.mem_toList_iff_getElem?_eq_some.mp listed
                exact ⟨key, member, found, of_decide_eq_true inGroup⟩

theorem exists_of_bind_ok {α β : Type} {first : Except Errno α} {rest : α → Except Errno β}
    {result : β} (done : first >>= rest = .ok result) :
    ∃ middle, first = .ok middle ∧ rest middle = .ok result := by
  cases first with
  | error error => cases done
  | ok middle => exact ⟨middle, rfl, done⟩

theorem CredCall.apply_ok {p changed : Process} {call : CredCall}
    (applied : call.apply p = .ok changed) :
    changed = { p with
      uid := changed.uid
      gid := changed.gid
      euid := changed.euid
      egid := changed.egid
      suid := changed.suid
      sgid := changed.sgid } := by
  cases call with
  | setuid uid =>
    simp only [apply, sysSetuid] at applied
    split at applied
    · cases applied
    · cases applied
      rfl
  | setgid gid =>
    simp only [apply, sysSetgid] at applied
    split at applied
    · cases applied
    · cases applied
      rfl
  | setresuid ruid euid suid =>
    obtain ⟨nr, -, rest⟩ := exists_of_bind_ok applied
    obtain ⟨ne, -, rest⟩ := exists_of_bind_ok rest
    obtain ⟨ns, -, rest⟩ := exists_of_bind_ok rest
    cases rest
    rfl
  | setresgid rgid egid sgid =>
    obtain ⟨nr, -, rest⟩ := exists_of_bind_ok applied
    obtain ⟨ne, -, rest⟩ := exists_of_bind_ok rest
    obtain ⟨ns, -, rest⟩ := exists_of_bind_ok rest
    cases rest
    rfl

theorem sysCred_ok {caller : Nat} {call : CredCall}
    (done : sysCred table caller call = .ok (value, after)) :
    ∃ p changed, table[caller]? = some p ∧ call.apply p = .ok changed ∧
      after = table.insert caller changed := by
  unfold sysCred at done
  split at done
  · cases done
  · rename_i p found
    split at done
    · cases done
    · rename_i changed applied
      cases done
      exact ⟨p, changed, found, applied, rfl⟩

/-! ### Calls one after another -/

/-- The calls on processes. A process number can also be used up without an entry, by a
kernel thread or by a `do_clone` that fails later. -/
inductive Label where
  | allocPid
  | spawn (caller : Nat)
  | clone (caller flags ptid : Nat)
  | exit (pid : Nat) (code : Int)
  | exitGroup (tgid : Nat) (code : Int)
  | setsid (caller : Nat)
  | setpgid (caller : Nat) (pid pgid : Int)
  | cred (caller : Nat) (call : CredCall)
deriving DecidableEq, Repr

namespace State

def onTable (state : State) : Except Errno (Nat × Table) → Except Errno Nat × State
  | .error error => (.error error, state)
  | .ok (value, table) => (.ok value, { state with table := table })

/-- A whole call with its result. The caller of `spawn_user_process` and `do_clone` is a
thread, so its number has been given out. -/
def perform (state : State) : Label → Option (Except Errno Nat × State)
  | .allocPid => some (.ok state.nextPid, { state with nextPid := state.nextPid + 1 })
  | .spawn caller =>
    if caller < state.nextPid then
      some (.ok state.nextPid, { state with
        table := state.table.insert state.nextPid (spawnEntry state.table state.nextPid caller)
        nextPid := state.nextPid + 1 })
    else none
  | .clone caller flags ptid =>
    if caller < state.nextPid then
      if cloneRejects flags ptid then some (.error .EINVAL, state)
      else
        some (.ok state.nextPid, { state with
          table := insertClone state.table
            (cloneEntry (parentEntry state.table caller) caller state.nextPid flags) flags
          nextPid := state.nextPid + 1 })
    else none
  | .exit pid code => some (.ok 0, noteProcessExit state pid code)
  | .exitGroup tgid code => some (.ok 0, noteThreadGroupExit state tgid code)
  | .setsid caller => some (state.onTable (sysSetsid state.table caller))
  | .setpgid caller pid pgid => some (state.onTable (sysSetpgid state.table caller pid pgid))
  | .cred caller call => some (state.onTable (sysCred state.table caller call))

def step (state : State) (label : Label) : Option State := (state.perform label).map Prod.snd

abbrev run : State → List Label → Option State := LabelledRun.run step

end State

end Cyllor.Proc
