import Cyllor.Mm.Image

/-!
Contract: the process table and the operations on its entries (`sched/process.rs`,
`sched/mod.rs`, `syscall/process.rs`).

Owns:
- `Process`, an entry with its identity, credentials and thread list, and `PROCESS_TABLE`;
- the entry that `spawn_user_process` and `do_clone` insert, and the insertion;
- the section of `note_process_exit` on the table, and the members of a thread group;
- for each operation, what a lookup finds after it.
-/

namespace Cyllor.Proc

open Cyllor.Mm (CLONE_THREAD)

/-- `Process`, without its memory, its name and its environment. -/
structure Process where
  pid : Nat
  tgid : Nat
  pgid : Nat
  sid : Nat
  ppid : Nat
  uid : UInt32
  gid : UInt32
  euid : UInt32
  egid : UInt32
  suid : UInt32
  sgid : UInt32
  noNewPrivs : Bool
  threads : List Nat
deriving DecidableEq, Repr

abbrev Table := BTreeMap Nat Process

/-! ### New entries -/

/-- The entry that `spawn_user_process` makes: a session, a group and a thread group of its
own, with the credentials of the caller, or those of root. -/
def spawnEntry (table : Table) (pid ppid : Nat) : Process :=
  let creds := match table[ppid]? with
    | some parent =>
      (parent.uid, parent.gid, parent.euid, parent.egid, parent.suid, parent.sgid)
    | none => (0, 0, 0, 0, 0, 0)
  { pid := pid
    tgid := pid
    pgid := pid
    sid := pid
    ppid := ppid
    uid := creds.1
    gid := creds.2.1
    euid := creds.2.2.1
    egid := creds.2.2.2.1
    suid := creds.2.2.2.2.1
    sgid := creds.2.2.2.2.2
    noNewPrivs := false
    threads := [pid] }

/-- What `do_clone` reads of the caller, and what it takes for a caller without an entry. -/
def parentEntry (table : Table) (parentPid : Nat) : Process :=
  match table[parentPid]? with
  | some parent => parent
  | none =>
    { pid := parentPid
      tgid := parentPid
      pgid := parentPid
      sid := parentPid
      ppid := 0
      uid := 0
      gid := 0
      euid := 0
      egid := 0
      suid := 0
      sgid := 0
      noNewPrivs := false
      threads := [] }

def CLONE_PARENT : Nat := 0x00008000

/-- The entry that `do_clone` makes for the child. -/
def cloneEntry (parent : Process) (parentPid child flags : Nat) : Process :=
  { parent with
    pid := child
    tgid := if flags &&& CLONE_THREAD ≠ 0 then parent.tgid else child
    ppid :=
      if flags &&& CLONE_THREAD ≠ 0 then parent.ppid
      else if flags &&& CLONE_PARENT ≠ 0 then parent.ppid
      else parentPid
    threads := [child] }

/-- A thread is added to the list of its leader. -/
def Process.addThread (leader : Process) (tid : Nat) : Process :=
  { leader with threads := leader.threads ++ [tid] }

/-- A thread is taken from the list of its leader. -/
def Process.dropThread (leader : Process) (tid : Nat) : Process :=
  { leader with threads := leader.threads.filter fun other => other ≠ tid }

/-- The last section of `do_clone` on the table: the entry is inserted, and a new thread is
added to the list of its leader, if the leader has an entry. -/
def insertClone (table : Table) (entry : Process) (flags : Nat) : Table :=
  let table := table.insert entry.pid entry
  if flags &&& CLONE_THREAD ≠ 0 then
    table.modify entry.tgid fun leader => leader.addThread entry.pid
  else table

/-! ### Exits -/

/-- What `note_process_exit` reads of a process: its parent and its thread group, or no
parent and a group of its own if it has no entry. -/
def exitInfo (table : Table) (pid : Nat) : Nat × Nat :=
  match table[pid]? with
  | some process => (process.ppid, process.tgid)
  | none => (0, pid)

/-- The section of `note_process_exit` on the table. -/
def dropEntry (table : Table) (pid : Nat) : Table :=
  (table.modify (exitInfo table pid).2 fun leader => leader.dropThread pid).erase pid

/-- The processes of a thread group, in key order. -/
def members (table : Table) (tgid : Nat) : List Nat :=
  (table.toList.filter fun entry => entry.2.tgid = tgid).map fun entry => entry.2.pid

/-! ### Lookups -/

variable {table : Table}

theorem getElem?_insertClone (table : Table) (entry : Process) (flags key : Nat) :
    (insertClone table entry flags)[key]? =
      (if entry.pid = key then some entry else table[key]?).map fun process =>
        if flags &&& CLONE_THREAD ≠ 0 ∧ key = entry.tgid then process.addThread entry.pid
        else process := by
  unfold insertClone
  by_cases thread : flags &&& CLONE_THREAD ≠ 0
  · rw [if_pos thread, Std.ExtTreeMap.getElem?_modify, Std.ExtTreeMap.getElem?_insert]
    by_cases isLeader : entry.tgid = key
    · simp [isLeader, thread]
    · simp [isLeader, Ne.symm isLeader, Std.ExtTreeMap.getElem?_insert]
  · simp [thread, Std.ExtTreeMap.getElem?_insert]

theorem getElem?_dropEntry (table : Table) (pid key : Nat) :
    (dropEntry table pid)[key]? =
      if pid = key then none
      else (table[key]?).map fun process =>
        if key = (exitInfo table pid).2 then process.dropThread pid else process := by
  unfold dropEntry
  rw [Std.ExtTreeMap.getElem?_erase]
  by_cases isKey : pid = key
  · simp [isKey]
  · rw [if_neg (by simpa using isKey), if_neg isKey, Std.ExtTreeMap.getElem?_modify]
    by_cases isLeader : (exitInfo table pid).2 = key
    · simp [isLeader]
    · simp [isLeader, Ne.symm isLeader]

theorem mem_members {tgid pid : Nat} : pid ∈ members table tgid ↔
    ∃ (key : Nat) (process : Process), table[key]? = some process ∧ process.tgid = tgid ∧
      process.pid = pid := by
  simp only [members, List.mem_map, List.mem_filter, Prod.exists,
    Std.ExtTreeMap.mem_toList_iff_getElem?_eq_some, decide_eq_true_eq]
  constructor
  · rintro ⟨key, process, ⟨found, inGroup⟩, isPid⟩
    exact ⟨key, process, found, inGroup, isPid⟩
  · rintro ⟨key, process, found, inGroup, isPid⟩
    exact ⟨key, process, ⟨found, inGroup⟩, isPid⟩

end Cyllor.Proc
