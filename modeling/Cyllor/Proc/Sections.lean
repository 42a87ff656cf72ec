import Cyllor.Proc.System

/-!
Contract: creation, exit, kill and wait as threads that take turns after every critical
section (`sched/mod.rs`, `ipc/signal.rs`, `syscall/process.rs`).

Owns:
- `Op`, how far a thread has got in a call, and `Machine`, the tables with the calls that
  are in progress;
- the step of one thread through its next critical section;
- the log of creations, exits and returns of waits.

Does not own: signals that do not kill, memory, file descriptors. Between two steps of one
thread any others may run.
-/

namespace Cyllor.Proc

open Cyllor.Mm (cloneRejects CLONE_VM)

def WNOHANG : Nat := 1
def WNOWAIT : Nat := 0x01000000

/-- Where a thread is in a call: the section it takes next, with what it knows by then. -/
inductive Op where
  /-- `spawn_user_process`, about to insert the entry. -/
  | spawnInsert (entry : Process)
  /-- `spawn_user_process`, about to queue the thread. -/
  | spawnQueue (pid : Nat)
  /-- `do_clone`, about to queue the thread of the child. -/
  | cloneQueue (entry : Process) (flags : Nat)
  /-- `do_clone`, about to insert the entry of the child. -/
  | cloneInsert (entry : Process) (flags : Nat)
  /-- `note_thread_group_exit`, about to collect the group; `marks` are the threads to mark
  dead in the end, and `stops` whether the caller then stops. -/
  | groupExit (tgid : Nat) (code : Int) (marks : List Nat) (stops : Bool)
  /-- About to run `note_process_exit` for the first of the processes, or to mark threads
  dead if there is none. -/
  | exits (pids : List Nat) (code : Int) (marks : List Nat) (stops : Bool)
  /-- `note_process_exit`, about to record the exit. -/
  | record (pid : Nat) (info : Nat × Nat) (code : Int) (rest marks : List Nat) (stops : Bool)
  /-- `do_wait4_with_status`, about to look for a record. -/
  | waitLook (pid : Int) (options : Nat)
  /-- About to take the record that was found. -/
  | waitTake (target : Nat) (pid : Int) (options : Nat)
  /-- About to look for a child that has an entry. -/
  | waitLive (pid : Int) (options : Nat)
  /-- About to look for a record again. -/
  | waitRecheck (pid : Int) (options : Nat)
  /-- In the last loop of `sys_exit` and `sys_exit_group`. -/
  | stopped
deriving DecidableEq, Repr

inductive Event where
  | created (entry : Process)
  | noted (pid : Nat) (code : Int)
  | returned (waiter target : Nat) (status : Int) (options : Nat)
deriving DecidableEq, Repr

/-- The tables, the threads that were queued, those marked dead, and the calls in
progress. -/
structure Machine where
  table : Table
  exited : Records
  nextPid : Nat
  queued : Nat → Bool
  dead : Nat → Bool
  ops : Nat → Option Op
  log : List Event

/-- At boot only the thread 0 runs. -/
def Machine.boot : Machine :=
  ⟨∅, ∅, 1, fun pid => pid == 0, fun _ => false, fun _ => none, []⟩

def isFatalSignal (sig : Int) : Bool := sig == 2 || sig == 3 || sig == 6 || sig == 9 || sig == 15

/-- The calls. `room` says whether the address space of a child that does not share its
parent's can be made; `signal` is the default action for a pending signal of the thread. -/
inductive ProcCall where
  | spawn
  | clone (flags ptid : Nat) (room : Bool)
  | exit (code : Int)
  | exitGroup (code : Int)
  | killGroup (tgid : Nat) (sig : Int)
  | killThread (tid : Nat) (sig : Int)
  | signal (sig : Int)
  | wait (pid : Int) (options : Nat)
deriving DecidableEq, Repr

inductive Turn where
  | call (actor : Nat) (call : ProcCall)
  | go (actor : Nat)
deriving DecidableEq, Repr

namespace Machine

def setOp (machine : Machine) (actor : Nat) (op : Option Op) : Machine :=
  { machine with ops := Function.update machine.ops actor op }

/-- A thread enters a call, up to the end of its first section. -/
def enter (machine : Machine) (actor : Nat) : ProcCall → Machine
  | .spawn =>
    { machine with nextPid := machine.nextPid + 1 }.setOp actor
      (some (.spawnInsert (spawnEntry machine.table machine.nextPid actor)))
  | .clone flags ptid room =>
    if cloneRejects flags ptid then machine
    -- the number is taken before the address space is made, and is not given back
    else if flags &&& CLONE_VM = 0 ∧ ¬ room then { machine with nextPid := machine.nextPid + 1 }
    else
      { machine with nextPid := machine.nextPid + 1 }.setOp actor
        (some (.cloneQueue
          (cloneEntry (parentEntry machine.table actor) actor machine.nextPid flags) flags))
  | .exit code => machine.setOp actor (some (.exits [actor] code [actor] true))
  | .exitGroup code =>
    let tgid := (exitInfo machine.table actor).2
    machine.setOp actor (some (.groupExit tgid code (members machine.table tgid) true))
  | .killGroup tgid sig =>
    if (members machine.table tgid).isEmpty ∨ ¬ isFatalSignal sig then machine
    else
      machine.setOp actor
        (some (.groupExit tgid (128 + sig) (members machine.table tgid) false))
  | .killThread tid sig =>
    if (machine.table[tid]?).isNone ∨ ¬ isFatalSignal sig then machine
    else machine.setOp actor (some (.exits [tid] (128 + sig) [tid] false))
  | .signal sig =>
    if isFatalSignal sig then
      machine.setOp actor (some (.exits [actor] (128 + sig) [actor] false))
    else machine
  | .wait pid options => machine.setOp actor (some (.waitLook pid options))

/-- The record that `do_wait4_with_status` finds for its caller. -/
def findRecord (exited : Records) (parent : Nat) (pid : Int) : Option Nat :=
  if 0 < pid then
    match exited[pid.toNat]? with
    | some record => if record.1 = parent then some pid.toNat else none
    | none => none
  else (exited.toList.find? fun entry => entry.2.1 = parent).map Prod.fst

/-- A child of the caller, or the one it asks for, has an entry as a thread-group leader. -/
def hasLive (table : Table) (parent : Nat) (pid : Int) : Bool :=
  table.toList.any fun entry =>
    entry.2.ppid = parent ∧ entry.2.pid = entry.2.tgid ∧ (0 < pid → entry.2.pid = pid.toNat)

/-- A thread takes the next section of its call. -/
def advance (machine : Machine) (actor : Nat) : Op → Machine
  | .spawnInsert entry =>
    { machine with
      table := machine.table.insert entry.pid entry
      log := machine.log ++ [Event.created entry] }.setOp actor (some (.spawnQueue entry.pid))
  | .spawnQueue pid =>
    { machine with queued := Function.update machine.queued pid true }.setOp actor none
  | .cloneQueue entry flags =>
    { machine with queued := Function.update machine.queued entry.pid true }.setOp actor
      (some (.cloneInsert entry flags))
  | .cloneInsert entry flags =>
    { machine with
      table := insertClone machine.table entry flags
      log := machine.log ++ [Event.created entry] }.setOp actor none
  | .groupExit tgid code marks stops =>
    machine.setOp actor (some (.exits (members machine.table tgid) code marks stops))
  | .exits (pid :: rest) code marks stops =>
    { machine with
      table := dropEntry machine.table pid
      log := machine.log ++ [Event.noted pid code] }.setOp actor
        (some (.record pid (exitInfo machine.table pid) code rest marks stops))
  | .exits [] _ marks stops =>
    { machine with dead := fun pid => machine.dead pid || marks.contains pid }.setOp actor
      (if stops then some .stopped else none)
  | .record pid info code rest marks stops =>
    { machine with exited := recordExit machine.exited pid info code }.setOp actor
      (some (.exits rest code marks stops))
  | .waitLook pid options =>
    match findRecord machine.exited actor pid with
    | some target => machine.setOp actor (some (.waitTake target pid options))
    | none => machine.setOp actor (some (.waitLive pid options))
  | .waitTake target _ options =>
    let status := match machine.exited[target]? with
      | some record => record.2
      | none => 0
    { machine with
      exited := if options &&& WNOWAIT ≠ 0 then machine.exited else machine.exited.erase target
      log := machine.log ++ [Event.returned actor target status options] }.setOp actor none
  | .waitLive pid options =>
    if hasLive machine.table actor pid then
      machine.setOp actor (if options &&& WNOHANG ≠ 0 then none else some (.waitLook pid options))
    else machine.setOp actor (some (.waitRecheck pid options))
  | .waitRecheck pid options =>
    if (findRecord machine.exited actor pid).isSome then
      machine.setOp actor (some (.waitLook pid options))
    else machine.setOp actor none
  | .stopped => machine

/-- A thread that was queued enters a call when it is in none, and goes on with the call it
is in. -/
def step (machine : Machine) : Turn → Option Machine
  | .call actor call =>
    if machine.queued actor ∧ machine.ops actor = none then some (machine.enter actor call)
    else none
  | .go actor => (machine.ops actor).map fun op => machine.advance actor op

abbrev run : Machine → List Turn → Option Machine := LabelledRun.run step

end Machine

end Cyllor.Proc
