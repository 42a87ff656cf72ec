import Cyllor.Proc.Sections

/-!
Contract: the signal tables and the critical sections on them (`ipc/signal.rs`).

Owns:
- `SignalTables`, the maps from threads to pending and blocked signals and to actions;
- the calls that send a signal, each as a whole.
-/

namespace Cyllor.Signal

open Cyllor.Proc (isFatalSignal)
open Call hiding pure bind

/-! ### Tables -/

/-- One bit for each of the signals 1 to 64. -/
abbrev Sigset := BitVec 64

structure KernelSigAction where
  handler : BitVec 64
deriving DecidableEq, Repr

instance : Inhabited KernelSigAction := ⟨⟨0⟩⟩

structure SignalTables where
  pending : BTreeMap Nat Sigset
  blocked : BTreeMap Nat Sigset
  actions : BTreeMap Nat (BTreeMap Int KernelSigAction)

def SignalTables.boot : SignalTables := ⟨∅, ∅, ∅⟩

/-- `1u64 << (sig - 1)`. -/
def signalBit (sig : Int) : Sigset := 1#64 <<< (sig - 1).toNat

def validSignal (sig : Int) : Bool := decide (0 ≤ sig ∧ sig ≤ 64)

namespace SignalTables

def pendingOf (tables : SignalTables) (pid : Nat) : Sigset := (tables.pending[pid]?).getD 0

def blockedOf (tables : SignalTables) (pid : Nat) : Sigset := (tables.blocked[pid]?).getD 0

/-- The action of a thread for a signal, the default one if none was set. -/
def actionOf (tables : SignalTables) (pid : Nat) (sig : Int) : KernelSigAction :=
  ((tables.actions[pid]?).bind fun table => table[sig]?).getD default

def queueSignal (tables : SignalTables) (pid : Nat) (sig : Int) : SignalTables :=
  if sig ≤ 0 ∨ 64 < sig then tables
  else { tables with pending := tables.pending.insert pid (tables.pendingOf pid ||| signalBit sig) }

end SignalTables

/-! ### Delivery -/

/-- What the calls on signals share: the signal tables, the processes, and which threads were
marked dead. -/
structure Shared where
  tables : SignalTables
  procs : Proc.State
  dead : Nat → Bool

def Shared.markThreadsDead (shared : Shared) (pids : List Nat) : Shared :=
  { shared with dead := fun pid => decide (pid ∈ pids) || shared.dead pid }

/-! ### Sending -/

abbrev SendCall (α : Type) := Call Shared Errno α

/-- `queue_signal` for each of the threads. -/
def Shared.queueSignals (shared : Shared) (pids : List Nat) (sig : Int) : Shared :=
  { shared with tables := pids.foldl (fun tables pid => tables.queueSignal pid sig) shared.tables }

def killThreadGroup (tgid : Nat) (sig : Int) : SendCall Unit := do
  let members ← gets fun shared => Proc.members shared.procs.table tgid
  if members.isEmpty then throw .ESRCH
  else
    modify fun shared => shared.queueSignals members sig
    if isFatalSignal sig then
      modify fun shared =>
        { shared with procs := Proc.noteThreadGroupExit shared.procs tgid (128 + sig) }
      modify fun shared => shared.markThreadsDead members

def asSet (numbers : List Nat) : List Nat :=
  (numbers.foldl (fun set number => set.insert number ()) (∅ : BTreeMap Nat Unit)).keys

/-- The thread groups whose leader is in the process group. -/
def leaders (table : Proc.Table) (pgid : Nat) : List Nat :=
  asSet ((table.toList.filter fun entry =>
    entry.2.pgid = pgid ∧ entry.2.pid = entry.2.tgid).map fun entry => entry.2.tgid)

/-- `let _ = kill_thread_group(..)` for each of the groups. -/
def killEach (tgids : List Nat) (sig : Int) : SendCall Unit :=
  forEach (fun tgid => do
    let _ ← (attempt (killThreadGroup tgid sig) : SendCall (Except Errno Unit))
    return ()) tgids

def killProcessGroup (pgid : Nat) (sig : Int) : SendCall Unit := do
  let tgids ← gets fun shared => leaders shared.procs.table pgid
  if tgids.isEmpty then throw .ESRCH else killEach tgids sig

def killSingleThread (tid : Nat) (sig : Int) : SendCall Unit := do
  let found ← gets fun shared => shared.procs.table[tid]?
  if found.isNone then throw .ESRCH
  else
    modify fun shared => shared.queueSignals [tid] sig
    if isFatalSignal sig then
      modify fun shared =>
        { shared with procs := Proc.noteProcessExit shared.procs tid (128 + sig) }
      modify fun shared => shared.markThreadsDead [tid]

/-- `as i32` of a process number. -/
def asI32 (number : Nat) : Int := (BitVec.ofNat 32 number).toInt

/-- `deliver_signal_to_pgrp`, which the terminal calls too. -/
def deliverSignalToPgrp (pgrp sig : Int) : SendCall Unit := do
  if pgrp ≤ 0 ∨ ¬ validSignal sig then return ()
  else
    let _ ← (attempt (killProcessGroup pgrp.toNat sig) : SendCall (Except Errno Unit))
    return ()

/-- The process group of the caller. -/
def callerPgrp (table : Proc.Table) (caller : Nat) : Nat :=
  match table[caller]? with
  | some process => process.pgid
  | none => caller

def I32_MIN : Int := -2147483648

/-- `-pid` of an `i32`, which must not overflow. -/
def negated (pid : Int) : SendCall Int := if pid = I32_MIN then hang else return -pid

/-- `do_kill` with signal 0, which only asks whether there is a target. -/
def probe (caller : Nat) (pid : Int) : SendCall Nat := do
  if 0 < pid then
    let members ← gets fun shared => Proc.members shared.procs.table pid.toNat
    if members.isEmpty then throw .ESRCH else return 0
  else if pid = 0 then
    let pgrp ← gets fun shared => callerPgrp shared.procs.table caller
    killProcessGroup pgrp 0
    return 0
  else if pid < -1 then
    let pgrp ← negated pid
    killProcessGroup pgrp.toNat 0
    return 0
  else return 0

/-- `do_kill` of the thread `caller`. -/
def doKill (caller : Nat) (pid sig : Int) : SendCall Nat := do
  if ¬ validSignal sig then throw .EINVAL
  else if sig = 0 then probe caller pid
  else if 0 < pid then
    killThreadGroup pid.toNat sig
    return 0
  else if pid = 0 then
    let pgrp ← gets fun shared => callerPgrp shared.procs.table caller
    deliverSignalToPgrp (asI32 pgrp) sig
    return 0
  else if pid = -1 then
    let tgids ← gets fun shared => asSet ((shared.procs.table.toList.map fun entry =>
      entry.2.tgid).filter fun tgid => tgid ≠ 0)
    killEach tgids sig
    return 0
  else
    let pgrp ← negated pid
    deliverSignalToPgrp pgrp sig
    return 0

def doTgkill (tgid tid sig : Int) : SendCall Nat := do
  if ¬ validSignal sig ∨ tgid ≤ 0 ∨ tid ≤ 0 then throw .EINVAL
  else
    let found ← gets fun shared => shared.procs.table[tid.toNat]?
    match found with
    | none => throw .ESRCH
    | some process =>
      if process.tgid ≠ tgid.toNat then throw .ESRCH
      else if sig = 0 then return 0
      else if process.pid = process.tgid then
        killThreadGroup tgid.toNat sig
        return 0
      else
        killSingleThread tid.toNat sig
        return 0

end Cyllor.Signal
