import Cyllor.Base

/-!
Contract: threads and their saved register contexts (`sched/process.rs`,
`arch/aarch64/context.rs`).

Owns: `ThreadState`, `Context` with its first-run preparation, the save and
restore halves of the assembly context switch, and the constructors of kernel,
idle and user threads.

Does not own: thread names, kernel-stack contents and address-space handles,
which no scheduling decision reads.
-/

namespace Cyllor.Sched

abbrev Pid := Nat

inductive ThreadState where
  | Ready
  | Running
  | Blocked
  | Dead
deriving DecidableEq, Repr

/-- Callee-saved registers and stack pointer: what a context switch moves. -/
structure Registers where
  x19 : Nat
  x20 : Nat
  x21 : Nat
  x22 : Nat
  x23 : Nat
  x24 : Nat
  x25 : Nat
  x26 : Nat
  x27 : Nat
  x28 : Nat
  x29 : Nat
  x30 : Nat
  sp : Nat
deriving DecidableEq, Repr

/-- Saved context of a thread. The user fields are read only when a user thread
runs for the first time; the switch itself never touches them. -/
structure Context extends Registers where
  userPc : Nat
  userFlags : Nat
  userSp : Nat
  pageTableRoot : Nat
  userTls : Nat
deriving DecidableEq, Repr

namespace Context

def zero : Context where
  x19 := 0
  x20 := 0
  x21 := 0
  x22 := 0
  x23 := 0
  x24 := 0
  x25 := 0
  x26 := 0
  x27 := 0
  x28 := 0
  x29 := 0
  x30 := 0
  sp := 0
  userPc := 0
  userFlags := 0
  userSp := 0
  pageTableRoot := 0
  userTls := 0

/-- `Context::prepare_first_run` (AArch64): hand the user fields to the
trampoline in callee-saved registers. -/
def prepareFirstRun (context : Context) : Context :=
  { context with
    x19 := context.userPc
    x20 := context.userFlags
    x21 := context.userSp
    x22 := context.pageTableRoot
    x23 := context.userTls }

def save (context : Context) (registers : Registers) : Context :=
  { context with toRegisters := registers }

end Context

structure Thread where
  pid : Pid
  state : ThreadState
  context : Context
  vruntime : Nat
  isUser : Bool
  firstRun : Bool
deriving DecidableEq, Repr

namespace Thread

/-- `Thread::new_kernel`, with the pid that `alloc_pid` returned. -/
def newKernel (pid entry stackTop : Nat) : Thread where
  pid := pid
  state := .Ready
  context := { Context.zero with x30 := entry, sp := stackTop }
  vruntime := 0
  isUser := false
  firstRun := false

def newIdle : Thread where
  pid := 0
  state := .Running
  context := Context.zero
  vruntime := u64Max
  isUser := false
  firstRun := false

/-- `Thread::new_user_cloned`; `Thread::new_user` is the case `tls = 0` with the
root of a fresh address space. -/
def newUserCloned (pid trampoline stackTop userPc userSp root tls : Nat) : Thread where
  pid := pid
  state := .Ready
  context :=
    { Context.zero with
      x30 := trampoline
      sp := stackTop
      userPc := userPc
      userSp := userSp
      pageTableRoot := root
      userTls := tls }
  vruntime := 0
  isUser := true
  firstRun := true

end Thread

end Cyllor.Sched
