import Cyllor.Arch.Context
import Cyllor.Arch.TrapFrame
import Cyllor.Sched.Scheduler

/-!
Contract: the thread that `do_clone` makes, up to its first instruction in user mode
(`sched/mod.rs`).

Owns:
- the flag checks of `do_clone` and the thread it queues;
- `firstEntry`, the way of a thread from its first context switch through the
  trampoline to user mode;
- which part of the parent's registers the child starts with.
-/

namespace Cyllor.Sched

open Arch Machine Scheduler

def CLONE_VM : Word := 0x0000_0100
def CLONE_SIGHAND : Word := 0x0000_0800
def CLONE_PIDFD : Word := 0x0000_1000
def CLONE_THREAD : Word := 0x0001_0000
def CLONE_SETTLS : Word := 0x0008_0000
def CLONE_PARENT_SETTID : Word := 0x0010_0000

def hasFlag (flags flag : Word) : Bool := flags &&& flag ≠ 0

/-- The checks at the start of `do_clone`. -/
def cloneCheck (flags ptid : Word) : Except Errno Unit :=
  let exitSignal := flags &&& 0xff
  if hasFlag flags CLONE_THREAD ∧ (¬ hasFlag flags CLONE_SIGHAND ∨ ¬ hasFlag flags CLONE_VM) then
    .error .EINVAL
  else if hasFlag flags CLONE_THREAD ∧ exitSignal ≠ 0 then .error .EINVAL
  else if hasFlag flags CLONE_SIGHAND ∧ ¬ hasFlag flags CLONE_VM then .error .EINVAL
  else if hasFlag flags CLONE_PIDFD ∧ hasFlag flags CLONE_PARENT_SETTID then .error .EINVAL
  else if hasFlag flags CLONE_PIDFD ∧ ptid = 0 then .error .EINVAL
  else .ok ()

/-- Where the kernel put the new thread: its id, its kernel stack and the trampoline. -/
structure Placement where
  child : Pid
  trampoline : Nat
  stackTop : Nat
deriving DecidableEq, Repr

/-- The thread that `do_clone` queues. `current` is the Context of the caller's thread, and
`copied` the root of the copied address space, or why there is none. -/
def cloneThread (frame : TrapFrame) (flags stack ptid tls : Word) (current : Option Context)
    (copied : Except Errno Nat) (placement : Placement) : Except Errno Thread := do
  cloneCheck flags ptid
  let childSp := if stack ≠ 0 then stack else frame.sp
  let childPc := frame.elr
  let context ← match current with
    | none => .error .ESRCH
    | some context => .ok context
  let childTls := if hasFlag flags CLONE_SETTLS then tls.toNat else context.userTls
  if hasFlag flags CLONE_VM then
    return Thread.newUserCloned placement.child placement.trampoline placement.stackTop
      childPc.toNat childSp.toNat context.pageTableRoot childTls
  else
    let root ← copied
    let thread := Thread.newUserCloned placement.child placement.trampoline placement.stackTop
      childPc.toNat childSp.toNat root 0
    return { thread with context := { thread.context with userTls := childTls } }

/-- A CPU switches to a new thread, from its idle thread or from another one, and the
thread goes through the trampoline to user mode. -/
def firstEntry (machine : Machine) (fromIdle : Bool) : UserView :=
  (machine.execAll ((if fromIdle then switchToNew else loadContext) ++
    returnToUserTrampoline)).eret

/-- The register that points to the Context which is switched to. -/
def newContext (fromIdle : Bool) : Reg := if fromIdle then 0 else 1

/-- The Context of the thread is where the switch loads it from. -/
def SwitchesInto (machine : Machine) (fromIdle : Bool) (thread : Thread) : Prop :=
  contextAt machine.memory (machine.x (newContext fromIdle)).toNat =
    registerWords thread.context.toRegisters

instance (machine : Machine) (fromIdle : Bool) (thread : Thread) :
    Decidable (SwitchesInto machine fromIdle thread) :=
  inferInstanceAs (Decidable (_ = _))

/-- What user mode is meant to see in the child: the registers of the parent's frame with
`x0 = 0`, on the new stack if one was given, and with the new thread-local storage if
one was asked for. -/
def clonedView (frame : TrapFrame) (flags stack tls parentTls : Word) : UserView where
  regs := Function.update frame.regs 0 0
  sp := if stack ≠ 0 then stack else frame.sp
  pc := frame.elr
  tls := if hasFlag flags CLONE_SETTLS then tls else parentTls

/-! ### The first entry -/

theorem calleeSaved_switch (machine : Machine) (fromIdle : Bool) :
    (machine.execAll (if fromIdle then switchToNew else loadContext)).calleeSaved =
      contextAt machine.memory (machine.x (newContext fromIdle)).toNat := by
  cases fromIdle with
  | true => exact calleeSaved_switchToNew machine
  | false => exact calleeSaved_loadContext machine

/-- A user thread that is admitted for the first time enters user mode with its user
fields, and with zero in every general register. -/
theorem firstEntry_eq {machine : Machine} {fromIdle : Bool} {thread : Thread}
    (isUser : thread.isUser = true) (isNew : thread.firstRun = true)
    (switches : SwitchesInto machine fromIdle (dispatch thread)) :
    firstEntry machine fromIdle =
      ⟨fun _ => 0, BitVec.ofNat 64 thread.context.userSp, BitVec.ofNat 64 thread.context.userPc,
        BitVec.ofNat 64 thread.context.userTls⟩ := by
  have loaded := (calleeSaved_switch machine fromIdle).trans switches
  have admitted : (dispatch thread).context = thread.context.prepareFirstRun := by
    simp [dispatch, isUser, isNew]
  rw [admitted] at loaded
  simp only [calleeSaved, registerWords, Context.prepareFirstRun, List.map_cons, List.map_nil,
    List.cons.injEq] at loaded
  obtain ⟨x19, -, x21, -, x23, -⟩ := loaded
  rw [firstEntry, execAll, List.foldl_append, ← execAll, ← execAll, eret_returnToUserTrampoline,
    x19, x21, x23]

theorem cloneThread_ok {frame : TrapFrame} {flags stack ptid tls : Word} {context : Context}
    {copied : Except Errno Nat} {placement : Placement} {thread : Thread}
    (cloned : cloneThread frame flags stack ptid tls (some context) copied placement = .ok thread) :
    thread.isUser = true ∧ thread.firstRun = true ∧
      thread.context.userSp = (if stack ≠ 0 then stack else frame.sp).toNat ∧
      thread.context.userPc = frame.elr.toNat ∧
      thread.context.userTls =
        if hasFlag flags CLONE_SETTLS then tls.toNat else context.userTls := by
  simp only [cloneThread, bind, Except.bind, pure, Except.pure] at cloned
  cases checked : cloneCheck flags ptid with
  | error errno =>
    rw [checked] at cloned
    cases cloned
  | ok _ =>
    rw [checked] at cloned
    dsimp only at cloned
    split at cloned
    · obtain rfl := Except.ok.inj cloned
      exact ⟨rfl, rfl, rfl, rfl, rfl⟩
    · cases copied with
      | error errno => cases cloned
      | ok root =>
        obtain rfl := Except.ok.inj cloned
        exact ⟨rfl, rfl, rfl, rfl, rfl⟩

/-- The child of a successful `do_clone` starts in user mode with the parent's stack
pointer or its new one, and at the parent's program counter; but its general registers
are zero and not the parent's, and the thread-local storage that it inherits is the
one the kernel has noted for the parent, not the one in the parent's register. -/
theorem firstEntry_eq_clonedView_iff {frame : TrapFrame} {flags stack ptid tls : Word}
    {context : Context} {copied : Except Errno Nat} {placement : Placement} {thread : Thread}
    (cloned : cloneThread frame flags stack ptid tls (some context) copied placement = .ok thread)
    {machine : Machine} {fromIdle : Bool}
    (switches : SwitchesInto machine fromIdle (dispatch thread)) (parentTls : Word) :
    firstEntry machine fromIdle = clonedView frame flags stack tls parentTls ↔
      (∀ register, register ≠ 0 → frame.regs register = 0) ∧
        (hasFlag flags CLONE_SETTLS = false → BitVec.ofNat 64 context.userTls = parentTls) := by
  obtain ⟨isUser, isNew, userSp, userPc, userTls⟩ := cloneThread_ok cloned
  rw [firstEntry_eq isUser isNew switches, userSp, userPc, userTls, clonedView,
    BitVec.ofNat_toNat, BitVec.setWidth_eq, BitVec.ofNat_toNat, BitVec.setWidth_eq,
    UserView.mk.injEq]
  have general : (fun _ => 0) = Function.update frame.regs 0 0 ↔
      ∀ register, register ≠ 0 → frame.regs register = 0 := by
    rw [Function.eq_update_iff]
    exact ⟨fun same register other => (same.2 register other).symm,
      fun zero => ⟨rfl, fun register other => (zero register other).symm⟩⟩
  have storage : BitVec.ofNat 64 (if hasFlag flags CLONE_SETTLS then tls.toNat else
        context.userTls) = (if hasFlag flags CLONE_SETTLS then tls else parentTls) ↔
      (hasFlag flags CLONE_SETTLS = false → BitVec.ofNat 64 context.userTls = parentTls) := by
    cases hasFlag flags CLONE_SETTLS with
    | true => simp
    | false => simp
  rw [general, storage]
  tauto

/-- A CPU that is about to leave its idle thread for a thread whose Context is at 0x1000. -/
private def leavingIdle (thread : Thread) : Machine :=
  ⟨fun _ => 0x1000, 0, 0xFFFF000000010000, true, 0, 0, 0, 0,
    (registerWords thread.context.toRegisters).zipIdx.foldl
      (fun memory word => memory.setWord (0x1000 + 8 * word.2) word.1) fun _ => 0⟩

/-- The frame of a parent that calls `clone` at 0x401000, with one register in use. -/
private def parentFrame (register : Reg) (value : Word) : TrapFrame :=
  ⟨Function.update (fun _ => 0) register value, 0x7FFFFFFEFF00, 0x401000, 0⟩

private def forked (frame : TrapFrame) : Thread :=
  Thread.newUserCloned 2 0xFFFF000000080000 0xFFFF000000020000 frame.elr.toNat frame.sp.toNat
    0x5000 0x6000

/-- The child of a fork by a thread with nothing in its registers but `x0`. -/
theorem firstEntry_of_fork_without_registers :
    firstEntry (leavingIdle (dispatch (forked (parentFrame 0 0x11)))) true =
      clonedView (parentFrame 0 0x11) 0x11 0 0 0x6000 := by
  have cloned : cloneThread (parentFrame 0 0x11) 0x11 0 0 0
      (some { Context.zero with userTls := 0x6000 }) (.ok 0x5000)
      ⟨2, 0xFFFF000000080000, 0xFFFF000000020000⟩ = .ok (forked (parentFrame 0 0x11)) := rfl
  have switches : SwitchesInto (leavingIdle (dispatch (forked (parentFrame 0 0x11)))) true
      (dispatch (forked (parentFrame 0 0x11))) := by
    decide +kernel
  exact (firstEntry_eq_clonedView_iff cloned switches 0x6000).mpr
    ⟨by decide +kernel, by decide +kernel⟩

/-- The child of a fork loses the parent's `x19`. -/
theorem fork_loses_register :
    cloneThread (parentFrame 19 7) 0x11 0 0 0
        (some { Context.zero with userTls := 0x6000 }) (.ok 0x5000)
        ⟨2, 0xFFFF000000080000, 0xFFFF000000020000⟩ = .ok (forked (parentFrame 19 7)) ∧
      SwitchesInto (leavingIdle (dispatch (forked (parentFrame 19 7)))) true
        (dispatch (forked (parentFrame 19 7))) ∧
      (firstEntry (leavingIdle (dispatch (forked (parentFrame 19 7)))) true).regs 19 = 0 ∧
      (clonedView (parentFrame 19 7) 0x11 0 0 0x6000).regs 19 = 7 := by
  exact ⟨rfl, by decide +kernel, by decide +kernel, rfl⟩

end Cyllor.Sched
