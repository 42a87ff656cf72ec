import Cyllor.Arch.Machine
import Mathlib.Tactic

/-!
Contract: the trap frame between user mode and the kernel (`arch/aarch64/exceptions.rs`).

Owns:
- `TrapFrame`, laid out as the source lays it out, and the `CpuContext` operations on it;
- `SAVE_REGS` and `RESTORE_REGS`, and the path from an exception through a handler
  back to user mode;
- which slots of the frame the two macros fill and read.
-/

namespace Cyllor.Arch

open Machine

/-! ### The macros -/

/-- The pairs of registers that both macros move, with their offsets. -/
def pairs (move : Reg → Reg → Base → Nat → Instr) : List Instr :=
  [move 0 1 .sp 0, move 2 3 .sp 16, move 4 5 .sp 32, move 6 7 .sp 48, move 8 9 .sp 64,
    move 10 11 .sp 80, move 12 13 .sp 96, move 14 15 .sp 112, move 16 17 .sp 128,
    move 18 19 .sp 144, move 20 21 .sp 160, move 22 23 .sp 176, move 24 25 .sp 192,
    move 26 27 .sp 208, move 28 29 .sp 224]

def saveRegs : List Instr :=
  [.subSp 272] ++ pairs .stp ++
    [.str 30 .sp 240, .mrs 0 .ELR_EL1, .mrs 1 .SPSR_EL1, .stp 0 1 .sp 256]

def restoreRegs : List Instr :=
  [.ldp 0 1 .sp 256, .msr .ELR_EL1 0, .msr .SPSR_EL1 1] ++ pairs .ldp ++
    [.ldr 30 .sp 240, .addSp 272]

/-! ### The frame -/

/-- `TrapFrame`, with the fields in the order of the source. -/
structure TrapFrame where
  regs : Reg → Word
  sp : Word
  elr : Word
  spsr : Word

namespace TrapFrame

/-- Number of the word that holds a field: the fields follow one another. -/
def spSlot : Nat := 31
def elrSlot : Nat := 32
def spsrSlot : Nat := 33

def read (memory : ByteMemory) (addr : Nat) : TrapFrame where
  regs register := memory.slots addr register
  sp := memory.slots addr spSlot
  elr := memory.slots addr elrSlot
  spsr := memory.slots addr spsrSlot

end TrapFrame

/-- Updates that a handler makes through `CpuContext`. -/
inductive ContextUpdate where
  | setReg (register : Reg) (value : Word)
  | setPc (value : Word)
  | setSp (value : Word)
deriving DecidableEq, Repr

/-- What the update does to the frame as a value. -/
def TrapFrame.apply (frame : TrapFrame) : ContextUpdate → TrapFrame
  | .setReg register value => { frame with regs := Function.update frame.regs register value }
  | .setPc value => { frame with elr := value }
  | .setSp value => { frame with sp := value }

/-- The update in memory, through the pointer that the handler was given. -/
def ContextUpdate.write (addr : Nat) (memory : ByteMemory) : ContextUpdate → ByteMemory
  | .setReg register value => memory.setWord (addr + 8 * register) value
  | .setPc value => memory.setWord (addr + 8 * TrapFrame.elrSlot) value
  | .setSp value => memory.setWord (addr + 8 * TrapFrame.spSlot) value

/-- The user stack pointer that the updates ask for last. -/
def lastSp : List ContextUpdate → (before : Word) → Word
  | [], before => before
  | .setSp value :: updates, _ => lastSp updates value
  | _ :: updates, before => lastSp updates before

/-- Registers that a handler leaves in any state; a handler that calls the scheduler comes
back with the user stack pointer that another thread was started with. -/
structure Clobbered where
  x : Reg → Word
  spEl0 : Word
  elr : Word
  spsr : Word

/-- The CPU when the handler returns: it has made its updates, and the stack pointer is
where it was. -/
def handle (machine : Machine) (updates : List ContextUpdate) (clobbered : Clobbered) : Machine :=
  { machine with
    x := clobbered.x
    spEl0 := clobbered.spEl0
    elr := clobbered.elr
    spsr := clobbered.spsr
    memory := updates.foldl (ContextUpdate.write machine.sp.toNat) machine.memory }

@[simp] theorem handle_spSel (machine : Machine) (updates : List ContextUpdate)
    (clobbered : Clobbered) : (handle machine updates clobbered).spSel = machine.spSel := rfl

@[simp] theorem handle_spEl0 (machine : Machine) (updates : List ContextUpdate)
    (clobbered : Clobbered) : (handle machine updates clobbered).spEl0 = clobbered.spEl0 := rfl

/-! ### What the macros do -/

/-- `SAVE_REGS` fills every word of the frame but the one of the user stack pointer. -/
theorem execAll_saveRegs (machine : Machine) (onKernelStack : machine.spSel = true) :
    (machine.execAll saveRegs).spSel = true ∧
      TrapFrame.read (machine.execAll saveRegs).memory (machine.execAll saveRegs).sp.toNat =
        ⟨machine.x, machine.memory.slots (machine.spEl1 - 272#64).toNat TrapFrame.spSlot,
          machine.elr,
          machine.spsr⟩ := by
  obtain ⟨x, spEl0, spEl1, spSel, elr, spsr, tpidr, ttbr0, memory⟩ := machine
  obtain rfl : spSel = true := onKernelStack
  simp only [saveRegs, pairs, execAll, List.cons_append, List.nil_append, List.foldl_cons,
    List.foldl_nil, exec, Machine.sp, Machine.setSp, address, store, setX, readSys, if_true]
  refine ⟨trivial, ?_⟩
  simp only [TrapFrame.read, TrapFrame.mk.injEq, TrapFrame.spSlot, TrapFrame.elrSlot,
    TrapFrame.spsrSlot, ByteMemory.slots_setWord, Nat.reduceAdd, Nat.reduceMod, Nat.reduceDiv]
  refine ⟨?_, ?_, ?_, ?_⟩
  · funext register
    fin_cases register <;> rfl
  · rfl
  · rfl
  · rfl

/-- `RESTORE_REGS` reads every word of the frame but the one of the user stack pointer,
which stays what it is. -/
theorem eret_restoreRegs (machine : Machine) (onKernelStack : machine.spSel = true) :
    (machine.execAll restoreRegs).eret =
      ⟨(TrapFrame.read machine.memory machine.sp.toNat).regs, machine.spEl0,
        (TrapFrame.read machine.memory machine.sp.toNat).elr, machine.tpidr⟩ := by
  obtain ⟨x, spEl0, spEl1, spSel, elr, spsr, tpidr, ttbr0, memory⟩ := machine
  obtain rfl : spSel = true := onKernelStack
  simp only [restoreRegs, pairs, execAll, List.cons_append, List.nil_append, List.foldl_cons,
    List.foldl_nil, exec, Machine.sp, Machine.setSp, address, load, setX, writeSys, eret, if_true,
    Nat.reduceAdd, Nat.reduceDiv, UserView.mk.injEq]
  refine ⟨?_, trivial, ?_, trivial⟩
  · funext register
    fin_cases register <;> rfl
  · rfl

/-! ### From user mode to user mode -/

theorem TrapFrame.read_write (memory : ByteMemory) (addr : Nat) (update : ContextUpdate) :
    read (update.write addr memory) addr = (read memory addr).apply update := by
  cases update with
  | setReg register value =>
    have number : 8 * (register : Nat) / 8 = register := by omega
    simp only [ContextUpdate.write, read, apply, spSlot, elrSlot, spsrSlot,
      ByteMemory.slots_setWord _ _ _ (Nat.mul_mod_right 8 register), number, TrapFrame.mk.injEq]
    refine ⟨?_, ?_, ?_, ?_⟩
    · funext other
      by_cases same : other = register
      · rw [same, Function.update_self, Function.update_self]
      · rw [Function.update_of_ne same, Function.update_of_ne fun equal => same (Fin.ext equal)]
    all_goals exact Function.update_of_ne (by omega) _ _
  | setPc value =>
    simp only [ContextUpdate.write, read, apply, spSlot, elrSlot, spsrSlot, Nat.reduceMul,
      ByteMemory.slots_setWord, Nat.reduceMod, Nat.reduceDiv, TrapFrame.mk.injEq]
    refine ⟨?_, rfl, rfl, rfl⟩
    funext other
    exact Function.update_of_ne (by omega) _ _
  | setSp value =>
    simp only [ContextUpdate.write, read, apply, spSlot, elrSlot, spsrSlot, Nat.reduceMul,
      ByteMemory.slots_setWord, Nat.reduceMod, Nat.reduceDiv, TrapFrame.mk.injEq]
    refine ⟨?_, rfl, rfl, rfl⟩
    funext other
    exact Function.update_of_ne (by omega) _ _

theorem TrapFrame.read_foldl_write (addr : Nat) (updates : List ContextUpdate)
    (memory : ByteMemory) :
    read (updates.foldl (ContextUpdate.write addr) memory) addr =
      updates.foldl TrapFrame.apply (read memory addr) := by
  induction updates generalizing memory with
  | nil => rfl
  | cons update updates ih =>
    rw [List.foldl_cons, ih, read_write, List.foldl_cons]

theorem read_handle (machine : Machine) (onKernelStack : machine.spSel = true)
    (updates : List ContextUpdate) (clobbered : Clobbered) :
    TrapFrame.read (handle machine updates clobbered).memory
        (handle machine updates clobbered).sp.toNat =
      updates.foldl TrapFrame.apply (TrapFrame.read machine.memory machine.sp.toNat) := by
  obtain ⟨x, spEl0, spEl1, spSel, elr, spsr, tpidr, ttbr0, memory⟩ := machine
  obtain rfl : spSel = true := onKernelStack
  exact TrapFrame.read_foldl_write spEl1.toNat updates memory

theorem TrapFrame.sp_foldl_apply (updates : List ContextUpdate) (frame : TrapFrame) :
    (updates.foldl TrapFrame.apply frame).sp = lastSp updates frame.sp := by
  induction updates generalizing frame with
  | nil => rfl
  | cons update updates ih =>
    rw [List.foldl_cons, ih]
    cases update <;> rfl

/-- The CPU after exception entry and `SAVE_REGS`. -/
def enter (machine : Machine) (pc pstate : Word) : Machine :=
  (machine.takeException pc pstate).execAll saveRegs

/-- The frame that the handler is given. -/
def savedFrame (machine : Machine) (pc pstate : Word) : TrapFrame :=
  TrapFrame.read (enter machine pc pstate).memory (enter machine pc pstate).sp.toNat

theorem enter_spec (machine : Machine) (pc pstate : Word) :
    (enter machine pc pstate).spSel = true ∧
      savedFrame machine pc pstate =
        ⟨machine.x, machine.memory.slots (machine.spEl1 - 272#64).toNat TrapFrame.spSlot, pc,
          pstate⟩ := by
  unfold savedFrame enter
  exact execAll_saveRegs (machine.takeException pc pstate) rfl

/-- What user mode goes on with after the handler, `RESTORE_REGS` and `eret`. -/
def resume (machine : Machine) (pc pstate : Word) (updates : List ContextUpdate)
    (clobbered : Clobbered) : UserView :=
  ((handle (enter machine pc pstate) updates clobbered).execAll restoreRegs).eret

def TrapFrame.Saves (frame : TrapFrame) (machine : Machine) (pc : Word) : Prop :=
  frame.regs = machine.x ∧ frame.sp = machine.spEl0 ∧ frame.elr = pc

def TrapFrame.Resumes (frame : TrapFrame) (view : UserView) : Prop :=
  view.regs = frame.regs ∧ view.sp = frame.sp ∧ view.pc = frame.elr

/-- The general registers and the program counter travel through the frame in both
directions; the frame and user mode agree on the stack pointer only when the unwritten
word of the kernel stack already holds it and `SP_EL0` is, when the handler returns, what the
handler asked for last. -/
theorem saves_and_resumes_iff (machine : Machine) (pc pstate : Word) (updates : List ContextUpdate)
    (clobbered : Clobbered) :
    (savedFrame machine pc pstate).Saves machine pc ∧
        (updates.foldl TrapFrame.apply (savedFrame machine pc pstate)).Resumes
          (resume machine pc pstate updates clobbered) ↔
      machine.memory.slots (machine.spEl1 - 272#64).toNat TrapFrame.spSlot = machine.spEl0 ∧
        lastSp updates machine.spEl0 = clobbered.spEl0 := by
  obtain ⟨onKernelStack, saved⟩ := enter_spec machine pc pstate
  have resumed := eret_restoreRegs (handle (enter machine pc pstate) updates clobbered)
    ((handle_spSel _ _ _).trans onKernelStack)
  rw [read_handle _ onKernelStack, handle_spEl0, ← savedFrame] at resumed
  rw [resume, resumed, TrapFrame.Saves, TrapFrame.Resumes, TrapFrame.sp_foldl_apply, saved]
  constructor
  · rintro ⟨⟨-, slot, -⟩, -, sp, -⟩
    dsimp only at slot sp
    rw [slot] at sp
    exact ⟨slot, sp.symm⟩
  · rintro ⟨slot, sp⟩
    dsimp only
    rw [slot]
    exact ⟨⟨rfl, rfl, rfl⟩, rfl, sp.symm, rfl⟩

/-- A user thread traps with a cleared kernel stack, and the handler starts a new image
as `do_execve` does: it sees no stack pointer in the frame, and the one it sets is lost. -/
theorem execve_stack_pointer_lost :
    let machine : Machine :=
      ⟨fun _ => 0, 0x7FFFFFFEFF00, 0xFFFF000000010000, false, 0, 0, 0, 0, fun _ => 0⟩
    let updates : List ContextUpdate := [.setPc 0x400000, .setSp 0x7FFFFFFEF000]
    (savedFrame machine 0x401000 0).sp = 0 ∧
      (resume machine 0x401000 0 updates ⟨fun _ => 0, machine.spEl0, 0, 0⟩).pc = 0x400000 ∧
      (resume machine 0x401000 0 updates ⟨fun _ => 0, machine.spEl0, 0, 0⟩).sp =
        0x7FFFFFFEFF00 := by
  decide +kernel

end Cyllor.Arch
