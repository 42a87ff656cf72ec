import Cyllor.Arch.Machine
import Cyllor.Sched.Thread

/-!
Contract: the assembly of context switches and of the first entry to user mode
(`arch/aarch64/context.rs`).

Owns:
- `context_switch_asm` and `switch_to_new_asm`, over a `Context` in memory;
- `return_to_user_trampoline`;
- that a switch stores and loads exactly the callee-saved registers, also when another
  CPU switches back, and what user mode starts with after the trampoline.
-/

namespace Cyllor.Arch

open Machine Sched

/-- The stores of `context_switch_asm`, to the Context that `x0` points to. -/
def saveContext : List Instr :=
  [.stp 19 20 (.x 0) 0, .stp 21 22 (.x 0) 16, .stp 23 24 (.x 0) 32, .stp 25 26 (.x 0) 48,
    .stp 27 28 (.x 0) 64, .stp 29 30 (.x 0) 80, .movFromSp 2, .str 2 (.x 0) 96]

/-- The loads of `context_switch_asm`, from the Context that `x1` points to; `ret`
continues at `x30`. -/
def loadContext : List Instr :=
  [.ldp 19 20 (.x 1) 0, .ldp 21 22 (.x 1) 16, .ldp 23 24 (.x 1) 32, .ldp 25 26 (.x 1) 48,
    .ldp 27 28 (.x 1) 64, .ldp 29 30 (.x 1) 80, .ldr 2 (.x 1) 96, .movToSp 2]

def contextSwitch : List Instr := saveContext ++ loadContext

/-- `switch_to_new_asm`, with the Context that `x0` points to. -/
def switchToNew : List Instr :=
  [.ldp 19 20 (.x 0) 0, .ldp 21 22 (.x 0) 16, .ldp 23 24 (.x 0) 32, .ldp 25 26 (.x 0) 48,
    .ldp 27 28 (.x 0) 64, .ldp 29 30 (.x 0) 80, .ldr 1 (.x 0) 96, .movToSp 1]

/-- `return_to_user_trampoline`, up to its `eret`. -/
def returnToUserTrampoline : List Instr :=
  [.msr .TTBR0_EL1 22, .isb, .msr .ELR_EL1 19, .msr .SPSR_EL1 20, .msrSpSel false, .movToSp 21,
    .msrSpSel true, .msr .TPIDR_EL0 23] ++ (List.finRange 31).map fun register => .movImm register 0

/-- The registers that a switch moves, in the order of the fields of `Context`. -/
def Machine.calleeSaved (machine : Machine) : List Word :=
  [machine.x 19, machine.x 20, machine.x 21, machine.x 22, machine.x 23, machine.x 24,
    machine.x 25, machine.x 26, machine.x 27, machine.x 28, machine.x 29, machine.x 30, machine.sp]

/-- The first fields of `Context`, in the order of the source. -/
def registerWords (registers : Registers) : List Word :=
  [registers.x19, registers.x20, registers.x21, registers.x22, registers.x23, registers.x24,
    registers.x25, registers.x26, registers.x27, registers.x28, registers.x29, registers.x30,
    registers.sp].map (BitVec.ofNat 64)

/-- The words of a `Context` in memory that a switch moves. -/
def contextAt (memory : ByteMemory) (addr : Nat) : List Word :=
  (List.range 13).map (memory.slots addr)

/-! ### What the code does -/

theorem calleeSaved_loadContext (machine : Machine) :
    (machine.execAll loadContext).calleeSaved =
      contextAt machine.memory (machine.x 1).toNat := by
  obtain ⟨x, spEl0, spEl1, spSel, elr, spsr, tpidr, ttbr0, memory⟩ := machine
  cases spSel <;> rfl

theorem calleeSaved_switchToNew (machine : Machine) :
    (machine.execAll switchToNew).calleeSaved = contextAt machine.memory (machine.x 0).toNat := by
  obtain ⟨x, spEl0, spEl1, spSel, elr, spsr, tpidr, ttbr0, memory⟩ := machine
  cases spSel <;> rfl

/-- The trampoline enters user mode with every general register zero. -/
theorem eret_returnToUserTrampoline (machine : Machine) :
    (machine.execAll returnToUserTrampoline).eret =
      ⟨fun _ => 0, machine.x 21, machine.x 19, machine.x 23⟩ := by
  obtain ⟨x, spEl0, spEl1, spSel, elr, spsr, tpidr, ttbr0, memory⟩ := machine
  simp only [eret, UserView.mk.injEq]
  refine ⟨?_, rfl, rfl, rfl⟩
  funext register
  fin_cases register <;> rfl

/-! ### Switching away and back -/

theorem contextAt_saveContext (machine : Machine) :
    contextAt (machine.execAll saveContext).memory (machine.x 0).toNat = machine.calleeSaved := by
  obtain ⟨x, spEl0, spEl1, spSel, elr, spsr, tpidr, ttbr0, memory⟩ := machine
  simp only [contextAt, saveContext, execAll, List.foldl_cons, List.foldl_nil, exec,
    Machine.address, store, setX, Nat.reduceAdd, ne_eq, Fin.reduceEq, not_false_eq_true,
    Function.update_of_ne, ByteMemory.slots_setWord, Nat.reduceMod, Nat.reduceDiv]
  rfl

theorem sameOutside_saveContext (machine : Machine) :
    ByteMemory.SameOutside (machine.x 0).toNat 104 machine.memory
      (machine.execAll saveContext).memory := by
  intro target outside
  simp only [saveContext, execAll, List.foldl_cons, List.foldl_nil, exec, Machine.address, store,
    setX, ne_eq, Fin.reduceEq, not_false_eq_true, Function.update_of_ne, ByteMemory.setWord,
    ByteMemory.store]
  repeat rw [if_neg (by omega)]

/-- A thread that is switched out goes on with its callee-saved registers when any CPU switches to
its Context, if the Context was left alone and the thread that is switched out then has another. -/
theorem contextSwitch_resumes (machine other : Machine) (back : other.x 1 = machine.x 0)
    (kept : contextAt other.memory (machine.x 0).toNat =
      contextAt (machine.execAll contextSwitch).memory (machine.x 0).toNat)
    (apart : (other.x 0).toNat + 104 ≤ (other.x 1).toNat ∨
      (other.x 1).toNat + 104 ≤ (other.x 0).toNat) :
    (other.execAll contextSwitch).calleeSaved = machine.calleeSaved := by
  have isSave : (machine.execAll contextSwitch).memory = (machine.execAll saveContext).memory := by
    obtain ⟨x, spEl0, spEl1, spSel, elr, spsr, tpidr, ttbr0, memory⟩ := machine
    cases spSel <;> rfl
  have isLoad : other.execAll contextSwitch = (other.execAll saveContext).execAll loadContext :=
    List.foldl_append
  have sameBase : (other.execAll saveContext).x 1 = other.x 1 := rfl
  have unchanged : contextAt (other.execAll saveContext).memory (other.x 1).toNat =
      contextAt other.memory (other.x 1).toNat := by
    refine List.map_congr_left fun slot inside => congrArg (BitVec.ofNat 64) ?_
    have below := List.mem_range.mp inside
    exact (sameOutside_saveContext other).load_eq (by omega)
  rw [isLoad, calleeSaved_loadContext, sameBase, unchanged, back, kept, isSave,
    contextAt_saveContext]

/-- A thread with its Context at `0x1000`, and another one that switches to it later. -/
def switchedOut : Machine :=
  ⟨fun register => if register = 0 then 0x1000 else 7, 0, 0x9000, true, 0, 0, 0, 0, fun _ => 0⟩

def switchingBack : Machine :=
  { switchedOut with
    x := fun register => if register = 0 then 0x2000 else 0x1000
    memory := (switchedOut.execAll contextSwitch).memory }

theorem contextSwitch_resumes_switchedOut :
    (switchingBack.execAll contextSwitch).calleeSaved = switchedOut.calleeSaved := by
  apply contextSwitch_resumes
  · decide
  · rw [switchingBack]
  · right
    decide

end Cyllor.Arch
