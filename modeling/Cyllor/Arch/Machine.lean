import Cyllor.Lib.ByteMemory

/-!
Contract: the part of an AArch64 CPU that the kernel's assembly uses.

Owns:
- `Machine`, the registers and the memory that straight-line kernel code reads and
  writes;
- `Instr`, the instructions of `arch/aarch64/exceptions.rs` and
  `arch/aarch64/context.rs`, and what each of them does;
- exception entry from user mode and `eret`, as the processor performs them.

Does not own: translation of addresses, and everything that user mode cannot see.
-/

namespace Cyllor.Arch

abbrev Word := BitVec 64

abbrev Reg := Fin 31

instance neZeroReg : NeZero 31 := ⟨by decide⟩

/-- The registers of a CPU, and memory. `spSel` tells which stack pointer `sp` names. -/
structure Machine where
  x : Reg → Word
  spEl0 : Word
  spEl1 : Word
  spSel : Bool
  elr : Word
  spsr : Word
  tpidr : Word
  ttbr0 : Word
  memory : ByteMemory

inductive SysReg where
  | ELR_EL1
  | SPSR_EL1
  | TPIDR_EL0
  | TTBR0_EL1
deriving DecidableEq, Repr

/-- The base of an address: the stack pointer or a general register. -/
inductive Base where
  | sp
  | x (register : Reg)
deriving DecidableEq, Repr

inductive Instr where
  /-- `sub sp, sp, #bytes` -/
  | subSp (bytes : Nat)
  /-- `add sp, sp, #bytes` -/
  | addSp (bytes : Nat)
  /-- `stp first, second, [base, #offset]` -/
  | stp (first second : Reg) (base : Base) (offset : Nat)
  /-- `str register, [base, #offset]` -/
  | str (register : Reg) (base : Base) (offset : Nat)
  /-- `ldp first, second, [base, #offset]` -/
  | ldp (first second : Reg) (base : Base) (offset : Nat)
  /-- `ldr register, [base, #offset]` -/
  | ldr (register : Reg) (base : Base) (offset : Nat)
  /-- `mrs register, system` -/
  | mrs (register : Reg) (system : SysReg)
  /-- `msr system, register` -/
  | msr (system : SysReg) (register : Reg)
  /-- `msr SPSel, #immediate` -/
  | msrSpSel (immediate : Bool)
  /-- `mov sp, register` -/
  | movToSp (register : Reg)
  /-- `mov register, sp` -/
  | movFromSp (register : Reg)
  /-- `mov register, #immediate` -/
  | movImm (register : Reg) (immediate : Word)
  /-- `isb` -/
  | isb
deriving DecidableEq, Repr

namespace Machine

def sp (machine : Machine) : Word := if machine.spSel then machine.spEl1 else machine.spEl0

def setSp (machine : Machine) (value : Word) : Machine :=
  if machine.spSel then { machine with spEl1 := value } else { machine with spEl0 := value }

def setX (machine : Machine) (register : Reg) (value : Word) : Machine :=
  { machine with x := Function.update machine.x register value }

def address (machine : Machine) : Base → Nat
  | .sp => machine.sp.toNat
  | .x register => (machine.x register).toNat

/-- The word at an offset from a base. -/
def load (machine : Machine) (base offset : Nat) : Word := machine.memory.slots base (offset / 8)

def store (machine : Machine) (addr : Nat) (value : Word) : Machine :=
  { machine with memory := machine.memory.setWord addr value }

def readSys (machine : Machine) : SysReg → Word
  | .ELR_EL1 => machine.elr
  | .SPSR_EL1 => machine.spsr
  | .TPIDR_EL0 => machine.tpidr
  | .TTBR0_EL1 => machine.ttbr0

def writeSys (machine : Machine) (value : Word) : SysReg → Machine
  | .ELR_EL1 => { machine with elr := value }
  | .SPSR_EL1 => { machine with spsr := value }
  | .TPIDR_EL0 => { machine with tpidr := value }
  | .TTBR0_EL1 => { machine with ttbr0 := value }

def exec (machine : Machine) : Instr → Machine
  | .subSp bytes => machine.setSp (machine.sp - BitVec.ofNat 64 bytes)
  | .addSp bytes => machine.setSp (machine.sp + BitVec.ofNat 64 bytes)
  | .stp first second base offset =>
    (machine.store (machine.address base + offset) (machine.x first)).store
      (machine.address base + (offset + 8)) (machine.x second)
  | .str register base offset =>
    machine.store (machine.address base + offset) (machine.x register)
  | .ldp first second base offset =>
    (machine.setX first (machine.load (machine.address base) offset)).setX second
      (machine.load (machine.address base) (offset + 8))
  | .ldr register base offset =>
    machine.setX register (machine.load (machine.address base) offset)
  | .mrs register system => machine.setX register (machine.readSys system)
  | .msr system register => machine.writeSys (machine.x register) system
  | .msrSpSel immediate => { machine with spSel := immediate }
  | .movToSp register => machine.setSp (machine.x register)
  | .movFromSp register => machine.setX register machine.sp
  | .movImm register immediate => machine.setX register immediate
  | .isb => machine

def execAll (machine : Machine) (code : List Instr) : Machine := code.foldl exec machine

/-- What user mode sees of a CPU: the general registers, its stack pointer, where it is
and its thread-local storage. -/
structure UserView where
  regs : Reg → Word
  sp : Word
  pc : Word
  tls : Word

/-- The processor takes an exception from user mode at `pc` to the kernel. -/
def takeException (machine : Machine) (pc pstate : Word) : Machine :=
  { machine with elr := pc, spsr := pstate, spSel := true }

/-- `eret` to user mode: user mode goes on with these registers. -/
def eret (machine : Machine) : UserView where
  regs := machine.x
  sp := machine.spEl0
  pc := machine.elr
  tls := machine.tpidr

end Machine

end Cyllor.Arch
