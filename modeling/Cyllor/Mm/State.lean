import Cyllor.Mm.Pages
import Cyllor.Mm.Vmm

/-!
Contract: the memory state of the kernel that the memory calls read and change.

Owns: threads with their page tables, the process entries, the areas, the shared memory
segments with their attachments, and the access to each of them.

The areas of an address space are shared by the threads that `clone` made with
`CLONE_VM`, so they are kept by identity. The buffer of a shared memory segment is
given by its physical address. An address space is never taken down.
-/

namespace Cyllor.Mm

open Cyllor.Arch

def USER_MMAP_BASE : Nat := 0x0000007000000000
def USER_STACK_TOP : Nat := 0x00007FFFFFFF0000
def USER_STACK_SIZE : Nat := 8 * 1024 * 1024

structure KernelHeap where
  base : Nat
  aligned : base % PAGE_SIZE = 0
  bounded : base + KERNEL_HEAP_SIZE ≤ 2 ^ 48

def KernelHeap.Contains (heap : KernelHeap) (phys : Nat) : Prop :=
  heap.base ≤ phys ∧ phys < heap.base + KERNEL_HEAP_SIZE

instance (heap : KernelHeap) (phys : Nat) : Decidable (heap.Contains phys) :=
  inferInstanceAs (Decidable (_ ∧ _))

/-- The names of areas: `[heap]`, `[anon]`, `[fd:n]` and `[shm:n]`. -/
inductive VmaName where
  | heap
  | anon
  | fd (fd : Int)
  | shm (shmid : Int)
deriving DecidableEq, Repr

/-- `MAP_SHARED` with a name that starts with `[shm:`. -/
def isShmArea (flags : Nat) : Option VmaName → Bool
  | some (.shm _) => flags &&& MAP_SHARED ≠ 0
  | _ => false

structure Process where
  brkBase : Nat
  brkCurrent : Nat
  mmapNext : Nat
  vmm : Nat
deriving DecidableEq, Repr

/-- `ShmSegment`, with the physical address of its buffer. -/
structure ShmSegment where
  key : Int
  size : Nat
  data : Nat
  attachCount : Nat
  markedForDelete : Bool
deriving DecidableEq, Repr

/-- The memory state. `spaces` are the roots of all address spaces that were made. -/
structure State where
  ram : Ram
  heap : KernelHeap
  spaces : List Nat
  roots : Nat → Option Nat
  processes : Nat → Option Process
  nextPid : Nat
  vmms : Nat → Vmm VmaName
  nextVmm : Nat
  shmSegs : BTreeMap Int ShmSegment
  shmAttach : Nat → List (Nat × Int × Nat)
  nextShmid : Int
  pageFaults : Nat

abbrev MmCall (α : Type) := Call State Errno α

namespace State

def boot (bytes : ByteMemory) (pmm : BitmapAllocator) (heap : KernelHeap) : State where
  ram := ⟨bytes, pmm, []⟩
  heap := heap
  spaces := []
  roots _ := none
  processes _ := none
  nextPid := 1
  vmms _ := Vmm.new
  nextVmm := 0
  shmSegs := ∅
  shmAttach _ := []
  nextShmid := 1
  pageFaults := 0

/-- `read_user_page_table_root` on the processor that runs the thread. -/
def rootOf (state : State) (pid : Nat) : Nat := (state.roots pid).getD 0

def vmmOf (state : State) (pid : Nat) : Option (Vmm VmaName) :=
  (state.processes pid).map fun process => state.vmms process.vmm

def updateProcess (state : State) (pid : Nat) (change : Process → Process) : State :=
  { state with processes := Function.update state.processes pid ((state.processes pid).map change) }

def setVmm (state : State) (id : Nat) (vmm : Vmm VmaName) : State :=
  { state with vmms := Function.update state.vmms id vmm }

end State

def onRam {α : Type} (call : RamCall Errno α) : MmCall α :=
  Call.zoom State.ram (fun ram state => { state with ram := ram }) call

/-- `table.get_mut(&pid).ok_or(ESRCH)?`. -/
def processOf (pid : Nat) : MmCall Process := do
  let found ← Call.gets fun state => state.processes pid
  Call.ofOption .ESRCH found

/-- Change the areas of the process of a thread, if it has an entry; a change that
overflows panics. -/
def changeVmm (pid : Nat) (change : Vmm VmaName → Option (Vmm VmaName)) : MmCall Unit := do
  match ← Call.gets fun state => state.processes pid with
  | none => return ()
  | some process =>
    let changed ← Call.gets fun state => change (state.vmms process.vmm)
    match changed with
    | none => Call.hang
    | some vmm => Call.modify fun state => state.setVmm process.vmm vmm

end Cyllor.Mm
