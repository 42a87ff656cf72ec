import Cyllor.Mm.Mmap

/-!
Contract: where address spaces come from and what user code does to them
(`sched/elf.rs`, `spawn_user_process`, `do_execve`, `do_clone` and
`clone_user_address_space` of `sched/mod.rs`, `handle_page_fault` of
`arch/aarch64/exceptions.rs`, the demand paging of `syscall/fs.rs`).

Owns: loading an image, starting, replacing and cloning processes as far as memory is
concerned, demand paging and stores; and the memory state as a system that takes one call
after another.

The segments of an image are given with their load addresses. A thread has a process
entry; the defaults of `do_clone` for one without are left out. The thread numbers
that some flags of `do_clone` ask for are written afterwards, as stores of the caller.
-/

namespace Cyllor.Mm

open Cyllor.Arch
open Call hiding pure bind

/-! ### Images -/

structure Segment where
  vaddr : Nat
  memsz : Nat
  attr : PageAttr
  data : List UInt8
deriving DecidableEq, Repr

/-- The segments of a program and of its interpreter, and what `setup_user_stack` writes
to the stack. -/
structure Image where
  segments : List Segment
  interp : List Segment
  stack : List (Nat × List UInt8)
deriving DecidableEq, Repr

def loadSegment (root : Nat) (segment : Segment) : RamCall Unit Unit := do
  let stop ← word (segment.vaddr + segment.memsz)
  let alignedEnd ← alignUp stop
  let alignedStart := PAGE_SIZE * (segment.vaddr / PAGE_SIZE)
  mapAnon root alignedStart (alignedEnd - alignedStart) segment.attr
  copyOut root segment.data.length segment.vaddr segment.data

/-- `brk_start`: the end of the last segment, rounded up. -/
def Image.brkStart (image : Image) : Nat :=
  roundUp (image.segments.foldl (fun brkEnd segment => max brkEnd (segment.vaddr + segment.memsz))
    0)

/-- `load_elf`, with `load_interp`. -/
def loadElf (root : Nat) (image : Image) : RamCall Unit Unit := do
  forEach (loadSegment root) image.segments
  mapAnon root (USER_STACK_TOP - USER_STACK_SIZE) USER_STACK_SIZE .USER_RW
  forEach (loadSegment root) image.interp

def setupUserStack (root : Nat) (image : Image) : RamCall Unit Unit :=
  forEach (fun write => copyOut root write.2.length write.1 write.2) image.stack

/-! ### Processes -/

def createUserPageTable : MmCall Nat := do
  let created ← onRam allocTablePage
  let root ← ofOption .ENOMEM created
  modify fun state => { state with spaces := root :: state.spaces }
  return root

def orElse (error : Errno) (call : RamCall Unit Unit) : MmCall Unit := do
  match ← onRam (attempt call) with
  | .error _ => throw error
  | .ok _ => return ()

/-- Load an image into a new address space. -/
def loadImage (badImage : Errno) (image : Image) : MmCall Nat := do
  let root ← createUserPageTable
  orElse badImage (loadElf root image)
  orElse .ENOMEM (setupUserStack root image)
  return root

namespace State

def allocPid (state : State) : State := { state with nextPid := state.nextPid + 1 }

/-- The thread of a process runs in an address space with areas of its own. -/
def enter (state : State) (pid root : Nat) (process : Process) (vmm : Vmm VmaName) : State :=
  { state with
    roots := Function.update state.roots pid (some root)
    processes := Function.update state.processes pid
      (some { process with vmm := state.nextVmm })
    vmms := Function.update state.vmms state.nextVmm vmm
    nextVmm := state.nextVmm + 1 }

/-- A thread that shares the address space and the areas of another. -/
def enterShared (state : State) (pid root : Nat) (process : Process) : State :=
  { state with
    roots := Function.update state.roots pid (some root)
    processes := Function.update state.processes pid (some process) }

end State

def Image.process (image : Image) : Process := ⟨image.brkStart, image.brkStart, USER_MMAP_BASE, 0⟩

/-- `spawn_user_process`, whose errors are texts there. -/
def spawnUserProcess (image : Image) : MmCall Nat := do
  let root ← loadImage .ENOMEM image
  let pid ← gets fun state => state.nextPid
  modify fun state => state.allocPid.enter pid root image.process Vmm.new
  return pid

/-- `do_execve` of the thread `pid`. -/
def doExecve (pid : Nat) (image : Image) : MmCall Nat := do
  let root ← loadImage .ENOENT image
  modify fun state => state.enter pid root image.process Vmm.new
  return 0

def CLONE_VM : Nat := 0x00000100
def CLONE_SIGHAND : Nat := 0x00000800
def CLONE_PIDFD : Nat := 0x00001000
def CLONE_THREAD : Nat := 0x00010000
def CLONE_PARENT_SETTID : Nat := 0x00100000

def cloneRejects (flags ptid : Nat) : Bool :=
  (decide (flags &&& CLONE_THREAD ≠ 0) &&
    (decide (flags &&& CLONE_SIGHAND = 0) || decide (flags &&& CLONE_VM = 0) ||
      decide (flags &&& 0xff ≠ 0))) ||
  (decide (flags &&& CLONE_SIGHAND ≠ 0) && decide (flags &&& CLONE_VM = 0)) ||
  (decide (flags &&& CLONE_PIDFD ≠ 0) &&
    (decide (flags &&& CLONE_PARENT_SETTID ≠ 0) || decide (ptid = 0)))

/-- The addresses that `clone_user_address_space` visits in an area. -/
def Vma.visited (vma : Vma VmaName) : List Nat :=
  (List.range ((vma.stop - vma.start + PAGE_SIZE - 1) / PAGE_SIZE)).map fun i =>
    vma.start + PAGE_SIZE * i

/-- The addresses visited in all areas, in order, with the attributes of their area. -/
def Vmm.visited (vmm : Vmm VmaName) : List (Nat × PageAttr) :=
  vmm.vmas.toList.flatMap fun entry =>
    entry.2.visited.map fun virt => (virt, protToPageAttr entry.2.prot)

/-- `clone_user_address_space`; stepping past the last address of an area must not
overflow. -/
def cloneUserAddressSpace (parentRoot childRoot : Nat) (vmm : Vmm VmaName) : RamCall Errno Bool :=
  if vmm.visited.all fun visit => visit.1 + PAGE_SIZE ≤ u64Max then
    copyPages parentRoot childRoot vmm.visited []
  else hang

/-- The part of `do_clone` without `CLONE_VM` that makes the child's address space. -/
def forkSpace (pid : Nat) (process : Process) : MmCall Nat := do
  let pageRoot ← gets fun state => state.rootOf pid
  let childRoot ← createUserPageTable
  let vmm ← gets fun state => state.vmms process.vmm
  let enough ← onRam (cloneUserAddressSpace pageRoot childRoot vmm)
  if enough then return childRoot else throw .ENOMEM

def doClone (pid flags ptid : Nat) : MmCall Nat := do
  if cloneRejects flags ptid then throw .EINVAL
  else
    let child ← gets fun state => state.nextPid
    modify State.allocPid
    let process ← processOf pid
    if flags &&& CLONE_VM ≠ 0 then
      let pageRoot ← gets fun state => state.rootOf pid
      modify fun state => state.enterShared child pageRoot process
      return child
    else
      let childRoot ← forkSpace pid process
      modify fun state => state.enter child childRoot process (state.vmms process.vmm)
      return child

/-! ### User code -/

/-- Map a frame of zeros at a page. -/
def mapZeroPage {ε : Type} (root page : Nat) : RamCall ε Bool := do
  match ← allocPage with
  | none => return false
  | some phys =>
    zeroFrame phys
    mapUserPage root page phys .USER_RW
    return true

/-- `handle_page_fault`, which does not ask whether the page is mapped. -/
def handlePageFault (pid far : Nat) : MmCall Bool := do
  if far < 0x400000 then return false
  else
    let count ← gets fun state => state.pageFaults
    modify fun state => { state with pageFaults := (count + 1) % 2 ^ 32 }
    if 10000 < count then return false
    else
      let root ← gets fun state => state.rootOf pid
      onRam (mapZeroPage root (PAGE_SIZE * (far / PAGE_SIZE)))

/-- The demand paging of `copy_to_user` and `copy_from_user`. -/
def demandPage (pid virt : Nat) : MmCall Bool := do
  let root ← gets fun state => state.rootOf pid
  let found ← gets fun state => translateUserVa state.ram root virt
  if found.isSome then return true
  else onRam (mapZeroPage root (PAGE_SIZE * (virt / PAGE_SIZE)))

/-- User code, or the kernel for it, writes to mapped pages. -/
def storeBytes (pid virt : Nat) (bytes : List UInt8) : MmCall Bool := do
  let root ← gets fun state => state.rootOf pid
  let written ← onRam (attempt (copyOut root bytes.length virt bytes))
  match written with
  | .ok _ => return true
  | .error _ => return false

/-! ### The system -/

inductive MemCall where
  | execve (image : Image)
  | clone (flags ptid : Nat)
  | mmap (addr length prot flags : Nat) (fd offset : Int) (file : Option (List UInt8))
  | munmap (addr length : Nat)
  | mprotect (addr length prot : Nat)
  | brk (addr : Nat)
  | shmget (key : Int) (size shmflg buffer : Nat)
  | shmat (shmid : Int) (shmaddr shmflg : Nat)
  | shmdt (shmaddr : Nat)
  | shmctlRmid (shmid : Int)
  | pageFault (far : Nat)
  | demandPage (virt : Nat)
  | store (virt : Nat) (bytes : List UInt8)

inductive Label where
  | spawn (image : Image)
  | call (pid : Nat) (call : MemCall)

/-- The program of a call; a `Bool` is returned as 0 or 1, a segment by its identifier. -/
def MemCall.run (pid : Nat) : MemCall → MmCall Nat
  | .execve image => doExecve pid image
  | .clone flags ptid => doClone pid flags ptid
  | .mmap addr length prot flags fd offset file => doMmap pid addr length prot flags fd offset file
  | .munmap addr length => doMunmap pid addr length
  | .mprotect addr length prot => doMprotect pid addr length prot
  | .brk addr => doBrk pid addr
  | .shmget key size shmflg buffer => do return (← doShmget key size shmflg buffer).toNat
  | .shmat shmid shmaddr shmflg => doShmat pid shmid shmaddr shmflg
  | .shmdt shmaddr => doShmdt pid shmaddr
  | .shmctlRmid shmid => doShmctlRmid shmid
  | .pageFault far => do return (← handlePageFault pid far).toNat
  | .demandPage virt => do return (← Mm.demandPage pid virt).toNat
  | .store virt bytes => do return (← storeBytes pid virt bytes).toNat

namespace State

/-- A whole call, with what it returns; only threads with an address space make calls. -/
def perform (state : State) : Label → Option (Except Errno Nat × State)
  | .spawn image => spawnUserProcess image state
  | .call pid call => if (state.roots pid).isSome then call.run pid state else none

def step (state : State) (label : Label) : Option State := (state.perform label).map Prod.snd

theorem step_of_perform {state next : State} {label : Label} {result : Except Errno Nat}
    (performed : state.perform label = some (result, next)) : state.step label = some next := by
  rw [step, performed]
  rfl

abbrev run : State → List Label → Option State := LabelledRun.run step

theorem run_perform {start state next : State} {trace : List Label} {label : Label}
    {result : Except Errno Nat} (reached : start.run trace = some state)
    (performed : state.perform label = some (result, next)) :
    start.run (trace ++ [label]) = some next :=
  LabelledRun.run_append_eq_some.mpr ⟨state, reached,
    LabelledRun.run_cons_eq_some.mpr ⟨next, step_of_perform performed, rfl⟩⟩

end State

end Cyllor.Mm
