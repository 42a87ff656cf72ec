import Cyllor.Mm.Shm

/-!
Contract: the calls that map, unmap and protect user memory and move the break
(`mm/mmap.rs`).

Owns: `do_mmap`, `do_munmap`, `do_mprotect` and `do_brk` with their checks, choice of
addresses, page loops and bookkeeping. The data of the file behind a descriptor is an
input of `do_mmap`.
-/

namespace Cyllor.Mm

open Cyllor.Arch
open Call hiding pure bind

def VALID_PROT_MASK : Nat := PROT_READ ||| PROT_WRITE ||| PROT_EXEC
def MAP_FIXED : Nat := 0x10

def invalidProt (prot : Nat) : Bool := prot ||| VALID_PROT_MASK ≠ VALID_PROT_MASK

/-! ### Unmapping -/

def State.isShmPage (state : State) (pid virt : Nat) : Bool :=
  ((state.vmmOf pid).bind fun vmm => vmm.find virt).any fun vma => isShmArea vma.flags vma.name

def doMunmap (pid addr length : Nat) : MmCall Nat := do
  if length = 0 ∨ addr % PAGE_SIZE ≠ 0 then throw .EINVAL
  else
    let alignedLen ← alignUp length
    let root ← gets fun state => state.rootOf pid
    if root = 0 then throw .ENOMEM
    else
      -- which pages are shared memory is looked up before the first page is unmapped
      let shared ← gets fun state i => state.isShmPage pid (addr + PAGE_SIZE * i)
      onRam (unmapRange root addr (fun i => !shared i) (alignedLen / PAGE_SIZE))
      changeVmm pid fun vmm => vmm.unmap addr alignedLen
      modify fun state => state.detachMappingsInRange pid addr alignedLen
      return 0

/-! ### Mapping -/

/-- The checks of `do_mmap` on its arguments. -/
def mmapRejects (alignedLen prot flags : Nat) (fd offset : Int) : Bool :=
  alignedLen = 0 || invalidProt prot ||
    decide (flags &&& MAP_PRIVATE ≠ 0 ↔ flags &&& MAP_SHARED ≠ 0) ||
    (decide (flags &&& MAP_ANONYMOUS = 0) && decide (fd < 0)) ||
    (decide (0 ≤ fd) && (decide (offset < 0) || decide (offset % PAGE_SIZE ≠ 0)))

/-- Where `do_mmap` maps: at the given address with `MAP_FIXED`, else at the next address of
the process, which moves on. -/
def mmapPlace (pid addr alignedLen flags : Nat) : MmCall Nat := do
  let process ← processOf pid
  if flags &&& MAP_FIXED ≠ 0 then
    if addr = 0 ∨ addr % PAGE_SIZE ≠ 0 then throw .EINVAL else return addr
  else
    let base ← alignUp process.mmapNext
    modify fun state => state.updateProcess pid fun process =>
      { process with mmapNext := min (base + alignedLen) u64Max }
    return base

/-- With `MAP_FIXED`, unmap what is there; the outcome is ignored. -/
def clearFixed (pid addr alignedLen flags : Nat) : MmCall Unit := do
  if flags &&& MAP_FIXED ≠ 0 then
    let _ ← attempt (doMunmap pid addr alignedLen)

/-- The part of a file that page `i` of a mapping gets. -/
def fileBytes (file : Option (List UInt8)) (fd offset : Int) (i : Nat) : List UInt8 :=
  match file with
  | some data => if 0 ≤ fd then (data.drop (offset.toNat + PAGE_SIZE * i)).take PAGE_SIZE else []
  | none => []

/-- The part of `do_mmap` that maps new frames at an address. -/
def fillMapping (pid mapAddr alignedLen prot flags : Nat) (fd offset : Int)
    (file : Option (List UInt8)) : MmCall Nat := do
  let root ← gets fun state => state.rootOf pid
  if root = 0 then throw .ENOMEM
  else
    let enough ← onRam (mapFresh root mapAddr (protToPageAttr prot) (fileBytes file fd offset)
      (alignedLen / PAGE_SIZE) [])
    if !enough then throw .ENOMEM
    else
      let _ ← processOf pid
      let stop ← word (mapAddr + alignedLen)
      changeVmm pid fun vmm => some (vmm.map mapAddr stop prot
        ((if flags &&& MAP_SHARED ≠ 0 then MAP_SHARED else MAP_PRIVATE) |||
          (flags &&& MAP_ANONYMOUS)) (max offset 0).toNat
        (some (if flags &&& MAP_ANONYMOUS ≠ 0 then .anon else .fd fd)))
      return mapAddr

def doMmap (pid addr length prot flags : Nat) (fd offset : Int) (file : Option (List UInt8)) :
    MmCall Nat := do
  let alignedLen ← alignUp length
  if mmapRejects alignedLen prot flags fd offset then throw .EINVAL
  else
    let mapAddr ← mmapPlace pid addr alignedLen flags
    clearFixed pid mapAddr alignedLen flags
    fillMapping pid mapAddr alignedLen prot flags fd offset file

/-! ### Protection -/

def doMprotect (pid addr length prot : Nat) : MmCall Nat := do
  if length = 0 ∨ addr % PAGE_SIZE ≠ 0 then throw .EINVAL
  else if invalidProt prot then throw .EINVAL
  else
    let alignedLen ← alignUp length
    let root ← gets fun state => state.rootOf pid
    if root = 0 then throw .ENOMEM
    else
      let pages ← onRam (framesOf .EINVAL root addr (alignedLen / PAGE_SIZE))
      onRam (remap root (protToPageAttr prot) pages)
      changeVmm pid fun vmm => vmm.mprotect addr alignedLen prot
      return 0

/-! ### The break -/

/-- The first half of `update_heap_vma_locked`: remove the area of the heap. -/
def clearHeapVma (brkBase oldHeapEnd : Nat) (vmm : Vmm VmaName) : Option (Vmm VmaName) :=
  if brkBase < oldHeapEnd then vmm.unmap brkBase (oldHeapEnd - brkBase) else some vmm

/-- `update_heap_vma_locked` for a break that was `oldHeapEnd`, rounded up. -/
def heapVma (brkBase oldHeapEnd newHeapEnd : Nat) (vmm : Vmm VmaName) : Option (Vmm VmaName) :=
  (clearHeapVma brkBase oldHeapEnd vmm).map fun cleared =>
    if brkBase < newHeapEnd then
      cleared.map brkBase newHeapEnd (PROT_READ ||| PROT_WRITE) (MAP_PRIVATE ||| MAP_ANONYMOUS) 0
        (some .heap)
    else cleared

/-- Map or unmap the pages between the old and the new end of the heap; whether there was
memory. -/
def moveHeapEnd (root oldAligned newAligned : Nat) : RamCall Errno Bool := do
  if oldAligned < newAligned then
    mapFresh root oldAligned .USER_RW (fun _ => []) ((newAligned - oldAligned) / PAGE_SIZE) []
  else
    unmapRange root newAligned (fun _ => true) ((oldAligned - newAligned) / PAGE_SIZE)
    return true

def doBrk (pid addr : Nat) : MmCall Nat := do
  let process ← processOf pid
  let root ← gets fun state => state.rootOf pid
  if addr = 0 ∨ addr < process.brkBase ∨ addr = process.brkCurrent ∨ root = 0 then
    return process.brkCurrent
  else
    let oldAligned ← alignUp process.brkCurrent
    let newAligned ← alignUp addr
    let enough ← onRam (moveHeapEnd root oldAligned newAligned)
    if !enough then return process.brkCurrent
    else
      modify fun state => state.updateProcess pid fun process =>
        { process with brkCurrent := addr }
      changeVmm pid (heapVma process.brkBase oldAligned newAligned)
      return addr

end Cyllor.Mm
