import Cyllor.Mm.State

/-!
Contract: SysV shared memory (`mm/shm.rs`, `shm_alloc_addr` of `mm/mmap.rs`).

Owns: creating, attaching, detaching and removing segments, with the bookkeeping of
attachments. The buffer of a new segment is somewhere in the kernel heap; where is an
input of the call.
-/

namespace Cyllor.Mm

open Cyllor.Arch
open Call hiding pure bind

def IPC_PRIVATE : Int := 0
def IPC_CREAT : Nat := 0o1000
def IPC_EXCL : Nat := 0o2000
def SHM_RDONLY : Nat := 0o10000

/-- `cleanup_orphaned`: a removed segment goes with its last attachment. -/
def keepAttached (segs : BTreeMap Int ShmSegment) : BTreeMap Int ShmSegment :=
  segs.filter fun _ seg => !(seg.markedForDelete && seg.attachCount == 0)

def detachAll (segs : BTreeMap Int ShmSegment) (shmids : List Int) : BTreeMap Int ShmSegment :=
  shmids.foldl (fun segs shmid =>
    segs.modify shmid fun seg => { seg with attachCount := seg.attachCount - 1 }) segs

def segmentWithKey (segs : BTreeMap Int ShmSegment) (key : Int) : Option Int :=
  segs.toList.findSome? fun entry =>
    if entry.2.key = key && !entry.2.markedForDelete then some entry.1 else none

/-- Enter a new segment; its buffer must fit into the kernel heap. -/
def newSegment (key : Int) (size buffer : Nat) : MmCall Int := do
  let heap ← gets fun state => state.heap
  if heap.base ≤ buffer ∧ buffer + size ≤ heap.base + KERNEL_HEAP_SIZE then
    let id ← gets fun state => state.nextShmid
    modify fun state =>
      { state with
        nextShmid := id + 1
        shmSegs := state.shmSegs.insert id ⟨key, size, buffer, 0, false⟩ }
    return id
  else hang

def doShmget (key : Int) (size shmflg buffer : Nat) : MmCall Int := do
  if size = 0 then throw .EINVAL
  else
    let existing ← gets fun state =>
      if key ≠ IPC_PRIVATE then segmentWithKey state.shmSegs key else none
    match existing with
    | some id =>
      if shmflg &&& IPC_CREAT ≠ 0 ∧ shmflg &&& IPC_EXCL ≠ 0 then throw .EEXIST
      else return id
    | none =>
      if key = IPC_PRIVATE ∨ shmflg &&& IPC_CREAT ≠ 0 then newSegment key size buffer
      else throw .ENOENT

def shmAllocAddr (pid size : Nat) : MmCall Nat := do
  match ← gets fun state => state.processes pid with
  | none => return USER_MMAP_BASE
  | some process =>
    let aligned ← alignUp (max size PAGE_SIZE)
    let addr ← alignUp process.mmapNext
    modify fun state => state.updateProcess pid fun process =>
      { process with mmapNext := min (addr + aligned) u64Max }
    return addr

/-- Where `do_shmat` maps a segment of a size. -/
def shmPlace (pid shmaddr size : Nat) : MmCall Nat :=
  if shmaddr ≠ 0 then return shmaddr else shmAllocAddr pid size

/-- The part of `do_shmat` that maps a segment at an address. -/
def attachAt (pid : Nat) (shmid : Int) (seg : ShmSegment) (mapAddr shmflg : Nat) : MmCall Nat := do
  let root ← gets fun state => state.rootOf pid
  let readonly := shmflg &&& SHM_RDONLY ≠ 0
  let attr := if readonly then PageAttr.USER_RO else PageAttr.USER_RW
  onRam (mapBuffer root mapAddr seg.data attr ((seg.size + 4095) / 4096))
  modify fun state =>
    { state with
      shmSegs := state.shmSegs.modify shmid fun seg =>
        { seg with attachCount := min (seg.attachCount + 1) u64Max }
      shmAttach := Function.update state.shmAttach pid
        (state.shmAttach pid ++ [(mapAddr, shmid, seg.size)]) }
  let stop ← word (mapAddr + seg.size)
  changeVmm pid fun vmm => some (vmm.map mapAddr stop
    (if readonly then PROT_READ else PROT_READ ||| PROT_WRITE) MAP_SHARED 0 (some (.shm shmid)))
  return mapAddr

def doShmat (pid : Nat) (shmid : Int) (shmaddr shmflg : Nat) : MmCall Nat := do
  let found ← gets fun state =>
    (state.shmSegs[shmid]?).filter fun seg => !seg.markedForDelete
  let seg ← ofOption .EINVAL found
  let mapAddr ← shmPlace pid shmaddr seg.size
  attachAt pid shmid seg mapAddr shmflg

def doShmdt (pid shmaddr : Nat) : MmCall Nat := do
  if shmaddr = 0 ∨ shmaddr % 4096 ≠ 0 then throw .EINVAL
  else
    let entries ← gets fun state => state.shmAttach pid
    let (mapAddr, shmid, size) ←
      ofOption .EINVAL (entries.find? fun entry => entry.1 = shmaddr)
    modify fun state =>
      { state with
        shmAttach := Function.update state.shmAttach pid
          (entries.eraseP fun entry => entry.1 = shmaddr) }
    let root ← gets fun state => state.rootOf pid
    onRam (unmapRange root mapAddr (fun _ => false) (if root = 0 then 0 else (size + 4095) / 4096))
    changeVmm pid fun vmm => vmm.unmap mapAddr size
    modify fun state =>
      { state with shmSegs := keepAttached (detachAll state.shmSegs [shmid]) }
    return 0

/-- `detach_mappings_in_range`: forget the attachments that lie inside a range. -/
def State.detachMappingsInRange (state : State) (pid addr len : Nat) : State :=
  let stop := min (addr + len) u64Max
  let inside := fun entry : Nat × Int × Nat =>
    decide (addr ≤ entry.1 ∧ min (entry.1 + entry.2.2) u64Max ≤ stop)
  let removed := (state.shmAttach pid).filter inside
  if len = 0 ∨ removed.isEmpty then state
  else
    { state with
      shmAttach := Function.update state.shmAttach pid
        ((state.shmAttach pid).filter fun entry => !inside entry)
      shmSegs := keepAttached (detachAll state.shmSegs (removed.map fun entry => entry.2.1)) }

/-- `do_shmctl` with `IPC_RMID`. -/
def doShmctlRmid (shmid : Int) : MmCall Nat := do
  let found ← gets fun state => state.shmSegs[shmid]?
  let _ ← ofOption .EINVAL found
  modify fun state =>
    { state with
      shmSegs := keepAttached
        (state.shmSegs.modify shmid fun seg => { seg with markedForDelete := true }) }
  return 0

end Cyllor.Mm
