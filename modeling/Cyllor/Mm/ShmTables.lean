import Cyllor.Lib.MapSum
import Cyllor.Mm.Shm

/-!
Contract: the tables of shared memory by themselves (`mm/shm.rs`), one definition for each
section that holds a lock.

Owns:
- `ShmTables`: the segments, the attachments of every thread and how many segments were
  created;
- the sections, the calls made of them, and runs of calls one at a time;
- what the sections do to a lookup.

Does not own: page tables and areas. Where a call maps a segment is an input of it.
-/

namespace Cyllor.Mm

open Call hiding pure bind

abbrev Attachment := Nat × Int × Nat

def ATTACHMENT_SIZE : Nat := 24

/-- `SHM_SEGS`, `SHM_ATTACH`, and how often `NEXT_SHMID` was advanced. -/
structure ShmTables where
  segs : BTreeMap Int ShmSegment
  attach : BTreeMap Nat (List Attachment)
  created : Nat

namespace ShmTables

def boot : ShmTables := ⟨∅, ∅, 0⟩

/-- The value of `NEXT_SHMID`, a 32-bit counter that starts at 1 and wraps around. -/
def nextShmid (tables : ShmTables) : Int := Int.bmod (1 + tables.created) (2 ^ 32)

def entriesOf (tables : ShmTables) (pid : Nat) : List Attachment := (tables.attach[pid]?).getD []

def held (tables : ShmTables) : Nat :=
  MapSum.sumOver (fun _ entries => entries.length) tables.attach

def attachments (tables : ShmTables) (shmid : Int) : Nat :=
  MapSum.sumOver (fun _ entries => entries.countP fun entry => entry.2.1 = shmid) tables.attach

/-! ### Sections -/

/-- The list of a thread is replaced, or removed if nothing is left in it. -/
def setEntries (tables : ShmTables) (pid : Nat) (entries : List Attachment) : ShmTables :=
  { tables with
    attach := if entries.isEmpty then tables.attach.erase pid else tables.attach.insert pid entries
      }

/-- The segment that `do_shmat` finds. -/
def attachable (tables : ShmTables) (shmid : Int) : Option ShmSegment :=
  (tables.segs[shmid]?).filter fun seg => !seg.markedForDelete

/-- `do_shmat` counts the attachment. -/
def countAttach (tables : ShmTables) (shmid : Int) : ShmTables :=
  { tables with
    segs := tables.segs.modify shmid fun seg =>
      { seg with attachCount := min (seg.attachCount + 1) u64Max } }

/-- `do_shmat` enters the attachment; the kernel heap must hold all of them. -/
def pushEntry (tables : ShmTables) (pid : Nat) (entry : Attachment) : Option ShmTables :=
  if ATTACHMENT_SIZE * (tables.held + 1) ≤ KERNEL_HEAP_SIZE then
    some (tables.setEntries pid (tables.entriesOf pid ++ [entry]))
  else none

/-- `do_shmdt` takes the first attachment at an address. -/
def takeEntry (tables : ShmTables) (pid shmaddr : Nat) : Option (Attachment × ShmTables) :=
  ((tables.entriesOf pid).find? fun entry => entry.1 = shmaddr).map fun entry =>
    (entry, tables.setEntries pid ((tables.entriesOf pid).eraseP fun entry => entry.1 = shmaddr))

def inside (addr len : Nat) (entry : Attachment) : Bool :=
  addr ≤ entry.1 ∧ min (entry.1 + entry.2.2) u64Max ≤ min (addr + len) u64Max

/-- `detach_mappings_in_range` takes the attachments inside a range. -/
def takeInside (tables : ShmTables) (pid addr len : Nat) : List Int × ShmTables :=
  (((tables.entriesOf pid).filter (inside addr len)).map fun entry => entry.2.1,
    tables.setEntries pid ((tables.entriesOf pid).filter fun entry => !inside addr len entry))

/-- `cleanup_process_attachments` takes all attachments of a thread. -/
def takeAll (tables : ShmTables) (pid : Nat) : List Int × ShmTables :=
  ((tables.entriesOf pid).map fun entry => entry.2.1, tables.setEntries pid [])

/-- The count of each segment is lowered. -/
def discount (tables : ShmTables) (shmids : List Int) : ShmTables :=
  { tables with segs := detachAll tables.segs shmids }

/-- `cleanup_orphaned`. -/
def sweep (tables : ShmTables) : ShmTables := { tables with segs := keepAttached tables.segs }

/-- `do_shmctl` with `IPC_RMID` marks a segment, and removes it if it is not attached. -/
def mark (tables : ShmTables) (shmid : Int) : Option ShmTables :=
  (tables.segs[shmid]?).map fun _ =>
    sweep { tables with
      segs := tables.segs.modify shmid fun seg => { seg with markedForDelete := true } }

/-- `do_shmget` creates a segment. -/
def create (tables : ShmTables) (key : Int) (size buffer : Nat) : ShmTables :=
  { tables with
    segs := tables.segs.insert tables.nextShmid ⟨key, size, buffer, 0, false⟩
    created := tables.created + 1 }

end ShmTables

/-! ### Calls -/

abbrev ShmCall (α : Type) := Call ShmTables Errno α

namespace ShmTables

/-- `do_shmget`; a buffer that is larger than the kernel heap cannot be had. -/
def shmget (key : Int) (size shmflg buffer : Nat) : ShmCall Int := do
  if size = 0 then throw .EINVAL
  else
    let existing ← gets fun tables =>
      if key ≠ IPC_PRIVATE then segmentWithKey tables.segs key else none
    match existing with
    | some id =>
      if shmflg &&& IPC_CREAT ≠ 0 ∧ shmflg &&& IPC_EXCL ≠ 0 then throw .EEXIST
      else return id
    | none =>
      if key = IPC_PRIVATE ∨ shmflg &&& IPC_CREAT ≠ 0 then
        if KERNEL_HEAP_SIZE < size then hang
        else
          let id ← gets nextShmid
          modify fun tables => tables.create key size buffer
          return id
      else
        let again ← gets fun tables => segmentWithKey tables.segs key
        ofOption .ENOENT again

/-- Enter an attachment, or never return when the heap is full. -/
def enterEntry (pid : Nat) (entry : Attachment) : ShmCall Unit := fun tables =>
  (tables.pushEntry pid entry).map fun after => (.ok (), after)

/-- `do_shmat`, for a segment that is mapped at `mapAddr`. -/
def shmat (pid : Nat) (shmid : Int) (mapAddr : Nat) : ShmCall Int := do
  let found ← gets fun tables => tables.attachable shmid
  let seg ← ofOption .EINVAL found
  modify fun tables => tables.countAttach shmid
  enterEntry pid (mapAddr, shmid, seg.size)
  return mapAddr

def shmdt (pid shmaddr : Nat) : ShmCall Int := do
  if shmaddr = 0 ∨ shmaddr % 4096 ≠ 0 then throw .EINVAL
  else
    let found ← gets fun tables => tables.takeEntry pid shmaddr
    let taken ← ofOption .EINVAL found
    modify fun _ => taken.2
    modify fun tables => tables.discount [taken.1.2.1]
    modify sweep
    return 0

/-- `do_shmctl` with `IPC_RMID`. -/
def shmctlRmid (shmid : Int) : ShmCall Int := do
  let found ← gets fun tables => tables.mark shmid
  let marked ← ofOption .EINVAL found
  modify fun _ => marked
  return 0

def detachMappingsInRange (tables : ShmTables) (pid addr len : Nat) : ShmTables :=
  if len = 0 then tables
  else
    let (removed, after) := tables.takeInside pid addr len
    if removed.isEmpty then after else (after.discount removed).sweep

def cleanupProcessAttachments (tables : ShmTables) (pid : Nat) : ShmTables :=
  let (removed, after) := tables.takeAll pid
  if removed.isEmpty then after else (after.discount removed).sweep

end ShmTables

/-! ### Runs -/

inductive ShmLabel where
  | shmget (key : Int) (size shmflg buffer : Nat)
  | shmat (pid : Nat) (shmid : Int) (mapAddr : Nat)
  | shmdt (pid shmaddr : Nat)
  | shmctlRmid (shmid : Int)
  | detachMappingsInRange (pid addr len : Nat)
  | cleanupProcessAttachments (pid : Nat)
deriving DecidableEq, Repr

namespace ShmTables

def step (tables : ShmTables) : ShmLabel → Option ShmTables
  | .shmget key size shmflg buffer => (shmget key size shmflg buffer tables).map Prod.snd
  | .shmat pid shmid mapAddr => (shmat pid shmid mapAddr tables).map Prod.snd
  | .shmdt pid shmaddr => (shmdt pid shmaddr tables).map Prod.snd
  | .shmctlRmid shmid => (shmctlRmid shmid tables).map Prod.snd
  | .detachMappingsInRange pid addr len => some (tables.detachMappingsInRange pid addr len)
  | .cleanupProcessAttachments pid => some (tables.cleanupProcessAttachments pid)

abbrev run : ShmTables → List ShmLabel → Option ShmTables := LabelledRun.run step

end ShmTables

/-! ### Lookups -/

section Lookups

variable (segs : BTreeMap Int ShmSegment)

variable {segs} in
theorem getElem?_keepAttached_eq_some {id : Int} {seg : ShmSegment} :
    (keepAttached segs)[id]? = some seg ↔
      segs[id]? = some seg ∧ (seg.markedForDelete = true → seg.attachCount ≠ 0) := by
  rw [keepAttached, Std.ExtTreeMap.getElem?_filter', Option.filter_eq_some_iff]
  cases seg.markedForDelete <;> simp

theorem getElem?_modify_eq (shmid id : Int) (change : ShmSegment → ShmSegment) :
    (segs.modify shmid change)[id]? =
      if shmid = id then (segs[id]?).map change else segs[id]? := by
  rw [Std.ExtTreeMap.getElem?_modify]
  by_cases isId : shmid = id
  · simp [isId]
  · simp [isId]

theorem getElem?_detachAll (shmids : List Int) (id : Int) :
    (detachAll segs shmids)[id]? = (segs[id]?).map fun seg =>
      { seg with attachCount := seg.attachCount - shmids.count id } := by
  induction shmids generalizing segs with
  | nil => simp [detachAll]
  | cons shmid shmids ih =>
    show (detachAll (segs.modify shmid _) shmids)[id]? = _
    rw [ih, getElem?_modify_eq]
    by_cases isId : shmid = id
    · rw [if_pos isId, Option.map_map, isId, List.count_cons_self]
      congr 1
      funext seg
      simp only [Function.comp_apply, ShmSegment.mk.injEq, true_and, and_true]
      omega
    · rw [if_neg isId, List.count_cons_of_ne isId]

end Lookups

namespace ShmTables

variable (tables : ShmTables)

theorem getElem?_setEntries (pid other : Nat) (entries : List Attachment) :
    (tables.setEntries pid entries).attach[other]? =
      if pid = other then (if entries.isEmpty then none else some entries)
      else tables.attach[other]? := by
  unfold setEntries
  by_cases isEmpty : entries.isEmpty
  · rw [if_pos isEmpty, if_pos isEmpty, Std.ExtTreeMap.getElem?_erase]
    simp only [Nat.compare_eq_eq]
  · rw [if_neg isEmpty, if_neg isEmpty, Std.ExtTreeMap.getElem?_insert]
    simp only [Nat.compare_eq_eq]

theorem entriesOf_setEntries (pid : Nat) (entries : List Attachment) :
    (tables.setEntries pid entries).entriesOf pid = entries := by
  rw [entriesOf, getElem?_setEntries, if_pos rfl]
  cases entries <;> rfl

theorem sumOver_setEntries (weigh : List Attachment → Nat) (nothing : weigh [] = 0) (pid : Nat)
    (entries : List Attachment) :
    MapSum.sumOver (fun _ => weigh) (tables.setEntries pid entries).attach +
        weigh (tables.entriesOf pid) =
      MapSum.sumOver (fun _ => weigh) tables.attach + weigh entries := by
  have weightOf : ∀ tables : ShmTables,
      MapSum.weightAt (fun _ => weigh) tables.attach pid = weigh (tables.entriesOf pid) := by
    intro tables
    unfold MapSum.weightAt entriesOf
    cases tables.attach[pid]? with
    | none => exact nothing.symm
    | some found => rfl
  have agree : ∀ other, pid ≠ other →
      (tables.setEntries pid entries).attach[other]? = tables.attach[other]? := by
    intro other notPid
    rw [getElem?_setEntries, if_neg notPid]
  have changed := MapSum.sumOver_change (fun _ => weigh) tables.attach pid agree
  rw [weightOf tables, weightOf, entriesOf_setEntries] at changed
  exact changed

end ShmTables

end Cyllor.Mm
