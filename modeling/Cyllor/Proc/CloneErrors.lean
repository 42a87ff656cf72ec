import Cyllor.Fs.FdTable
import Cyllor.Mm.PrivateCopy
import Cyllor.Mm.FrameSafety
import Cyllor.Proc.Table
import Cyllor.Sched.Clone
import Cyllor.Syscall.UserMemory

/-!
Contract: what a failed `do_clone` leaves behind (`sched/mod.rs`, `fs/mod.rs`).

Owns:
- `CloneKernel`, the tables that `do_clone` reads and writes together;
- `do_clone` from its flag checks to the thread ids it stores for the caller;
- when an error means that nothing was queued, entered or written.
-/

namespace Cyllor.Proc

open Cyllor.Arch Cyllor.Mm LinkForest
open Cyllor.Sched (Scheduler Thread hasFlag cloneCheck Placement)
open Cyllor.Fs (FdTable FileId FileObject)
open Call hiding pure bind

/-- The kernel as `do_clone` sees it. The memory part of each process entry is in `mm`. -/
structure CloneKernel (cpus : Nat) where
  sched : Scheduler cpus
  currentPid : Fin cpus → Nat
  table : Table
  mm : Mm.State
  fds : FdTable
  objects : FileId → FileObject
  nextFile : FileId
  clearChildTid : BTreeMap Nat Nat

abbrev CloneCall (cpus : Nat) (α : Type) := Call (CloneKernel cpus) Errno α

variable {cpus : Nat}

def CLONE_CHILD_CLEARTID : Word := 0x0020_0000
def CLONE_CHILD_SETTID : Word := 0x0100_0000
def USER_BRK_BASE : Nat := 0x0000006000000000

def onMm {α : Type} (call : MmCall α) : CloneCall cpus α :=
  Call.zoom CloneKernel.mm (fun mm kernel => { kernel with mm := mm }) call

/-- `copy_to_user`. A page that could not be mapped for lack of tables is tried again, so each
round writes a byte or takes a frame, and `fuel` bounds the rounds. -/
def copyToUserPages (root : Nat) : (fuel addr : Nat) → List UInt8 → RamCall Errno Unit
  | 0, _, _ => Call.hang
  | fuel + 1, addr, data => do
      if data.isEmpty then return ()
      else
        let addr ← word addr
        match ← Call.gets fun ram => translateUserVa ram root addr with
        | some phys =>
          let chunk := min (PAGE_SIZE - addr % PAGE_SIZE) data.length
          writeFrame phys (data.take chunk)
          copyToUserPages root fuel (addr + chunk) (data.drop chunk)
        | none =>
          if ← mapZeroPage root (PAGE_SIZE * (addr / PAGE_SIZE)) then
            copyToUserPages root fuel addr data
          else Call.throw .ENOMEM

/-- `let _ = copy_to_user(..)`: an error is dropped. -/
def tellUser (root addr : Nat) (data : List UInt8) : CloneCall cpus Unit := do
  let _ ← onMm (onRam (Call.attempt (copyToUserPages root (MAX_PAGES + data.length + 1) addr data)))
  return ()

def allocPidfd : CloneCall cpus Nat := do
  let file ← Call.gets fun kernel => kernel.nextFile
  Call.modify fun kernel =>
    { kernel with
      objects := Function.update kernel.objects file ⟨.PidFd, 0⟩
      nextFile := file + 1 }
  let free ← Call.gets fun kernel => kernel.fds.lowestFree 3
  let fd ← Call.ofOption .EMFILE free
  Call.modify fun kernel => { kernel with fds := kernel.fds.install fd file false }
  return fd

/-- The memory of the caller's process, and what `do_clone` takes for a caller without an
entry. -/
def parentMemory (mm : Mm.State) (pid : Nat) : Mm.Process × Vmm VmaName :=
  match mm.processes pid with
  | some process => (process, mm.vmms process.vmm)
  | none => (⟨USER_BRK_BASE, USER_BRK_BASE, USER_MMAP_BASE, 0⟩, Vmm.new)

/-- The address space of a child without `CLONE_VM`. -/
def copySpace (pageRoot : Nat) (vmm : Vmm VmaName) : MmCall Nat := do
  let childRoot ← createUserPageTable
  let enough ← onRam (cloneUserAddressSpace pageRoot childRoot vmm)
  if enough then return childRoot else Call.throw .ENOMEM

/-- The memory part of the child's entry: the areas of the caller's process are shared with
`CLONE_VM`, and copied otherwise. A caller without an entry has none to share. -/
def enterClone (mm : Mm.State) (parentPid child root : Nat) (share : Bool) : Mm.State :=
  let (process, vmm) := parentMemory mm parentPid
  if share && (mm.processes parentPid).isSome then mm.enterShared child root process
  else mm.enter child root process vmm

/-- The part of `do_clone` that stores ids for the caller and the child. -/
def announce (root child : Nat) (flags ptid ctid : Word) : CloneCall cpus Unit := do
  if hasFlag flags Sched.CLONE_PARENT_SETTID ∧ ptid ≠ 0 then
    tellUser root ptid.toNat (Syscall.leBytes 8 child)
  if hasFlag flags Sched.CLONE_PIDFD then
    let pidfd ← allocPidfd
    tellUser root ptid.toNat (Syscall.leBytes 4 pidfd)
  if hasFlag flags CLONE_CHILD_SETTID ∧ ctid ≠ 0 then
    tellUser root ctid.toNat (Syscall.leBytes 8 child)
  if hasFlag flags CLONE_CHILD_CLEARTID ∧ ctid ≠ 0 then
    Call.modify fun kernel =>
      { kernel with clearChildTid := kernel.clearChildTid.insert child ctid.toNat }

/-- What `do_clone` has when it takes the scheduler lock to queue the child. -/
structure NewClone where
  parentPid : Nat
  child : Nat
  parent : Process
  pageRoot : Nat
  thread : Thread

/-- `do_clone` up to the new thread. `trampoline` and `stackTop` are where the kernel put the
trampoline and the new kernel stack. -/
def makeClone (cpu : Fin cpus) (frame : TrapFrame) (flags stack ptid tls : Word)
    (trampoline stackTop : Nat) : CloneCall cpus NewClone := do
  Call.ofExcept (cloneCheck flags ptid)
  let parentPid ← Call.gets fun kernel => kernel.currentPid cpu
  let child ← Call.gets fun kernel => kernel.mm.nextPid
  Call.modify fun kernel => { kernel with mm := kernel.mm.allocPid }
  let childSp := if stack ≠ 0 then stack else frame.sp
  let parent ← Call.gets fun kernel => parentEntry kernel.table parentPid
  let running ← Call.gets fun kernel => kernel.sched.current cpu
  let current ← Call.ofOption .ESRCH running
  let pageRoot := current.context.pageTableRoot
  let childTls := if hasFlag flags Sched.CLONE_SETTLS then tls.toNat else current.context.userTls
  let vmm ← Call.gets fun kernel => (parentMemory kernel.mm parentPid).2
  let root ← if hasFlag flags Sched.CLONE_VM then pure pageRoot else onMm (copySpace pageRoot vmm)
  return ⟨parentPid, child, parent, pageRoot, Thread.newUserCloned child trampoline stackTop
    frame.elr.toNat childSp.toNat root childTls⟩

/-- `do_clone` from the run queue on. -/
def queueClone (new : NewClone) (flags ptid ctid : Word) : CloneCall cpus Nat := do
  let least ← Call.gets fun kernel => kernel.sched.leastLoadedCpu
  let target ← Call.ofOption .ESRCH least
  Call.modify fun kernel => { kernel with sched := kernel.sched.pushBack target new.thread }
  Call.modify fun kernel =>
    { kernel with
      table := insertClone kernel.table
        (cloneEntry new.parent new.parentPid new.child flags.toNat) flags.toNat
      mm := enterClone kernel.mm new.parentPid new.child new.thread.context.pageTableRoot
        (hasFlag flags Sched.CLONE_VM) }
  announce new.pageRoot new.child flags ptid ctid
  return new.child

/-- `do_clone` on a processor. -/
def doClone (cpu : Fin cpus) (frame : TrapFrame) (flags stack ptid tls ctid : Word)
    (trampoline stackTop : Nat) : CloneCall cpus Nat := do
  let new ← makeClone cpu frame flags stack ptid tls trampoline stackTop
  queueClone new flags ptid ctid

/-! ### What is to be kept -/

/-- The frame holds a table or a page of the address space. -/
def Holds (ram : Ram) (root frame : Nat) : Prop :=
  ∃ path : List Index, path.length ≤ 4 ∧ walk (link ram) root path = some frame

/-- The tables and the pages of the address space have the same bytes. -/
def SameSpace (root : Nat) (ram ram' : Ram) : Prop :=
  ∀ frame, Holds ram root frame → ∀ offset < PAGE_SIZE,
    ram'.bytes (frame + offset) = ram.bytes (frame + offset)

/-- The run queues, the process table and the memory of the caller are as before. -/
structure Kept (cpu : Fin cpus) (before after : CloneKernel cpus) : Prop where
  queues : after.sched.runQueues = before.sched.runQueues
  table : after.table = before.table
  space : ∀ thread, before.sched.current cpu = some thread →
    SameSpace thread.context.pageTableRoot before.mm.ram after.mm.ram
  areas : parentMemory after.mm (before.currentPid cpu) =
    parentMemory before.mm (before.currentPid cpu)

/-- The postcondition that an error changed nothing. -/
def keptOnError (cpu : Fin cpus) (before : CloneKernel cpus) :
    Except Errno Nat → CloneKernel cpus → Prop
  | .error _, after => Kept cpu before after
  | .ok _, _ => True

/-- Frames in use are not free, and the thread that calls runs in one of the address
spaces. -/
structure CallerRooted (cpu : Fin cpus) (kernel : CloneKernel cpus) : Prop where
  sound : Sound kernel.mm
  root : ∀ thread, kernel.sched.current cpu = some thread →
    thread.context.pageTableRoot ∈ kernel.mm.rootSet

/-- The call gets as far as the run queue: the flags are accepted, the processor runs a thread,
and its address space is shared or can be copied. -/
def ReachesQueue (cpu : Fin cpus) (flags ptid : Word) (kernel : CloneKernel cpus) : Prop :=
  cloneCheck flags ptid = .ok () ∧ ∃ thread, kernel.sched.current cpu = some thread ∧
    (hasFlag flags Sched.CLONE_VM = true ∨ ∃ root after,
      copySpace thread.context.pageTableRoot (parentMemory kernel.mm (kernel.currentPid cpu)).2
        kernel.mm.allocPid = some (.ok root, after))

/-! ### Address spaces -/

theorem Holds.not_isFree {mm : Mm.State} (sound : Sound mm) {root frame : Nat}
    (based : root ∈ mm.rootSet) (holds : Holds mm.ram root frame) :
    ¬ mm.ram.pmm.IsFree frame ∧ frame % PAGE_SIZE = 0 := by
  obtain ⟨path, short, walked⟩ := holds
  rcases Nat.lt_or_eq_of_le short with isTable | isPage
  · have table : IsTable mm.rootSet mm.ram frame := ⟨root, based, path, isTable, walked⟩
    obtain ⟨place, tables⟩ := sound.owned.tables
    exact ⟨sound.owned.not_isFree_of_busy (.inl table), (tables.frames _ (table.placed tables)).1⟩
  · have member : PageOf mm.rootSet (root, path) := ⟨based, isPage⟩
    exact ⟨(sound.owned.mapped_settled member walked).1, (frameAt_bounds member walked).1⟩

/-- A copy writes to no frame that is in use, whether it goes through or not. -/
theorem wp_copySpace {mm : Mm.State} (owned : Owned ∅ ∅ mm.ram) (pageRoot : Nat)
    (vmm : Vmm VmaName) :
    wp (copySpace pageRoot vmm) (fun _ after =>
      (∀ addr, ¬ mm.ram.pmm.IsFree (PAGE_SIZE * (addr / PAGE_SIZE)) →
        after.ram.bytes addr = mm.ram.bytes addr) ∧
      after.processes = mm.processes ∧ after.vmms = mm.vmms) mm := by
  rw [copySpace, createUserPageTable, wp_bind, wp_bind_onRam]
  refine wp_mono (wp_allocTablePage_secluded owned) ?_
  rintro result ram (⟨rfl, rfl⟩ | ⟨child, rfl, secluded⟩)
  · dsimp only
    rw [wp_bind_ofOption]
    exact ⟨fun _ => ⟨fun _ _ => rfl, rfl, rfl⟩, by rintro _ ⟨⟩⟩
  dsimp only
  rw [wp_bind_ofOption]
  refine ⟨by rintro ⟨⟩, ?_⟩
  rintro _ ⟨⟩
  rw [wp_bind_modify, wp_pure]
  dsimp only
  rw [wp_bind_onRam, cloneUserAddressSpace, wp_ite]
  refine ⟨fun _ => ?_, fun _ => wp_hang⟩
  refine wp_mono (secluded.wp_copyPages pageRoot vmm.visited []) ?_
  rintro result after ⟨enough, rfl, still⟩
  dsimp only
  rw [wp_ite]
  exact ⟨fun _ => (wp_pure _).mpr ⟨still.bytes, rfl, rfl⟩,
    fun _ => (wp_throw _).mpr ⟨still.bytes, rfl, rfl⟩⟩

/-! ### Before the run queue -/

section Calls

variable {kernel : CloneKernel cpus} {cpu : Fin cpus} {flags ptid : Word}

theorem wp_bind_onMm {α β : Type} {call : MmCall α} {rest : α → CloneCall cpus β}
    {post : Except Errno β → CloneKernel cpus → Prop} :
    wp (onMm call >>= rest) post kernel ↔
      wp call (fun result mm =>
        match result with
        | .error error => post (.error error) { kernel with mm := mm }
        | .ok value => wp (rest value) post { kernel with mm := mm }) kernel.mm := by
  rw [wp_bind, onMm, wp_zoom]
  refine forall_congr' fun result => forall_congr' fun mm => imp_congr_right fun _ => ?_
  cases result <;> rfl

theorem CallerRooted.kept (rooted : CallerRooted cpu kernel) {mm : Mm.State}
    (bytes : ∀ addr, ¬ kernel.mm.ram.pmm.IsFree (PAGE_SIZE * (addr / PAGE_SIZE)) →
      mm.ram.bytes addr = kernel.mm.ram.bytes addr)
    (processes : mm.processes = kernel.mm.processes) (vmms : mm.vmms = kernel.mm.vmms) :
    Kept cpu kernel { kernel with mm := mm } where
  queues := rfl
  table := rfl
  space thread running frame holds offset inPage := by
    obtain ⟨used, aligned⟩ := holds.not_isFree rooted.sound (rooted.root thread running)
    exact bytes _ (by rw [page_of_offset aligned inPage]; exact used)
  areas := by
    show parentMemory mm _ = _
    rw [parentMemory, parentMemory, processes, vmms]

/-- Up to the new thread nothing is changed that the caller or the other tables show. -/
theorem CallerRooted.wp_makeClone (rooted : CallerRooted cpu kernel) (frame : TrapFrame)
    (flags stack ptid tls : Word) (trampoline stackTop : Nat) :
    wp (makeClone cpu frame flags stack ptid tls trampoline stackTop) (fun result after =>
      (∃ mm, after = { kernel with mm := mm }) ∧
        (∀ error, result = .error error → Kept cpu kernel after) ∧
        ∀ new, result = .ok new → ReachesQueue cpu flags ptid kernel) kernel := by
  have allocated : Kept cpu kernel { kernel with mm := kernel.mm.allocPid } :=
    rooted.kept (fun _ _ => rfl) rfl rfl
  rw [makeClone, wp_bind, wp_ofExcept]
  cases checked : cloneCheck flags ptid with
  | error error =>
    have same : Kept cpu kernel kernel := rooted.kept (fun _ _ => rfl) rfl rfl
    exact ⟨⟨kernel.mm, rfl⟩, fun _ _ => same, nofun⟩
  | ok _ =>
    dsimp only
    rw [wp_bind_gets, wp_bind_gets, wp_bind_modify, wp_bind_gets,
      wp_bind_gets, wp_bind_ofOption]
    refine ⟨fun _ => ⟨⟨_, rfl⟩, fun _ _ => allocated, nofun⟩, fun current running => ?_⟩
    rw [wp_bind_gets]
    by_cases shared : hasFlag flags Sched.CLONE_VM = true
    · rw [if_pos shared, wp_bind, wp_pure]
      dsimp only
      rw [wp_pure]
      exact ⟨⟨_, rfl⟩, nofun, fun _ _ => ⟨checked, current, running, .inl shared⟩⟩
    · rw [if_neg shared, wp_bind_onMm]
      intro result mm copied
      have owned : Owned ∅ ∅ kernel.mm.allocPid.ram := rooted.sound.owned.unrooted
      obtain ⟨bytes, processes, vmms⟩ := wp_copySpace owned _ _ result mm copied
      cases result with
      | error error =>
        exact ⟨⟨mm, rfl⟩, fun _ _ => rooted.kept bytes processes vmms, nofun⟩
      | ok root =>
        dsimp only
        rw [wp_pure]
        exact ⟨⟨mm, rfl⟩, nofun, fun _ _ =>
          ⟨checked, current, running, .inr ⟨root, mm, copied⟩⟩⟩

theorem ReachesQueue.makeClone_returns (reaches : ReachesQueue cpu flags ptid kernel)
    (frame : TrapFrame) (stack tls : Word) (trampoline stackTop : Nat) :
    ∃ new mm, makeClone cpu frame flags stack ptid tls trampoline stackTop kernel =
      some (.ok new, { kernel with mm := mm }) := by
  obtain ⟨checked, current, running, space⟩ := reaches
  by_cases shared : hasFlag flags Sched.CLONE_VM = true
  · simp [makeClone, Bind.bind, Call.bind, Call.ofExcept, Call.gets, Call.modify, Call.ofOption,
      Pure.pure, Call.pure, checked, running, shared]
  · obtain ⟨root, after, copied⟩ := space.resolve_left shared
    have returned : onMm (copySpace current.context.pageTableRoot
        (parentMemory kernel.mm.allocPid (kernel.currentPid cpu)).2)
        { kernel with mm := kernel.mm.allocPid } =
          some (.ok root, { kernel with mm := after }) := by
      have sameAreas : parentMemory kernel.mm.allocPid (kernel.currentPid cpu) =
        parentMemory kernel.mm (kernel.currentPid cpu) := rfl
      simp [onMm, Call.zoom, sameAreas, copied]
    simp [makeClone, Bind.bind, Call.bind, Call.ofExcept, Call.gets, Call.modify, Call.ofOption,
      Pure.pure, Call.pure, checked, running, shared, returned]

/-! ### From the run queue on -/

theorem wp_tellUser (root addr : Nat) (data : List UInt8) :
    wp (tellUser root addr data) (fun result after =>
      result = .ok () ∧ ∃ mm, after = { kernel with mm := mm }) kernel := by
  rw [tellUser, wp_bind_onMm, onRam, wp_zoom, wp_attempt]
  intro result ram _
  dsimp only
  rw [wp_pure]
  exact ⟨rfl, _, rfl⟩

theorem wp_bind_tellUser {condition : Prop} [Decidable condition] {root addr : Nat}
    {data : List UInt8} {α : Type} {rest : CloneCall cpus α}
    {post : Except Errno α → CloneKernel cpus → Prop}
    (holds : ∀ mm, wp rest post { kernel with mm := mm }) :
    wp (do
      if condition then tellUser root addr data
      rest) post kernel := by
  by_cases tells : condition
  · rw [if_pos tells, wp_bind]
    refine wp_mono (wp_tellUser root addr data) ?_
    rintro result after ⟨rfl, mm, rfl⟩
    exact holds mm
  · rw [if_neg tells]
    exact holds kernel.mm

theorem wp_announce_child (root child : Nat) (flags ctid : Word) :
    wp (do
      if hasFlag flags CLONE_CHILD_SETTID ∧ ctid ≠ 0 then
        tellUser root ctid.toNat (Syscall.leBytes 8 child)
      if hasFlag flags CLONE_CHILD_CLEARTID ∧ ctid ≠ 0 then
        Call.modify fun kernel =>
          { kernel with clearChildTid := kernel.clearChildTid.insert child ctid.toNat } :
        CloneCall cpus Unit) (fun result _ => result = .ok ()) kernel := by
  refine wp_bind_tellUser fun mm => ?_
  rw [wp_ite]
  exact ⟨fun _ => (wp_modify _).mpr rfl, fun _ => (wp_pure _).mpr rfl⟩

theorem wp_bind_allocPidfd {α : Type} {rest : Nat → CloneCall cpus α}
    {post : Except Errno α → CloneKernel cpus → Prop}
    (full : kernel.fds.lowestFree 3 = none → ∀ objects nextFile,
      post (.error .EMFILE) { kernel with objects := objects, nextFile := nextFile })
    (opened : ∀ fd after, wp (rest fd) post after) :
    wp (allocPidfd >>= rest) post kernel := by
  rw [wp_bind, allocPidfd, wp_bind_gets, wp_bind_modify, wp_bind_gets,
    wp_bind_ofOption]
  refine ⟨fun none => full none _ _, fun fd _ => ?_⟩
  rw [wp_bind_modify, wp_pure]
  exact opened fd _

/-- The only error of `announce` is that no descriptor is free for the child. -/
theorem wp_announce (root child : Nat) (flags ptid ctid : Word) :
    wp (announce root child flags ptid ctid) (fun result _ => ∀ error,
      result = .error error →
        hasFlag flags Sched.CLONE_PIDFD = true ∧ kernel.fds.lowestFree 3 = none) kernel := by
  have ends : ∀ after : CloneKernel cpus, wp _ (fun result _ => ∀ error,
      result = .error error →
        hasFlag flags Sched.CLONE_PIDFD = true ∧ kernel.fds.lowestFree 3 = none) after :=
    fun after => wp_mono (wp_announce_child root child flags ctid) fun _ _ isOk _ isError => by
      rw [isOk] at isError
      cases isError
  rw [announce]
  refine wp_bind_tellUser fun mm => ?_
  by_cases wanted : hasFlag flags Sched.CLONE_PIDFD = true
  · rw [if_pos wanted]
    refine wp_bind_allocPidfd (fun full _ _ _ _ => ⟨wanted, full⟩) fun fd after => ?_
    rw [wp_bind]
    refine wp_mono (wp_tellUser _ _ _) ?_
    rintro result final ⟨rfl, mm', rfl⟩
    exact ends _
  · rw [if_neg wanted]
    exact ends _

theorem announce_full (wanted : hasFlag flags Sched.CLONE_PIDFD = true)
    (silent : hasFlag flags Sched.CLONE_PARENT_SETTID = false)
    (full : kernel.fds.lowestFree 3 = none) (root child : Nat) (ptid ctid : Word) :
    announce root child flags ptid ctid kernel = some (.error .EMFILE,
      { kernel with
        objects := Function.update kernel.objects kernel.nextFile ⟨.PidFd, 0⟩
        nextFile := kernel.nextFile + 1 }) := by
  simp [announce, allocPidfd, Bind.bind, Call.bind, Call.gets, Call.modify, Call.ofOption,
    Call.throw, wanted, silent, full]

theorem exists_leastLoadedCpu (sched : Scheduler cpus) (cpu : Fin cpus) :
    ∃ target, sched.leastLoadedCpu = some target := by
  refine Option.ne_none_iff_exists'.mp fun none => ?_
  rw [Scheduler.leastLoadedCpu, List.argmin_eq_none] at none
  have member := List.mem_finRange cpu
  rw [none] at member
  cases member

theorem wp_queueClone (cpu : Fin cpus) (new : NewClone) (flags ptid ctid : Word) :
    wp (queueClone new flags ptid ctid) (fun result _ => ∀ error, result = .error error →
      hasFlag flags Sched.CLONE_PIDFD = true ∧ kernel.fds.lowestFree 3 = none) kernel := by
  obtain ⟨target, isTarget⟩ := exists_leastLoadedCpu kernel.sched cpu
  rw [queueClone, wp_bind_gets, isTarget, wp_bind_ofOption]
  refine ⟨nofun, ?_⟩
  rintro _ ⟨⟩
  rw [wp_bind_modify, wp_bind_modify, wp_bind]
  refine wp_mono (wp_announce _ _ _ _ _) ?_
  intro result after onlyFull
  cases result with
  | error error => exact fun _ _ => onlyFull error rfl
  | ok _ => exact (wp_pure _).mpr nofun

/-- Without a free descriptor the call fails with the child queued and entered. -/
theorem queueClone_full (cpu : Fin cpus) (wanted : hasFlag flags Sched.CLONE_PIDFD = true)
    (silent : hasFlag flags Sched.CLONE_PARENT_SETTID = false)
    (full : kernel.fds.lowestFree 3 = none) (new : NewClone) (ptid ctid : Word) :
    ∃ target after, queueClone new flags ptid ctid kernel = some (.error .EMFILE, after) ∧
      after.sched = kernel.sched.pushBack target new.thread ∧
      after.table = insertClone kernel.table
        (cloneEntry new.parent new.parentPid new.child flags.toNat) flags.toNat := by
  obtain ⟨target, isTarget⟩ := exists_leastLoadedCpu kernel.sched cpu
  let queued : CloneKernel cpus :=
    { kernel with
      sched := kernel.sched.pushBack target new.thread
      table := insertClone kernel.table
        (cloneEntry new.parent new.parentPid new.child flags.toNat) flags.toNat
      mm := enterClone kernel.mm new.parentPid new.child new.thread.context.pageTableRoot
        (hasFlag flags Sched.CLONE_VM) }
  have stillFull : queued.fds.lowestFree 3 = none := full
  have failed := announce_full wanted silent stillFull new.pageRoot new.child ptid ctid
  refine ⟨target, { queued with
    objects := Function.update queued.objects queued.nextFile ⟨.PidFd, 0⟩
    nextFile := queued.nextFile + 1 }, ?_, rfl, rfl⟩
  simp only [queueClone, Bind.bind, Call.bind, Call.gets, Call.modify, Call.ofOption,
    isTarget, Call.pure]
  rw [failed]

theorem runQueues_pushBack_ne (sched : Scheduler cpus) (target : Fin cpus) (thread : Thread) :
    (sched.pushBack target thread).runQueues ≠ sched.runQueues := by
  intro same
  have grown := congrArg List.length (congrFun same target)
  simp [Scheduler.pushBack, Scheduler.setQueue] at grown

/-- The checks refuse the two ways of using the same pointer together. -/
theorem not_parentSettid_of_cloneCheck (checked : cloneCheck flags ptid = .ok ())
    (wanted : hasFlag flags Sched.CLONE_PIDFD = true) :
    hasFlag flags Sched.CLONE_PARENT_SETTID = false := by
  by_contra both
  rw [Bool.not_eq_false] at both
  simp [cloneCheck, wanted, both] at checked

/-! ### The first process -/

def firstTable : Table := (∅ : Table).insert 1 (spawnEntry ∅ 1 0)

/-- The first process runs on the only processor, with the given descriptors. -/
def startedKernel (mm : Mm.State) (root : Nat) (fds : FdTable) : CloneKernel 1 where
  sched := (Scheduler.init 1).setCurrent 0
    { Thread.newUserCloned 1 0 0 0 0 root 0 with state := .Running }
  currentPid _ := 1
  table := firstTable
  mm := mm
  fds := fds
  objects _ := ⟨.CharDevice, 0⟩
  nextFile := 3
  clearChildTid := ∅

theorem callerRooted_startedKernel {mm : Mm.State} {root : Nat} (started : Started mm root)
    (fds : FdTable) : CallerRooted 0 (startedKernel mm root fds) where
  sound := started.sound
  root := by
    rintro thread ⟨⟩
    exact started.sound.root_mem started.present

/-- `CLONE_VM`, `CLONE_SIGHAND`, `CLONE_THREAD` and `CLONE_PIDFD`. -/
def threadFlags : Word := 0x11900

def fullFds : FdTable := ⟨fun _ => some 0, fun _ => false⟩

theorem lowestFree_fullFds : fullFds.lowestFree 3 = none := by
  rw [FdTable.lowestFree, List.find?_eq_none]
  intro fd _
  exact Bool.false_ne_true

def pidfdPointer : Word := 4096

def plainFrame : TrapFrame := ⟨fun _ => 0, 0, 0, 0⟩

/-- A failed `do_clone` leaves the run queues, the process table and the memory of the caller as
they were, exactly when it does not fail for want of a descriptor after the child was queued. -/
theorem doClone_keeps_iff (rooted : CallerRooted cpu kernel) (frame : TrapFrame)
    (flags stack ptid tls ctid : Word) (trampoline stackTop : Nat) :
    wp (doClone cpu frame flags stack ptid tls ctid trampoline stackTop)
        (keptOnError cpu kernel) kernel ↔
      ¬ (ReachesQueue cpu flags ptid kernel ∧ hasFlag flags Sched.CLONE_PIDFD = true ∧
        kernel.fds.lowestFree 3 = none) := by
  constructor
  · rintro keeps ⟨reaches, wanted, full⟩
    obtain ⟨new, mm, made⟩ := reaches.makeClone_returns frame stack tls trampoline stackTop
    let middle : CloneKernel cpus := { kernel with mm := mm }
    have stillFull : middle.fds.lowestFree 3 = none := full
    obtain ⟨target, after, failed, queued, -⟩ := queueClone_full cpu wanted
      (not_parentSettid_of_cloneCheck reaches.1 wanted) stillFull new ptid ctid
    have returned : doClone cpu frame flags stack ptid tls ctid trampoline stackTop kernel =
        some (.error .EMFILE, after) := by
      simp only [doClone, Bind.bind, Call.bind, made]
      exact failed
    have kept : Kept cpu kernel after := keeps _ _ returned
    exact runQueues_pushBack_ne _ _ _ (queued ▸ kept.queues)
  · intro safe
    rw [doClone, wp_bind]
    refine wp_mono (rooted.wp_makeClone frame flags stack ptid tls trampoline stackTop) ?_
    rintro result after ⟨⟨mm, rfl⟩, kept, reaches⟩
    cases result with
    | error error => exact kept error rfl
    | ok new =>
      refine wp_mono (wp_queueClone cpu new flags ptid ctid) ?_
      intro result final onlyFull
      cases result with
      | error error => exact absurd ⟨reaches new rfl, onlyFull error rfl⟩ safe
      | ok _ => exact trivial

/-- The same flags without `CLONE_VM`. -/
def unsharedFlags : Word := 0x11800

/-- A call for a thread without `CLONE_VM` fails before anything is queued, also while every
descriptor is open. -/
theorem doClone_keeps_invalid : ∃ kernel after : CloneKernel 1, CallerRooted 0 kernel ∧
    doClone 0 plainFrame unsharedFlags 0 pidfdPointer 0 0 0 0 kernel =
      some (.error .EINVAL, after) ∧ Kept 0 kernel after := by
  obtain ⟨_, mm, root, -, -, started⟩ := exists_started
  have rooted := callerRooted_startedKernel started fullFds
  have checked : cloneCheck unsharedFlags pidfdPointer = .error .EINVAL := by decide
  have failed : doClone 0 plainFrame unsharedFlags 0 pidfdPointer 0 0 0 0
      (startedKernel mm root fullFds) = some (.error .EINVAL, startedKernel mm root fullFds) := by
    simp [doClone, makeClone, Bind.bind, Call.bind, Call.ofExcept, checked]
  refine ⟨_, _, rooted, failed,
    (doClone_keeps_iff rooted plainFrame unsharedFlags 0 pidfdPointer 0 0 0 0).mpr ?_ _ _ failed⟩
  rintro ⟨reaches, -⟩
  cases checked.symm.trans reaches.1

/-- A thread is made with a pidfd while every descriptor is open: the call fails, and the thread
is in the run queue, in the process table and in the list of its leader. -/
theorem failed_clone_leaves_thread : ∃ kernel after : CloneKernel 1, CallerRooted 0 kernel ∧
    doClone 0 plainFrame threadFlags 0 pidfdPointer 0 0 0 0 kernel = some (.error .EMFILE, after) ∧
    kernel.sched.runQueues 0 = [] ∧ (after.sched.runQueues 0).map Thread.pid = [2] ∧
    kernel.table[2]? = none ∧ after.table[2]?.map Process.tgid = some 1 ∧
    kernel.table[1]?.map Process.threads = some [1] ∧
    after.table[1]?.map Process.threads = some [1, 2] := by
  obtain ⟨_, mm, root, -, -, started⟩ := exists_started
  let thread := Thread.newUserCloned 2 0 0 0 0 root 0
  let new : NewClone := ⟨1, 2, spawnEntry ∅ 1 0, root, thread⟩
  let middle : CloneKernel 1 := { startedKernel mm root fullFds with mm := mm.allocPid }
  have made :
    makeClone 0 plainFrame threadFlags 0 pidfdPointer 0 0 0 (startedKernel mm root fullFds) =
      some (.ok new, middle) := by
    have isParent : parentEntry firstTable 1 = spawnEntry ∅ 1 0 := by decide +kernel
    have checked : cloneCheck threadFlags pidfdPointer = .ok () := by decide
    have shared : hasFlag threadFlags Sched.CLONE_VM = true := by decide
    have inherits : hasFlag threadFlags Sched.CLONE_SETTLS = false := by decide
    simp [makeClone, Bind.bind, Call.bind, Call.ofExcept, Call.gets, Call.modify, Call.ofOption,
      Pure.pure, Call.pure, checked, shared, inherits, startedKernel, isParent, started.nextPid,
      Scheduler.setCurrent, Thread.newUserCloned, plainFrame, new, thread, middle]
  obtain ⟨target, after, failed, queued, entered⟩ := queueClone_full (0 : Fin 1)
    (show hasFlag threadFlags Sched.CLONE_PIDFD = true by decide) (by decide)
    (show middle.fds.lowestFree 3 = none from lowestFree_fullFds) new pidfdPointer 0
  refine ⟨startedKernel mm root fullFds, after, callerRooted_startedKernel started fullFds, ?_,
    rfl, ?_, ?_, ?_, ?_, ?_⟩
  · simp only [doClone, Bind.bind, Call.bind, made]
    exact failed
  · obtain rfl : target = 0 := Subsingleton.elim _ _
    rw [queued]
    rfl
  · rfl
  · rw [entered]
    show (insertClone firstTable (cloneEntry (spawnEntry ∅ 1 0) 1 2 threadFlags.toNat)
      threadFlags.toNat)[2]?.map Process.tgid = some 1
    decide +kernel
  · show firstTable[1]?.map Process.threads = some [1]
    decide +kernel
  · rw [entered]
    show (insertClone firstTable (cloneEntry (spawnEntry ∅ 1 0) 1 2 threadFlags.toNat)
      threadFlags.toNat)[1]?.map Process.threads = some [1, 2]
    decide +kernel

end Calls

end Cyllor.Proc
