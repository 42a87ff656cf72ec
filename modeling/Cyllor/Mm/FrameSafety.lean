import Cyllor.Mm.Progress

/-!
Contract: no frame is given back that was not handed out, over whole runs.

Owns:
- `FrameSafe`, which calls keep to the frames that pages own;
- `Does`, what a step with such a call can do to the state;
- that the invariant holds after boot and is kept by every such step;
- that a run of such calls gives back only outstanding frames, and leaves no frame both
  free and mapped or both free and of the kernel heap;
- that threads see no page table, and one frame twice only as shared memory.
-/

namespace Cyllor.Mm

open Cyllor.Arch LinkForest State
open Call hiding pure bind

/-- The call keeps to frames that pages own. Ranges end below the addresses that page tables
tell apart, shared memory is attached at whole pages, and the break does not move while
the heap shows the kernel heap. -/
def FrameSafe (state : State) : Label → Prop
  | .spawn _ => True
  | .call pid call =>
    match call with
    | .munmap addr length => addr + roundUp length ≤ 2 ^ 48
    | .mmap addr length _ flags _ _ _ => flags &&& MAP_FIXED ≠ 0 → addr + roundUp length ≤ 2 ^ 48
    | .shmat shmid shmaddr _ => ∀ seg : ShmSegment, state.shmSegs[shmid]? = some seg →
        if shmaddr ≠ 0 then shmaddr % PAGE_SIZE = 0 ∧ shmaddr + seg.size ≤ 2 ^ 48
        else ∀ process, state.processes pid = some process →
          roundUp process.mmapNext + seg.size ≤ 2 ^ 48
    | .brk addr => ∀ process, state.processes pid = some process → addr ≠ 0 →
        process.brkBase ≤ addr → addr ≠ process.brkCurrent →
          HeapPrivate state (state.rootOf pid) process
    | _ => True

variable {state next : State}

/-- After boot there are no user page tables, and the kernel heap is reserved. -/
theorem sound_boot {entries : List MemmapEntry} (wellFormed : MemmapWellFormed entries)
    {pmm : BitmapAllocator} {heap : KernelHeap} (booted : initMm entries = some (pmm, heap.base))
    (bytes : ByteMemory) : Sound (boot bytes pmm heap) := by
  obtain ⟨counted, -, frees⟩ := initMm_spec wellFormed booted
  have noRoots : (boot bytes pmm heap).rootSet = ∅ :=
    Set.eq_empty_of_forall_notMem fun _ member => by cases member
  refine ⟨?_, nofun, fun _ _ => rfl, fun _ => Vmm.wellFormed_new, nofun, nofun, ?_, nofun⟩
  · rw [noRoots]
    refine ⟨⟨_, Tables.empty _⟩, counted, trivial, fun _ member => ?_, fun frame inHeap => ⟨?_, ?_⟩,
      fun _ _ => id⟩
    · exact absurd member.1 (Set.notMem_empty _)
    · exact fun isFree => ((frees frame).mp isFree).2 inHeap
    · rintro ⟨root, member, -⟩
      exact absurd member (Set.notMem_empty _)
  · intro id seg found
    rw [boot, Std.ExtTreeMap.getElem?_empty] at found
    cases found

/-! ### What a step does -/

/-- What a call of a thread does to its process entry, the pages it may map, and what it
leaves: the cases of `Does` in which no address space is made. -/
def MemCall.Moves (call : MemCall) (state : State) (root : Nat) (process : Process)
    (result : Except Errno Nat) (process' : Process) (pages : Set Page) (after : State) : Prop :=
  match call with
  | .mmap addr length _ flags _ _ _ =>
    if flags &&& MAP_FIXED ≠ 0 then
      process' = process ∧ (pages = ∅ ∨
        addr % PAGE_SIZE = 0 ∧ pages = Span root addr (roundUp length / PAGE_SIZE))
    else
      (process' = process ∧ pages = ∅ ∧ after.ram = state.ram ∧ ∃ error, result = .error error) ∨
      (process' = process.placed (roundUp length) ∧
        pages = Span root (roundUp process.mmapNext) (roundUp length / PAGE_SIZE) ∧
        Touched state.rootSet pages state.ram after.ram ∧
        ∀ value, result = .ok value → value = roundUp process.mmapNext)
  | .shmat shmid shmaddr _ =>
    (process' = process ∧ pages = ∅) ∨ ∃ seg : ShmSegment, state.shmSegs[shmid]? = some seg ∧
      if shmaddr ≠ 0 then
        process' = process ∧ pages = Span root shmaddr ((seg.size + 4095) / 4096)
      else
        process' = process.placed (roundUp (max seg.size PAGE_SIZE)) ∧
          pages = Span root (roundUp process.mmapNext) ((seg.size + 4095) / 4096)
  | .brk addr =>
    (process.brkCurrent ≤ addr → Touched state.rootSet (Span root (roundUp process.brkCurrent)
      ((roundUp addr - roundUp process.brkCurrent) / PAGE_SIZE)) state.ram after.ram) ∧
    ((process' = process ∧ pages = ∅ ∧ result = .ok process.brkCurrent) ∨
      (process' = { process with brkCurrent := addr } ∧ process.brkBase ≤ addr ∧
        pages = Span root (roundUp process.brkCurrent)
          ((roundUp addr - roundUp process.brkCurrent) / PAGE_SIZE) ∧ result = .ok addr ∧
        ∀ page ∈ Span root (roundUp addr) ((roundUp process.brkCurrent - roundUp addr) / PAGE_SIZE),
          frameAt after.ram page = none))
  | .pageFault far => process' = process ∧ pages = {pageAt root (PAGE_SIZE * (far / PAGE_SIZE))}
  | .demandPage virt => process' = process ∧ pages = {pageAt root (PAGE_SIZE * (virt / PAGE_SIZE))}
  | _ => process' = process ∧ pages = ∅

inductive Does (state : State) : Label → Except Errno Nat → State → Prop
  | fails {label : Label} {error : Errno} {after : State} (grows : Grows state after) :
      Does state label (.error error) after
  | spawns {image : Image} {root : Nat} {after : State}
      (entered : Entered state state.nextPid root image.process (image.pages root) after) :
      Does state (.spawn image) (.ok state.nextPid) after
  | execs {pid root fresh : Nat} {image : Image} {after : State}
      (present : state.roots pid = some root)
      (entered : Entered state pid fresh image.process (image.pages fresh) after) :
      Does state (.call pid (.execve image)) (.ok 0) after
  | joins {pid root : Nat} {process : Process} {flags ptid : Nat} {after : State}
      (shared : flags &&& CLONE_VM ≠ 0) (present : state.roots pid = some root)
      (found : state.processes pid = some process) (sound : Sound after)
      (joined : after = state.allocPid.enterShared state.nextPid root process) :
      Does state (.call pid (.clone flags ptid)) (.ok state.nextPid) after
  | forks {pid root child : Nat} {process : Process} {flags ptid : Nat} {after : State}
      (separate : flags &&& CLONE_VM = 0) (present : state.roots pid = some root)
      (found : state.processes pid = some process)
      (entered : Entered state state.nextPid child process (copiedPages state.ram root child) after)
      (forked : Forked state root child (state.vmms process.vmm) after.ram) :
      Does state (.call pid (.clone flags ptid)) (.ok state.nextPid) after
  | acts {pid root : Nat} {process process' : Process} {call : MemCall} {pages : Set Page}
      {result : Except Errno Nat} {after : State} (present : state.roots pid = some root)
      (found : state.processes pid = some process)
      (effect : Effect state pid process' pages after)
      (moves : call.Moves state root process result process' pages after) :
      Does state (.call pid call) result after

theorem Does.sound {label : Label} {result : Except Errno Nat} (does :
    Does state label result next) :
    Sound next := by
  cases does with
  | fails grows => exact grows.sound
  | spawns entered => exact entered.sound
  | execs present entered => exact entered.sound
  | joins shared present found sound joined => exact sound
  | forks separate present found entered forked => exact entered.sound
  | acts present found effect moves => exact effect.sound

theorem Does.heap {label : Label} {result : Except Errno Nat} (does :
    Does state label result next) :
    next.heap = state.heap := by
  cases does with
  | fails grows => exact grows.heap
  | spawns entered => exact entered.heap
  | execs present entered => exact entered.heap
  | joins shared present found sound joined => rw [joined]; rfl
  | forks separate present found entered forked => exact entered.heap
  | acts present found effect moves => exact effect.heap

theorem Sound.wp_call {pid root : Nat} {process : Process} (sound : Sound state)
    (present : state.roots pid = some root) (found : state.processes pid = some process)
    (call : MemCall) (safe : FrameSafe state (.call pid call)) :
    wp (call.run pid) (Does state (.call pid call)) state := by
  cases call with
  | execve image =>
    refine wp_mono (sound.wp_doExecve present image) ?_
    rintro _ after (⟨error, rfl, grows⟩ | ⟨fresh, rfl, entered⟩)
    · exact .fails grows
    · exact .execs present entered
  | clone flags ptid =>
    refine wp_mono (sound.wp_doClone present found flags ptid) ?_
    rintro _ after (⟨error, rfl, grows⟩ | ⟨shared, rfl, soundNow, joined⟩ |
      ⟨separate, rfl, child, entered, forked⟩)
    · exact .fails grows
    · exact .joins shared present found soundNow joined
    · exact .forks separate present found entered forked
  | mmap addr length prot flags fd offset file =>
    refine wp_mono (sound.wp_doMmap present found addr length prot flags fd offset file
      safe) ?_
    intro result after reached
    split at reached
    · rcases reached with effect | ⟨aligned, effect⟩
      · refine .acts present found effect ?_
        rw [MemCall.Moves, if_pos ‹_›]
        exact ⟨rfl, .inl rfl⟩
      · refine .acts present found effect ?_
        rw [MemCall.Moves, if_pos ‹_›]
        exact ⟨rfl, .inr ⟨aligned, rfl⟩⟩
    · rcases reached with ⟨effect, sameRam, error⟩ | ⟨effect, touched, isAddr⟩
      · refine .acts present found effect ?_
        rw [MemCall.Moves, if_neg ‹_›]
        exact .inl ⟨rfl, rfl, sameRam, error⟩
      · refine .acts present found effect ?_
        rw [MemCall.Moves, if_neg ‹_›]
        exact .inr ⟨rfl, rfl, touched, isAddr⟩
  | munmap addr length =>
    exact wp_mono (sound.wp_doMunmap present found safe)
      fun _ _ effect => .acts present found effect ⟨rfl, rfl⟩
  | mprotect addr length prot =>
    exact wp_mono (sound.wp_doMprotect present found addr length prot)
      fun _ _ effect => .acts present found effect ⟨rfl, rfl⟩
  | brk addr =>
    have noHeap := safe process found
    rw [rootOf_eq present] at noHeap
    refine wp_mono (sound.wp_doBrk present found addr noHeap) ?_
    rintro _ after ⟨touched, ⟨rfl, effect⟩ | ⟨above, rfl, effect, cleared⟩⟩
    · exact .acts present found effect ⟨touched, .inl ⟨rfl, rfl, rfl⟩⟩
    · exact .acts present found effect ⟨touched, .inr ⟨rfl, above, rfl, rfl, cleared⟩⟩
  | shmget key size shmflg buffer =>
    exact wp_mono (wp_bind_pure (sound.wp_doShmget present found key size shmflg buffer))
      fun _ _ effect => .acts present found effect ⟨rfl, rfl⟩
  | shmat shmid shmaddr shmflg =>
    refine wp_mono (sound.wp_doShmat present found shmid shmaddr shmflg ?_) ?_
    · intro seg isSeg
      have inside := safe seg isSeg
      split at inside
      · rwa [if_pos ‹_›]
      · rw [if_neg ‹_›]
        exact inside process found
    · rintro result after (effect | ⟨seg, isSeg, reached⟩)
      · exact .acts present found effect (.inl ⟨rfl, rfl⟩)
      · split at reached
        · refine .acts present found reached (.inr ⟨seg, isSeg, ?_⟩)
          rw [if_pos ‹_›]
          exact ⟨rfl, rfl⟩
        · refine .acts present found reached (.inr ⟨seg, isSeg, ?_⟩)
          rw [if_neg ‹_›]
          exact ⟨rfl, rfl⟩
  | shmdt shmaddr =>
    exact wp_mono (sound.wp_doShmdt present found shmaddr)
      fun _ _ effect => .acts present found effect ⟨rfl, rfl⟩
  | shmctlRmid shmid =>
    exact wp_mono (sound.wp_doShmctlRmid present found shmid)
      fun _ _ effect => .acts present found effect ⟨rfl, rfl⟩
  | pageFault far =>
    exact wp_mono (wp_bind_pure (sound.wp_handlePageFault present found far))
      fun _ _ effect => .acts present found effect ⟨rfl, rfl⟩
  | demandPage virt =>
    exact wp_mono (wp_bind_pure (sound.wp_demandPage present found virt))
      fun _ _ effect => .acts present found effect ⟨rfl, rfl⟩
  | store virt bytes =>
    exact wp_mono (wp_bind_pure (sound.wp_storeBytes present found virt bytes))
      fun _ _ effect => .acts present found effect ⟨rfl, rfl⟩

theorem Sound.does {label : Label} (sound : Sound state) (safe : FrameSafe state label)
    {result : Except Errno Nat} (performed : state.perform label = some (result, next)) :
    Does state label result next := by
  cases label with
  | spawn image =>
    rcases sound.wp_spawnUserProcess image result next performed with
      ⟨error, rfl, grows⟩ | ⟨root, rfl, entered⟩
    · exact .fails grows
    · exact .spawns entered
  | call pid call =>
    rw [perform] at performed
    split at performed
    · obtain ⟨root, present⟩ := Option.isSome_iff_exists.mp ‹_›
      obtain ⟨-, process, found⟩ := sound.threads pid root present
      exact sound.wp_call present found call safe result next performed
    · cases performed

/-! ### A machine with one process -/

def plainMemmap : List MemmapEntry := [⟨MEMMAP_USABLE, 0x44000000, 0x8000000⟩]

def plainHeap : KernelHeap := ⟨0x44000000, by decide, by decide⟩

/-- A program of one page, with the stack of a process without arguments and
environment. -/
def plainImage : Image where
  segments := [⟨0x400000, 4096, ⟨true, false, true, true, false⟩, [0x1f, 0x20, 0x03, 0xd5]⟩]
  interp := []
  stack := (USER_STACK_TOP - 16, List.replicate 16 0) ::
    (List.range 27).map fun i => (USER_STACK_TOP - 32 - 8 * i, List.replicate 8 0)

theorem plainMemmap_wellFormed : MemmapWellFormed plainMemmap := ⟨by decide, by decide⟩

theorem plainImage_loadable : plainImage.Loadable where
  segments := by
    intro segment member
    obtain rfl := List.mem_singleton.mp member
    exact ⟨by decide, by decide⟩
  interp := nofun
  stack := by decide

theorem plainMemmap_boots : ∃ pmm, initMm plainMemmap = some (pmm, plainHeap.base) ∧
    (∀ frame, pmm.IsFree frame → 0x46000000 ≤ frame) ∧ 24576 ≤ pmm.clearPages.card := by
  obtain ⟨pmm, booted⟩ := initMm_returns (show ∀ entry ∈ plainMemmap, _ by decide)
    (show findContiguousRegion KERNEL_HEAP_SIZE plainMemmap = some plainHeap.base by decide)
  obtain ⟨-, -, frees⟩ := initMm_spec plainMemmap_wellFormed booted
  refine ⟨pmm, booted, fun frame isFree => ?_, ?_⟩
  · obtain ⟨⟨-, entry, member, -, lower, -⟩, outside⟩ := (frees frame).mp isFree
    obtain rfl := List.mem_singleton.mp member
    simp only [plainHeap, KERNEL_HEAP_SIZE] at lower outside
    omega
  · have pages : Finset.Ico 0x46000 0x4C000 ⊆ pmm.clearPages := by
      intro page inside
      obtain ⟨lower, upper⟩ := Finset.mem_Ico.mp inside
      refine BitmapAllocator.mem_clearPages.mpr ((frees _).mpr ⟨⟨Nat.mul_mod_right _ _, _,
        List.mem_singleton_self _, rfl, ?_, ?_, ?_⟩, ?_⟩)
      · simp only [PAGE_SIZE]
        omega
      · simp only [PAGE_SIZE]
        omega
      · simp only [PAGE_SIZE, maxPhys]
        omega
      · simp only [PAGE_SIZE, plainHeap, KERNEL_HEAP_SIZE]
        omega
    exact (Nat.card_Ico _ _).symm.le.trans (Finset.card_le_card pages)

/-- The machine after its first process has started. -/
structure Started (state : State) (root : Nat) : Prop where
  sound : Sound state
  heap : state.heap = plainHeap
  present : state.roots 1 = some root
  only : ∀ pid, pid ≠ 1 → state.roots pid = none
  found : state.processes 1 = some ⟨0x401000, 0x401000, USER_MMAP_BASE, 0⟩
  areas : state.vmms 0 = Vmm.new
  nextPid : state.nextPid = 2
  nextShmid : state.nextShmid = 1
  nonzero : root ≠ 0
  stack : ∀ page ∈ stackPages root, (frameAt state.ram page).isSome
  left : 16000 ≤ state.ram.pmm.clearPages.card

theorem exists_started : ∃ pmm state root, initMm plainMemmap = some (pmm, plainHeap.base) ∧
    (boot (fun _ => 0) pmm plainHeap).run [.spawn plainImage] = some state ∧
    Started state root := by
  obtain ⟨pmm, booted, above, many⟩ := plainMemmap_boots
  have sound := sound_boot plainMemmap_wellFormed booted (fun _ => 0)
  have isFrames : plainImage.frames = 8196 := by decide
  obtain ⟨pid, state, performed, -, root, ram, rfl, free, filled, spends⟩ :=
    sound.succeeds_spawnUserProcess plainImage_loadable (show plainImage.frames + 1 ≤
      pmm.clearPages.card by omega)
  have spawned : perform _ (.spawn plainImage) = some (.ok pid, _) := performed
  have does := sound.does (by exact trivial) spawned
  have left : pmm.clearPages.card ≤ _ := (spends sound.owned.counted).2
  refine ⟨pmm, _, root, booted, ?_, does.sound, rfl, rfl, ?_, ?_, rfl, rfl, rfl, ?_, filled, ?_⟩
  · exact LabelledRun.run_cons_eq_some.mpr ⟨_, step_of_perform spawned, rfl⟩
  · exact fun pid other => Function.update_of_ne other _ _
  · have isBreak : plainImage.brkStart = 0x401000 := by decide
    rw [processes_enter, Image.process, isBreak]
    rfl
  · rintro rfl
    exact absurd (above 0 free) (by decide)
  · show 16000 ≤ ram.pmm.clearPages.card
    omega

/-- The state with a segment of one page in the kernel heap. -/
def State.withSegment (state : State) : State :=
  { state with
    nextShmid := 2
    shmSegs := state.shmSegs.insert 1 ⟨IPC_PRIVATE, 4096, 0x44800000, 0, false⟩ }

theorem State.shmSegs_withSegment (state : State) : state.withSegment.shmSegs =
    state.shmSegs.insert 1 ⟨IPC_PRIVATE, 4096, 0x44800000, 0, false⟩ := rfl

theorem Started.succeeds_shmget (started : Started state root) :
    succeeds ((MemCall.shmget IPC_PRIVATE 4096 0 0x44800000).run 1)
      (fun _ after => after = state.withSegment) state := by
  refine succeeds_bind ?_
  rw [doShmget, if_neg (by decide)]
  refine succeeds_bind_gets ?_
  rw [if_neg (by decide)]
  dsimp only
  rw [if_pos (.inl rfl), newSegment]
  refine succeeds_bind_gets ?_
  rw [started.heap, if_pos (by decide)]
  refine succeeds_bind_gets (succeeds_bind_modify (succeeds_pure
    (succeeds_pure ?_)))
  rw [started.nextShmid]
  rfl

/-- Areas after the segment was attached off a page boundary. -/
def oddAreas : Vmm VmaName :=
  Vmm.new.map 0x10000001 0x10001001 (PROT_READ ||| PROT_WRITE) MAP_SHARED 0 (some (.shm 1))

/-! ### Runs -/

theorem Sound.step {label : Label} (sound : Sound state) (safe : FrameSafe state label)
    (stepped : state.step label = some next) : Sound next ∧ next.heap = state.heap := by
  obtain ⟨⟨result, after⟩, performed, rfl⟩ := Option.map_eq_some_iff.mp stepped
  have does := sound.does safe performed
  exact ⟨does.sound, does.heap⟩

section

variable {entries : List MemmapEntry} (wellFormed : MemmapWellFormed entries)
  {pmm : BitmapAllocator} {heap : KernelHeap} (booted : initMm entries = some (pmm, heap.base))
  {bytes : ByteMemory} {trace : List Label} {final : State}
  (safe : LabelledRun.Guarded step FrameSafe (boot bytes pmm heap) trace)
  (reached : (boot bytes pmm heap).run trace = some final)

include wellFormed booted safe reached

/-- The invariant holds in every state that a run of safe calls reaches. -/
theorem sound_of_run : Sound final ∧ final.heap = heap := by
  refine LabelledRun.invariant_of_guarded (fun state => Sound state ∧ state.heap = heap) ?_
    ⟨sound_boot wellFormed booted bytes, rfl⟩ safe reached
  rintro state next label ⟨sound, sameHeap⟩ isSafe stepped
  obtain ⟨soundNext, heapNext⟩ := sound.step isSafe stepped
  exact ⟨soundNext, heapNext.trans sameHeap⟩

/-- In every run of safe calls, only outstanding frames were given back, and no frame that
is free is mapped by a user page table or belongs to the kernel heap. -/
theorem frames_exclusive_of_run :
    Disciplined final.ram.events ∧ ∀ frame, final.ram.pmm.IsFree frame →
      ¬ heap.Contains frame ∧
        ∀ root ∈ final.spaces, ∀ virt phys, translateUserVa final.ram root virt = some phys →
          PAGE_SIZE * (phys / PAGE_SIZE) ≠ frame := by
  obtain ⟨sound, sameHeap⟩ := sound_of_run wellFormed booted safe reached
  refine ⟨sound.owned.disciplined, fun frame isFree => ⟨fun inHeap => ?_, ?_⟩⟩
  · rw [← sameHeap] at inHeap
    exact (sound.owned.heapKept frame inHeap).1 isFree
  · rintro root member virt phys translated rfl
    have rootIn : root ∈ final.rootSet := member
    exact (sound.owned.mapped_settled (pageOf_pageAt rootIn virt)
      (leaf_of_translate translated)).1 isFree

omit wellFormed booted safe reached in
/-- A process starts and gives the lowest page of its stack back. -/
theorem frames_exclusive_plain : ∃ pmm final, initMm plainMemmap = some (pmm, plainHeap.base) ∧
    (boot (fun _ => 0) pmm plainHeap).run [.spawn plainImage,
      .call 1 (.munmap (USER_STACK_TOP - USER_STACK_SIZE) PAGE_SIZE)] = some final ∧
    Disciplined final.ram.events ∧ ∀ frame, final.ram.pmm.IsFree frame →
      ¬ plainHeap.Contains frame ∧
        ∀ root ∈ final.spaces, ∀ virt phys, translateUserVa final.ram root virt = some phys →
          PAGE_SIZE * (phys / PAGE_SIZE) ≠ frame := by
  obtain ⟨pmm, state, root, booted, spawned, started⟩ := exists_started
  obtain ⟨result, final, unmapped, -⟩ := started.sound.ends_doMunmap started.present started.found
    (show USER_STACK_TOP - USER_STACK_SIZE + roundUp PAGE_SIZE ≤ 2 ^ 48 by decide)
  have performed : state.perform (.call 1 (.munmap (USER_STACK_TOP - USER_STACK_SIZE) PAGE_SIZE)) =
      some (result, final) := by
    rw [perform, if_pos (by rw [started.present]; rfl)]
    exact unmapped
  have reached := run_perform spawned performed
  refine ⟨pmm, final, booted, reached,
    frames_exclusive_of_run plainMemmap_wellFormed booted ?_ reached⟩
  refine LabelledRun.guarded_of_forall (List.forall_mem_cons.mpr ⟨fun _ => trivial, ?_⟩)
  exact List.forall_mem_singleton.mpr fun _ => show (_ : Nat) ≤ 2 ^ 48 by decide

/-- The page of the thread at the address is mapped to the frame. -/
def State.Shows (state : State) (pid virt frame : Nat) : Prop :=
  ∃ root ≠ 0, state.roots pid = some root ∧
    ∃ phys, translateUserVa state.ram root virt = some phys ∧ PAGE_SIZE * (phys / PAGE_SIZE) = frame

/-- In every run of safe calls, threads see one frame only at one page of one address space, or
where both have attached shared memory; and they never see a page table. -/
theorem spaces_isolated_of_run {pid virt frame : Nat} (below : virt < 2 ^ 48)
    (aligned : virt % PAGE_SIZE = 0) (shown : final.Shows pid virt frame) :
    ¬ IsTable final.rootSet final.ram frame ∧
      ∀ other virt', virt' < 2 ^ 48 → virt' % PAGE_SIZE = 0 → final.Shows other virt' frame →
        final.roots other = final.roots pid ∧ virt' = virt ∨
          final.isShmPage pid virt ∧ final.isShmPage other virt' := by
  obtain ⟨sound, -⟩ := sound_of_run wellFormed booted safe reached
  obtain ⟨root, nonzero, present, phys, translated, rfl⟩ := shown
  have mapped := leaf_of_translate translated
  obtain ⟨based, process, found⟩ := sound.threads pid root present
  have isPage : PageOf final.rootSet (pageAt root virt) := pageOf_pageAt based virt
  refine ⟨(sound.owned.mapped_settled isPage mapped).2,
    fun other virt' below' aligned' shown' => ?_⟩
  obtain ⟨root', nonzero', present', phys', translated', same⟩ := shown'
  have mapped' := leaf_of_translate translated'
  rw [same] at mapped'
  obtain ⟨based', process', found'⟩ := sound.threads other root' present'
  by_cases inHeap : PAGE_SIZE * (phys / PAGE_SIZE) ∈ final.heap.frames
  · rw [isShmPage_eq found, isShmPage_eq found']
    exact .inr ⟨sound.shows _ _ _ present nonzero found virt below aligned _ mapped inHeap,
      sound.shows _ _ _ present' nonzero' found' virt' below' aligned' _ mapped' inHeap⟩
  · obtain ⟨rfl, samePath⟩ := Prod.mk.inj (sound.owned.page_eq (pageOf_pageAt based' virt') isPage
      mapped' mapped inHeap)
    have numbers := (pagePath_eq_iff virt' virt).mp samePath
    simp only [PAGE_SIZE] at aligned aligned' numbers
    exact .inl ⟨present'.trans present.symm, by omega⟩

end

/-- A process starts and makes a segment; two pages of its stack show two frames. -/
theorem spaces_isolated_stack : ∃ pmm final frame frame',
    initMm plainMemmap = some (pmm, plainHeap.base) ∧
    (boot (fun _ => 0) pmm plainHeap).run [.spawn plainImage,
      .call 1 (.shmget IPC_PRIVATE 4096 0 0x44800000)] = some final ∧
    final.Shows 1 (USER_STACK_TOP - PAGE_SIZE) frame ∧ ¬ IsTable final.rootSet final.ram frame ∧
    final.Shows 1 (USER_STACK_TOP - 2 * PAGE_SIZE) frame' ∧ frame' ≠ frame := by
  obtain ⟨pmm, state, root, booted, spawned, started⟩ := exists_started
  obtain ⟨_, final, made, rfl⟩ :=
    perform_of_succeeds started.present started.succeeds_shmget
  have reached := run_perform spawned made
  have shows (virt : Nat) (inStack : pageAt root virt ∈ stackPages root) :
      ∃ frame, state.withSegment.Shows 1 virt frame := by
    obtain ⟨phys, translated⟩ := Option.isSome_iff_exists.mp
      ((isSome_translate state.ram root _).trans (started.stack _ inStack))
    exact ⟨_, root, started.nonzero, started.present, phys, translated, rfl⟩
  obtain ⟨frame, shown⟩ := shows (USER_STACK_TOP - PAGE_SIZE)
    (pageAt_mem_span (by decide) (by decide) (by decide))
  obtain ⟨frame', shown'⟩ := shows (USER_STACK_TOP - 2 * PAGE_SIZE)
    (pageAt_mem_span (by decide) (by decide) (by decide))
  have safe : LabelledRun.Guarded step FrameSafe (boot (fun _ => 0) pmm plainHeap)
      [.spawn plainImage, .call 1 (.shmget IPC_PRIVATE 4096 0 0x44800000)] :=
    LabelledRun.guarded_of_forall (List.forall_mem_cons.mpr
      ⟨fun _ => trivial, List.forall_mem_singleton.mpr fun _ => trivial⟩)
  obtain ⟨noTable, isolated⟩ := spaces_isolated_of_run plainMemmap_wellFormed booted safe reached
    (by decide) (by decide) shown
  refine ⟨pmm, _, frame, frame', booted, reached, shown, noTable, shown', ?_⟩
  rintro rfl
  have notShared (virt : Nat) : state.withSegment.isShmPage 1 virt = false := by
    rw [isShmPage_eq (by exact started.found)]
    show (state.vmms 0).IsShm virt = false
    rw [started.areas]
    rfl
  rcases isolated 1 _ (by decide) (by decide) shown' with ⟨-, same⟩ | ⟨shared, -⟩
  · exact absurd same (by decide)
  · rw [notShared] at shared
    cases shared

/-! ### A segment off a page boundary -/

theorem Started.succeeds_shmat (started : Started state root) :
    succeeds ((MemCall.shmat 1 0x10000001 0).run 1) (fun _ after =>
      Extended plainHeap.frames state.rootSet state.ram after.ram ∧
        leaf after.ram root 0x10000000 = some 0x44800000 ∧ after.roots 1 = some root ∧
          after.processes = state.processes ∧ after.vmms 0 = oddAreas) state.withSegment := by
  have based := started.sound.root_mem started.present
  have owned := started.sound.owned
  rw [started.heap] at owned
  have isRoot : state.withSegment.rootOf 1 = root := rootOf_eq started.present
  have isFrame : PAGE_SIZE * ((0x44800000 + PAGE_SIZE * 0) % 2 ^ 48 / PAGE_SIZE) = 0x44800000 := by
    decide
  have fits : Fits plainHeap.frames state.rootSet state.ram
      (pageAt root (0x10000001 + PAGE_SIZE * 0)) 0x44800000 :=
    .inl (show plainHeap.Contains 0x44800000 by decide)
  have many := started.left
  rw [MemCall.run, doShmat]
  refine succeeds_bind_gets ?_
  rw [shmSegs_withSegment, Std.ExtTreeMap.getElem?_insert_self]
  refine succeeds_bind_ofOption (succeeds_bind (succeeds_pure ?_))
  refine succeeds_bind_gets ?_
  rw [isRoot]
  refine succeeds_bind (succeeds_onRam (succeeds_bind (succeeds_pure ?_)))
  refine succeeds_bind_word (by decide) (succeeds_mono
    (owned.succeeds_mapUserPage based isFrame fits _) ?_)
  rintro _ ram ⟨_ | _, isMapped⟩
  · exact absurd (isMapped.short rfl) (by omega)
  refine succeeds_bind_modify (succeeds_bind_word (by decide)
    (succeeds_bind_changeVmm (by exact started.found) (by rfl) (succeeds_pure ?_)))
  refine ⟨isMapped.extended, ?_, started.present, rfl, ?_⟩
  · have samePage : pagePath 0x10000000 = pagePath 0x10000001 := by decide
    rw [leaf, samePage]
    exact isMapped.outcome.1
  · refine (Function.update_self (f := state.vmms) 0 _).trans ?_
    exact congrArg (fun vmm => vmm.map 0x10000001 0x10001001 (PROT_READ ||| PROT_WRITE)
      MAP_SHARED 0 (some (.shm 1))) started.areas

/-- The frame behind a page that is not in an area of shared memory is given back, even if
it belongs to the kernel heap. -/
theorem succeeds_munmap_odd {heap roots : Set Nat} (owned : Owned heap roots state.ram)
    (based : root ∈ roots) (inHeap : 0x44800000 ∈ heap) (nonzero : root ≠ 0)
    (present : state.roots 1 = some root)
    (found : state.processes 1 = some ⟨0x401000, 0x401000, USER_MMAP_BASE, 0⟩)
    (areas : state.vmms 0 = oddAreas) (mapped : leaf state.ram root 0x10000000 = some 0x44800000) :
    succeeds ((MemCall.munmap 0x10000000 4096).run 1) (fun _ after =>
      ¬ Disciplined after.ram.events ∧ after.ram.pmm.IsFree 0x44800000) state := by
  have isRoot : state.rootOf 1 = root := rootOf_eq present
  have notShared : state.isShmPage 1 (0x10000000 + PAGE_SIZE * 0) = false := by
    rw [isShmPage_eq found, areas]
    decide
  have unmaps : ∃ areas', oddAreas.unmap 0x10000000 4096 = some areas' :=
    Option.isSome_iff_exists.mp (by decide)
  obtain ⟨areas', isAreas⟩ := unmaps
  rw [MemCall.run, doMunmap, if_neg (by decide)]
  refine succeeds_bind_alignUp (by decide) (succeeds_bind_gets ?_)
  rw [isRoot, if_neg nonzero]
  refine succeeds_bind_gets (succeeds_bind (succeeds_onRam ?_))
  refine succeeds_bind (succeeds_pure (succeeds_bind_word (by decide) ?_))
  refine succeeds_bind (succeeds_mono (owned.succeeds_unmapUserPage based 0x10000000) ?_)
  rintro _ ram ⟨rfl, unmapped⟩
  rw [mapped]
  dsimp only
  rw [if_pos (by rw [notShared]; rfl)]
  refine succeeds_mono (succeeds_freePage (by decide) ram) ?_
  rintro _ freed ⟨isEvents, isFree⟩
  refine succeeds_bind_changeVmm (by exact found) (by rw [← isAreas, ← areas]; rfl)
    (succeeds_bind_modify (succeeds_pure ?_))
  obtain ⟨segs, attach, isAfter, -⟩ := detachMappingsInRange_eq
    (({ state with ram := freed } : State).setVmm 0 areas') 1 0x10000000 (roundUp 4096)
  rw [isAfter]
  refine ⟨?_, isFree (by decide)⟩
  show ¬ Disciplined freed.events
  rw [isEvents]
  exact fun disciplined => unmapped.extended.owned.heapNever _ inHeap disciplined.1

/-- A process attaches a segment off a page boundary and unmaps the page before: a frame of
the kernel heap is given back, which was never handed out. -/
theorem heap_frame_freed : ∃ pmm final, initMm plainMemmap = some (pmm, plainHeap.base) ∧
    (boot (fun _ => 0) pmm plainHeap).run [.spawn plainImage,
      .call 1 (.shmget IPC_PRIVATE 4096 0 0x44800000), .call 1 (.shmat 1 0x10000001 0),
      .call 1 (.munmap 0x10000000 4096)] = some final ∧
    ¬ Disciplined final.ram.events ∧ final.ram.pmm.IsFree 0x44800000 ∧
      plainHeap.Contains 0x44800000 := by
  obtain ⟨pmm, state, root, booted, spawned, started⟩ := exists_started
  obtain ⟨_, _, shmget, rfl⟩ := perform_of_succeeds started.present started.succeeds_shmget
  obtain ⟨_, attached, shmat, extended, mapped, present, sameProcesses, areas⟩ :=
    perform_of_succeeds (by exact started.present) started.succeeds_shmat
  obtain ⟨_, final, munmap, released, isFree⟩ := perform_of_succeeds present
    (succeeds_munmap_odd extended.owned (started.sound.root_mem started.present)
      (show plainHeap.Contains 0x44800000 by decide) started.nonzero present
      (sameProcesses ▸ started.found) areas mapped)
  have reached := run_perform (run_perform (run_perform spawned shmget) shmat)
    munmap
  exact ⟨pmm, final, booted, reached, released, isFree, by decide⟩

end Cyllor.Mm
