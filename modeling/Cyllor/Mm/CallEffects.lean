import Cyllor.Mm.Sound

/-!
Contract: what the memory calls of one thread do to the memory state.

Owns: one lemma for each call. It says that the call keeps `Sound`, which pages it can map
and how it moves the pointers of its process; under the condition that the call meets
no page of the kernel heap outside an area of shared memory.
-/

namespace Cyllor.Mm

open Cyllor.Arch LinkForest ChangesThread
open Call hiding pure bind

variable {state : State} {pid root : Nat} {process : Process}

theorem roundUp_aligned (value : Nat) : roundUp value % PAGE_SIZE = 0 := Nat.mul_mod_right _ _

theorem le_roundUp (value : Nat) : value ≤ roundUp value := by
  simp only [roundUp, PAGE_SIZE]
  omega

theorem roundUp_mono {value other : Nat} (le : value ≤ other) : roundUp value ≤ roundUp other := by
  simp only [roundUp, PAGE_SIZE]
  omega

theorem mul_roundUp_div (value : Nat) : PAGE_SIZE * (roundUp value / PAGE_SIZE) = roundUp value :=
  Nat.mul_div_cancel' (Nat.dvd_of_mod_eq_zero (roundUp_aligned value))

theorem roundUp_of_aligned {value : Nat} (aligned : value % PAGE_SIZE = 0) :
    roundUp value = value := by
  simp only [roundUp, PAGE_SIZE] at *
  omega

/-! ### Unmapping -/

theorem State.detachMappingsInRange_eq (state : State) (pid addr len : Nat) :
    ∃ segs attach, state.detachMappingsInRange pid addr len =
        { state with shmSegs := segs, shmAttach := attach } ∧
      ∀ heap, Buffers heap state.shmSegs → Buffers heap segs := by
  unfold State.detachMappingsInRange
  dsimp only
  split
  · exact ⟨state.shmSegs, state.shmAttach, rfl, fun _ => id⟩
  · exact ⟨_, _, rfl, fun _ buffers => (buffers.detachAll _).keepAttached⟩

/-- Which frames `do_munmap` gives back: those of pages that are not shared memory. -/
def State.givesBack (state : State) (pid addr index : Nat) : Bool :=
  !state.isShmPage pid (addr + PAGE_SIZE * index)

section Calls

variable (sound : Sound state) (present : state.roots pid = some root)
  (found : state.processes pid = some process)

include sound present found

theorem Sound.effect_ram {ram : Ram} {segs : BTreeMap Int ShmSegment} {nextShmid : Int}
    {faults : Nat} {pages mapped : Set Page} (owned : Owned state.heap.frames state.rootSet ram)
    (refreshed : Refreshed state.heap.frames state.rootSet pages state.ram ram)
    (inRoot : pages ⊆ { page | page.1 = root }) (segments : Buffers state.heap segs)
    (isMapped : ∀ page, PageOf state.rootSet page → (frameAt ram page).isSome →
      (frameAt state.ram page).isSome ∨ page ∈ mapped) :
    Effect state pid process mapped { state with
      ram := ram, shmSegs := segs, nextShmid := nextShmid, pageFaults := faults } :=
  effect_of_refreshed ⟨rfl, rfl, rfl, rfl, rfl, (sound.effect_refl found ∅).processes,
    rfl, by rw [Function.update_eq_self], rfl⟩ sound present found owned (sound.areas _) inRoot
    segments isMapped refreshed fun _ _ _ _ _ _ => rfl

/-- A page of the kernel heap lies in an area of shared memory, so it is not given back. -/
theorem Sound.givesBack_outside (nonzero : root ≠ 0) {addr count : Nat}
    (aligned : addr % PAGE_SIZE = 0)
    (inside : addr + PAGE_SIZE * count ≤ 2 ^ 48) {index : Nat} (below : index < count)
    (given : state.givesBack pid addr index) {frame : Nat}
    (mapped : leaf state.ram root (addr + PAGE_SIZE * index) = some frame) :
    frame ∉ state.heap.frames := by
  intro inHeap
  have bound : PAGE_SIZE * index < PAGE_SIZE * count :=
    Nat.mul_lt_mul_of_pos_left below (by decide)
  have isShm := sound.shows pid root process present nonzero found (addr + PAGE_SIZE * index)
    (by omega) (by rw [Nat.add_mul_mod_self_left]; exact aligned) frame mapped inHeap
  rw [State.givesBack, State.isShmPage_eq found, isShm] at given
  cases given

/-- `do_munmap` of a range inside the address space returns, and gives back no frame of the kernel
heap. -/
theorem Sound.ends_doMunmap {addr length : Nat} (inside : addr + roundUp length ≤ 2 ^ 48) :
    ends (doMunmap pid addr length) (fun result after => Effect state pid process ∅ after ∧
      (root ≠ 0 → length ≠ 0 → addr % PAGE_SIZE = 0 → result = .ok 0 ∧
        Vacated state.heap.frames state.rootSet root addr (state.givesBack pid addr)
          (roundUp length / PAGE_SIZE) state.ram after.ram)) state := by
  have unchanged := sound.effect_refl found ∅
  have based := sound.root_mem present
  have wellFormed := sound.areas process.vmm
  have rounded := le_roundUp length
  have length_eq := mul_roundUp_div length
  have bounded : addr + PAGE_SIZE * (roundUp length / PAGE_SIZE) ≤ 2 ^ 48 := by
    rw [length_eq]
    exact inside
  rw [doMunmap]
  split
  case isTrue invalid =>
    refine ends_throw ⟨unchanged, fun _ nonempty aligned => ?_⟩
    exact (invalid.resolve_left nonempty aligned).elim
  case isFalse valid =>
  have aligned : addr % PAGE_SIZE = 0 := by
    by_contra odd
    exact valid (.inr odd)
  refine ends_bind_alignUp (by simp only [PAGE_SIZE, u64Max]; omega) (ends_bind_gets ?_)
  rw [State.rootOf_eq present]
  split
  case isTrue none => exact ends_throw ⟨unchanged, absurd none⟩
  case isFalse nonzero =>
  refine ends_bind_gets (ends_bind_of_succeeds (succeeds_onRam (succeeds_mono
    (sound.owned.succeeds_unmapRange based bounded fun index below given frame mapped =>
      sound.givesBack_outside present found nonzero aligned bounded below given mapped) ?_)))
  intro _ ram vacated
  obtain ⟨vmm, unmapped⟩ : ∃ vmm, (state.vmms process.vmm).unmap addr (roundUp length) =
      some vmm := ⟨_, if_pos (by simp only [u64Max]; omega)⟩
  obtain ⟨stays, -⟩ := wellFormed.attrsAt_unmap unmapped
  refine ends_of_succeeds (succeeds_bind_changeVmm (by exact found) unmapped
    (succeeds_bind_modify (succeeds_pure ?_)))
  obtain ⟨segs, attach, isAfter, keeps⟩ := State.detachMappingsInRange_eq
    ({ state with ram := ram }.setVmm process.vmm vmm) pid addr (roundUp length)
  rw [isAfter]
  refine ⟨effect_of_refreshed ⟨rfl, rfl, rfl, rfl, rfl, unchanged.processes, rfl, rfl,
    rfl⟩ sound present found vacated.owned stays (span_subset_root _ _ _)
    (keeps state.heap sound.segments)
    (fun page member isMapped => .inl (vacated.cleared.mapped member isMapped))
    vacated.cleared.refreshed fun _ => ?_, fun _ _ _ => ⟨rfl, vacated⟩⟩
  intro virt virtAligned frame inHeap mapped
  refine wellFormed.isShm_unmap unmapped ?_
  rintro ⟨lower, upper⟩
  have inSpan : pageAt root virt ∈ Span root addr (roundUp length / PAGE_SIZE) :=
    pageAt_mem_span aligned lower (by rw [length_eq]; exact upper)
  cases ((vacated.cleared _ (pageOf_pageAt based virt)).1 inSpan).symm.trans mapped

theorem Sound.wp_doMunmap {addr length : Nat} (inside : addr + roundUp length ≤ 2 ^ 48) :
    wp (doMunmap pid addr length) (fun _ after => Effect state pid process ∅ after) state :=
  wp_mono (wp_of_ends (sound.ends_doMunmap present found inside)) fun _ _ both => both.1

theorem Sound.wp_doShmdt (shmaddr : Nat) :
    wp (doShmdt pid shmaddr) (fun _ after => Effect state pid process ∅ after) state := by
  have unchanged := sound.effect_refl found ∅
  have based := sound.root_mem present
  have wellFormed := sound.areas process.vmm
  rw [doShmdt, wp_ite]
  refine ⟨fun _ => (wp_throw _).mpr unchanged, fun valid => ?_⟩
  have aligned : shmaddr % PAGE_SIZE = 0 := by
    by_contra odd
    exact valid (.inr odd)
  rw [wp_bind_gets, wp_bind_ofOption]
  refine ⟨fun _ => unchanged, ?_⟩
  rintro ⟨mapAddr, shmid, size⟩ isEntry
  obtain rfl : mapAddr = shmaddr := by simpa using List.find?_some isEntry
  rw [wp_bind_modify, wp_bind_gets, wp_bind_onRam]
  generalize (state.shmAttach pid).eraseP _ = attach
  have rootNow : State.rootOf { state with
      shmAttach := Function.update state.shmAttach pid attach } pid = root :=
        State.rootOf_eq present
  rw [rootNow]
  refine wp_mono (sound.owned.wp_unmapRange based (fun _ _ given => by cases given)) ?_
  rintro _ ram ⟨rfl, owned, cleared⟩
  have foundNow : ({ state with
      ram := ram, shmAttach := Function.update state.shmAttach pid attach } : State).processes
        pid = some process := found
  dsimp only
  rw [wp_bind_changeVmm foundNow]
  intro vmm unmapped
  obtain ⟨stays, -⟩ := wellFormed.attrsAt_unmap unmapped
  rw [wp_bind_modify, wp_pure]
  refine effect_of_refreshed ⟨rfl, rfl, rfl, rfl, rfl, unchanged.processes, rfl, rfl,
    rfl⟩ sound present found owned stays (span_subset_root _ _ _)
    (Buffers.detachAll sound.segments [shmid]).keepAttached
    (fun page member isMapped => .inl (cleared.mapped member isMapped)) cleared.refreshed
    fun nonzero => ?_
  intro virt virtAligned frame inHeap mapped
  refine wellFormed.isShm_unmap unmapped ?_
  rintro ⟨lower, upper⟩
  rw [if_neg nonzero] at cleared
  have inSpan : pageAt root virt ∈ Span root mapAddr ((size + 4095) / 4096) := by
    refine pageAt_mem_span aligned lower ?_
    simp only [PAGE_SIZE]
    omega
  cases ((cleared _ (pageOf_pageAt based virt)).1 inSpan).symm.trans mapped

/-! ### Mapping -/

omit sound present found in
theorem length_fileBytes (file : Option (List UInt8)) (fd offset : Int) (index : Nat) :
    (fileBytes file fd offset index).length ≤ PAGE_SIZE := by
  unfold fileBytes
  split
  · split
    · rw [List.length_take]
      exact Nat.min_le_left _ _
    · exact Nat.zero_le _
  · exact Nat.zero_le _

theorem Sound.wp_fillMapping {mapAddr alignedLen : Nat}
    (aligned : mapAddr % PAGE_SIZE = 0) (whole : alignedLen % PAGE_SIZE = 0)
    (nonempty : 0 < alignedLen) (prot flags : Nat) (fd offset : Int) (file : Option (List UInt8)) :
    wp (fillMapping pid mapAddr alignedLen prot flags fd offset file) (fun result after =>
      Effect state pid process (Span root mapAddr (alignedLen / PAGE_SIZE)) after ∧
        Touched state.rootSet (Span root mapAddr (alignedLen / PAGE_SIZE)) state.ram after.ram ∧
          ∀ value, result = .ok value → value = mapAddr) state := by
  have unchanged := sound.effect_refl found (Span root mapAddr (alignedLen / PAGE_SIZE))
  have based := sound.root_mem present
  have wellFormed := sound.areas process.vmm
  have length_eq : PAGE_SIZE * (alignedLen / PAGE_SIZE) = alignedLen :=
    Nat.mul_div_cancel' (Nat.dvd_of_mod_eq_zero whole)
  rw [fillMapping, wp_bind_gets, State.rootOf_eq present, wp_ite]
  refine ⟨fun _ => (wp_throw _).mpr ⟨unchanged, fun _ _ _ => rfl, nofun⟩, fun nonzero => ?_⟩
  rw [wp_bind_onRam]
  refine wp_mono (sound.owned.wp_mapFresh based mapAddr (protToPageAttr prot)
    (length_fileBytes file fd offset) (alignedLen / PAGE_SIZE)) ?_
  rintro _ ram ⟨owned, refreshed, ⟨rfl, outside⟩ | ⟨rfl, -⟩⟩
  · have foundNow : ({ state with ram := ram } : State).processes pid = some process := found
    dsimp only
    rw [if_neg (by decide), wp_bind_processOf foundNow, wp_bind_word]
    intro _
    rw [wp_bind_changeVmm foundNow]
    rintro vmm ⟨⟩
    have range : mapAddr < mapAddr + alignedLen := by omega
    rw [wp_pure]
    refine ⟨?_, refreshed.touched, fun _ isAddr => (Except.ok.inj isAddr).symm⟩
    refine effect_of_refreshed ⟨rfl, rfl, rfl, rfl, rfl, unchanged.processes, rfl, rfl, rfl⟩
      sound present found owned (wellFormed.map range _ _ _ _) (span_subset_root _ _ _)
      sound.segments (fun page member => refreshed.mapped member) refreshed fun _ => ?_
    intro virt virtAligned frame inHeap mapped
    rw [wellFormed.isShm_map range, if_neg]
    rintro ⟨lower, upper⟩
    have inSpan : pageAt root virt ∈ Span root mapAddr (alignedLen / PAGE_SIZE) :=
      pageAt_mem_span aligned lower (by rw [length_eq]; exact upper)
    exact outside _ inSpan frame mapped inHeap
  · dsimp only
    rw [if_pos (by decide), wp_throw]
    refine ⟨?_, refreshed.touched, nofun⟩
    exact sound.effect_ram present found owned refreshed (span_subset_root _ _ _) sound.segments
      fun page member => refreshed.mapped member

/-- The pointer of a process for new mappings after one of a length. -/
def Process.placed (process : Process) (len : Nat) : Process :=
  { process with mmapNext := min (roundUp process.mmapNext + len) u64Max }

omit sound present in
theorem State.processes_updateProcess {change : Process → Process} :
    (state.updateProcess pid change).processes pid = some (change process) := by
  rw [State.updateProcess, found]
  exact Function.update_self pid _ _

theorem Sound.updateProcess {change : Process → Process}
    {process' : Process} (isChange : change process = process')
    (sameVmm : process'.vmm = process.vmm) (pages : Set Page) :
    Effect state pid process' pages (state.updateProcess pid change) := by
  refine effect_of_refreshed ⟨rfl, rfl, rfl, rfl, rfl, ?_, sameVmm, ?_,
    rfl⟩ sound present found sound.owned (sound.areas _) (Set.empty_subset _) sound.segments
    (fun _ _ => .inl) (Refreshed.refl ∅ state.ram) fun _ _ _ _ _ _ => rfl
  · rw [State.updateProcess, found, ← isChange]
    rfl
  · rw [Function.update_eq_self]
    rfl

theorem Sound.place (len : Nat) (pages : Set Page) :
    Effect state pid (process.placed len) pages (state.updateProcess pid fun process' =>
      { process' with mmapNext := min (roundUp process.mmapNext + len) u64Max }) :=
  sound.updateProcess present found (by rfl) (by rfl) pages

/-- What `do_mmap` does: a fixed mapping is put at its address, another one at the
pointer of the process, which moves. -/
theorem Sound.wp_doMmap (addr length prot flags : Nat)
    (fd offset : Int) (file : Option (List UInt8))
    (inside : flags &&& MAP_FIXED ≠ 0 → addr + roundUp length ≤ 2 ^ 48) :
    wp (doMmap pid addr length prot flags fd offset file) (fun result after =>
      if flags &&& MAP_FIXED ≠ 0 then
        Effect state pid process ∅ after ∨ (addr % PAGE_SIZE = 0 ∧
          Effect state pid process (Span root addr (roundUp length / PAGE_SIZE)) after)
      else
        (Effect state pid process ∅ after ∧ after.ram = state.ram ∧
          ∃ error, result = .error error) ∨
        (Effect state pid (process.placed (roundUp length))
            (Span root (roundUp process.mmapNext) (roundUp length / PAGE_SIZE)) after ∧
          Touched state.rootSet (Span root (roundUp process.mmapNext) (roundUp length / PAGE_SIZE))
            state.ram after.ram ∧
          ∀ value, result = .ok value → value = roundUp process.mmapNext)) state := by
  rw [doMmap, wp_bind_alignUp]
  intro _
  rw [wp_ite]
  constructor
  · intro _
    rw [wp_throw]
    split
    · exact .inl (sound.effect_refl found ∅)
    · exact .inl ⟨sound.effect_refl found ∅, rfl, _, rfl⟩
  · intro accepted
    have nonempty : 0 < roundUp length := by
      by_contra empty
      exact accepted (by simp [mmapRejects, Nat.eq_zero_of_not_pos empty])
    rw [wp_bind, mmapPlace, wp_bind_processOf found]
    by_cases fixed : flags &&& MAP_FIXED ≠ 0
    · simp only [if_pos fixed]
      rw [wp_ite]
      refine ⟨fun _ => (wp_throw _).mpr (.inl (sound.effect_refl found ∅)),
        fun valid => ?_⟩
      have aligned : addr % PAGE_SIZE = 0 := by
        by_contra odd
        exact valid (.inr odd)
      rw [wp_pure]
      dsimp only
      rw [wp_bind, clearFixed, if_pos fixed, wp_bind, wp_attempt]
      have clears : wp (doMunmap pid addr (roundUp length)) _ state :=
        sound.wp_doMunmap present found
          (by rw [roundUp_of_aligned (roundUp_aligned length)]; exact inside fixed)
      refine wp_mono clears ?_
      intro _ middle effect
      rw [wp_pure]
      have presentNow : middle.roots pid = some root := by rw [effect.roots]; exact present
      refine wp_mono (effect.sound.wp_fillMapping presentNow effect.found aligned
        (roundUp_aligned length) nonempty prot flags fd offset file) ?_
      rintro _ after ⟨filled, -⟩
      exact .inr ⟨aligned, (effect.mono (Set.empty_subset _)).trans filled⟩
    · simp only [if_neg fixed]
      rw [wp_bind_alignUp]
      intro _
      rw [wp_bind_modify, wp_pure]
      dsimp only
      rw [wp_bind, clearFixed, if_neg fixed, wp_pure]
      have moved := sound.place present found (roundUp length)
        (Span root (roundUp process.mmapNext) (roundUp length / PAGE_SIZE))
      refine wp_mono (moved.sound.wp_fillMapping present moved.found
        (roundUp_aligned process.mmapNext) (roundUp_aligned length) nonempty prot flags fd offset
        file) ?_
      rintro _ after ⟨filled, touched, isAddr⟩
      exact .inr ⟨moved.trans filled, touched, isAddr⟩

/-! ### Shared memory -/

theorem Sound.wp_attachAt {shmid : Int} {seg : ShmSegment}
    (inHeap : seg.Inside state.heap) {mapAddr : Nat} (aligned : mapAddr % PAGE_SIZE = 0)
    (inside : mapAddr + seg.size ≤ 2 ^ 48) (shmflg : Nat) :
    wp (attachAt pid shmid seg mapAddr shmflg) (fun _ after =>
      Effect state pid process (Span root mapAddr ((seg.size + 4095) / 4096)) after) state := by
  have based := sound.root_mem present
  have wellFormed := sound.areas process.vmm
  obtain ⟨nonempty, lower, upper⟩ := inHeap
  have bounded := state.heap.bounded
  have heapAligned := state.heap.aligned
  rw [attachAt, wp_bind_gets, State.rootOf_eq present]
  dsimp only
  rw [wp_bind_onRam]
  refine wp_mono (sound.owned.wp_mapBuffer based _ ?_) ?_
  · intro index below
    have modded : (seg.data + PAGE_SIZE * index) % 2 ^ 48 = seg.data + PAGE_SIZE * index := by
      simp only [PAGE_SIZE, KERNEL_HEAP_SIZE] at *
      omega
    rw [modded]
    simp only [KernelHeap.frames, KernelHeap.Contains, Set.mem_ofPred_eq, PAGE_SIZE] at *
    omega
  · rintro _ ram ⟨rfl, extended, touched⟩
    dsimp only
    rw [wp_bind_modify, wp_bind_word]
    intro _
    refine (wp_bind_changeVmm (by exact found) _ _).mpr ?_
    rintro vmm ⟨⟩
    have range : mapAddr < mapAddr + seg.size := by omega
    rw [wp_pure]
    refine effect ⟨rfl, rfl, rfl, rfl, rfl, (sound.effect_refl found ∅).processes,
      rfl, rfl, rfl⟩ sound present found extended.owned (wellFormed.map range _ _ _ _)
      (span_subset_root _ _ _) (Buffers.modify sound.segments shmid fun _ => ⟨rfl, rfl⟩) ?_ touched
      (fun nonzero => ?_)
    · intro page member isMapped
      by_cases inSpan : page ∈ Span root mapAddr ((seg.size + 4095) / 4096)
      · exact .inr inSpan
      · exact .inl ((touched page member inSpan) ▸ isMapped)
    · intro virt below virtAligned frame mapped isHeap
      rw [wellFormed.isShm_map range]
      split
      · rfl
      · rename_i outside
        have notSpan : pageAt root virt ∉ Span root mapAddr ((seg.size + 4095) / 4096) := by
          rintro ⟨index, indexBound, isPage⟩
          refine outside ?_
          have samePath := (pagePath_eq_iff _ _).mp (congrArg Prod.snd isPage)
          simp only [PAGE_SIZE] at *
          omega
        have before := (touched _ (pageOf_pageAt based virt) notSpan).symm.trans mapped
        exact sound.shows pid root process present nonzero found virt below virtAligned frame before
          isHeap

/-- What `do_shmat` does: the segment is mapped at the given address, or at the pointer
of the process, which moves. -/
theorem Sound.wp_doShmat (shmid : Int) (shmaddr shmflg : Nat)
    (inside : ∀ seg : ShmSegment, state.shmSegs[shmid]? = some seg →
      if shmaddr ≠ 0 then shmaddr % PAGE_SIZE = 0 ∧ shmaddr + seg.size ≤ 2 ^ 48
      else roundUp process.mmapNext + seg.size ≤ 2 ^ 48) :
    wp (doShmat pid shmid shmaddr shmflg) (fun _ after =>
      Effect state pid process ∅ after ∨ ∃ seg : ShmSegment, state.shmSegs[shmid]? = some seg ∧
        if shmaddr ≠ 0 then
          Effect state pid process (Span root shmaddr ((seg.size + 4095) / 4096)) after
        else
          Effect state pid (process.placed (roundUp (max seg.size PAGE_SIZE)))
            (Span root (roundUp process.mmapNext) ((seg.size + 4095) / 4096)) after) state := by
  rw [doShmat, wp_bind_gets, wp_bind_ofOption]
  refine ⟨fun _ => .inl (sound.effect_refl found ∅), fun seg listed => ?_⟩
  have isSeg := (Option.filter_eq_some_iff.mp listed).1
  have inHeap := sound.segments shmid seg isSeg
  have fits := inside seg isSeg
  rw [wp_bind, shmPlace]
  by_cases given : shmaddr ≠ 0
  · rw [if_pos given] at fits
    rw [if_pos given, wp_pure]
    refine wp_mono (sound.wp_attachAt present found inHeap fits.1 fits.2 shmflg) ?_
    intro _ after attached
    exact .inr ⟨seg, isSeg, by rwa [if_pos given]⟩
  · rw [if_neg given] at fits
    rw [if_neg given, shmAllocAddr, wp_bind_gets, found]
    dsimp only
    rw [wp_bind_alignUp]
    intro _
    rw [wp_bind_alignUp]
    intro _
    rw [wp_bind_modify, wp_pure]
    have moved := sound.place present found (roundUp (max seg.size PAGE_SIZE))
      (Span root (roundUp process.mmapNext) ((seg.size + 4095) / 4096))
    refine wp_mono (moved.sound.wp_attachAt present moved.found inHeap
      (roundUp_aligned process.mmapNext) fits shmflg) ?_
    intro _ after attached
    exact .inr ⟨seg, isSeg, by rw [if_neg given]; exact moved.trans attached⟩

/-! ### Protection -/

/-- The pages of the range were mapped, they are mapped again with the attributes, and the
areas have the protection. -/
structure Remade (roots : Set Nat) (place : Place) (state : State) (root id addr length prot : Nat)
    (after : State) : Prop where
  nonempty : length ≠ 0
  aligned : addr % PAGE_SIZE = 0
  mapped : ∀ index < roundUp length / PAGE_SIZE,
    (leaf state.ram root (addr + PAGE_SIZE * index)).isSome
  changes : ∃ ram vmm, MappedAgain roots place root (protToPageAttr prot)
      (mappings state.ram root addr (roundUp length / PAGE_SIZE)) state.ram ram ∧
    (state.vmms id).mprotect addr (roundUp length) prot = some vmm ∧
    after = ({ state with ram := ram } : State).setVmm id vmm

omit sound in
/-- `do_mprotect` fails and leaves everything as it is, or it changes the whole range; it panics
at most for a range beyond the end of the address space. -/
theorem endsOr_doMprotect {roots : Set Nat} {place : Place} (tables : Tables state.ram roots place)
    (based : root ∈ roots) (addr length prot : Nat) :
    endsOr (2 ^ 48 < addr + length) (doMprotect pid addr length prot) (fun result after =>
      (∃ error, result = .error error ∧ after = state ∧ (root ≠ 0 → error = .EINVAL)) ∨
        result = .ok 0 ∧ Remade roots place state root process.vmm addr length prot after)
      state := by
  rw [doMprotect]
  split
  · exact .inl (ends_throw (.inl ⟨_, rfl, rfl, fun _ => rfl⟩))
  case isFalse valid =>
  obtain ⟨nonempty, aligned⟩ : length ≠ 0 ∧ addr % PAGE_SIZE = 0 := by
    rw [not_or, not_not] at valid
    exact valid
  split
  · exact .inl (ends_throw (.inl ⟨_, rfl, rfl, fun _ => rfl⟩))
  have rounded : u64Max < addr + roundUp length + PAGE_SIZE → 2 ^ 48 < addr + length := by
    simp only [roundUp, PAGE_SIZE, u64Max] at *
    omega
  have fits := le_roundUp length
  refine endsOr_bind_alignUp (fun large => rounded (by omega))
    (endsOr_bind_gets ?_)
  rw [State.rootOf_eq present]
  split
  case isTrue none => exact .inl (ends_throw (.inl ⟨_, rfl, rfl, absurd none⟩))
  refine endsOr_bind (endsOr_zoom (endsOr_mono (endsOr_framesOf _ _ _ _) ?_ ?_))
  · rw [mul_roundUp_div]
    exact fun large => rounded (by omega)
  rintro _ _ ⟨rfl, ⟨rfl, mapped⟩ | ⟨rfl, -⟩⟩
  · refine endsOr_bind (.inl (ends_of_succeeds (succeeds_onRam (succeeds_mono (succeeds_remap tables
      based (protToPageAttr prot) fun _ => leaf_of_mappings mapped) ?_))))
    intro _ ram remapped
    refine endsOr_bind_changeVmm (by exact found) (fun none => ?_) fun vmm changed =>
      .inl (ends_pure (.inr ⟨rfl, nonempty, aligned, mapped, ram, vmm, remapped, changed, rfl⟩))
    by_contra small
    cases none.symm.trans (if_pos (by omega))
  · exact .inl ⟨_, rfl, rfl, fun _ => rfl⟩

theorem Sound.wp_doMprotect (addr length prot : Nat) :
    wp (doMprotect pid addr length prot) (fun _ after => Effect state pid process ∅ after)
      state := by
  obtain ⟨place, tables, minimal⟩ := sound.owned.places
  refine wp_mono (wp_of_endsOr (endsOr_doMprotect present found tables (sound.root_mem present)
    addr length prot)) ?_
  rintro _ after (⟨_, rfl, rfl, -⟩ | ⟨rfl, nonempty, -, -, ram, vmm, remapped, changed, rfl⟩)
  · exact sound.effect_refl found ∅
  · have positive : 0 < roundUp length := (Nat.pos_of_ne_zero nonempty).trans_le (le_roundUp length)
    have wellFormed := sound.areas process.vmm
    have refreshed : Refreshed state.heap.frames state.rootSet ∅ state.ram ram :=
      Refreshed.of_sameLeaves remapped.same ∅
    obtain ⟨owned, -⟩ := sound.owned.of_grown remapped.grown minimal remapped.tables
      (remapped.pmm ▸ sound.owned.counted) (root, []) fun page member frame mapped =>
        .inl ⟨member, (frameAt_of_sameLeaves remapped.same member).symm.trans mapped⟩
    exact effect_of_refreshed ⟨rfl, rfl, rfl, rfl, rfl,
      (sound.effect_refl found ∅).processes, rfl, rfl, rfl⟩ sound present found owned
      (wellFormed.attrsAt_mprotect positive changed).1 (Set.empty_subset _) sound.segments
      (fun page member => refreshed.mapped member) refreshed
      fun _ virt _ _ _ _ => wellFormed.isShm_mprotect positive changed virt

/-! ### The break -/

omit sound present found in
theorem isShm_clearHeapVma {vmm after : Vmm VmaName} (wellFormed : vmm.WellFormed)
    {brkBase oldHeapEnd : Nat} (changed : clearHeapVma brkBase oldHeapEnd vmm = some after) :
    after.WellFormed ∧ ∀ virt, ¬ (brkBase ≤ virt ∧ virt < oldHeapEnd) →
      after.IsShm virt = vmm.IsShm virt := by
  unfold clearHeapVma at changed
  split at changed
  · refine ⟨(wellFormed.attrsAt_unmap changed).1, fun virt outside => ?_⟩
    exact wellFormed.isShm_unmap changed (by omega)
  · obtain rfl := Option.some.inj changed
    exact ⟨wellFormed, fun _ _ => rfl⟩

omit sound present found in
theorem isShm_heapVma {vmm after : Vmm VmaName} (wellFormed : vmm.WellFormed)
    {brkBase oldHeapEnd newHeapEnd : Nat}
    (changed : heapVma brkBase oldHeapEnd newHeapEnd vmm = some after) :
    after.WellFormed ∧ ∀ virt, ¬ (brkBase ≤ virt ∧ virt < max oldHeapEnd newHeapEnd) →
      after.IsShm virt = vmm.IsShm virt := by
  obtain ⟨cleared, isCleared, rfl⟩ := Option.map_eq_some_iff.mp changed
  obtain ⟨stays, same⟩ := isShm_clearHeapVma wellFormed isCleared
  split
  · rename_i range
    refine ⟨stays.map range _ _ _ _, fun virt outside => ?_⟩
    rw [stays.isShm_map range, if_neg (by omega)]
    exact same virt (by omega)
  · exact ⟨stays, fun virt outside => same virt (by omega)⟩

structure HeapMoved (heap roots : Set Nat) (base old new : Nat) (ram : Ram) (moved : Bool)
    (ram' : Ram) : Prop where
  owned : Owned heap roots ram'
  refreshed : Refreshed heap roots { page | page.1 = base } ram ram'
  touched : old ≤ new → Touched roots (Span base old ((new - old) / PAGE_SIZE)) ram ram'
  failed : moved = false → ∀ page, PageOf roots page → (frameAt ram' page).isSome →
    (frameAt ram page).isSome
  mapped : ∀ page, PageOf roots page → (frameAt ram' page).isSome →
    (frameAt ram page).isSome ∨ page ∈ Span base old ((new - old) / PAGE_SIZE)
  outside : moved = true → ∀ page ∈ Span base old ((new - old) / PAGE_SIZE), ∀ frame,
    frameAt ram' page = some frame → frame ∉ heap
  cleared : moved = true → ∀ page ∈ Span base new ((old - new) / PAGE_SIZE),
    frameAt ram' page = none

omit sound present found in
theorem span_zero (base addr : Nat) : Span base addr 0 = ∅ := by
  ext page
  simp [Span]

omit sound present found in
theorem Owned.wp_moveHeapEnd {heap roots : Set Nat} {ram : Ram} {base old new : Nat}
    (owned : Owned heap roots ram) (based : base ∈ roots)
    (noHeap : ∀ virt, new ≤ virt → virt < old → ∀ frame, leaf ram base virt = some frame →
      frame ∉ heap) :
    wp (moveHeapEnd base old new) (fun result ram' => ∃ moved, result = .ok moved ∧
      HeapMoved heap roots base old new ram moved ram') ram := by
  rw [moveHeapEnd, wp_ite]
  constructor
  · intro grows
    have noShrink : (old - new) / PAGE_SIZE = 0 := by rw [Nat.sub_eq_zero_of_le grows.le]; rfl
    refine wp_mono (owned.wp_mapFresh based old .USER_RW (fun _ => Nat.zero_le _)
      ((new - old) / PAGE_SIZE)) ?_
    rintro _ ram' ⟨kept, refreshed, outcome⟩
    have inRoot := refreshed.mono (span_subset_root base old ((new - old) / PAGE_SIZE))
    rcases outcome with ⟨rfl, outside⟩ | ⟨rfl, back⟩
    · refine ⟨true, rfl, kept, inRoot, fun _ => refreshed.touched, nofun, fun page member =>
        refreshed.mapped member,
        fun _ => outside, fun _ page inside => ?_⟩
      rw [noShrink, span_zero] at inside
      exact absurd inside (Set.notMem_empty page)
    · refine ⟨false, rfl, kept, inRoot, fun _ => refreshed.touched, fun _ page member isMapped =>
        ?_,
        fun page member => refreshed.mapped member, nofun, nofun⟩
      rcases back page member with same | gone
      · exact same ▸ isMapped
      · rw [gone] at isMapped
        cases isMapped
  · intro shrinks
    have noGrowth : (new - old) / PAGE_SIZE = 0 := by
      rw [Nat.sub_eq_zero_of_le (Nat.le_of_not_lt shrinks)]
      rfl
    rw [wp_bind]
    refine wp_mono (owned.wp_unmapRange based ?_) ?_
    · intro index below _ frame mapped
      refine noHeap _ (Nat.le_add_right _ _) ?_ frame mapped
      simp only [PAGE_SIZE] at *
      omega
    · rintro _ ram' ⟨rfl, kept, cleared⟩
      refine (wp_pure _).mpr ⟨true, rfl, kept,
        cleared.refreshed.mono (span_subset_root base new _), fun grows page member _ => ?_, nofun,
        fun page member isMapped => .inl (cleared.mapped member isMapped), fun _ page inside => ?_,
        fun _ page inside => ?_⟩
      · refine (cleared page member).2 fun inside => ?_
        rw [Nat.sub_eq_zero_of_le grows, Nat.zero_div, span_zero] at inside
        exact absurd inside (Set.notMem_empty page)
      · rw [noGrowth, span_zero] at inside
        exact absurd inside (Set.notMem_empty page)
      · have member : PageOf roots page := by
          obtain ⟨index, -, rfl⟩ := inside
          exact pageOf_pageAt based _
        exact (cleared page member).1 inside

/-- The frames of the heap of a process are not those of the kernel. -/
def HeapPrivate (state : State) (root : Nat) (process : Process) : Prop :=
  ∀ virt, process.brkBase ≤ virt → virt < roundUp process.brkCurrent →
    ∀ frame, leaf state.ram root virt = some frame → frame ∉ state.heap.frames

/-- What `do_brk` does if no page of the heap is mapped to the kernel heap: the break stays
and nothing is mapped, or it moves, and the pages between are mapped or unmapped. -/
theorem Sound.wp_doBrk (addr : Nat)
    (noHeap : addr ≠ 0 → process.brkBase ≤ addr → addr ≠ process.brkCurrent →
      HeapPrivate state root process) :
    wp (doBrk pid addr) (fun result after =>
      (process.brkCurrent ≤ addr → Touched state.rootSet (Span root (roundUp process.brkCurrent)
        ((roundUp addr - roundUp process.brkCurrent) / PAGE_SIZE)) state.ram after.ram) ∧
      ((result = .ok process.brkCurrent ∧ Effect state pid process ∅ after) ∨
        (process.brkBase ≤ addr ∧ result = .ok addr ∧
          Effect state pid { process with brkCurrent := addr }
            (Span root (roundUp process.brkCurrent)
              ((roundUp addr - roundUp process.brkCurrent) / PAGE_SIZE)) after ∧
          ∀ page ∈ Span root (roundUp addr) ((roundUp process.brkCurrent - roundUp addr) /
            PAGE_SIZE),
            frameAt after.ram page = none))) state := by
  have unchanged := sound.effect_refl found ∅
  have based := sound.root_mem present
  have wellFormed := sound.areas process.vmm
  rw [doBrk, wp_bind_processOf found, wp_bind_gets, State.rootOf_eq present, wp_ite]
  refine ⟨fun _ => (wp_pure _).mpr ⟨fun _ _ _ _ => rfl, .inl ⟨rfl, unchanged⟩⟩,
    fun moves => ?_⟩
  simp only [not_or] at moves
  obtain ⟨given, above, other, nonzero⟩ := moves
  have isPrivate := noHeap given (Nat.le_of_not_lt above) other
  rw [wp_bind_alignUp]
  intro _
  rw [wp_bind_alignUp]
  intro _
  rw [wp_bind_onRam]
  have baseLe : process.brkBase ≤ roundUp addr :=
    (Nat.le_of_not_lt above).trans (le_roundUp addr)
  refine wp_mono (sound.owned.wp_moveHeapEnd based fun virt lower upper frame mapped =>
    isPrivate virt (baseLe.trans lower) upper frame mapped) ?_
  rintro _ ram ⟨moved, rfl, change⟩
  cases moved with
  | false =>
    dsimp only
    rw [if_pos (by decide), wp_pure]
    refine ⟨fun grows => change.touched (roundUp_mono grows), .inl ⟨rfl, ?_⟩⟩
    refine sound.effect_ram present found change.owned change.refreshed subset_rfl sound.segments ?_
    exact fun page member isMapped => .inl (change.failed rfl page member isMapped)
  | true =>
    dsimp only
    rw [if_neg (by decide), wp_bind_modify]
    have isMoved := congrArg (Option.map fun process' : Process =>
      { process' with brkCurrent := addr }) found
    refine (wp_bind_changeVmm (State.processes_updateProcess (by exact found)) _ _).mpr ?_
    intro vmm changed
    obtain ⟨stays, same⟩ := isShm_heapVma wellFormed changed
    rw [wp_pure]
    have sameVmm : ({ process with brkCurrent := addr } : Process).vmm = process.vmm := rfl
    refine ⟨fun grows => change.touched (roundUp_mono grows), ?_⟩
    refine .inr ⟨Nat.le_of_not_lt above, rfl, effect_of_refreshed ⟨rfl, rfl, rfl, rfl,
      rfl, congrArg (Function.update state.processes pid) isMoved, sameVmm, rfl, rfl⟩ sound present
      found change.owned stays subset_rfl sound.segments change.mapped change.refreshed fun _ => ?_,
      change.cleared rfl⟩
    intro virt virtAligned frame inHeap mapped
    refine same virt ?_
    rintro ⟨lower, upper⟩
    by_cases inOld : virt < roundUp process.brkCurrent
    · exact isPrivate virt lower inOld frame
        (change.refreshed.leaf_of_heap based inHeap mapped) inHeap
    · refine change.outside rfl (pageAt root virt) (pageAt_mem_span (roundUp_aligned _)
        (Nat.le_of_not_lt inOld) ?_) frame mapped inHeap
      have newAligned := roundUp_aligned addr
      have oldAligned := roundUp_aligned process.brkCurrent
      simp only [PAGE_SIZE] at *
      omega

/-! ### Segments -/

theorem Sound.effect_segments {segs : BTreeMap Int ShmSegment}
    (buffers : Buffers state.heap segs) (nextShmid : Int) :
    Effect state pid process ∅ { state with shmSegs := segs, nextShmid := nextShmid } :=
  sound.effect_ram present found sound.owned (Refreshed.refl ∅ state.ram) (Set.empty_subset _)
    buffers fun _ _ => .inl

theorem Sound.wp_doShmget (key : Int) (size shmflg buffer : Nat) :
    wp (doShmget key size shmflg buffer) (fun _ after => Effect state pid process ∅ after)
      state := by
  have unchanged := sound.effect_refl found ∅
  rw [doShmget, wp_ite]
  refine ⟨fun _ => (wp_throw _).mpr unchanged, fun nonempty => ?_⟩
  rw [wp_bind_gets]
  split
  · rw [wp_ite]
    exact ⟨fun _ => (wp_throw _).mpr unchanged, fun _ => (wp_pure _).mpr unchanged⟩
  · rw [wp_ite]
    refine ⟨fun _ => ?_, fun _ => (wp_throw _).mpr unchanged⟩
    rw [newSegment, wp_bind_gets, wp_ite]
    refine ⟨fun fits => ?_, fun _ => wp_hang⟩
    rw [wp_bind_gets, wp_bind_modify, wp_pure]
    refine sound.effect_segments present found ?_ _
    intro id seg listed
    rw [Std.ExtTreeMap.getElem?_insert] at listed
    split at listed
    · obtain rfl := Option.some.inj listed
      exact ⟨Nat.pos_of_ne_zero nonempty, fits⟩
    · exact sound.segments id seg listed

theorem Sound.wp_doShmctlRmid (shmid : Int) :
    wp (doShmctlRmid shmid) (fun _ after => Effect state pid process ∅ after) state := by
  rw [doShmctlRmid, wp_bind_gets, wp_bind_ofOption]
  refine ⟨fun _ => sound.effect_refl found ∅, fun seg _ => ?_⟩
  rw [wp_bind_modify, wp_pure]
  refine sound.effect_segments present found
    (Buffers.keepAttached (Buffers.modify sound.segments shmid ?_)) state.nextShmid
  exact fun _ => ⟨rfl, rfl⟩

/-! ### User code -/

omit sound present found in
theorem Owned.wp_mapZeroPage {ε : Type} {heap roots : Set Nat} {ram : Ram} {base : Nat}
    (owned : Owned heap roots ram) (based : base ∈ roots) (virt : Nat) :
    wp (mapZeroPage base virt : RamCall ε Bool) (fun _ ram' => Owned heap roots ram' ∧
      Refreshed heap roots {pageAt base virt} ram ram') ram := by
  rw [mapZeroPage, wp_bind]
  refine owned.wp_allocPage ((wp_pure _).mpr ⟨owned, Refreshed.refl _ ram⟩) ?_
  intro frame _ taken
  obtain ⟨zeroed, same, loose⟩ := taken.zeroed
  dsimp only
  rw [zeroFrame, wp_bind_modify, wp_bind]
  refine wp_mono (wp_of_succeeds (zeroed.owned.succeeds_mapUserPage based loose.inUse.frame_eq
    (loose.fits _) .USER_RW)) ?_
  rintro _ after ⟨_, rfl, inner, isMapped⟩
  rw [wp_pure]
  exact ⟨isMapped.extended.owned, (Refreshed.of_sameLeaves same _).trans
    (isMapped.refreshed based loose.inUse.outside)⟩

theorem Sound.effect_zeroPage (virt faults : Nat) :
    wp (onRam (mapZeroPage root virt)) (fun _ after =>
      Effect state pid process {pageAt root virt} after) { state with pageFaults := faults } := by
  rw [onRam, wp_zoom]
  refine wp_mono (sound.owned.wp_mapZeroPage (sound.root_mem present) virt) ?_
  rintro _ ram ⟨owned, refreshed⟩
  refine sound.effect_ram present found owned refreshed ?_ sound.segments
    fun page member => refreshed.mapped member
  rintro page ⟨⟩
  rfl

theorem Sound.wp_handlePageFault (far : Nat) :
    wp (handlePageFault pid far) (fun _ after =>
      Effect state pid process {pageAt root (PAGE_SIZE * (far / PAGE_SIZE))} after) state := by
  rw [handlePageFault, wp_ite]
  refine ⟨fun _ => (wp_pure _).mpr (sound.effect_refl found _), fun _ => ?_⟩
  rw [wp_bind_gets, wp_bind_modify, wp_ite]
  constructor
  · intro _
    rw [wp_pure]
    exact sound.effect_ram present found sound.owned (Refreshed.refl ∅ state.ram)
      (Set.empty_subset _) sound.segments fun _ _ => .inl
  · intro _
    rw [wp_bind_gets]
    have rootNow : State.rootOf { state with pageFaults := (state.pageFaults + 1) % 2 ^ 32 } pid =
        root := State.rootOf_eq present
    rw [rootNow]
    exact sound.effect_zeroPage present found _ _

theorem Sound.wp_demandPage (virt : Nat) :
    wp (demandPage pid virt) (fun _ after =>
      Effect state pid process {pageAt root (PAGE_SIZE * (virt / PAGE_SIZE))} after) state := by
  rw [demandPage, wp_bind_gets, State.rootOf_eq present, wp_bind_gets, wp_ite]
  exact ⟨fun _ => (wp_pure _).mpr (sound.effect_refl found _), fun _ =>
    sound.effect_zeroPage present found _ state.pageFaults⟩

theorem Sound.wp_storeBytes (virt : Nat) (bytes : List UInt8) :
    wp (storeBytes pid virt bytes) (fun _ after => Effect state pid process ∅ after)
      state := by
  rw [storeBytes, wp_bind_gets, State.rootOf_eq present, wp_bind_onRam, wp_attempt]
  refine wp_mono (sound.owned.wp_copyOut (sound.root_mem present) bytes.length virt bytes) ?_
  rintro result ram ⟨extended, same⟩
  have refreshed : Refreshed state.heap.frames state.rootSet ∅ state.ram ram :=
    Refreshed.of_sameLeaves same ∅
  have effect : Effect state pid process ∅ { state with ram := ram } :=
    sound.effect_ram present found extended.owned refreshed (Set.empty_subset _) sound.segments
      fun page member => refreshed.mapped member
  cases result with
  | error _ => exact (wp_pure _).mpr effect
  | ok _ => exact (wp_pure _).mpr effect

end Calls

end Cyllor.Mm
