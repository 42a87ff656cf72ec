import Cyllor.Mm.CallEffects

/-!
Contract: what the calls that make address spaces and threads do to the memory state.

Owns: `Prepared`, a new address space that no thread runs in yet; loading an image into it;
and the threads that `spawn_user_process`, `do_execve` and `do_clone` let run in an
address space.
-/

namespace Cyllor.Mm

open Cyllor.Arch LinkForest
open Call hiding pure bind
open Function (update update_self update_of_ne)

variable {state middle after : State} {pid root : Nat} {process : Process}

structure Grows (state after : State) : Prop where
  sound : Sound after
  heap : after.heap = state.heap
  spaces : ∀ root ∈ state.spaces, root ∈ after.spaces
  roots : after.roots = state.roots
  processes : after.processes = state.processes
  same : SameLeaves state.rootSet state.ram after.ram

/-- A new address space in which only pages of the set are mapped, none of them to the
kernel heap. -/
structure Prepared (state : State) (root : Nat) (pages : Set Page) (after : State) : Prop where
  sound : Sound after
  isNew : root ∉ state.spaces
  spaces : after.spaces = root :: state.spaces
  heap : after.heap = state.heap
  roots : after.roots = state.roots
  processes : after.processes = state.processes
  vmms : after.vmms = state.vmms
  nextVmm : after.nextVmm = state.nextVmm
  nextPid : after.nextPid = state.nextPid
  same : SameLeaves state.rootSet state.ram after.ram
  outside : ∀ path : List Index, path.length = 4 → ∀ frame,
    frameAt after.ram (root, path) = some frame → frame ∉ state.heap.frames
  mapped : ∀ path : List Index, path.length = 4 → (frameAt after.ram (root, path)).isSome →
    (root, path) ∈ pages

theorem Grows.refl (sound : Sound state) : Grows state state :=
  ⟨sound, rfl, fun _ => id, rfl, rfl, SameLeaves.refl _ _⟩

theorem Prepared.grows {pages : Set Page} (prepared : Prepared state root pages after) :
    Grows state after where
  sound := prepared.sound
  heap := prepared.heap
  spaces other member := by
    rw [prepared.spaces]
    exact List.mem_cons_of_mem _ member
  roots := prepared.roots
  processes := prepared.processes
  same := prepared.same

/-- The parts of the state that the invariant reads, apart from memory, spaces and the number
of threads. -/
theorem Sound.transfer (sound : Sound state)
    (owned : Owned after.heap.frames after.rootSet after.ram) (heap : after.heap = state.heap)
    (spaces : ∀ root ∈ state.spaces, root ∈ after.spaces) (roots : after.roots = state.roots)
    (processes : after.processes = state.processes) (vmms : after.vmms = state.vmms)
    (nextVmm : after.nextVmm = state.nextVmm) (nextPid : state.nextPid ≤ after.nextPid)
    (segs : after.shmSegs = state.shmSegs)
    (same : ∀ pid root, state.roots pid = some root → ∀ virt,
      leaf after.ram root virt = leaf state.ram root virt) : Sound after := by
  refine ⟨owned, ?_, ?_, ?_, ?_, ?_, ?_, ?_⟩
  · rw [roots, processes]
    exact fun pid root present => ⟨spaces root (sound.threads pid root present).1,
      (sound.threads pid root present).2⟩
  · rw [roots]
    exact fun pid late => sound.unborn pid (nextPid.trans late)
  · rw [vmms]
    exact sound.areas
  · rw [processes, nextVmm]
    exact sound.ids
  · rw [roots, processes]
    exact sound.together
  · rw [segs, heap]
    exact sound.segments
  · rw [roots, processes, vmms, heap]
    intro pid root process present nonzero found virt below aligned frame mapped inHeap
    rw [same pid root present] at mapped
    exact sound.shows pid root process present nonzero found virt below aligned frame mapped inHeap

theorem rootSet_cons {root : Nat} (spaces : after.spaces = root :: state.spaces) :
    after.rootSet = insert root state.rootSet := by
  ext other
  simp [State.rootSet, spaces]

theorem Sound.wp_createUserPageTable (sound : Sound state) :
    wp createUserPageTable (fun result after =>
      (result = .error .ENOMEM ∧ after = state) ∨
        ∃ root, result = .ok root ∧ Prepared state root ∅ after ∧
          NewSpace state.heap.frames state.rootSet state.ram root after.ram) state := by
  rw [createUserPageTable, wp_bind_onRam]
  refine wp_mono sound.owned.wp_allocTablePage ?_
  rintro _ ram (⟨rfl, rfl⟩ | ⟨root, rfl, new, -⟩)
  · dsimp only
    rw [wp_bind_ofOption]
    exact ⟨fun _ => .inl ⟨rfl, rfl⟩, nofun⟩
  · dsimp only
    rw [wp_bind_ofOption]
    refine ⟨nofun, ?_⟩
    rintro _ ⟨⟩
    rw [wp_bind_modify, wp_pure]
    refine .inr ⟨root, rfl, ?_, new⟩
    have isNew : root ∉ state.spaces := new.isNew
    refine ⟨sound.transfer ?_ rfl (fun other member => List.mem_cons_of_mem _ member) rfl rfl rfl
      rfl
      le_rfl rfl fun other otherRoot present virt => ?_, isNew, rfl, rfl, rfl, rfl, rfl, rfl, rfl,
      new.same, ?_, ?_⟩
    · rw [rootSet_cons rfl]
      exact new.owned
    · exact new.same otherRoot (sound.root_mem present) _ rfl
    · intro path length frame mapped
      rw [new.empty path length] at mapped
      cases mapped
    · intro path length isMapped
      rw [new.empty path length] at isMapped
      cases isMapped

section

variable {pages : Set Page} {ram : Ram} (prepared : Prepared state root pages middle)
  (before : Sound state)

include prepared before

/-- A change inside the new address space leaves the address spaces of the threads alone. -/
theorem Prepared.elsewhere (others : ∀ page, PageOf middle.rootSet page → page.1 ≠ root →
      frameAt ram page = frameAt middle.ram page) :
    SameLeaves state.rootSet state.ram ram ∧
      ∀ other otherRoot, middle.roots other = some otherRoot → ∀ virt,
        leaf ram otherRoot virt = leaf middle.ram otherRoot virt := by
  have old : ∀ other ∈ state.spaces, ∀ path : List Index, path.length = 4 →
      frameAt ram (other, path) = frameAt middle.ram (other, path) := by
    intro other member path length
    refine others (other, path) ⟨prepared.grows.spaces other member, length⟩ ?_
    rintro rfl
    exact prepared.isNew member
  refine ⟨fun other member path length => ?_, fun other otherRoot present virt => ?_⟩
  · exact (old other member path length).trans (prepared.same other member path length)
  · rw [prepared.roots] at present
    exact old otherRoot (before.root_mem present) _ rfl

variable (owned : Owned middle.heap.frames middle.rootSet ram)

include owned

theorem Prepared.refresh {more : Set Page}
    (refreshed : Refreshed middle.heap.frames middle.rootSet more middle.ram ram)
    (inRoot : more ⊆ { page | page.1 = root }) :
    Prepared state root (pages ∪ more) { middle with ram := ram } := by
  obtain ⟨same, leaves⟩ := prepared.elsewhere before fun page member different =>
    refreshed.touched page member fun inside => different (inRoot inside)
  have rootIn : root ∈ middle.rootSet := by
    rw [State.rootSet, prepared.spaces]
    exact List.mem_cons_self
  refine ⟨prepared.sound.transfer owned rfl (fun _ => id) rfl rfl rfl rfl le_rfl rfl leaves,
    prepared.isNew, prepared.spaces, prepared.heap, prepared.roots, prepared.processes,
    prepared.vmms, prepared.nextVmm, prepared.nextPid, same, fun path length frame mapped => ?_,
    fun path length isMapped => ?_⟩
  · rcases refreshed (root, path) ⟨rootIn, length⟩ with same | ⟨-, outside⟩
    · exact prepared.outside path length frame (same.symm.trans mapped)
    · rw [← prepared.heap]
      exact outside frame mapped
  · rcases refreshed.mapped ⟨rootIn, length⟩ isMapped with before | inside
    · exact .inl (prepared.mapped path length before)
    · exact .inr inside

theorem Prepared.grows_elsewhere
    (others : ∀ page, PageOf middle.rootSet page → page.1 ≠ root →
      frameAt ram page = frameAt middle.ram page) :
    Grows state { middle with ram := ram } := by
  obtain ⟨same, leaves⟩ := prepared.elsewhere before others
  exact ⟨prepared.sound.transfer owned rfl (fun _ => id) rfl rfl rfl rfl le_rfl rfl leaves,
    prepared.heap, prepared.grows.spaces, prepared.roots, prepared.processes, same⟩

end

/-! ### Images -/

def Segment.count (segment : Segment) : Nat :=
  (roundUp (segment.vaddr + segment.memsz) - PAGE_SIZE * (segment.vaddr / PAGE_SIZE) +
    PAGE_SIZE - 1) / PAGE_SIZE

def Segment.pages (segment : Segment) (root : Nat) : Set Page :=
  Span root (PAGE_SIZE * (segment.vaddr / PAGE_SIZE)) segment.count

def stackPages (root : Nat) : Set Page :=
  Span root (USER_STACK_TOP - USER_STACK_SIZE) ((USER_STACK_SIZE + PAGE_SIZE - 1) / PAGE_SIZE)

def Image.pages (image : Image) (root : Nat) : Set Page :=
  { page | page ∈ stackPages root ∨
    ∃ segment ∈ image.segments ++ image.interp, page ∈ segment.pages root }

theorem Image.pages_subset (image : Image) (root : Nat) :
    image.pages root ⊆ { page | page.1 = root } := by
  rintro page (inStack | ⟨segment, -, inSegment⟩)
  · exact span_subset_root _ _ _ inStack
  · exact span_subset_root _ _ _ inSegment

section Loader

variable {heap roots : Set Nat} {ram : Ram} {base : Nat}

section

variable (owned : Owned heap roots ram) (based : base ∈ roots)

include owned based

theorem Owned.wp_loadSegment (segment : Segment) :
    wp (loadSegment base segment) (fun _ ram' => Extended heap roots ram ram' ∧
      Refreshed heap roots (segment.pages base) ram ram') ram := by
  rw [loadSegment, wp_bind_word]
  intro _
  rw [wp_bind_alignUp]
  intro _
  rw [wp_bind]
  refine wp_mono (owned.wp_mapAnon based _ _ _) ?_
  rintro (_ | _) mapped ⟨extended, refreshed⟩
  · exact ⟨extended, refreshed⟩
  · refine wp_mono (extended.owned.wp_copyOut based _ _ _) ?_
    rintro _ filled ⟨copied, same⟩
    exact ⟨extended.trans copied, refreshed.trans (.of_sameLeaves same _)⟩

theorem Owned.wp_loadSegments {pages : Set Page} {segments : List Segment}
    (inside : ∀ segment ∈ segments, segment.pages base ⊆ pages) :
    wp (Call.forEach (loadSegment base) segments) (fun _ ram' =>
      Extended heap roots ram ram' ∧ Refreshed heap roots pages ram ram') ram := by
  refine wp_forEach_keeps ⟨owned.refl, Refreshed.refl _ _⟩ ?_
  rintro segment member middle ⟨extended, refreshed⟩
  refine wp_mono (extended.owned.wp_loadSegment based segment) ?_
  rintro _ loaded ⟨more, moreRefreshed⟩
  exact ⟨extended.trans more, refreshed.trans (moreRefreshed.mono (inside segment member))⟩

theorem Owned.wp_loadElf (image : Image) :
    wp (loadElf base image) (fun _ ram' => Extended heap roots ram ram' ∧
      Refreshed heap roots (image.pages base) ram ram') ram := by
  have listed : ∀ segment ∈ image.segments ++ image.interp,
      segment.pages base ⊆ image.pages base :=
    fun segment member page inside => .inr ⟨segment, member, inside⟩
  have stack : stackPages base ⊆ image.pages base := fun page inside => .inl inside
  rw [loadElf, wp_bind]
  refine wp_mono (owned.wp_loadSegments based fun segment member =>
    listed segment (List.mem_append_left _ member)) ?_
  rintro (_ | _) loaded ⟨extended, refreshed⟩
  · exact ⟨extended, refreshed⟩
  dsimp only
  rw [wp_bind]
  refine wp_mono (extended.owned.wp_mapAnon based _ _ _) ?_
  rintro (_ | _) stacked ⟨stackExtended, stackRefreshed⟩
  · exact ⟨extended.trans stackExtended, refreshed.trans (stackRefreshed.mono stack)⟩
  refine wp_mono (stackExtended.owned.wp_loadSegments based fun segment member =>
    listed segment (List.mem_append_right _ member)) ?_
  rintro _ final ⟨interpExtended, interpRefreshed⟩
  exact ⟨(extended.trans stackExtended).trans interpExtended,
    (refreshed.trans (stackRefreshed.mono stack)).trans interpRefreshed⟩

theorem Owned.wp_setupUserStack (image : Image) :
    wp (setupUserStack base image) (fun _ ram' => Extended heap roots ram ram' ∧
      SameLeaves roots ram ram') ram := by
  refine wp_forEach_keeps ⟨owned.refl, SameLeaves.refl _ _⟩ ?_
  rintro write - middle ⟨extended, same⟩
  refine wp_mono (extended.owned.wp_copyOut based _ _ _) ?_
  rintro _ written ⟨copied, sameNow⟩
  exact ⟨extended.trans copied, same.trans sameNow⟩

end

end Loader

theorem wp_bind_orElse {α : Type} {post : Except Errno α → State → Prop} (error : Errno)
    (call : RamCall Unit Unit) (next : Unit → MmCall α) :
    wp (orElse error call >>= next) post state ↔
      wp call (fun result ram =>
        match result with
        | .error _ => post (.error error) { state with ram := ram }
        | .ok _ => wp (next ()) post { state with ram := ram }) state.ram := by
  rw [wp_bind, orElse, wp_bind_onRam, wp_attempt]
  refine forall_congr' fun result => forall_congr' fun ram => imp_congr_right fun _ => ?_
  cases result with
  | error _ => exact wp_throw _
  | ok _ => exact wp_pure _

/-- Load an image: an address space was made, and on success the image is all it maps. -/
theorem Sound.wp_loadImage (sound : Sound state) (badImage : Errno) (image : Image) :
    wp (loadImage badImage image) (fun result after =>
      (∃ error, result = .error error ∧ Grows state after) ∨
        ∃ root, result = .ok root ∧ Prepared state root (image.pages root) after) state := by
  rw [loadImage, wp_bind]
  refine wp_mono sound.wp_createUserPageTable ?_
  rintro _ created (⟨rfl, rfl⟩ | ⟨root, rfl, prepared, -⟩)
  · exact .inl ⟨_, rfl, Grows.refl sound⟩
  dsimp only
  have based : root ∈ created.rootSet := by
    rw [State.rootSet, prepared.spaces]
    exact List.mem_cons_self
  rw [wp_bind_orElse]
  refine wp_mono (prepared.sound.owned.wp_loadElf based image) ?_
  rintro result loaded ⟨extended, refreshed⟩
  have filled := prepared.refresh sound extended.owned refreshed (image.pages_subset root)
  rw [Set.empty_union] at filled
  cases result with
  | error _ => exact .inl ⟨_, rfl, filled.grows⟩
  | ok _ =>
    dsimp only
    rw [wp_bind_orElse]
    refine wp_mono (extended.owned.wp_setupUserStack based image) ?_
    rintro result written ⟨stackExtended, same⟩
    have kept : Refreshed created.heap.frames created.rootSet ∅ loaded written :=
      .of_sameLeaves same ∅
    have ready := filled.refresh sound stackExtended.owned kept (Set.empty_subset _)
    rw [Set.union_empty] at ready
    cases result with
    | error _ => exact .inl ⟨_, rfl, ready.grows⟩
    | ok _ => exact (wp_pure _).mpr (.inr ⟨root, rfl, ready⟩)

/-! ### Threads -/

section Fields

variable (state : State) (pid root : Nat) (process : Process) (vmm : Vmm VmaName)

theorem State.roots_enter : (state.enter pid root process vmm).roots =
    update state.roots pid (some root) := rfl

theorem State.processes_enter : (state.enter pid root process vmm).processes =
    update state.processes pid (some { process with vmm := state.nextVmm }) := rfl

end Fields

theorem Sound.allocPid (sound : Sound state) : Sound state.allocPid :=
  sound.transfer sound.owned rfl (fun _ => id) rfl rfl rfl rfl (Nat.le_succ _) rfl
    fun _ _ _ _ => rfl

/-- A thread may run in an address space with areas that exactly the threads of the address space
have, and that are shared memory where the kernel heap shows. -/
theorem Sound.join (sound : Sound state) (member : root ∈ state.spaces) (born : pid < state.nextPid)
    {vmms : Nat → Vmm VmaName} {nextVmm : Nat} (areas : ∀ id, (vmms id).WellFormed)
    (more : state.nextVmm ≤ nextVmm) (kept : ∀ id < state.nextVmm, vmms id = state.vmms id)
    (below : process.vmm < nextVmm)
    (together : ∀ other otherRoot known, state.roots other = some otherRoot →
      state.processes other = some known → (process.vmm = known.vmm ↔ root = otherRoot))
    (shows : root ≠ 0 → ShowsShm state.heap.frames state.ram root (vmms process.vmm)) :
    Sound { state with
      roots := update state.roots pid (some root)
      processes := update state.processes pid (some process)
      vmms := vmms
      nextVmm := nextVmm } := by
  -- a thread is the new one or was there
  have threadOf : ∀ other otherRoot known, update state.roots pid (some root) other =
      some otherRoot → update state.processes pid (some process) other = some known →
        otherRoot = root ∧ known = process ∨
          state.roots other = some otherRoot ∧ state.processes other = some known := by
    intro other otherRoot known isRoot isKnown
    by_cases isPid : other = pid
    · rw [isPid, update_self] at isRoot isKnown
      exact .inl ⟨(Option.some.inj isRoot).symm, (Option.some.inj isKnown).symm⟩
    · rw [update_of_ne isPid] at isRoot isKnown
      exact .inr ⟨isRoot, isKnown⟩
  refine ⟨sound.owned, ?_, ?_, areas, ?_, ?_, sound.segments, ?_⟩
  · intro other otherRoot isRoot
    dsimp only at isRoot ⊢
    by_cases isPid : other = pid
    · rw [isPid, update_self] at isRoot ⊢
      exact ⟨Option.some.inj isRoot ▸ member, process, rfl⟩
    · rw [update_of_ne isPid] at isRoot ⊢
      exact sound.threads other otherRoot isRoot
  · intro other late
    have different : other ≠ pid := by
      rintro rfl
      exact absurd born (not_lt.mpr late)
    exact (update_of_ne different ..).trans (sound.unborn other late)
  · intro other known isKnown
    dsimp only at isKnown ⊢
    by_cases isPid : other = pid
    · rw [isPid, update_self] at isKnown
      exact Option.some.inj isKnown ▸ below
    · rw [update_of_ne isPid] at isKnown
      exact (sound.ids other known isKnown).trans_le more
  · intro first second firstRoot secondRoot firstKnown secondKnown isFirst isSecond isFirstKnown
      isSecondKnown
    rcases threadOf first _ _ isFirst isFirstKnown with ⟨rfl, rfl⟩ | ⟨wasFirst, firstWas⟩ <;>
      rcases threadOf second _ _ isSecond isSecondKnown with ⟨rfl, rfl⟩ | ⟨wasSecond, secondWas⟩
    · exact iff_of_true rfl rfl
    · exact together second _ _ wasSecond secondWas
    · exact eq_comm.trans ((together first _ _ wasFirst firstWas).trans eq_comm)
    · exact sound.together _ _ _ _ _ _ wasFirst wasSecond firstWas secondWas
  · intro other otherRoot known isRoot nonzero isKnown
    rcases threadOf other _ _ isRoot isKnown with ⟨rfl, rfl⟩ | ⟨wasRoot, wasKnown⟩
    · exact shows nonzero
    · dsimp only
      rw [kept _ (sound.ids other known wasKnown)]
      exact sound.shows other otherRoot known wasRoot nonzero wasKnown

/-- So may it in one without threads that maps nothing of the kernel heap, with new areas. -/
theorem Sound.enter (sound : Sound state) (member : root ∈ state.spaces)
    (alone : ∀ other, state.roots other ≠ some root) (born : pid < state.nextPid)
    (process : Process) {vmm : Vmm VmaName} (wellFormed : vmm.WellFormed)
    (outside : ∀ path : List Index, path.length = 4 → ∀ frame,
      frameAt state.ram (root, path) = some frame → frame ∉ state.heap.frames) :
    Sound (state.enter pid root process vmm) := by
  refine sound.join member born (fun id => ?_) (Nat.le_succ _) (fun id old => ?_)
    (Nat.lt_succ_self _) (fun other otherRoot known isRoot isKnown => ?_)
    fun _ virt _ _ frame mapped inHeap => absurd inHeap (outside _ rfl frame mapped)
  · by_cases isNew : id = state.nextVmm
    · rw [isNew, update_self]
      exact wellFormed
    · rw [update_of_ne isNew]
      exact sound.areas id
  · exact update_of_ne old.ne ..
  · apply iff_of_false
    · exact (sound.ids other known isKnown).ne'
    · rintro rfl
      exact alone other isRoot

theorem Sound.enterShared (sound : Sound state) (present : state.roots pid = some root)
    (found : state.processes pid = some process) {child : Nat} (born : child < state.nextPid) :
    Sound (state.enterShared child root process) :=
  sound.join (sound.root_mem present) born sound.areas le_rfl (fun _ _ => rfl)
    (sound.ids pid process found)
    (fun other _ _ isRoot isKnown => sound.together pid other _ _ _ _ present isRoot found isKnown)
    (sound.shows pid root process present · found)

/-- A thread runs in a new address space, which maps only pages of the set. -/
structure Entered (state : State) (pid root : Nat) (process : Process) (pages : Set Page)
    (after : State) : Prop where
  sound : Sound after
  heap : after.heap = state.heap
  isNew : root ∉ state.spaces
  spaces : after.spaces = root :: state.spaces
  roots : after.roots = update state.roots pid (some root)
  processes : ∃ vmm, after.processes =
    update state.processes pid (some { process with vmm := vmm })
  same : SameLeaves state.rootSet state.ram after.ram
  mapped : ∀ path : List Index, path.length = 4 → (frameAt after.ram (root, path)).isSome →
    (root, path) ∈ pages

theorem Prepared.allocPid {pages : Set Page} (prepared : Prepared state root pages after) :
    Prepared state.allocPid root pages after.allocPid where
  sound := prepared.sound.allocPid
  isNew := prepared.isNew
  spaces := prepared.spaces
  heap := prepared.heap
  roots := prepared.roots
  processes := prepared.processes
  vmms := prepared.vmms
  nextVmm := prepared.nextVmm
  nextPid := congrArg (· + 1) prepared.nextPid
  same := prepared.same
  outside := prepared.outside
  mapped := prepared.mapped

theorem Prepared.enter {pages : Set Page} (prepared : Prepared state root pages middle)
    (before : Sound state) (born : pid < state.nextPid) (process : Process) {vmm : Vmm VmaName}
    (wellFormed : vmm.WellFormed) :
    Entered state pid root process pages (middle.enter pid root process vmm) where
  sound := by
    refine prepared.sound.enter ?_ ?_ ?_ process wellFormed ?_
    · rw [prepared.spaces]
      exact List.mem_cons_self
    · intro other present
      rw [prepared.roots] at present
      exact prepared.isNew (before.root_mem present)
    · rw [prepared.nextPid]
      exact born
    · rw [prepared.heap]
      exact prepared.outside
  heap := prepared.heap
  isNew := prepared.isNew
  spaces := prepared.spaces
  roots := by rw [State.roots_enter, prepared.roots]
  processes := ⟨_, by rw [State.processes_enter, prepared.processes]⟩
  same := prepared.same
  mapped := prepared.mapped

theorem Entered.of_allocPid {pages : Set Page}
    (entered : Entered state.allocPid pid root process pages after) :
    Entered state pid root process pages after :=
  ⟨entered.sound, entered.heap, entered.isNew, entered.spaces, entered.roots, entered.processes,
    entered.same, entered.mapped⟩

theorem Grows.of_allocPid (grows : Grows state.allocPid after) : Grows state after :=
  ⟨grows.sound, grows.heap, grows.spaces, grows.roots, grows.processes, grows.same⟩

theorem Sound.born (sound : Sound state) (present : state.roots pid = some root) :
    pid < state.nextPid := by
  by_contra late
  rw [sound.unborn pid (not_lt.mp late)] at present
  cases present

theorem Sound.wp_spawnUserProcess (sound : Sound state) (image : Image) :
    wp (spawnUserProcess image) (fun result after =>
      (∃ error, result = .error error ∧ Grows state after) ∨
        ∃ root, result = .ok state.nextPid ∧
          Entered state state.nextPid root image.process (image.pages root) after) state := by
  rw [spawnUserProcess, wp_bind]
  refine wp_mono (sound.wp_loadImage .ENOMEM image) ?_
  rintro _ loaded (⟨error, rfl, grows⟩ | ⟨root, rfl, prepared⟩)
  · exact .inl ⟨error, rfl, grows⟩
  dsimp only
  rw [wp_bind_gets, wp_bind_modify, wp_pure, prepared.nextPid]
  exact .inr ⟨root, rfl, (prepared.allocPid.enter sound.allocPid (Nat.lt_succ_self _)
    image.process Vmm.wellFormed_new).of_allocPid⟩

theorem Sound.wp_doExecve (sound : Sound state) (present : state.roots pid = some root)
    (image : Image) :
    wp (doExecve pid image) (fun result after =>
      (∃ error, result = .error error ∧ Grows state after) ∨
        ∃ fresh, result = .ok 0 ∧
          Entered state pid fresh image.process (image.pages fresh) after) state := by
  rw [doExecve, wp_bind]
  refine wp_mono (sound.wp_loadImage .ENOENT image) ?_
  rintro _ loaded (⟨error, rfl, grows⟩ | ⟨fresh, rfl, prepared⟩)
  · exact .inl ⟨error, rfl, grows⟩
  dsimp only
  rw [wp_bind_modify, wp_pure]
  exact .inr ⟨fresh, rfl, prepared.enter sound (sound.born present) image.process
    Vmm.wellFormed_new⟩

/-! ### Forks -/

/-- The pages of a child whose counterparts the parent maps. -/
def copiedPages (ram : Ram) (parent child : Nat) : Set Page :=
  { page | page.1 = child ∧ (frameAt ram (parent, page.2)).isSome }

/-- How the memory of a child came about: its root was made, and the pages of the areas
were copied. -/
def Forked (state : State) (parent child : Nat) (vmm : Vmm VmaName) (ram : Ram) : Prop :=
  ∃ start, NewSpace state.heap.frames state.rootSet state.ram child start ∧
    Copied state.heap.frames (insert child state.rootSet) parent child start vmm.visited ram

theorem Copied.refreshed {parent child : Nat} {heap roots : Set Nat} {ram start ram' : Ram}
    {visits : List (Nat × PageAttr)} (new : NewSpace heap roots ram child start)
    (copied : Copied heap (insert child roots) parent child start visits ram')
    (parentIn : parent ∈ roots) :
    Refreshed heap (insert child roots) (copiedPages ram parent child) start ram' := by
  rintro ⟨base, path⟩ member
  by_cases isChild : base = child
  · subst isChild
    cases now : frameAt ram' (base, path) with
    | none => exact .inl (new.empty path member.2).symm
    | some frame =>
      obtain ⟨outside, visit, -, rfl, original, isOriginal, -⟩ :=
        copied.source path member.2 frame now
      have was : frameAt ram (parent, pagePath visit.1) = some original := by
        rw [← isOriginal]
        exact (new.same parent parentIn _ rfl).symm
      refine .inr ⟨⟨rfl, ?_⟩, ?_⟩
      · rw [was]
        rfl
      · rintro _ ⟨⟩
        exact outside
  · exact .inl (copied.others (base, path) member isChild)

theorem Sound.wp_forkSpace (sound : Sound state) (present : state.roots pid = some root)
    (process : Process) :
    wp (forkSpace pid process) (fun result after =>
      (∃ error, result = .error error ∧ Grows state after) ∨
        ∃ child, result = .ok child ∧
          Prepared state child (copiedPages state.ram root child) after ∧
            Forked state root child (state.vmms process.vmm) after.ram) state := by
  have parentIn := sound.root_mem present
  rw [forkSpace, wp_bind_gets, State.rootOf_eq present, wp_bind]
  refine wp_mono sound.wp_createUserPageTable ?_
  rintro _ created (⟨rfl, rfl⟩ | ⟨child, rfl, prepared, new⟩)
  · exact .inl ⟨_, rfl, Grows.refl sound⟩
  dsimp only
  have different : root ≠ child := by
    rintro rfl
    exact prepared.isNew parentIn
  have owned := new.owned
  have copies : wp (cloneUserAddressSpace root child (state.vmms process.vmm))
      (fun result ram =>
        (result = .ok true ∧ Copied state.heap.frames (insert child state.rootSet) root child
          created.ram (state.vmms process.vmm).visited ram) ∨
        (result = .ok false ∧ Owned state.heap.frames (insert child state.rootSet) ram ∧
          ∀ page, PageOf (insert child state.rootSet) page → page.1 ≠ child →
            frameAt ram page = frameAt created.ram page)) created.ram := by
    rw [cloneUserAddressSpace, wp_ite]
    refine ⟨fun _ => ?_, fun _ => wp_hang⟩
    exact (owned.copied_nil new.empty).wp_copyPages (Set.mem_insert_of_mem _ parentIn)
      (Set.mem_insert _ _) different owned _ _
  rw [wp_bind_gets, prepared.vmms, wp_bind_onRam]
  refine wp_mono copies ?_
  rintro _ ram (⟨rfl, copied⟩ | ⟨rfl, ownedNow, others⟩)
  · refine (wp_pure _).mpr (.inr ⟨child, rfl, ?_, ⟨created.ram, new, copied⟩⟩)
    have refreshed := copied.refreshed new parentIn
    have ownedNow := copied.extended.owned
    rw [← prepared.heap, ← rootSet_cons prepared.spaces] at refreshed ownedNow
    have filled := prepared.refresh sound ownedNow refreshed fun page inside => inside.1
    rw [Set.empty_union] at filled
    exact filled
  · refine (wp_throw _).mpr (.inl ⟨_, rfl, ?_⟩)
    rw [← prepared.heap, ← rootSet_cons prepared.spaces] at ownedNow
    rw [← rootSet_cons prepared.spaces] at others
    exact prepared.grows_elsewhere sound ownedNow others

theorem Sound.wp_doClone (sound : Sound state) (present : state.roots pid = some root)
    (found : state.processes pid = some process) (flags ptid : Nat) :
    wp (doClone pid flags ptid) (fun result after =>
      (∃ error, result = .error error ∧ Grows state after) ∨
      (flags &&& CLONE_VM ≠ 0 ∧ result = .ok state.nextPid ∧ Sound after ∧
        after = state.allocPid.enterShared state.nextPid root process) ∨
      (flags &&& CLONE_VM = 0 ∧ result = .ok state.nextPid ∧ ∃ child,
        Entered state state.nextPid child process (copiedPages state.ram root child) after ∧
          Forked state root child (state.vmms process.vmm) after.ram)) state := by
  rw [doClone, wp_ite]
  refine ⟨fun _ => (wp_throw _).mpr (.inl ⟨_, rfl, Grows.refl sound⟩), fun _ => ?_⟩
  rw [wp_bind_gets, wp_bind_modify]
  refine (wp_bind_processOf (by exact found) _).mpr ?_
  have born : state.nextPid < state.allocPid.nextPid := Nat.lt_succ_self _
  rw [wp_ite]
  refine ⟨fun shared => ?_, fun separate => ?_⟩
  · rw [wp_bind_gets, wp_bind_modify, wp_pure]
    have isRoot : state.allocPid.rootOf pid = root := State.rootOf_eq present
    rw [isRoot]
    exact .inr (.inl ⟨shared, rfl, sound.allocPid.enterShared present found born, rfl⟩)
  · rw [wp_bind]
    refine wp_mono (sound.allocPid.wp_forkSpace present process) ?_
    rintro _ forked (⟨error, rfl, grows⟩ | ⟨child, rfl, prepared, start⟩)
    · exact .inl ⟨error, rfl, grows.of_allocPid⟩
    dsimp only
    rw [wp_bind_modify, wp_pure]
    refine .inr (.inr ⟨not_not.mp separate, rfl, child, ?_, start⟩)
    exact (prepared.enter sound.allocPid born process (prepared.sound.areas _)).of_allocPid

end Cyllor.Mm
