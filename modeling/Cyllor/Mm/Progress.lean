import Cyllor.Mm.SpaceEffects

/-!
Contract: with enough free frames, memory calls return and do what they are for.

Owns: `Populated`, what mapping new frames achieves; success of the allocator, of mapping
and of the page loops; and that an image is loaded if there are frames for it.
-/

namespace Cyllor.Mm

open Cyllor.Arch LinkForest
open Call hiding pure bind

variable {value root virt phys frame count addr pid : Nat}

variable {heap roots : Set Nat} {ram ram' : Ram} {base : Nat} {ε : Type}

/-! ### Frames -/

theorem Owned.succeeds_allocPage (owned : Owned heap roots ram)
    (enough : 0 < ram.pmm.clearPages.card) :
    succeeds (allocPage : RamCall ε (Option Nat)) (fun found ram' => ∃ frame,
      found = some frame ∧ Taken heap roots ram frame ram') ram := by
  refine succeeds_mono owned.succeeds_allocPage_counts ?_
  rintro _ ram' (⟨-, -, empty⟩ | ⟨frame, rfl, taken, -⟩)
  · omega
  · exact ⟨frame, rfl, taken⟩

theorem Owned.succeeds_mapPage (owned : Owned heap roots ram) (based : base ∈ roots)
    (isFrame : PAGE_SIZE * (phys % 2 ^ 48 / PAGE_SIZE) = frame)
    (fits : Fits heap roots ram (pageAt base virt) frame) (attr : PageAttr)
    (enough : 3 ≤ ram.pmm.clearPages.card) :
    succeeds (mapPage base virt phys attr) (fun _ ram' =>
      Mapped heap roots base virt frame ram (.ok ()) ram') ram := by
  obtain ⟨result, after, returned, mapped⟩ := owned.ends_mapPage based isFrame fits attr
  cases result with
  | error _ => exact absurd (mapped.short rfl) (Nat.not_lt.mpr enough)
  | ok _ => exact ⟨(), after, returned, mapped⟩

/-! ### Pages -/

def Kept (roots : Set Nat) (ram ram' : Ram) : Prop :=
  ∀ page, PageOf roots page → (frameAt ram page).isSome → (frameAt ram' page).isSome

/-- The pages of the set are mapped now and no page was unmapped, for at most so many
frames. -/
structure Populated (heap roots : Set Nat) (pages : Set Page) (count : Nat) (ram ram' : Ram) :
    Prop where
  extended : Extended heap roots ram ram'
  spends : Spends count ram ram'
  kept : Kept roots ram ram'
  filled : ∀ page ∈ pages, PageOf roots page → (frameAt ram' page).isSome

theorem Populated.trans {ram'' : Ram} {pages more : Set Page} {first second : Nat}
    (early : Populated heap roots pages first ram ram')
    (late : Populated heap roots more second ram' ram'') :
    Populated heap roots (pages ∪ more) (first + second) ram ram'' where
  extended := early.extended.trans late.extended
  spends := early.spends.trans late.spends
  kept page member isMapped := late.kept page member (early.kept page member isMapped)
  filled page inside member := by
    rcases inside with before | after
    · exact late.kept page member (early.filled page before member)
    · exact late.filled page after member

theorem Populated.mono {pages fewer : Set Page}
    (populated : Populated heap roots pages count ram ram') (subset : fewer ⊆ pages) :
    Populated heap roots fewer count ram ram' :=
  { populated with filled := fun page inside => populated.filled page (subset inside) }

theorem Extended.populated (extended : Extended heap roots ram ram')
    (same : SameLeaves roots ram ram') (samePmm : ram'.pmm = ram.pmm) :
    Populated heap roots ∅ 0 ram ram' where
  extended := extended
  spends := Spends.of_pmm_eq samePmm 0
  kept page member isMapped := by rwa [frameAt_of_sameLeaves same member]
  filled page inside := absurd inside (Set.notMem_empty page)

theorem Populated.left {pages : Set Page} (populated : Populated heap roots pages count ram ram')
    (owned : Owned heap roots ram) :
    ram.pmm.clearPages.card ≤ ram'.pmm.clearPages.card + count :=
  (populated.spends owned.counted).2

theorem Taken.populated {taken : Ram} (isTaken : Taken heap roots ram frame taken)
    (isMapped : Mapped heap roots base virt frame
      { taken with bytes := taken.bytes.fill frame PAGE_SIZE 0 } (.ok ()) ram') :
    Populated heap roots {pageAt base virt} 4 ram ram' := by
  obtain ⟨zeroed, early, -⟩ := isTaken.zeroed
  have touched := isMapped.touched
  have isLeaf : frameAt ram' (pageAt base virt) = some frame := isMapped.outcome.1
  have now : (frameAt ram' (pageAt base virt)).isSome := Option.isSome_of_eq_some isLeaf
  refine ⟨zeroed.trans isMapped.extended, ?_, fun page member before => ?_, fun page isPage _ => ?_⟩
  · exact (isTaken.spends.trans (Spends.of_pmm_eq rfl 0)).trans isMapped.spends
  · by_cases isPage : page = pageAt base virt
    · rw [isPage]
      exact now
    · rwa [touched page member isPage, frameAt_of_sameLeaves early member]
  · rw [Set.mem_singleton_iff.mp isPage]
    exact now

theorem Taken.succeeds_mapPage {taken : Ram} (isTaken : Taken heap roots ram frame taken)
    (owned : Owned heap roots ram) (based : base ∈ roots) (attr : PageAttr)
    (enough : 4 ≤ ram.pmm.clearPages.card) :
    succeeds (mapPage base virt frame attr) (fun _ ram' =>
      Populated heap roots {pageAt base virt} 4 ram ram' ∧ InUse heap roots ram' frame)
      { taken with bytes := taken.bytes.fill frame PAGE_SIZE 0 } := by
  obtain ⟨zeroed, -, loose⟩ := isTaken.zeroed
  have left := (isTaken.spends owned.counted).2
  refine succeeds_mono (zeroed.owned.succeeds_mapPage based isTaken.loose.inUse.frame_eq
    (loose.fits _) attr (show 3 ≤ taken.pmm.clearPages.card by omega)) ?_
  exact fun _ _ isMapped => ⟨isTaken.populated isMapped, isMapped.extended.inUse loose.inUse⟩

theorem Owned.succeeds_mapAnon (owned : Owned heap roots ram) (based : base ∈ roots) {size : Nat}
    (attr : PageAttr) (bounded : addr + size + PAGE_SIZE ≤ u64Max)
    (enough : 4 * ((size + PAGE_SIZE - 1) / PAGE_SIZE) ≤ ram.pmm.clearPages.card) :
    succeeds (mapAnon base addr size attr) (fun _ ram' =>
      Populated heap roots (Span base addr ((size + PAGE_SIZE - 1) / PAGE_SIZE))
        (4 * ((size + PAGE_SIZE - 1) / PAGE_SIZE)) ram ram') ram := by
  refine succeeds_bind_word (by omega) ?_
  have bound : ∀ index < (size + PAGE_SIZE - 1) / PAGE_SIZE, addr + PAGE_SIZE * index ≤ u64Max := by
    intro index below
    simp only [PAGE_SIZE] at *
    omega
  generalize (size + PAGE_SIZE - 1) / PAGE_SIZE = count at *
  refine succeeds_iterate (fun index _ after =>
    Populated heap roots (Span base addr index) (4 * index) ram after) ?_ ?_
  · rw [span_zero]
    exact owned.refl.populated (SameLeaves.refl _ _) rfl
  · rintro index below ⟨⟩ middle populated
    have left := populated.left owned
    refine succeeds_bind (succeeds_mono
      (populated.extended.owned.succeeds_allocPage (by omega)) ?_)
    rintro _ taken ⟨frame, rfl, isTaken⟩
    refine succeeds_bind_ofOption (succeeds_bind_modify
      (succeeds_bind_word (bound index below) ?_))
    refine succeeds_mono
      (isTaken.succeeds_mapPage populated.extended.owned based attr (by omega)) ?_
    rintro _ after ⟨more, -⟩
    rw [span_succ]
    exact populated.trans more

theorem Owned.succeeds_copyOut (owned : Owned heap roots ram) (based : base ∈ roots) {fuel : Nat}
    {data : List UInt8} (bounded : virt + data.length ≤ u64Max)
    (mapped : ∀ addr, virt ≤ addr → addr < virt + data.length → (leaf ram base addr).isSome) :
    succeeds (copyOut base fuel virt data) (fun _ ram' =>
      Populated heap roots ∅ 0 ram ram') ram := by
  have samePmm : succeeds (copyOut base fuel virt data) (fun _ ram' => ram'.pmm = ram.pmm)
      ram := by
    induction fuel generalizing ram virt data with
    | zero => exact succeeds_pure rfl
    | succ fuel ih =>
      rw [copyOut]
      split
      · exact succeeds_pure rfl
      · rename_i nonempty
        have positive : 0 < data.length := by
          rw [List.length_pos_iff]
          rintro rfl
          exact nonempty rfl
        refine succeeds_bind_word (by omega) (succeeds_bind_gets ?_)
        obtain ⟨frame, isFrame⟩ := Option.isSome_iff_exists.mp (mapped virt le_rfl (by omega))
        rw [translate_eq_add, isFrame]
        refine succeeds_bind_ofOption (succeeds_bind_modify ?_)
        obtain ⟨written, same⟩ := owned.write_mapped based isFrame (bytes_fit data virt)
        refine succeeds_mono (ih written.owned ?_ ?_) ?_
        · rw [List.length_drop]
          omega
        · intro addr lower upper
          rw [List.length_drop] at upper
          have kept := frameAt_of_sameLeaves same (pageOf_pageAt based addr)
          exact (congrArg Option.isSome kept).trans (mapped addr (by omega) (by omega))
        · exact fun _ _ isSame => isSame
  refine succeeds_mono (succeeds_and_wp samePmm (owned.wp_copyOut based _ _ _)) ?_
  rintro _ ram' ⟨isSame, extended, same⟩
  exact extended.populated same isSame

/-! ### Images -/

/-- The segment lies in user space, and its data fits into its memory. -/
structure Segment.Loadable (segment : Segment) : Prop where
  bounded : segment.vaddr + segment.memsz ≤ 2 ^ 47
  inside : segment.data.length ≤ segment.memsz

/-- The stack is written where it is mapped, and all segments can be loaded. -/
structure Image.Loadable (image : Image) : Prop where
  segments : ∀ segment ∈ image.segments, segment.Loadable
  interp : ∀ segment ∈ image.interp, segment.Loadable
  stack : ∀ write ∈ image.stack, USER_STACK_TOP - USER_STACK_SIZE ≤ write.1 ∧
    write.1 + write.2.length ≤ USER_STACK_TOP

def stackCount : Nat := (USER_STACK_SIZE + PAGE_SIZE - 1) / PAGE_SIZE

/-- Frames that are enough for the pages of an image and their tables. -/
def Image.frames (image : Image) : Nat :=
  4 * (image.segments.map Segment.count).sum + 4 * stackCount +
    4 * (image.interp.map Segment.count).sum

theorem Segment.pageAt_mem_pages {segment : Segment} (lower : segment.vaddr ≤ addr)
    (upper : addr < segment.vaddr + segment.memsz) : pageAt base addr ∈ segment.pages base := by
  refine pageAt_mem_span (Nat.mul_mod_right _ _) ?_ ?_
  · simp only [PAGE_SIZE]
    omega
  · simp only [Segment.count, roundUp, PAGE_SIZE]
    omega

section

variable (owned : Owned heap roots ram) (based : base ∈ roots)

include owned based

theorem Owned.succeeds_loadSegment {segment : Segment} (loadable : segment.Loadable)
    (enough : 4 * segment.count ≤ ram.pmm.clearPages.card) :
    succeeds (loadSegment base segment) (fun _ ram' =>
      Populated heap roots ∅ (4 * segment.count) ram ram') ram := by
  have bounded := loadable.bounded
  have inside := loadable.inside
  have wordMax : u64Max = 2 ^ 64 - 1 := rfl
  refine succeeds_bind_word (by omega)
    (succeeds_bind_alignUp (by simp only [PAGE_SIZE]; omega) (succeeds_bind ?_))
  refine succeeds_mono (owned.succeeds_mapAnon based segment.attr ?_ enough) ?_
  · simp only [roundUp, PAGE_SIZE]
    omega
  · intro _ mapped populated
    refine succeeds_mono (populated.extended.owned.succeeds_copyOut based (by omega) ?_) ?_
    · intro addr lower upper
      exact populated.filled _ (Segment.pageAt_mem_pages lower (by omega)) (pageOf_pageAt based
        addr)
    · intro _ final written
      exact (populated.trans written).mono (Set.empty_subset _)

theorem Owned.succeeds_loadSegments {segments : List Segment}
    (loadable : ∀ segment ∈ segments, segment.Loadable)
    (enough : 4 * (segments.map Segment.count).sum ≤ ram.pmm.clearPages.card) :
    succeeds (Call.forEach (loadSegment base) segments) (fun _ ram' =>
      Populated heap roots ∅ (4 * (segments.map Segment.count).sum) ram ram') ram := by
  induction segments generalizing ram with
  | nil => exact succeeds_pure (owned.refl.populated (SameLeaves.refl _ _) rfl)
  | cons segment segments ih =>
    rw [List.map_cons, List.sum_cons] at enough ⊢
    refine succeeds_bind (succeeds_mono
      (owned.succeeds_loadSegment based (loadable segment List.mem_cons_self) (by omega)) ?_)
    intro _ middle first
    have left := first.left owned
    refine succeeds_mono (ih first.extended.owned
      (fun other member => loadable other (List.mem_cons_of_mem _ member)) (by omega)) ?_
    intro _ final rest
    rw [Nat.mul_add]
    exact (first.trans rest).mono (Set.empty_subset _)

theorem Owned.succeeds_loadElf {image : Image} (loadable : image.Loadable)
    (enough : image.frames ≤ ram.pmm.clearPages.card) :
    succeeds (loadElf base image) (fun _ ram' =>
      Populated heap roots (stackPages base) image.frames ram ram') ram := by
  rw [Image.frames] at enough ⊢
  refine succeeds_bind (succeeds_mono
    (owned.succeeds_loadSegments based loadable.segments (by omega)) ?_)
  intro _ loaded first
  have left := first.left owned
  refine succeeds_bind (succeeds_mono
    (first.extended.owned.succeeds_mapAnon based .USER_RW (by decide)
      (show 4 * stackCount ≤ _ by omega)) ?_)
  intro _ stacked stack
  have leftNow := stack.left first.extended.owned
  refine succeeds_mono (stack.extended.owned.succeeds_loadSegments based loadable.interp
    (show _ ≤ stacked.pmm.clearPages.card by
      simp only [stackCount] at enough
      omega)) ?_
  intro _ final interp
  exact ((first.trans stack).trans interp).mono fun page inside => .inl (.inr inside)

theorem Owned.succeeds_setupUserStack {image : Image} (loadable : image.Loadable)
    (filled : ∀ page ∈ stackPages base, PageOf roots page → (frameAt ram page).isSome) :
    succeeds (setupUserStack base image) (fun _ ram' => Populated heap roots ∅ 0 ram ram')
      ram := by
  have inStack := loadable.stack
  rw [setupUserStack]
  generalize image.stack = writes at inStack
  induction writes generalizing ram with
  | nil => exact succeeds_pure (owned.refl.populated (SameLeaves.refl _ _) rfl)
  | cons write writes ih =>
    obtain ⟨lower, upper⟩ := inStack write List.mem_cons_self
    refine succeeds_bind (succeeds_mono (owned.succeeds_copyOut based ?_ ?_) ?_)
    · simp only [USER_STACK_TOP, u64Max] at *
      omega
    · intro addr above below
      refine filled _ (pageAt_mem_span (by decide) (lower.trans above) ?_) (pageOf_pageAt based
        addr)
      simp only [USER_STACK_TOP, USER_STACK_SIZE, PAGE_SIZE] at *
      omega
    · intro _ middle first
      refine succeeds_mono (ih first.extended.owned
        (fun page inside member => first.kept page member (filled page inside member))
        (fun other member => inStack other (List.mem_cons_of_mem _ member))) ?_
      intro _ final rest
      exact (first.trans rest).mono (Set.empty_subset _)

end

/-! ### Processes -/

theorem Owned.succeeds_allocTablePage (owned : Owned heap roots ram)
    (enough : 0 < ram.pmm.clearPages.card) :
    succeeds (allocTablePage : RamCall ε (Option Nat)) (fun found ram' => ∃ fresh,
      found = some fresh ∧ NewSpace heap roots ram fresh ram') ram := by
  have returns : succeeds (allocTablePage : RamCall ε (Option Nat))
      (fun found _ => found.isSome) ram := by
    refine succeeds_bind (succeeds_mono (owned.succeeds_allocPage enough) ?_)
    rintro _ taken ⟨frame, rfl, -⟩
    exact succeeds_bind_modify (succeeds_pure rfl)
  refine succeeds_mono (succeeds_and_wp returns owned.wp_allocTablePage) ?_
  rintro _ ram' ⟨isFound, ⟨isNone, -⟩ | ⟨fresh, isFresh, new, -⟩⟩
  · rw [Except.ok.inj isNone] at isFound
    cases isFound
  · exact ⟨fresh, Except.ok.inj isFresh, new⟩

variable {state : State}

theorem State.perform_of_succeeds {call : MemCall} {post : Nat → State → Prop}
    (present : state.roots pid = some root) (done : succeeds (call.run pid) post state) :
    ∃ value after, state.perform (.call pid call) = some (.ok value, after) ∧ post value after := by
  obtain ⟨value, after, returned, reached⟩ := done
  refine ⟨value, after, ?_, reached⟩
  rw [State.perform, if_pos (by rw [present]; rfl)]
  exact returned

/-- The state with a new address space. -/
def State.withSpace (state : State) (root : Nat) (ram : Ram) : State :=
  { state with ram := ram, spaces := root :: state.spaces }

theorem Sound.succeeds_createUserPageTable (sound : Sound state)
    (enough : 0 < state.ram.pmm.clearPages.card) :
    succeeds createUserPageTable (fun root after => ∃ ram,
      after = state.withSpace root ram ∧
        NewSpace state.heap.frames state.rootSet state.ram root ram) state := by
  refine succeeds_bind (succeeds_onRam (succeeds_mono
    (sound.owned.succeeds_allocTablePage enough) ?_))
  rintro _ ram ⟨fresh, rfl, new⟩
  exact succeeds_bind_ofOption (succeeds_bind_modify
    (succeeds_pure ⟨ram, rfl, new⟩))

theorem succeeds_orElse {post : Unit → State → Prop} {error : Errno} {call : RamCall Unit Unit}
    (holds : succeeds call (fun _ ram => post () { state with ram := ram }) state.ram) :
    succeeds (orElse error call) post state := by
  refine succeeds_bind (succeeds_onRam (succeeds_attempt (succeeds_mono holds ?_)))
  exact fun _ _ reached => succeeds_pure reached

theorem Sound.succeeds_loadImage (sound : Sound state) (badImage : Errno) {image : Image}
    (loadable : image.Loadable) (enough : image.frames + 1 ≤ state.ram.pmm.clearPages.card) :
    succeeds (loadImage badImage image) (fun root after => ∃ ram,
      after = state.withSpace root ram ∧ state.ram.pmm.IsFree root ∧
        (∀ page ∈ stackPages root, (frameAt ram page).isSome) ∧
        Spends (image.frames + 1) state.ram ram) state := by
  refine succeeds_bind (succeeds_mono
    (sound.succeeds_createUserPageTable (by omega)) ?_)
  rintro root _ ⟨ram, rfl, new⟩
  have based : root ∈ insert root state.rootSet := Set.mem_insert _ _
  have left := (new.spends sound.owned.counted).2
  refine succeeds_bind (succeeds_orElse (succeeds_mono
    (new.owned.succeeds_loadElf based loadable
      (show image.frames ≤ ram.pmm.clearPages.card by omega)) ?_))
  intro _ loaded populated
  refine succeeds_bind (succeeds_orElse (succeeds_mono
    (populated.extended.owned.succeeds_setupUserStack based loadable populated.filled) ?_))
  intro _ final written
  refine succeeds_pure ⟨final, rfl, new.free, fun page inside => ?_, ?_⟩
  · refine (populated.trans written).filled page (.inl inside) ?_
    obtain ⟨index, -, rfl⟩ := inside
    exact pageOf_pageAt based _
  · rw [Nat.add_comm]
    exact new.spends.trans (populated.trans written).spends

theorem Sound.succeeds_spawnUserProcess (sound : Sound state) {image : Image}
    (loadable : image.Loadable) (enough : image.frames + 1 ≤ state.ram.pmm.clearPages.card) :
    succeeds (spawnUserProcess image) (fun pid after => pid = state.nextPid ∧ ∃ root ram,
      after = (state.withSpace root ram).allocPid.enter state.nextPid root image.process Vmm.new ∧
        state.ram.pmm.IsFree root ∧ (∀ page ∈ stackPages root, (frameAt ram page).isSome) ∧
          Spends (image.frames + 1) state.ram ram) state := by
  refine succeeds_bind (succeeds_mono
    (sound.succeeds_loadImage .ENOMEM loadable enough) ?_)
  rintro root _ ⟨ram, rfl, free, filled, spends⟩
  exact succeeds_bind_gets (succeeds_bind_modify
    (succeeds_pure ⟨rfl, root, ram, rfl, free, filled, spends⟩))

end Cyllor.Mm
