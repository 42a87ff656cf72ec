import Cyllor.Arch.AddressSpace
import Cyllor.Mm.FrameCount

/-!
Contract: who uses the frames of physical memory.

Owns:
- `Owned`, that every mapped page of some address spaces has a frame of its own which the
  allocator handed out, or one of the kernel heap, and that only outstanding frames were
  given back;
- `Loose`, a frame that was handed out and is not mapped anywhere;
- what each operation on frames and tables does to both.
-/

namespace Cyllor.Mm

open Cyllor.Arch LinkForest
open Call hiding pure bind

variable {frame : Nat} {page : Page}

/-! ### Pages and their frames -/

/-- A page of an address space: its root and the path to its entry. -/
abbrev Page := Nat × List Index

def frameAt (ram : Ram) (page : Page) : Option Nat := walk (link ram) page.1 page.2

/-- The page belongs to one of the roots. -/
def PageOf (roots : Set Nat) (page : Page) : Prop := page.1 ∈ roots ∧ page.2.length = 4

def pageAt (root virt : Nat) : Page := (root, pagePath virt)

def IsTable (roots : Set Nat) (ram : Ram) (frame : Nat) : Prop :=
  ∃ root ∈ roots, ∃ path : List Index, path.length < 4 ∧ walk (link ram) root path = some frame

/-- The allocator handed the frame out, for neither a table nor the kernel heap. -/
structure InUse (heap roots : Set Nat) (ram : Ram) (frame : Nat) : Prop where
  aligned : frame % PAGE_SIZE = 0
  below : frame < 2 ^ 32
  used : ¬ ram.pmm.IsFree frame
  noTable : ¬ IsTable roots ram frame
  outside : frame ∉ heap
  outstanding : Outstanding frame ram.events

/-- The frame is in use, and no page is mapped to it. -/
structure Loose (heap roots : Set Nat) (ram : Ram) (frame : Nat) : Prop where
  inUse : InUse heap roots ram frame
  unmapped : ∀ page, PageOf roots page → frameAt ram page ≠ some frame

/-- The page may be mapped to the frame: it is of the kernel heap, or in use and mapped
nowhere else. -/
def Fits (heap roots : Set Nat) (ram : Ram) (target : Page) (frame : Nat) : Prop :=
  frame ∈ heap ∨
    InUse heap roots ram frame ∧
      ∀ page, PageOf roots page → frameAt ram page = some frame → page = target

/-- Every mapped page has a frame of its own that is in use, or one of the kernel heap. -/
structure Owned (heap roots : Set Nat) (ram : Ram) : Prop where
  tables : ∃ place, Tables ram roots place
  counted : ram.pmm.Counted
  disciplined : Disciplined ram.events
  fits : ∀ page, PageOf roots page → ∀ frame, frameAt ram page = some frame →
    Fits heap roots ram page frame
  heapKept : ∀ frame ∈ heap, ¬ ram.pmm.IsFree frame ∧ ¬ IsTable roots ram frame
  heapNever : ∀ frame ∈ heap, ¬ Outstanding frame ram.events

/-- Nothing was given back, and what was used for something else is not a table now. -/
structure Extended (heap roots : Set Nat) (ram ram' : Ram) : Prop where
  owned : Owned heap roots ram'
  settled : ∀ frame, ¬ ram.pmm.IsFree frame → ¬ IsTable roots ram frame →
    ¬ ram'.pmm.IsFree frame ∧ ¬ IsTable roots ram' frame
  outstanding : ∀ frame, Outstanding frame ram.events → Outstanding frame ram'.events

/-- Frames that were neither free nor a table have the bytes they had. -/
def KeepsBytes (roots : Set Nat) (ram ram' : Ram) : Prop :=
  ∀ addr, ¬ ram.pmm.IsFree (PAGE_SIZE * (addr / PAGE_SIZE)) →
    ¬ IsTable roots ram (PAGE_SIZE * (addr / PAGE_SIZE)) → ram'.bytes addr = ram.bytes addr

/-- Walks to tables end where they ended. -/
def SameTables (roots : Set Nat) (ram ram' : Ram) : Prop :=
  ∀ root ∈ roots, ∀ trail : List Index, trail.length ≤ 3 →
    walk (link ram') root trail = walk (link ram) root trail

variable {heap roots : Set Nat} {ram ram' ram'' : Ram} {base : Nat}

theorem pageOf_pageAt (based : base ∈ roots) (virt : Nat) : PageOf roots (pageAt base virt) :=
  ⟨based, rfl⟩

theorem Owned.refl (owned : Owned heap roots ram) : Extended heap roots ram ram :=
  ⟨owned, fun _ used noTable => ⟨used, noTable⟩, fun _ => id⟩

theorem Extended.trans (first : Extended heap roots ram ram')
    (second : Extended heap roots ram' ram'') : Extended heap roots ram ram'' where
  owned := second.owned
  settled frame used noTable := by
    obtain ⟨stillUsed, stillNoTable⟩ := first.settled frame used noTable
    exact second.settled frame stillUsed stillNoTable
  outstanding frame out := second.outstanding frame (first.outstanding frame out)

theorem Extended.inUse (extended : Extended heap roots ram ram')
    (inUse : InUse heap roots ram frame) : InUse heap roots ram' frame where
  aligned := inUse.aligned
  below := inUse.below
  used := (extended.settled frame inUse.used inUse.noTable).1
  noTable := (extended.settled frame inUse.used inUse.noTable).2
  outside := inUse.outside
  outstanding := extended.outstanding frame inUse.outstanding

theorem frameAt_of_sameLeaves (same : SameLeaves roots ram ram') (member : PageOf roots page) :
    frameAt ram' page = frameAt ram page :=
  same page.1 member.1 page.2 member.2

theorem frameAt_of_leafSet {virt : Nat} {frame : Option Nat}
    (set : LeafSet roots base virt frame ram ram') (member : PageOf roots page)
    (other : page ≠ pageAt base virt) : frameAt ram' page = frameAt ram page :=
  set.2 page.1 member.1 page.2 member.2 fun same => other (Prod.ext same.1 same.2)

theorem Loose.fits (loose : Loose heap roots ram frame) (target : Page) :
    Fits heap roots ram target frame :=
  .inr ⟨loose.inUse, fun page member mapped => absurd mapped (loose.unmapped page member)⟩

section

variable (owned : Owned heap roots ram) (member : PageOf roots page)

include owned member

theorem Owned.page_eq {other : Page} (memberOther : PageOf roots other)
    (mapped : frameAt ram page = some frame) (mappedOther : frameAt ram other = some frame)
    (outside : frame ∉ heap) : page = other := by
  rcases owned.fits other memberOther frame mappedOther with inHeap | ⟨-, only⟩
  · exact absurd inHeap outside
  · exact only page member mapped

theorem Owned.inUse (mapped : frameAt ram page = some frame) (outside : frame ∉ heap) :
    InUse heap roots ram frame := by
  rcases owned.fits page member frame mapped with inHeap | ⟨inUse, -⟩
  · exact absurd inHeap outside
  · exact inUse

theorem Owned.mapped_settled (mapped : frameAt ram page = some frame) :
    ¬ ram.pmm.IsFree frame ∧ ¬ IsTable roots ram frame := by
  rcases owned.fits page member frame mapped with inHeap | ⟨inUse, -⟩
  · exact owned.heapKept frame inHeap
  · exact ⟨inUse.used, inUse.noTable⟩

end

/-- The tables can be placed so that only tables have a place. -/
theorem Owned.places (owned : Owned heap roots ram) :
    ∃ place, Tables ram roots place ∧ ∀ node, (place node).isSome → IsTable roots ram node := by
  obtain ⟨place, tables⟩ := owned.tables
  exact tables.reached

theorem IsTable.placed {place : Place} (isTable : IsTable roots ram frame)
    (tables : Tables ram roots place) : (place frame).isSome := by
  obtain ⟨root, member, path, below, walked⟩ := isTable
  rw [tables.placed root member path frame below walked]
  rfl

theorem disciplined_allocs {events : List PageEvent} (disciplined : Disciplined events)
    (frames : List Nat) : Disciplined (frames.map PageEvent.alloc ++ events) := by
  induction frames with
  | nil => exact disciplined
  | cons frame frames ih => exact ih

theorem outstanding_allocs {events : List PageEvent} (out : Outstanding frame events)
    (frames : List Nat) :
    Outstanding frame (frames.map PageEvent.alloc ++ events) := by
  induction frames with
  | nil => exact out
  | cons other frames ih => exact .inr ih

theorem outstanding_of_grown {place place' : Place} (grown : Grown ram place ram' place')
    (used : ¬ ram.pmm.IsFree frame) (out : Outstanding frame ram'.events) :
    Outstanding frame ram.events := by
  obtain ⟨news, isEvents, isNew⟩ := grown.events
  have notNew : frame ∉ news := fun member =>
    used (grown.fresh frame ((isNew frame).mp member).1 ((isNew frame).mp member).2)
  rw [isEvents] at out
  clear isEvents isNew
  induction news with
  | nil => exact out
  | cons other news ih =>
    rw [List.mem_cons, not_or] at notNew
    exact ih (out.resolve_left fun same => notNew.1 same.symm) notNew.2

/-- A frame of its own for every page is kept when pages stay mapped as they were, are
unmapped, or one of them is mapped to a frame that fits. -/
theorem Owned.fits_of_change (owned : Owned heap roots ram) {roots' : Set Nat}
    (inUse : ∀ frame, InUse heap roots ram frame → InUse heap roots' ram' frame) {target : Page}
    (changes : ∀ page, PageOf roots' page → ∀ frame, frameAt ram' page = some frame →
      (PageOf roots page ∧ frameAt ram page = some frame) ∨
        page = target ∧ Fits heap roots ram target frame)
    (page : Page) (member : PageOf roots' page) (frame : Nat)
    (mapped : frameAt ram' page = some frame) : Fits heap roots' ram' page frame := by
  have wasFits : Fits heap roots ram page frame := by
    rcases changes page member frame mapped with ⟨wasMember, before⟩ | ⟨rfl, fits⟩
    · exact owned.fits page wasMember frame before
    · exact fits
  rcases wasFits with inHeap | ⟨wasUsed, only⟩
  · exact .inl inHeap
  · refine .inr ⟨inUse frame wasUsed, fun other memberOther mappedOther => ?_⟩
    rcases changes other memberOther frame mappedOther with ⟨wasMember, before⟩ | ⟨isTarget, fits⟩
    · exact only other wasMember before
    · rcases changes page member frame mapped with ⟨wasMember, before⟩ | ⟨same, -⟩
      · rcases fits with inHeap | ⟨-, onlyTarget⟩
        · exact absurd inHeap wasUsed.outside
        · rw [isTarget, onlyTarget page wasMember before]
      · rw [isTarget, same]

section

variable {place place' : Place} (grown : Grown ram place ram' place')
  (minimal : ∀ node, (place node).isSome → IsTable roots ram node)

include grown minimal

/-- What was in use, and not as a table, is no table after work on the tables. -/
theorem unplaced_of_grown (used : ¬ ram.pmm.IsFree frame) (noTable : ¬ IsTable roots ram frame) :
    place' frame = none := by
  cases found : place' frame with
  | none => rfl
  | some _ =>
    refine absurd (grown.fresh frame (by rw [found]; rfl) ?_) used
    cases wasPlaced : place frame with
    | none => rfl
    | some _ => exact absurd (minimal frame (by rw [wasPlaced]; rfl)) noTable

/-- Work on the tables keeps the ownership, also of new roots, if it maps at most one page
anew, to a frame that fits. -/
theorem Owned.of_grown (owned : Owned heap roots ram) {roots' : Set Nat}
    (tables : Tables ram' roots' place') (counted : ram'.pmm.Counted) (target : Page)
    (changes : ∀ page, PageOf roots' page → ∀ frame, frameAt ram' page = some frame →
      (PageOf roots page ∧ frameAt ram page = some frame) ∨
        page = target ∧ Fits heap roots ram target frame) :
    Owned heap roots' ram' ∧
      (∀ frame, ¬ ram.pmm.IsFree frame → ¬ IsTable roots ram frame →
        ¬ ram'.pmm.IsFree frame ∧ ¬ IsTable roots' ram' frame) ∧
      ∀ frame, Outstanding frame ram.events → Outstanding frame ram'.events := by
  have settled : ∀ frame, ¬ ram.pmm.IsFree frame → ¬ IsTable roots ram frame →
      ¬ ram'.pmm.IsFree frame ∧ ¬ IsTable roots' ram' frame := by
    intro frame used noTable
    refine ⟨fun free => used ((grown.frees frame).mp free).1, fun isTable => ?_⟩
    have isPlaced := isTable.placed tables
    rw [unplaced_of_grown grown minimal used noTable] at isPlaced
    cases isPlaced
  obtain ⟨news, isEvents, -⟩ := grown.events
  have outstanding : ∀ frame, Outstanding frame ram.events → Outstanding frame ram'.events := by
    intro frame out
    rw [isEvents]
    exact outstanding_allocs out news
  refine ⟨⟨⟨place', tables⟩, counted, ?_, owned.fits_of_change (fun frame inUse => ?_) changes,
    fun frame inHeap => ?_, fun frame inHeap out => ?_⟩, settled, outstanding⟩
  · rw [isEvents]
    exact disciplined_allocs owned.disciplined news
  · obtain ⟨used, noTable⟩ := settled frame inUse.used inUse.noTable
    exact ⟨inUse.aligned, inUse.below, used, noTable, inUse.outside,
      outstanding frame inUse.outstanding⟩
  · obtain ⟨used, noTable⟩ := owned.heapKept frame inHeap
    exact settled frame used noTable
  · exact owned.heapNever frame inHeap
      (outstanding_of_grown grown (owned.heapKept frame inHeap).1 out)

end

/-- The frame is a table, of the kernel heap or mapped. -/
def Busy (heap roots : Set Nat) (ram : Ram) (frame : Nat) : Prop :=
  IsTable roots ram frame ∨ frame ∈ heap ∨ ∃ page, PageOf roots page ∧ frameAt ram page = some frame

theorem Owned.not_isFree_of_busy (owned : Owned heap roots ram) (busy : Busy heap roots ram frame) :
    ¬ ram.pmm.IsFree frame := by
  rcases busy with isTable | inHeap | ⟨page, member, mapped⟩
  · obtain ⟨place, tables⟩ := owned.tables
    exact tables.used frame (isTable.placed tables)
  · exact (owned.heapKept frame inHeap).1
  · exact (owned.mapped_settled member mapped).1

theorem Loose.not_busy (loose : Loose heap roots ram frame) :
    ¬ Busy heap roots ram frame := by
  rintro (isTable | inHeap | ⟨page, member, mapped⟩)
  · exact loose.inUse.noTable isTable
  · exact loose.inUse.outside inHeap
  · exact loose.unmapped page member mapped

/-- A change that neither touches the tables nor frees a busy frame keeps the ownership
and all mappings, and makes no tables. -/
theorem Owned.elsewhere (owned : Owned heap roots ram)
    (bytes : ∀ addr, IsTable roots ram (PAGE_SIZE * (addr / PAGE_SIZE)) →
      ram'.bytes addr = ram.bytes addr)
    (used : ∀ frame, Busy heap roots ram frame → ¬ ram'.pmm.IsFree frame)
    (counted : ram'.pmm.Counted) (disciplined : Disciplined ram'.events)
    (outstanding : ∀ frame, Busy heap roots ram frame →
      (Outstanding frame ram.events ↔ Outstanding frame ram'.events)) :
    Owned heap roots ram' ∧ SameLeaves roots ram ram' ∧
      ∀ frame, IsTable roots ram' frame → IsTable roots ram frame := by
  obtain ⟨place, tables, minimal⟩ := owned.places
  obtain ⟨tables', same⟩ : Tables ram' roots place ∧ SameLeaves roots ram ram' :=
    tables.of_bytes (fun addr isPlaced => bytes addr (minimal _ isPlaced))
      (fun node isPlaced => used node (.inl (minimal node isPlaced)))
  have wasTable : ∀ frame, IsTable roots ram' frame → IsTable roots ram frame :=
    fun frame isTable => minimal frame (isTable.placed tables')
  refine ⟨⟨⟨place, tables'⟩, counted, disciplined, ?_, ?_, ?_⟩, same, wasTable⟩
  · intro page member frame mapped
    rw [frameAt_of_sameLeaves same member] at mapped
    have busy : Busy heap roots ram frame := .inr (.inr ⟨page, member, mapped⟩)
    rcases owned.fits page member frame mapped with inHeap | ⟨inUse, only⟩
    · exact .inl inHeap
    · refine .inr ⟨⟨inUse.aligned, inUse.below, used frame busy,
        fun isTable => inUse.noTable (wasTable frame isTable), inUse.outside,
        (outstanding frame busy).mp inUse.outstanding⟩, fun other memberOther mappedOther => ?_⟩
      rw [frameAt_of_sameLeaves same memberOther] at mappedOther
      exact only other memberOther mappedOther
  · intro frame inHeap
    exact ⟨used frame (.inr (.inl inHeap)),
      fun isTable => (owned.heapKept frame inHeap).2 (wasTable frame isTable)⟩
  · intro frame inHeap out
    exact owned.heapNever frame inHeap ((outstanding frame (.inr (.inl inHeap))).mpr out)

/-! ### Counting -/

/-- At most so many frames were taken, and the count of free frames stayed right. -/
def Spends (count : Nat) (ram ram' : Ram) : Prop :=
  ram.pmm.Counted → ram'.pmm.Counted ∧
    ram.pmm.clearPages.card ≤ ram'.pmm.clearPages.card + count

theorem Spends.trans {first second : Nat} (early : Spends first ram ram')
    (late : Spends second ram' ram'') : Spends (first + second) ram ram'' := by
  intro counted
  obtain ⟨middle, few⟩ := early counted
  obtain ⟨final, fewLater⟩ := late middle
  exact ⟨final, by omega⟩

theorem Spends.mono {count more : Nat} (spends : Spends count ram ram') (fewer : count ≤ more) :
    Spends more ram ram' := by
  intro counted
  obtain ⟨final, few⟩ := spends counted
  exact ⟨final, by omega⟩

theorem Spends.of_pmm_eq (same : ram'.pmm = ram.pmm) (count : Nat) : Spends count ram ram' := by
  intro counted
  rw [same]
  exact ⟨counted, Nat.le_add_right _ _⟩

theorem Spends.take (free : ram.pmm.IsFree frame)
    (frees : ∀ other, ram'.pmm.IsFree other ↔ ram.pmm.IsFree other ∧ other ≠ frame)
    (counter : ram'.pmm.freePages + 1 = ram.pmm.freePages) : Spends 1 ram ram' := by
  intro counted
  have after : ram'.pmm.Counted := counted.take free counter frees
  refine ⟨after, ?_⟩
  rw [← counted, ← after]
  exact counter.ge

/-- A walk takes a frame for each table at most, and only a lack of frames makes it fail. -/
theorem counts_of_walkCreated {root table : Nat} {indices : List Index} {result : Except Unit Nat}
    (created : WalkCreated root table indices ram result ram') (counted : ram.pmm.Counted) :
    ram'.pmm.Counted ∧ ram.pmm.clearPages.card ≤ ram'.pmm.clearPages.card + indices.length ∧
      (result = .error () → ram.pmm.clearPages.card < indices.length) := by
  induction created with
  | done => exact ⟨counted, Nat.le_add_right _ _, nofun⟩
  | found _ _ ih =>
    obtain ⟨stays, few, short⟩ := ih counted
    rw [List.length_cons]
    exact ⟨stays, by omega, fun failed => (short failed).trans (Nat.lt_succ_self _)⟩
  | short _ full =>
    rw [BitmapAllocator.card_of_full full]
    exact ⟨counted, Nat.zero_le _, fun _ => Nat.succ_pos _⟩
  | @made _ fresh _ indices ram ram' pmm _ _ free frees counter _ ih =>
    have taken : pmm.Counted := counted.take free counter frees
    have card : pmm.clearPages.card + 1 = ram.pmm.clearPages.card := by
      rw [← counted, ← taken]
      exact counter
    obtain ⟨stays, few, short⟩ : ram'.pmm.Counted ∧
        pmm.clearPages.card ≤ ram'.pmm.clearPages.card + indices.length ∧
          (_ → pmm.clearPages.card < indices.length) := ih taken
    rw [List.length_cons]
    exact ⟨stays, by omega, fun failed => by have := short failed; omega⟩

/-! ### Operations -/

/-- The frame was taken from the allocator and nothing else changed. -/
structure Taken (heap roots : Set Nat) (ram : Ram) (frame : Nat) (ram' : Ram) : Prop where
  free : ram.pmm.IsFree frame
  extended : Extended heap roots ram ram'
  same : SameLeaves roots ram ram'
  bytes : ram'.bytes = ram.bytes
  loose : Loose heap roots ram' frame
  spends : Spends 1 ram ram'

theorem Owned.wp_allocPage {ε : Type} (owned : Owned heap roots ram)
    {post : Except ε (Option Nat) → Ram → Prop} (exhausted : post (.ok none) ram)
    (taken : ∀ frame ram', Taken heap roots ram frame ram' → post (.ok (some frame)) ram') :
    wp allocPage post ram := by
  refine Mm.wp_allocPage (fun _ => exhausted) (fun frame pmm free frees counter => ?_)
  have used : ∀ other, ¬ ram.pmm.IsFree other → ¬ pmm.IsFree other :=
    fun other isUsed isFree => isUsed ((frees other).mp isFree).1
  have idle : ¬ Busy heap roots ram frame := fun busy => owned.not_isFree_of_busy busy free
  let after : Ram := { ram with pmm := pmm, events := .alloc frame :: ram.events }
  have spends : Spends 1 ram after := Spends.take free frees counter
  obtain ⟨kept, same, wasTable⟩ :=
    @Owned.elsewhere heap roots ram after owned (fun _ _ => rfl)
      (fun other busy => used other (owned.not_isFree_of_busy busy))
      (spends owned.counted).1 owned.disciplined (fun other busy => ⟨.inr, fun out =>
        out.resolve_left fun isFrame => owned.not_isFree_of_busy busy (isFrame ▸ free)⟩)
  refine taken frame after ⟨free, ⟨kept, fun other isUsed noTable => ⟨used other isUsed,
    fun isTable => noTable (wasTable other isTable)⟩, fun _ out => .inr out⟩, same, rfl,
    ⟨⟨free.bounds.1, free.bounds.2, fun isFree => ((frees frame).mp isFree).2 rfl,
      fun isTable => idle (.inl (wasTable frame isTable)),
      fun inHeap => idle (.inr (.inl inHeap)), .inl rfl⟩, fun page member mapped => ?_⟩,
    spends⟩
  rw [frameAt_of_sameLeaves same member] at mapped
  exact idle (.inr (.inr ⟨page, member, mapped⟩))

theorem succeeds_allocPage_counts {ε : Type} (counted : ram.pmm.Counted) :
    succeeds (allocPage : RamCall ε (Option Nat)) (fun found ram' =>
      (found = none ∧ ram' = ram ∧ ram.pmm.clearPages.card = 0) ∨
        ∃ frame pmm, found = some frame ∧ ram.pmm.IsFree frame ∧
          (∀ other, pmm.IsFree other ↔ ram.pmm.IsFree other ∧ other ≠ frame) ∧
          pmm.Counted ∧ pmm.clearPages.card + 1 = ram.pmm.clearPages.card ∧
          ram' = { ram with pmm := pmm, events := .alloc frame :: ram.events }) ram := by
  rcases ram.pmm.allocPage_cases with
    ⟨nothing, full⟩ | ⟨frame, ⟨free, -⟩, ⟨none, -⟩ | ⟨pmm, allocated, counter, frees⟩⟩
  · refine ⟨none, ram, ?_, .inl ⟨rfl, rfl, ?_⟩⟩
    · rw [allocPage, nothing]
    · exact BitmapAllocator.card_of_full full
  · exact absurd none (counted.pos_of_isFree free).ne'
  · have after : pmm.Counted := counted.take free counter frees
    refine ⟨some frame, _, ?_, .inr ⟨frame, pmm, rfl, free, frees, after, ?_, rfl⟩⟩
    · rw [allocPage, allocated]
    · rw [← counted, ← after]
      exact counter

theorem ends_walkCreated {root : Nat} (indices : List Index) (table : Nat) {ram : Ram}
    (used : ¬ ram.pmm.IsFree root) (counted : ram.pmm.Counted) :
    ends (walkCreate root table indices) (WalkCreated root table indices ram) ram := by
  induction indices generalizing table ram with
  | nil => exact ends_pure .done
  | cons index indices ih =>
    rw [walkCreate]
    refine ends_bind_gets ?_
    cases isLink : link ram table index with
    | some next => exact ends_mono (ih next used counted) fun _ _ rest => .found isLink rest
    | none =>
      refine ends_bind_of_succeeds (succeeds_bind (succeeds_mono
        (succeeds_allocPage_counts counted) ?_))
      rintro _ _ (⟨rfl, rfl, empty⟩ | ⟨fresh, pmm, rfl, free, frees, stays, card, rfl⟩)
      · refine succeeds_pure ⟨_, _, rfl, .short isLink fun frame free => ?_⟩
        exact (counted.pos_of_isFree free).ne' (counted.trans empty)
      · have other : fresh ≠ root := by
          rintro rfl
          exact used free
        refine succeeds_bind_modify (succeeds_pure (ends_bind_of_succeeds
          (succeeds_pure ?_)))
        rw [if_neg other]
        refine ends_bind_modify (ends_bind_gets ?_)
        rw [readEntry_writeEntry, if_neg (not_not.mpr rfl)]
        have counter : pmm.freePages + 1 = ram.pmm.freePages := by
          rw [counted, stays]
          exact card
        exact ends_mono (ih fresh (fun isFree => used ((frees root).mp isFree).1) stays)
          fun _ _ rest => .made isLink free frees counter rest

theorem Owned.succeeds_allocPage_counts {ε : Type} (owned : Owned heap roots ram) :
    succeeds (allocPage : RamCall ε (Option Nat)) (fun found ram' =>
      (found = none ∧ ram' = ram ∧ ram.pmm.clearPages.card = 0) ∨
        ∃ frame, found = some frame ∧ Taken heap roots ram frame ram' ∧
          (∀ other, ram'.pmm.IsFree other ↔ ram.pmm.IsFree other ∧ other ≠ frame) ∧
          ram'.pmm.clearPages.card + 1 = ram.pmm.clearPages.card) ram := by
  have specified : wp (allocPage : RamCall ε (Option Nat)) (fun result ram' =>
      ∀ frame, result = .ok (some frame) → Taken heap roots ram frame ram') ram :=
    owned.wp_allocPage nofun (by rintro frame ram' taken _ ⟨⟩; exact taken)
  refine succeeds_mono (succeeds_and_wp
    (Mm.succeeds_allocPage_counts owned.counted) specified) ?_
  rintro _ _ ⟨nothing | ⟨frame, pmm, rfl, -, frees, -, spent, rfl⟩, taken⟩
  · exact .inl nothing
  · exact .inr ⟨frame, rfl, taken frame rfl, frees, spent⟩

theorem Owned.write (owned : Owned heap roots ram) (noTable : ¬ IsTable roots ram frame)
    {bytes : ByteMemory}
    (same : ∀ addr, PAGE_SIZE * (addr / PAGE_SIZE) ≠ frame → bytes addr = ram.bytes addr) :
    Extended heap roots ram { ram with bytes := bytes } ∧
      SameLeaves roots ram { ram with bytes := bytes } := by
  let after : Ram := { ram with bytes := bytes }
  obtain ⟨kept, sameLeaves, wasTable⟩ :=
    @Owned.elsewhere heap roots ram after owned
      (fun addr isTable => same addr fun isFrame => noTable (isFrame ▸ isTable))
      (fun _ => owned.not_isFree_of_busy) owned.counted owned.disciplined (fun _ _ => Iff.rfl)
  exact ⟨⟨kept, fun other used outside => ⟨used, fun isTable => outside (wasTable other isTable)⟩,
    fun _ => id⟩, sameLeaves⟩

theorem Loose.extended (loose : Loose heap roots ram frame)
    (extended : Extended heap roots ram ram')
    (unmapped : ∀ page, PageOf roots page → frameAt ram' page = some frame →
      frameAt ram page = some frame) : Loose heap roots ram' frame :=
  ⟨extended.inUse loose.inUse, fun page member mapped =>
    loose.unmapped page member (unmapped page member mapped)⟩

theorem ends_mapPage_counts {root : Nat} (virt phys : Nat) (attr : PageAttr)
    (used : ¬ ram.pmm.IsFree root) (counted : ram.pmm.Counted) :
    ends (mapPage root virt phys attr) (fun result ram' => Spends 3 ram ram' ∧
      (result = .error () → ram.pmm.clearPages.card < 3)) ram := by
  refine ends_bind (ends_mono (ends_walkCreated (tableIndices virt) root used counted) ?_)
  intro result middle created
  obtain ⟨stays, few, short⟩ := counts_of_walkCreated created counted
  cases result with
  | error error => exact ⟨fun _ => ⟨stays, few⟩, fun _ => short rfl⟩
  | ok table => exact ⟨_, _, rfl, fun _ => ⟨stays, few⟩, nofun⟩

/-- What `map_page` leaves behind; an error changes no mapping and comes only for a page that
was not mapped. -/
structure Mapped (heap roots : Set Nat) (base virt frame : Nat) (ram : Ram)
    (result : Except Unit Unit) (ram' : Ram) : Prop where
  extended : Extended heap roots ram ram'
  spends : Spends 3 ram ram'
  bytes : ∀ addr, ¬ ram.pmm.IsFree (PAGE_SIZE * (addr / PAGE_SIZE)) →
    ¬ IsTable roots ram (PAGE_SIZE * (addr / PAGE_SIZE)) → ram'.bytes addr = ram.bytes addr
  outcome : match result with
    | .ok _ => LeafSet roots base virt (some frame) ram ram'
    | .error _ => SameLeaves roots ram ram' ∧ leaf ram base virt = none
  short : result = .error () → ram.pmm.clearPages.card < 3

theorem Owned.ends_mapPage (owned : Owned heap roots ram) (based : base ∈ roots) {virt phys : Nat}
    (isFrame : PAGE_SIZE * (phys % 2 ^ 48 / PAGE_SIZE) = frame)
    (fits : Fits heap roots ram (pageAt base virt) frame) (attr : PageAttr) :
    ends (mapPage base virt phys attr) (Mapped heap roots base virt frame ram) ram := by
  obtain ⟨place, tables, minimal⟩ := owned.places
  have rootUsed : ¬ ram.pmm.IsFree base :=
    owned.not_isFree_of_busy (.inl ⟨base, based, [], by decide, rfl⟩)
  refine ends_mono (ends_and_wp (ends_mapPage_counts virt phys attr rootUsed owned.counted)
    (Arch.wp_mapPage tables based virt phys attr)) ?_
  rintro result ram' ⟨⟨spends, short⟩, place', tables', grown, outcome⟩
  rw [isFrame] at outcome
  have changes : ∀ page, PageOf roots page → ∀ other, frameAt ram' page = some other →
      (PageOf roots page ∧ frameAt ram page = some other) ∨
        page = pageAt base virt ∧ Fits heap roots ram (pageAt base virt) other := by
    intro page member other mapped
    cases result with
    | error _ =>
      rw [frameAt_of_sameLeaves outcome.1 member] at mapped
      exact .inl ⟨member, mapped⟩
    | ok _ =>
      by_cases isTarget : page = pageAt base virt
      · rw [isTarget] at mapped
        obtain rfl : frame = other := Option.some.inj (outcome.1.symm.trans mapped)
        exact .inr ⟨isTarget, fits⟩
      · rw [frameAt_of_leafSet outcome member isTarget] at mapped
        exact .inl ⟨member, mapped⟩
  obtain ⟨kept, settled, outstanding⟩ := owned.of_grown grown minimal tables'
    (spends owned.counted).1 (pageAt base virt) changes
  exact ⟨⟨kept, settled, outstanding⟩, spends, fun addr used noTable =>
    grown.bytes addr (unplaced_of_grown grown minimal used noTable), outcome, short⟩

/-- What `unmap_page` leaves behind: a frame that is not of the kernel heap is loose. -/
structure Unmapped (heap roots : Set Nat) (base virt : Nat) (ram ram' : Ram) : Prop where
  extended : Extended heap roots ram ram'
  entries : EntrySet roots base virt none ram ram'
  loose : ∀ frame, leaf ram base virt = some frame → frame ∉ heap → Loose heap roots ram' frame
  bytes : KeepsBytes roots ram ram'
  sameTables : SameTables roots ram ram'
  pmm : ram'.pmm = ram.pmm

theorem Owned.succeeds_unmapUserPage {ε : Type} (owned : Owned heap roots ram)
    (based : base ∈ roots) (virt : Nat) :
    succeeds (unmapUserPage base virt : RamCall ε (Option Nat)) (fun found ram' =>
      found = leaf ram base virt ∧ Unmapped heap roots base virt ram ram') ram := by
  obtain ⟨place, tables, minimal⟩ := owned.places
  refine succeeds_mono (succeeds_unmapPage tables based virt) ?_
  rintro found ram' ⟨isFound, samePmm, sameTables, tables', grown, entries⟩
  have changes : ∀ page, PageOf roots page → ∀ frame, frameAt ram' page = some frame →
      page ≠ pageAt base virt ∧ frameAt ram page = some frame := by
    intro page member frame mapped
    have other : page ≠ pageAt base virt := by
      rintro rfl
      cases entries.leafSet.1.symm.trans mapped
    rw [frameAt_of_leafSet entries.leafSet member other] at mapped
    exact ⟨other, mapped⟩
  obtain ⟨kept, settled, outstanding⟩ := owned.of_grown grown minimal tables'
    (samePmm ▸ owned.counted) (pageAt base virt)
    (fun page member frame mapped => .inl ⟨member, (changes page member frame mapped).2⟩)
  have extended : Extended heap roots ram ram' := ⟨kept, settled, outstanding⟩
  refine ⟨isFound, extended, entries, fun frame mapped outside => ?_, fun addr used noTable =>
    grown.bytes addr (unplaced_of_grown grown minimal used noTable), sameTables, samePmm⟩
  have member : PageOf roots (pageAt base virt) := pageOf_pageAt based virt
  refine ⟨extended.inUse (owned.inUse member mapped outside), fun page pageMember still => ?_⟩
  obtain ⟨other, before⟩ := changes page pageMember frame still
  exact other (owned.page_eq pageMember member before mapped outside)

theorem succeeds_freePage {ε : Type} (below : frame < 2 ^ 32) (ram : Ram) :
    succeeds (freePage frame : RamCall ε Unit) (fun _ ram' =>
      ram'.events = .free frame :: ram.events ∧
        (frame % PAGE_SIZE = 0 → ram'.pmm.IsFree frame)) ram := by
  have inBitmap : frame / PAGE_SIZE / 64 < MAX_PAGES / 64 := by
    simp only [PAGE_SIZE, MAX_PAGES]
    omega
  obtain ⟨pmm, freed⟩ : ∃ pmm, ram.pmm.freePage frame = some pmm := ⟨_, if_pos inBitmap⟩
  refine ⟨(), { ram with pmm := pmm, events := .free frame :: ram.events }, ?_, rfl, ?_⟩
  · rw [freePage, freed]
  · intro aligned
    exact (BitmapAllocator.freePage_some freed aligned frame).mpr (.inr rfl)

/-- What `free_page` leaves behind of a loose frame: what else was loose still is. -/
structure Freed (heap roots : Set Nat) (frame : Nat) (ram ram' : Ram) : Prop where
  owned : Owned heap roots ram'
  same : SameLeaves roots ram ram'
  bytes : ram'.bytes = ram.bytes
  frees : ∀ other, ram'.pmm.IsFree other ↔ ram.pmm.IsFree other ∨ other = frame
  stays : ∀ other, other ≠ frame → Loose heap roots ram other → Loose heap roots ram' other

theorem Owned.succeeds_freePage {ε : Type} (owned : Owned heap roots ram)
    (loose : Loose heap roots ram frame) :
    succeeds (freePage frame : RamCall ε Unit) (fun _ => Freed heap roots frame ram) ram := by
  have freed : wp (freePage frame : RamCall ε Unit) (fun _ => Freed heap roots frame ram) ram := by
    refine wp_freePage loose.inUse.aligned fun pmm counter frees => ?_
    have stays : ∀ other, other ≠ frame → ¬ ram.pmm.IsFree other → ¬ pmm.IsFree other := by
      intro other different used isFree
      exact ((frees other).mp isFree).elim used different
    have busyNe : ∀ other, Busy heap roots ram other → other ≠ frame := by
      rintro other busy rfl
      exact loose.not_busy busy
    obtain ⟨kept, same, wasTable⟩ :=
      @Owned.elsewhere heap roots ram { ram with pmm := pmm, events := .free frame :: ram.events }
        owned (fun _ _ => rfl)
        (fun other busy => stays other (busyNe other busy) (owned.not_isFree_of_busy busy))
        (owned.counted.give loose.inUse.used loose.inUse.aligned counter frees)
        ⟨loose.inUse.outstanding, owned.disciplined⟩
        (fun other busy => ⟨fun out => ⟨(busyNe other busy).symm, out⟩, And.right⟩)
    refine ⟨kept, same, rfl, frees, fun other different isLoose => ⟨⟨isLoose.inUse.aligned,
      isLoose.inUse.below, stays other different isLoose.inUse.used,
      fun isTable => isLoose.inUse.noTable (wasTable other isTable), isLoose.inUse.outside,
      different.symm, isLoose.inUse.outstanding⟩, fun page member mapped => ?_⟩⟩
    rw [frameAt_of_sameLeaves same member] at mapped
    exact isLoose.unmapped page member mapped
  exact succeeds_mono (succeeds_and_wp (Mm.succeeds_freePage loose.inUse.below ram) freed)
    fun _ _ both => both.2

theorem exists_pagePath {path : List Index} (length : path.length = 4) :
    ∃ virt, pagePath virt = path := by
  obtain ⟨first, second, third, fourth, rfl⟩ := List.length_eq_four.mp length
  refine ⟨first * 2 ^ 39 + second * 2 ^ 30 + third * 2 ^ 21 + fourth * 2 ^ 12, ?_⟩
  simp only [pagePath, tableIndices, pageIndex, List.cons_append, List.nil_append,
    List.cons.injEq, Fin.ext_iff, Fin.ofNat]
  exact ⟨by omega, by omega, by omega, by omega, trivial⟩

/-- A new address space: it has a root of its own, and no page of it is mapped. -/
structure NewSpace (heap roots : Set Nat) (ram : Ram) (fresh : Nat) (ram' : Ram) : Prop where
  owned : Owned heap (insert fresh roots) ram'
  free : ram.pmm.IsFree fresh
  isNew : fresh ∉ roots
  same : SameLeaves roots ram ram'
  empty : ∀ path : List Index, path.length = 4 → frameAt ram' (fresh, path) = none
  spends : Spends 1 ram ram'
  bytes : ∀ addr, ¬ ram.pmm.IsFree (PAGE_SIZE * (addr / PAGE_SIZE)) →
    ¬ IsTable roots ram (PAGE_SIZE * (addr / PAGE_SIZE)) → ram'.bytes addr = ram.bytes addr

theorem wp_allocTablePage_spends {ε : Type} (ram : Ram) :
    wp (allocTablePage : RamCall ε (Option Nat)) (fun _ ram' => Spends 1 ram ram') ram := by
  rw [allocTablePage, wp_bind]
  refine wp_allocPage (fun _ => (wp_pure _).mpr (Spends.of_pmm_eq rfl 1)) ?_
  intro fresh pmm free frees counter
  dsimp only
  rw [zeroFrame, wp_bind_modify, wp_pure]
  exact Spends.take free frees counter

theorem Owned.wp_allocTablePage {ε : Type} (owned : Owned heap roots ram) :
    wp (allocTablePage : RamCall ε (Option Nat)) (fun result ram' =>
      (result = .ok none ∧ ram' = ram) ∨
        ∃ fresh, result = .ok (some fresh) ∧ NewSpace heap roots ram fresh ram' ∧
          ∀ frame, ¬ ram.pmm.IsFree frame → ¬ IsTable roots ram frame →
            ¬ ram'.pmm.IsFree frame ∧ ¬ IsTable (insert fresh roots) ram' frame) ram := by
  obtain ⟨place, tables, minimal⟩ := owned.places
  refine wp_mp (wp_allocTablePage_spends ram)
    (Arch.wp_allocTablePage tables (fun _ => .inl ⟨rfl, rfl⟩) ?_)
  intro fresh ram' place' free isPlace tables' grown same bare spends
  have isNew : fresh ∉ roots := by
    intro member
    have rooted := tables.place_root member
    exact tables.used fresh (by rw [rooted]; rfl) free
  have empty : ∀ path : List Index, path.length = 4 → frameAt ram' (fresh, path) = none := by
    intro path length
    obtain ⟨virt, rfl⟩ := exists_pagePath length
    exact bare virt
  have old : ∀ page, PageOf (insert fresh roots) page → ∀ frame,
      frameAt ram' page = some frame → PageOf roots page ∧ frameAt ram page = some frame := by
    rintro ⟨root, path⟩ ⟨rooted, length⟩ frame mapped
    rcases Set.mem_insert_iff.mp rooted with rfl | member
    · rw [empty path length] at mapped
      cases mapped
    · have pageOf : PageOf roots (root, path) := ⟨member, length⟩
      rw [frameAt_of_sameLeaves same pageOf] at mapped
      exact ⟨pageOf, mapped⟩
  obtain ⟨kept, settled, -⟩ := owned.of_grown grown minimal tables' (spends owned.counted).1
    (fresh, []) fun page member frame mapped => .inl (old page member frame mapped)
  exact .inr ⟨fresh, rfl, ⟨kept, free, isNew, same, empty, spends, fun addr used noTable =>
    grown.bytes addr (unplaced_of_grown grown minimal used noTable)⟩, settled⟩

end Cyllor.Mm
