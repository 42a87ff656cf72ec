import Cyllor.Mm.BareMachine
import Cyllor.Mm.Protect
import Cyllor.Mm.RangeEffects

/-!
Contract: what the calls on a range of addresses do to the pages outside the range.

Owns:
- `Aliased`, a page outside a range that shares its table indices with a page of the range;
- `Framed`, that the pages outside the range keep their entries;
- when `do_munmap`, `do_mprotect` and `do_mmap` with `MAP_FIXED` keep to that.

The indices of a walk are bits 12 to 47 of the address, and no call checks the bits above.
A page of the range at or beyond `2 ^ 48` therefore is a page below it, under another name.
-/

namespace Cyllor.Mm

open Cyllor.Arch LinkForest
open Call hiding pure bind

variable {heap roots : Set Nat} {place : Place} {ram ram' ram'' : Ram} {base : Nat} {ε : Type}

/-! ### Unmapping by entries -/

/-- The tables are placed, and no page is mapped to one of them. -/
structure Separated (roots : Set Nat) (place : Place) (ram : Ram) : Prop where
  tables : Tables ram roots place
  unplaced : ∀ page, PageOf roots page → ∀ frame, frameAt ram page = some frame →
    place frame = none

theorem Owned.separated (owned : Owned heap roots ram) : ∃ place, Separated roots place ram := by
  obtain ⟨place, tables, reached⟩ := owned.places
  refine ⟨place, tables, fun page member frame mapped => ?_⟩
  have noTable : ¬ IsTable roots ram frame := by
    rcases owned.fits page member frame mapped with inHeap | ⟨inUse, -⟩
    · exact (owned.heapKept frame inHeap).2
    · exact inUse.noTable
  cases found : place frame with
  | none => rfl
  | some home => exact absurd (reached frame (by rw [found]; rfl)) noTable

/-- The pages of the set have no entry, and the others have the entries that they had. -/
structure Removed (roots : Set Nat) (pages : Set Page) (ram ram' : Ram) : Prop where
  inside : ∀ page, PageOf roots page → page ∈ pages → entryAt ram' page.1 page.2 = none
  outside : ∀ page, PageOf roots page → page ∉ pages →
    entryAt ram' page.1 page.2 = entryAt ram page.1 page.2

theorem Removed.trans {pages more : Set Page} (first : Removed roots pages ram ram')
    (second : Removed roots more ram' ram'') : Removed roots (pages ∪ more) ram ram'' where
  inside page member inUnion := by
    by_cases later : page ∈ more
    · exact second.inside page member later
    · exact (second.outside page member later).trans
        (first.inside page member (inUnion.resolve_right later))
  outside page member notIn := by
    rw [Set.mem_union, not_or] at notIn
    exact (second.outside page member notIn.2).trans (first.outside page member notIn.1)

theorem EntrySet.removed {virt : Nat} (set : EntrySet roots base virt none ram ram') :
    Removed roots {pageAt base virt} ram ram' where
  inside page _ isPage := by
    rw [Set.mem_singleton_iff.mp isPage]
    exact set.1
  outside page member other :=
    set.2 page.1 member.1 page.2 member.2 fun isPage => other (Prod.ext isPage.1 isPage.2)

theorem Separated.wp_unmapUserPage (separated : Separated roots place ram) (based : base ∈ roots)
    (virt : Nat) :
    wp (unmapUserPage base virt : RamCall ε (Option Nat)) (fun result ram' =>
      result = .ok (leaf ram base virt) ∧ Separated roots place ram' ∧
        Removed roots {pageAt base virt} ram ram') ram := by
  refine wp_mono (wp_of_succeeds (succeeds_unmapPage separated.tables based virt)) ?_
  rintro _ after ⟨_, rfl, rfl, -, -, tables, -, entries⟩
  have set := entries.leafSet
  refine ⟨rfl, ⟨tables, fun page member frame mapped => ?_⟩, EntrySet.removed entries⟩
  by_cases isPage : page = pageAt base virt
  · rw [isPage] at mapped
    cases set.1.symm.trans mapped
  · rw [frameAt_of_leafSet set member isPage] at mapped
    exact separated.unplaced page member frame mapped

theorem Separated.wp_freePage (separated : Separated roots place ram) {frame : Nat}
    (aligned : frame % PAGE_SIZE = 0) (unplaced : place frame = none) :
    wp (freePage frame : RamCall ε Unit) (fun result ram' => result = .ok () ∧
      Separated roots place ram' ∧ ram'.bytes = ram.bytes) ram := by
  refine Mm.wp_freePage aligned fun pmm _ frees => ⟨rfl, ⟨?_, ?_⟩, rfl⟩
  · refine ⟨separated.tables.placed, separated.tables.frames, fun node isPlaced free => ?_⟩
    rcases (frees node).mp free with before | rfl
    · exact separated.tables.used node isPlaced before
    · rw [unplaced] at isPlaced
      cases isPlaced
  · exact separated.unplaced

theorem Removed.of_bytes {pages : Set Page} (removed : Removed roots pages ram ram')
    (same : ram''.bytes = ram'.bytes) : Removed roots pages ram ram'' where
  inside page member isPage := (entryAt_of_bytes same _ _).trans (removed.inside page member isPage)
  outside page member other := (entryAt_of_bytes same _ _).trans (removed.outside page member other)

/-- The loop of `do_munmap`, on any range and for any choice of frames to give back. -/
theorem Separated.wp_unmapRange (separated : Separated roots place ram) (based : base ∈ roots)
    (addr count : Nat) (frees : Nat → Bool) :
    wp (unmapRange base addr frees count : RamCall ε Unit) (fun result ram' =>
      result = .ok () ∧ Removed roots (Span base addr count) ram ram') ram := by
  have loop : wp (unmapRange base addr frees count : RamCall ε Unit) (fun result after =>
      result = .ok () ∧ Separated roots place after ∧
        Removed roots (Span base addr count) ram after) ram := by
    refine wp_iterate_returns (fun index after => Separated roots place after ∧
      Removed roots (Span base addr index) ram after) ⟨separated, ?_, fun _ _ _ => rfl⟩ ?_
    · rintro page - ⟨index, below, -⟩
      exact absurd below (Nat.not_lt_zero index)
    · rintro index - state ⟨kept, removed⟩
      rw [wp_bind_word]
      intro _
      rw [wp_bind]
      refine wp_mono (kept.wp_unmapUserPage based _) ?_
      rintro result after ⟨rfl, keptNow, now⟩
      have both : Removed roots (Span base addr (index + 1)) ram after := by
        rw [span_succ]
        exact removed.trans now
      cases found : leaf state base (addr + PAGE_SIZE * index) with
      | none => exact (wp_pure _).mpr ⟨rfl, keptNow, both⟩
      | some frame =>
        have member := pageOf_pageAt based (addr + PAGE_SIZE * index)
        dsimp only
        rw [wp_ite]
        refine ⟨fun _ => ?_, fun _ => (wp_pure _).mpr ⟨rfl, keptNow, both⟩⟩
        refine wp_mono (keptNow.wp_freePage (frameAt_bounds member found).1
          (kept.unplaced _ member frame found)) ?_
        rintro _ final ⟨rfl, keptFinal, bytes⟩
        exact ⟨rfl, keptFinal, both.of_bytes bytes⟩
  refine wp_mono loop ?_
  exact fun _ _ reached => ⟨reached.1, reached.2.2⟩

/-! ### Pages with two names -/

/-- The page of an address below the end of the address space lies outside the range, and a
page of the range has the same indices. -/
def Aliased (addr length virt : Nat) : Prop :=
  virt < 2 ^ 48 ∧ ¬ (addr ≤ virt ∧ virt < addr + roundUp length) ∧
    ∃ index < roundUp length / PAGE_SIZE, pagePath virt = pagePath (addr + PAGE_SIZE * index)

/-- The pages outside the range keep their entries, so their frames and attributes. -/
def Framed (roots : Set Nat) (root addr length : Nat) (ram ram' : Ram) : Prop :=
  ∀ other ∈ roots, ∀ virt < 2 ^ 48,
    ¬ (other = root ∧ addr ≤ virt ∧ virt < addr + roundUp length) →
      entryAt ram' other (pagePath virt) = entryAt ram other (pagePath virt)

/-- A range below the end of the address space has no alias, and no other range that does
not start at 0. -/
theorem inside_iff_no_alias {addr : Nat} (length : Nat) (positive : 0 < addr)
    (aligned : addr % PAGE_SIZE = 0) (nonempty : length ≠ 0) :
    addr + roundUp length ≤ 2 ^ 48 ↔ ∀ virt, ¬ Aliased addr length virt := by
  have rounded := mul_roundUp_div length
  constructor
  · rintro inside virt ⟨below, outside, index, inRange, samePath⟩
    have same := (pagePath_eq_iff _ _).mp samePath
    simp only [roundUp, PAGE_SIZE] at *
    omega
  · intro none
    by_contra beyond
    have pages : 0 < roundUp length / PAGE_SIZE := by
      simp only [roundUp, PAGE_SIZE]
      omega
    by_cases low : addr ≤ 2 ^ 48
    · -- the page at `2 ^ 48` is the page at 0
      refine none 0 ⟨by decide, by omega, (2 ^ 48 - addr) / PAGE_SIZE, ?_, ?_⟩
      · simp only [roundUp, PAGE_SIZE] at *
        omega
      · rw [pagePath_eq_iff]
        simp only [PAGE_SIZE] at *
        omega
    · refine none (addr % 2 ^ 48) ⟨Nat.mod_lt _ (by decide), by omega, 0, pages, ?_⟩
      rw [pagePath_eq_iff]
      simp only [PAGE_SIZE] at *
      omega

/-- When only pages of the range changed, the others kept their entries if the aliased ones
did. -/
theorem framed_iff_aliased {root addr length : Nat} (based : root ∈ roots)
    (outside : ∀ page, PageOf roots page →
      page ∉ Span root addr (roundUp length / PAGE_SIZE) →
        entryAt ram' page.1 page.2 = entryAt ram page.1 page.2) :
    Framed roots root addr length ram ram' ↔ ∀ virt, Aliased addr length virt →
      entryAt ram' root (pagePath virt) = entryAt ram root (pagePath virt) := by
  constructor
  · rintro framed virt ⟨below, beyond, -⟩
    exact framed root based virt below fun inRange => beyond inRange.2
  · intro kept other member virt below beyond
    by_cases inSpan : pageAt other virt ∈ Span root addr (roundUp length / PAGE_SIZE)
    · obtain ⟨index, inRange, samePage⟩ := inSpan
      obtain ⟨rfl, samePath⟩ := Prod.mk.inj samePage
      exact kept virt ⟨below, fun range => beyond ⟨rfl, range⟩, index, inRange, samePath⟩
    · exact outside (pageAt other virt) (pageOf_pageAt member virt) inSpan

theorem framed_refl (roots : Set Nat) (root addr length : Nat) (ram : Ram) :
    Framed roots root addr length ram ram := fun _ _ _ _ _ => rfl

theorem entryAt_eq_none_iff (ram : Ram) (root virt : Nat) :
    entryAt ram root (pagePath virt) = none ↔ leaf ram root virt = none := by
  rw [leaf, walk_eq_map_entryAt _ _ (by simp [pagePath]), Option.map_eq_none_iff]

/-! ### The calls -/

/-- A call on a range of addresses. -/
inductive RangeCall where
  | munmap
  | mprotect (prot : Nat)
  | mmapFixed (prot flags : Nat) (fixed : flags &&& MAP_FIXED ≠ 0) (fd offset : Int)
      (file : Option (List UInt8))

def RangeCall.run (pid addr length : Nat) : RangeCall → MmCall Nat
  | .munmap => doMunmap pid addr length
  | .mprotect prot => doMprotect pid addr length prot
  | .mmapFixed prot flags _ fd offset file => doMmap pid addr length prot flags fd offset file

/-- The aliased pages have nothing that the call would take away: they are not mapped, they
have the attributes that they get, or there are none. -/
def RangeCall.Spares (ram : Ram) (root addr length : Nat) : RangeCall → Prop
  | .munmap => ∀ virt, Aliased addr length virt → leaf ram root virt = none
  | .mprotect prot => ∀ virt, Aliased addr length virt → ∀ frame,
      leaf ram root virt = some frame →
        entryAt ram root (pagePath virt) = some (pageEntry frame (protToPageAttr prot))
  | .mmapFixed .. => ∀ virt, ¬ Aliased addr length virt

def RangeCall.Replaces : RangeCall → Prop
  | .mmapFixed .. => True
  | _ => False

section Calls

variable {state : State} {pid root : Nat} {process : Process}

/-- The call keeps the pages outside the range if it spares the aliased ones, and if it succeeds,
only then. -/
def RangeCall.FramedIff (call : RangeCall) (state : State) (root addr length : Nat)
    (result : Except Errno Nat) (after : State) : Prop :=
  (call.Spares state.ram root addr length →
    Framed state.rootSet root addr length state.ram after.ram) ∧
  ((∃ value, result = .ok value) → Framed state.rootSet root addr length state.ram after.ram →
    call.Spares state.ram root addr length)

theorem RangeCall.framedIff_failed (call : RangeCall) (addr length : Nat) (error : Errno) :
    call.FramedIff state root addr length (.error error) state :=
  ⟨fun _ => framed_refl _ _ _ _ _, by rintro ⟨_, ⟨⟩⟩⟩

section

variable (sound : Sound state) (present : state.roots pid = some root)

include sound present

theorem wp_doMunmap_framed (found : state.processes pid = some process) (addr length : Nat) :
    wp (doMunmap pid addr length) (RangeCall.munmap.FramedIff state root addr length) state := by
  have based := sound.root_mem present
  have failed := @RangeCall.framedIff_failed state root .munmap addr length
  obtain ⟨place, separated⟩ := sound.owned.separated
  rw [doMunmap, wp_ite]
  refine ⟨fun _ => (wp_throw _).mpr (failed _), fun _ => ?_⟩
  rw [wp_bind_alignUp]
  intro _
  rw [wp_bind_gets, State.rootOf_eq present, wp_ite]
  refine ⟨fun _ => (wp_throw _).mpr (failed _), fun _ => ?_⟩
  rw [wp_bind_gets, wp_bind_onRam]
  refine wp_mono (separated.wp_unmapRange based addr _ _) ?_
  rintro _ ram ⟨rfl, removed⟩
  have framed : Framed state.rootSet root addr length state.ram ram ↔
      RangeCall.munmap.Spares state.ram root addr length := by
    rw [framed_iff_aliased based removed.outside]
    refine forall_congr' fun virt => imp_congr_right fun aliased => ?_
    obtain ⟨-, -, index, inRange, samePath⟩ := aliased
    have gone := removed.inside (pageAt root virt) (pageOf_pageAt based virt)
      ⟨index, inRange, Prod.ext rfl samePath⟩
    rw [← entryAt_eq_none_iff, show entryAt ram root (pagePath virt) = none from gone]
    exact eq_comm
  have foundNow : ({ state with ram := ram } : State).processes pid = some process := found
  dsimp only
  rw [wp_bind_changeVmm foundNow]
  intro vmm _
  rw [wp_bind_modify, wp_pure]
  obtain ⟨segs, attach, isAfter, -⟩ := State.detachMappingsInRange_eq
    ({ state with ram := ram }.setVmm process.vmm vmm) pid addr (roundUp length)
  rw [isAfter]
  exact ⟨framed.mpr, fun _ => framed.mp⟩

theorem wp_doMprotect_framed (found : state.processes pid = some process) (addr length prot : Nat) :
    wp (doMprotect pid addr length prot)
      ((RangeCall.mprotect prot).FramedIff state root addr length) state := by
  have based := sound.root_mem present
  have failed := @RangeCall.framedIff_failed state root (.mprotect prot) addr length
  obtain ⟨place, tables⟩ := sound.owned.tables
  refine wp_mono (wp_of_endsOr (endsOr_doMprotect present found tables based addr length prot)) ?_
  rintro _ after (⟨error, rfl, rfl, -⟩ | ⟨rfl, -, -, mapped, ram, vmm, remapped, -, rfl⟩)
  · exact failed error
  · have targets := targets_mappings state.ram root addr (roundUp length / PAGE_SIZE)
    have others := remapped.outside
    rw [targets] at others
    have framed : Framed state.rootSet root addr length state.ram ram ↔
        (RangeCall.mprotect prot).Spares state.ram root addr length := by
      rw [framed_iff_aliased based others]
      refine forall_congr' fun virt => imp_congr_right fun aliased => ?_
      obtain ⟨-, -, index, inRange, samePath⟩ := aliased
      obtain ⟨frame, isFrame⟩ := Option.isSome_iff_exists.mp (mapped index inRange)
      rw [leaf, samePath, ← leaf, isFrame, remapped.entryAt_mappings inRange isFrame]
      constructor
      · intro same other isOther
        rw [← Option.some.inj isOther]
        exact same.symm
      · exact fun same => (same frame rfl).symm
    exact ⟨framed.mpr, fun _ => framed.mp⟩

theorem wp_mmapFixed_framed (nonzero : root ≠ 0) (found : state.processes pid = some process)
    {addr length flags : Nat} (prot : Nat) (fixed : flags &&& MAP_FIXED ≠ 0) (fd offset : Int)
    (file : Option (List UInt8)) (alone : ∀ virt, ¬ Aliased addr length virt) :
    wp (doMmap pid addr length prot flags fd offset file) (fun _ after =>
      Framed state.rootSet root addr length state.ram after.ram) state := by
  have based := sound.root_mem present
  have unchanged := framed_refl state.rootSet root addr length state.ram
  by_cases accepted : mmapRejects (roundUp length) prot flags fd offset = false
  · by_cases misplaced : addr = 0 ∨ addr % PAGE_SIZE ≠ 0
    · rw [doMmap, wp_bind_alignUp]
      intro _
      rw [accepted, if_neg (by decide), wp_bind, mmapPlace, wp_bind_processOf found,
        if_pos fixed, if_pos misplaced, wp_throw]
      exact unchanged
    · obtain ⟨notNull, aligned⟩ : addr ≠ 0 ∧ addr % PAGE_SIZE = 0 := by
        rw [not_or, not_not] at misplaced
        exact misplaced
      have nonempty : length ≠ 0 := by
        rintro rfl
        rw [mmapRejects, show roundUp 0 = 0 from rfl] at accepted
        simp at accepted
      have isTarget : process.mmapTarget addr flags = addr := if_pos fixed
      have inside := (inside_iff_no_alias length (Nat.pos_of_ne_zero notNull) aligned nonempty).mpr
        alone
      refine wp_of_ends (ends_mono (sound.ends_doMmap present nonzero found file accepted
        (fun _ => ⟨notNull, aligned⟩) (by rw [isTarget]; exact inside)) ?_)
      rw [isTarget]
      rintro result after ⟨process', middle, ready, filled⟩
      have untouched := ready.untouched rfl filled
      rw [framed_iff_aliased based fun page member outside => untouched.entryAt member outside]
      exact fun virt aliased => absurd aliased (alone virt)
  · rw [Bool.not_eq_false] at accepted
    rw [doMmap, wp_bind_alignUp]
    intro _
    rw [accepted, if_pos rfl, wp_throw]
    exact unchanged

end

/-- A call on a range leaves the pages outside the range as they are when it spares the
aliased ones; and when `do_munmap` or `do_mprotect` succeeds, only then. -/
theorem rangeCall_framed_iff (sound : Sound state) (present : state.roots pid = some root)
    (nonzero : root ≠ 0) (found : state.processes pid = some process) (call : RangeCall)
    (addr length : Nat) :
    wp (call.run pid addr length) (fun result after =>
      (call.Spares state.ram root addr length →
        Framed state.rootSet root addr length state.ram after.ram) ∧
      (¬ call.Replaces → (∃ value, result = .ok value) →
        Framed state.rootSet root addr length state.ram after.ram →
          call.Spares state.ram root addr length)) state := by
  cases call with
  | munmap =>
    exact wp_mono (wp_doMunmap_framed sound present found addr length)
      fun _ _ framed => ⟨framed.1, fun _ => framed.2⟩
  | mprotect prot =>
    exact wp_mono (wp_doMprotect_framed sound present found addr length prot)
      fun _ _ framed => ⟨framed.1, fun _ => framed.2⟩
  | mmapFixed prot flags fixed fd offset file =>
    by_cases alone : ∀ virt, ¬ Aliased addr length virt
    · exact wp_mono (wp_mmapFixed_framed sound present nonzero found prot fixed fd offset
        file alone) fun _ _ framed => ⟨fun _ => framed, fun exact => absurd trivial exact⟩
    · exact fun _ _ _ => ⟨fun spares => absurd spares alone, fun exact => absurd trivial exact⟩

/-- The first process unmaps the lowest page of its stack; the page above is mapped. -/
theorem rangeCall_framed_stack : ∃ pmm state root,
    initMm plainMemmap = some (pmm, plainHeap.base) ∧
    (State.boot (fun _ => 0) pmm plainHeap).run [.spawn plainImage] = some state ∧
    (translateUserVa state.ram root (USER_STACK_TOP - USER_STACK_SIZE + PAGE_SIZE)).isSome ∧
    ends (RangeCall.munmap.run 1 (USER_STACK_TOP - USER_STACK_SIZE) PAGE_SIZE)
      (fun result after => result = .ok 0 ∧ Framed state.rootSet root
        (USER_STACK_TOP - USER_STACK_SIZE) PAGE_SIZE state.ram after.ram) state := by
  obtain ⟨pmm, state, root, booted, reached, started⟩ := exists_started
  have noAlias := (inside_iff_no_alias PAGE_SIZE (by decide) (by decide) (by decide)).mp
    (show USER_STACK_TOP - USER_STACK_SIZE + roundUp PAGE_SIZE ≤ 2 ^ 48 by decide)
  have framed := rangeCall_framed_iff started.sound started.present started.nonzero started.found
    .munmap (USER_STACK_TOP - USER_STACK_SIZE) PAGE_SIZE
  refine ⟨pmm, state, root, booted, reached, ?_, ?_⟩
  · rw [isSome_translate]
    exact started.stack _ (pageAt_mem_span (by decide) (by decide) (by decide))
  · refine ends_mono (ends_and_wp (started.sound.ends_doMunmap started.present started.found
      (by decide)) framed) ?_
    rintro result after ⟨⟨-, vacates⟩, frames, -⟩
    exact ⟨(vacates started.nonzero (by decide) (by decide)).1,
      frames fun virt aliased => absurd aliased (noAlias virt)⟩

/-- A page is mapped at `USER_MMAP_BASE`; `do_munmap` of the page `2 ^ 48` above it, where
nothing was ever mapped, succeeds and unmaps it. -/
theorem doMunmap_unmaps_alias : Sound (bareMachine (fewFrames 8)) ∧ ∃ middle after,
    doMmap 1 0 PAGE_SIZE (PROT_READ ||| PROT_WRITE) (MAP_PRIVATE ||| MAP_ANONYMOUS) (-1) 0 none
        (bareMachine (fewFrames 8)) = some (.ok USER_MMAP_BASE, middle) ∧
      doMunmap 1 (2 ^ 48 + USER_MMAP_BASE) PAGE_SIZE middle = some (.ok 0, after) ∧
      (translateUserVa middle.ram 0x1000 USER_MMAP_BASE).isSome ∧
      translateUserVa after.ram 0x1000 USER_MMAP_BASE = none := by
  refine ⟨sound_fewFrames (by decide), ?_⟩
  decide +kernel

end Calls

end Cyllor.Mm
