import Cyllor.Mm.BareMachine
import Cyllor.Mm.Protect
import Cyllor.Mm.RangeEffects

/-!
Contract: `do_mmap` maps its whole range, or nothing.

Owns:
- `Served` and `Unserved`, what the caller may expect of a success and of `ENOMEM`;
- the numbers of free frames for which the call keeps to that.

The call takes a frame for each page, and `map_user_page` takes further frames for the tables
of the page. It ignores that there are none, and then the page stays unmapped. The next page
meets the lack of frames and the call gives everything back; but after the last page there is
no next one.
-/

namespace Cyllor.Mm

open Cyllor.Arch LinkForest

variable {target virt : Nat} {contents : Nat → List UInt8}

variable {state after : State} {pid root : Nat} {process : Process}

/-- Every page of the range is mapped to a frame that no other page is mapped to, and the
areas of the process give the protection there. -/
structure Served (state : State) (root id target length prot : Nat) (after : State) : Prop where
  mapped : ∀ virt, target ≤ virt → virt < target + roundUp length →
    (translateUserVa after.ram root virt).isSome
  own : ∀ virt, target ≤ virt → virt < target + roundUp length → ∀ frame,
    leaf after.ram root virt = some frame → ∀ page, PageOf state.rootSet page →
      frameAt after.ram page = some frame → page = pageAt root virt
  areas : ∀ virt, target ≤ virt → virt < target + roundUp length →
    ((after.vmms id).find virt).map Vma.prot = some prot

/-- The frames that are free before the call, and those of the pages that it replaces. -/
def State.Available (state : State) (pid root target length flags frame : Nat) : Prop :=
  state.ram.pmm.IsFree frame ∨ ∃ index < replacedPages length flags,
    state.givesBack pid target index ∧
      leaf state.ram root (target + PAGE_SIZE * index) = some frame

/-- How many frames are available to the call. -/
def State.available (state : State) (pid root target length flags : Nat) : Nat :=
  state.ram.pmm.clearPages.card + returned state.ram root target (state.givesBack pid target)
    (replacedPages length flags)

/-- No page of the range is mapped, and every frame that was available is free, unless it
is a table now. -/
structure Unserved (state : State) (pid root target length flags : Nat) (after : State) :
    Prop where
  unmapped : ∀ virt, target ≤ virt → virt < target + roundUp length →
    translateUserVa after.ram root virt = none
  free : ∀ frame, state.Available pid root target length flags frame →
    after.ram.pmm.IsFree frame ∨ IsTable state.rootSet after.ram frame

def MapsAllOrNothing (state : State) (pid root id target length prot flags : Nat)
    (result : Except Errno Nat) (after : State) : Prop :=
  (∀ value, result = .ok value → value = target ∧ Served state root id target length prot after) ∧
    (result = .error .ENOMEM → Unserved state pid root target length flags after)

/-! ### The outcomes -/

theorem translateUserVa_eq_none (ram : Ram) (root virt : Nat) :
    translateUserVa ram root virt = none ↔ leaf ram root virt = none := by
  rw [translateUserVa, translate_eq_leaf, Option.map_eq_none_iff]

theorem find_mappedAreas {vmm : Vmm VmaName} (wellFormed : vmm.WellFormed) {len prot flags : Nat}
    {fd offset : Int} (lower : target ≤ virt) (upper : virt < target + len) :
    ((mappedAreas vmm target len prot flags fd offset).find virt).map Vma.prot = some prot := by
  have attrs : ((mappedAreas vmm target len prot flags fd offset).attrsAt virt).map
      Vmm.Attrs.prot = some prot := by
    rw [mappedAreas, wellFormed.attrsAt_map (by omega), Vmm.VmmCall.meaning, if_pos ⟨lower, upper⟩]
    rfl
  rw [Vmm.attrsAt, Option.map_map] at attrs
  exact attrs

section

variable {heap roots : Set Nat} {attr : PageAttr} {start ram : Ram} {all : List (Nat × Nat)}
  (fresh : Fresh heap roots root target attr contents start all ram)

include fresh

theorem Fresh.exists_entry {length : Nat} (isLength : all.length = roundUp length / PAGE_SIZE)
    (aligned : target % PAGE_SIZE = 0) (lower : target ≤ virt)
    (upper : virt < target + roundUp length) :
    ∃ entry ∈ all, pageAt root virt = pageAt root entry.1 := by
  have inside : pageAt root virt ∈ Span root target all.length := by
    rw [isLength]
    exact pageAt_mem_span_roundUp aligned lower upper
  rw [← fresh.filling.targets] at inside
  exact inside

theorem Fresh.exists_frame {length : Nat}
    (mapped : ∀ entry ∈ all, leaf ram root entry.1 = some entry.2)
    (isLength : all.length = roundUp length / PAGE_SIZE) (aligned : target % PAGE_SIZE = 0)
    (lower : target ≤ virt) (upper : virt < target + roundUp length) :
    ∃ frame, leaf ram root virt = some frame ∧ frame ∉ heap := by
  obtain ⟨entry, listed, samePage⟩ := fresh.exists_entry isLength aligned lower upper
  have isFrame : leaf ram root virt = some entry.2 :=
    (congrArg (frameAt ram) samePage).trans (mapped entry listed)
  refine ⟨entry.2, isFrame, ?_⟩
  rcases fresh.filling.held entry listed with ⟨-, outside⟩ | ⟨-, loose⟩
  · exact outside
  · exact loose.inUse.outside

end

section Outcome

variable {middle : State} {process' : Process} {target length prot flags : Nat} {fd offset : Int}
  {file : Option (List UInt8)}

section

variable (ready : Ready state pid root process target length flags process' middle)

include ready

theorem Ready.isFree_iff (frame : Nat) :
    middle.ram.pmm.IsFree frame ↔ state.Available pid root target length flags frame :=
  ready.vacated.free frame

theorem Ready.card_eq :
    middle.ram.pmm.clearPages.card = state.available pid root target length flags :=
  ready.vacated.card

theorem Ready.demand_eq (based : root ∈ state.rootSet) (count : Nat) :
    tableDemand middle.ram root target count = tableDemand state.ram root target count :=
  ready.vacated.sameTables.tableDemand_eq based target count

theorem Ready.served (based : root ∈ state.rootSet) (aligned : target % PAGE_SIZE = 0)
    {all : List (Nat × Nat)} {ram : Ram} (isLength : all.length = roundUp length / PAGE_SIZE)
    (fresh : Fresh middle.heap.frames middle.rootSet root target (protToPageAttr prot) contents
      middle.ram all ram)
    (mapped : ∀ entry ∈ all, leaf ram root entry.1 = some entry.2) :
    Served state root process.vmm target length prot
      (({ middle with ram := ram } : State).setVmm process'.vmm
        (mappedAreas (middle.vmms process'.vmm) target (roundUp length) prot flags fd offset)) := by
  have basedNow : root ∈ middle.rootSet := by rw [ready.rootSet_eq]; exact based
  refine ⟨fun virt lower upper => ?_, fun virt lower upper frame isFrame page member same => ?_,
    fun virt lower upper => ?_⟩
  · obtain ⟨frame, isFrame, -⟩ := fresh.exists_frame mapped isLength aligned lower upper
    rw [isSome_translate]
    exact Option.isSome_of_eq_some isFrame
  · obtain ⟨other, isOther, outside⟩ := fresh.exists_frame mapped isLength aligned lower upper
    obtain rfl := Option.some.inj (isOther.symm.trans isFrame)
    rw [← ready.rootSet_eq] at member
    exact fresh.filling.owned.page_eq member (pageOf_pageAt basedNow virt) same isFrame outside
  · rw [← ready.sameVmm]
    show ((Function.update middle.vmms process'.vmm _ process'.vmm).find virt).map Vma.prot = _
    rw [Function.update_self]
    exact find_mappedAreas (ready.effect.sound.areas process'.vmm) lower upper

theorem Ready.unserved (based : root ∈ state.rootSet) (aligned : target % PAGE_SIZE = 0)
    (vacant : flags &&& MAP_FIXED = 0 → ∀ virt, target ≤ virt → virt < target + roundUp length →
      translateUserVa state.ram root virt = none)
    {ram : Ram}
    (back : GivenBack middle.heap.frames middle.rootSet root target (roundUp length / PAGE_SIZE)
      middle.ram ram) :
    Unserved state pid root target length flags { middle with ram := ram } := by
  have basedNow : root ∈ middle.rootSet := by rw [ready.rootSet_eq]; exact based
  refine ⟨fun virt lower upper => ?_, fun frame isAvailable => ?_⟩
  · have member := pageOf_pageAt based virt
    have unmapped : leaf middle.ram root virt = none := by
      by_cases fixed : flags &&& MAP_FIXED = 0
      · have count : replacedPages length flags = 0 := if_neg (not_not.mpr fixed)
        have vacated := ready.vacated.cleared _ member
        rw [count] at vacated
        have outside : pageAt root virt ∉ Span root target 0 := by
          rintro ⟨index, below, -⟩
          exact absurd below (Nat.not_lt_zero index)
        refine (vacated.2 outside).trans ?_
        exact (translateUserVa_eq_none _ _ _).mp (vacant fixed virt lower upper)
      · have count : replacedPages length flags = roundUp length / PAGE_SIZE := if_pos fixed
        refine (ready.vacated.cleared _ member).1 ?_
        rw [count]
        exact pageAt_mem_span_roundUp aligned lower upper
    obtain ⟨done, -, -, cleared, -⟩ := back.cleared
    rw [translateUserVa_eq_none]
    by_cases seen : pageAt root virt ∈ Span root target done
    · exact (cleared _ (pageOf_pageAt basedNow virt)).1 seen
    · exact ((cleared _ (pageOf_pageAt basedNow virt)).2 seen).trans unmapped
  · rw [← ready.rootSet_eq]
    exact back.accounted frame ((ready.isFree_iff frame).mpr isAvailable)

end

theorem Process.aligned_mmapTarget (process : Process) {addr : Nat}
    (placed : flags &&& MAP_FIXED ≠ 0 → addr ≠ 0 ∧ addr % PAGE_SIZE = 0) :
    process.mmapTarget addr flags % PAGE_SIZE = 0 := by
  rw [Process.mmapTarget]
  split
  case isTrue fixed => exact (placed fixed).2
  case isFalse => exact roundUp_aligned process.mmapNext

end Outcome

/-! ### The call -/

/-- `do_mmap` with arguments that it accepts, on a range below the end of the address space
that is unmapped or replaced, returns. It keeps to what the caller may expect exactly when the
available frames are enough for all pages and their tables, or too few for the pages and the
tables of all but the last. -/
theorem doMmap_mapsAllOrNothing_iff (sound : Sound state) (present : state.roots pid = some root)
    (nonzero : root ≠ 0) (found : state.processes pid = some process)
    {addr length prot flags : Nat} {fd offset : Int} (file : Option (List UInt8))
    (accepted : mmapRejects (roundUp length) prot flags fd offset = false)
    (placed : flags &&& MAP_FIXED ≠ 0 → addr ≠ 0 ∧ addr % PAGE_SIZE = 0)
    (inside : process.mmapTarget addr flags + roundUp length ≤ 2 ^ 48)
    (vacant : flags &&& MAP_FIXED = 0 → ∀ virt, process.mmapTarget addr flags ≤ virt →
      virt < process.mmapTarget addr flags + roundUp length →
        translateUserVa state.ram root virt = none) :
    Call.ends (doMmap pid addr length prot flags fd offset file) (fun result after =>
      (result = .ok (process.mmapTarget addr flags) ∨ result = .error .ENOMEM) ∧
      (MapsAllOrNothing state pid root process.vmm (process.mmapTarget addr flags) length prot flags
          result after ↔
        roundUp length / PAGE_SIZE + tableDemand state.ram root (process.mmapTarget addr flags)
            (roundUp length / PAGE_SIZE) ≤
          state.available pid root (process.mmapTarget addr flags) length flags ∨
        state.available pid root (process.mmapTarget addr flags) length flags <
          roundUp length / PAGE_SIZE + tableDemand state.ram root (process.mmapTarget addr flags)
            (roundUp length / PAGE_SIZE - 1))) state := by
  have based := sound.root_mem present
  have aligned := process.aligned_mmapTarget placed
  refine Call.ends_mono (sound.ends_doMmap present nonzero found file accepted placed inside) ?_
  generalize process.mmapTarget addr flags = target at *
  rintro result after ⟨process', middle, ready, enough, ram, outcome, isResult⟩
  cases outcome with
  | complete isLength fresh mapped enough =>
    rw [ready.card_eq, ready.demand_eq based] at enough
    obtain ⟨rfl, rfl⟩ := isResult
    refine ⟨.inl rfl, fun _ => .inl enough, fun _ => ⟨?_, by rintro ⟨⟩⟩⟩
    rintro _ ⟨⟩
    exact ⟨rfl, ready.served based aligned isLength fresh mapped⟩
  | @lastMissing all ram last isLast isLength fresh unmapped enough short =>
    rw [ready.card_eq, ready.demand_eq based] at enough short
    obtain ⟨rfl, rfl⟩ := isResult
    have before : roundUp length / PAGE_SIZE - 1 = last := by omega
    rw [before]
    refine ⟨.inl rfl, fun expected => ?_, fun frames => ?_⟩
    · -- the last page is not mapped
      obtain ⟨-, served⟩ := expected.1 target rfl
      have covers := mul_roundUp_div length
      rw [isLast] at covers
      have isMapped := served.mapped (target + PAGE_SIZE * last) (Nat.le_add_right _ _)
        (by simp only [PAGE_SIZE] at *; omega)
      rw [isSome_translate] at isMapped
      exact absurd (isMapped.symm.trans (congrArg Option.isSome unmapped)) (by decide)
    · omega
  | givenBack isLast back short =>
    rw [ready.card_eq, ready.demand_eq based] at short
    obtain ⟨rfl, rfl⟩ := isResult
    refine ⟨.inr rfl, fun _ => .inr ?_, fun _ => ⟨by rintro _ ⟨⟩, fun _ => ?_⟩⟩
    · rw [isLast, Nat.add_sub_cancel]
      rw [isLast] at short
      exact short
    · exact ready.unserved based aligned vacant back

theorem enough_eightFrames (flags : Nat) :
    1 + tableDemand (bareMachine (fewFrames 8)).ram 0x1000 USER_MMAP_BASE 1 ≤
      (bareMachine (fewFrames 8)).available 1 0x1000 USER_MMAP_BASE PAGE_SIZE flags := by
  have demand := tableDemand_le (bareMachine (fewFrames 8)).ram 0x1000 USER_MMAP_BASE 1
  have card : (bareMachine (fewFrames 8)).ram.pmm.clearPages.card = 8 :=
    (counted_fewFrames (by decide)).2
  rw [State.available, card]
  omega

theorem doMmap_mapsAllOrNothing_eightFrames :
    Call.ends (doMmap 1 0 PAGE_SIZE PROT_READ (MAP_PRIVATE ||| MAP_ANONYMOUS) (-1) 0 none)
      (fun result after => MapsAllOrNothing (bareMachine (fewFrames 8)) 1 0x1000 0 USER_MMAP_BASE
        PAGE_SIZE PROT_READ (MAP_PRIVATE ||| MAP_ANONYMOUS) result after)
      (bareMachine (fewFrames 8)) := by
  have isRound : roundUp PAGE_SIZE = PAGE_SIZE := by decide
  have isTarget : Process.mmapTarget ⟨0x401000, 0x401000, USER_MMAP_BASE, 0⟩ 0
      (MAP_PRIVATE ||| MAP_ANONYMOUS) = USER_MMAP_BASE := by decide
  refine Call.ends_mono (doMmap_mapsAllOrNothing_iff (sound_fewFrames (by decide))
    rfl (by decide) rfl none (by decide) (by decide) (by decide)
    (fun _ virt _ _ => (translateUserVa_eq_none _ _ _).mpr (leaf_bareMachine _ _ virt))) ?_
  rintro result after ⟨-, iff⟩
  rw [isTarget, isRound] at iff
  exact iff.mpr (.inl (enough_eightFrames _))

/-- With one free frame and no tables, `do_mmap` of one page takes the frame for the page,
finds none for its tables, and returns the address of a page that is not mapped. -/
theorem doMmap_leaves_page_unmapped : Sound (bareMachine (fewFrames 1)) ∧
    (∀ virt, translateUserVa (bareMachine (fewFrames 1)).ram 0x1000 virt = none) ∧
    ∃ after, doMmap 1 0 PAGE_SIZE (PROT_READ ||| PROT_WRITE) (MAP_PRIVATE ||| MAP_ANONYMOUS) (-1) 0
        none (bareMachine (fewFrames 1)) = some (.ok USER_MMAP_BASE, after) ∧
      translateUserVa after.ram 0x1000 USER_MMAP_BASE = none := by
  refine ⟨sound_fewFrames (by decide), fun virt => ?_, ?_⟩
  · rw [translateUserVa_eq_none]
    exact leaf_bareMachine (fewFrames 1) 0x1000 virt
  · decide +kernel

end Cyllor.Mm
