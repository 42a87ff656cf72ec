import Cyllor.Lib.LabelledRun
import Cyllor.Mm.Pmm

/-!
Contract: what the frame allocator hands out, over whole runs from boot.

Owns:
- `Counted`, that the count of free pages is the number of clear bits, kept by
  initialisation, reservation, allocation and release;
- which frames are free after boot: those of the usable regions below 2 GiB that are
  not in the kernel heap;
- the runs of allocations and releases that follow.
-/

namespace Cyllor.Mm

variable {pmm pmm' start : BitmapAllocator} {page frame : Nat}

namespace BitmapAllocator

def clearPages (pmm : BitmapAllocator) : Finset Nat :=
  (Finset.range MAX_PAGES).filter fun page => (pmm.bitmap (page / 64)).getLsbD (page % 64) = false

def Counted (pmm : BitmapAllocator) : Prop := pmm.freePages = pmm.clearPages.card

theorem mem_clearPages :
    page ∈ pmm.clearPages ↔ pmm.IsFree (PAGE_SIZE * page) := by
  have isPage : PAGE_SIZE * page / PAGE_SIZE = page := Nat.mul_div_cancel_left _ (by decide)
  have aligned : PAGE_SIZE * page % PAGE_SIZE = 0 := Nat.mul_mod_right _ _
  rw [clearPages, Finset.mem_filter, Finset.mem_range, IsFree, isPage]
  exact ⟨fun clear => ⟨aligned, clear⟩, And.right⟩

private theorem mul_div_of_aligned (aligned : frame % PAGE_SIZE = 0) :
    PAGE_SIZE * (frame / PAGE_SIZE) = frame :=
  Nat.mul_div_cancel' (Nat.dvd_of_mod_eq_zero aligned)

private theorem mul_eq_iff (aligned : frame % PAGE_SIZE = 0) :
    PAGE_SIZE * page = frame ↔ page = frame / PAGE_SIZE := by
  simp only [PAGE_SIZE] at *
  omega

theorem Counted.take (counted : pmm.Counted) (free : pmm.IsFree frame)
    (counter : pmm'.freePages + 1 = pmm.freePages)
    (frees : ∀ other, pmm'.IsFree other ↔ pmm.IsFree other ∧ other ≠ frame) : pmm'.Counted := by
  have aligned := free.bounds.1
  have member : frame / PAGE_SIZE ∈ pmm.clearPages := by
    rw [mem_clearPages, mul_div_of_aligned aligned]
    exact free
  have erased : pmm'.clearPages = pmm.clearPages.erase (frame / PAGE_SIZE) := by
    ext page
    rw [mem_clearPages, frees, Finset.mem_erase, mem_clearPages, ne_eq, mul_eq_iff aligned,
      and_comm]
  unfold Counted at *
  rw [erased, Finset.card_erase_of_mem member]
  omega

theorem card_clearPages_give (used : ¬ pmm.IsFree frame) (aligned : frame % PAGE_SIZE = 0)
    (frees : ∀ other, pmm'.IsFree other ↔ pmm.IsFree other ∨ other = frame) :
    pmm'.clearPages.card = pmm.clearPages.card + 1 := by
  have notMember : frame / PAGE_SIZE ∉ pmm.clearPages := by
    rw [mem_clearPages, mul_div_of_aligned aligned]
    exact used
  have inserted : pmm'.clearPages = insert (frame / PAGE_SIZE) pmm.clearPages := by
    ext page
    rw [mem_clearPages, frees, Finset.mem_insert, mem_clearPages, mul_eq_iff aligned, or_comm]
  rw [inserted, Finset.card_insert_of_notMem notMember]

theorem Counted.give (counted : pmm.Counted) (used : ¬ pmm.IsFree frame)
    (aligned : frame % PAGE_SIZE = 0) (counter : pmm'.freePages = pmm.freePages + 1)
    (frees : ∀ other, pmm'.IsFree other ↔ pmm.IsFree other ∨ other = frame) : pmm'.Counted := by
  unfold Counted at *
  rw [card_clearPages_give used aligned frees, counter, counted]

theorem card_of_full (full : ∀ frame, ¬ pmm.IsFree frame) :
    pmm.clearPages.card = 0 := by
  rw [Finset.card_eq_zero, Finset.eq_empty_iff_forall_notMem]
  exact fun page member => full _ (mem_clearPages.mp member)

theorem Counted.pos_of_isFree (counted : pmm.Counted) (free : pmm.IsFree frame) :
    0 < pmm.freePages := by
  rw [counted]
  refine Finset.card_pos.mpr ⟨frame / PAGE_SIZE, ?_⟩
  rw [mem_clearPages, mul_div_of_aligned free.bounds.1]
  exact free

theorem not_isFree_new (frame : Nat) : ¬ new.IsFree frame := by
  rw [IsFree, new, BitVec.getLsbD_allOnes]
  simp [Nat.mod_lt]

theorem counted_new : new.Counted := (card_of_full not_isFree_new).symm

theorem Counted.markUsed (counted : pmm.Counted) (aligned : frame % PAGE_SIZE = 0) :
    (pmm.markUsed frame).Counted := by
  have clears := and_bit_eq_zero (Nat.mod_lt (frame / PAGE_SIZE) (by decide : 0 < 64))
    (pmm.bitmap (frame / PAGE_SIZE / 64))
  by_cases free : pmm.IsFree frame
  · refine counted.take free ?_ (isFree_markUsed aligned)
    have positive := counted.pos_of_isFree free
    simp only [BitmapAllocator.markUsed, free.2.1, clears.mpr free.2.2, true_and, if_true]
    omega
  · have kept : pmm.markUsed frame = pmm :=
      if_neg fun cleared => free ⟨aligned, cleared.1, clears.mp cleared.2⟩
    rwa [kept]

theorem Counted.reserve (counted : pmm.Counted) {base : Nat} (aligned : base % PAGE_SIZE = 0)
    (count : Nat) : (Mm.reserve pmm base count).Counted := by
  induction count with
  | zero => exact counted
  | succ count ih =>
    refine ih.markUsed ?_
    rw [Nat.add_mul_mod_self_left, aligned]

theorem markFree_spec (pmm : BitmapAllocator) (inBitmap : page < MAX_PAGES) :
    ∃ pmm', pmm.markFree page = some pmm' ∧ pmm'.freePages = pmm.freePages + 1 ∧
      ∀ other, pmm'.IsFree other ↔ pmm.IsFree other ∨ other = PAGE_SIZE * page := by
  have below : page / 64 < MAX_PAGES / 64 := by
    simp only [MAX_PAGES] at *
    omega
  have marked : pmm.markFree page = pmm.freePage (PAGE_SIZE * page) := by
    rw [markFree, freePage, Nat.mul_div_cancel_left _ (by decide)]
  refine ⟨_, if_pos below, rfl, ?_⟩
  exact freePage_some (marked.symm.trans (if_pos below)) (Nat.mul_mod_right _ _)

end BitmapAllocator

/-! ### Boot -/

def maxPhys : Nat := 2 * 1024 * 1024 * 1024

/-- The frame lies in the part of a usable region that the allocator manages. -/
def MemmapEntry.Usable (entry : MemmapEntry) (frame : Nat) : Prop :=
  entry.type = MEMMAP_USABLE ∧ entry.base ≤ frame ∧ frame < entry.base + entry.length ∧
    frame < maxPhys

/-- Usable regions consist of whole pages and do not overlap. -/
structure MemmapWellFormed (entries : List MemmapEntry) : Prop where
  aligned : ∀ entry ∈ entries, entry.type = MEMMAP_USABLE →
    entry.base % PAGE_SIZE = 0 ∧ entry.length % PAGE_SIZE = 0
  disjoint : entries.Pairwise fun first second =>
    first.type = MEMMAP_USABLE → second.type = MEMMAP_USABLE →
      first.base + first.length ≤ second.base ∨ second.base + second.length ≤ first.base

private theorem markRange_spec (counted : pmm.Counted) (total start : Nat) {count : Nat}
    (used : ∀ page, start ≤ page → page < start + count → ¬ pmm.IsFree (PAGE_SIZE * page)) :
    ∃ pmm' total', markRange pmm total start count = some (pmm', total') ∧ pmm'.Counted ∧
      ∀ frame, pmm'.IsFree frame ↔ pmm.IsFree frame ∨
        ∃ page, frame = PAGE_SIZE * page ∧ start ≤ page ∧ page < start + count ∧
          page < MAX_PAGES := by
  induction count with
  | zero =>
    refine ⟨pmm, total, rfl, counted, fun frame => ⟨.inl, ?_⟩⟩
    rintro (free | ⟨page, -, lower, upper, -⟩)
    · exact free
    · omega
  | succ count ih =>
    obtain ⟨middle, middleTotal, marked, middleCounted, frees⟩ :=
      ih fun page lower upper => used page lower (by omega)
    by_cases inBitmap : start + count < MAX_PAGES
    · obtain ⟨after, returned, counter, afterFrees⟩ :=
        middle.markFree_spec inBitmap
      refine ⟨after, middleTotal + 1, ?_, ?_, ?_⟩
      · simp [markRange, marked, inBitmap, returned]
      · refine middleCounted.give ?_ (Nat.mul_mod_right _ _) counter afterFrees
        rw [frees]
        rintro (free | ⟨page, same, -, upper, -⟩)
        · exact used (start + count) (by omega) (by omega) free
        · simp only [PAGE_SIZE] at same
          omega
      · intro frame
        rw [afterFrees, frees]
        constructor
        · rintro ((free | ⟨page, same, lower, upper, below⟩) | rfl)
          · exact .inl free
          · exact .inr ⟨page, same, lower, by omega, below⟩
          · exact .inr ⟨start + count, rfl, by omega, by omega, inBitmap⟩
        · rintro (free | ⟨page, same, lower, upper, below⟩)
          · exact .inl (.inl free)
          · by_cases last : page = start + count
            · exact .inr (by rw [same, last])
            · exact .inl (.inr ⟨page, same, lower, by omega, below⟩)
    · refine ⟨middle, middleTotal, ?_, middleCounted, fun frame => ?_⟩
      · simp [markRange, marked, inBitmap]
      · refine (frees frame).trans (or_congr_right (exists_congr fun page => ?_))
        exact and_congr_right fun _ => by omega

/-- The pages that `pmm::init` marks for a region are its usable frames. -/
private theorem usable_iff_page {entry : MemmapEntry} (isUsable : entry.type = MEMMAP_USABLE)
    (aligned : entry.base % PAGE_SIZE = 0 ∧ entry.length % PAGE_SIZE = 0) (frame : Nat) :
    (∃ page, frame = PAGE_SIZE * page ∧ entry.base / PAGE_SIZE ≤ page ∧
        page < entry.base / PAGE_SIZE +
          (min (entry.base + entry.length) (2 * 1024 * 1024 * 1024) - entry.base) / PAGE_SIZE ∧
        page < MAX_PAGES) ↔
      frame % PAGE_SIZE = 0 ∧ entry.Usable frame := by
  obtain ⟨⟨first, isBase⟩, ⟨pages, isLength⟩⟩ :
      (∃ first, entry.base = PAGE_SIZE * first) ∧ ∃ pages, entry.length = PAGE_SIZE * pages :=
    ⟨Nat.dvd_of_mod_eq_zero aligned.1, Nat.dvd_of_mod_eq_zero aligned.2⟩
  unfold MemmapEntry.Usable maxPhys
  rw [isBase, isLength]
  simp only [PAGE_SIZE, MAX_PAGES]
  constructor
  · rintro ⟨page, rfl, lower, upper, -⟩
    refine ⟨by omega, isUsable, by omega, ?_, ?_⟩
    · omega
    · omega
  · rintro ⟨isFrame, -, lower, upper, low⟩
    exact ⟨frame / 4096, by omega, by omega, by omega, by omega⟩

private theorem initEntry_spec {total total' : Nat} {entry : MemmapEntry} (counted : pmm.Counted)
    (aligned : entry.type = MEMMAP_USABLE →
      entry.base % PAGE_SIZE = 0 ∧ entry.length % PAGE_SIZE = 0)
    (used : ∀ frame, entry.Usable frame → ¬ pmm.IsFree frame)
    (returned : initEntry pmm total entry = some (pmm', total')) :
    pmm'.Counted ∧ ∀ frame, pmm'.IsFree frame ↔
      pmm.IsFree frame ∨ (frame % PAGE_SIZE = 0 ∧ entry.Usable frame) := by
  have unchanged : (∀ frame, ¬ entry.Usable frame) → pmm = pmm' →
      pmm'.Counted ∧ ∀ frame, pmm'.IsFree frame ↔
        pmm.IsFree frame ∨ (frame % PAGE_SIZE = 0 ∧ entry.Usable frame) := by
    rintro unusable rfl
    exact ⟨counted, fun frame => ⟨.inl, fun free => free.elim id fun no =>
      absurd no.2 (unusable frame)⟩⟩
  simp only [initEntry] at returned
  split at returned
  · rename_i other
    refine unchanged (fun frame usable => other usable.1) ?_
    exact (Prod.mk.inj (Option.some.inj returned)).1
  · rename_i isUsable
    rw [not_not] at isUsable
    split at returned
    · cases returned
    · split at returned
      · rename_i above
        refine unchanged ?_ (Prod.mk.inj (Option.some.inj returned)).1
        rintro frame ⟨-, lower, -, low⟩
        unfold maxPhys at low
        omega
      · have frameOf := usable_iff_page isUsable (aligned isUsable)
        obtain ⟨after, afterTotal, marked, afterCounted, frees⟩ :=
          markRange_spec counted total (entry.base / PAGE_SIZE) fun page lower upper free =>
            used _ ((frameOf _).mp ⟨page, rfl, lower, upper, by
              have := free.2.1
              rwa [Nat.mul_div_cancel_left _ (by decide)] at this⟩).2 free
        rw [marked] at returned
        obtain ⟨rfl, -⟩ := Prod.mk.inj (Option.some.inj returned)
        refine ⟨afterCounted, fun frame => ?_⟩
        rw [frees, frameOf]

/-- After `pmm::init` the free frames are those of the usable regions below 2 GiB. -/
theorem initPmm_spec {entries : List MemmapEntry} (wellFormed : MemmapWellFormed entries)
    (returned : initPmm entries = some pmm) :
    pmm.Counted ∧ ∀ frame, pmm.IsFree frame ↔
      frame % PAGE_SIZE = 0 ∧ ∃ entry ∈ entries, entry.Usable frame := by
  -- the frames of the regions still to come are not free yet, as regions do not overlap
  have fold : ∀ (entries : List MemmapEntry) (start : BitmapAllocator × Nat)
      (final : BitmapAllocator × Nat), MemmapWellFormed entries → start.1.Counted →
      (∀ entry ∈ entries, ∀ frame, entry.Usable frame → ¬ start.1.IsFree frame) →
      entries.foldlM (fun state entry => initEntry state.1 state.2 entry) start = some final →
      final.1.Counted ∧ ∀ frame, final.1.IsFree frame ↔
        start.1.IsFree frame ∨ (frame % PAGE_SIZE = 0 ∧ ∃ entry ∈ entries, entry.Usable frame) := by
    intro entries
    induction entries with
    | nil =>
      rintro start final - counted - folded
      obtain rfl := Option.some.inj folded
      exact ⟨counted, fun frame => by simp⟩
    | cons entry entries ih =>
      rintro ⟨pmm, total⟩ final wellFormed counted used folded
      rw [List.foldlM_cons, Option.bind_eq_bind, Option.bind_eq_some_iff] at folded
      obtain ⟨⟨middle, middleTotal⟩, first, rest⟩ := folded
      obtain ⟨middleCounted, middleFrees⟩ := initEntry_spec counted
        (wellFormed.aligned entry List.mem_cons_self) (used entry List.mem_cons_self) first
      obtain ⟨apart, tailDisjoint⟩ := List.pairwise_cons.mp wellFormed.disjoint
      have tail : MemmapWellFormed entries :=
        ⟨fun other member => wellFormed.aligned other (List.mem_cons_of_mem _ member),
          tailDisjoint⟩
      obtain ⟨finalCounted, finalFrees⟩ := ih (middle, middleTotal) final tail
        middleCounted (fun other member frame usable => by
          rw [middleFrees]
          rintro (free | ⟨-, both⟩)
          · exact used other (List.mem_cons_of_mem _ member) frame usable free
          · have gap := apart other member both.1 usable.1
            obtain ⟨-, lower, upper, -⟩ := usable
            obtain ⟨-, lower', upper', -⟩ := both
            omega) rest
      refine ⟨finalCounted, fun frame => ?_⟩
      rw [finalFrees, middleFrees]
      simp only [List.mem_cons, exists_eq_or_imp]
      tauto
  simp only [initPmm, Option.bind_eq_bind, Option.bind_eq_some_iff, Option.pure_def,
    Option.some.injEq] at returned
  obtain ⟨⟨final, total⟩, folded, rfl⟩ := returned
  obtain ⟨counted, frees⟩ := fold entries (BitmapAllocator.new, 0) _ wellFormed
    BitmapAllocator.counted_new (fun _ _ frame _ => BitmapAllocator.not_isFree_new frame) folded
  refine ⟨counted, fun frame => ?_⟩
  refine (frees frame).trans (or_iff_right (BitmapAllocator.not_isFree_new frame))

/-- After boot the free frames are those of the usable regions below 2 GiB that are not
part of the kernel heap. -/
theorem initMm_spec {entries : List MemmapEntry} {heapPhys : Nat}
    (wellFormed : MemmapWellFormed entries) (returned : initMm entries = some (pmm, heapPhys)) :
    pmm.Counted ∧ heapPhys % PAGE_SIZE = 0 ∧ ∀ frame, pmm.IsFree frame ↔
      (frame % PAGE_SIZE = 0 ∧ ∃ entry ∈ entries, entry.Usable frame) ∧
        ¬ (heapPhys ≤ frame ∧ frame < heapPhys + KERNEL_HEAP_SIZE) := by
  simp only [initMm, Option.bind_eq_bind, Option.bind_eq_some_iff, Option.pure_def,
    Option.some.injEq, Prod.mk.injEq] at returned
  obtain ⟨before, initialised, heap, found, rfl, rfl⟩ := returned
  obtain ⟨counted, frees⟩ := initPmm_spec wellFormed initialised
  have aligned := aligned_findContiguousRegion found
  refine ⟨counted.reserve aligned _, aligned, fun frame => ?_⟩
  rw [isFree_reserve aligned, frees]
  rfl

theorem markRange_returns (pmm : BitmapAllocator) (total start count : Nat) :
    ∃ marked, markRange pmm total start count = some marked := by
  induction count with
  | zero => exact ⟨_, rfl⟩
  | succ count ih =>
    obtain ⟨⟨before, beforeTotal⟩, isBefore⟩ := ih
    rw [markRange, isBefore]
    by_cases inBitmap : start + count < MAX_PAGES
    · obtain ⟨after, marked, -⟩ := before.markFree_spec inBitmap
      exact ⟨(after, beforeTotal + 1), by simp [inBitmap, marked]⟩
    · exact ⟨(before, beforeTotal), by simp [inBitmap]⟩

/-- Boot comes to its end if no region wraps around and one has room for the heap. -/
theorem initMm_returns {entries : List MemmapEntry} {heapPhys : Nat}
    (bounded : ∀ entry ∈ entries, entry.base + entry.length ≤ u64Max)
    (found : findContiguousRegion KERNEL_HEAP_SIZE entries = some heapPhys) :
    ∃ pmm, initMm entries = some (pmm, heapPhys) := by
  have folds : ∀ start : BitmapAllocator × Nat, ∃ final,
      entries.foldlM (fun state entry => initEntry state.1 state.2 entry) start = some final := by
    clear found
    induction entries with
    | nil => exact fun start => ⟨start, rfl⟩
    | cons entry entries ih =>
      rintro ⟨pmm, total⟩
      have first : ∃ middle, initEntry pmm total entry = some middle := by
        have noWrap := not_lt.mpr (bounded entry List.mem_cons_self)
        unfold initEntry
        split
        · exact ⟨_, rfl⟩
        · rw [if_neg noWrap]
          split
          · exact ⟨_, rfl⟩
          · exact markRange_returns _ _ _ _
      obtain ⟨middle, isMiddle⟩ := first
      obtain ⟨final, isFinal⟩ := ih
        (fun other member => bounded other (List.mem_cons_of_mem _ member)) middle
      refine ⟨final, ?_⟩
      rw [List.foldlM_cons, Option.bind_eq_bind, Option.bind_eq_some_iff]
      exact ⟨middle, isMiddle, isFinal⟩
  obtain ⟨final, folded⟩ := folds (BitmapAllocator.new, 0)
  refine ⟨reserve { final.1 with totalPages := final.2 } heapPhys (KERNEL_HEAP_SIZE / PAGE_SIZE),
    ?_⟩
  rw [initMm, initPmm, folded, found]
  rfl

/-! ### Runs of the allocator -/

inductive PmmCall where
  | alloc
  | free (frame : Nat)
deriving DecidableEq, Repr

namespace Ram

def pmmStep (ram : Ram) : PmmCall → Option Ram
  | .alloc => ((allocPage : RamCall Unit (Option Nat)) ram).map Prod.snd
  | .free frame => ((freePage frame : RamCall Unit Unit) ram).map Prod.snd

/-- Only outstanding frames are given back. -/
def ReleasesOutstanding (ram : Ram) : PmmCall → Prop
  | .alloc => True
  | .free frame => Outstanding frame ram.events

instance (ram : Ram) : (call : PmmCall) → Decidable (ram.ReleasesOutstanding call)
  | .alloc => instDecidableTrue
  | .free frame => inferInstanceAs (Decidable (Outstanding frame ram.events))

/-- The free frames and the outstanding frames are apart, and all of them were free at
the start. -/
structure Pool (start : BitmapAllocator) (ram : Ram) : Prop where
  counted : ram.pmm.Counted
  free : ∀ frame, ram.pmm.IsFree frame → start.IsFree frame
  outstanding : ∀ frame, Outstanding frame ram.events →
    start.IsFree frame ∧ ¬ ram.pmm.IsFree frame

theorem Pool.alloc {ram : Ram} (pool : Pool start ram) :
    ∃ result after, (allocPage : RamCall Unit (Option Nat)) ram = some (.ok result, after) ∧
      Pool start after ∧ (result = none ↔ ram.pmm.clearPages = ∅) ∧
      ∀ frame, result = some frame → ram.pmm.IsFree frame := by
  have empty : (∀ frame, ¬ ram.pmm.IsFree frame) ↔ ram.pmm.clearPages = ∅ := by
    rw [← Finset.card_eq_zero]
    refine ⟨BitmapAllocator.card_of_full, fun none frame free => ?_⟩
    have positive := pool.counted.pos_of_isFree free
    rw [pool.counted, none] at positive
    exact absurd positive (lt_irrefl 0)
  unfold allocPage
  rcases ram.pmm.allocPage_cases with
    ⟨nothing, used⟩ | ⟨frame, ⟨free, -⟩, ⟨underflow, -⟩ | ⟨pmm, returned, counter, frees⟩⟩
  · refine ⟨none, ram, by rw [nothing], pool, ⟨fun _ => empty.mp used, fun _ => rfl⟩, ?_⟩
    rintro frame ⟨⟩
  · exact absurd underflow (Nat.pos_iff_ne_zero.mp (pool.counted.pos_of_isFree free))
  · refine ⟨some frame, _, by rw [returned], ⟨?_, ?_, ?_⟩, ⟨?_, ?_⟩, ?_⟩
    · exact pool.counted.take free counter frees
    · exact fun other isFree => pool.free other ((frees other).mp isFree).1
    · rintro other (rfl | earlier)
      · exact ⟨pool.free frame free, fun isFree => ((frees frame).mp isFree).2 rfl⟩
      · obtain ⟨atStart, used⟩ := pool.outstanding other earlier
        exact ⟨atStart, fun isFree => used ((frees other).mp isFree).1⟩
    · rintro ⟨⟩
    · exact fun none => absurd free (empty.mpr none frame)
    · rintro other ⟨⟩
      exact free

theorem Pool.release {ram : Ram} (pool : Pool start ram) (out : Outstanding frame ram.events) :
    ∃ after, (freePage frame : RamCall Unit Unit) ram = some (.ok (), after) ∧
      Pool start after := by
  obtain ⟨atStart, used⟩ := pool.outstanding frame out
  have inBitmap : frame / PAGE_SIZE / 64 < MAX_PAGES / 64 := by
    have := atStart.2.1
    simp only [MAX_PAGES] at *
    omega
  have returned : ram.pmm.freePage frame = some _ := if_pos inBitmap
  have frees := BitmapAllocator.freePage_some returned atStart.1
  refine ⟨_, by rw [freePage, returned], ⟨?_, ?_, ?_⟩⟩
  · exact pool.counted.give used atStart.1 rfl frees
  · rintro other isFree
    rcases (frees other).mp isFree with before | rfl
    · exact pool.free other before
    · exact atStart
  · rintro other ⟨different, earlier⟩
    obtain ⟨otherAtStart, otherUsed⟩ := pool.outstanding other earlier
    refine ⟨otherAtStart, fun isFree => ?_⟩
    rcases (frees other).mp isFree with before | rfl
    · exact otherUsed before
    · exact different rfl

theorem Pool.run {ram : Ram} (pool : Pool start ram) {calls : List PmmCall}
    (releases : LabelledRun.Guarded pmmStep ReleasesOutstanding ram calls) :
    ∃ final, LabelledRun.run pmmStep ram calls = some final ∧ Pool start final := by
  induction calls generalizing ram with
  | nil => exact ⟨ram, rfl, pool⟩
  | cons call calls ih =>
    obtain ⟨next, stepped, nextPool⟩ : ∃ next, pmmStep ram call = some next ∧ Pool start next := by
      cases call with
      | alloc =>
        obtain ⟨result, next, returned, nextPool, -⟩ := pool.alloc
        exact ⟨next, by rw [pmmStep, returned]; rfl, nextPool⟩
      | free frame =>
        obtain ⟨next, returned, nextPool⟩ := pool.release releases.1
        exact ⟨next, by rw [pmmStep, returned]; rfl, nextPool⟩
    obtain ⟨final, reached, finalPool⟩ := ih nextPool (releases.tail stepped)
    exact ⟨final, LabelledRun.run_cons_eq_some.mpr ⟨next, stepped, reached⟩, finalPool⟩

/-- After boot from any memory map of whole, disjoint usable regions, and any sequence of
allocations and of releases of outstanding frames: no call panics, the counter is the
number of clear bits, and the next allocation returns a frame exactly when some bit is
clear, a frame of a usable region below 2 GiB that is outside the kernel heap and not
outstanding. -/
theorem exclusive_of_run {entries : List MemmapEntry} (wellFormed : MemmapWellFormed entries)
    {pmm : BitmapAllocator} {heapPhys : Nat} (booted : initMm entries = some (pmm, heapPhys))
    (bytes : ByteMemory) (calls : List PmmCall)
    (releases : LabelledRun.Guarded pmmStep ReleasesOutstanding ⟨bytes, pmm, []⟩ calls) :
    ∃ ram, LabelledRun.run pmmStep ⟨bytes, pmm, []⟩ calls = some ram ∧
      ram.pmm.freePages = ram.pmm.clearPages.card ∧
      ∃ result after, (allocPage : RamCall Unit (Option Nat)) ram = some (.ok result, after) ∧
        (result = none ↔ ram.pmm.clearPages = ∅) ∧
        ∀ frame, result = some frame →
          (∃ entry ∈ entries, entry.type = MEMMAP_USABLE ∧ entry.base ≤ frame ∧
            frame + PAGE_SIZE ≤ min (entry.base + entry.length) maxPhys) ∧
          (frame + PAGE_SIZE ≤ heapPhys ∨ heapPhys + KERNEL_HEAP_SIZE ≤ frame) ∧
          ¬ Outstanding frame ram.events := by
  obtain ⟨counted, alignedHeap, frees⟩ := initMm_spec wellFormed booted
  have initial : Pool pmm ⟨bytes, pmm, []⟩ := ⟨counted, fun _ => id, fun _ => False.elim⟩
  obtain ⟨ram, reached, pool⟩ := initial.run releases
  obtain ⟨result, after, returned, -, isNone, isFree⟩ := pool.alloc
  refine ⟨ram, reached, pool.counted, result, after, returned, isNone, ?_⟩
  intro frame isFrame
  have free := isFree frame isFrame
  obtain ⟨⟨alignedFrame, entry, member, isUsable, lower, upper, low⟩, outside⟩ :=
    (frees frame).mp (pool.free frame free)
  have aligned := wellFormed.aligned entry member isUsable
  simp only [PAGE_SIZE, KERNEL_HEAP_SIZE, maxPhys] at *
  refine ⟨⟨entry, member, isUsable, lower, ?_⟩, ?_, fun out => (pool.outstanding frame out).2 free⟩
  · omega
  · omega

/-- A memory map with 63 frames for the allocator and a region for the heap above 4 GiB. -/
def smallMemmap : List MemmapEntry :=
  [⟨MEMMAP_USABLE, 0x1000, 0x3F000⟩, ⟨MEMMAP_USABLE, 0x100000000, 0x2000000⟩]

theorem exclusive_smallMemmap :
    ∃ pmm heapPhys ram, initMm smallMemmap = some (pmm, heapPhys) ∧
      LabelledRun.run pmmStep ⟨fun _ => 0, pmm, []⟩ [.alloc, .alloc, .free 0x1000] = some ram ∧
      ram.pmm.freePages = ram.pmm.clearPages.card := by
  have wellFormed : MemmapWellFormed smallMemmap := ⟨by decide, by decide⟩
  obtain ⟨⟨pmm, heapPhys⟩, booted⟩ : ∃ booted, initMm smallMemmap = some booted :=
    Option.isSome_iff_exists.mp (by decide +kernel)
  have releases : LabelledRun.Guarded pmmStep ReleasesOutstanding ⟨fun _ => 0, pmm, []⟩
      [.alloc, .alloc, .free 0x1000] := by
    have computed : ((initMm smallMemmap).any fun booted =>
        decide (LabelledRun.Guarded pmmStep ReleasesOutstanding ⟨fun _ => 0, booted.1, []⟩
          [.alloc, .alloc, .free 0x1000])) = true := by
      decide +kernel
    rw [booted] at computed
    exact of_decide_eq_true computed
  obtain ⟨ram, reached, counted, -⟩ := exclusive_of_run wellFormed booted (fun _ => 0) _ releases
  exact ⟨pmm, heapPhys, ram, booted, reached, counted⟩

end Ram

end Cyllor.Mm
