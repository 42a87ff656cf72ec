import Cyllor.Base
import Cyllor.Lib.ByteMemory
import Cyllor.Lib.Call

/-!
Contract: physical memory and the allocator of its frames (`mm/pmm.rs`, and the
reservation of the kernel heap in `mm/mod.rs`).

Owns:
- the bitmap allocator and what each of its operations does to the set of free frames;
- `Ram`, the bytes of physical memory with the allocator and the record of the
  frames it handed out and took back;
- `Disciplined`, which says that only outstanding frames were given back.
-/

namespace Cyllor.Mm

variable {pmm : BitmapAllocator} {frame : Nat}

def MAX_PAGES : Nat := 1024 * 1024

/-- `BitmapAllocator`: a set bit stands for a used frame. -/
structure BitmapAllocator where
  bitmap : Nat → BitVec 64
  totalPages : Nat
  freePages : Nat

namespace BitmapAllocator

def new : BitmapAllocator where
  bitmap _ := BitVec.allOnes 64
  totalPages := 0
  freePages := 0

/-- Clear the bit of a page and count it; indexing past the bitmap panics. -/
def clearBit (pmm : BitmapAllocator) (page : Nat) : Option BitmapAllocator :=
  let idx := page / 64
  let bit := page % 64
  if idx < MAX_PAGES / 64 then
    some { pmm with
      bitmap := Function.update pmm.bitmap idx (pmm.bitmap idx &&& ~~~ (1#64 <<< bit))
      freePages := pmm.freePages + 1 }
  else none

def markFree (pmm : BitmapAllocator) (page : Nat) : Option BitmapAllocator := pmm.clearBit page

def freePage (pmm : BitmapAllocator) (physAddr : Nat) : Option BitmapAllocator :=
  pmm.clearBit (physAddr / PAGE_SIZE)

def firstFree (bitmap : Nat → BitVec 64) : (left word : Nat) → Option Nat
  | 0, _ => none
  | left + 1, word =>
    if bitmap word ≠ BitVec.allOnes 64 then some word else firstFree bitmap left (word + 1)

/-- `BitmapAllocator::alloc_page`; the count of free pages must not underflow. -/
def allocPage (pmm : BitmapAllocator) : Option (Option Nat × BitmapAllocator) :=
  match firstFree pmm.bitmap (MAX_PAGES / 64) 0 with
  | none => some (none, pmm)
  | some word =>
    let bit := (~~~ pmm.bitmap word).ctz.toNat
    if pmm.freePages = 0 then none
    else
      some (some (PAGE_SIZE * (64 * word + bit)),
        { pmm with
          bitmap := Function.update pmm.bitmap word (pmm.bitmap word ||| (1#64 <<< bit))
          freePages := pmm.freePages - 1 })

def markUsed (pmm : BitmapAllocator) (physAddr : Nat) : BitmapAllocator :=
  let page := physAddr / PAGE_SIZE
  let idx := page / 64
  let bit := page % 64
  if page < MAX_PAGES ∧ pmm.bitmap idx &&& (1#64 <<< bit) = 0 then
    { pmm with
      bitmap := Function.update pmm.bitmap idx (pmm.bitmap idx ||| (1#64 <<< bit))
      freePages := pmm.freePages - 1 }
  else pmm

/-- The bit of a frame, given by its physical address, is clear. -/
def IsFree (pmm : BitmapAllocator) (frame : Nat) : Prop :=
  frame % PAGE_SIZE = 0 ∧ frame / PAGE_SIZE < MAX_PAGES ∧
    (pmm.bitmap (frame / PAGE_SIZE / 64)).getLsbD (frame / PAGE_SIZE % 64) = false

instance (pmm : BitmapAllocator) (frame : Nat) : Decidable (pmm.IsFree frame) :=
  inferInstanceAs (Decidable (_ ∧ _))

theorem IsFree.bounds (free : pmm.IsFree frame) :
    frame % PAGE_SIZE = 0 ∧ frame < 2 ^ 32 := by
  obtain ⟨aligned, below, -⟩ := free
  simp only [PAGE_SIZE, MAX_PAGES] at *
  omega

/-! ### The set of free frames -/

private theorem getLsbD_bit {bit : Nat} (inWord : bit < 64) (other : Nat) :
    (1#64 <<< bit).getLsbD other = decide (other = bit) := by
  rw [show 1#64 <<< bit = BitVec.twoPow 64 bit from rfl, BitVec.getLsbD_twoPow]
  simp only [inWord, decide_true, Bool.true_and]
  exact decide_eq_decide.mpr eq_comm

theorem and_bit_eq_zero {bit : Nat} (inWord : bit < 64) (word : BitVec 64) :
    word &&& (1#64 <<< bit) = 0 ↔ word.getLsbD bit = false := by
  constructor
  · intro zero
    have atBit := congrArg (fun value => value.getLsbD bit) zero
    simpa [getLsbD_bit inWord] using atBit
  · intro clear
    refine BitVec.eq_of_getLsbD_eq fun other _ => ?_
    rw [BitVec.getLsbD_and, getLsbD_bit inWord]
    by_cases same : other = bit
    · rw [same, clear, Bool.false_and]
      simp
    · simp [same]

private theorem frame_eq_of_page {other : Nat} (aligned : frame % PAGE_SIZE = 0)
    (alignedOther : other % PAGE_SIZE = 0)
    (sameWord : frame / PAGE_SIZE / 64 = other / PAGE_SIZE / 64)
    (sameBit : frame / PAGE_SIZE % 64 = other / PAGE_SIZE % 64) : frame = other := by
  simp only [PAGE_SIZE] at *
  omega

private theorem isFree_set {pmm' : BitmapAllocator} (aligned : frame % PAGE_SIZE = 0)
    (set : pmm'.bitmap = Function.update pmm.bitmap (frame / PAGE_SIZE / 64)
      (pmm.bitmap (frame / PAGE_SIZE / 64) ||| (1#64 <<< (frame / PAGE_SIZE % 64)))) (other :
    Nat) : pmm'.IsFree other ↔ pmm.IsFree other ∧ other ≠ frame := by
  have inWord : frame / PAGE_SIZE % 64 < 64 := Nat.mod_lt _ (by decide)
  unfold IsFree
  rw [set]
  by_cases sameWord : other / PAGE_SIZE / 64 = frame / PAGE_SIZE / 64
  · rw [sameWord, Function.update_self, BitVec.getLsbD_or, getLsbD_bit inWord]
    constructor
    · rintro ⟨alignedOther, below, clear⟩
      rw [Bool.or_eq_false_iff, decide_eq_false_iff_not] at clear
      refine ⟨⟨alignedOther, below, clear.1⟩, ?_⟩
      rintro rfl
      exact clear.2 rfl
    · rintro ⟨⟨alignedOther, below, clear⟩, different⟩
      refine ⟨alignedOther, below, ?_⟩
      rw [clear, Bool.false_or, decide_eq_false_iff_not]
      exact fun sameBit => different (frame_eq_of_page alignedOther aligned sameWord sameBit)
  · rw [Function.update_of_ne sameWord]
    refine ⟨fun free => ⟨free, ?_⟩, And.left⟩
    rintro rfl
    exact sameWord rfl

private theorem firstFree_eq (bitmap : Nat → BitVec 64) (left word : Nat) :
    firstFree bitmap left word =
      (List.range' word left).find? fun other => bitmap other ≠ BitVec.allOnes 64 := by
  induction left generalizing word with
  | zero => rfl
  | succ left ih =>
    rw [firstFree, List.range'_succ, ih]
    split
    case isTrue clear => exact (List.find?_cons_of_pos (by exact decide_eq_true clear)).symm
    case isFalse full => exact (List.find?_cons_of_neg (by exact mt of_decide_eq_true full)).symm

private theorem lowest_clear {word : BitVec 64} (clear : word ≠ BitVec.allOnes 64) :
    (~~~ word).ctz.toNat < 64 ∧ word.getLsbD (~~~ word).ctz.toNat = false ∧
      ∀ bit < 64, word.getLsbD bit = false → (~~~ word).ctz.toNat ≤ bit := by
  have nonzero : ~~~ word ≠ 0#64 := by
    intro zero
    apply clear
    rw [← BitVec.not_not (b := word), zero]
    rfl
  have inWord : (~~~ word).ctz.toNat < 64 := by
    simpa [BitVec.lt_def] using BitVec.ctz_lt_iff_ne_zero.mpr nonzero
  refine ⟨inWord, ?_, fun bit below isClear => ?_⟩
  · have set := BitVec.getLsbD_true_ctz_of_ne_zero nonzero
    rw [BitVec.getLsbD_not] at set
    simpa [inWord] using set
  · by_contra before
    have unset := BitVec.getLsbD_false_of_lt_ctz (Nat.lt_of_not_le before)
    rw [BitVec.getLsbD_not, isClear] at unset
    simp [below] at unset

private theorem ne_allOnes_of_clear {word : BitVec 64} {page : Nat}
    (clear : word.getLsbD (page % 64) = false) : word ≠ BitVec.allOnes 64 := by
  rintro rfl
  rw [BitVec.getLsbD_allOnes] at clear
  simp [Nat.mod_lt] at clear

/-- The frame that the allocator would hand out next: the lowest one whose bit is
clear. The count of free pages decides whether it can. -/
theorem allocPage_cases (pmm : BitmapAllocator) :
    (pmm.allocPage = some (none, pmm) ∧ ∀ frame, ¬ pmm.IsFree frame) ∨
      ∃ frame, IsLeast { other | pmm.IsFree other } frame ∧
        ((pmm.freePages = 0 ∧ pmm.allocPage = none) ∨
          ∃ pmm', pmm.allocPage = some (some frame, pmm') ∧
            pmm'.freePages + 1 = pmm.freePages ∧
            ∀ other, pmm'.IsFree other ↔ pmm.IsFree other ∧ other ≠ frame) := by
  unfold allocPage
  rw [firstFree_eq]
  cases found : List.find? _ _ with
  | none =>
    refine .inl ⟨rfl, ?_⟩
    rintro frame ⟨-, below, clear⟩
    have inside : frame / PAGE_SIZE / 64 < 0 + MAX_PAGES / 64 := by
      simp only [MAX_PAGES] at below ⊢
      omega
    have full := List.find?_range'_eq_none.mp found _ (Nat.zero_le _) inside
    rw [decide_eq_true (ne_allOnes_of_clear clear)] at full
    cases full
  | some word =>
    obtain ⟨clear, inRange, earlier⟩ := List.find?_range'_eq_some.mp found
    have below := (List.mem_range'_1.mp inRange).2
    replace clear := of_decide_eq_true clear
    obtain ⟨inWord, isClear, lowest⟩ := lowest_clear clear
    dsimp only
    generalize (~~~ pmm.bitmap word).ctz.toNat = bit at inWord isClear lowest ⊢
    have page : PAGE_SIZE * (64 * word + bit) / PAGE_SIZE = 64 * word + bit :=
      Nat.mul_div_cancel_left _ (by decide)
    have aligned : PAGE_SIZE * (64 * word + bit) % PAGE_SIZE = 0 := Nat.mul_mod_right _ _
    have wordOf : (64 * word + bit) / 64 = word := by omega
    have bitOf : (64 * word + bit) % 64 = bit := by omega
    refine .inr ⟨PAGE_SIZE * (64 * word + bit), ⟨⟨aligned, ?_, ?_⟩, ?_⟩, ?_⟩
    · rw [page]
      simp only [MAX_PAGES] at *
      omega
    · rw [page, wordOf, bitOf]
      exact isClear
    · rintro other ⟨-, -, otherClear⟩
      have wordLe : word ≤ other / PAGE_SIZE / 64 := by
        by_contra before
        have full := earlier _ (Nat.zero_le _) (Nat.lt_of_not_le before)
        rw [decide_eq_true (ne_allOnes_of_clear otherClear)] at full
        cases full
      have bitLe : other / PAGE_SIZE / 64 = word → bit ≤ other / PAGE_SIZE % 64 := by
        rintro rfl
        exact lowest _ (Nat.mod_lt _ (by decide)) otherClear
      simp only [PAGE_SIZE] at *
      omega
    · by_cases none : pmm.freePages = 0
      · exact .inl ⟨none, if_pos none⟩
      · refine .inr ⟨_, if_neg none, Nat.succ_pred_eq_of_pos (Nat.pos_of_ne_zero none), ?_⟩
        refine isFree_set aligned ?_
        rw [page, wordOf, bitOf]

theorem freePage_some {pmm' : BitmapAllocator} (freed : pmm.freePage frame = some pmm')
    (aligned : frame % PAGE_SIZE = 0) (other : Nat) :
    pmm'.IsFree other ↔ pmm.IsFree other ∨ other = frame := by
  have inWord : frame / PAGE_SIZE % 64 < 64 := Nat.mod_lt _ (by decide)
  simp only [freePage, clearBit] at freed
  split at freed
  case isFalse => cases freed
  case isTrue below =>
    obtain rfl := Option.some.inj freed
    unfold IsFree
    dsimp only
    by_cases sameWord : other / PAGE_SIZE / 64 = frame / PAGE_SIZE / 64
    · rw [sameWord, Function.update_self, BitVec.getLsbD_and, BitVec.getLsbD_not,
        getLsbD_bit inWord]
      have otherBit : other / PAGE_SIZE % 64 < 64 := Nat.mod_lt _ (by decide)
      constructor
      · rintro ⟨alignedOther, inBitmap, clear⟩
        by_cases sameBit : other / PAGE_SIZE % 64 = frame / PAGE_SIZE % 64
        · exact .inr (frame_eq_of_page alignedOther aligned sameWord sameBit)
        · refine .inl ⟨alignedOther, inBitmap, ?_⟩
          simpa [otherBit, sameBit] using clear
      · rintro (⟨alignedOther, inBitmap, clear⟩ | rfl)
        · exact ⟨alignedOther, inBitmap, by rw [clear, Bool.false_and]⟩
        · refine ⟨aligned, ?_, by simp⟩
          simp only [MAX_PAGES] at below ⊢
          omega
    · rw [Function.update_of_ne sameWord]
      refine ⟨.inl, ?_⟩
      rintro (free | rfl)
      · exact free
      · exact absurd rfl sameWord

theorem isFree_markUsed (aligned : frame % PAGE_SIZE = 0) (other : Nat) :
    (pmm.markUsed frame).IsFree other ↔ pmm.IsFree other ∧ other ≠ frame := by
  have inWord : frame / PAGE_SIZE % 64 < 64 := Nat.mod_lt _ (by decide)
  simp only [markUsed]
  split
  · exact isFree_set aligned rfl other
  · rename_i kept
    refine ⟨fun free => ⟨free, ?_⟩, And.left⟩
    rintro rfl
    exact kept ⟨free.2.1, (and_bit_eq_zero inWord _).mpr free.2.2⟩

end BitmapAllocator

/-! ### Boot -/

structure MemmapEntry where
  type : Nat
  base : Nat
  length : Nat
deriving DecidableEq, Repr

def MEMMAP_USABLE : Nat := 0

/-- Mark the pages from `start` on free, as far as the bitmap reaches, and count them. -/
def markRange (pmm : BitmapAllocator) (total start : Nat) : Nat → Option (BitmapAllocator × Nat)
  | 0 => some (pmm, total)
  | count + 1 => do
      let (pmm, total) ← markRange pmm total start count
      let page := start + count
      if page < MAX_PAGES then return (← pmm.markFree page, total + 1) else return (pmm, total)

/-- The part of `pmm::init` for one entry of the memory map. -/
def initEntry (pmm : BitmapAllocator) (total : Nat) (entry : MemmapEntry) :
    Option (BitmapAllocator × Nat) :=
  let maxPhys := 2 * 1024 * 1024 * 1024
  if entry.type ≠ MEMMAP_USABLE then some (pmm, total)
  else
    let stop := entry.base + entry.length
    if u64Max < stop then none
    else if maxPhys < stop ∧ maxPhys ≤ entry.base then some (pmm, total)
    else
      markRange pmm total (entry.base / PAGE_SIZE) ((min stop maxPhys - entry.base) / PAGE_SIZE)

def initPmm (entries : List MemmapEntry) : Option BitmapAllocator := do
  let (pmm, total) ← entries.foldlM (fun (pmm, total) entry => initEntry pmm total entry)
    (BitmapAllocator.new, 0)
  return { pmm with totalPages := total }

def KERNEL_HEAP_SIZE : Nat := 32 * 1024 * 1024

/-- The part of a usable entry that `find_contiguous_region` considers: from above the
first memory on, aligned to 2 MiB, as base and length. -/
def MemmapEntry.alignedRegion (entry : MemmapEntry) : Nat × Nat :=
  let safeBase := max entry.base 0x44000000
  let stop := entry.base + entry.length
  let safeLen := if stop ≤ safeBase then 0 else stop - safeBase
  let alignedBase := (safeBase + 0x1FFFFF) / 0x200000 * 0x200000
  let alignedLen :=
    if safeBase + safeLen ≤ alignedBase then 0 else safeBase + safeLen - alignedBase
  (alignedBase, alignedLen)

/-- `find_contiguous_region`, whose `None` its caller turns into a panic, as an
overflow does. -/
def findContiguousRegion (size : Nat) : List MemmapEntry → Option Nat
  | [] => none
  | entry :: entries =>
    if entry.type ≠ MEMMAP_USABLE then findContiguousRegion size entries
    else if u64Max < entry.base + entry.length ∨ u64Max < max entry.base 0x44000000 + 0x1FFFFF then
      none
    else if size ≤ entry.alignedRegion.2 then some entry.alignedRegion.1
    else findContiguousRegion size entries

def reserve (pmm : BitmapAllocator) (base : Nat) : Nat → BitmapAllocator
  | 0 => pmm
  | count + 1 => (reserve pmm base count).markUsed (base + PAGE_SIZE * count)

theorem isFree_reserve {base : Nat} (aligned : base % PAGE_SIZE = 0) (count other : Nat) :
    (reserve pmm base count).IsFree other ↔
      pmm.IsFree other ∧ ¬ (base ≤ other ∧ other < base + PAGE_SIZE * count) := by
  induction count with
  | zero =>
    simp only [reserve, Nat.mul_zero, Nat.add_zero]
    exact ⟨fun free => ⟨free, by omega⟩, And.left⟩
  | succ count ih =>
    have nextAligned : (base + PAGE_SIZE * count) % PAGE_SIZE = 0 := by
      rw [Nat.add_mul_mod_self_left, aligned]
    rw [reserve, BitmapAllocator.isFree_markUsed nextAligned, ih]
    constructor
    · rintro ⟨⟨free, outside⟩, different⟩
      refine ⟨free, ?_⟩
      have frame := free.bounds.1
      simp only [PAGE_SIZE] at aligned frame outside different ⊢
      omega
    · rintro ⟨free, outside⟩
      simp only [PAGE_SIZE] at outside ⊢
      exact ⟨⟨free, by omega⟩, by omega⟩

theorem aligned_findContiguousRegion {size base : Nat} {entries : List MemmapEntry}
    (found : findContiguousRegion size entries = some base) : base % PAGE_SIZE = 0 := by
  induction entries with
  | nil => cases found
  | cons entry entries ih =>
    rw [findContiguousRegion] at found
    split at found
    · exact ih found
    · split at found
      · cases found
      · split at found
        · obtain rfl := Option.some.inj found
          simp only [MemmapEntry.alignedRegion, PAGE_SIZE]
          omega
        · exact ih found

/-- The part of `mm::init` that sets up the allocator and reserves the kernel heap, with
the physical address of the heap. -/
def initMm (entries : List MemmapEntry) : Option (BitmapAllocator × Nat) := do
  let pmm ← initPmm entries
  let heapPhys ← findContiguousRegion KERNEL_HEAP_SIZE entries
  return (reserve pmm heapPhys (KERNEL_HEAP_SIZE / PAGE_SIZE), heapPhys)

/-! ### Frames in use -/

/-- What happened to the frame at a physical address. -/
inductive PageEvent where
  | alloc (frame : Nat)
  | free (frame : Nat)
deriving DecidableEq, Repr

/-- The frame was handed out and not given back since; the latest event comes first. -/
def Outstanding (frame : Nat) : List PageEvent → Prop
  | [] => False
  | .alloc other :: earlier => other = frame ∨ Outstanding frame earlier
  | .free other :: earlier => other ≠ frame ∧ Outstanding frame earlier

/-- Only outstanding frames were given back. -/
def Disciplined : List PageEvent → Prop
  | [] => True
  | .alloc _ :: earlier => Disciplined earlier
  | .free frame :: earlier => Outstanding frame earlier ∧ Disciplined earlier

instance (frame : Nat) : (events : List PageEvent) → Decidable (Outstanding frame events)
  | [] => instDecidableFalse
  | .alloc _ :: earlier =>
    letI := instDecidableOutstanding frame earlier
    inferInstanceAs (Decidable (_ ∨ _))
  | .free _ :: earlier =>
    letI := instDecidableOutstanding frame earlier
    inferInstanceAs (Decidable (_ ∧ _))

/-- Physical memory: its bytes, the allocator, and the record of allocations. -/
structure Ram where
  bytes : ByteMemory
  pmm : BitmapAllocator
  events : List PageEvent

abbrev RamCall (ε α : Type) := Call Ram ε α

def allocPage {ε : Type} : RamCall ε (Option Nat) := fun ram =>
  match ram.pmm.allocPage with
  | none => none
  | some (none, pmm) => some (.ok none, { ram with pmm := pmm })
  | some (some frame, pmm) =>
    some (.ok (some frame), { ram with pmm := pmm, events := .alloc frame :: ram.events })

def freePage {ε : Type} (physAddr : Nat) : RamCall ε Unit := fun ram =>
  match ram.pmm.freePage physAddr with
  | none => none
  | some pmm => some (.ok (), { ram with pmm := pmm, events := .free physAddr :: ram.events })

def zeroFrame {ε : Type} (phys : Nat) : RamCall ε Unit :=
  Call.modify fun ram => { ram with bytes := ram.bytes.fill phys PAGE_SIZE 0 }

/-- Specification of `alloc_page`: no frame is free, or a free one is taken. -/
theorem wp_allocPage {ε : Type} {post : Except ε (Option Nat) → Ram → Prop} {ram : Ram}
    (exhausted : (∀ frame, ¬ ram.pmm.IsFree frame) → post (.ok none) ram)
    (taken : ∀ frame pmm, ram.pmm.IsFree frame →
      (∀ other, pmm.IsFree other ↔ ram.pmm.IsFree other ∧ other ≠ frame) →
      pmm.freePages + 1 = ram.pmm.freePages →
        post (.ok (some frame)) { ram with pmm := pmm, events := .alloc frame :: ram.events }) :
    Call.wp allocPage post ram := by
  intro result after returned
  rw [allocPage] at returned
  rcases ram.pmm.allocPage_cases with
    ⟨nothing, full⟩ | ⟨frame, ⟨free, -⟩, ⟨-, panics⟩ | ⟨pmm, allocated, counter, frees⟩⟩
  · rw [nothing] at returned
    obtain ⟨rfl, rfl⟩ := Prod.mk.inj (Option.some.inj returned)
    exact exhausted full
  · rw [panics] at returned
    cases returned
  · rw [allocated] at returned
    obtain ⟨rfl, rfl⟩ := Prod.mk.inj (Option.some.inj returned)
    exact taken frame pmm free frees counter

/-- Specification of `free_page`: the frame joins the free ones. -/
theorem wp_freePage {ε : Type} {post : Except ε Unit → Ram → Prop} {ram : Ram}
    (aligned : frame % PAGE_SIZE = 0)
    (given : ∀ pmm, pmm.freePages = ram.pmm.freePages + 1 →
      (∀ other, pmm.IsFree other ↔ ram.pmm.IsFree other ∨ other = frame) →
      post (.ok ()) { ram with pmm := pmm, events := .free frame :: ram.events }) :
    Call.wp (freePage frame) post ram := by
  intro result after returned
  rw [freePage] at returned
  cases freed : ram.pmm.freePage frame with
  | none =>
    rw [freed] at returned
    cases returned
  | some pmm =>
    rw [freed] at returned
    obtain ⟨rfl, rfl⟩ := Prod.mk.inj (Option.some.inj returned)
    refine given pmm ?_ (BitmapAllocator.freePage_some freed aligned)
    simp only [BitmapAllocator.freePage, BitmapAllocator.clearBit] at freed
    split at freed
    · rw [← Option.some.inj freed]
    · cases freed

end Cyllor.Mm
