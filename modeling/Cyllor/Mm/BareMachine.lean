import Cyllor.Mm.FrameSafety

/-!
Contract: a process whose page tables are empty, on a machine with few frames.

Owns:
- `bareMachine`, the machine with a given allocator, and its soundness;
- `fewFrames`, an allocator with a given number of free frames.
-/

namespace Cyllor.Mm

open Cyllor.Arch LinkForest

/-- One process with empty page tables, on a machine with the given allocator. -/
def bareMachine (pmm : BitmapAllocator) : State where
  ram := ⟨fun _ => 0, pmm, []⟩
  heap := plainHeap
  spaces := [0x1000]
  roots := Function.update (fun _ => none) 1 (some 0x1000)
  processes := Function.update (fun _ => none) 1 (some ⟨0x401000, 0x401000, USER_MMAP_BASE, 0⟩)
  nextPid := 2
  vmms _ := Vmm.new
  nextVmm := 1
  shmSegs := ∅
  shmAttach _ := []
  nextShmid := 1
  pageFaults := 0

theorem link_bareMachine (pmm : BitmapAllocator) (table : Nat) (index : Index) :
    link (bareMachine pmm).ram table index = none := by
  have zeros : ∀ width addr, ByteMemory.load (fun _ => 0) addr width = 0 := by
    intro width
    induction width with
    | zero => exact fun _ => rfl
    | succ width ih =>
      intro addr
      rw [ByteMemory.load, ih]
      rfl
  rw [link, readEntry, show (bareMachine pmm).ram.bytes = fun _ => 0 from rfl, zeros]
  rfl

theorem walk_bareMachine (pmm : BitmapAllocator) (table : Nat) {path : List Index}
    (nonempty : path ≠ []) : walk (link (bareMachine pmm).ram) table path = none := by
  cases path with
  | nil => exact absurd rfl nonempty
  | cons index rest => rw [walk, link_bareMachine]

theorem leaf_bareMachine (pmm : BitmapAllocator) (table virt : Nat) :
    leaf (bareMachine pmm).ram table virt = none :=
  walk_bareMachine pmm table (by simp [pagePath])

theorem sound_bareMachine {pmm : BitmapAllocator} (counted : pmm.Counted)
    (low : ∀ frame, pmm.IsFree frame → 0x1000 < frame ∧ frame < plainHeap.base) :
    Sound (bareMachine pmm) := by
  have onlyRoot : ∀ root, root ∈ (bareMachine pmm).rootSet ↔ root = 0x1000 := fun root => by
    simp [State.rootSet, bareMachine]
  have isTable : ∀ frame, IsTable (bareMachine pmm).rootSet (bareMachine pmm).ram frame →
      frame = 0x1000 := by
    rintro frame ⟨root, member, path, -, walked⟩
    by_cases nonempty : path = []
    · subst nonempty
      exact (Option.some.inj walked).symm.trans ((onlyRoot root).mp member)
    · rw [walk_bareMachine pmm root nonempty] at walked
      cases walked
  have unmapped : ∀ page, PageOf (bareMachine pmm).rootSet page →
      frameAt (bareMachine pmm).ram page = none := fun page member =>
    walk_bareMachine pmm page.1 (by rw [ne_eq, ← List.length_eq_zero_iff, member.2]; decide)
  have onlyThread :
    ∀ pid root, (bareMachine pmm).roots pid = some root → pid = 1 ∧ root = 0x1000 := by
    intro pid root present
    by_cases first : pid = 1
    · subst first
      exact ⟨rfl, (Option.some.inj present).symm⟩
    · have absent : (bareMachine pmm).roots pid = none := by simp [bareMachine, first]
      rw [absent] at present
      cases present
  have onlyProcess : ∀ pid process, (bareMachine pmm).processes pid = some process →
      process = ⟨0x401000, 0x401000, USER_MMAP_BASE, 0⟩ := by
    intro pid process found
    by_cases first : pid = 1
    · subst first
      exact (Option.some.inj found).symm
    · have absent : (bareMachine pmm).processes pid = none := by simp [bareMachine, first]
      rw [absent] at found
      cases found
  refine ⟨⟨⟨Function.update (fun _ => none) 0x1000 (some (0x1000, [])), ?_, ?_, ?_⟩, counted,
    trivial,
    ?_, ?_, fun _ _ => id⟩, ?_, ?_, fun _ => Vmm.wellFormed_new, ?_, ?_, ?_, ?_⟩
  · intro root member path node _ walked
    obtain rfl := (onlyRoot root).mp member
    by_cases nonempty : path = []
    · subst nonempty
      obtain rfl := Option.some.inj walked
      rw [Function.update_self]
    · rw [walk_bareMachine pmm _ nonempty] at walked
      cases walked
  · intro node isPlaced
    by_cases isRoot : node = 0x1000
    · rw [isRoot]
      decide
    · rw [Function.update_of_ne isRoot] at isPlaced
      cases isPlaced
  · intro node isPlaced free
    have above := (low node free).1
    rw [Function.update_of_ne above.ne'] at isPlaced
    cases isPlaced
  · intro page member frame mapped
    rw [unmapped page member] at mapped
    cases mapped
  · intro frame inHeap
    have lower : plainHeap.base ≤ frame := inHeap.1
    refine ⟨fun free => ?_, fun table => ?_⟩
    · have below := (low frame free).2
      omega
    · rw [isTable frame table] at lower
      exact absurd lower (by decide)
  · intro pid root present
    obtain ⟨rfl, rfl⟩ := onlyThread pid root present
    exact ⟨List.mem_singleton_self _, _, rfl⟩
  · intro pid later
    have other : pid ≠ 1 := by
      have : 2 ≤ pid := later
      omega
    simp [bareMachine, other]
  · intro pid process found
    rw [onlyProcess pid process found]
    exact Nat.zero_lt_one
  · intro pid other root root' process process' present presentOther found foundOther
    rw [(onlyThread pid root present).2, (onlyThread other root' presentOther).2,
      onlyProcess pid process found, onlyProcess other process' foundOther]
    simp
  · intro id seg listed
    cases listed
  · intro pid root process _ _ _ virt _ _ frame mapped
    rw [leaf_bareMachine] at mapped
    cases mapped

/-- An allocator whose free frames are the given number of frames from `0x2000` on. -/
def fewFrames : Nat → BitmapAllocator
  | 0 => .new
  | count + 1 => ((fewFrames count).freePage (0x2000 + PAGE_SIZE * count)).getD .new

theorem freePage_fewFrames {count : Nat} (few : count < 1000) :
    (fewFrames count).freePage (0x2000 + PAGE_SIZE * count) = some (fewFrames (count + 1)) ∧
      (fewFrames (count + 1)).freePages = (fewFrames count).freePages + 1 := by
  have inBitmap : (0x2000 + PAGE_SIZE * count) / PAGE_SIZE / 64 < MAX_PAGES / 64 := by
    simp only [PAGE_SIZE, MAX_PAGES]
    omega
  rw [fewFrames, BitmapAllocator.freePage, BitmapAllocator.clearBit, if_pos inBitmap]
  exact ⟨rfl, rfl⟩

theorem isFree_fewFrames {count : Nat} (few : count ≤ 1000) (frame : Nat) :
    (fewFrames count).IsFree frame ↔ ∃ index < count, frame = 0x2000 + PAGE_SIZE * index := by
  induction count with
  | zero => simp [fewFrames, BitmapAllocator.not_isFree_new]
  | succ count ih =>
    have frees := BitmapAllocator.freePage_some (freePage_fewFrames few).1
      (by simp only [PAGE_SIZE]; omega) frame
    rw [frees, ih (Nat.le_of_succ_le few)]
    constructor
    · rintro (⟨index, below, rfl⟩ | rfl)
      · exact ⟨index, Nat.lt_succ_of_lt below, rfl⟩
      · exact ⟨count, Nat.lt_succ_self count, rfl⟩
    · rintro ⟨index, below, rfl⟩
      rcases Nat.lt_succ_iff_lt_or_eq.mp below with earlier | rfl
      · exact .inl ⟨index, earlier, rfl⟩
      · exact .inr rfl

theorem counted_fewFrames {count : Nat} (few : count ≤ 1000) :
    (fewFrames count).Counted ∧ (fewFrames count).clearPages.card = count := by
  induction count with
  | zero => exact ⟨BitmapAllocator.counted_new, BitmapAllocator.counted_new.symm⟩
  | succ count ih =>
    obtain ⟨counted, card⟩ := ih (Nat.le_of_succ_le few)
    obtain ⟨freed, counter⟩ := freePage_fewFrames few
    have aligned : (0x2000 + PAGE_SIZE * count) % PAGE_SIZE = 0 := by
      simp only [PAGE_SIZE]
      omega
    have used : ¬ (fewFrames count).IsFree (0x2000 + PAGE_SIZE * count) := by
      rw [isFree_fewFrames (Nat.le_of_succ_le few)]
      rintro ⟨index, below, same⟩
      simp only [PAGE_SIZE] at same
      omega
    have counted' := counted.give used aligned counter
      (BitmapAllocator.freePage_some freed aligned)
    exact ⟨counted', by rw [← counted', counter, counted, card]⟩

theorem sound_fewFrames {count : Nat} (few : count ≤ 1000) :
    Sound (bareMachine (fewFrames count)) := by
  refine sound_bareMachine (counted_fewFrames few).1 fun frame free => ?_
  obtain ⟨index, below, rfl⟩ := (isFree_fewFrames few frame).mp free
  have base : plainHeap.base = 0x44000000 := by decide
  simp only [PAGE_SIZE, base]
  omega

end Cyllor.Mm
