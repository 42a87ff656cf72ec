import Cyllor.Mm.BareMachine
import Cyllor.Mm.RangeEffects

/-!
Contract: sequences of `do_brk` calls of one process.

Owns:
- `HeapArea`, that the area of the heap is exactly the range up to the break;
- `BrkEffect`, what one call may do to the pages and to the break;
- `BrkSafe`, the calls that keep to that: the new end of the heap lies below the end of the
  address space, the heap has no page of shared memory, and memory does not run out at the
  tables of the last new page.
-/

namespace Cyllor.Mm

open Cyllor.Arch LinkForest
open Call hiding pure bind

/-! ### The area of the heap -/

def heapArea (base stop : Nat) : Vma VmaName :=
  ⟨base, stop, PROT_READ ||| PROT_WRITE, MAP_PRIVATE ||| MAP_ANONYMOUS, 0, some .heap⟩

structure HeapArea (vmm : Vmm VmaName) (base stop : Nat) : Prop where
  inside : ∀ virt, base ≤ virt → virt < stop → vmm.find virt = some (heapArea base stop)
  outside : ∀ virt, (vmm.attrsAt virt).bind Vmm.Attrs.name = some .heap → base ≤ virt ∧ virt < stop

theorem exists_heapVma {base old : Nat} (new : Nat) (vmm : Vmm VmaName) (bounded : old ≤ u64Max) :
    ∃ after, heapVma base old new vmm = some after := by
  by_cases nonempty : base < old
  · have cleared :
    clearHeapVma base old vmm = some (vmm.removeRange base (base + (old - base))) := by
      rw [clearHeapVma, if_pos nonempty, Vmm.unmap, if_pos (by omega)]
    exact ⟨_, by rw [heapVma, cleared, Option.map_some]⟩
  · exact ⟨_, by rw [heapVma, clearHeapVma, if_neg nonempty, Option.map_some]⟩

section

variable {vmm : Vmm VmaName} {base old : Nat} (area : HeapArea vmm base old)
  (wellFormed : vmm.WellFormed)

include area wellFormed

theorem HeapArea.clear {after : Vmm VmaName} (cleared : clearHeapVma base old vmm = some after)
    (virt : Nat) : (after.attrsAt virt).bind Vmm.Attrs.name ≠ some .heap := by
  intro isHeap
  unfold clearHeapVma at cleared
  split at cleared
  · rename_i nonempty
    rw [(wellFormed.attrsAt_unmap cleared).2, Vmm.VmmCall.meaning] at isHeap
    split at isHeap
    · cases isHeap
    · rename_i outside
      have := area.outside virt isHeap
      omega
  · rename_i empty
    obtain rfl := Option.some.inj cleared
    have := area.outside virt isHeap
    omega

theorem HeapArea.move {after : Vmm VmaName} {new : Nat}
    (changed : heapVma base old new vmm = some after) : HeapArea after base new := by
  obtain ⟨cleared, isCleared, rfl⟩ := Option.map_eq_some_iff.mp changed
  have stays := (isShm_clearHeapVma wellFormed isCleared).1
  have gone := area.clear wellFormed isCleared
  by_cases nonempty : base < new
  · rw [if_pos nonempty]
    constructor
    · intro virt lower upper
      refine (stays.map nonempty _ _ _ _).find_eq_some.mpr ⟨?_, lower, upper⟩
      exact Std.ExtTreeMap.getElem?_insert_self
    · intro virt isHeap
      rw [stays.attrsAt_map nonempty, Vmm.VmmCall.meaning] at isHeap
      split at isHeap
      · assumption
      · exact absurd isHeap (gone virt)
  · rw [if_neg nonempty]
    exact ⟨fun virt lower upper => absurd (lower.trans_lt upper) nonempty,
      fun virt isHeap => absurd isHeap (gone virt)⟩

end

/-! ### One call -/

def Process.BrkMoves (process : Process) (addr : Nat) : Prop :=
  addr ≠ 0 ∧ process.brkBase ≤ addr ∧ addr ≠ process.brkCurrent

def Process.growth (process : Process) (addr : Nat) : Nat :=
  (roundUp addr - roundUp process.brkCurrent) / PAGE_SIZE

/-- How many frames the growth needs, with the tables for so many of its pages. -/
def State.growthDemand (state : State) (root : Nat) (process : Process) (addr pages : Nat) : Nat :=
  process.growth addr + tableDemand state.ram root (roundUp process.brkCurrent) pages

/-- The process has an address space and a heap whose area is recorded. -/
structure Tracked (state : State) (pid root : Nat) (process : Process) : Prop where
  sound : Sound state
  present : state.roots pid = some root
  nonzero : root ≠ 0
  found : state.processes pid = some process
  aligned : process.brkBase % PAGE_SIZE = 0
  ordered : process.brkBase ≤ process.brkCurrent
  bounded : roundUp process.brkCurrent ≤ 2 ^ 48
  area : HeapArea (state.vmms process.vmm) process.brkBase (roundUp process.brkCurrent)

/-- The new break can be rounded up; the heap, or the frames for it, end below the end of the
address space; no page of the heap is shared memory; and a growth for whose last page there is
a frame has the tables as well. -/
def BrkSafe (pid root : Nat) (state : State) (addr : Nat) : Prop :=
  ∀ process, state.processes pid = some process → process.BrkMoves addr →
    addr + PAGE_SIZE ≤ u64Max ∧
      (roundUp addr ≤ 2 ^ 48 ∨
        roundUp process.brkCurrent + PAGE_SIZE * state.ram.pmm.clearPages.card ≤ 2 ^ 48) ∧
      HeapPrivate state root process ∧
      (0 < process.growth addr →
        state.growthDemand root process addr (process.growth addr) ≤
            state.ram.pmm.clearPages.card ∨
          state.ram.pmm.clearPages.card <
            state.growthDemand root process addr (process.growth addr - 1))

/-- What one call may do: pages outside the heap, and pages below both breaks, show what they
showed before, and without memory for a growth the break, the heap and the areas stay, and the
other pages as well if none of them is in the way. -/
structure BrkEffect (state : State) (root : Nat) (process : Process) (addr : Nat) (after : State)
    (process' : Process) : Prop where
  moved : process' = { process with brkCurrent := process'.brkCurrent }
  outside : ∀ other ∈ state.rootSet, ∀ virt < 2 ^ 48,
    ¬ (other = root ∧ process.brkBase ≤ virt ∧ virt < roundUp (max process.brkCurrent addr)) →
      viewAt after.ram (pageAt other virt) = viewAt state.ram (pageAt other virt)
  kept : ∀ virt < roundUp (min process.brkCurrent process'.brkCurrent),
    viewAt after.ram (pageAt root virt) = viewAt state.ram (pageAt root virt)
  exhausted : process.BrkMoves addr → 0 < process.growth addr →
    state.ram.pmm.clearPages.card <
        state.growthDemand root process addr (process.growth addr) →
      process' = process ∧ after.vmms = state.vmms ∧
        (∀ virt < roundUp process.brkCurrent,
          viewAt after.ram (pageAt root virt) = viewAt state.ram (pageAt root virt)) ∧
        ((∀ index < process.growth addr,
            leaf state.ram root (roundUp process.brkCurrent + PAGE_SIZE * index) = none) →
          ∀ page, PageOf state.rootSet page → viewAt after.ram page = viewAt state.ram page)

variable {state : State} {pid root addr : Nat} {process : Process}

theorem notMem_span_between {low high other virt : Nat} (alignedLow : low % PAGE_SIZE = 0)
    (alignedHigh : high % PAGE_SIZE = 0) (bounded : high ≤ 2 ^ 48) (below : virt < 2 ^ 48)
    (outside : ¬ (other = root ∧ low ≤ virt ∧ virt < high)) :
    pageAt other virt ∉ Span root low ((high - low) / PAGE_SIZE) := by
  rintro ⟨index, inRange, samePage⟩
  obtain ⟨rfl, samePath⟩ := Prod.mk.inj samePage
  refine outside ⟨rfl, ?_⟩
  have same := (pagePath_eq_iff _ _).mp samePath
  simp only [PAGE_SIZE] at *
  omega

/-- What moving the end of the heap may do: pages outside the two ends, of which the upper is
below the end of the address space, show what they showed before. -/
structure EndMoved (state : State) (root : Nat) (process : Process) (addr : Nat) (enough : Bool)
    (ram : Ram) : Prop where
  between : ∃ high ≤ max (roundUp process.brkCurrent) (roundUp addr), high ≤ 2 ^ 48 ∧
    high % PAGE_SIZE = 0 ∧
      Untouched state.rootSet (Span root (min (roundUp process.brkCurrent) (roundUp addr))
        ((high - min (roundUp process.brkCurrent) (roundUp addr)) / PAGE_SIZE)) state.ram ram
  inside : enough = true → roundUp addr ≤ 2 ^ 48
  failed : enough = false → roundUp process.brkCurrent < roundUp addr
  short : 0 < process.growth addr → state.ram.pmm.clearPages.card <
    state.growthDemand root process addr (process.growth addr) → enough = false
  vacant : enough = false → (∀ index < process.growth addr,
      leaf state.ram root (roundUp process.brkCurrent + PAGE_SIZE * index) = none) →
    ∀ page, PageOf state.rootSet page → viewAt ram page = viewAt state.ram page

theorem viewAt_eq_none {roots : Set Nat} {ram : Ram} {page : Page} (member : PageOf roots page)
    (unmapped : frameAt ram page = none) : viewAt ram page = none := by
  rw [frameAt_eq_map_viewAt ram member] at unmapped
  exact Option.map_eq_none_iff.mp unmapped

section Step

variable (tracked : Tracked state pid root process)
include tracked

section

variable (safe : BrkSafe pid root state addr) (moves : process.BrkMoves addr)

include safe moves

/-- The heap grows, or there are too few frames and everything is given back. -/
theorem Tracked.succeeds_grow (grows : roundUp process.brkCurrent < roundUp addr) :
    succeeds (mapFresh root (roundUp process.brkCurrent) .USER_RW (fun _ => [])
      ((roundUp addr - roundUp process.brkCurrent) / PAGE_SIZE) [] : RamCall Errno Bool)
      (EndMoved state root process addr) state.ram := by
  obtain ⟨rounds, inside, -, frames⟩ := safe process tracked.found moves
  have based := tracked.sound.root_mem tracked.present
  have alignedOld := roundUp_aligned process.brkCurrent
  have alignedNew := roundUp_aligned addr
  have covers : PAGE_SIZE * process.growth addr = roundUp addr - roundUp process.brkCurrent := by
    simp only [Process.growth, PAGE_SIZE] at *
    omega
  have positive : 0 < process.growth addr := by
    simp only [Process.growth, PAGE_SIZE] at *
    omega
  have word : roundUp addr ≤ u64Max := by
    simp only [roundUp, PAGE_SIZE] at *
    omega
  have decided := frames positive
  have low : min (roundUp process.brkCurrent) (roundUp addr) = roundUp process.brkCurrent :=
    min_eq_left grows.le
  refine succeeds_mono (tracked.sound.owned.succeeds_mapFresh_exact based .USER_RW
    (fun _ => Nat.zero_le _) (show _ + PAGE_SIZE * process.growth addr ≤ u64Max by omega)) ?_
  intro enough ram outcome
  have untouched := outcome.untouched
  -- a growth that goes through has a frame for each page
  have grown (fits : state.growthDemand root process addr (process.growth addr) ≤
      state.ram.pmm.clearPages.card) : EndMoved state root process addr true ram := by
    have pages : process.growth addr ≤ state.ram.pmm.clearPages.card :=
      (Nat.le_add_right _ _).trans fits
    have whole : roundUp addr ≤ 2 ^ 48 := by
      simp only [PAGE_SIZE] at *
      omega
    exact ⟨⟨roundUp addr, le_max_right _ _, whole, alignedNew, by rw [low]; exact untouched⟩,
      fun _ => whole, by rintro ⟨⟩, fun _ fewer => absurd fewer fits.not_gt, by rintro ⟨⟩⟩
  cases outcome with
  | complete _ _ _ enough => exact grown enough
  | @lastMissing _ _ last isLast _ _ _ enough _ =>
    refine grown (decided.resolve_right (Nat.not_lt.mpr ?_))
    rw [show process.growth addr = last + 1 from isLast, Nat.add_sub_cancel]
    exact enough
  | givenBack _ back =>
    obtain ⟨done, le, few, cleared, untouched⟩ := back.cleared
    have reached : roundUp process.brkCurrent + PAGE_SIZE * done ≤ roundUp addr := by
      have := Nat.mul_le_mul_left PAGE_SIZE (show done ≤ process.growth addr from le)
      omega
    have count : (roundUp process.brkCurrent + PAGE_SIZE * done -
        min (roundUp process.brkCurrent) (roundUp addr)) / PAGE_SIZE = done := by
      rw [low, Nat.add_sub_cancel_left, Nat.mul_div_cancel_left _ (by decide)]
    refine ⟨⟨roundUp process.brkCurrent + PAGE_SIZE * done, reached.trans (le_max_right _ _), ?_,
      ?_, ?_⟩, by rintro ⟨⟩, fun _ => grows, fun _ _ => rfl, fun _ vacant page member => ?_⟩
    · have := Nat.mul_le_mul_left PAGE_SIZE few
      omega
    · rw [Nat.add_mul_mod_self_left]
      exact alignedOld
    · rw [count, low]
      exact untouched
    · by_cases inSpan : page ∈ Span root (roundUp process.brkCurrent) done
      · rw [viewAt_eq_none member ((cleared page member).1 inSpan)]
        obtain ⟨index, below, rfl⟩ := inSpan
        exact (viewAt_eq_none member (vacant index (below.trans_le le))).symm
      · exact untouched page member inSpan

theorem Tracked.succeeds_shrink (shrinks : roundUp addr ≤ roundUp process.brkCurrent) :
    succeeds (unmapRange root (roundUp addr) (fun _ => true)
      ((roundUp process.brkCurrent - roundUp addr) / PAGE_SIZE) : RamCall Errno Unit)
      (fun _ ram => EndMoved state root process addr true ram) state.ram := by
  have isPrivate := (safe process tracked.found moves).2.2.1
  have bounded := tracked.bounded
  have baseLe : process.brkBase ≤ roundUp addr := moves.2.1.trans (le_roundUp addr)
  have covers := Nat.mul_div_le (roundUp process.brkCurrent - roundUp addr) PAGE_SIZE
  have noGrowth : process.growth addr = 0 := by
    rw [Process.growth, Nat.sub_eq_zero_of_le shrinks, Nat.zero_div]
  refine succeeds_mono (tracked.sound.owned.succeeds_unmapRange
    (tracked.sound.root_mem tracked.present) (by omega) fun index below _ frame mapped => ?_) ?_
  · have bound : PAGE_SIZE * index <
        PAGE_SIZE * ((roundUp process.brkCurrent - roundUp addr) / PAGE_SIZE) :=
      Nat.mul_lt_mul_of_pos_left below (by decide)
    exact isPrivate _ (baseLe.trans (Nat.le_add_right _ _)) (by omega) frame mapped
  · intro _ ram vacated
    refine ⟨⟨roundUp process.brkCurrent, le_max_left _ _, bounded, roundUp_aligned _, ?_⟩,
      fun _ => shrinks.trans bounded, nofun, fun positive => ?_, nofun⟩
    · rw [min_eq_right shrinks]
      exact vacated.untouched
    · rw [noGrowth] at positive
      exact absurd positive (Nat.lt_irrefl 0)

theorem Tracked.succeeds_moveHeapEnd :
    succeeds (moveHeapEnd root (roundUp process.brkCurrent) (roundUp addr))
      (EndMoved state root process addr) state.ram := by
  rw [moveHeapEnd]
  by_cases grows : roundUp process.brkCurrent < roundUp addr
  · rw [if_pos grows]
    exact tracked.succeeds_grow safe moves grows
  · rw [if_neg grows]
    refine succeeds_bind (succeeds_mono
      (tracked.succeeds_shrink safe moves (Nat.le_of_not_lt grows)) ?_)
    exact fun _ _ moved => succeeds_pure moved

end

theorem Tracked.brkEffect (moves : process.BrkMoves addr) {enough : Bool} {after : State}
    (moved : EndMoved state root process addr enough after.ram) {brk : Nat}
    (isBreak : brk = if enough then addr else process.brkCurrent)
    (sameAreas : enough = false → after.vmms = state.vmms) :
    BrkEffect state root process addr after { process with brkCurrent := brk } := by
  have based := tracked.sound.root_mem tracked.present
  have baseLe : process.brkBase ≤ roundUp addr := moves.2.1.trans (le_roundUp addr)
  have baseLeOld := tracked.ordered.trans (le_roundUp process.brkCurrent)
  have monotone : Monotone roundUp := fun _ _ le => roundUp_mono le
  have monoMax : roundUp (max process.brkCurrent addr) =
      max (roundUp process.brkCurrent) (roundUp addr) := monotone.map_max
  obtain ⟨high, upperEnd, bounded, alignedHigh, untouched⟩ := moved.between
  have alignedLow : min (roundUp process.brkCurrent) (roundUp addr) % PAGE_SIZE = 0 := by
    rw [min_def]
    split
    · exact roundUp_aligned process.brkCurrent
    · exact roundUp_aligned addr
  have below : ∀ virt < min (roundUp process.brkCurrent) (roundUp addr),
      viewAt after.ram (pageAt root virt) = viewAt state.ram (pageAt root virt) := by
    intro virt lower
    have inSpace := lower.trans_le ((min_le_left _ _).trans tracked.bounded)
    refine untouched _ (pageOf_pageAt based virt)
      (notMem_span_between alignedLow alignedHigh bounded inSpace ?_)
    rintro ⟨-, upper, -⟩
    omega
  refine ⟨rfl, fun other member virt low outside => ?_, fun virt lower => ?_,
    fun _ positive fewer => ?_⟩
  · refine untouched _ (pageOf_pageAt member virt)
      (notMem_span_between alignedLow alignedHigh bounded low ?_)
    rw [monoMax] at outside
    rintro ⟨isRoot, lower, upper⟩
    exact outside ⟨isRoot, (le_min baseLeOld baseLe).trans lower, upper.trans_le upperEnd⟩
  · refine below virt (lower.trans_le ?_)
    cases enough with
    | false =>
      rw [isBreak, if_neg (by decide), min_self]
      exact le_min le_rfl (moved.failed rfl).le
    | true =>
      rw [isBreak, if_pos rfl]
      exact le_min (roundUp_mono (min_le_left _ _)) (roundUp_mono (min_le_right _ _))
  · have isFailed := moved.short positive fewer
    subst isFailed
    rw [if_neg (by decide)] at isBreak
    subst isBreak
    refine ⟨rfl, sameAreas rfl, fun virt lower => below virt ?_, moved.vacant rfl⟩
    rw [min_eq_left (moved.failed rfl).le]
    exact lower

theorem Tracked.succeeds_doBrk (safe : BrkSafe pid root state addr) (moves :
    process.BrkMoves addr) :
    succeeds (doBrk pid addr) (fun value after =>
      BrkEffect state root process addr after { process with brkCurrent := value } ∧
        HeapArea (after.vmms process.vmm) process.brkBase (roundUp value) ∧
        roundUp value ≤ 2 ^ 48) state := by
  have rounds := (safe process tracked.found moves).1
  have bounded := tracked.bounded
  have oldLe := le_roundUp process.brkCurrent
  refine succeeds_bind_processOf tracked.found (succeeds_bind_gets ?_)
  rw [State.rootOf_eq tracked.present, if_neg (by
    rw [not_or, not_or, not_or, Nat.not_lt]
    exact ⟨moves.1, moves.2.1, moves.2.2, tracked.nonzero⟩)]
  refine succeeds_bind_alignUp (by simp only [PAGE_SIZE, u64Max]; omega)
    (succeeds_bind_alignUp rounds ?_)
  refine succeeds_bind (succeeds_onRam (succeeds_mono
    (tracked.succeeds_moveHeapEnd safe moves) ?_))
  intro enough ram moved
  cases enough with
  | false =>
    exact succeeds_pure ⟨tracked.brkEffect moves moved rfl fun _ => rfl, tracked.area,
      bounded⟩
  | true =>
    obtain ⟨vmm, changed⟩ : ∃ vmm, heapVma process.brkBase (roundUp process.brkCurrent)
        (roundUp addr) (state.vmms process.vmm) = some vmm :=
      exists_heapVma _ _ (by simp only [u64Max]; omega)
    have area := tracked.area.move (tracked.sound.areas process.vmm) changed
    refine succeeds_bind_modify (succeeds_bind_changeVmm
      (State.processes_updateProcess (by exact tracked.found)) changed
      (succeeds_pure ⟨tracked.brkEffect moves moved rfl (by rintro ⟨⟩), ?_, moved.inside rfl⟩))
    show HeapArea (Function.update state.vmms process.vmm vmm process.vmm) _ _
    rw [Function.update_self]
    exact area

theorem Tracked.doBrk (safe : BrkSafe pid root state addr) :
    ∃ after process', doBrk pid addr state = some (.ok process'.brkCurrent, after) ∧
      BrkEffect state root process addr after process' ∧ Tracked after pid root process' := by
  by_cases moves : process.BrkMoves addr
  · obtain ⟨value, after, returned, ⟨effect, area, bounded⟩, whole⟩ := succeeds_and_wp
      (tracked.succeeds_doBrk safe moves) (tracked.sound.wp_doBrk tracked.present tracked.found addr
        fun given above other => (safe process tracked.found ⟨given, above, other⟩).2.2.1)
    refine ⟨after, _, returned, effect, ?_⟩
    rcases whole.2 with ⟨isOld, change⟩ | ⟨above, isNew, change, -⟩
    · obtain rfl := Except.ok.inj isOld
      exact ⟨change.sound, change.roots ▸ tracked.present, tracked.nonzero, change.found,
        tracked.aligned, tracked.ordered, bounded, area⟩
    · obtain rfl := Except.ok.inj isNew
      exact ⟨change.sound, change.roots ▸ tracked.present, tracked.nonzero, change.found,
        tracked.aligned, above, bounded, area⟩
  · have idle : addr = 0 ∨ addr < process.brkBase ∨ addr = process.brkCurrent ∨ root = 0 := by
      rw [Process.BrkMoves] at moves
      omega
    obtain ⟨_, _, returned, rfl, rfl⟩ : succeeds (Mm.doBrk pid addr)
        (fun value after => value = process.brkCurrent ∧ after = state) state := by
      refine succeeds_bind_processOf tracked.found (succeeds_bind_gets ?_)
      rw [State.rootOf_eq tracked.present, if_pos idle]
      exact succeeds_pure ⟨rfl, rfl⟩
    exact ⟨_, process, returned, ⟨rfl, fun _ _ _ _ _ => rfl, fun _ _ => rfl,
      fun asked => absurd asked moves⟩, tracked⟩

end Step

/-! ### Sequences of calls -/

def brkStep (pid : Nat) (state : State) (addr : Nat) : Option State :=
  (doBrk pid addr state).map Prod.snd

/-- In a sequence of safe calls every call returns the break, it does no more than it may, and
afterwards the area of the heap ends at the break. -/
theorem doBrk_sequence (tracked : Tracked state pid root process) {addrs : List Nat}
    (safe : LabelledRun.Guarded (brkStep pid) (BrkSafe pid root) state addrs)
    {earlier later : List Nat} (split : addrs = earlier ++ addr :: later) :
    ∃ before process' after process'', LabelledRun.run (brkStep pid) state earlier = some before ∧
      Tracked before pid root process' ∧ process'.brkBase = process.brkBase ∧
      doBrk pid addr before = some (.ok process''.brkCurrent, after) ∧
      BrkEffect before root process' addr after process'' ∧ Tracked after pid root process'' := by
  subst split
  induction earlier generalizing state process with
  | nil =>
    obtain ⟨after, process'', returned, effect, trackedAfter⟩ := tracked.doBrk safe.1
    exact ⟨state, process, after, process'', rfl, tracked, rfl, returned, effect, trackedAfter⟩
  | cons first earlier ih =>
    obtain ⟨next, process', returned, effect, trackedNext⟩ := tracked.doBrk safe.1
    have stepped : brkStep pid state first = some next := by rw [brkStep, returned, Option.map_some]
    obtain ⟨before, processBefore, after, processAfter, reached, rest⟩ :=
      ih trackedNext (safe.tail stepped)
    refine ⟨before, processBefore, after, processAfter,
      LabelledRun.run_cons_eq_some.mpr ⟨next, stepped, reached⟩, rest.1, ?_, rest.2.2⟩
    rw [rest.2.1, effect.moved]

theorem tracked_fewFrames {count : Nat} (few : count ≤ 1000) :
    Tracked (bareMachine (fewFrames count)) 1 0x1000 ⟨0x401000, 0x401000, USER_MMAP_BASE, 0⟩ where
  sound := sound_fewFrames few
  present := rfl
  nonzero := by decide
  found := rfl
  aligned := by decide
  ordered := le_rfl
  bounded := by decide
  area := by
    have isEnd : roundUp 0x401000 = 0x401000 := by decide
    rw [isEnd]
    exact ⟨fun virt lower upper => absurd (lower.trans_lt upper) (Nat.lt_irrefl _),
      fun virt isHeap => by cases isHeap⟩

theorem doBrk_sequence_eightFrames : ∃ before process' after process'',
    LabelledRun.run (brkStep 1) (bareMachine (fewFrames 8)) [0x402000] = some before ∧
      Tracked before 1 0x1000 process' ∧ process'.brkBase = 0x401000 ∧
      doBrk 1 0 before = some (.ok process''.brkCurrent, after) ∧
      BrkEffect before 0x1000 process' 0 after process'' ∧ Tracked after 1 0x1000 process'' := by
  have grows : BrkSafe 1 0x1000 (bareMachine (fewFrames 8)) 0x402000 := by
    rintro _ ⟨⟩ -
    refine ⟨by decide, .inl (by decide), fun virt _ _ frame mapped => ?_, fun _ => .inl ?_⟩
    · rw [leaf_bareMachine] at mapped
      cases mapped
    · have demand := tableDemand_le (bareMachine (fewFrames 8)).ram 0x1000 (roundUp 0x401000) 1
      have card : (bareMachine (fewFrames 8)).ram.pmm.clearPages.card = 8 :=
        (counted_fewFrames (by decide)).2
      rw [card]
      show 1 + tableDemand (bareMachine (fewFrames 8)).ram 0x1000 (roundUp 0x401000) 1 ≤ 8
      omega
  have safe : LabelledRun.Guarded (brkStep 1) (BrkSafe 1 0x1000) (bareMachine (fewFrames 8))
      [0x402000, 0] := by
    refine ⟨grows, ?_⟩
    split
    · trivial
    · exact ⟨fun _ _ moves => absurd rfl moves.1, by split <;> trivial⟩
  exact doBrk_sequence (tracked_fewFrames (by decide)) safe rfl

/-- A break that cannot be rounded up panics; and with one free frame, where the page that the
heap grows by has no tables, the break moves and the page is not mapped. -/
theorem doBrk_fails : Tracked (bareMachine (fewFrames 1)) 1 0x1000
      ⟨0x401000, 0x401000, USER_MMAP_BASE, 0⟩ ∧
    doBrk 1 u64Max (bareMachine (fewFrames 1)) = none ∧
    ∃ after, doBrk 1 0x402000 (bareMachine (fewFrames 1)) = some (.ok 0x402000, after) ∧
      (after.processes 1).map Process.brkCurrent = some 0x402000 ∧
      translateUserVa after.ram 0x1000 0x401000 = none := by
  refine ⟨tracked_fewFrames (by decide), ?_, ?_⟩
  · exact Option.isNone_iff_eq_none.mp (by decide +kernel)
  · decide +kernel

end Cyllor.Mm
