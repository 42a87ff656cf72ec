import Cyllor.Mm.CopyLoop
import Cyllor.Mm.Image

/-!
Contract: the invariant of the memory state.

Owns:
- `Sound`, that frames are owned by pages, that threads share areas exactly when they share
  page tables, and that only areas of shared memory show the kernel heap to user code;
- `Effect`, what a call of one thread does to the state;
- the step from the parts that a call changed to both.
-/

namespace Cyllor.Mm

open Cyllor.Arch LinkForest
open Call hiding pure bind
open Function (update update_idem update_self update_of_ne update_eq_self)

variable {vmm : Vmm VmaName} {start virt : Nat} {ram ram' : Ram} {pages : Set Page}
  {heap roots : Set Nat}

def KernelHeap.frames (heap : KernelHeap) : Set Nat := { frame | heap.Contains frame }

def State.rootSet (state : State) : Set Nat := { root | root ∈ state.spaces }

/-- The address lies in an area of shared memory. -/
def Vmm.IsShm (vmm : Vmm VmaName) (virt : Nat) : Bool :=
  (vmm.attrsAt virt).any fun attrs => isShmArea attrs.flags attrs.name

/-- The buffer of a segment is not empty and lies in the kernel heap. -/
def ShmSegment.Inside (heap : KernelHeap) (seg : ShmSegment) : Prop :=
  0 < seg.size ∧ heap.base ≤ seg.data ∧ seg.data + seg.size ≤ heap.base + KERNEL_HEAP_SIZE

/-- Where the pages of a root show the kernel heap, an area of shared memory is. -/
def ShowsShm (heap : Set Nat) (ram : Ram) (root : Nat) (vmm : Vmm VmaName) : Prop :=
  ∀ virt < 2 ^ 48, virt % PAGE_SIZE = 0 → ∀ frame, leaf ram root virt = some frame →
    frame ∈ heap → vmm.IsShm virt

/-- The invariant of the memory state. A root of 0 stands for no page tables. -/
structure Sound (state : State) : Prop where
  owned : Owned state.heap.frames state.rootSet state.ram
  threads : ∀ pid root, state.roots pid = some root →
    root ∈ state.spaces ∧ ∃ process, state.processes pid = some process
  unborn : ∀ pid, state.nextPid ≤ pid → state.roots pid = none
  areas : ∀ id, (state.vmms id).WellFormed
  ids : ∀ pid process, state.processes pid = some process → process.vmm < state.nextVmm
  together : ∀ pid other root root' process process', state.roots pid = some root →
    state.roots other = some root' → state.processes pid = some process →
      state.processes other = some process' → (process.vmm = process'.vmm ↔ root = root')
  segments : ∀ (id : Int) (seg : ShmSegment), state.shmSegs[id]? = some seg → seg.Inside state.heap
  shows : ∀ pid root process, state.roots pid = some root → root ≠ 0 →
    state.processes pid = some process →
      ShowsShm state.heap.frames state.ram root (state.vmms process.vmm)

/-- What a call of one thread does: it maps only pages of the set, and leaves the other
threads and the address spaces as they are. -/
structure Effect (state : State) (pid : Nat) (process : Process) (pages : Set Page)
    (after : State) : Prop where
  sound : Sound after
  heap : after.heap = state.heap
  spaces : after.spaces = state.spaces
  roots : after.roots = state.roots
  nextPid : after.nextPid = state.nextPid
  processes : after.processes = update state.processes pid (some process)
  mapped : ∀ page, PageOf state.rootSet page → (frameAt after.ram page).isSome →
    (frameAt state.ram page).isSome ∨ page ∈ pages

/-! ### Areas -/

theorem State.isShmPage_eq {state : State} {pid : Nat} {process : Process}
    (found : state.processes pid = some process) (virt : Nat) :
    state.isShmPage pid virt = (state.vmms process.vmm).IsShm virt := by
  rw [State.isShmPage, State.vmmOf, found, Vmm.IsShm, Vmm.attrsAt, Option.map_some,
    Option.bind_some, Option.any_map]

theorem Vmm.WellFormed.isShm_map (wellFormed : vmm.WellFormed) {stop : Nat} (range : start < stop)
    (prot flags offset : Nat) (name : Option VmaName) (virt : Nat) :
    (vmm.map start stop prot flags offset name).IsShm virt =
      if start ≤ virt ∧ virt < stop then isShmArea flags name else vmm.IsShm virt := by
  rw [Vmm.IsShm, wellFormed.attrsAt_map range, Vmm.VmmCall.meaning, Vmm.IsShm]
  split <;> rfl

theorem Vmm.WellFormed.isShm_unmap {after : Vmm VmaName} (wellFormed : vmm.WellFormed) {len : Nat}
    (unmapped : vmm.unmap start len = some after)
    (outside : ¬ (start ≤ virt ∧ virt < start + len)) : after.IsShm virt = vmm.IsShm virt := by
  rw [Vmm.IsShm, (wellFormed.attrsAt_unmap unmapped).2, Vmm.VmmCall.meaning, if_neg outside,
    Vmm.IsShm]

theorem Vmm.WellFormed.isShm_mprotect {after : Vmm VmaName} (wellFormed : vmm.WellFormed)
    {len prot : Nat} (nonempty : 0 < len) (changed : vmm.mprotect start len prot = some after)
    (virt : Nat) :
    after.IsShm virt = vmm.IsShm virt := by
  rw [Vmm.IsShm, (wellFormed.attrsAt_mprotect nonempty changed).2, Vmm.VmmCall.meaning, Vmm.IsShm]
  split
  · rw [Option.any_map]
  · rfl

/-- The buffers of all segments lie in the kernel heap. -/
def Buffers (heap : KernelHeap) (segs : BTreeMap Int ShmSegment) : Prop :=
  ∀ (id : Int) (seg : ShmSegment), segs[id]? = some seg → seg.Inside heap

/-! ### Calls of one thread -/

variable {state after : State} {pid root : Nat} {process : Process}

theorem Sound.root_mem (sound : Sound state) (present : state.roots pid = some root) :
    root ∈ state.rootSet :=
  (sound.threads pid root present).1

theorem State.rootOf_eq (present : state.roots pid = some root) : state.rootOf pid = root := by
  rw [State.rootOf, present]
  rfl

/-- The parts of the state that a call of one thread changes: memory, the entry of the
process without the identity of its areas, these areas, and the bookkeeping of shared
memory. -/
structure ChangesThread (state : State) (pid : Nat) (process process' : Process) (ram : Ram)
    (vmm : Vmm VmaName) (after : State) : Prop where
  ram : after.ram = ram
  heap : after.heap = state.heap
  spaces : after.spaces = state.spaces
  roots : after.roots = state.roots
  nextPid : after.nextPid = state.nextPid
  processes : after.processes = update state.processes pid (some process')
  sameVmm : process'.vmm = process.vmm
  vmms : after.vmms = update state.vmms process.vmm vmm
  nextVmm : after.nextVmm = state.nextVmm

theorem ShowsShm.imp {vmm' : Vmm VmaName} (shows : ShowsShm heap ram root vmm)
    (stays : ∀ virt < 2 ^ 48, virt % PAGE_SIZE = 0 → ∀ frame ∈ heap,
      leaf ram' root virt = some frame →
        leaf ram root virt = some frame ∧ vmm'.IsShm virt = vmm.IsShm virt) :
    ShowsShm heap ram' root vmm' := by
  intro virt below aligned frame mapped inHeap
  obtain ⟨before, same⟩ := stays virt below aligned frame inHeap mapped
  rw [same]
  exact shows virt below aligned frame before inHeap

theorem Refreshed.leaf_of_heap (refreshed : Refreshed heap roots pages ram ram')
    (based : root ∈ roots) {frame : Nat} (inHeap : frame ∈ heap)
    (mapped : leaf ram' root virt = some frame) :
    leaf ram root virt = some frame := by
  rcases refreshed _ (pageOf_pageAt based virt) with same | ⟨-, outside⟩
  · exact same.symm.trans mapped
  · exact absurd inHeap (outside frame mapped)

section

variable {process' : Process} {mapped : Set Page}
  (changes : ChangesThread state pid process process' ram vmm after) (isSound : Sound state)
  (present : state.roots pid = some root) (found : state.processes pid = some process)
  (owned : Owned state.heap.frames state.rootSet ram) (wellFormed : vmm.WellFormed)

include changes isSound present found owned wellFormed

/-- A call of one thread keeps the invariant if it keeps the ownership of frames, changes
only pages of its own address space, and keeps areas of shared memory where the kernel
heap shows. -/
theorem ChangesThread.sound
    (touched : Touched state.rootSet { page | page.1 = root } state.ram ram)
    (segments : Buffers state.heap after.shmSegs)
    (shows : root ≠ 0 → ShowsShm state.heap.frames ram root vmm) : Sound after := by
  -- an entry has the areas it had
  have entry : ∀ other known, after.processes other = some known →
      ∃ before, state.processes other = some before ∧ before.vmm = known.vmm := by
    intro other known isKnown
    rw [changes.processes] at isKnown
    by_cases isPid : other = pid
    · rw [isPid, update_self] at isKnown
      obtain rfl := Option.some.inj isKnown
      exact ⟨process, by rw [isPid]; exact found, changes.sameVmm.symm⟩
    · rw [update_of_ne isPid] at isKnown
      exact ⟨known, isKnown, rfl⟩
  refine ⟨?_, ?_, ?_, ?_, ?_, ?_, ?_, ?_⟩
  · rw [State.rootSet, changes.heap, changes.spaces, changes.ram]
    exact owned
  · intro other otherRoot otherPresent
    rw [changes.roots] at otherPresent
    obtain ⟨member, known, isKnown⟩ := isSound.threads other otherRoot otherPresent
    rw [changes.spaces, changes.processes]
    refine ⟨member, ?_⟩
    by_cases isPid : other = pid
    · exact ⟨process', by rw [isPid, update_self]⟩
    · exact ⟨known, by rw [update_of_ne isPid]; exact isKnown⟩
  · rw [changes.nextPid, changes.roots]
    exact isSound.unborn
  · intro id
    rw [changes.vmms]
    by_cases isVmm : id = process.vmm
    · rw [isVmm, update_self]
      exact wellFormed
    · rw [update_of_ne isVmm]
      exact isSound.areas id
  · intro other known isKnown
    obtain ⟨before, isBefore, sameVmm⟩ := entry other known isKnown
    rw [changes.nextVmm, ← sameVmm]
    exact isSound.ids other before isBefore
  · intro first second firstRoot secondRoot firstProcess secondProcess isFirst isSecond
      firstKnown secondKnown
    rw [changes.roots] at isFirst isSecond
    obtain ⟨firstBefore, isFirstBefore, firstVmm⟩ := entry first firstProcess firstKnown
    obtain ⟨secondBefore, isSecondBefore, secondVmm⟩ := entry second secondProcess secondKnown
    rw [← firstVmm, ← secondVmm]
    exact isSound.together first second _ _ _ _ isFirst isSecond isFirstBefore isSecondBefore
  · rw [changes.heap]
    exact segments
  · intro other otherRoot known otherPresent nonzero isKnown
    rw [changes.roots] at otherPresent
    obtain ⟨before, isBefore, sameVmm⟩ := entry other known isKnown
    have together := isSound.together other pid _ _ _ _ otherPresent present isBefore found
    rw [changes.heap, changes.vmms, changes.ram, ← sameVmm]
    by_cases isRoot : otherRoot = root
    · rw [together.mpr isRoot, update_self, isRoot]
      exact shows (isRoot ▸ nonzero)
    · rw [update_of_ne fun same => isRoot (together.mp same)]
      intro virt below aligned frame mapped inHeap
      have member := pageOf_pageAt (isSound.root_mem otherPresent) virt
      have same : leaf ram otherRoot virt = leaf state.ram otherRoot virt :=
        touched _ member isRoot
      exact isSound.shows other otherRoot before otherPresent nonzero isBefore virt below aligned
        frame (same ▸ mapped) inHeap

variable (inRoot : pages ⊆ { page | page.1 = root }) (segments : Buffers state.heap after.shmSegs)
  (isMapped : ∀ page, PageOf state.rootSet page → (frameAt ram page).isSome →
    (frameAt state.ram page).isSome ∨ page ∈ mapped)

include inRoot segments isMapped

theorem ChangesThread.effect (touched : Touched state.rootSet pages state.ram ram)
    (shows : root ≠ 0 → ShowsShm state.heap.frames ram root vmm) :
    Effect state pid process' mapped after where
  sound := changes.sound isSound present found owned wellFormed
    (fun page member other => touched page member fun inside => other (inRoot inside)) segments
    shows
  heap := changes.heap
  spaces := changes.spaces
  roots := changes.roots
  nextPid := changes.nextPid
  processes := changes.processes
  mapped page member now := isMapped page member (changes.ram ▸ now)

theorem ChangesThread.effect_of_refreshed
    (refreshed : Refreshed state.heap.frames state.rootSet pages state.ram ram)
    (isShm : root ≠ 0 → ∀ virt, virt % PAGE_SIZE = 0 → ∀ frame ∈ state.heap.frames,
      leaf ram root virt = some frame → vmm.IsShm virt = (state.vmms process.vmm).IsShm virt) :
    Effect state pid process' mapped after := by
  refine changes.effect isSound present found owned wellFormed inRoot segments isMapped
    refreshed.touched fun nonzero => ?_
  refine (isSound.shows pid root process present nonzero found).imp ?_
  intro virt _ aligned frame inHeap now
  exact ⟨refreshed.leaf_of_heap (isSound.root_mem present) inHeap now,
    isShm nonzero virt aligned frame inHeap now⟩

end

theorem Sound.effect_refl (sound : Sound state) (found : state.processes pid = some process)
    (pages : Set Page) : Effect state pid process pages state :=
  ⟨sound, rfl, rfl, rfl, rfl, by rw [← found, update_eq_self], fun _ _ => .inl⟩

theorem Effect.trans {middle : State} {process' : Process}
    (first : Effect state pid process pages middle)
    (second : Effect middle pid process' pages after) : Effect state pid process' pages after where
  sound := second.sound
  heap := second.heap.trans first.heap
  spaces := second.spaces.trans first.spaces
  roots := second.roots.trans first.roots
  nextPid := second.nextPid.trans first.nextPid
  processes := by rw [second.processes, first.processes, update_idem]
  mapped page member isMapped := by
    have memberMiddle : PageOf middle.rootSet page := by
      rw [State.rootSet, first.spaces]
      exact member
    rcases second.mapped page memberMiddle isMapped with before | inside
    · exact first.mapped page member before
    · exact .inr inside

theorem Effect.mono {more : Set Page} (effect : Effect state pid process pages after)
    (subset : pages ⊆ more) : Effect state pid process more after :=
  { effect with
    mapped := fun page member isMapped =>
      (effect.mapped page member isMapped).imp_right fun inside => subset inside }

theorem Effect.found (effect : Effect state pid process pages after) :
    after.processes pid = some process := by
  rw [effect.processes, update_self]

/-! ### Rules for the parts of calls -/

section

variable {σ ε α : Type} {store : σ} {value : Nat} {post : Except ε α → σ → Prop}
  {next : Nat → Call σ ε α}

theorem wp_bind_alignUp (value : Nat) (next : Nat → Call σ ε α) :
    wp (alignUp value >>= next) post store ↔
      (value + PAGE_SIZE ≤ u64Max → wp (next (roundUp value)) post store) := by
  rw [wp_bind, alignUp, wp_bind_word]
  refine imp_congr_right fun _ => ?_
  rw [wp_pure]
  rfl

theorem succeeds_bind_alignUp {post : α → σ → Prop} (fits : value + PAGE_SIZE ≤ u64Max)
    (holds : succeeds (next (roundUp value)) post store) :
    succeeds (alignUp value >>= next) post store :=
  succeeds_bind (succeeds_bind_word fits ⟨roundUp value, store, rfl, holds⟩)

theorem ends_bind_alignUp (fits : value + PAGE_SIZE ≤ u64Max)
    (holds : ends (next (roundUp value)) post store) :
    ends (alignUp value >>= next) post store :=
  ends_bind (ends_bind_word fits ⟨_, store, rfl, holds⟩)

theorem endsOr_bind_alignUp {panics : Prop}
    (overflows : u64Max < value + PAGE_SIZE → panics)
    (holds : endsOr panics (next (roundUp value)) post store) :
    endsOr panics (alignUp value >>= next) post store :=
  endsOr_bind (endsOr_bind_word overflows fun _ => .inl (ends_pure holds))

end

theorem wp_bind_processOf {α : Type} {post : Except Errno α → State → Prop}
    (found : state.processes pid = some process) (next : Process → MmCall α) :
    wp (processOf pid >>= next) post state ↔ wp (next process) post state := by
  rw [wp_bind, processOf, wp_bind_gets, wp_ofOption, found]
  simp

theorem wp_bind_onRam {α β : Type} {post : Except Errno β → State → Prop}
    (call : RamCall Errno α) (next : α → MmCall β) :
    wp (onRam call >>= next) post state ↔
      wp call (fun result ram =>
        match result with
        | .error error => post (.error error) { state with ram := ram }
        | .ok value => wp (next value) post { state with ram := ram }) state.ram := by
  rw [wp_bind, onRam, wp_zoom]
  refine forall_congr' fun result => forall_congr' fun ram => imp_congr_right fun _ => ?_
  cases result <;> rfl

theorem succeeds_onRam {α : Type} {post : α → State → Prop} {call : RamCall Errno α}
    (holds : succeeds call (fun value ram => post value { state with ram := ram }) state.ram) :
    succeeds (onRam call) post state :=
  succeeds_zoom holds

theorem succeeds_bind_processOf {α : Type} {post : α → State → Prop}
    {next : Process → MmCall α} (found : state.processes pid = some process)
    (holds : succeeds (next process) post state) :
    succeeds (processOf pid >>= next) post state := by
  refine succeeds_bind (succeeds_bind_gets ?_)
  rw [found]
  exact succeeds_pure holds

theorem succeeds_bind_changeVmm {α : Type} {post : α → State → Prop}
    {change : Vmm VmaName → Option (Vmm VmaName)} {vmm : Vmm VmaName} {next : Unit → MmCall α}
    (found : state.processes pid = some process)
    (changed : change (state.vmms process.vmm) = some vmm)
    (holds : succeeds (next ()) post (state.setVmm process.vmm vmm)) :
    succeeds (changeVmm pid change >>= next) post state := by
  refine succeeds_bind (succeeds_bind_gets ?_)
  rw [found]
  refine succeeds_bind_gets ?_
  rw [changed]
  exact succeeds_modify holds

theorem endsOr_bind_changeVmm {α : Type} {panics : Prop} {post : Except Errno α → State → Prop}
    {change : Vmm VmaName → Option (Vmm VmaName)} {next : Unit → MmCall α}
    (found : state.processes pid = some process)
    (fails : change (state.vmms process.vmm) = none → panics)
    (holds : ∀ vmm, change (state.vmms process.vmm) = some vmm →
      endsOr panics (next ()) post (state.setVmm process.vmm vmm)) :
    endsOr panics (changeVmm pid change >>= next) post state := by
  refine endsOr_bind (endsOr_bind_gets ?_)
  rw [found]
  refine endsOr_bind_gets ?_
  cases changed : change (state.vmms process.vmm) with
  | none => exact .inr ⟨fails changed, rfl⟩
  | some vmm => exact .inl ⟨_, _, rfl, holds vmm changed⟩

section

variable (found : state.processes pid = some process) (change : Vmm VmaName → Option (Vmm VmaName))

include found change

theorem wp_changeVmm {post : Except Errno Unit → State → Prop} :
    wp (changeVmm pid change) post state ↔
      ∀ vmm, change (state.vmms process.vmm) = some vmm →
        post (.ok ()) (state.setVmm process.vmm vmm) := by
  rw [changeVmm, wp_bind_gets, found]
  dsimp only
  rw [wp_bind_gets]
  cases changed : change (state.vmms process.vmm) with
  | none => simp
  | some vmm => simp

theorem wp_bind_changeVmm {α : Type} {post : Except Errno α → State → Prop}
    (next : Unit → MmCall α) :
    wp (changeVmm pid change >>= next) post state ↔
      ∀ vmm, change (state.vmms process.vmm) = some vmm →
        wp (next ()) post (state.setVmm process.vmm vmm) := by
  rw [wp_bind, wp_changeVmm found]

end

/-! ### Segments -/

section Buffers

variable {heap : KernelHeap} {segs : BTreeMap Int ShmSegment}

theorem Buffers.modify (buffers : Buffers heap segs) (shmid : Int)
    {change : ShmSegment → ShmSegment}
    (same : ∀ seg, (change seg).size = seg.size ∧ (change seg).data = seg.data) :
    Buffers heap (segs.modify shmid change) := by
  intro id seg found
  rw [Std.ExtTreeMap.getElem?_modify] at found
  split at found
  · obtain ⟨before, isBefore, rfl⟩ := Option.map_eq_some_iff.mp found
    rw [ShmSegment.Inside, (same before).1, (same before).2]
    exact buffers shmid before isBefore
  · exact buffers id seg found

theorem Buffers.keepAttached (buffers : Buffers heap segs) : Buffers heap (keepAttached segs) := by
  intro id seg found
  rw [Mm.keepAttached, Std.ExtTreeMap.getElem?_filter'] at found
  exact buffers id seg (Option.filter_eq_some_iff.mp found).1

theorem Buffers.detachAll (buffers : Buffers heap segs) (shmids : List Int) :
    Buffers heap (detachAll segs shmids) := by
  induction shmids generalizing segs with
  | nil => exact buffers
  | cons shmid shmids ih =>
    exact ih (buffers.modify shmid fun _ => ⟨rfl, rfl⟩)

end Buffers

/-! ### Pages and addresses -/

theorem span_subset_root (base addr count : Nat) :
    Span base addr count ⊆ { page | page.1 = base } := by
  rintro page ⟨index, -, rfl⟩
  rfl

theorem Cleared.mapped (cleared : Cleared roots pages ram ram') {page : Page}
    (member : PageOf roots page) (isMapped : (frameAt ram' page).isSome) :
    (frameAt ram page).isSome := by
  by_cases inside : page ∈ pages
  · rw [(cleared page member).1 inside] at isMapped
    cases isMapped
  · rwa [(cleared page member).2 inside] at isMapped

theorem Refreshed.mapped (refreshed : Refreshed heap roots pages ram ram') {page : Page}
    (member : PageOf roots page) (isMapped : (frameAt ram' page).isSome) :
    (frameAt ram page).isSome ∨ page ∈ pages := by
  rcases refreshed page member with same | ⟨inside, -⟩
  · exact .inl (same ▸ isMapped)
  · exact .inr inside

end Cyllor.Mm
