import Cyllor.Mm.FrameCount

/-!
Contract: the driver of the virtio block device (`drivers/virtio/block.rs`, and `setup_queue` of
`drivers/virtio/mmio.rs` for a device of version 1).

Owns: where the driver places the queue, where the device finds it, and when both agree.
-/

namespace Cyllor.Drivers

open Cyllor.Mm

def QUEUE_SIZE : Nat := 16

/-- The physical addresses of a queue. The driver reaches them through the direct map. -/
structure Virtqueue where
  desc : Nat
  avail : Nat
  used : Nat
deriving DecidableEq, Repr

/-- What `setup_queue` tells a legacy device. -/
structure QueueRegs where
  queueNum : Nat
  queueAlign : Nat
  queuePfn : Nat
deriving DecidableEq, Repr

def setupQueue (queueSize : Nat) (queue : Virtqueue) : QueueRegs :=
  ⟨queueSize, 4096, queue.desc / 4096 % 2 ^ 32⟩

/-- Where a legacy device finds its queue: descriptors of 16 bytes, behind them the available ring
with its three fields and an entry of two bytes for each descriptor, and the used ring at the next
aligned address. -/
def QueueRegs.queue (regs : QueueRegs) : Virtqueue :=
  let desc := 4096 * regs.queuePfn
  let avail := desc + 16 * regs.queueNum
  let stop := avail + (6 + 2 * regs.queueNum)
  ⟨desc, avail, (stop + regs.queueAlign - 1) / regs.queueAlign * regs.queueAlign⟩

structure BlockDevice where
  queue : Virtqueue
  regs : QueueRegs
  reqHeaderPhys : Nat
  dataBufPhys : Nat
deriving DecidableEq, Repr

/-- `pmm::alloc_page().unwrap()`. -/
def unwrapPage (pmm : BitmapAllocator) : Option (Nat × BitmapAllocator) := do
  let (frame, pmm) ← pmm.allocPage
  return (← frame, pmm)

def initBlockDevice (pmm : BitmapAllocator) : Option (BlockDevice × BitmapAllocator) := do
  let (queuePhys, pmm) ← unwrapPage pmm
  let (queuePhys2, pmm) ← unwrapPage pmm
  let queue := ⟨queuePhys, queuePhys + 16 * QUEUE_SIZE, queuePhys2⟩
  let (reqPagePhys, pmm) ← unwrapPage pmm
  let (dataPagePhys, pmm) ← unwrapPage pmm
  return (⟨queue, setupQueue QUEUE_SIZE queue, reqPagePhys, dataPagePhys⟩, pmm)

/-! ### The queue of a legacy device -/

variable {pmm : BitmapAllocator}

theorem unwrapPage_spec {count : Nat} (clear : count + 1 ≤ pmm.clearPages.card)
    (counter : count + 1 ≤ pmm.freePages) :
    ∃ frame pmm', unwrapPage pmm = some (frame, pmm') ∧
      IsLeast { other | pmm.IsFree other } frame ∧
      (∀ other, pmm'.IsFree other ↔ pmm.IsFree other ∧ other ≠ frame) ∧
      count ≤ pmm'.clearPages.card ∧ count ≤ pmm'.freePages := by
  rcases pmm.allocPage_cases with
    ⟨-, full⟩ | ⟨frame, lowest, ⟨nothing, -⟩ | ⟨pmm', allocated, spent, frees⟩⟩
  · rw [BitmapAllocator.card_of_full full] at clear
    omega
  · omega
  · have back : ∀ other, pmm.IsFree other ↔ pmm'.IsFree other ∨ other = frame := by
      intro other
      rw [frees]
      by_cases same : other = frame
      · simpa [same] using lowest.1
      · simp [same]
    have card := BitmapAllocator.card_clearPages_give (fun free => ((frees frame).mp free).2 rfl)
      (BitmapAllocator.IsFree.bounds lowest.1).1 back
    refine ⟨frame, pmm', ?_, lowest, frees, by omega, by omega⟩
    rw [unwrapPage, allocated]
    rfl

theorem queue_setupQueue {queuePhys : Nat} (aligned : queuePhys % PAGE_SIZE = 0)
    (bounded : queuePhys < 2 ^ 32) (queuePhys2 : Nat) :
    (setupQueue QUEUE_SIZE ⟨queuePhys, queuePhys + 16 * QUEUE_SIZE, queuePhys2⟩).queue =
      ⟨queuePhys, queuePhys + 16 * QUEUE_SIZE, queuePhys + PAGE_SIZE⟩ := by
  simp only [QueueRegs.queue, setupQueue, QUEUE_SIZE, PAGE_SIZE, Virtqueue.mk.injEq] at *
  omega

/-- A legacy device uses the queue that the driver set up exactly when the frame behind the
lowest free one is free too. -/
theorem legacy_queue_iff (clear : 4 ≤ pmm.clearPages.card) (counter : 4 ≤ pmm.freePages) :
    ∃ device after, initBlockDevice pmm = some (device, after) ∧
      (device.queue = device.regs.queue ↔
        ∃ frame, IsLeast { other | pmm.IsFree other } frame ∧ pmm.IsFree (frame + PAGE_SIZE)) := by
  obtain ⟨first, pmm₁, got₁, least₁, frees₁, clear₁, counter₁⟩ := unwrapPage_spec clear counter
  obtain ⟨second, pmm₂, got₂, least₂, -, clear₂, counter₂⟩ := unwrapPage_spec clear₁ counter₁
  obtain ⟨third, pmm₃, got₃, -, -, clear₃, counter₃⟩ := unwrapPage_spec clear₂ counter₂
  obtain ⟨fourth, pmm₄, got₄, -, -, -, -⟩ := unwrapPage_spec clear₃ counter₃
  have firstFree : pmm.IsFree first := least₁.1
  have secondFree : pmm.IsFree second ∧ second ≠ first := (frees₁ second).mp least₂.1
  obtain ⟨aligned, bounded⟩ := firstFree.bounds
  have returned : initBlockDevice pmm = some (⟨⟨first, first + 16 * QUEUE_SIZE, second⟩,
      setupQueue QUEUE_SIZE ⟨first, first + 16 * QUEUE_SIZE, second⟩, third, fourth⟩, pmm₄) := by
    simp [initBlockDevice, got₁, got₂, got₃, got₄]
  refine ⟨_, _, returned, ?_⟩
  rw [queue_setupQueue aligned bounded, Virtqueue.mk.injEq]
  simp only [true_and]
  constructor
  · intro next
    exact ⟨first, least₁, next ▸ secondFree.1⟩
  · rintro ⟨frame, least, next⟩
    obtain rfl := least.unique least₁
    have nextLeft : pmm₁.IsFree (frame + PAGE_SIZE) :=
      (frees₁ _).mpr ⟨next, by simp [PAGE_SIZE]⟩
    have upper : second ≤ frame + PAGE_SIZE := least₂.2 nextLeft
    have lower : frame ≤ second := least₁.2 secondFree.1
    have alignedToo := secondFree.1.bounds.1
    have different := secondFree.2
    simp only [PAGE_SIZE] at *
    omega

/-- Four free frames, of which the lowest one is alone. -/
def splitFrames : BitmapAllocator where
  bitmap word := if word = 0 then ~~~ 0b111010#64 else BitVec.allOnes 64
  totalPages := 4
  freePages := 4

theorem four_le_card_splitFrames : 4 ≤ splitFrames.clearPages.card := by
  have free : ({1, 3, 4, 5} : Finset Nat) ⊆ splitFrames.clearPages := by
    intro page member
    rw [BitmapAllocator.mem_clearPages]
    fin_cases member <;> decide
  exact Finset.card_le_card free

theorem legacy_queue_iff_split :
    (4 ≤ splitFrames.clearPages.card ∧ 4 ≤ splitFrames.freePages) ∧
      ∃ device after, initBlockDevice splitFrames = some (device, after) ∧
        (device.queue = device.regs.queue ↔ ∃ frame,
          IsLeast { other | splitFrames.IsFree other } frame ∧
            splitFrames.IsFree (frame + PAGE_SIZE)) :=
  ⟨⟨four_le_card_splitFrames, by decide⟩,
    legacy_queue_iff four_le_card_splitFrames (by decide)⟩

/-- The driver reads the used ring at `0x3000`, and the device writes it at `0x2000`. -/
theorem legacy_queue_apart : 4 ≤ splitFrames.clearPages.card ∧
    ((initBlockDevice splitFrames).map fun result =>
      (result.1.queue.used, result.1.regs.queue.used)) = some (0x3000, 0x2000) :=
  ⟨four_le_card_splitFrames, by decide +kernel⟩

end Cyllor.Drivers
