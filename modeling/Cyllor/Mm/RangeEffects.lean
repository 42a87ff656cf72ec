import Cyllor.Mm.Progress

/-!
Contract: what unmapping and mapping a range of pages does, in full.

Owns:
- `Vacated`, what `do_munmap` leaves behind: the range is unmapped, the frames that were not
  shared memory are free, and the rest is as it was;
- the outcome of the part of `do_mmap` that maps new frames, for every number of free frames.
-/

namespace Cyllor.Mm

open Cyllor.Arch LinkForest
open Call hiding pure bind

variable {heap roots : Set Nat} {ram ram' : Ram} {base : Nat} {ε : Type}

section Calls

variable {state : State} {pid root : Nat} {process : Process}

/-- The areas of a process after a new mapping. -/
def mappedAreas (vmm : Vmm VmaName) (mapAddr alignedLen prot flags : Nat) (fd offset : Int) :
    Vmm VmaName :=
  vmm.map mapAddr (mapAddr + alignedLen) prot
    ((if flags &&& MAP_SHARED ≠ 0 then MAP_SHARED else MAP_PRIVATE) ||| (flags &&& MAP_ANONYMOUS))
    (max offset 0).toNat (some (if flags &&& MAP_ANONYMOUS ≠ 0 then .anon else .fd fd))

/-- What the part of `do_mmap` that maps new frames returns and leaves behind. -/
def Filled (state : State) (root : Nat) (process : Process) (mapAddr alignedLen prot flags : Nat)
    (fd offset : Int) (file : Option (List UInt8)) (result : Except Errno Nat) (after : State) :
    Prop :=
  ∃ enough ram, FreshOutcome state.heap.frames state.rootSet root mapAddr (protToPageAttr prot)
      (fileBytes file fd offset) state.ram (alignedLen / PAGE_SIZE) enough ram ∧
    if enough then
      result = .ok mapAddr ∧ after = ({ state with ram := ram } : State).setVmm process.vmm
        (mappedAreas (state.vmms process.vmm) mapAddr alignedLen prot flags fd offset)
    else result = .error .ENOMEM ∧ after = { state with ram := ram }

/-- Where `do_mmap` maps. -/
def Process.mmapTarget (process : Process) (addr flags : Nat) : Nat :=
  if flags &&& MAP_FIXED ≠ 0 then addr else roundUp process.mmapNext

/-- How many pages `do_mmap` unmaps first. -/
def replacedPages (length flags : Nat) : Nat :=
  if flags &&& MAP_FIXED ≠ 0 then roundUp length / PAGE_SIZE else 0

/-- The state in which `do_mmap` starts to map new frames. -/
structure Ready (state : State) (pid root : Nat) (process : Process) (target length flags : Nat)
    (process' : Process) (middle : State) : Prop where
  effect : Effect state pid process' ∅ middle
  sameVmm : process'.vmm = process.vmm
  vacated : Vacated state.heap.frames state.rootSet root target (state.givesBack pid target)
    (replacedPages length flags) state.ram middle.ram

section Ready

variable {target length flags : Nat} {process' : Process} {middle after : State}

theorem Ready.rootSet_eq
    (ready : Ready state pid root process target length flags process' middle) :
    middle.rootSet = state.rootSet := by
  rw [State.rootSet, State.rootSet, ready.effect.spaces]

theorem Ready.untouched (ready : Ready state pid root process target length flags process' middle)
    {alignedLen prot : Nat} {fd offset : Int} {file : Option (List UInt8)}
    {result : Except Errno Nat} (isLength : alignedLen = roundUp length)
    (filled : Filled middle root process' target alignedLen prot flags fd offset file result
      after) :
    Untouched state.rootSet (Span root target (roundUp length / PAGE_SIZE)) state.ram
      after.ram := by
  obtain ⟨enough, ram, outcome, isResult⟩ := filled
  have isRam : after.ram = ram := by
    split at isResult <;> rw [isResult.2]
    rfl
  have replaced : replacedPages length flags ≤ roundUp length / PAGE_SIZE := by
    rw [replacedPages]
    split
    · exact le_rfl
    · exact Nat.zero_le _
  have later := outcome.untouched
  rw [ready.rootSet_eq, isLength] at later
  rw [isRam]
  exact (ready.vacated.untouched.mono (span_mono replaced)).trans later

end Ready

/-! ### `do_munmap` and `do_mmap` -/

variable (sound : Sound state) (present : state.roots pid = some root) (nonzero : root ≠ 0)
  (found : state.processes pid = some process)

include sound present nonzero found

theorem Sound.succeeds_doMunmap {addr length : Nat} (nonempty : length ≠ 0)
    (aligned : addr % PAGE_SIZE = 0) (inside : addr + roundUp length ≤ 2 ^ 48) :
    succeeds (doMunmap pid addr length) (fun value after => value = 0 ∧
      Effect state pid process ∅ after ∧
        Vacated state.heap.frames state.rootSet root addr (state.givesBack pid addr)
          (roundUp length / PAGE_SIZE) state.ram after.ram) state := by
  obtain ⟨_, after, returned, effect, vacates⟩ := sound.ends_doMunmap present found inside
  obtain ⟨rfl, vacated⟩ := vacates nonzero nonempty aligned
  exact ⟨0, after, returned, rfl, effect, vacated⟩

theorem Sound.ends_fillMapping {mapAddr alignedLen : Nat}
    (bounded : mapAddr + alignedLen ≤ u64Max) (prot flags : Nat) (fd offset : Int)
    (file : Option (List UInt8)) :
    ends (fillMapping pid mapAddr alignedLen prot flags fd offset file)
      (Filled state root process mapAddr alignedLen prot flags fd offset file) state := by
  have covers := Nat.mul_div_le alignedLen PAGE_SIZE
  refine ends_bind_gets ?_
  rw [State.rootOf_eq present, if_neg nonzero]
  refine ends_bind_of_succeeds (succeeds_onRam (succeeds_mono
    (sound.owned.succeeds_mapFresh_exact (sound.root_mem present) (protToPageAttr prot)
      (length_fileBytes file fd offset) (by omega)) ?_))
  intro enough ram outcome
  cases enough with
  | false => exact ends_throw ⟨false, ram, outcome, rfl, rfl⟩
  | true =>
    refine ends_of_succeeds (succeeds_bind (succeeds_bind_gets ?_))
    show succeeds (Call.ofOption _ (state.processes pid)) _ _
    rw [found]
    refine succeeds_pure (succeeds_bind_word bounded (succeeds_bind_changeVmm
      (by exact found) (by rfl) (succeeds_pure ⟨true, ram, outcome, rfl, rfl⟩)))

theorem Sound.ends_doMmap {addr length prot flags : Nat} {fd offset : Int}
    (file : Option (List UInt8))
    (accepted : mmapRejects (roundUp length) prot flags fd offset = false)
    (placed : flags &&& MAP_FIXED ≠ 0 → addr ≠ 0 ∧ addr % PAGE_SIZE = 0)
    (inside : process.mmapTarget addr flags + roundUp length ≤ 2 ^ 48) :
    ends (doMmap pid addr length prot flags fd offset file) (fun result after =>
      ∃ process' middle,
        Ready state pid root process (process.mmapTarget addr flags) length flags process' middle ∧
        Filled middle root process' (process.mmapTarget addr flags) (roundUp length) prot flags
          fd offset file result after) state := by
  have rounded := le_roundUp length
  have whole :
    roundUp (roundUp length) = roundUp length := roundUp_of_aligned (roundUp_aligned length)
  refine ends_bind_alignUp (by simp only [PAGE_SIZE, u64Max]; omega) ?_
  rw [accepted, if_neg (by decide)]
  by_cases fixed : flags &&& MAP_FIXED ≠ 0
  · have isTarget : process.mmapTarget addr flags = addr := if_pos fixed
    have isCount : replacedPages length flags = roundUp length / PAGE_SIZE := if_pos fixed
    obtain ⟨notNull, aligned⟩ := placed fixed
    rw [isTarget] at inside ⊢
    have nonempty : roundUp length ≠ 0 := by
      intro empty
      rw [mmapRejects, empty] at accepted
      simp at accepted
    refine ends_bind_of_succeeds (succeeds_bind_processOf found ?_)
    rw [if_pos fixed, if_neg (by rw [not_or, not_not]; exact ⟨notNull, aligned⟩)]
    refine succeeds_pure ?_
    rw [clearFixed, if_pos fixed]
    refine ends_bind_of_succeeds (succeeds_bind (succeeds_attempt
      (succeeds_mono (sound.succeeds_doMunmap present nonzero found nonempty aligned
        (by rw [whole]; exact inside)) ?_)))
    rintro _ middle ⟨-, effect, vacated⟩
    rw [whole] at vacated
    have presentNow : middle.roots pid = some root := by rw [effect.roots]; exact present
    refine succeeds_pure (ends_mono (effect.sound.ends_fillMapping presentNow nonzero
      effect.found (by simp only [u64Max]; omega) prot flags fd offset file) ?_)
    exact fun _ _ filled => ⟨process, middle, ⟨effect, rfl, by rw [isCount]; exact vacated⟩, filled⟩
  · have isTarget : process.mmapTarget addr flags = roundUp process.mmapNext := if_neg fixed
    have isCount : replacedPages length flags = 0 := if_neg fixed
    rw [isTarget] at inside ⊢
    have next := le_roundUp process.mmapNext
    have moved := sound.place present found (roundUp length) ∅
    refine ends_bind_of_succeeds (succeeds_bind_processOf found ?_)
    rw [if_neg fixed]
    refine succeeds_bind_alignUp (by simp only [PAGE_SIZE, u64Max]; omega)
      (succeeds_bind_modify (succeeds_pure ?_))
    rw [clearFixed, if_neg fixed]
    refine ends_bind_of_succeeds (succeeds_pure ?_)
    refine ends_mono (moved.sound.ends_fillMapping present nonzero moved.found
      (by simp only [u64Max]; omega) prot flags fd offset file) ?_
    intro _ _ filled
    refine ⟨_, _, ⟨moved, rfl, ?_⟩, filled⟩
    rw [isCount]
    exact sound.owned.vacated_zero root _ _

end Calls

end Cyllor.Mm
