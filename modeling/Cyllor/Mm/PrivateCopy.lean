import Cyllor.Mm.CopyLoop

/-!
Contract: a copy into a new address space leaves every frame that was in use as it was.

Owns: `Secluded`, that the tables and pages of a new address space were free frames when it was
made; and that making it, copying pages into it and giving them back keep this, whatever
address space is copied.
-/

namespace Cyllor.Mm

open Cyllor.Arch LinkForest
open Call hiding pure bind

variable {child parent : Nat} {start ram ram' : Ram} {ε : Type}

/-- The address space `child` consists of frames that were free at the start, and nothing was
written to the others. -/
structure Secluded (child : Nat) (start ram : Ram) : Prop where
  owned : Owned ∅ {child} ram
  settled : ∀ frame, ¬ start.pmm.IsFree frame →
    ¬ ram.pmm.IsFree frame ∧ ¬ IsTable {child} ram frame
  bytes : ∀ addr, ¬ start.pmm.IsFree (PAGE_SIZE * (addr / PAGE_SIZE)) →
    ram.bytes addr = start.bytes addr
  fresh : ∀ path : List Index, path.length = 4 → ∀ frame,
    frameAt ram (child, path) = some frame → start.pmm.IsFree frame

theorem Secluded.extend (secluded : Secluded child start ram)
    (extended : Extended ∅ {child} ram ram')
    (bytes : ∀ addr, ¬ ram.pmm.IsFree (PAGE_SIZE * (addr / PAGE_SIZE)) →
      ¬ IsTable {child} ram (PAGE_SIZE * (addr / PAGE_SIZE)) → ram'.bytes addr = ram.bytes addr)
    (fresh : ∀ path : List Index, path.length = 4 → ∀ frame,
      frameAt ram' (child, path) = some frame → start.pmm.IsFree frame) :
    Secluded child start ram' where
  owned := extended.owned
  settled frame used := by
    obtain ⟨stillUsed, noTable⟩ := secluded.settled frame used
    exact extended.settled frame stillUsed noTable
  bytes addr used := by
    obtain ⟨stillUsed, noTable⟩ := secluded.settled _ used
    exact (bytes addr stillUsed noTable).trans (secluded.bytes addr used)
  fresh := fresh

theorem Secluded.free (secluded : Secluded child start ram) {frame : Nat}
    (isFree : ram.pmm.IsFree frame) : start.pmm.IsFree frame := by
  by_contra used
  exact (secluded.settled frame used).1 isFree

theorem Secluded.fresh_of_sameLeaves (secluded : Secluded child start ram)
    (same : SameLeaves {child} ram ram') (path : List Index) (length : path.length = 4)
    (frame : Nat) (now : frameAt ram' (child, path) = some frame) : start.pmm.IsFree frame := by
  have member : PageOf {child} (child, path) := ⟨rfl, length⟩
  rw [frameAt_of_sameLeaves same member] at now
  exact secluded.fresh path length frame now

/-! ### Making the address space -/

theorem Owned.unrooted {heap roots : Set Nat} (owned : Owned heap roots ram) :
    Owned ∅ ∅ ram where
  tables := ⟨fun _ => none, ⟨nofun, nofun, nofun⟩⟩
  counted := owned.counted
  disciplined := owned.disciplined
  fits := fun _ member => absurd member.1 (Set.notMem_empty _)
  heapKept := nofun
  heapNever := nofun

theorem wp_allocTablePage_secluded (owned : Owned ∅ ∅ start) :
    wp (allocTablePage : RamCall ε (Option Nat)) (fun result ram' =>
      (result = .ok none ∧ ram' = start) ∨
        ∃ child, result = .ok (some child) ∧ Secluded child start ram') start := by
  have noTable : ∀ frame, ¬ IsTable ∅ start frame := fun _ ⟨_, member, _⟩ => by cases member
  refine wp_mono owned.wp_allocTablePage ?_
  rintro result ram' (⟨isNone, same⟩ | ⟨child, isSome, new, settled⟩)
  · exact .inl ⟨isNone, same⟩
  have ownedNow := new.owned
  rw [insert_empty_eq] at ownedNow settled
  refine .inr ⟨child, isSome, ownedNow, fun frame used => settled frame used (noTable frame),
    fun addr used => new.bytes addr used (noTable _), fun path length frame mapped => ?_⟩
  rw [new.empty path length] at mapped
  cases mapped

/-! ### Copying pages -/

theorem Secluded.wp_copyPage (secluded : Secluded child start ram) (parent : Nat) (attr : PageAttr)
    (virt : Nat) :
    wp (copyPage parent child attr virt : RamCall ε (Option Bool)) (fun result ram' =>
      ∃ copied, result = .ok copied ∧ Secluded child start ram') ram := by
  refine wp_mono (secluded.owned.wp_copyPage rfl parent attr virt) ?_
  rintro result after (⟨rfl, rfl, -⟩ | ⟨rfl, rfl⟩ | ⟨rfl, step, free⟩)
  · exact ⟨_, rfl, secluded⟩
  · exact ⟨_, rfl, secluded⟩
  · refine ⟨_, rfl, secluded.extend step.extended step.bytes fun path length found now => ?_⟩
    by_cases here : (child, path) = pageAt child virt
    · rw [here] at now
      exact secluded.free (free found now)
    · rw [step.touched (child, path) ⟨rfl, length⟩ here] at now
      exact secluded.fresh path length found now

/-! ### Giving pages back -/

section

variable (secluded : Secluded child start ram)

include secluded

theorem Secluded.freed {frame : Nat} (freed : Freed ∅ {child} frame ram ram')
    (wasFree : start.pmm.IsFree frame) : Secluded child start ram' where
  owned := freed.owned
  settled other used := by
    obtain ⟨stillUsed, noTable⟩ := secluded.settled other used
    refine ⟨fun isFree => ?_, fun isTable =>
      noTable ((SameTables.of_bytes freed.bytes).isTable_iff.mp isTable)⟩
    rcases (freed.frees other).mp isFree with wasFreeBefore | rfl
    · exact stillUsed wasFreeBefore
    · exact used wasFree
  bytes addr used := by
    rw [freed.bytes]
    exact secluded.bytes addr used
  fresh := secluded.fresh_of_sameLeaves freed.same

theorem Secluded.succeeds_dropPages (virts : List Nat) :
    succeeds (dropPages child virts : RamCall ε Unit) (fun _ => Secluded child start) ram := by
  refine Mm.succeeds_dropPages _ ?_ virts secluded
  intro before virt secluded
  refine succeeds_mono (secluded.owned.succeeds_dropPage rfl virt (by simp)) ?_
  rintro _ after ⟨middle, unmapped, dropped⟩
  have still : Secluded child start middle :=
    secluded.extend unmapped.extended unmapped.bytes fun path length found now =>
      secluded.fresh path length found (unmapped.cleared.frameAt_of_some ⟨rfl, length⟩ now)
  rcases dropped with rfl | ⟨frame, found, freed⟩
  · exact still
  · exact still.freed freed (secluded.fresh _ rfl frame found)

/-- The loop of `clone_user_address_space`, whether it goes through or turns back. -/
theorem Secluded.wp_copyPages (parent : Nat) (visits : List (Nat × PageAttr)) (mapped : List Nat) :
    wp (copyPages parent child visits mapped : RamCall ε Bool) (fun result ram' =>
      ∃ enough, result = .ok enough ∧ Secluded child start ram') ram := by
  induction visits generalizing ram mapped with
  | nil => exact (wp_pure _).mpr ⟨_, rfl, secluded⟩
  | cons visit visits ih =>
    rw [copyPages, wp_bind]
    refine wp_mono (secluded.wp_copyPage parent visit.2 visit.1) ?_
    rintro result after ⟨copied, rfl, still⟩
    cases copied with
    | none =>
      dsimp only
      rw [wp_bind]
      refine wp_mono (wp_of_succeeds (still.succeeds_dropPages mapped)) ?_
      rintro _ final ⟨_, rfl, last⟩
      exact (wp_pure _).mpr ⟨_, rfl, last⟩
    | some wasMapped => exact ih still _

end

end Cyllor.Mm
