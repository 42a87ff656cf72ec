import Cyllor.Mm.FrameSafety

/-!
Contract: `do_mprotect` changes all pages of its range, or nothing.

Owns: `Protected`, what a successful call leaves behind.
-/

namespace Cyllor.Mm

open Cyllor.Arch LinkForest
open Call hiding pure bind

variable {virt frame : Nat}

variable {roots : Set Nat} {place : Place} {ram ram' : Ram} {base : Nat} {ε : Type}

/-! ### The call -/

/-- What a successful `do_mprotect` leaves behind: the pages of the range keep their frames
and have the new attributes, the areas have the new protection there, and the rest is as
before. -/
structure Protected (roots : Set Nat) (root id addr length prot : Nat) (state after : State) :
    Prop where
  inside : ∀ virt, addr ≤ virt → virt < addr + roundUp length → ∃ frame,
    leaf state.ram root virt = some frame ∧
      entryAt after.ram root (pagePath virt) = some (pageEntry frame (protToPageAttr prot))
  outside : ∀ other ∈ roots, ∀ virt < 2 ^ 48,
    ¬ (other = root ∧ addr ≤ virt ∧ virt < addr + roundUp length) →
      entryAt after.ram other (pagePath virt) = entryAt state.ram other (pagePath virt)
  areas : ∀ virt, (after.vmms id).attrsAt virt =
    if addr ≤ virt ∧ virt < addr + roundUp length then
      ((state.vmms id).attrsAt virt).map fun attrs => { attrs with prot := prot }
    else (state.vmms id).attrsAt virt
  otherAreas : ∀ other, other ≠ id → after.vmms other = state.vmms other

section Call

variable {state : State} {pid root addr length prot : Nat} {process : Process}

theorem pageAt_mem_span_roundUp (aligned : addr % PAGE_SIZE = 0) (lower : addr ≤ virt)
    (upper : virt < addr + roundUp length) :
    pageAt root virt ∈ Span root addr (roundUp length / PAGE_SIZE) := by
  refine pageAt_mem_span aligned lower ?_
  rw [mul_roundUp_div]
  exact upper

/-- An address outside a range of pages below the end of the address space has none of
their pages. -/
theorem notMem_of_outside (aligned : addr % PAGE_SIZE = 0)
    (inside : addr + roundUp length ≤ 2 ^ 48) {other : Nat} (below : virt < 2 ^ 48)
    (outside : ¬ (other = root ∧ addr ≤ virt ∧ virt < addr + roundUp length)) :
    pageAt other virt ∉ Span root addr (roundUp length / PAGE_SIZE) := by
  rintro ⟨index, inRange, samePage⟩
  obtain ⟨rfl, samePath⟩ := Prod.mk.inj samePage
  refine outside ⟨rfl, ?_⟩
  have same := (pagePath_eq_iff _ _).mp samePath
  simp only [roundUp, PAGE_SIZE] at *
  omega

theorem Remade.isProtected {after : State} {id : Nat}
    (remade : Remade roots place state root id addr length prot after)
    (wellFormed : (state.vmms id).WellFormed) (inside : addr + roundUp length ≤ 2 ^ 48) :
    Protected roots root id addr length prot state after := by
  obtain ⟨nonempty, aligned, mapped, ram, vmm, remapped, changed, rfl⟩ := remade
  have positive : 0 < roundUp length := (Nat.pos_of_ne_zero nonempty).trans_le (le_roundUp length)
  have areas := (wellFormed.attrsAt_mprotect positive changed).2
  refine ⟨fun virt lower upper => ?_, fun other member virt below outside => ?_, fun virt => ?_,
    fun other different => Function.update_of_ne different _ _⟩
  · obtain ⟨index, below, samePage⟩ : pageAt root virt ∈ Span root addr _ :=
      pageAt_mem_span_roundUp aligned lower upper
    have samePath : pagePath virt = _ := congrArg Prod.snd samePage
    obtain ⟨frame, isFrame⟩ := Option.isSome_iff_exists.mp (mapped index below)
    refine ⟨frame, by rw [leaf, samePath]; exact isFrame, ?_⟩
    rw [samePath]
    exact remapped.entryAt_mappings below isFrame
  · refine remapped.outside (other, pagePath virt) ⟨member, rfl⟩ ?_
    rw [targets_mappings]
    exact notMem_of_outside aligned inside below outside
  · show (Function.update state.vmms id vmm id).attrsAt virt = _
    rw [Function.update_self, areas]
    rfl

end Call

end Cyllor.Mm
