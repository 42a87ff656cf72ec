import Cyllor.Mm.FrameSafety

/-!
Contract: when the address space of a forked child is that of its parent.

Owns: `Faithful`, what a fork is to give the child; and that a successful `do_clone` without
`CLONE_VM` gives it exactly when every page of the parent is recorded in a private area.
-/

namespace Cyllor.Mm

open Cyllor.Arch LinkForest State
open Call hiding pure bind

def Vma.HasPage (vma : Vma VmaName) (virt : Nat) : Prop :=
  ∃ addr, addr % PAGE_SIZE = 0 ∧ vma.start ≤ addr ∧ addr < vma.stop ∧ pagePath addr = pagePath virt

/-- The page of the address lies in an area. -/
def Vmm.Records (vmm : Vmm VmaName) (virt : Nat) : Prop :=
  ∃ entry ∈ vmm.vmas.toList, entry.2.HasPage virt

/-- The page of the address lies in an area of `MAP_SHARED`. -/
def Vmm.Shares (vmm : Vmm VmaName) (virt : Nat) : Prop :=
  ∃ entry ∈ vmm.vmas.toList, entry.2.HasPage virt ∧ entry.2.flags &&& MAP_SHARED ≠ 0

/-- The areas begin at page boundaries. -/
def Vmm.Aligned (vmm : Vmm VmaName) : Prop :=
  ∀ entry ∈ vmm.vmas.toList, entry.2.start % PAGE_SIZE = 0

/-- The address space of the child is that of the parent with these areas: the same
addresses translate and show the same bytes, through the same frame for pages of
`MAP_SHARED` areas and through another one for the others. -/
def Faithful (ram : Ram) (vmm : Vmm VmaName) (parent child : Nat) : Prop :=
  ∀ virt, ((translateUserVa ram child virt).isSome ↔ (translateUserVa ram parent virt).isSome) ∧
    ∀ own copy, translateUserVa ram parent virt = some own →
      translateUserVa ram child virt = some copy → ram.bytes copy = ram.bytes own ∧
        (vmm.Shares virt → copy = own) ∧
        (¬ vmm.Shares virt → copy / PAGE_SIZE ≠ own / PAGE_SIZE)

variable {state after : State} {pid root child : Nat} {process : Process} {vmm : Vmm VmaName}

/-- The visited addresses are those of the pages of the areas. -/
theorem Vmm.Aligned.exists_visit (aligned : vmm.Aligned) {virt : Nat} :
    vmm.Records virt ↔ ∃ visit ∈ vmm.visited, pagePath visit.1 = pagePath virt := by
  constructor
  · rintro ⟨entry, listed, addr, whole, lower, upper, samePage⟩
    have start := aligned entry listed
    refine ⟨(addr, protToPageAttr entry.2.prot), List.mem_flatMap.mpr ⟨entry, listed, ?_⟩, samePage⟩
    refine List.mem_map.mpr ⟨addr, List.mem_map.mpr ⟨(addr - entry.2.start) / PAGE_SIZE, ?_, ?_⟩,
      rfl⟩
    · rw [List.mem_range]
      simp only [PAGE_SIZE] at *
      omega
    · simp only [PAGE_SIZE] at *
      omega
  · rintro ⟨visit, visited, samePage⟩
    obtain ⟨entry, listed, mapped⟩ := List.mem_flatMap.mp visited
    obtain ⟨addr, inArea, rfl⟩ := List.mem_map.mp mapped
    obtain ⟨index, below, rfl⟩ := List.mem_map.mp inArea
    have start := aligned entry listed
    rw [List.mem_range] at below
    refine ⟨entry, listed, _, ?_, Nat.le_add_right _ _, ?_, samePage⟩
    · simp only [PAGE_SIZE] at *
      omega
    · simp only [PAGE_SIZE] at *
      omega

theorem Vmm.Aligned.visit (aligned : vmm.Aligned) {visit : Nat × PageAttr}
    (visited : visit ∈ vmm.visited) : visit.1 % PAGE_SIZE = 0 := by
  obtain ⟨entry, listed, mapped⟩ := List.mem_flatMap.mp visited
  obtain ⟨addr, inArea, rfl⟩ := List.mem_map.mp mapped
  obtain ⟨index, -, rfl⟩ := List.mem_map.mp inArea
  have start := aligned entry listed
  simp only [PAGE_SIZE] at *
  omega

/-! ### Pages of parent and child after a fork -/

theorem exists_leaf {ram : Ram} {virt phys : Nat}
    (translated : translateUserVa ram root virt = some phys) :
    ∃ frame, leaf ram root virt = some frame ∧ frame % PAGE_SIZE = 0 ∧
      phys = frame + virt % PAGE_SIZE := by
  rw [translateUserVa, translate_eq_add] at translated
  obtain ⟨frame, isMapped, rfl⟩ := Option.map_eq_some_iff.mp translated
  exact ⟨frame, isMapped, (leaf_bounds isMapped).1, rfl⟩

variable {ram : Ram}

theorem Forked.leaf_parent (forked : Forked state root child vmm ram) (based : root ∈ state.rootSet)
    (virt : Nat) : leaf ram root virt = leaf state.ram root virt := by
  obtain ⟨start, new, copied⟩ := forked
  have different : root ≠ child := fun same => new.isNew (same ▸ based)
  have member := pageOf_pageAt (Set.mem_insert_of_mem child based) virt
  exact (copied.others _ member different).trans (new.same root based _ rfl)

/-- A page of the child comes from a visited page of the parent, has its contents and another
frame. -/
theorem Forked.leaf_child (forked : Forked state root child vmm ram) (based : root ∈ state.rootSet)
    (aligned : vmm.Aligned) {virt frame : Nat} (isMapped : leaf ram child virt = some frame) :
    vmm.Records virt ∧ ∃ original, leaf state.ram root virt = some original ∧ frame ≠ original ∧
      ∀ offset < PAGE_SIZE, ram.bytes (frame + offset) = ram.bytes (original + offset) := by
  have sameParent := forked.leaf_parent based virt
  obtain ⟨start, new, copied⟩ := forked
  have different : root ≠ child := fun same => new.isNew (same ▸ based)
  have parentIn : root ∈ insert child state.rootSet := Set.mem_insert_of_mem child based
  have childIn : child ∈ insert child state.rootSet := Set.mem_insert _ _
  obtain ⟨outside, visit, visited, samePage, original, isOriginal, contents⟩ :=
    copied.source (pagePath virt) rfl frame isMapped
  have wasMapped : leaf start root virt = some original := by
    rw [leaf, samePage]
    exact isOriginal
  have nowMapped : leaf ram root virt = some original :=
    (copied.others _ (pageOf_pageAt parentIn virt) different).trans wasMapped
  refine ⟨aligned.exists_visit.mpr ⟨visit, visited, samePage.symm⟩, original,
    sameParent.symm.trans nowMapped, ?_, fun offset inPage => ?_⟩
  · rintro rfl
    rcases copied.extended.owned.fits _ (pageOf_pageAt childIn virt) frame isMapped with
      inHeap | ⟨-, alone⟩
    · exact outside inHeap
    · exact different (congrArg Prod.fst (alone _ (pageOf_pageAt parentIn virt) nowMapped))
  · have member := pageOf_pageAt parentIn virt
    obtain ⟨used, noTable⟩ := new.owned.mapped_settled member wasMapped
    have inFrame := page_of_offset (frameAt_bounds member wasMapped).1 inPage
    rw [contents (aligned.visit visited) offset inPage,
      copied.bytes _ (inFrame.symm ▸ used) (inFrame.symm ▸ noTable)]

section

variable (forked : Forked state root child vmm ram) (sound : Sound state)
  (based : root ∈ state.rootSet) (aligned : vmm.Aligned)
  (enough : 4 * vmm.visited.length + 1 ≤ state.ram.pmm.clearPages.card)

include forked sound based aligned enough

theorem Forked.copies {virt : Nat} (recorded : vmm.Records virt)
    (isMapped : (leaf state.ram root virt).isSome) : (leaf ram child virt).isSome := by
  obtain ⟨start, new, copied⟩ := forked
  obtain ⟨visit, visited, samePage⟩ := aligned.exists_visit.mp recorded
  have spent := (new.spends sound.owned.counted).2
  have wasMapped : (leaf start root visit.1).isSome := by
    have same : leaf start root virt = leaf state.ram root virt := new.same root based _ rfl
    rw [leaf, samePage, ← leaf, same]
    exact isMapped
  have done := copied.complete (by omega) visit visited wasMapped
  rw [leaf, samePage] at done
  exact done

/-- The child of a fork has the address space of the parent exactly when every page of the
parent is recorded in a private area. -/
theorem Forked.faithful_iff :
    Faithful ram vmm root child ↔ ∀ virt, (translateUserVa state.ram root virt).isSome →
      vmm.Records virt ∧ ¬ vmm.Shares virt := by
  constructor
  · intro faithful virt isMapped
    rw [isSome_translate, ← forked.leaf_parent based, ← isSome_translate] at isMapped
    obtain ⟨own, isOwn⟩ := Option.isSome_iff_exists.mp isMapped
    obtain ⟨copy, isCopy⟩ := Option.isSome_iff_exists.mp ((faithful virt).1.mpr isMapped)
    obtain ⟨frame, isFrame, -, rfl⟩ := exists_leaf isCopy
    obtain ⟨original, isOriginal, -, rfl⟩ := exists_leaf isOwn
    obtain ⟨recorded, other, isOther, different, -⟩ := forked.leaf_child based aligned isFrame
    refine ⟨recorded, fun shares => different ?_⟩
    have same := ((faithful virt).2 _ _ isOwn isCopy).2.1 shares
    rw [forked.leaf_parent based] at isOriginal
    obtain rfl := Option.some.inj (isOriginal.symm.trans isOther)
    omega
  · intro recorded virt
    rw [isSome_translate, isSome_translate]
    refine ⟨⟨fun isMapped => ?_, fun isMapped => ?_⟩, fun own copy isOwn isCopy => ?_⟩
    · obtain ⟨frame, isFrame⟩ := Option.isSome_iff_exists.mp isMapped
      obtain ⟨-, original, isOriginal, -⟩ := forked.leaf_child based aligned isFrame
      rw [forked.leaf_parent based, isOriginal]
      rfl
    · rw [forked.leaf_parent based] at isMapped
      exact forked.copies sound based aligned enough
        (recorded virt (by rw [isSome_translate]; exact isMapped)).1 isMapped
    · obtain ⟨frame, isFrame, frameAligned, rfl⟩ := exists_leaf isCopy
      obtain ⟨original, isOriginal, originalAligned, rfl⟩ := exists_leaf isOwn
      rw [forked.leaf_parent based] at isOriginal
      obtain ⟨-, other, isOther, different, contents⟩ := forked.leaf_child based aligned isFrame
      obtain rfl := Option.some.inj (isOriginal.symm.trans isOther)
      have inPage := Nat.mod_lt virt (show 0 < PAGE_SIZE by decide)
      have isPrivate := (recorded virt (by rw [isSome_translate, isOriginal]; rfl)).2
      refine ⟨contents _ inPage, fun shares => absurd shares isPrivate, fun _ => ?_⟩
      simp only [PAGE_SIZE] at *
      omega

end

/-! ### Forks in runs -/

theorem Sound.exists_forked {flags ptid child : Nat} (sound : Sound state)
    (present : state.roots pid = some root) (found : state.processes pid = some process)
    (separate : flags &&& CLONE_VM = 0)
    (cloned : state.perform (.call pid (.clone flags ptid)) = some (.ok child, after)) :
    ∃ childRoot, after.roots pid = some root ∧ after.roots child = some childRoot ∧
      Forked state root childRoot (state.vmms process.vmm) after.ram := by
  rw [perform, if_pos (Option.isSome_of_eq_some present)] at cloned
  rcases sound.wp_doClone present found flags ptid _ _ cloned with
    ⟨error, failed, -⟩ | ⟨shared, -⟩ | ⟨-, isChild, childRoot, entered, forked⟩
  · cases failed
  · exact absurd separate shared
  · obtain rfl := Except.ok.inj isChild
    have older : pid ≠ state.nextPid := by
      rintro rfl
      exact Option.some_ne_none _ (present.symm.trans (sound.unborn _ le_rfl))
    refine ⟨childRoot, ?_, ?_, forked⟩
    · rw [entered.roots, Function.update_of_ne older, present]
    · rw [entered.roots, Function.update_self]

theorem Started.succeeds_fork (started : Started state root) :
    succeeds ((MemCall.clone 0 0).run 1) (fun value _ => value = 2) state := by
  have sound : Sound state.allocPid := started.sound.allocPid
  have enough :
    0 < state.allocPid.ram.pmm.clearPages.card := lt_of_lt_of_le (by decide) started.left
  rw [MemCall.run, doClone, if_neg (by decide)]
  refine succeeds_bind_gets (succeeds_bind_modify (succeeds_bind
    (succeeds_bind_gets ?_)))
  show succeeds (Call.ofOption _ (state.processes 1)) _ _
  rw [started.found]
  refine succeeds_pure ?_
  rw [if_neg (by decide)]
  refine succeeds_bind (succeeds_bind_gets (succeeds_bind
    (succeeds_mono (sound.succeeds_createUserPageTable enough) ?_)))
  rintro child _ ⟨ram, rfl, -⟩
  refine succeeds_bind_gets ?_
  show succeeds (onRam (cloneUserAddressSpace _ child (state.vmms 0)) >>= _) _ _
  rw [started.areas]
  refine succeeds_bind (succeeds_onRam (succeeds_pure (succeeds_pure
    (succeeds_bind_modify (succeeds_pure started.nextPid)))))

theorem vmas_new : (Vmm.new : Vmm VmaName).vmas.toList = [] := rfl

theorem visited_new : (Vmm.new : Vmm VmaName).visited = [] := by
  rw [Vmm.visited, vmas_new, List.flatMap_nil]

theorem not_records_new (virt : Nat) : ¬ (Vmm.new : Vmm VmaName).Records virt := by
  rintro ⟨entry, listed, -⟩
  rw [vmas_new] at listed
  cases listed

theorem aligned_new : (Vmm.new : Vmm VmaName).Aligned := by
  intro entry listed
  rw [vmas_new] at listed
  cases listed

end Cyllor.Mm
