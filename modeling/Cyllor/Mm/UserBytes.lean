import Cyllor.Mm.Progress

/-!
Contract: user memory byte by byte, as a process reads it through its page tables.

Owns: `userByte`, the byte that an address shows, and what the views of pages and the loop
over new pages say about it.
-/

namespace Cyllor.Mm

open Cyllor.Arch LinkForest

variable {heap roots : Set Nat} {ram ram' : Ram} {root : Nat}

/-- The byte that an address shows, if its page is mapped. -/
def userByte (ram : Ram) (root virt : Nat) : Option UInt8 :=
  (translateUserVa ram root virt).map ram.bytes

theorem getElem?_pageBytes (ram : Ram) (frame : Nat) {offset : Nat} (inPage : offset < PAGE_SIZE) :
    (pageBytes ram frame)[offset]? = some (ram.bytes (frame + offset)) := by
  rw [pageBytes, List.getElem?_map, List.getElem?_range inPage, Option.map_some]

theorem userByte_eq (ram : Ram) (root virt : Nat) :
    userByte ram root virt =
      (viewAt ram (pageAt root virt)).bind fun view => view.bytes[virt % PAGE_SIZE]? := by
  have inPage := Nat.mod_lt virt (show 0 < PAGE_SIZE by decide)
  have member := pageOf_pageAt (Set.mem_singleton root) virt
  rw [userByte, translateUserVa, translate_eq_add, Option.map_map]
  cases mapped : leaf ram root virt with
  | none =>
    have absent : frameAt ram (pageAt root virt) = none := mapped
    rw [frameAt_eq_map_viewAt ram member, Option.map_eq_none_iff] at absent
    rw [absent]
    rfl
  | some frame =>
    have isFrame : frameAt ram (pageAt root virt) = some frame := mapped
    rw [frameAt_eq_map_entryAt ram member] at isFrame
    obtain ⟨entry, found, isAddress⟩ := Option.map_eq_some_iff.mp isFrame
    have shown : viewAt ram (pageAt root virt) = some ⟨entry, pageBytes ram frame⟩ := by
      rw [viewAt, found, Option.map_some, isAddress]
    rw [shown, Option.map_some, Option.bind_some, getElem?_pageBytes ram frame inPage,
      Function.comp_apply]

/-- Addresses outside the pages that changed show the bytes they showed before. -/
theorem Untouched.userByte {pages : Set Page} (untouched : Untouched roots pages ram ram')
    (based : root ∈ roots) {virt : Nat} (outside : pageAt root virt ∉ pages) :
    Mm.userByte ram' root virt = Mm.userByte ram root virt := by
  rw [userByte_eq, userByte_eq, untouched _ (pageOf_pageAt based virt) outside]

theorem userByte_eq_none {virt : Nat} (unmapped : leaf ram root virt = none) :
    userByte ram root virt = none := by
  rw [userByte, translateUserVa, translate_eq_leaf, unmapped]
  rfl

theorem getElem?_padded {bytes : List UInt8} {offset : Nat} (inPage : offset < PAGE_SIZE) :
    (padded bytes)[offset]? = some (bytes.getD offset 0) := by
  rw [padded, List.getD_eq_getElem?_getD, List.getElem?_append]
  split
  · rename_i inside
    rw [List.getElem?_eq_getElem inside]
    rfl
  · rename_i outside
    rw [List.getElem?_replicate, if_pos (by omega), List.getElem?_eq_none (by omega)]
    rfl

theorem Fresh.userByte {addr : Nat} {attr : PageAttr} {contents : Nat → List UInt8} {start : Ram}
    {all : List (Nat × Nat)} (fresh : Fresh heap roots root addr attr contents start all ram)
    (mapped : ∀ entry ∈ all, leaf ram root entry.1 = some entry.2) (aligned : addr % PAGE_SIZE = 0)
    {index : Nat} (inside : index < PAGE_SIZE * all.length) :
    Mm.userByte ram root (addr + index) =
      some ((contents (index / PAGE_SIZE)).getD (index % PAGE_SIZE) 0) := by
  have inList : index / PAGE_SIZE < all.length := Nat.div_lt_of_lt_mul inside
  have isVirt : all[index / PAGE_SIZE].1 = addr + PAGE_SIZE * (index / PAGE_SIZE) := by
    have virts := congrArg (fun list : List Nat => list[index / PAGE_SIZE]?) fresh.filling.virts
    simpa [inList] using virts
  have samePage : pageAt root (addr + index) = pageAt root all[index / PAGE_SIZE].1 := by
    refine Prod.ext rfl (pagePath_congr ?_)
    rw [isVirt]
    simp only [PAGE_SIZE] at *
    omega
  have shown := fresh.shows (index / PAGE_SIZE) all[index / PAGE_SIZE]
    (List.getElem?_eq_getElem inList) (mapped _ (List.getElem_mem inList))
  have sameOffset : (addr + index) % PAGE_SIZE = index % PAGE_SIZE := by
    simp only [PAGE_SIZE] at *
    omega
  rw [userByte_eq, samePage, shown, Option.bind_some, sameOffset]
  exact getElem?_padded (Nat.mod_lt _ (by decide))

end Cyllor.Mm
