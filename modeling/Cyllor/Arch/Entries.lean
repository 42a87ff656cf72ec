import Cyllor.Arch.Paging

/-!
Contract: the entries of pages, and the frames that they point to.

Owns:
- `entryAt`, the valid entry of a page, which holds its frame and its attributes;
- `leaf`, the frame that a page is mapped to;
- `SameEntries` and `EntrySet`, that all entries, or all but one, are as before, and what
  follows for the frames.
-/

namespace Cyllor.Arch

open Cyllor.Mm LinkForest

variable {virt : Nat}

/-- The path to the entry of a page. -/
def pagePath (virt : Nat) : List Index := tableIndices virt ++ [pageIndex virt]

def leaf (ram : Ram) (root virt : Nat) : Option Nat := walk (link ram) root (pagePath virt)

def valid (entry : BitVec 64) : Option (BitVec 64) :=
  if entry &&& PTE_VALID = 0 then none else some entry

def address (entry : BitVec 64) : Nat := (entry &&& PTE_ADDR).toNat

/-- The valid entry at the end of a path. -/
def entryAt (ram : Ram) (root : Nat) (path : List Index) : Option (BitVec 64) :=
  (walk (link ram) root path.dropLast).bind fun table =>
    path.getLast?.bind fun index => valid (readEntry ram table index)

/-- The entries of the pages of the roots are as before. -/
def SameEntries (roots : Set Nat) (ram ram' : Ram) : Prop :=
  ∀ root ∈ roots, ∀ path : List Index, path.length = 4 →
    entryAt ram' root path = entryAt ram root path

/-- One page of a root has the given entry, or none, and the others are as before. -/
def EntrySet (roots : Set Nat) (base virt : Nat) (entry : Option (BitVec 64)) (ram ram' : Ram) :
    Prop :=
  entryAt ram' base (pagePath virt) = entry ∧
    ∀ root ∈ roots, ∀ path : List Index, path.length = 4 →
      ¬ (root = base ∧ path = pagePath virt) → entryAt ram' root path = entryAt ram root path

def SameLeaves (roots : Set Nat) (ram ram' : Ram) : Prop :=
  ∀ root ∈ roots, ∀ path : List Index, path.length = 4 →
    walk (link ram') root path = walk (link ram) root path

/-- One page of a root is mapped to the given frame, or not any more, and the others
are mapped as before. -/
def LeafSet (roots : Set Nat) (base virt : Nat) (frame : Option Nat) (ram ram' : Ram) : Prop :=
  walk (link ram') base (pagePath virt) = frame ∧
    ∀ root ∈ roots, ∀ path : List Index, path.length = 4 →
      ¬ (root = base ∧ path = pagePath virt) →
        walk (link ram') root path = walk (link ram) root path

variable {ram ram' ram'' : Ram} {roots : Set Nat} {base : Nat}

theorem length_pagePath (virt : Nat) : (pagePath virt).length = 4 := rfl

/-- Two addresses have one page exactly when their page numbers agree in 36 bits. -/
theorem pagePath_eq_iff (virt other : Nat) :
    pagePath virt = pagePath other ↔ virt / PAGE_SIZE % 2 ^ 36 = other / PAGE_SIZE % 2 ^ 36 := by
  simp only [pagePath, tableIndices, pageIndex, List.cons_append, List.nil_append,
    List.cons.injEq, Fin.ext_iff, Fin.ofNat, PAGE_SIZE]
  constructor
  · rintro ⟨first, second, third, fourth, -⟩
    omega
  · intro same
    exact ⟨by omega, by omega, by omega, by omega, trivial⟩

theorem pagePath_congr {virt other : Nat} (same : virt / PAGE_SIZE = other / PAGE_SIZE) :
    pagePath virt = pagePath other :=
  (pagePath_eq_iff virt other).mpr (congrArg (· % 2 ^ 36) same)

theorem leaf_congr (ram : Ram) (root : Nat) {virt other : Nat}
    (same : virt / PAGE_SIZE = other / PAGE_SIZE) : leaf ram root virt = leaf ram root other := by
  rw [leaf, leaf, pagePath_congr same]

theorem target_eq_map_valid (entry : BitVec 64) : target entry = (valid entry).map address := by
  unfold target valid
  split <;> rfl

@[simp] theorem valid_pageEntry (phys : Nat) (attr : PageAttr) :
    valid (pageEntry phys attr) = some (pageEntry phys attr) := by
  have points := target_pageEntry phys attr
  rw [target] at points
  rw [valid]
  split at points
  · cases points
  · rename_i isValid
    rw [if_neg isValid]

theorem address_pageEntry (phys : Nat) (attr : PageAttr) :
    address (pageEntry phys attr) = PAGE_SIZE * (phys % 2 ^ 48 / PAGE_SIZE) := by
  have points := target_pageEntry phys attr
  rw [target_eq_map_valid, valid_pageEntry, Option.map_some] at points
  exact Option.some.inj points

theorem entryAt_concat (ram : Ram) (root : Nat) (trail : List Index) (index : Index) :
    entryAt ram root (trail ++ [index]) =
      (walk (link ram) root trail).bind fun table => valid (readEntry ram table index) := by
  rw [entryAt, List.dropLast_concat, List.getLast?_concat]
  rfl

theorem walk_eq_map_entryAt (ram : Ram) (root : Nat) {path : List Index} (nonempty : path ≠ []) :
    walk (link ram) root path = (entryAt ram root path).map address := by
  obtain ⟨trail, index, rfl⟩ := (List.eq_nil_or_concat' path).resolve_left nonempty
  rw [walk_concat, entryAt_concat, Option.map_bind]
  congr 1
  funext table
  exact target_eq_map_valid _

theorem exists_concat {path : List Index} (length : path.length = 4) :
    ∃ trail index, path = trail ++ [index] ∧ trail.length = 3 := by
  obtain ⟨trail, index, rfl⟩ :=
    (List.eq_nil_or_concat' path).resolve_left (by rintro rfl; cases length)
  refine ⟨trail, index, rfl, ?_⟩
  rw [List.length_append, List.length_singleton] at length
  omega

theorem SameEntries.refl (roots : Set Nat) (ram : Ram) : SameEntries roots ram ram :=
  fun _ _ _ _ => rfl

theorem SameEntries.trans (first : SameEntries roots ram ram')
    (second : SameEntries roots ram' ram'') : SameEntries roots ram ram'' :=
  fun root member path length =>
    (second root member path length).trans (first root member path length)

theorem SameEntries.entrySet {entry : Option (BitVec 64)} (first : SameEntries roots ram ram')
    (second : EntrySet roots base virt entry ram' ram'') :
    EntrySet roots base virt entry ram ram'' :=
  ⟨second.1, fun root member path length other =>
    (second.2 root member path length other).trans (first root member path length)⟩

theorem SameLeaves.refl (roots : Set Nat) (ram : Ram) : SameLeaves roots ram ram :=
  fun _ _ _ _ => rfl

theorem SameLeaves.trans (first : SameLeaves roots ram ram') (second :
    SameLeaves roots ram' ram'') :
    SameLeaves roots ram ram'' :=
  fun root member path length =>
    (second root member path length).trans (first root member path length)

theorem SameEntries.sameLeaves (same : SameEntries roots ram ram') : SameLeaves roots ram ram' := by
  intro root member path length
  have nonempty : path ≠ [] := List.ne_nil_of_length_pos (by omega)
  rw [walk_eq_map_entryAt _ _ nonempty, same root member path length,
    walk_eq_map_entryAt _ _ nonempty]

theorem EntrySet.leafSet {entry : Option (BitVec 64)}
    (set : EntrySet roots base virt entry ram ram') :
    LeafSet roots base virt (entry.map address) ram ram' := by
  constructor
  · rw [walk_eq_map_entryAt _ _ (by simp [pagePath]), set.1]
  · intro root member path length other
    have nonempty : path ≠ [] := List.ne_nil_of_length_pos (by omega)
    rw [walk_eq_map_entryAt _ _ nonempty, set.2 root member path length other,
      walk_eq_map_entryAt _ _ nonempty]

theorem entryAt_eq {root : Nat} {trail : List Index} {index : Index}
    (walks : walk (link ram') root trail = walk (link ram) root trail)
    (reads : ∀ table, walk (link ram) root trail = some table →
      readEntry ram' table index = readEntry ram table index) :
    entryAt ram' root (trail ++ [index]) = entryAt ram root (trail ++ [index]) := by
  rw [entryAt_concat, entryAt_concat, walks]
  cases walked : walk (link ram) root trail with
  | none => rw [Option.bind_none, Option.bind_none]
  | some table => rw [Option.bind_some, Option.bind_some, reads table walked]

end Cyllor.Arch
