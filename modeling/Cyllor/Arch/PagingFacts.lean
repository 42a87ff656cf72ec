import Cyllor.Arch.Entries
import Cyllor.Lib.CallSuccess

/-!
Contract: what the page table operations do to the tables and to the entries of pages.

Owns:
- `Tables`, that the tables of some roots lie in frames of their own, one for each place
  in a tree, none of which is free;
- `Grown`, that only new tables were taken from the allocator and only tables were
  written;
- one specification for each operation.
-/

namespace Cyllor.Arch

open Cyllor.Mm LinkForest
open Call hiding pure bind
open Function (update update_self update_of_ne)

variable {virt fresh table root : Nat} {trail : List Index}

/-- The place of every table: its root and the path to it. -/
abbrev Place := Nat → Option (Nat × List Index)

/-- The tables of the roots are placed, in whole frames that are not free. -/
structure Tables (ram : Ram) (roots : Set Nat) (place : Place) : Prop where
  placed : Placed (link ram) roots 4 place
  frames : ∀ node, (place node).isSome → node % PAGE_SIZE = 0 ∧ node < 2 ^ 48
  used : ∀ node, (place node).isSome → ¬ ram.pmm.IsFree node

/-- Only new tables were taken from the allocator, and only tables were written. -/
structure Grown (ram : Ram) (place : Place) (ram' : Ram) (place' : Place) : Prop where
  kept : ∀ node, (place node).isSome → place' node = place node
  fresh : ∀ node, (place' node).isSome → place node = none → ram.pmm.IsFree node
  frees : ∀ frame, ram'.pmm.IsFree frame ↔ ram.pmm.IsFree frame ∧ place' frame = none
  bytes : ∀ addr, place' (PAGE_SIZE * (addr / PAGE_SIZE)) = none →
    ram'.bytes addr = ram.bytes addr
  events : ∃ tables : List Nat, ram'.events = tables.map PageEvent.alloc ++ ram.events ∧
    ∀ table, table ∈ tables ↔ (place' table).isSome ∧ place table = none

variable {ram ram' ram'' : Ram} {roots : Set Nat} {place place' place'' : Place} {base : Nat}

theorem Tables.place_root (tables : Tables ram roots place) (based : base ∈ roots) :
    place base = some (base, []) :=
  tables.placed base based [] base (by simp) rfl

theorem Tables.place_of_isFree (tables : Tables ram roots place) {frame : Nat}
    (free : ram.pmm.IsFree frame) : place frame = none := by
  cases found : place frame with
  | none => rfl
  | some _ => exact absurd free (tables.used frame (by rw [found]; rfl))

theorem Tables.ne_of_placed (tables : Tables ram roots place) (free : ram.pmm.IsFree fresh)
    {node : Nat} (isPlaced : (place node).isSome) : node ≠ fresh := by
  rintro rfl
  exact tables.used node isPlaced free

theorem Grown.refl (tables : Tables ram roots place) : Grown ram place ram place where
  kept _ _ := rfl
  fresh node isPlaced unplaced := by
    rw [unplaced] at isPlaced
    cases isPlaced
  frees _ :=
    ⟨fun free => ⟨free, tables.place_of_isFree free⟩, And.left⟩
  bytes _ _ := rfl
  events := by
    refine ⟨[], rfl, fun table => ⟨by simp, ?_⟩⟩
    rintro ⟨isPlaced, unplaced⟩
    rw [unplaced] at isPlaced
    cases isPlaced

/-- One frame was taken, for a table at a new place, and only tables were written. -/
theorem Tables.of_fresh (tables : Tables ram roots place) {home : Nat × List Index}
    {roots' : Set Nat} (placed : Placed (link ram') roots' 4 (update place fresh (some home)))
    (free : ram.pmm.IsFree fresh)
    (frees : ∀ other, ram'.pmm.IsFree other ↔ ram.pmm.IsFree other ∧ other ≠ fresh)
    (bytes : ∀ addr, PAGE_SIZE * (addr / PAGE_SIZE) ≠ fresh →
      place (PAGE_SIZE * (addr / PAGE_SIZE)) = none → ram'.bytes addr = ram.bytes addr)
    (events : ram'.events = .alloc fresh :: ram.events)
    (isPlace : place' = update place fresh (some home)) :
    Tables ram' roots' place' ∧ Grown ram place ram' place' := by
  have unplaced := tables.place_of_isFree free
  have bounds := free.bounds
  have ne_of_unplaced : ∀ node, place' node = none → node ≠ fresh ∧ place node = none := by
    intro node outside
    have other : node ≠ fresh := by
      rintro rfl
      rw [isPlace, update_self] at outside
      cases outside
    rw [isPlace, update_of_ne other] at outside
    exact ⟨other, outside⟩
  refine ⟨⟨isPlace ▸ placed, ?_, ?_⟩, ?_, ?_, ?_, ?_, ?_⟩
  · intro node isPlaced
    by_cases new : node = fresh
    · rw [new]
      exact ⟨bounds.1, by omega⟩
    · rw [isPlace, update_of_ne new] at isPlaced
      exact tables.frames node isPlaced
  · intro node isPlaced isFree
    rw [frees] at isFree
    rw [isPlace, update_of_ne isFree.2] at isPlaced
    exact tables.used node isPlaced isFree.1
  · intro node isPlaced
    rw [isPlace, update_of_ne (tables.ne_of_placed free isPlaced)]
  · intro node isPlaced wasUnplaced
    by_cases other : node = fresh
    · rw [other]
      exact free
    · rw [isPlace, update_of_ne other, wasUnplaced] at isPlaced
      cases isPlaced
  · intro frame
    rw [frees]
    refine and_congr_right fun isFree => ⟨fun other => ?_, fun outside => ?_⟩
    · rw [isPlace, update_of_ne other]
      exact tables.place_of_isFree isFree
    · exact (ne_of_unplaced frame outside).1
  · intro addr outside
    exact bytes addr (ne_of_unplaced _ outside).1 (ne_of_unplaced _ outside).2
  · refine ⟨[fresh], events, fun node => ?_⟩
    rw [List.mem_singleton, isPlace]
    constructor
    · rintro rfl
      exact ⟨by rw [update_self]; rfl, unplaced⟩
    · rintro ⟨isPlaced, wasUnplaced⟩
      by_contra other
      rw [update_of_ne other, wasUnplaced] at isPlaced
      cases isPlaced

theorem Grown.unplaced (grown : Grown ram place ram' place') {node : Nat}
    (outside : place' node = none) : place node = none := by
  cases isPlace : place node with
  | none => rfl
  | some _ =>
    rw [grown.kept node (by rw [isPlace]; rfl), isPlace] at outside
    cases outside

theorem Grown.trans (first : Grown ram place ram' place') (second :
    Grown ram' place' ram'' place'') :
    Grown ram place ram'' place'' where
  kept node isPlaced := by
    have middle := first.kept node isPlaced
    rw [second.kept node (by rw [middle]; exact isPlaced), middle]
  fresh node isPlaced unplaced := by
    cases isPlace : place' node with
    | none => exact ((first.frees node).mp (second.fresh node isPlaced isPlace)).1
    | some _ => exact first.fresh node (by rw [isPlace]; rfl) unplaced
  frees frame := by
    rw [second.frees, first.frees, and_assoc]
    exact and_congr_right fun _ => ⟨And.right, fun outside => ⟨second.unplaced outside, outside⟩⟩
  bytes addr unplaced := by
    rw [second.bytes addr unplaced, first.bytes addr (second.unplaced unplaced)]
  events := by
    obtain ⟨early, isEarly, memEarly⟩ := first.events
    obtain ⟨late, isLate, memLate⟩ := second.events
    refine ⟨late ++ early, by rw [isLate, isEarly, List.map_append, List.append_assoc], ?_⟩
    intro table
    rw [List.mem_append, memEarly, memLate]
    constructor
    · rintro (⟨isPlaced, unplaced⟩ | ⟨isPlaced, unplaced⟩)
      · exact ⟨isPlaced, first.unplaced unplaced⟩
      · exact ⟨by rw [second.kept table isPlaced]; exact isPlaced, unplaced⟩
    · rintro ⟨isPlaced, unplaced⟩
      cases isPlace : place' table with
      | none => exact .inl ⟨isPlaced, rfl⟩
      | some _ => exact .inr ⟨rfl, unplaced⟩

/-! ### Writes -/

section

variable (tables : Tables ram roots place)
  (same : ∀ addr, (place (PAGE_SIZE * (addr / PAGE_SIZE))).isSome →
    ram'.bytes addr = ram.bytes addr)

include tables same

theorem Tables.readEntry_of_bytes {node : Nat} {index : Index} (isPlaced : (place node).isSome) :
    readEntry ram' node index = readEntry ram node index := by
  have aligned := (tables.frames node isPlaced).1
  have bound := index.isLt
  have bytes : ∀ offset < 8, ram'.bytes (node + 8 * index + offset) =
      ram.bytes (node + 8 * index + offset) := by
    intro offset below
    have inside : PAGE_SIZE * ((node + 8 * index + offset) / PAGE_SIZE) = node := by
      simp only [PAGE_SIZE] at aligned ⊢
      omega
    exact same _ (by rwa [inside])
  rw [readEntry, readEntry, ByteMemory.load_congr bytes]

theorem Tables.walk_of_bytes (member : root ∈ roots) {path : List Index} (short : path.length ≤ 4) :
    walk (link ram') root path = walk (link ram) root path := by
  refine tables.placed.walk_eq (fun node index isPlaced => ?_) member short
  rw [link, link, tables.readEntry_of_bytes same isPlaced]

theorem Tables.sameEntries_of_bytes : SameEntries roots ram ram' := by
  intro root member path length
  obtain ⟨trail, index, rfl, depth⟩ := exists_concat length
  refine entryAt_eq (tables.walk_of_bytes same member (by omega)) fun table walked => ?_
  refine tables.readEntry_of_bytes same ?_
  rw [tables.placed root member trail table (by omega) walked]
  rfl

theorem Tables.of_bytes (used : ∀ node, (place node).isSome → ¬ ram'.pmm.IsFree node) :
    Tables ram' roots place ∧ SameLeaves roots ram ram' := by
  refine ⟨⟨?_, tables.frames, used⟩, (tables.sameEntries_of_bytes same).sameLeaves⟩
  intro root member path node below walked
  rw [tables.walk_of_bytes same member (by omega)] at walked
  exact tables.placed root member path node below walked

end

theorem Tables.empty (ram : Ram) : Tables ram ∅ fun _ => none where
  placed _ member := absurd member (Set.notMem_empty _)
  frames _ isPlaced := by cases isPlaced
  used _ isPlaced := by cases isPlaced

/-- A new frame of zeros is the root of a tree of its own, in which no page is mapped. -/
theorem Tables.newRoot (tables : Tables ram roots place) {pmm : BitmapAllocator}
    (free : ram.pmm.IsFree fresh)
    (frees : ∀ other, pmm.IsFree other ↔ ram.pmm.IsFree other ∧ other ≠ fresh)
    (isAfter : ram' = { ram with
        bytes := ram.bytes.fill fresh PAGE_SIZE 0
        pmm := pmm
        events := .alloc fresh :: ram.events })
    (isPlace : place' = update place fresh (some (fresh, []))) :
    Tables ram' (insert fresh roots) place' ∧ Grown ram place ram' place' ∧
      SameLeaves roots ram ram' ∧ ∀ virt, leaf ram' fresh virt = none := by
  have bounds := free.bounds
  have unplaced : place fresh = none := tables.place_of_isFree free
  have pmmAfter : ram'.pmm = pmm := by rw [isAfter]
  have bare : ∀ index, link ram' fresh index = none := by
    intro index
    rw [isAfter]
    exact link_fill_zero index
  have outside : ∀ addr, PAGE_SIZE * (addr / PAGE_SIZE) ≠ fresh →
      ram'.bytes addr = ram.bytes addr := by
    intro addr other
    have aligned := bounds.1
    rw [isAfter]
    refine ByteMemory.sameOutside_fill _ _ _ _ addr ?_
    simp only [PAGE_SIZE] at aligned other ⊢
    omega
  obtain ⟨kept, same⟩ : Tables ram' roots place ∧ SameLeaves roots ram ram' := tables.of_bytes
    (fun addr isPlaced => outside addr (tables.ne_of_placed free isPlaced))
    (fun node isPlaced isFree => by
      rw [pmmAfter, frees] at isFree
      exact tables.used node isPlaced isFree.1)
  obtain ⟨tables', grown⟩ := tables.of_fresh (kept.placed.insert_root bare unplaced) free
    (by rw [pmmAfter]; exact frees) (fun addr other _ => outside addr other) (by rw [isAfter])
    isPlace
  refine ⟨tables', grown, same, fun virt => ?_⟩
  rw [leaf, pagePath, tableIndices, List.cons_append, walk, bare]

theorem wp_allocTablePage {ε : Type} (tables : Tables ram roots place)
    {post : Except ε (Option Nat) → Ram → Prop} (exhausted : post (.ok none) ram)
    (taken : ∀ fresh ram' place', ram.pmm.IsFree fresh →
      place' = update place fresh (some (fresh, [])) →
      Tables ram' (insert fresh roots) place' → Grown ram place ram' place' →
      SameLeaves roots ram ram' → (∀ virt, leaf ram' fresh virt = none) →
        post (.ok (some fresh)) ram') :
    wp allocTablePage post ram := by
  rw [allocTablePage, wp_bind]
  refine wp_allocPage (fun _ => ?_) (fun fresh pmm free frees _ => ?_)
  · dsimp only
    rw [wp_pure]
    exact exhausted
  · dsimp only
    rw [zeroFrame, wp_bind_modify, wp_pure]
    obtain ⟨tables', grown, same, bare⟩ := tables.newRoot free frees rfl rfl
    exact taken fresh _ _ free rfl tables' grown same bare

/-- The memory after an entry was pointed to a new table of zeros. -/
def hung (ram : Ram) (table : Nat) (index : Index) (fresh : Nat) (pmm : BitmapAllocator) : Ram :=
  writeEntry { ram with
    bytes := ram.bytes.fill fresh PAGE_SIZE 0
    pmm := pmm
    events := .alloc fresh :: ram.events } table index (tableEntry fresh)

section

variable (tables : Tables ram roots place) (based : base ∈ roots)

include tables based

/-- What a new table of zeros that hangs in an entry changes: the entry points to it, and
the other entries of tables are as before. -/
theorem Tables.hang {index : Index} (inner : trail.length < 4)
    (located : walk (link ram) base trail = some table) (free : ram.pmm.IsFree fresh)
    (pmm : BitmapAllocator) (isAfter : ram' = hung ram table index fresh pmm) :
    (∀ node other, (place node).isSome → ¬ (node = table ∧ other = index) →
        readEntry ram' node other = readEntry ram node other ∧
          link ram' node other = link ram node other) ∧
      link ram' table index = some fresh ∧
      ∀ other, readEntry ram' fresh other = 0 ∧ link ram' fresh other = none := by
  have home := tables.placed base based trail table inner located
  have aligned := (tables.frames table (by rw [home]; rfl)).1
  have bounds := free.bounds
  have tableNe : table ≠ fresh := tables.ne_of_placed free (by rw [home]; rfl)
  have reads : ∀ node other, (place node).isSome → ¬ (node = table ∧ other = index) →
      readEntry ram' node other = readEntry ram node other := by
    intro node other isPlaced different
    have alignedNode := (tables.frames node isPlaced).1
    rw [isAfter, hung, readEntry_writeEntry_of_ne _ _ aligned alignedNode different]
    exact readEntry_eq_of_sameOutside (ByteMemory.sameOutside_fill _ _ _ _) bounds.1 alignedNode
      (tables.ne_of_placed free isPlaced) other
  have zeros : ∀ other, readEntry ram' fresh other = 0 := by
    intro other
    rw [isAfter, hung, readEntry_writeEntry_of_ne _ _ aligned bounds.1 fun both =>
      tableNe both.1.symm]
    exact readEntry_fill_zero other
  refine ⟨fun node other isPlaced different => ?_, ?_, fun other => ?_⟩
  · rw [link, link, reads node other isPlaced different]
    exact ⟨rfl, rfl⟩
  · rw [isAfter, hung, link_writeEntry, target_tableEntry bounds.1 (by omega)]
  · rw [link, zeros]
    exact ⟨rfl, rfl⟩

theorem Tables.walk_hung {index : Index} (inner : trail.length < 3)
    (located : walk (link ram) base trail = some table) (absent : link ram table index = none)
    (free : ram.pmm.IsFree fresh) (pmm : BitmapAllocator) (member : root ∈ roots)
    {path : List Index} (short : path.length ≤ 4)
    (different : ¬ (root = base ∧ path = trail ++ [index])) :
    walk (link (hung ram table index fresh pmm)) root path = walk (link ram) root path := by
  obtain ⟨same, grown, bare⟩ := tables.hang based (by omega) located free pmm rfl
  exact tables.placed.walk_grown based (by omega) located
    (fun node slot isPlaced apart => (same node slot isPlaced apart).2) absent grown
    (fun slot => (bare slot).2) member short different

/-- A new table that hangs in an empty entry above the lowest level has no entries. -/
theorem Tables.sameEntries_hung {index : Index} (inner : trail.length < 3)
    (located : walk (link ram) base trail = some table) (absent : link ram table index = none)
    (free : ram.pmm.IsFree fresh) (pmm : BitmapAllocator)
    (reached : walk (link (hung ram table index fresh pmm)) base (trail ++ [index]) = some fresh) :
    SameEntries roots ram (hung ram table index fresh pmm) := by
  have home := tables.placed base based trail table (by omega) located
  obtain ⟨same, -, bare⟩ := tables.hang based (by omega) located free pmm
    (rfl : hung ram table index fresh pmm = _)
  intro root member path length
  obtain ⟨lowest, last, rfl, depth⟩ := exists_concat length
  by_cases target : root = base ∧ lowest = trail ++ [index]
  · -- the new table is a lowest one: there was no table, and now there is one of zeros
    obtain ⟨rfl, rfl⟩ := target
    rw [entryAt_concat, entryAt_concat, reached, walk_concat, located, Option.bind_some,
      Option.bind_some, (bare last).1, absent]
    rfl
  · refine entryAt_eq (tables.walk_hung based inner located absent free pmm member (by omega)
      target) fun node walked => ?_
    have found := tables.placed root member lowest node (by omega) walked
    refine (same node last (by rw [found]; rfl) ?_).1
    rintro ⟨rfl, -⟩
    -- a lowest table is not one of the inner tables
    obtain ⟨-, rfl⟩ := Prod.mk.inj (Option.some.inj (found.symm.trans home))
    omega

theorem Tables.grow {index : Index} (inner : trail.length < 3)
    (located : walk (link ram) base trail = some table) (empty : link ram table index = none)
    {pmm : BitmapAllocator} (free : ram.pmm.IsFree fresh)
    (frees : ∀ other, pmm.IsFree other ↔ ram.pmm.IsFree other ∧ other ≠ fresh)
    (isAfter : ram' = hung ram table index fresh pmm)
    (isPlace : place' = update place fresh (some (base, trail ++ [index]))) :
    Tables ram' roots place' ∧ Grown ram place ram' place' ∧ SameEntries roots ram ram' ∧
      walk (link ram') base (trail ++ [index]) = some fresh := by
  have home := tables.placed base based trail table (by omega) located
  have aligned := (tables.frames table (by rw [home]; rfl)).1
  have bounds := free.bounds
  have unplaced : place fresh = none := tables.place_of_isFree free
  obtain ⟨same, grown, bare⟩ := tables.hang based (by omega) located free pmm isAfter
  have links := fun node other isPlaced different => (same node other isPlaced different).2
  have reached : walk (link ram') base (trail ++ [index]) = some fresh := by
    rw [tables.placed.walk_slot_same based (by omega) located links, grown]
  have pmmAfter : ram'.pmm = pmm := by rw [isAfter]; rfl
  rw [← and_assoc]
  refine ⟨tables.of_fresh (tables.placed.grow based (by omega) located links empty grown
    (fun other => (bare other).2) unplaced) free (by rw [pmmAfter]; exact frees) ?_
    (by rw [isAfter]; rfl) isPlace, ?_, reached⟩
  · intro addr notFresh outside
    have notTable : PAGE_SIZE * (addr / PAGE_SIZE) ≠ table := by
      rintro isTable
      rw [isTable, home] at outside
      cases outside
    have bound := index.isLt
    have alignedFresh := bounds.1
    rw [isAfter, hung]
    refine (ByteMemory.sameOutside_store _ _ _ _ addr ?_).trans
      (ByteMemory.sameOutside_fill _ _ _ _ addr ?_)
    · simp only [PAGE_SIZE] at aligned notTable
      omega
    · simp only [PAGE_SIZE] at alignedFresh notFresh ⊢
      omega
  · subst isAfter
    exact tables.sameEntries_hung based inner located empty free pmm reached

/-- A change of the entry of a page leaves the other entries, and the walks to tables. -/
theorem Tables.set (located : walk (link ram) base (tableIndices virt) = some table)
    (entry : BitVec 64) (isAfter : ram' = writeEntry ram table (pageIndex virt) entry) :
    (∀ root ∈ roots, ∀ trail : List Index, trail.length ≤ 3 →
        walk (link ram') root trail = walk (link ram) root trail) ∧
      Tables ram' roots place ∧ Grown ram place ram' place ∧
      EntrySet roots base virt (valid entry) ram ram' := by
  have home := tables.placed base based (tableIndices virt) table (by simp [tableIndices]) located
  have aligned := (tables.frames table (by rw [home]; rfl)).1
  have reads : ∀ node other, (place node).isSome → ¬ (node = table ∧ other = pageIndex virt) →
      readEntry ram' node other = readEntry ram node other := by
    intro node other isPlaced different
    rw [isAfter]
    exact readEntry_writeEntry_of_ne ram entry aligned (tables.frames node isPlaced).1 different
  have same : ∀ node other, (place node).isSome → ¬ (node = table ∧ other = pageIndex virt) →
      link ram' node other = link ram node other := by
    intro node other isPlaced different
    rw [link, link, reads node other isPlaced different]
  have walks : ∀ root ∈ roots, ∀ trail : List Index, trail.length ≤ 3 →
      walk (link ram') root trail = walk (link ram) root trail := by
    intro root member trail depth
    refine tables.placed.walk_slot_other based (by simp [tableIndices]) located same member
      (by omega) ?_
    rintro ⟨-, longer⟩
    have := longer.length_le
    simp [tableIndices] at this
    omega
  have pmmAfter : ram'.pmm = ram.pmm := by rw [isAfter]; rfl
  have unchanged := Grown.refl tables
  refine ⟨walks, ⟨?_, tables.frames, ?_⟩, ⟨unchanged.kept, unchanged.fresh, ?_, ?_, ?_⟩, ?_, ?_⟩
  · exact tables.placed.set_lowest based located same (by simp [tableIndices])
  · rw [pmmAfter]
    exact tables.used
  · rw [pmmAfter]
    exact unchanged.frees
  · intro addr outside
    have notTable : PAGE_SIZE * (addr / PAGE_SIZE) ≠ table := by
      rintro isTable
      rw [isTable, home] at outside
      cases outside
    have bound := (pageIndex virt).isLt
    rw [isAfter]
    refine ByteMemory.sameOutside_store _ _ _ _ addr ?_
    simp only [PAGE_SIZE] at aligned notTable
    omega
  · have events : ram'.events = ram.events := by rw [isAfter]; rfl
    rw [events]
    exact unchanged.events
  · rw [pagePath, entryAt_concat, walks base based _ le_rfl, located, Option.bind_some, isAfter,
      readEntry_writeEntry]
  · intro root member path length other
    obtain ⟨trail, index, rfl, depth⟩ := exists_concat length
    refine entryAt_eq (walks root member trail depth.le) fun node walked => ?_
    have found := tables.placed root member trail node (by omega) walked
    refine reads node index (by rw [found]; rfl) ?_
    rintro ⟨rfl, rfl⟩
    obtain ⟨rfl, rfl⟩ := Prod.mk.inj (Option.some.inj (found.symm.trans home))
    exact other ⟨rfl, rfl⟩

end

/-! ### The operations -/

/-- How a walk that makes tables goes: an entry points to the next table, or to a new one, or no
frame is free for it. -/
inductive WalkCreated (root : Nat) :
    Nat → List Index → Ram → Except Unit Nat → Ram → Prop
  | done {table : Nat} {ram : Ram} : WalkCreated root table [] ram (.ok table) ram
  | found {table next : Nat} {index : Index} {indices : List Index} {ram ram' : Ram}
      {result : Except Unit Nat} (isLink : link ram table index = some next)
      (rest : WalkCreated root next indices ram result ram') :
      WalkCreated root table (index :: indices) ram result ram'
  | short {table : Nat} {index : Index} {indices : List Index} {ram : Ram}
      (absent : link ram table index = none) (full : ∀ frame, ¬ ram.pmm.IsFree frame) :
      WalkCreated root table (index :: indices) ram (.error ()) ram
  | made {table fresh : Nat} {index : Index} {indices : List Index} {ram ram' : Ram}
      {pmm : BitmapAllocator} {result : Except Unit Nat} (absent : link ram table index = none)
      (free : ram.pmm.IsFree fresh)
      (frees : ∀ other, pmm.IsFree other ↔ ram.pmm.IsFree other ∧ other ≠ fresh)
      (counter : pmm.freePages + 1 = ram.pmm.freePages)
      (rest : WalkCreated root fresh indices (hung ram table index fresh pmm) result ram') :
      WalkCreated root table (index :: indices) ram result ram'

theorem wp_walkCreated (used : ¬ ram.pmm.IsFree root) (table : Nat) (indices : List Index) :
    wp (walkCreate root table indices) (WalkCreated root table indices ram) ram := by
  induction indices generalizing ram table with
  | nil => exact (wp_pure _).mpr .done
  | cons index indices ih =>
    rw [walkCreate, wp_bind_gets]
    cases isLink : link ram table index with
    | some next => exact wp_mono (ih used next) fun _ _ rest => .found isLink rest
    | none =>
      dsimp only
      rw [wp_bind, allocTablePage, wp_bind]
      refine wp_allocPage (fun full => ?_) (fun fresh pmm free frees counter => ?_)
      · dsimp only
        rw [wp_pure]
        exact (wp_bind_ofOption _ _ _).mpr ⟨fun _ => .short isLink full, nofun⟩
      · dsimp only
        rw [zeroFrame, wp_bind_modify, wp_pure]
        refine (wp_bind_ofOption _ _ _).mpr ⟨nofun, ?_⟩
        rintro _ ⟨⟩
        have other : fresh ≠ root := by
          rintro rfl
          exact used free
        rw [if_neg other, wp_bind_modify, wp_bind_gets, readEntry_writeEntry,
          if_neg (not_not.mpr rfl)]
        exact wp_mono (ih (fun isFree => used ((frees root).mp isFree).1) fresh)
          fun _ _ rest => .made isLink free frees counter rest

variable {table : Nat} {indices : List Index} {result : Except Unit Nat}

/-- What a walk that makes tables leaves behind: the tables grew, the pages are mapped as
before, and it ends at the lowest table unless no frame was left. -/
def Walked (roots : Set Nat) (base : Nat) (path : List Index) (ram : Ram) (place : Place)
    (result : Except Unit Nat) (ram' : Ram) : Prop :=
  ∃ place', Tables ram' roots place' ∧ Grown ram place ram' place' ∧ SameLeaves roots ram ram' ∧
    walk (link ram') base path =
      match result with
      | .ok lowest => some lowest
      | .error _ => none

theorem WalkCreated.walked (created : WalkCreated base table indices ram result ram')
    (tables : Tables ram roots place) (based : base ∈ roots)
    (depth : trail.length + indices.length = 3)
    (located : walk (link ram) base trail = some table) :
    Walked roots base (trail ++ indices) ram place result ram' ∧ SameEntries roots ram ram' := by
  induction created generalizing place trail with
  | done =>
    rw [List.append_nil]
    exact ⟨⟨place, tables, Grown.refl tables, SameLeaves.refl roots _, located⟩, .refl roots _⟩
  | @found table next index indices ram result ram' isLink rest ih =>
    rw [List.append_cons]
    exact ih tables (by simp at depth ⊢; omega)
      (by rw [walk_concat, located, Option.bind_some, isLink])
  | short absent =>
    refine ⟨⟨place, tables, Grown.refl tables, SameLeaves.refl roots _, ?_⟩, .refl roots _⟩
    rw [List.append_cons, walk_append, walk_concat, located, Option.bind_some, absent,
      Option.bind_none]
  | made absent free frees counter rest ih =>
    obtain ⟨tables', grown, same, reached⟩ := tables.grow based
      (by simp at depth; omega) located absent free frees rfl rfl
    obtain ⟨⟨place', tables'', later, leaves, ended⟩, sameLater⟩ :=
      ih tables' (by simp at depth ⊢; omega) reached
    rw [List.append_cons]
    exact ⟨⟨place', tables'', grown.trans later, same.sameLeaves.trans leaves, ended⟩,
      same.trans sameLater⟩

theorem wp_walkCreate (tables : Tables ram roots place) (based : base ∈ roots) (virt : Nat) :
    wp (walkCreate base base (tableIndices virt)) (fun result ram' =>
      WalkCreated base base (tableIndices virt) ram result ram' ∧
        Walked roots base (tableIndices virt) ram place result ram' ∧
        SameEntries roots ram ram') ram := by
  have used : ¬ ram.pmm.IsFree base :=
    tables.used base (by rw [tables.place_root based]; rfl)
  exact wp_mono (wp_walkCreated used _ _) fun result ram' created =>
    ⟨created, created.walked tables based (rfl : ([] : List Index).length + 3 = 3) rfl⟩

/-- What `map_page` leaves behind: an error changes no mapping, and only a page that was
not mapped can meet it. -/
def MapPagePost (roots : Set Nat) (base virt phys : Nat) (ram : Ram) (place : Place)
    (result : Except Unit Unit) (ram' : Ram) : Prop :=
  ∃ place', Tables ram' roots place' ∧ Grown ram place ram' place' ∧
    match result with
    | .ok _ => LeafSet roots base virt (some (PAGE_SIZE * (phys % 2 ^ 48 / PAGE_SIZE))) ram ram'
    | .error _ => SameLeaves roots ram ram' ∧ leaf ram base virt = none

theorem wp_mapPage_entries (tables : Tables ram roots place) (based : base ∈ roots)
    (virt phys : Nat) (attr : PageAttr) :
    wp (mapPage base virt phys attr) (fun result ram' => ∃ place', Tables ram' roots place' ∧
      Grown ram place ram' place' ∧
      match result with
      | .ok _ => EntrySet roots base virt (some (pageEntry phys attr)) ram ram'
      | .error _ => SameEntries roots ram ram' ∧ leaf ram base virt = none) ram := by
  rw [mapPage, wp_bind]
  refine wp_mono (wp_walkCreate tables based virt) ?_
  rintro result middle ⟨-, ⟨place', tables', grown, leaves, walked⟩, same⟩
  cases result with
  | error _ =>
    refine ⟨place', tables', grown, same, ?_⟩
    rw [leaf, ← leaves base based (pagePath virt) rfl, pagePath, walk_append, walked,
      Option.bind_none]
  | ok table =>
    dsimp only
    rw [wp_modify]
    obtain ⟨-, tables'', grown', set⟩ := tables'.set based walked (pageEntry phys attr) rfl
    rw [valid_pageEntry] at set
    exact ⟨place', tables'', grown.trans grown', same.entrySet set⟩

theorem wp_mapPage (tables : Tables ram roots place) (based : base ∈ roots) (virt phys : Nat)
    (attr : PageAttr) :
    wp (mapPage base virt phys attr) (MapPagePost roots base virt phys ram place) ram := by
  refine wp_mono (wp_mapPage_entries tables based virt phys attr) ?_
  rintro result ram' ⟨place', tables', grown, outcome⟩
  refine ⟨place', tables', grown, ?_⟩
  cases result with
  | error _ => exact ⟨outcome.1.sameLeaves, outcome.2⟩
  | ok _ =>
    have set := EntrySet.leafSet outcome
    rwa [Option.map_some, address_pageEntry] at set

theorem lookup_map_snd (ram : Ram) (root virt : Nat) :
    (lookup ram root virt).map Prod.snd = leaf ram root virt := by
  rw [lookup, leaf, pagePath, walk_concat]
  cases walk (link ram) root (tableIndices virt) with
  | none => rfl
  | some table =>
    rw [Option.bind_some, Option.map_map]
    exact Option.map_id'

theorem walk_of_lookup {lowest frame : Nat} (found : lookup ram root virt = some (lowest, frame)) :
    walk (link ram) root (tableIndices virt) = some lowest := by
  rw [lookup] at found
  cases walked : walk (link ram) root (tableIndices virt) with
  | none =>
    rw [walked] at found
    cases found
  | some table =>
    rw [walked] at found
    obtain ⟨_, -, isPair⟩ := Option.map_eq_some_iff.mp found
    rw [(Prod.mk.inj isPair).1]

/-- Specification of `unmap_page`: the entry of the page is cleared and no table changes. -/
theorem succeeds_unmapPage {ε : Type} (tables : Tables ram roots place) (based : base ∈ roots)
    (virt : Nat) :
    succeeds (unmapPage base virt : RamCall ε (Option Nat)) (fun found ram' =>
      found = leaf ram base virt ∧ ram'.pmm = ram.pmm ∧
        (∀ root ∈ roots, ∀ trail : List Index, trail.length ≤ 3 →
          walk (link ram') root trail = walk (link ram) root trail) ∧
        Tables ram' roots place ∧ Grown ram place ram' place ∧
        EntrySet roots base virt none ram ram') ram := by
  rw [unmapPage]
  refine succeeds_bind_gets ?_
  cases found : lookup ram base virt with
  | none =>
    have unmapped : leaf ram base virt = none := by rw [← lookup_map_snd, found]; rfl
    have invalid := unmapped
    rw [leaf, walk_eq_map_entryAt _ _ (by simp [pagePath]), Option.map_eq_none_iff] at invalid
    exact succeeds_pure ⟨unmapped.symm, rfl, fun _ _ _ _ => rfl, tables, Grown.refl tables, invalid,
      fun _ _ _ _ _ => rfl⟩
  | some pair =>
    obtain ⟨table, frame⟩ := pair
    have mapped : leaf ram base virt = some frame := by rw [← lookup_map_snd, found]; rfl
    exact succeeds_bind_modify (succeeds_pure
      ⟨mapped.symm, rfl, tables.set based (walk_of_lookup found) 0 rfl⟩)

theorem translate_eq_leaf (ram : Ram) (root virt : Nat) :
    translate ram root virt = (leaf ram root virt).map (· ||| virt % PAGE_SIZE) := by
  rw [← lookup_map_snd, Option.map_map]
  rfl

theorem leaf_bounds {frame : Nat} (mapped : leaf ram root virt = some frame) :
    frame % PAGE_SIZE = 0 ∧ frame < 2 ^ 48 := by
  rw [leaf, pagePath, walk_concat] at mapped
  obtain ⟨table, -, linked⟩ := Option.bind_eq_some_iff.mp mapped
  exact target_bounds linked

theorem or_offset {frame offset : Nat} (aligned : frame % PAGE_SIZE = 0)
    (inPage : offset < PAGE_SIZE) : frame ||| offset = frame + offset := by
  have split := Nat.two_pow_add_eq_or_of_lt (show offset < 2 ^ 12 from inPage) (frame / 2 ^ 12)
  have whole : 2 ^ 12 * (frame / 2 ^ 12) = frame :=
    Nat.mul_div_cancel' (Nat.dvd_of_mod_eq_zero aligned)
  rw [whole] at split
  exact split.symm

theorem translate_eq_add (ram : Ram) (root virt : Nat) :
    translate ram root virt = (leaf ram root virt).map (· + virt % PAGE_SIZE) := by
  rw [translate_eq_leaf]
  exact Option.map_congr fun frame mapped =>
    or_offset (leaf_bounds mapped).1 (Nat.mod_lt virt (by decide))

end Cyllor.Arch
