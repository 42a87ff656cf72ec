import Cyllor.Mm.FreshPages

/-!
Contract: what the loops over pages do to the ownership of frames and to the mapped pages.

Owns: one specification for each loop. They say which pages may change, and which of
them may be mapped to the kernel heap after the loop. Of the two passes of `do_mprotect`, the
lookup of every frame changes nothing, and the mapping of every page again cannot lack a table.
-/

namespace Cyllor.Mm

open Cyllor.Arch LinkForest
open Call hiding pure bind

variable {addr count phys frame virt : Nat}

variable {heap roots : Set Nat} {place : Place} {ram : Ram} {base : Nat} {ε : Type}

/-! ### Unmapping -/

/-- Unmapping pages, and giving the frames back of which it is said so, none of which is of
the kernel heap. -/
theorem Owned.wp_unmapRange (owned : Owned heap roots ram) (based : base ∈ roots)
    {frees : Nat → Bool} (outside : ∀ index < count, frees index →
      ∀ frame, leaf ram base (addr + PAGE_SIZE * index) = some frame → frame ∉ heap) :
    wp (unmapRange base addr frees count : RamCall ε Unit) (fun result ram' =>
      result = .ok () ∧ Owned heap roots ram' ∧ Cleared roots (Span base addr count) ram ram')
      ram := by
  refine wp_iterate_returns (fun index after => Owned heap roots after ∧
    Cleared roots (Span base addr index) ram after) ⟨owned, fun page member => ?_⟩ ?_
  · exact ⟨fun ⟨index, below, _⟩ => absurd below (Nat.not_lt_zero index), fun _ => rfl⟩
  · rintro index below state ⟨kept, cleared⟩
    rw [wp_bind_word]
    intro _
    rw [wp_bind]
    refine wp_mono (wp_of_succeeds (kept.succeeds_unmapUserPage based _)) ?_
    rintro _ after ⟨_, rfl, rfl, unmapped⟩
    have both : Cleared roots (Span base addr (index + 1)) ram after := by
      rw [span_succ]
      exact cleared.trans unmapped.cleared
    cases found : leaf state base (addr + PAGE_SIZE * index) with
    | none => exact (wp_pure _).mpr ⟨rfl, unmapped.extended.owned, both⟩
    | some frame =>
      dsimp only
      rw [wp_ite]
      refine ⟨fun given => ?_, fun _ => (wp_pure _).mpr ⟨rfl, unmapped.extended.owned, both⟩⟩
      -- a page still mapped is mapped as at the start
      have early := cleared.frameAt_of_some (pageOf_pageAt based _) found
      refine wp_mono (wp_of_succeeds (unmapped.extended.owned.succeeds_freePage
        (unmapped.loose frame found (outside index below given frame early)))) ?_
      rintro _ final ⟨_, rfl, freed⟩
      exact ⟨rfl, freed.owned, both.of_sameLeaves freed.same⟩

/-- How many frames unmapping a range gives back. -/
def returned (ram : Ram) (base addr : Nat) (frees : Nat → Bool) (count : Nat) : Nat :=
  (List.range count).countP fun index =>
    frees index && (leaf ram base (addr + PAGE_SIZE * index)).isSome

theorem returned_succ (ram : Ram) (base addr : Nat) (frees : Nat → Bool) (count : Nat) :
    returned ram base addr frees (count + 1) = returned ram base addr frees count +
      if frees count && (leaf ram base (addr + PAGE_SIZE * count)).isSome then 1 else 0 := by
  rw [returned, List.range_succ, List.countP_append, List.countP_singleton]
  rfl

/-- What unmapping a range of pages leaves behind. -/
structure Vacated (heap roots : Set Nat) (base addr : Nat) (frees : Nat → Bool) (count : Nat)
    (ram ram' : Ram) : Prop where
  owned : Owned heap roots ram'
  cleared : Cleared roots (Span base addr count) ram ram'
  untouched : Untouched roots (Span base addr count) ram ram'
  sameTables : SameTables roots ram ram'
  free : ∀ frame, ram'.pmm.IsFree frame ↔ ram.pmm.IsFree frame ∨
    ∃ index < count, frees index ∧ leaf ram base (addr + PAGE_SIZE * index) = some frame
  card : ram'.pmm.clearPages.card = ram.pmm.clearPages.card + returned ram base addr frees count

theorem notMem_span_of_le {index : Nat} (bounded : addr + PAGE_SIZE * (index + 1) ≤ 2 ^ 48) :
    pageAt base (addr + PAGE_SIZE * index) ∉ Span base addr index := by
  rintro ⟨other, below, samePage⟩
  have same := (pagePath_eq_iff _ _).mp (congrArg Prod.snd samePage)
  simp only [PAGE_SIZE] at *
  omega

theorem Owned.vacated_zero (owned : Owned heap roots ram) (base addr : Nat) (frees : Nat → Bool) :
    Vacated heap roots base addr frees 0 ram ram := by
  refine ⟨owned, fun page _ => ⟨?_, fun _ => rfl⟩, Untouched.refl _ _, SameTables.refl _ _,
    fun frame => by simp, by rw [returned, List.range_zero, List.countP_nil, Nat.add_zero]⟩
  rintro ⟨index, below, -⟩
  exact absurd below (Nat.not_lt_zero index)

theorem Owned.succeeds_unmapRange (owned : Owned heap roots ram) (based : base ∈ roots)
    {frees : Nat → Bool} (bounded : addr + PAGE_SIZE * count ≤ 2 ^ 48)
    (outside : ∀ index < count, frees index →
      ∀ frame, leaf ram base (addr + PAGE_SIZE * index) = some frame → frame ∉ heap) :
    succeeds (unmapRange base addr frees count : RamCall ε Unit) (fun _ ram' =>
      Vacated heap roots base addr frees count ram ram') ram := by
  refine succeeds_iterate (fun index _ after =>
    Vacated heap roots base addr frees index ram after) (owned.vacated_zero base addr frees) ?_
  · rintro index below - state vacated
    have bound : addr + PAGE_SIZE * (index + 1) ≤ 2 ^ 48 := by
      simp only [PAGE_SIZE] at *
      omega
    have member := pageOf_pageAt based (addr + PAGE_SIZE * index)
    have early : leaf state base (addr + PAGE_SIZE * index) =
        leaf ram base (addr + PAGE_SIZE * index) :=
      (vacated.cleared _ member).2 (notMem_span_of_le bound)
    refine succeeds_bind_word (by simp only [PAGE_SIZE, u64Max] at *; omega) (succeeds_bind
      (succeeds_mono (vacated.owned.succeeds_unmapUserPage based (addr + PAGE_SIZE * index)) ?_))
    rintro _ after ⟨rfl, unmapped⟩
    have cleared : Cleared roots (Span base addr (index + 1)) ram after := by
      rw [span_succ]
      exact vacated.cleared.trans unmapped.cleared
    have untouchedNow : Untouched roots (Span base addr (index + 1)) ram after := by
      rw [span_succ]
      exact (vacated.untouched.mono Set.subset_union_left).trans
        ((unmapped.untouched vacated.owned).mono Set.subset_union_right)
    have tablesNow := vacated.sameTables.trans unmapped.sameTables
    -- a page whose frame is not given back
    have kept : (frees index && (leaf ram base (addr + PAGE_SIZE * index)).isSome) = false →
        Vacated heap roots base addr frees (index + 1) ram after := by
      intro notGiven
      refine ⟨unmapped.extended.owned, cleared, untouchedNow, tablesNow, fun frame => ?_, ?_⟩
      · rw [unmapped.pmm, vacated.free frame]
        refine or_congr_right ⟨?_, ?_⟩
        · rintro ⟨other, lower, gives⟩
          exact ⟨other, by omega, gives⟩
        · rintro ⟨other, upper, given, isFrame⟩
          refine ⟨other, ?_, given, isFrame⟩
          by_contra notEarlier
          obtain rfl : other = index := by omega
          rw [given, isFrame] at notGiven
          cases notGiven
      · rw [unmapped.pmm, returned_succ, notGiven]
        exact vacated.card
    have loose := unmapped.loose
    rw [early] at loose ⊢
    cases found : leaf ram base (addr + PAGE_SIZE * index) with
    | none => exact succeeds_pure (kept (by rw [found]; exact Bool.and_false _))
    | some frame =>
      dsimp only
      by_cases given : frees index
      · rw [if_pos given]
        have isLoose := loose frame found (outside index below given frame found)
        refine succeeds_mono (unmapped.extended.owned.succeeds_freePage isLoose) ?_
        intro _ final freed
        refine ⟨freed.owned, cleared.of_sameLeaves freed.same,
          untouchedNow.trans (Untouched.of_bytes freed.bytes _),
          tablesNow.trans (SameTables.of_bytes freed.bytes), fun other => ?_, ?_⟩
        · rw [freed.frees, unmapped.pmm, vacated.free other, or_assoc]
          refine or_congr_right ⟨?_, ?_⟩
          · rintro (⟨earlier, lower, gives⟩ | rfl)
            · exact ⟨earlier, by omega, gives⟩
            · exact ⟨index, Nat.lt_succ_self index, given, found⟩
          · rintro ⟨earlier, upper, gives, isOther⟩
            by_cases isLast : earlier = index
            · subst isLast
              exact .inr (Option.some.inj (isOther.symm.trans found))
            · exact .inl ⟨earlier, by omega, gives, isOther⟩
        · rw [BitmapAllocator.card_clearPages_give isLoose.inUse.used isLoose.inUse.aligned
            freed.frees, unmapped.pmm, vacated.card, returned_succ, given, found,
            Option.isSome_some, Bool.and_self, if_pos rfl, Nat.add_assoc]
      · rw [if_neg given]
        refine succeeds_pure (kept ?_)
        rw [Bool.not_eq_true] at given
        rw [given, Bool.false_and]

/-! ### Mapping new frames -/

/-- Mapping new frames: the pages are mapped to frames that are not of the kernel heap, or
none of them is mapped anew. -/
theorem Owned.wp_mapFresh (owned : Owned heap roots ram) (based : base ∈ roots) (addr : Nat)
    (attr : PageAttr) {contents : Nat → List UInt8}
    (fits : ∀ index, (contents index).length ≤ PAGE_SIZE) (count : Nat) :
    wp (mapFresh base addr attr contents count [] : RamCall ε Bool) (fun result ram' =>
      Owned heap roots ram' ∧ Refreshed heap roots (Span base addr count) ram ram' ∧
        ((result = .ok true ∧ ∀ page ∈ Span base addr count, ∀ frame,
            frameAt ram' page = some frame → frame ∉ heap) ∨
          (result = .ok false ∧ ∀ page, PageOf roots page →
            frameAt ram' page = frameAt ram page ∨ frameAt ram' page = none))) ram := by
  refine wp_mono (wp_of_succeedsOr (owned.mapFresh_exact based attr fits)) ?_
  rintro _ after ⟨enough, rfl, outcome⟩
  rcases outcome.fresh_or_back with ⟨rfl, all, length, fresh⟩ | ⟨rfl, back⟩
  · have filled := fresh.filling
    have outside : ∀ page ∈ Span base addr count, ∀ frame,
        frameAt after page = some frame → frame ∉ heap := by
      intro page inside frame mapped
      rw [← length, ← filled.targets] at inside
      obtain ⟨entry, listed, rfl⟩ := inside
      rcases filled.held entry listed with ⟨isFrame, outside⟩ | ⟨absent, -⟩
      · obtain rfl := Option.some.inj (isFrame.symm.trans mapped)
        exact outside
      · cases absent.symm.trans mapped
    refine ⟨filled.owned, fun page member => ?_, .inl ⟨rfl, outside⟩⟩
    by_cases inside : page ∈ Span base addr count
    · exact .inr ⟨inside, outside page inside⟩
    · refine .inl (filled.others page member ?_)
      rwa [filled.targets, length]
  · obtain ⟨done, le, -, cleared, -⟩ := back.cleared
    refine ⟨back.owned, (cleared.refreshed).mono (span_mono le), .inr ⟨rfl, fun page member => ?_⟩⟩
    by_cases inside : page ∈ Span base addr done
    · exact .inr ((cleared page member).1 inside)
    · exact .inl ((cleared page member).2 inside)

/-- Mapping anonymous pages, as the loader does; after an error some are mapped. -/
theorem Owned.wp_mapAnon (owned : Owned heap roots ram) (based : base ∈ roots) (addr size : Nat)
    (attr : PageAttr) :
    wp (mapAnon base addr size attr) (fun _ ram' => Extended heap roots ram ram' ∧
      Refreshed heap roots (Span base addr ((size + PAGE_SIZE - 1) / PAGE_SIZE)) ram ram') ram := by
  rw [mapAnon, wp_bind_word]
  intro _
  generalize (size + PAGE_SIZE - 1) / PAGE_SIZE = count
  refine wp_iterate_keeps ⟨owned.refl, Refreshed.refl _ _⟩ ?_
  rintro index below ⟨⟩ state ⟨kept, refreshed⟩
  rw [wp_bind]
  refine kept.owned.wp_allocPage ?_ ?_
  · dsimp only
    rw [wp_bind_ofOption]
    exact ⟨fun _ => ⟨kept, refreshed⟩, nofun⟩
  · intro frame _ taken
    dsimp only
    rw [wp_bind_ofOption]
    refine ⟨nofun, ?_⟩
    rintro _ ⟨⟩
    rw [zeroFrame, wp_bind_modify, wp_bind_word]
    intro _
    obtain ⟨zeroed, early, loose⟩ := taken.zeroed
    refine wp_mono (wp_of_ends
      (zeroed.owned.ends_mapPage based loose.inUse.frame_eq (loose.fits _) attr)) ?_
    intro result after isMapped
    refine ⟨kept.trans (zeroed.trans isMapped.extended), refreshed.trans
      ((Refreshed.of_sameLeaves early _).trans
        ((isMapped.refreshed based loose.inUse.outside).mono ?_))⟩
    exact Set.singleton_subset_iff.mpr ⟨index, below, rfl⟩

/-! ### Mapping frames that exist -/

theorem Owned.wp_mapBuffer (owned : Owned heap roots ram) (based : base ∈ roots) (attr : PageAttr)
    (inHeap : ∀ index < count,
      PAGE_SIZE * ((phys + PAGE_SIZE * index) % 2 ^ 48 / PAGE_SIZE) ∈ heap) :
    wp (mapBuffer base addr phys attr count : RamCall ε Unit) (fun result ram' =>
      result = .ok () ∧ Extended heap roots ram ram' ∧ Touched roots (Span base addr count) ram
        ram')
      ram := by
  refine wp_iterate_returns (fun _ after => Extended heap roots ram after ∧
    Touched roots (Span base addr count) ram after) ⟨owned.refl, fun _ _ _ => rfl⟩ ?_
  rintro index below state ⟨kept, touched⟩
  rw [wp_bind_word]
  intro _
  refine wp_mono (wp_of_succeeds
    (kept.owned.succeeds_mapUserPage based rfl (.inl (inHeap index below)) attr)) ?_
  rintro _ after ⟨_, rfl, inner, isMapped⟩
  refine ⟨rfl, kept.trans isMapped.extended, touched.trans fun page member outside => ?_⟩
  exact isMapped.touched page member fun isPage => outside ⟨index, below, isPage⟩

theorem isSome_translate (ram : Ram) (root virt : Nat) :
    (translateUserVa ram root virt).isSome = (leaf ram root virt).isSome := by
  rw [translateUserVa, translate_eq_leaf, Option.isSome_map]

theorem leaf_of_translate (translated : translateUserVa ram base virt = some phys) :
    leaf ram base virt = some (PAGE_SIZE * (phys / PAGE_SIZE)) := by
  rw [translateUserVa, translate_eq_add] at translated
  obtain ⟨frame, mapped, rfl⟩ := Option.map_eq_some_iff.mp translated
  rw [page_of_offset (leaf_bounds mapped).1 (Nat.mod_lt virt (by decide))]
  exact mapped

/-! ### Mapping pages again -/

def mappings (ram : Ram) (base addr count : Nat) : List (Nat × Nat) :=
  (List.range count).map fun index =>
    (addr + PAGE_SIZE * index, (leaf ram base (addr + PAGE_SIZE * index)).getD 0)

theorem translate_page (mapped : leaf ram base virt = some frame) :
    ∃ phys, translateUserVa ram base virt = some phys ∧ PAGE_SIZE * (phys / PAGE_SIZE) = frame := by
  refine ⟨frame + virt % PAGE_SIZE, ?_,
    page_of_offset (leaf_bounds mapped).1 (Nat.mod_lt virt (by decide))⟩
  rw [translateUserVa, translate_eq_add, mapped, Option.map_some]

theorem targets_mappings (ram : Ram) (base addr count : Nat) :
    Targets base (mappings ram base addr count) = Span base addr count := by
  ext page
  simp only [Targets, Span, mappings, List.mem_map, List.mem_range, Set.mem_ofPred_eq]
  constructor
  · rintro ⟨_, ⟨index, below, rfl⟩, isPage⟩
    exact ⟨index, below, isPage⟩
  · rintro ⟨index, below, isPage⟩
    exact ⟨_, ⟨index, below, rfl⟩, isPage⟩

theorem leaf_of_mappings
    (mapped : ∀ index < count, (leaf ram base (addr + PAGE_SIZE * index)).isSome)
    {entry : Nat × Nat} (listed : entry ∈ mappings ram base addr count) :
    leaf ram base entry.1 = some entry.2 := by
  obtain ⟨index, below, rfl⟩ := List.mem_map.mp listed
  obtain ⟨frame, isFrame⟩ := Option.isSome_iff_exists.mp (mapped index (List.mem_range.mp below))
  dsimp only
  rw [isFrame]
  rfl

theorem endsOr_framesOf (error : ε) (addr count : Nat) (ram : Ram) :
    endsOr (u64Max < addr + PAGE_SIZE * count) (framesOf error base addr count)
      (fun result ram' => ram' = ram ∧
        ((result = .ok (mappings ram base addr count) ∧
            ∀ index < count, (leaf ram base (addr + PAGE_SIZE * index)).isSome) ∨
          (result = .error error ∧
            ∃ index < count, leaf ram base (addr + PAGE_SIZE * index) = none))) ram := by
  induction count with
  | zero =>
    exact .inl (ends_pure ⟨rfl, .inl ⟨rfl, fun _ below => absurd below (Nat.not_lt_zero _)⟩⟩)
  | succ count ih =>
    have more : PAGE_SIZE * count ≤ PAGE_SIZE * (count + 1) := Nat.mul_le_mul_left _ (Nat.le_succ _)
    refine endsOr_bind (endsOr_mono ih (by omega) ?_)
    rintro _ ram ⟨rfl, ⟨rfl, mapped⟩ | ⟨rfl, index, below, unmapped⟩⟩
    · refine endsOr_bind_word (by omega) fun _ => .inl (ends_bind_gets ?_)
      cases found : leaf ram base (addr + PAGE_SIZE * count) with
      | none =>
        rw [translateUserVa, translate_eq_leaf, found, Option.map_none]
        exact ⟨_, _, rfl, rfl, .inr ⟨rfl, count, Nat.lt_succ_self count, found⟩⟩
      | some frame =>
        obtain ⟨phys, translated, isPage⟩ := translate_page found
        rw [translated]
        refine ⟨_, _, rfl, rfl, .inl ⟨?_, fun index below => ?_⟩⟩
        · rw [mappings, mappings, List.range_succ, List.map_append, List.map_singleton, found,
            isPage]
          rfl
        · rcases Nat.lt_succ_iff_lt_or_eq.mp below with earlier | rfl
          · exact mapped index earlier
          · exact Option.isSome_of_eq_some found
    · exact ⟨rfl, .inr ⟨rfl, index, by omega, unmapped⟩⟩

theorem walkCreate_existing (root : Nat) {indices : List Index} {table lowest : Nat}
    (exist : walk (link ram) table indices = some lowest) :
    walkCreate root table indices ram = some (.ok lowest, ram) := by
  induction indices generalizing table with
  | nil =>
    rw [walk] at exist
    rw [walkCreate, Option.some.inj exist]
    rfl
  | cons index indices ih =>
    rw [walk] at exist
    cases found : link ram table index with
    | none =>
      rw [found] at exist
      cases exist
    | some next =>
      rw [found] at exist
      rw [walkCreate]
      show Call.bind (Call.gets _) _ ram = _
      rw [Call.bind, Call.gets]
      dsimp only
      rw [found]
      exact ih exist

theorem exists_lowest (mapped : leaf ram base virt = some frame) :
    ∃ table, walk (link ram) base (tableIndices virt) = some table := by
  rw [leaf, pagePath, walk_concat] at mapped
  obtain ⟨table, walked, -⟩ := Option.bind_eq_some_iff.mp mapped
  exact ⟨table, walked⟩

/-- Mapping a page again to its frame sets its attributes and nothing else. -/
theorem succeeds_mapUserPage_mapped (tables : Tables ram roots place) (based : base ∈ roots)
    (mapped : leaf ram base virt = some frame) (attr : PageAttr) :
    succeeds (mapUserPage base virt frame attr : RamCall ε Unit) (fun _ ram' =>
      Tables ram' roots place ∧ Grown ram place ram' place ∧ ram'.pmm = ram.pmm ∧
        SameLeaves roots ram ram' ∧
        EntrySet roots base virt (some (pageEntry frame attr)) ram ram') ram := by
  obtain ⟨table, located⟩ := exists_lowest mapped
  obtain ⟨aligned, below⟩ := leaf_bounds mapped
  obtain ⟨-, tables', grown, set⟩ := tables.set based located (pageEntry frame attr) rfl
  rw [valid_pageEntry] at set
  have leafSet := set.leafSet
  rw [Option.map_some, address_pageEntry, frame_of_below aligned below] at leafSet
  have same :
    SameLeaves roots ram (writeEntry ram table (pageIndex virt) (pageEntry frame attr)) := by
    intro root member path length
    by_cases isPage : root = base ∧ path = pagePath virt
    · obtain ⟨rfl, rfl⟩ := isPage
      exact leafSet.1.trans mapped.symm
    · exact leafSet.2 root member path length isPage
  refine succeeds_bind (succeeds_attempt (succeeds_bind ⟨table, ram,
    walkCreate_existing base located, succeeds_modify (succeeds_pure ?_)⟩))
  exact ⟨tables', grown, rfl, same, set⟩

/-- Every page of a list has its frame and the attributes, and no other page changed. -/
structure MappedAgain (roots : Set Nat) (place : Place) (base : Nat) (attr : PageAttr)
    (entries : List (Nat × Nat)) (ram ram' : Ram) : Prop where
  tables : Tables ram' roots place
  grown : Grown ram place ram' place
  pmm : ram'.pmm = ram.pmm
  same : SameLeaves roots ram ram'
  inside : ∀ entry ∈ entries,
    entryAt ram' base (pagePath entry.1) = some (pageEntry entry.2 attr)
  outside : ∀ page, PageOf roots page → page ∉ Targets base entries →
    entryAt ram' page.1 page.2 = entryAt ram page.1 page.2

theorem succeeds_remap (tables : Tables ram roots place) (based : base ∈ roots) (attr : PageAttr)
    {entries : List (Nat × Nat)} (mapped : ∀ entry ∈ entries,
      leaf ram base entry.1 = some entry.2) :
    succeeds (remap base attr entries : RamCall ε Unit)
      (fun _ => MappedAgain roots place base attr entries ram) ram := by
  induction entries generalizing ram with
  | nil =>
    exact succeeds_pure ⟨tables, Grown.refl tables, rfl, SameLeaves.refl roots ram, by simp,
      fun _ _ _ => rfl⟩
  | cons entry entries ih =>
    obtain ⟨virt, frame⟩ := entry
    have here := mapped (virt, frame) List.mem_cons_self
    refine succeeds_bind (succeeds_mono
      (succeeds_mapUserPage_mapped tables based here attr) ?_)
    rintro _ middle ⟨tables', grown, samePmm, same, set⟩
    have still : ∀ entry ∈ entries, leaf middle base entry.1 = some entry.2 := fun entry listed =>
      (frameAt_of_sameLeaves same (pageOf_pageAt based entry.1)).trans
        (mapped entry (List.mem_cons_of_mem _ listed))
    refine succeeds_mono (ih tables' still) ?_
    rintro _ final ⟨tables'', later, laterPmm, laterSame, isSet, others⟩
    refine ⟨tables'', grown.trans later, laterPmm.trans samePmm, same.trans laterSame,
      fun other listed => ?_, fun page member outside => ?_⟩
    · rcases List.mem_cons.mp listed with rfl | inRest
      · by_cases again : pageAt base virt ∈ Targets base entries
        · -- the page comes again, with the frame it still has
          obtain ⟨other, otherListed, samePage⟩ := again
          have samePath : pagePath virt = pagePath other.1 := congrArg Prod.snd samePage
          have sameFrame : frame = other.2 := by
            have now := still other otherListed
            rw [leaf, ← samePath] at now
            have before := (same base based (pagePath virt) rfl).trans here
            exact Option.some.inj (before.symm.trans now)
          show entryAt final base (pagePath virt) = some (pageEntry frame attr)
          rw [samePath, sameFrame]
          exact isSet other otherListed
        · exact (others _ (pageOf_pageAt based virt) again).trans set.1
      · exact isSet other inRest
    · rw [targets_cons, Set.mem_union, not_or] at outside
      refine (others page member outside.2).trans (set.2 _ member.1 _ member.2 fun isPage => ?_)
      exact outside.1 (Prod.ext isPage.1 isPage.2)

theorem MappedAgain.entryAt_mappings {attr : PageAttr} {ram' : Ram} {index : Nat}
    (remapped : MappedAgain roots place base attr (mappings ram base addr count) ram ram')
    (below : index < count) (isFrame : leaf ram base (addr + PAGE_SIZE * index) = some frame) :
    entryAt ram' base (pagePath (addr + PAGE_SIZE * index)) = some (pageEntry frame attr) := by
  have entry := remapped.inside _ (List.mem_map_of_mem (List.mem_range.mpr below))
  dsimp only at entry
  rw [isFrame] at entry
  exact entry

/-! ### Writing through a mapping -/

theorem Owned.write_mapped (owned : Owned heap roots ram) (based : base ∈ roots)
    (mapped : leaf ram base virt = some frame) {bytes : List UInt8}
    (fits : bytes.length ≤ PAGE_SIZE - virt % PAGE_SIZE) :
    Extended heap roots ram
        { ram with bytes := ram.bytes.copy (frame + virt % PAGE_SIZE) bytes } ∧
      SameLeaves roots ram
        { ram with bytes := ram.bytes.copy (frame + virt % PAGE_SIZE) bytes } := by
  have member := pageOf_pageAt based virt
  have aligned := (leaf_bounds mapped).1
  have inPage := Nat.mod_lt virt (show 0 < PAGE_SIZE by decide)
  have low : (frame + virt % PAGE_SIZE) % PAGE_SIZE = virt % PAGE_SIZE := by
    simp only [PAGE_SIZE] at *
    omega
  refine owned.write_copy (frame + virt % PAGE_SIZE) bytes ?_ ?_
  · rw [page_of_offset aligned inPage]
    exact (owned.mapped_settled member mapped).2
  · rw [low]
    omega

theorem bytes_fit (data : List UInt8) (virt : Nat) :
    (data.take (min (PAGE_SIZE - virt % PAGE_SIZE) data.length)).length ≤
      PAGE_SIZE - virt % PAGE_SIZE := by
  rw [List.length_take]
  omega

theorem Owned.wp_copyOut (owned : Owned heap roots ram) (based : base ∈ roots) (fuel virt : Nat)
    (data : List UInt8) :
    wp (copyOut base fuel virt data) (fun _ ram' => Extended heap roots ram ram' ∧
      SameLeaves roots ram ram') ram := by
  induction fuel generalizing ram virt data with
  | zero =>
    rw [copyOut, wp_pure]
    exact ⟨owned.refl, SameLeaves.refl roots ram⟩
  | succ fuel ih =>
    rw [copyOut, wp_ite]
    refine ⟨fun _ => (wp_pure _).mpr ⟨owned.refl, SameLeaves.refl roots ram⟩, fun _ => ?_⟩
    rw [wp_bind_word]
    intro _
    rw [wp_bind_gets, wp_bind_ofOption]
    refine ⟨fun _ => ⟨owned.refl, SameLeaves.refl roots ram⟩, fun phys translated => ?_⟩
    rw [translate_eq_add] at translated
    obtain ⟨frame, mapped, rfl⟩ := Option.map_eq_some_iff.mp translated
    rw [writeFrame, wp_bind_modify]
    obtain ⟨written, same⟩ := owned.write_mapped based mapped (bytes_fit data virt)
    refine wp_mono (ih written.owned _ _) ?_
    rintro result final ⟨extended, later⟩
    exact ⟨written.trans extended, same.trans later⟩

end Cyllor.Mm
