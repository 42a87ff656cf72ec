import Cyllor.Mm.TableDemand

/-!
Contract: what the loop of `do_mmap` and `do_brk` over new pages does, for every number of
free frames.

Owns:
- `tableDemand`, the number of tables that a range of pages lacks;
- `Fresh`, the invariant of the loop: the pages so far have new frames with the wanted
  attributes and contents, and the other pages show what they showed;
- the three ways in which the loop ends, with the number of free frames that leads to each.
-/

namespace Cyllor.Mm

open Cyllor.Arch LinkForest
open Call hiding pure bind

variable {count frame : Nat}

variable {heap roots : Set Nat} {ram ram' : Ram} {base : Nat} {ε : Type}

/-! ### Demand for tables -/

/-- The places of the tables on the way to the pages of a range. -/
def rangeTrails (addr count : Nat) : Finset (List Index) :=
  (Finset.range count).biUnion fun index => (tableTrails (addr + PAGE_SIZE * index)).toFinset

/-- How many tables the pages of a range lack. -/
def tableDemand (ram : Ram) (base addr count : Nat) : Nat :=
  ((rangeTrails addr count).filter fun trail => (walk (link ram) base trail).isNone).card

theorem rangeTrails_succ (addr count : Nat) :
    rangeTrails addr (count + 1) =
      rangeTrails addr count ∪ (tableTrails (addr + PAGE_SIZE * count)).toFinset := by
  rw [rangeTrails, Finset.range_add_one, Finset.biUnion_insert, Finset.union_comm]
  rfl

theorem tableDemand_mono (ram : Ram) (base addr : Nat) {fewer : Nat} (le : fewer ≤ count) :
    tableDemand ram base addr fewer ≤ tableDemand ram base addr count := by
  refine Finset.card_le_card (Finset.filter_subset_filter _ ?_)
  exact Finset.biUnion_subset_biUnion_of_subset_left _ (Finset.range_subset_range.mpr le)

theorem tableDemand_le (ram : Ram) (base addr count : Nat) :
    tableDemand ram base addr count ≤ count * 3 := by
  have trails : (rangeTrails addr count).card ≤ (Finset.range count).card * 3 :=
    Finset.card_biUnion_le_card_mul _ _ 3 fun index _ => List.toFinset_card_le _
  rw [Finset.card_range] at trails
  exact (Finset.card_filter_le _ _).trans trails

theorem length_of_mem_rangeTrails {addr : Nat} {trail : List Index}
    (member : trail ∈ rangeTrails addr count) : trail.length ≤ 3 := by
  obtain ⟨index, -, listed⟩ := Finset.mem_biUnion.mp member
  exact length_of_mem_tableTrails (List.mem_toFinset.mp listed)

theorem SameTables.tableDemand_eq (same : SameTables roots ram ram') (based : base ∈ roots)
    (addr count : Nat) : tableDemand ram' base addr count = tableDemand ram base addr count := by
  have absent : ∀ trail ∈ rangeTrails addr count,
      ((walk (link ram') base trail).isNone ↔ (walk (link ram) base trail).isNone) := by
    intro trail member
    rw [same base based trail (length_of_mem_rangeTrails member)]
  rw [tableDemand, tableDemand, Finset.filter_congr absent]

theorem tableDemand_succ {start : Ram} {addr : Nat}
    (added : ∀ trail : List Index, trail.length ≤ 3 →
      ((walk (link ram) base trail).isSome ↔
        (walk (link start) base trail).isSome ∨ trail ∈ rangeTrails addr count)) :
    tableDemand start base addr (count + 1) = tableDemand start base addr count +
      lacking ram base (tableTrails (addr + PAGE_SIZE * count)) := by
  let missing := fun trail => (walk (link start) base trail).isNone
  have split : (rangeTrails addr (count + 1)).filter (fun trail => missing trail) =
      (rangeTrails addr count).filter (fun trail => missing trail) ∪
        ((tableTrails (addr + PAGE_SIZE * count)).filter fun trail =>
          (walk (link ram) base trail).isNone).toFinset := by
    ext trail
    simp only [rangeTrails_succ, Finset.mem_filter, Finset.mem_union, List.mem_toFinset,
      List.mem_filter, missing]
    constructor
    · rintro ⟨earlier | here, absent⟩
      · exact .inl ⟨earlier, absent⟩
      · by_cases earlier : trail ∈ rangeTrails addr count
        · exact .inl ⟨earlier, absent⟩
        · refine .inr ⟨here, ?_⟩
          have now := (not_congr (added trail (length_of_mem_tableTrails here))).mpr
            (by simpa [not_or] using ⟨Option.isNone_iff_eq_none.mp absent, earlier⟩)
          simpa using now
    · rintro (⟨earlier, absent⟩ | ⟨here, now⟩)
      · exact ⟨.inl earlier, absent⟩
      · have neither := (not_congr (added trail (length_of_mem_tableTrails here))).mp
          (by simpa using now)
        rw [not_or] at neither
        exact ⟨.inr here, by simpa using neither.1⟩
  have apart : Disjoint ((rangeTrails addr count).filter fun trail => missing trail)
      ((tableTrails (addr + PAGE_SIZE * count)).filter fun trail =>
        (walk (link ram) base trail).isNone).toFinset := by
    rw [Finset.disjoint_left]
    intro trail earlier here
    rw [List.mem_toFinset, List.mem_filter] at here
    have present := (added trail (length_of_mem_tableTrails here.1)).mpr
      (.inr (Finset.mem_filter.mp earlier).1)
    rw [← Option.not_isSome, present] at here
    cases here.2
  have nodup : ((tableTrails (addr + PAGE_SIZE * count)).filter fun trail =>
      (walk (link ram) base trail).isNone).Nodup := (nodup_trailsFrom _ _).filter _
  rw [tableDemand, split, Finset.card_union_of_disjoint apart, List.toFinset_card_of_nodup nodup,
    ← List.countP_eq_length_filter]
  rfl

/-! ### One page -/

/-- What mapping one page to a new frame leaves behind. Only a lack of frames for tables
leaves the page unmapped, and then none is left. -/
structure Installed (heap roots : Set Nat) (base virt frame : Nat) (attr : PageAttr)
    (bytes : List UInt8) (ram : Ram) (result : Except Unit Unit) (ram' : Ram) : Prop where
  extended : Extended heap roots ram ram'
  touched : Touched roots {pageAt base virt} ram ram'
  leafCases : result = .ok () ∧ leaf ram' base virt = some frame ∨
    result = .error () ∧ leaf ram base virt = none ∧ leaf ram' base virt = none
  untouched : Untouched roots {pageAt base virt} ram ram'
  shows : result = .ok () →
    viewAt ram' (pageAt base virt) = some ⟨pageEntry frame attr, padded bytes⟩
  demand : result = .ok () ∧
      ram'.pmm.clearPages.card + lacking ram base (tableTrails virt) = ram.pmm.clearPages.card ∧
        TablesAdded base (tableTrails virt) ram ram' ∨
    result = .error () ∧ ram.pmm.clearPages.card < lacking ram base (tableTrails virt) ∧
      ram'.pmm.clearPages.card = 0
  grow : TablesGrow roots ram ram'
  staysUsed : ∀ other, ¬ ram.pmm.IsFree other → ¬ ram'.pmm.IsFree other

theorem Installed.leaf_cases {virt : Nat} {attr : PageAttr} {bytes : List UInt8}
    {result : Except Unit Unit}
    (installed : Installed heap roots base virt frame attr bytes ram result ram') :
    leaf ram' base virt = some frame ∨ leaf ram base virt = none ∧ leaf ram' base virt = none :=
  installed.leafCases.imp And.right And.right

theorem Owned.succeeds_install {α : Type} (owned : Owned heap roots ram) (based : base ∈ roots)
    {virt : Nat} (loose : Loose heap roots ram frame) (attr : PageAttr) {bytes : List UInt8}
    (fits : bytes.length ≤ PAGE_SIZE) {rest : RamCall ε α} {post : α → Ram → Prop} {panics : Prop}
    (next : ∀ result ram', Installed heap roots base virt frame attr bytes ram result ram' →
      succeedsOr panics rest post ram') :
    succeedsOr panics (do
      zeroFrame frame
      mapUserPage base virt frame attr
      writeFrame frame bytes
      rest) post ram := by
  obtain ⟨zeroed, zeroSame⟩ := owned.write_zero loose.inUse
  have outside : ∀ addr, PAGE_SIZE * (addr / PAGE_SIZE) ≠ frame →
      (ram.bytes.fill frame PAGE_SIZE 0) addr = ram.bytes addr := by
    intro addr other
    have aligned := loose.inUse.aligned
    refine ByteMemory.sameOutside_fill _ _ _ _ addr ?_
    simp only [PAGE_SIZE] at aligned other ⊢
    omega
  have zeroUntouched := owned.untouched_write loose.inUse.noTable outside
  have zeroTables := owned.sameTables_write loose.inUse.noTable outside
  generalize isZero : ({ ram with bytes := ram.bytes.fill frame PAGE_SIZE 0 } : Ram) = zero at *
  have zeroPmm : zero.pmm = ram.pmm := by rw [← isZero]
  have zeroLoose := loose.of_sameLeaves zeroed zeroSame
  have zeros : ∀ offset < PAGE_SIZE, zero.bytes (frame + offset) = 0 := by
    intro offset inPage
    rw [← isZero]
    exact if_pos ⟨Nat.le_add_right _ _, by omega⟩
  obtain ⟨place, tables⟩ := zeroed.owned.tables
  refine succeedsOr_bind ⟨⟨⟩, zero, congrArg (fun after => some (Except.ok _, after)) isZero, ?_⟩
  refine succeedsOr_bind (succeeds_bind (succeeds_attempt_of_ends (ends_mono
    (ends_and_wp (Mm.ends_mapPage tables based zeroed.owned.counted virt frame attr)
      (wp_and (zeroed.owned.wp_mapPage_view based loose.inUse.frame_eq (zeroLoose.fits _) attr)
        (Arch.wp_mapPage tables based virt frame attr))) ?_)))
  rintro result middle ⟨⟨grow, demand⟩, ⟨mapped, mapUntouched, entry⟩, _, _, grown, _⟩
  refine succeeds_pure (succeedsOr_bind (succeeds_modify (next result _ ?_)))
  have inUse := mapped.extended.inUse zeroLoose.inUse
  obtain ⟨written, writeSame⟩ := mapped.extended.owned.write_inUse inUse fits
  have outsideWrite : ∀ addr, PAGE_SIZE * (addr / PAGE_SIZE) ≠ frame →
      (middle.bytes.copy frame bytes) addr = middle.bytes addr := by
    intro addr other
    have aligned := inUse.aligned
    refine ByteMemory.sameOutside_copy _ _ _ addr ?_
    simp only [PAGE_SIZE] at aligned other fits
    omega
  have writeUntouched := mapped.extended.owned.untouched_write inUse.noTable outsideWrite
  have writeTables := mapped.extended.owned.sameTables_write inUse.noTable outsideWrite
  -- the frame is mapped at the new page or nowhere
  have onlyHere : ∀ page, PageOf roots page → page ∉ ({pageAt base virt} : Set Page) →
      frameAt middle page ≠ some frame := by
    intro page member other now
    rw [mapped.touched page member other] at now
    exact zeroLoose.unmapped page member now
  refine ⟨zeroed.trans (mapped.extended.trans written), ?_, ?_, ?_, ?_, ?_, ?_, ?_⟩
  · intro page member other
    rw [frameAt_of_sameLeaves writeSame member, mapped.touched page member other,
      frameAt_of_sameLeaves zeroSame member]
  · have before := frameAt_of_sameLeaves zeroSame (pageOf_pageAt based virt)
    have after := frameAt_of_sameLeaves writeSame (pageOf_pageAt based virt)
    have outcome := mapped.outcome
    cases result with
    | ok _ => exact .inl ⟨rfl, after.trans outcome.1⟩
    | error _ =>
      refine .inr ⟨rfl, before.symm.trans outcome.2, after.trans ?_⟩
      exact (frameAt_of_sameLeaves outcome.1 (pageOf_pageAt based virt)).trans outcome.2
  · intro page member other
    rw [writeUntouched page member (onlyHere page member other), mapUntouched page member other,
      zeroUntouched page member (loose.unmapped page member)]
  · rintro rfl
    have sameEntry : entryAt { middle with bytes := middle.bytes.copy frame bytes } base
        (pagePath virt) = some (pageEntry frame attr) := by
      obtain ⟨place', tables', minimal⟩ := mapped.extended.owned.places
      refine (tables'.sameEntries_of_bytes (fun addr isPlaced => outsideWrite addr fun isFrame =>
        inUse.noTable (isFrame ▸ minimal _ isPlaced)) base based (pagePath virt) rfl).trans
          (entry rfl)
    have kept : ∀ offset < PAGE_SIZE, middle.bytes (frame + offset) = 0 := by
      intro offset inPage
      rw [mapped.bytes, zeros offset inPage]
      · rw [page_of_offset loose.inUse.aligned inPage]
        exact zeroLoose.inUse.used
      · rw [page_of_offset loose.inUse.aligned inPage]
        exact zeroLoose.inUse.noTable
    rw [viewAt, pageAt, sameEntry, Option.map_some, address_pageEntry, loose.inUse.frame_eq,
      pageBytes_copy fits kept]
  · rw [zeroTables.lacking_eq based fun trail => length_of_mem_tableTrails, zeroPmm] at demand
    refine demand.imp (And.imp_right (And.imp_right fun added trail short => ?_)) id
    rw [writeTables base based trail short, added trail short, zeroTables base based trail short]
  · refine (zeroTables.grow fun other free => ?_).trans
      (grow.trans (writeTables.grow fun _ => id))
    rw [zeroPmm]
    exact free
  · intro other used free
    rw [← zeroPmm] at used
    exact used ((grown.frees other).mp free).1

/-! ### The way back -/

/-- The way back returns. The pages are unmapped, their frames are free, and the other pages
show what they showed. -/
theorem Owned.succeeds_giveBack (owned : Owned heap roots ram) (based : base ∈ roots)
    {entries : List (Nat × Nat)} (held : ∀ entry ∈ entries, Held heap roots base ram entry)
    (apart : entries.Pairwise (Apart base)) :
    succeeds (giveBack base entries : RamCall ε Unit) (fun _ ram' =>
      Owned heap roots ram' ∧ Cleared roots (Targets base entries) ram ram' ∧
        Untouched roots (Targets base entries) ram ram' ∧ SameTables roots ram ram' ∧
        (∀ frame, ram.pmm.IsFree frame → ram'.pmm.IsFree frame) ∧
        ∀ entry ∈ entries, ram'.pmm.IsFree entry.2) ram := by
  induction entries generalizing ram with
  | nil =>
    refine succeeds_pure ⟨owned, fun page _ => ⟨fun inside => ?_, fun _ => rfl⟩,
      Untouched.refl _ _, SameTables.refl _ _, fun _ => id, by simp⟩
    simp [Targets] at inside
  | cons entry entries ih =>
    obtain ⟨virt, frame⟩ := entry
    obtain ⟨first, rest⟩ := List.pairwise_cons.mp apart
    refine succeeds_bind (succeeds_mono (owned.succeeds_unmapUserPage based virt) ?_)
    rintro _ after ⟨rfl, unmapped⟩
    have looseStays : ∀ other, Loose heap roots ram other → Loose heap roots after other :=
      fun other loose => loose.extended unmapped.extended fun _ => unmapped.cleared.frameAt_of_some
    -- either way the frame of the entry is given back, and is loose by now
    obtain ⟨isFrame, loose⟩ :=
      (held (virt, frame) List.mem_cons_self).unmapped unmapped.loose (looseStays frame)
    rw [isFrame]
    refine succeeds_bind (succeeds_mono (unmapped.extended.owned.succeeds_freePage loose) ?_)
    intro _ given freed
    have sofar := unmapped.cleared.of_sameLeaves freed.same
    refine succeeds_mono (ih freed.owned (fun other listed => ?_) rest) ?_
    · exact (held other (List.mem_cons_of_mem _ listed)).given based (first other listed) sofar
        fun loose => freed.stays other.2 (Ne.symm (first other listed).2) (looseStays other.2 loose)
    · rintro _ final ⟨finalOwned, later, untouchedLater, tablesLater, freesLater, isFree⟩
      rw [targets_cons]
      refine ⟨finalOwned, sofar.trans later, ?_,
        (unmapped.sameTables.trans (SameTables.of_bytes freed.bytes)).trans tablesLater, ?_, ?_⟩
      · exact ((unmapped.untouched owned).mono Set.subset_union_left).trans
          ((Untouched.of_bytes freed.bytes _).trans (untouchedLater.mono Set.subset_union_right))
      · intro other free
        refine freesLater other ((freed.frees other).mpr (.inl ?_))
        rw [unmapped.pmm]
        exact free
      · intro other listed
        rcases List.mem_cons.mp listed with rfl | inRest
        · exact freesLater frame ((freed.frees frame).mpr (.inr rfl))
        · exact isFree other inRest

/-! ### The loop -/

/-- The pages so far have new frames, with the attributes and contents meant for them where
they are mapped; the other pages show what they showed at the start, and every frame that was
free is free, a table, or one of the new frames. -/
structure Fresh (heap roots : Set Nat) (base addr : Nat) (attr : PageAttr)
    (contents : Nat → List UInt8) (start : Ram) (mapped : List (Nat × Nat)) (ram : Ram) :
    Prop where
  filling : Filling heap roots base addr start mapped ram
  untouched : Untouched roots (Targets base mapped) start ram
  shows : ∀ index entry, mapped[index]? = some entry → leaf ram base entry.1 = some entry.2 →
    viewAt ram (pageAt base entry.1) =
      some ⟨pageEntry entry.2 attr, padded (contents index)⟩
  accounted : ∀ frame, start.pmm.IsFree frame →
    ram.pmm.IsFree frame ∨ IsTable roots ram frame ∨ ∃ entry ∈ mapped, entry.2 = frame
  frees : ∀ frame, ram.pmm.IsFree frame → start.pmm.IsFree frame
  wereFree : ∀ entry ∈ mapped, start.pmm.IsFree entry.2

/-- The count of free frames after so many pages of which none lacks a table. -/
structure Counting (base addr : Nat) (start : Ram) (count : Nat) (ram : Ram) : Prop where
  card : ram.pmm.clearPages.card + count + tableDemand start base addr count =
    start.pmm.clearPages.card
  added : ∀ trail : List Index, trail.length ≤ 3 →
    ((walk (link ram) base trail).isSome ↔
      (walk (link start) base trail).isSome ∨ trail ∈ rangeTrails addr count)

section Loop

variable {addr : Nat} {attr : PageAttr} {contents : Nat → List UInt8} {start : Ram}
  {mapped : List (Nat × Nat)}

theorem Owned.fresh_nil (owned : Owned heap roots ram) :
    Fresh heap roots base addr attr contents ram [] ram where
  filling := ⟨owned, rfl, by simp, List.Pairwise.nil, fun _ _ _ => rfl⟩
  untouched := Untouched.refl _ _
  shows := by simp
  accounted _ free := .inl free
  frees _ := id
  wereFree := by simp

theorem counting_zero (ram : Ram) : Counting base addr ram 0 ram where
  card := by simp [tableDemand, rangeTrails]
  added := by simp [rangeTrails]

theorem Fresh.push (fresh : Fresh heap roots base addr attr contents start mapped ram)
    (based : base ∈ roots) {taken : Ram} (isTaken : Taken heap roots ram frame taken)
    (frees : ∀ other, taken.pmm.IsFree other ↔ ram.pmm.IsFree other ∧ other ≠ frame)
    {result : Except Unit Unit}
    (installed : Installed heap roots base (addr + PAGE_SIZE * mapped.length) frame attr
      (contents mapped.length) taken result ram') :
    Fresh heap roots base addr attr contents start
      (mapped ++ [(addr + PAGE_SIZE * mapped.length, frame)]) ram' := by
  have kept := fresh.filling.of_sameLeaves based isTaken.extended isTaken.same
  have notTaken : ∀ entry ∈ mapped, entry.2 ≠ frame := by
    rintro entry member rfl
    exact ((fresh.filling.held entry member).inUse fresh.filling.owned based).used isTaken.free
  have grow : TablesGrow roots taken ram' := installed.grow
  have others : ∀ page, PageOf roots page →
      page ≠ pageAt base (addr + PAGE_SIZE * mapped.length) →
        viewAt ram' page = viewAt ram page := by
    intro page member other
    rw [installed.untouched page member other, viewAt_of_bytes isTaken.bytes]
  refine ⟨kept.extend based isTaken.loose notTaken installed.extended installed.touched
    installed.leaf_cases, ?_, ?_, ?_, ?_, ?_⟩
  · intro page member outside
    have notNext : page ≠ pageAt base (addr + PAGE_SIZE * mapped.length) := fun isNext =>
      outside ⟨_, List.mem_append_right _ (List.mem_singleton_self _), isNext⟩
    rw [others page member notNext]
    exact fresh.untouched page member fun ⟨entry, listed, isPage⟩ =>
      outside ⟨entry, List.mem_append_left _ listed, isPage⟩
  · intro index entry listed isMapped
    by_cases earlier : index < mapped.length
    · rw [List.getElem?_append_left earlier] at listed
      have member := List.mem_of_getElem? listed
      have different := fresh.filling.next_ne based member
      rw [others _ (pageOf_pageAt based entry.1) different]
      refine fresh.shows index entry listed ?_
      exact ((frameAt_of_sameLeaves isTaken.same (pageOf_pageAt based entry.1)).symm.trans
        (installed.touched _ (pageOf_pageAt based entry.1) different).symm).trans isMapped
    · obtain ⟨isLast, rfl⟩ : index = mapped.length ∧
          (addr + PAGE_SIZE * mapped.length, frame) = entry := by
        rw [List.getElem?_append_right (by omega)] at listed
        have atEnd : index - mapped.length = 0 := by
          by_contra later
          rw [List.getElem?_eq_none (by simp; omega)] at listed
          cases listed
        rw [atEnd] at listed
        exact ⟨by omega, Option.some.inj listed⟩
      rw [isLast]
      rcases installed.leafCases with ⟨isOk, -⟩ | ⟨-, -, absent⟩
      · exact installed.shows isOk
      · cases absent.symm.trans isMapped
  · intro other free
    rcases fresh.accounted other free with still | isTable | ⟨entry, listed, isEntry⟩
    · by_cases isFrame : other = frame
      · exact .inr (.inr ⟨_, List.mem_append_right _ (List.mem_singleton_self _), isFrame.symm⟩)
      · exact (grow.2 other ((frees other).mpr ⟨still, isFrame⟩)).imp_right .inl
    · exact .inr (.inl (grow.isTable ((SameTables.of_bytes isTaken.bytes).isTable_iff.mpr isTable)))
    · exact .inr (.inr ⟨entry, List.mem_append_left _ listed, isEntry⟩)
  · intro other free
    by_contra used
    -- a frame that is free now was free after the frame of the page was taken
    have wasUsed : ¬ taken.pmm.IsFree other := by
      rw [frees]
      exact fun both => used (fresh.frees other both.1)
    exact installed.staysUsed other wasUsed free
  · intro entry listed
    rcases List.mem_append.mp listed with member | isNew
    · exact fresh.wereFree entry member
    · rw [List.mem_singleton.mp isNew]
      exact fresh.frees frame isTaken.free

section

variable (counting : Counting base addr start count ram) (same : SameTables roots ram ram')
  (based : base ∈ roots) (spent : ram'.pmm.clearPages.card + 1 = ram.pmm.clearPages.card)

include counting same based spent

theorem Counting.push {final : Ram}
    (left : final.pmm.clearPages.card + lacking ram' base (tableTrails (addr + PAGE_SIZE * count)) =
      ram'.pmm.clearPages.card)
    (added : TablesAdded base (tableTrails (addr + PAGE_SIZE * count)) ram' final) :
    Counting base addr start (count + 1) final where
  card := by
    rw [same.lacking_eq based fun trail => length_of_mem_tableTrails] at left
    rw [tableDemand_succ counting.added, ← counting.card]
    omega
  added trail short := by
    rw [added trail short, same base based trail short, counting.added trail short,
      rangeTrails_succ, Finset.mem_union, List.mem_toFinset, or_assoc]

theorem Counting.short
    (few : ram'.pmm.clearPages.card < lacking ram' base (tableTrails (addr + PAGE_SIZE * count))) :
    start.pmm.clearPages.card < count + 1 + tableDemand start base addr (count + 1) := by
  rw [same.lacking_eq based fun trail => length_of_mem_tableTrails] at few
  rw [tableDemand_succ counting.added, ← counting.card]
  omega

end

theorem Fresh.length_le (fresh : Fresh heap roots base addr attr contents start mapped ram) :
    mapped.length ≤ start.pmm.clearPages.card := by
  have whole : ∀ entry ∈ mapped, PAGE_SIZE * (entry.2 / PAGE_SIZE) = entry.2 := fun entry listed =>
    Nat.mul_div_cancel' (Nat.dvd_of_mod_eq_zero (fresh.wereFree entry listed).bounds.1)
  have different : (mapped.map fun entry => entry.2 / PAGE_SIZE).Nodup := by
    refine List.pairwise_map.mpr (fresh.filling.apart.imp_of_mem ?_)
    intro entry other listed otherListed apart same
    refine apart.2 ?_
    rw [← whole entry listed, ← whole other otherListed, same]
  rw [← List.length_map (fun entry => entry.2 / PAGE_SIZE), ← List.toFinset_card_of_nodup different]
  refine Finset.card_le_card fun page listed => ?_
  obtain ⟨entry, member, rfl⟩ := List.mem_map.mp (List.mem_toFinset.mp listed)
  rw [BitmapAllocator.mem_clearPages, whole entry member]
  exact fresh.wereFree entry member

/-- The pages that were mapped until the frames ran out were given back. -/
structure GivenBack (heap roots : Set Nat) (base addr count : Nat) (start ram : Ram) : Prop where
  owned : Owned heap roots ram
  cleared : ∃ done ≤ count, done ≤ start.pmm.clearPages.card ∧
    Cleared roots (Span base addr done) start ram ∧ Untouched roots (Span base addr done) start ram
  accounted : ∀ frame, start.pmm.IsFree frame → ram.pmm.IsFree frame ∨ IsTable roots ram frame

/-- How the loop over new pages ends: all pages are mapped; or the last one lacks a table and
is not; or a page lacks a frame, and all are given back. -/
inductive FreshOutcome (heap roots : Set Nat) (base addr : Nat) (attr : PageAttr)
    (contents : Nat → List UInt8) (start : Ram) (count : Nat) : Bool → Ram → Prop
  | complete {all : List (Nat × Nat)} {ram : Ram} (length : all.length = count)
      (fresh : Fresh heap roots base addr attr contents start all ram)
      (mapped : ∀ entry ∈ all, leaf ram base entry.1 = some entry.2)
      (enough : count + tableDemand start base addr count ≤ start.pmm.clearPages.card) :
      FreshOutcome heap roots base addr attr contents start count true ram
  | lastMissing {all : List (Nat × Nat)} {ram : Ram} {last : Nat} (isLast : count = last + 1)
      (length : all.length = count)
      (fresh : Fresh heap roots base addr attr contents start all ram)
      (unmapped : leaf ram base (addr + PAGE_SIZE * last) = none)
      (enough : count + tableDemand start base addr last ≤ start.pmm.clearPages.card)
      (short : start.pmm.clearPages.card < count + tableDemand start base addr count) :
      FreshOutcome heap roots base addr attr contents start count true ram
  | givenBack {ram : Ram} {last : Nat} (isLast : count = last + 1)
      (back : GivenBack heap roots base addr count start ram)
      (short : start.pmm.clearPages.card < count + tableDemand start base addr last) :
      FreshOutcome heap roots base addr attr contents start count false ram

theorem FreshOutcome.fresh_or_back {enough : Bool}
    (outcome : FreshOutcome heap roots base addr attr contents start count enough ram) :
    (enough = true ∧ ∃ all : List (Nat × Nat), all.length = count ∧
        Fresh heap roots base addr attr contents start all ram) ∨
      enough = false ∧ GivenBack heap roots base addr count start ram := by
  cases outcome with
  | complete length fresh => exact .inl ⟨rfl, _, length, fresh⟩
  | lastMissing _ length fresh => exact .inl ⟨rfl, _, length, fresh⟩
  | givenBack _ back => exact .inr ⟨rfl, back⟩

/-- However the loop ends, pages outside the range show what they showed before. -/
theorem FreshOutcome.untouched {enough : Bool}
    (outcome : FreshOutcome heap roots base addr attr contents start count enough ram) :
    Untouched roots (Span base addr count) start ram := by
  rcases outcome.fresh_or_back with ⟨-, all, rfl, fresh⟩ | ⟨-, back⟩
  · rw [← fresh.filling.targets]
    exact fresh.untouched
  · obtain ⟨done, le, -, -, untouched⟩ := back.cleared
    exact untouched.mono (span_mono le)

section

variable (fresh : Fresh heap roots base addr attr contents start mapped ram) (based : base ∈ roots)

include fresh based

theorem Fresh.succeeds_giveBack (le : mapped.length ≤ count) :
    succeeds (giveBack base mapped : RamCall ε Unit) (fun _ ram' =>
      GivenBack heap roots base addr count start ram') ram := by
  refine succeeds_mono (fresh.filling.owned.succeeds_giveBack based fresh.filling.held
    fresh.filling.apart) ?_
  rintro _ after ⟨owned, cleared, untouched, sameTables, frees, isFree⟩
  rw [fresh.filling.targets] at cleared untouched
  have untouchedStart := fresh.untouched
  rw [fresh.filling.targets] at untouchedStart
  refine ⟨owned, ⟨mapped.length, le, fresh.length_le, fun page member =>
    ⟨(cleared page member).1, fun outside => ?_⟩, untouchedStart.trans untouched⟩,
    fun frame free => ?_⟩
  · rw [(cleared page member).2 outside]
    exact fresh.filling.others page member (fresh.filling.targets ▸ outside)
  · rcases fresh.accounted frame free with still | isTable | ⟨entry, listed, rfl⟩
    · exact .inl (frees frame still)
    · exact .inr (sameTables.isTable_iff.mpr isTable)
    · exact .inl (isFree entry listed)

theorem Fresh.mapFresh_exhausted (none : ram.pmm.clearPages.card = 0) (more : 0 < count)
    {total : Nat} (isTotal : mapped.length + count = total) :
    succeedsOr (u64Max < addr + PAGE_SIZE * total)
      (mapFresh base addr attr contents count mapped : RamCall ε Bool)
      (fun enough ram' => enough = false ∧ GivenBack heap roots base addr total start ram')
      ram := by
  obtain ⟨count, rfl⟩ := Nat.exists_eq_succ_of_ne_zero more.ne'
  rw [mapFresh]
  refine succeedsOr_bind_word (by simp only [PAGE_SIZE]; omega) fun _ => succeedsOr_bind
    (succeeds_mono fresh.filling.owned.succeeds_allocPage_counts ?_)
  rintro _ _ (⟨rfl, rfl, -⟩ | ⟨frame, rfl, -, -, card⟩)
  · refine .inl (succeeds_bind (succeeds_mono
      (fresh.succeeds_giveBack based (show mapped.length ≤ total by omega)) ?_))
    exact fun _ _ back => succeeds_pure ⟨rfl, back⟩
  · omega

/-- The loop of `do_mmap` and `do_brk` returns for every number of free frames, unless an address
overflows. -/
theorem Fresh.mapFresh (isMapped : ∀ entry ∈ mapped, leaf ram base entry.1 = some entry.2)
    (counting : Counting base addr start mapped.length ram)
    (fits : ∀ index, (contents index).length ≤ PAGE_SIZE) {total : Nat}
    (isTotal : mapped.length + count = total) :
    succeedsOr (u64Max < addr + PAGE_SIZE * total)
      (Mm.mapFresh base addr attr contents count mapped : RamCall ε Bool)
      (FreshOutcome heap roots base addr attr contents start total) ram := by
  induction count generalizing ram mapped with
  | zero =>
    refine .inl (succeeds_pure (.complete isTotal fresh isMapped ?_))
    have card := counting.card
    rw [← isTotal, Nat.add_zero]
    omega
  | succ count ih =>
    subst isTotal
    have owned := fresh.filling.owned
    have fewer := tableDemand_mono start base addr (show mapped.length ≤ mapped.length + count by
      omega)
    have card := counting.card
    rw [Mm.mapFresh]
    refine succeedsOr_bind_word (by simp only [PAGE_SIZE]; omega) fun _ => succeedsOr_bind
      (succeeds_mono owned.succeeds_allocPage_counts ?_)
    rintro _ taken (⟨rfl, rfl, empty⟩ | ⟨frame, rfl, takes, frees, spent⟩)
    · refine .inl (succeeds_bind (succeeds_mono
        (fresh.succeeds_giveBack based (Nat.le_add_right _ (count + 1))) ?_))
      refine fun _ _ back => succeeds_pure
        (.givenBack (Nat.add_assoc mapped.length count 1).symm back ?_)
      omega
    · have sameTables : SameTables roots ram taken := SameTables.of_bytes takes.bytes
      refine takes.extended.owned.succeeds_install based takes.loose attr (fits mapped.length) ?_
      intro result after installed
      have pushed := fresh.push based takes frees installed
      have length : (mapped ++ [(addr + PAGE_SIZE * mapped.length, frame)]).length + count =
          mapped.length + (count + 1) := by
        rw [List.length_append, List.length_singleton]
        omega
      rcases installed.demand with ⟨rfl, left, added⟩ | ⟨rfl, few, empty⟩
      · have nowMapped : ∀ entry ∈ mapped ++ [(addr + PAGE_SIZE * mapped.length, frame)],
            leaf after base entry.1 = some entry.2 := by
          intro entry listed
          rcases List.mem_append.mp listed with member | isNew
          · exact ((installed.touched _ (pageOf_pageAt based entry.1)
              (fresh.filling.next_ne based member)).trans (frameAt_of_sameLeaves takes.same
                (pageOf_pageAt based entry.1))).trans (isMapped entry member)
          · rw [List.mem_singleton.mp isNew]
            exact (installed.leafCases.resolve_right fun failed => by cases failed.1).2
        have counts := counting.push sameTables based spent left added
        refine ih pushed nowMapped ?_ length
        rw [List.length_append, List.length_singleton]
        exact counts
      · have unmapped : leaf after base (addr + PAGE_SIZE * mapped.length) = none :=
          (installed.leafCases.resolve_left fun done => by cases done.1).2.2
        have short := counting.short sameTables based spent few
        by_cases atEnd : count = 0
        · subst atEnd
          refine .inl (succeeds_pure (.lastMissing rfl ?_ pushed unmapped ?_ short))
          · rw [List.length_append, List.length_singleton]
          · omega
        · refine (pushed.mapFresh_exhausted based empty (Nat.pos_of_ne_zero atEnd) length).imp_left
            (succeeds_mono · ?_)
          rintro _ final ⟨rfl, back⟩
          refine .givenBack (Nat.add_assoc mapped.length count 1).symm back ?_
          have more := tableDemand_mono start base addr
            (show mapped.length + 1 ≤ mapped.length + count by omega)
          omega

end

theorem Owned.mapFresh_exact (owned : Owned heap roots ram) (based : base ∈ roots)
    (attr : PageAttr) (fits : ∀ index, (contents index).length ≤ PAGE_SIZE) :
    succeedsOr (u64Max < addr + PAGE_SIZE * count)
      (mapFresh base addr attr contents count [] : RamCall ε Bool)
      (FreshOutcome heap roots base addr attr contents ram count) ram :=
  owned.fresh_nil.mapFresh based (by simp) (counting_zero ram) fits (Nat.zero_add count)

theorem Owned.succeeds_mapFresh_exact (owned : Owned heap roots ram) (based : base ∈ roots)
    (attr : PageAttr) (fits : ∀ index, (contents index).length ≤ PAGE_SIZE)
    (bounded : addr + PAGE_SIZE * count ≤ u64Max) :
    succeeds (mapFresh base addr attr contents count [] : RamCall ε Bool)
      (FreshOutcome heap roots base addr attr contents ram count) ram :=
  (owned.mapFresh_exact based attr fits).resolve_right fun overflow => overflow.1.not_ge bounded

end Loop

end Cyllor.Mm
