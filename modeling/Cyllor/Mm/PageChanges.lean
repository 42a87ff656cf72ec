import Cyllor.Mm.Ownership
import Cyllor.Mm.Pages

/-!
Contract: how mapped pages change, and frames held for pages.

Owns:
- `Cleared`, `Refreshed` and `Touched`, which say how the pages of a set changed;
- `Held`, a frame meant for a page, and `Filling`, that pages in a row hold new frames.
-/

namespace Cyllor.Mm

open Cyllor.Arch LinkForest
open Call hiding pure bind

variable {pages : Set Page} {addr count phys frame virt : Nat} {result : Except Unit Unit}
  {entry : Nat × Nat} {start : Ram} {mapped : List (Nat × Nat)}

variable {heap roots : Set Nat} {ram ram' ram'' : Ram} {base : Nat} {ε : Type}

/-! ### How pages change -/

/-- The pages of `count` addresses, one page apart, from `addr` on. -/
def Span (base addr count : Nat) : Set Page :=
  { page | ∃ index < count, page = pageAt base (addr + PAGE_SIZE * index) }

/-- The pages of the set are not mapped any more, and the others are mapped as before. -/
def Cleared (roots : Set Nat) (pages : Set Page) (ram ram' : Ram) : Prop :=
  ∀ page, PageOf roots page → (page ∈ pages → frameAt ram' page = none) ∧
    (page ∉ pages → frameAt ram' page = frameAt ram page)

/-- Only pages of the set changed, and they are not mapped to the kernel heap now. -/
def Refreshed (heap roots : Set Nat) (pages : Set Page) (ram ram' : Ram) : Prop :=
  ∀ page, PageOf roots page → frameAt ram' page = frameAt ram page ∨
    page ∈ pages ∧ ∀ frame, frameAt ram' page = some frame → frame ∉ heap

def Touched (roots : Set Nat) (pages : Set Page) (ram ram' : Ram) : Prop :=
  ∀ page, PageOf roots page → page ∉ pages → frameAt ram' page = frameAt ram page

theorem pageAt_mem_span (aligned : addr % PAGE_SIZE = 0) (lower : addr ≤ virt)
    (upper : virt < addr + PAGE_SIZE * count) : pageAt base virt ∈ Span base addr count := by
  refine ⟨(virt - addr) / PAGE_SIZE, ?_, Prod.ext rfl (pagePath_congr ?_)⟩
  · simp only [PAGE_SIZE] at *
    omega
  · simp only [PAGE_SIZE] at *
    omega

theorem Cleared.trans {more : Set Page} (first : Cleared roots pages ram ram')
    (second : Cleared roots more ram' ram'') : Cleared roots (pages ∪ more) ram ram'' := by
  intro page member
  refine ⟨fun inside => ?_, fun outside => ?_⟩
  · by_cases later : page ∈ more
    · exact (second page member).1 later
    · rw [(second page member).2 later]
      exact (first page member).1 (inside.resolve_right later)
  · rw [Set.mem_union, not_or] at outside
    rw [(second page member).2 outside.2, (first page member).2 outside.1]

theorem Cleared.refreshed (cleared : Cleared roots pages ram ram') :
    Refreshed heap roots pages ram ram' := by
  intro page member
  by_cases inside : page ∈ pages
  · refine .inr ⟨inside, fun frame mapped => ?_⟩
    rw [(cleared page member).1 inside] at mapped
    cases mapped
  · exact .inl ((cleared page member).2 inside)

theorem Cleared.frameAt_of_some (cleared : Cleared roots pages ram ram') {page : Page}
    (member : PageOf roots page) (now : frameAt ram' page = some frame) :
    frameAt ram page = some frame := by
  by_cases inside : page ∈ pages
  · cases ((cleared page member).1 inside).symm.trans now
  · exact ((cleared page member).2 inside).symm.trans now

theorem Refreshed.refl (pages : Set Page) (ram : Ram) : Refreshed heap roots pages ram ram :=
  fun _ _ => .inl rfl

theorem Refreshed.of_sameLeaves (same : SameLeaves roots ram ram') (pages : Set Page) :
    Refreshed heap roots pages ram ram' :=
  fun _ member => .inl (frameAt_of_sameLeaves same member)

theorem Refreshed.trans (first : Refreshed heap roots pages ram ram')
    (second : Refreshed heap roots pages ram' ram'') : Refreshed heap roots pages ram ram'' := by
  intro page member
  rcases second page member with same | changed
  · rw [same]
    exact first page member
  · exact .inr changed

theorem Refreshed.mono {more : Set Page} (refreshed : Refreshed heap roots pages ram ram')
    (subset : pages ⊆ more) : Refreshed heap roots more ram ram' :=
  fun page member => (refreshed page member).imp_right fun changed =>
    ⟨subset changed.1, changed.2⟩

theorem Refreshed.touched (refreshed : Refreshed heap roots pages ram ram') :
    Touched roots pages ram ram' :=
  fun page member outside => (refreshed page member).resolve_right fun changed => outside changed.1

theorem Touched.trans (first : Touched roots pages ram ram')
    (second : Touched roots pages ram' ram'') : Touched roots pages ram ram'' :=
  fun page member outside => (second page member outside).trans (first page member outside)

theorem span_succ (base addr count : Nat) :
    Span base addr (count + 1) =
      Span base addr count ∪ {pageAt base (addr + PAGE_SIZE * count)} := by
  ext page
  simp only [Span, Set.mem_ofPred_eq, Set.mem_union, Set.mem_singleton_iff]
  constructor
  · rintro ⟨index, below, isPage⟩
    by_cases last : index = count
    · rw [last] at isPage
      exact .inr isPage
    · exact .inl ⟨index, by omega, isPage⟩
  · rintro (⟨index, below, isPage⟩ | isPage)
    · exact ⟨index, by omega, isPage⟩
    · exact ⟨count, by omega, isPage⟩

theorem span_mono {fewer : Nat} (le : fewer ≤ count) :
    Span base addr fewer ⊆ Span base addr count :=
  fun _ ⟨index, below, isPage⟩ => ⟨index, below.trans_le le, isPage⟩

theorem wp_word {σ : Type} {state : σ} {post : Except ε Nat → σ → Prop} (value : Nat) :
    wp (word value : Call σ ε Nat) post state ↔ (value ≤ u64Max → post (.ok value) state) := by
  rw [word, wp_ite, wp_pure]
  exact and_iff_left fun _ => wp_hang

section

variable {σ α : Type} {store : σ} {value : Nat} {post : Except ε α → σ → Prop}
  {next : Nat → Call σ ε α} {panics : Prop}

theorem wp_bind_word (value : Nat) (next : Nat → Call σ ε α) :
    wp (word value >>= next) post store ↔
      (value ≤ u64Max → wp (next value) post store) := by
  rw [wp_bind, wp_word]

theorem succeeds_bind_word {post : α → σ → Prop} (fits : value ≤ u64Max)
    (holds : succeeds (next value) post store) :
    succeeds (word value >>= next) post store := by
  refine succeeds_bind ⟨value, store, ?_, holds⟩
  rw [word, if_pos fits]
  rfl

theorem ends_bind_word (fits : value ≤ u64Max) (holds : ends (next value) post store) :
    ends (word value >>= next) post store := by
  refine ends_bind_of_succeeds ⟨value, store, ?_, holds⟩
  rw [word, if_pos fits]
  rfl

theorem succeedsOr_bind_word {post : α → σ → Prop} (overflows : u64Max < value → panics)
    (holds : value ≤ u64Max → succeedsOr panics (next value) post store) :
    succeedsOr panics (word value >>= next) post store := by
  by_cases fits : value ≤ u64Max
  · exact succeedsOr_bind ⟨value, store, by rw [word, if_pos fits]; rfl, holds fits⟩
  · refine .inr ⟨overflows (by omega), ?_⟩
    show Call.bind (word value) next store = none
    rw [word, if_neg fits]
    rfl

theorem endsOr_bind_word (overflows : u64Max < value → panics)
    (holds : value ≤ u64Max → endsOr panics (next value) post store) :
    endsOr panics (word value >>= next) post store := by
  refine endsOr_bind ?_
  rw [word]
  split
  case isTrue fits => exact .inl (ends_pure (holds fits))
  case isFalse large => exact .inr ⟨overflows (Nat.lt_of_not_le large), rfl⟩

end

theorem frame_of_below (aligned : phys % PAGE_SIZE = 0) (below : phys < 2 ^ 48) :
    PAGE_SIZE * (phys % 2 ^ 48 / PAGE_SIZE) = phys := by
  rw [Nat.mod_eq_of_lt below, Nat.mul_div_cancel' (Nat.dvd_of_mod_eq_zero aligned)]

theorem InUse.frame_eq (inUse : InUse heap roots ram frame) :
    PAGE_SIZE * (frame % 2 ^ 48 / PAGE_SIZE) = frame :=
  frame_of_below inUse.aligned (by have := inUse.below; omega)

theorem Owned.succeeds_mapUserPage (owned : Owned heap roots ram) (based : base ∈ roots)
    (isFrame : PAGE_SIZE * (phys % 2 ^ 48 / PAGE_SIZE) = frame)
    (fits : Fits heap roots ram (pageAt base virt) frame) (attr : PageAttr) :
    succeeds (mapUserPage base virt phys attr : RamCall ε Unit) (fun _ ram' =>
      ∃ inner, Mapped heap roots base virt frame ram inner ram') ram :=
  succeeds_bind (succeeds_mono
    (succeeds_attempt_of_ends (owned.ends_mapPage based isFrame fits attr))
    fun inner _ mapped => succeeds_pure ⟨inner, mapped⟩)

theorem Mapped.touched (mapped : Mapped heap roots base virt frame ram result ram') :
    Touched roots {pageAt base virt} ram ram' := by
  intro page member other
  have outcome := mapped.outcome
  cases result with
  | error _ => exact frameAt_of_sameLeaves outcome.1 member
  | ok _ => exact frameAt_of_leafSet outcome member other

theorem Mapped.leaf_cases (mapped : Mapped heap roots base virt frame ram result ram')
    (based : base ∈ roots) :
    leaf ram' base virt = some frame ∨ leaf ram base virt = none ∧ leaf ram' base virt = none := by
  have outcome := mapped.outcome
  cases result with
  | error _ => exact .inr ⟨outcome.2, (frameAt_of_sameLeaves outcome.1
      (pageOf_pageAt based virt)).trans outcome.2⟩
  | ok _ => exact .inl outcome.1

theorem Mapped.refreshed (mapped : Mapped heap roots base virt frame ram result ram')
    (based : base ∈ roots) (outside : frame ∉ heap) :
    Refreshed heap roots {pageAt base virt} ram ram' := by
  intro page member
  by_cases isPage : page = pageAt base virt
  · rcases mapped.leaf_cases based with now | ⟨before, now⟩
    · refine .inr ⟨isPage, fun found isFound => ?_⟩
      rw [isPage] at isFound
      obtain rfl := Option.some.inj (now.symm.trans isFound)
      exact outside
    · rw [isPage]
      exact .inl (now.trans before.symm)
  · exact .inl (mapped.touched page member isPage)

theorem Owned.write_copy (owned : Owned heap roots ram) (phys : Nat) (bytes : List UInt8)
    (noTable : ¬ IsTable roots ram (PAGE_SIZE * (phys / PAGE_SIZE)))
    (inside : phys % PAGE_SIZE + bytes.length ≤ PAGE_SIZE) :
    Extended heap roots ram { ram with bytes := ram.bytes.copy phys bytes } ∧
      SameLeaves roots ram { ram with bytes := ram.bytes.copy phys bytes } := by
  refine owned.write noTable fun addr other => ByteMemory.sameOutside_copy _ _ _ addr ?_
  simp only [PAGE_SIZE] at inside other
  omega

theorem Owned.write_inUse (owned : Owned heap roots ram) (inUse : InUse heap roots ram frame)
    {bytes : List UInt8} (fits : bytes.length ≤ PAGE_SIZE) :
    Extended heap roots ram { ram with bytes := ram.bytes.copy frame bytes } ∧
      SameLeaves roots ram { ram with bytes := ram.bytes.copy frame bytes } := by
  refine owned.write_copy frame bytes ?_ ?_
  · rw [Nat.mul_div_cancel' (Nat.dvd_of_mod_eq_zero inUse.aligned)]
    exact inUse.noTable
  · rw [inUse.aligned, Nat.zero_add]
    exact fits

theorem Owned.write_zero (owned : Owned heap roots ram) (inUse : InUse heap roots ram frame) :
    Extended heap roots ram { ram with bytes := ram.bytes.fill frame PAGE_SIZE 0 } ∧
      SameLeaves roots ram { ram with bytes := ram.bytes.fill frame PAGE_SIZE 0 } := by
  refine owned.write inUse.noTable fun addr other => ByteMemory.sameOutside_fill _ _ _ _ addr ?_
  have aligned := inUse.aligned
  simp only [PAGE_SIZE] at aligned other ⊢
  omega

theorem Loose.of_sameLeaves (loose : Loose heap roots ram frame)
    (extended : Extended heap roots ram ram') (same : SameLeaves roots ram ram') :
    Loose heap roots ram' frame :=
  loose.extended extended fun _ member now => (frameAt_of_sameLeaves same member).symm.trans now

theorem Taken.zeroed (taken : Taken heap roots ram frame ram') :
    Extended heap roots ram { ram' with bytes := ram'.bytes.fill frame PAGE_SIZE 0 } ∧
      SameLeaves roots ram { ram' with bytes := ram'.bytes.fill frame PAGE_SIZE 0 } ∧
      Loose heap roots { ram' with bytes := ram'.bytes.fill frame PAGE_SIZE 0 } frame := by
  obtain ⟨zeroed, same⟩ := taken.extended.owned.write_zero taken.loose.inUse
  exact ⟨taken.extended.trans zeroed, taken.same.trans same, taken.loose.of_sameLeaves zeroed same⟩

theorem frameAt_bounds {page : Page} (member : PageOf roots page)
    (mapped : frameAt ram page = some frame) : frame % PAGE_SIZE = 0 ∧ frame < 2 ^ 48 := by
  obtain ⟨root, path⟩ := page
  obtain ⟨virt, rfl⟩ := exists_pagePath member.2
  exact leaf_bounds mapped

theorem page_of_offset {offset : Nat} (aligned : frame % PAGE_SIZE = 0)
    (inPage : offset < PAGE_SIZE) : PAGE_SIZE * ((frame + offset) / PAGE_SIZE) = frame := by
  simp only [PAGE_SIZE] at *
  omega

theorem length_pageBytes (ram : Ram) (phys : Nat) : (pageBytes ram phys).length = PAGE_SIZE := by
  rw [pageBytes, List.length_map, List.length_range]

/-! ### Frames held for pages -/

theorem Unmapped.cleared (unmapped : Unmapped heap roots base virt ram ram') :
    Cleared roots {pageAt base virt} ram ram' :=
  fun _ member => ⟨fun isPage => (Set.mem_singleton_iff.mp isPage) ▸ unmapped.entries.leafSet.1,
    fun other => frameAt_of_leafSet unmapped.entries.leafSet member other⟩

theorem Cleared.of_sameLeaves (cleared : Cleared roots pages ram ram')
    (same : SameLeaves roots ram' ram'') : Cleared roots pages ram ram'' := by
  intro page member
  rw [frameAt_of_sameLeaves same member]
  exact cleared page member

/-- The frame meant for a page is its frame, or the page is not mapped and the frame is
loose. -/
def Held (heap roots : Set Nat) (base : Nat) (ram : Ram) (entry : Nat × Nat) : Prop :=
  (leaf ram base entry.1 = some entry.2 ∧ entry.2 ∉ heap) ∨
    (leaf ram base entry.1 = none ∧ Loose heap roots ram entry.2)

def Apart (base : Nat) (entry other : Nat × Nat) : Prop :=
  pageAt base entry.1 ≠ pageAt base other.1 ∧ entry.2 ≠ other.2

def Targets (base : Nat) (entries : List (Nat × Nat)) : Set Page :=
  { page | ∃ entry ∈ entries, page = pageAt base entry.1 }

theorem targets_cons (entry : Nat × Nat) (entries : List (Nat × Nat)) :
    Targets base (entry :: entries) = {pageAt base entry.1} ∪ Targets base entries := by
  ext page
  simp [Targets]

/-- Once the page of an entry is unmapped its frame is loose, and what was loose still is. -/
theorem Held.unmapped {after : Ram} (held : Held heap roots base ram (virt, frame))
    (looseAfter : ∀ found, leaf ram base virt = some found → found ∉ heap →
      Loose heap roots after found)
    (looseStays : Loose heap roots ram frame → Loose heap roots after frame) :
    (leaf ram base virt).getD frame = frame ∧ Loose heap roots after frame := by
  rcases held with ⟨mapped, outside⟩ | ⟨absent, loose⟩
  · exact ⟨by rw [mapped]; rfl, looseAfter frame mapped outside⟩
  · exact ⟨by rw [absent]; rfl, looseStays loose⟩

theorem Held.given {given : Ram} (held : Held heap roots base ram entry) (based : base ∈ roots)
    (apart : Apart base (virt, frame) entry)
    (sofar : Cleared roots {pageAt base virt} ram given)
    (stays : Loose heap roots ram entry.2 → Loose heap roots given entry.2) :
    Held heap roots base given entry := by
  have sameLeaf : leaf given base entry.1 = leaf ram base entry.1 :=
    (sofar _ (pageOf_pageAt based entry.1)).2 (Ne.symm apart.1)
  exact held.imp (And.imp_left sameLeaf.trans) (And.imp sameLeaf.trans stays)

theorem Held.inUse (owned : Owned heap roots ram) (based : base ∈ roots)
    (held : Held heap roots base ram entry) : InUse heap roots ram entry.2 := by
  rcases held with ⟨mapped, outside⟩ | ⟨-, loose⟩
  · exact owned.inUse (pageOf_pageAt based entry.1) mapped outside
  · exact loose.inUse

theorem Held.extended (held : Held heap roots base ram entry)
    (extended : Extended heap roots ram ram')
    (same : leaf ram' base entry.1 = leaf ram base entry.1)
    (unmapped : ∀ page, PageOf roots page → frameAt ram' page = some entry.2 →
      frameAt ram page = some entry.2) : Held heap roots base ram' entry := by
  rcases held with ⟨mapped, outside⟩ | ⟨absent, loose⟩
  · exact .inl ⟨same.trans mapped, outside⟩
  · exact .inr ⟨same.trans absent, loose.extended extended unmapped⟩

theorem Held.of_sameLeaves (held : Held heap roots base ram entry) (based : base ∈ roots)
    (extended : Extended heap roots ram ram') (same : SameLeaves roots ram ram') :
    Held heap roots base ram' entry :=
  held.extended extended (frameAt_of_sameLeaves same (pageOf_pageAt based entry.1))
    fun _ member mapped => (frameAt_of_sameLeaves same member).symm.trans mapped

/-- Some pages from `addr` on have got frames of their own since `start`. -/
structure Filling (heap roots : Set Nat) (base addr : Nat) (start : Ram)
    (mapped : List (Nat × Nat)) (ram : Ram) : Prop where
  owned : Owned heap roots ram
  virts : mapped.map Prod.fst = (List.range mapped.length).map fun i => addr + PAGE_SIZE * i
  held : ∀ entry ∈ mapped, Held heap roots base ram entry
  apart : mapped.Pairwise (Apart base)
  others : Touched roots (Targets base mapped) start ram

theorem Filling.targets (filling : Filling heap roots base addr start mapped ram) :
    Targets base mapped = Span base addr mapped.length := by
  have listed : ∀ virt, virt ∈ mapped.map Prod.fst ↔
      ∃ index < mapped.length, virt = addr + PAGE_SIZE * index := by
    intro virt
    rw [filling.virts]
    simp only [List.mem_map, List.mem_range]
    exact ⟨fun ⟨index, below, isVirt⟩ => ⟨index, below, isVirt.symm⟩,
      fun ⟨index, below, isVirt⟩ => ⟨index, below, isVirt.symm⟩⟩
  ext page
  simp only [Targets, Span, Set.mem_ofPred_eq]
  constructor
  · rintro ⟨entry, member, rfl⟩
    obtain ⟨index, below, isVirt⟩ := (listed entry.1).mp (List.mem_map_of_mem member)
    exact ⟨index, below, by rw [isVirt]⟩
  · rintro ⟨index, below, rfl⟩
    obtain ⟨entry, member, isVirt⟩ := List.mem_map.mp ((listed _).mpr ⟨index, below, rfl⟩)
    exact ⟨entry, member, by rw [isVirt]⟩

section

variable (filling : Filling heap roots base addr start mapped ram) (based : base ∈ roots)

include filling based

theorem Filling.length_le : mapped.length ≤ 2 ^ 20 := by
  have inUse : ∀ entry ∈ mapped, InUse heap roots ram entry.2 := fun entry member =>
    (filling.held entry member).inUse filling.owned based
  have distinct : (mapped.map fun entry => entry.2 / PAGE_SIZE).Nodup := by
    refine List.pairwise_map.mpr (filling.apart.imp_of_mem ?_)
    intro entry other member memberOther apart same
    have aligned := (inUse entry member).aligned
    have alignedOther := (inUse other memberOther).aligned
    refine apart.2 ?_
    simp only [PAGE_SIZE] at aligned alignedOther same
    omega
  have bounded : mapped.map (fun entry => entry.2 / PAGE_SIZE) ⊆ List.range (2 ^ 20) := by
    intro page listed
    obtain ⟨entry, member, rfl⟩ := List.mem_map.mp listed
    have below := (inUse entry member).below
    rw [List.mem_range]
    simp only [PAGE_SIZE]
    omega
  have length := (List.subperm_of_subset distinct bounded).length_le
  rwa [List.length_map, List.length_range] at length

theorem Filling.next_ne (member : entry ∈ mapped) :
    pageAt base entry.1 ≠ pageAt base (addr + PAGE_SIZE * mapped.length) := by
  have few := filling.length_le based
  have listed : entry.1 ∈ mapped.map Prod.fst := List.mem_map_of_mem member
  rw [filling.virts] at listed
  obtain ⟨index, below, isVirt⟩ := List.mem_map.mp listed
  rw [List.mem_range] at below
  intro same
  have paths := (pagePath_eq_iff _ _).mp (congrArg Prod.snd same)
  rw [← isVirt] at paths
  simp only [PAGE_SIZE] at paths
  omega

theorem Filling.extend (loose : Loose heap roots ram frame)
    (fresh : ∀ entry ∈ mapped, entry.2 ≠ frame) (extended : Extended heap roots ram ram')
    (touched : Touched roots {pageAt base (addr + PAGE_SIZE * mapped.length)} ram ram')
    (leafCases : leaf ram' base (addr + PAGE_SIZE * mapped.length) = some frame ∨
      leaf ram base (addr + PAGE_SIZE * mapped.length) = none ∧
        leaf ram' base (addr + PAGE_SIZE * mapped.length) = none) :
    Filling heap roots base addr start (mapped ++ [(addr + PAGE_SIZE * mapped.length, frame)])
      ram' := by
  have unmapped : ∀ other, other ≠ frame → ∀ page, PageOf roots page →
      frameAt ram' page = some other → frameAt ram page = some other := by
    intro other different page member now
    by_cases isNext : page = pageAt base (addr + PAGE_SIZE * mapped.length)
    · rw [isNext] at now
      rcases leafCases with isFrame | ⟨-, absent⟩
      · exact absurd (Option.some.inj (now.symm.trans isFrame)) different
      · cases absent.symm.trans now
    · exact (touched page member isNext).symm.trans now
  refine ⟨extended.owned, ?_, ?_, ?_, ?_⟩
  · rw [List.map_append, filling.virts, List.length_append, List.length_singleton,
      List.range_succ, List.map_append]
    rfl
  · intro entry listed
    rcases List.mem_append.mp listed with member | isNew
    · exact (filling.held entry member).extended extended
        (touched _ (pageOf_pageAt based entry.1) (filling.next_ne based member))
        (unmapped entry.2 (fresh entry member))
    · obtain rfl := List.mem_singleton.mp isNew
      rcases leafCases with isFrame | ⟨-, absent⟩
      · exact .inl ⟨isFrame, loose.inUse.outside⟩
      · refine .inr ⟨absent, loose.extended extended fun page member now => ?_⟩
        by_cases isNext : page = pageAt base (addr + PAGE_SIZE * mapped.length)
        · rw [isNext] at now
          cases absent.symm.trans now
        · exact (touched page member isNext).symm.trans now
  · refine List.pairwise_append.mpr ⟨filling.apart, List.pairwise_singleton _ _, ?_⟩
    intro entry member other isNew
    obtain rfl := List.mem_singleton.mp isNew
    exact ⟨filling.next_ne based member, fresh entry member⟩
  · intro page member outside
    have notNext : page ≠ pageAt base (addr + PAGE_SIZE * mapped.length) := fun isNext =>
      outside ⟨_, List.mem_append_right _ (List.mem_singleton_self _), isNext⟩
    rw [touched page member notNext]
    exact filling.others page member fun ⟨entry, listed, isPage⟩ =>
      outside ⟨entry, List.mem_append_left _ listed, isPage⟩

theorem Filling.of_sameLeaves (extended : Extended heap roots ram ram')
    (same : SameLeaves roots ram ram') :
    Filling heap roots base addr start mapped ram' where
  owned := extended.owned
  virts := filling.virts
  held entry member := (filling.held entry member).of_sameLeaves based extended same
  apart := filling.apart
  others page member outside :=
    (frameAt_of_sameLeaves same member).trans (filling.others page member outside)

end

end Cyllor.Mm
