import Cyllor.Mm.PageChanges

/-!
Contract: what user code finds at its pages.

Owns:
- `viewAt`, the entry of a page with the bytes of its frame;
- `Untouched`, that the pages outside a set show what they showed before;
- what each operation on frames and tables does to the views of pages, when frames are
  owned.
-/

namespace Cyllor.Mm

open Cyllor.Arch LinkForest
open Call hiding pure bind

variable {page : Page} {frame : Nat} {pages : Set Page}

/-- What a page shows: its entry, with frame and attributes, and the bytes of the frame. -/
structure View where
  entry : BitVec 64
  bytes : List UInt8
deriving DecidableEq

def viewAt (ram : Ram) (page : Page) : Option View :=
  (entryAt ram page.1 page.2).map fun entry => ⟨entry, pageBytes ram (address entry)⟩

/-- Pages outside the set show what they showed before. -/
def Untouched (roots : Set Nat) (pages : Set Page) (ram ram' : Ram) : Prop :=
  ∀ page, PageOf roots page → page ∉ pages → viewAt ram' page = viewAt ram page

variable {heap roots : Set Nat} {ram ram' ram'' : Ram} {base : Nat} {ε : Type}

theorem frameAt_eq_map_entryAt (ram : Ram) (member : PageOf roots page) :
    frameAt ram page = (entryAt ram page.1 page.2).map address :=
  walk_eq_map_entryAt ram page.1 (by rw [ne_eq, ← List.length_eq_zero_iff, member.2]; decide)

theorem frameAt_eq_map_viewAt (ram : Ram) (member : PageOf roots page) :
    frameAt ram page = (viewAt ram page).map fun view => address view.entry := by
  rw [frameAt_eq_map_entryAt ram member, viewAt, Option.map_map]
  rfl

theorem pageBytes_congr
    (same : ∀ offset < PAGE_SIZE, ram'.bytes (frame + offset) = ram.bytes (frame + offset)) :
    pageBytes ram' frame = pageBytes ram frame :=
  List.map_congr_left fun offset listed => same offset (List.mem_range.mp listed)

theorem viewAt_congr (member : PageOf roots page)
    (sameEntry : entryAt ram' page.1 page.2 = entryAt ram page.1 page.2)
    (sameBytes : ∀ frame, frameAt ram page = some frame → ∀ offset < PAGE_SIZE,
      ram'.bytes (frame + offset) = ram.bytes (frame + offset)) :
    viewAt ram' page = viewAt ram page := by
  rw [frameAt_eq_map_entryAt ram member] at sameBytes
  rw [viewAt, viewAt, sameEntry]
  cases found : entryAt ram page.1 page.2 with
  | none => rw [Option.map_none, Option.map_none]
  | some entry =>
    rw [Option.map_some, Option.map_some,
      pageBytes_congr (sameBytes (address entry) (by rw [found]; rfl))]

theorem entryAt_of_bytes (same : ram'.bytes = ram.bytes) (root : Nat) (path : List Index) :
    entryAt ram' root path = entryAt ram root path := by
  have reads : readEntry ram' = readEntry ram := by
    funext table index
    rw [readEntry, readEntry, same]
  have links : link ram' = link ram := by
    funext table index
    rw [link, link, reads]
  rw [entryAt, entryAt, reads, links]

theorem viewAt_of_bytes (same : ram'.bytes = ram.bytes) (page : Page) :
    viewAt ram' page = viewAt ram page := by
  have bytes : pageBytes ram' = pageBytes ram := by
    funext frame
    exact pageBytes_congr fun offset _ => by rw [same]
  rw [viewAt, viewAt, entryAt_of_bytes same, bytes]

theorem Untouched.of_bytes (same : ram'.bytes = ram.bytes) (pages : Set Page) :
    Untouched roots pages ram ram' :=
  fun page _ _ => viewAt_of_bytes same page

theorem Untouched.refl (pages : Set Page) (ram : Ram) : Untouched roots pages ram ram :=
  fun _ _ _ => rfl

theorem Untouched.trans (first : Untouched roots pages ram ram')
    (second : Untouched roots pages ram' ram'') : Untouched roots pages ram ram'' :=
  fun page member outside => (second page member outside).trans (first page member outside)

section

variable (untouched : Untouched roots pages ram ram')

include untouched

theorem Untouched.mono {more : Set Page} (subset : pages ⊆ more) : Untouched roots more ram ram' :=
  fun page member outside => untouched page member fun inside => outside (subset inside)

theorem Untouched.entryAt (member : PageOf roots page) (outside : page ∉ pages) :
    Arch.entryAt ram' page.1 page.2 = Arch.entryAt ram page.1 page.2 := by
  have entries : ∀ store : Ram, (viewAt store page).map View.entry =
      Arch.entryAt store page.1 page.2 := by
    intro store
    rw [viewAt, Option.map_map]
    exact Option.map_id'
  rw [← entries, ← entries, untouched page member outside]

end

/-! ### Operations -/

section

variable (owned : Owned heap roots ram)

include owned

/-- The bytes of a mapped page are kept when frames in use keep theirs. -/
theorem Owned.bytes_of_keepsBytes (keeps : KeepsBytes roots ram ram') (member : PageOf roots page)
    (mapped : frameAt ram page = some frame) {offset : Nat} (inPage : offset < PAGE_SIZE) :
    ram'.bytes (frame + offset) = ram.bytes (frame + offset) := by
  have aligned := (frameAt_bounds member mapped).1
  obtain ⟨used, noTable⟩ := owned.mapped_settled member mapped
  refine keeps _ ?_ ?_ <;> rw [page_of_offset aligned inPage]
  · exact used
  · exact noTable

/-- A write to a frame that is not a table shows only at the pages that are mapped to it. -/
theorem Owned.untouched_write (noTable : ¬ IsTable roots ram frame) {bytes : ByteMemory}
    (same : ∀ addr, PAGE_SIZE * (addr / PAGE_SIZE) ≠ frame → bytes addr = ram.bytes addr) :
    Untouched roots { page | frameAt ram page = some frame } ram { ram with bytes := bytes } := by
  obtain ⟨place, tables, minimal⟩ := owned.places
  have entries : SameEntries roots ram { ram with bytes := bytes } :=
    tables.sameEntries_of_bytes fun addr isPlaced => same addr fun isFrame =>
      noTable (isFrame ▸ minimal _ isPlaced)
  intro page member elsewhere
  refine viewAt_congr member (entries _ member.1 _ member.2) fun other mapped offset inPage => ?_
  refine same _ ?_
  rw [page_of_offset (frameAt_bounds member mapped).1 inPage]
  rintro rfl
  exact elsewhere mapped

theorem Owned.wp_mapPage_view (based : base ∈ roots) {virt phys : Nat}
    (isFrame : PAGE_SIZE * (phys % 2 ^ 48 / PAGE_SIZE) = frame)
    (fits : Fits heap roots ram (pageAt base virt) frame) (attr : PageAttr) :
    wp (mapPage base virt phys attr) (fun result ram' =>
      Mapped heap roots base virt frame ram result ram' ∧
        Untouched roots {pageAt base virt} ram ram' ∧
        (result = .ok () →
          entryAt ram' base (pagePath virt) = some (pageEntry phys attr))) ram := by
  obtain ⟨place, tables⟩ := owned.tables
  refine wp_mono (wp_and (wp_of_ends (owned.ends_mapPage based isFrame fits attr))
    (wp_mapPage_entries tables based virt phys attr)) ?_
  rintro result after ⟨mapped, _, -, -, entries⟩
  refine ⟨mapped, fun page member other => ?_, ?_⟩
  · refine viewAt_congr member ?_ fun found isFound offset inPage =>
      owned.bytes_of_keepsBytes mapped.bytes member isFound inPage
    cases result with
    | error _ => exact entries.1 _ member.1 _ member.2
    | ok _ => exact entries.2 _ member.1 _ member.2 fun same => other (Prod.ext same.1 same.2)
  · rintro rfl
    exact entries.1

theorem Unmapped.untouched {virt : Nat} (unmapped : Unmapped heap roots base virt ram ram') :
    Untouched roots {pageAt base virt} ram ram' :=
  fun _ member other => viewAt_congr member
    (unmapped.entries.2 _ member.1 _ member.2 fun same => other (Prod.ext same.1 same.2))
    fun _ mapped _ inPage => owned.bytes_of_keepsBytes unmapped.bytes member mapped inPage

end

/-! ### Contents -/

def padded (bytes : List UInt8) : List UInt8 :=
  bytes ++ List.replicate (PAGE_SIZE - bytes.length) 0

theorem pageBytes_copy {bytes : List UInt8} (fits : bytes.length ≤ PAGE_SIZE)
    (zeros : ∀ offset < PAGE_SIZE, ram.bytes (frame + offset) = 0) :
    pageBytes { ram with bytes := ram.bytes.copy frame bytes } frame = padded bytes := by
  refine List.ext_getElem ?_ fun offset below _ => ?_
  · rw [length_pageBytes, padded, List.length_append, List.length_replicate]
    omega
  · rw [length_pageBytes] at below
    have copied : (ram.bytes.copy frame bytes) (frame + offset) =
        bytes[offset]?.getD (ram.bytes (frame + offset)) := by
      rw [ByteMemory.copy, if_pos (Nat.le_add_right _ _), Nat.add_sub_cancel_left]
    simp only [pageBytes, List.getElem_map, List.getElem_range, copied, padded]
    by_cases inside : offset < bytes.length
    · rw [List.getElem?_eq_getElem inside, Option.getD_some, List.getElem_append_left inside]
    · rw [List.getElem?_eq_none (by omega), Option.getD_none, zeros offset below,
        List.getElem_append_right (by omega), List.getElem_replicate]

end Cyllor.Mm
