import Cyllor.Mm.PageLoops

/-!
Contract: what `clone_user_address_space` does to the pages of the child and to memory.

Owns: `Copied`, what holds after some pages of the parent were visited, with the contents
of the pages of the child; and the way back when no frame is left.
-/

namespace Cyllor.Mm

open Cyllor.Arch LinkForest
open Call hiding pure bind

variable {heap roots : Set Nat} {ram ram' : Ram} {parent child : Nat} {ε : Type}

/-- After the visit of some addresses of the parent: only pages of the child changed, and
each of them has a frame of its own, with the contents of the page of the parent. -/
structure Copied (heap roots : Set Nat) (parent child : Nat) (start : Ram)
    (visits : List (Nat × PageAttr)) (ram : Ram) : Prop where
  extended : Extended heap roots start ram
  others : ∀ page, PageOf roots page → page.1 ≠ child → frameAt ram page = frameAt start page
  bytes : ∀ addr, ¬ start.pmm.IsFree (PAGE_SIZE * (addr / PAGE_SIZE)) →
    ¬ IsTable roots start (PAGE_SIZE * (addr / PAGE_SIZE)) → ram.bytes addr = start.bytes addr
  source : ∀ path : List Index, path.length = 4 → ∀ frame, frameAt ram (child, path) = some frame →
    frame ∉ heap ∧ ∃ visit ∈ visits, path = pagePath visit.1 ∧
      ∃ original, leaf start parent visit.1 = some original ∧
        (visit.1 % PAGE_SIZE = 0 → ∀ offset < PAGE_SIZE,
          ram.bytes (frame + offset) = start.bytes (original + offset))
  spends : Spends (4 * visits.length) start ram
  complete : 4 * visits.length ≤ start.pmm.clearPages.card →
    ∀ visit ∈ visits, (leaf start parent visit.1).isSome → (leaf ram child visit.1).isSome

/-- One page of the parent was copied to a frame that the page of the child has now, unless
frames for tables were lacking. -/
structure PageCopied (heap roots : Set Nat) (parent child virt : Nat) (ram ram' : Ram) : Prop where
  extended : Extended heap roots ram ram'
  touched : Touched roots {pageAt child virt} ram ram'
  bytes : ∀ addr, ¬ ram.pmm.IsFree (PAGE_SIZE * (addr / PAGE_SIZE)) →
    ¬ IsTable roots ram (PAGE_SIZE * (addr / PAGE_SIZE)) → ram'.bytes addr = ram.bytes addr
  spends : Spends 4 ram ram'
  copy : ∃ original frame, leaf ram parent virt = some original ∧ frame ∉ heap ∧
    (virt % PAGE_SIZE = 0 → ∀ offset < PAGE_SIZE,
      ram'.bytes (frame + offset) = ram.bytes (original + offset)) ∧
    (leaf ram' child virt = some frame ∨
      (leaf ram child virt = none ∧ leaf ram' child virt = none ∧ ram.pmm.clearPages.card < 4))

theorem copy_pageBytes (bytes : ByteMemory) (ram : Ram) (frame phys : Nat) {offset : Nat}
    (inPage : offset < PAGE_SIZE) :
    bytes.copy frame (pageBytes ram phys) (frame + offset) = ram.bytes (phys + offset) := by
  rw [ByteMemory.copy, if_pos (Nat.le_add_right _ _), Nat.add_sub_cancel_left, pageBytes,
    List.getElem?_map, List.getElem?_range inPage]
  rfl

theorem Owned.wp_copyPage (owned : Owned heap roots ram) (childIn : child ∈ roots) (parent : Nat)
    (attr : PageAttr) (virt : Nat) :
    wp (copyPage parent child attr virt : RamCall ε (Option Bool)) (fun result ram' =>
      (result = .ok (some false) ∧ ram' = ram ∧ leaf ram parent virt = none) ∨
        (result = .ok none ∧ ram' = ram) ∨
        (result = .ok (some true) ∧ PageCopied heap roots parent child virt ram ram' ∧
          ∀ frame, leaf ram' child virt = some frame → ram.pmm.IsFree frame)) ram := by
  rw [copyPage, wp_bind_gets, translateUserVa, translate_eq_add]
  cases mapped : leaf ram parent virt with
  | none => exact (wp_pure _).mpr (.inl ⟨rfl, rfl, rfl⟩)
  | some original =>
    rw [Option.map_some]
    dsimp only
    rw [wp_bind]
    refine owned.wp_allocPage ((wp_pure _).mpr (.inr (.inl ⟨rfl, rfl⟩))) ?_
    intro frame taken isTaken
    have aligned := isTaken.loose.inUse.aligned
    obtain ⟨written, writeSame⟩ := isTaken.extended.owned.write_inUse isTaken.loose.inUse
      (length_pageBytes taken (original + virt % PAGE_SIZE)).le
    have loose := isTaken.loose.of_sameLeaves written writeSame
    have same := isTaken.same.trans writeSame
    dsimp only
    rw [wp_bind_gets, writeFrame, wp_bind_modify, wp_bind]
    refine wp_mono (wp_of_succeeds (written.owned.succeeds_mapUserPage childIn
      loose.inUse.frame_eq (loose.fits _) attr)) ?_
    rintro _ after ⟨_, rfl, inner, isMapped⟩
    refine (wp_pure _).mpr (.inr (.inr ⟨rfl, ⟨?_, ?_, ?_, ?_, ?_⟩, fun found now => ?_⟩))
    · exact isTaken.extended.trans (written.trans isMapped.extended)
    · intro page member other
      exact (isMapped.touched page member other).trans (frameAt_of_sameLeaves same member)
    · intro addr used noTable
      obtain ⟨stillUsed, stillNoTable⟩ := isTaken.extended.settled _ used noTable
      obtain ⟨usedNow, noTableNow⟩ := written.settled _ stillUsed stillNoTable
      rw [isMapped.bytes addr usedNow noTableNow]
      have outside : addr < frame ∨ frame + PAGE_SIZE ≤ addr := by
        by_contra inside
        have samePage : PAGE_SIZE * (addr / PAGE_SIZE) = frame := by
          simp only [PAGE_SIZE] at *
          omega
        exact used (samePage ▸ isTaken.free)
      have unwritten := ByteMemory.sameOutside_copy taken.bytes frame
        (pageBytes taken (original + virt % PAGE_SIZE)) addr
        (by rw [length_pageBytes]; exact outside)
      exact unwritten.trans (congrFun isTaken.bytes addr)
    · have early : Spends 1 ram { taken with bytes := _ } := isTaken.spends
      exact early.trans isMapped.spends
    · refine ⟨original, frame, mapped, loose.inUse.outside, fun virtAligned offset inPage => ?_, ?_⟩
      · have inFrame := page_of_offset aligned inPage
        rw [isMapped.bytes _ (inFrame.symm ▸ loose.inUse.used)
          (inFrame.symm ▸ loose.inUse.noTable)]
        refine (copy_pageBytes taken.bytes taken frame _ inPage).trans ?_
        rw [virtAligned, Nat.add_zero, isTaken.bytes]
      · have outcome := isMapped.outcome
        cases inner with
        | ok _ => exact .inl outcome.1
        | error _ =>
          have member := pageOf_pageAt childIn virt
          have before := outcome.2
          refine .inr ⟨(frameAt_of_sameLeaves same member).symm.trans before,
            (frameAt_of_sameLeaves outcome.1 member).trans before, ?_⟩
          have few : taken.pmm.clearPages.card < 3 := isMapped.short rfl
          have spent := (isTaken.spends owned.counted).2
          omega
    · rcases isMapped.leaf_cases childIn with isFrame | ⟨-, absent⟩
      · obtain rfl := Option.some.inj (isFrame.symm.trans now)
        exact isTaken.free
      · cases absent.symm.trans now

section

variable {start : Ram} {visits : List (Nat × PageAttr)}
  (copied : Copied heap roots parent child start visits ram) (parentIn : parent ∈ roots)

include copied parentIn

theorem Copied.push (childIn : child ∈ roots) (different : parent ≠ child) {visit : Nat × PageAttr}
    (owned : Owned heap roots start) (step : PageCopied heap roots parent child visit.1 ram ram') :
    Copied heap roots parent child start (visits ++ [visit]) ram' := by
  obtain ⟨original, frame, mapped, outside, contents, outcome⟩ := step.copy
  have wasMapped : leaf start parent visit.1 = some original :=
    (copied.others _ (pageOf_pageAt parentIn visit.1) different).symm.trans mapped
  have last : visit ∈ visits ++ [visit] := List.mem_append_right _ (List.mem_singleton_self _)
  refine ⟨copied.extended.trans step.extended, ?_, ?_, ?_, ?_, ?_⟩
  · intro page member other
    rw [step.touched page member fun isPage => other (by rw [isPage]; rfl)]
    exact copied.others page member other
  · intro addr used noTable
    obtain ⟨stillUsed, stillNoTable⟩ := copied.extended.settled _ used noTable
    rw [step.bytes addr stillUsed stillNoTable, copied.bytes addr used noTable]
  · intro path length found now
    by_cases here : (child, path) = pageAt child visit.1
    · obtain rfl : path = pagePath visit.1 := congrArg Prod.snd here
      rcases outcome with isFrame | ⟨-, absent, -⟩
      · obtain rfl := Option.some.inj (isFrame.symm.trans now)
        refine ⟨outside, visit, last, rfl, original, wasMapped, fun aligned offset inPage => ?_⟩
        have member := pageOf_pageAt parentIn visit.1
        obtain ⟨used, noTable⟩ := owned.mapped_settled member wasMapped
        have inFrame := page_of_offset (frameAt_bounds member wasMapped).1 inPage
        rw [contents aligned offset inPage,
          copied.bytes _ (inFrame.symm ▸ used) (inFrame.symm ▸ noTable)]
      · cases absent.symm.trans now
    · have member : PageOf roots (child, path) := ⟨childIn, length⟩
      have before : frameAt ram (child, path) = some found :=
        (step.touched _ member here).symm.trans now
      obtain ⟨foundOutside, earlier, listed, isPath, source, isSource, sameContents⟩ :=
        copied.source path length found before
      refine ⟨foundOutside, earlier, List.mem_append_left _ listed, isPath, source, isSource,
        fun aligned offset inPage => ?_⟩
      obtain ⟨used, noTable⟩ := copied.extended.owned.mapped_settled member before
      have inFrame := page_of_offset (frameAt_bounds member before).1 inPage
      rw [step.bytes _ (inFrame.symm ▸ used) (inFrame.symm ▸ noTable)]
      exact sameContents aligned offset inPage
  · have both : Spends (4 * visits.length + 4) start ram' := copied.spends.trans step.spends
    refine both.mono ?_
    rw [List.length_append, List.length_singleton]
    omega
  · intro enough other listed isMapped
    rw [List.length_append, List.length_singleton] at enough
    rcases List.mem_append.mp listed with earlier | isLast
    · have before := copied.complete (by omega) other earlier isMapped
      by_cases here : pageAt child other.1 = pageAt child visit.1
      · have samePath : pagePath other.1 = pagePath visit.1 := congrArg Prod.snd here
        rw [leaf, samePath] at before ⊢
        rcases outcome with isFrame | ⟨absent, -, -⟩
        · exact Option.isSome_of_eq_some isFrame
        · rw [← leaf, absent] at before
          cases before
      · have stays : leaf ram' child other.1 = leaf ram child other.1 :=
          step.touched _ (pageOf_pageAt childIn other.1) here
        rw [stays]
        exact before
    · obtain rfl := List.mem_singleton.mp isLast
      rcases outcome with isFrame | ⟨-, -, few⟩
      · exact Option.isSome_of_eq_some isFrame
      · have spent := (copied.spends owned.counted).2
        omega

theorem Copied.skip (different : parent ≠ child) {visit : Nat × PageAttr}
    (unmapped : leaf ram parent visit.1 = none) :
    Copied heap roots parent child start (visits ++ [visit]) ram where
  extended := copied.extended
  others := copied.others
  bytes := copied.bytes
  source path length frame mapped := by
    obtain ⟨outside, earlier, listed, rest⟩ := copied.source path length frame mapped
    exact ⟨outside, earlier, List.mem_append_left _ listed, rest⟩
  spends := copied.spends.mono (by simp)
  complete enough other listed isMapped := by
    rw [List.length_append, List.length_singleton] at enough
    rcases List.mem_append.mp listed with earlier | isLast
    · exact copied.complete (by omega) other earlier isMapped
    · obtain rfl := List.mem_singleton.mp isLast
      have wasUnmapped : leaf start parent other.1 = none :=
        (copied.others _ (pageOf_pageAt parentIn other.1) different).symm.trans unmapped
      rw [wasUnmapped] at isMapped
      cases isMapped

end

theorem Owned.succeeds_dropPage (owned : Owned heap roots ram) (childIn : child ∈ roots)
    (virt : Nat) (outside : ∀ frame, leaf ram child virt = some frame → frame ∉ heap) :
    succeeds (dropPage child virt : RamCall ε Unit) (fun _ ram' => ∃ after,
      Unmapped heap roots child virt ram after ∧ (ram' = after ∨
        ∃ frame, leaf ram child virt = some frame ∧ Freed heap roots frame after ram')) ram := by
  refine succeeds_bind (succeeds_mono (owned.succeeds_unmapUserPage childIn virt) ?_)
  rintro _ after ⟨rfl, unmapped⟩
  cases found : leaf ram child virt with
  | none => exact succeeds_pure ⟨after, unmapped, .inl rfl⟩
  | some frame =>
    refine succeeds_mono (unmapped.extended.owned.succeeds_freePage
      (unmapped.loose frame found (outside frame found))) ?_
    exact fun _ _ freed => ⟨after, unmapped, .inr ⟨frame, rfl, freed⟩⟩

theorem succeeds_dropPages (Inv : Ram → Prop)
    (keeps : ∀ ram virt, Inv ram →
      succeeds (dropPage child virt : RamCall ε Unit) (fun _ => Inv) ram)
    (virts : List Nat) (holds : Inv ram) :
    succeeds (dropPages child virts : RamCall ε Unit) (fun _ => Inv) ram := by
  induction virts generalizing ram with
  | nil => exact succeeds_pure holds
  | cons virt virts ih =>
    exact succeeds_bind (succeeds_mono (keeps ram virt holds) fun _ _ still => ih still)

theorem Owned.succeeds_dropPages (owned : Owned heap roots ram) (childIn : child ∈ roots)
    (outside : ∀ path : List Index, path.length = 4 → ∀ frame,
      frameAt ram (child, path) = some frame → frame ∉ heap) (virts : List Nat) :
    succeeds (dropPages child virts : RamCall ε Unit) (fun _ ram' => Owned heap roots ram' ∧
      (∀ page, PageOf roots page → page.1 ≠ child → frameAt ram' page = frameAt ram page) ∧
      ∀ path : List Index, path.length = 4 → ∀ frame,
        frameAt ram' (child, path) = some frame → frame ∉ heap) ram := by
  refine Mm.succeeds_dropPages _ ?_ virts ⟨owned, fun _ _ _ => rfl, outside⟩
  rintro before virt ⟨kept, others, outsideNow⟩
  refine succeeds_mono (kept.succeeds_dropPage childIn virt (outsideNow _ rfl)) ?_
  rintro _ after ⟨middle, unmapped, dropped⟩
  obtain ⟨ownedNow, cleared⟩ :
      Owned heap roots after ∧ Cleared roots {pageAt child virt} before after := by
    rcases dropped with rfl | ⟨frame, -, freed⟩
    · exact ⟨unmapped.extended.owned, unmapped.cleared⟩
    · exact ⟨freed.owned, unmapped.cleared.of_sameLeaves freed.same⟩
  refine ⟨ownedNow, fun page member other => ?_, fun path length frame now => ?_⟩
  · rw [(cleared page member).2 fun isPage => other (by rw [isPage]; rfl)]
    exact others page member other
  · exact outsideNow path length frame (cleared.frameAt_of_some ⟨childIn, length⟩ now)

/-- The loop of `clone_user_address_space`: all visited pages are copied, or the frames
of the child are given back. -/
theorem Copied.wp_copyPages {start : Ram} {visits : List (Nat × PageAttr)}
    (copied : Copied heap roots parent child start visits ram) (parentIn : parent ∈ roots)
    (childIn : child ∈ roots) (different : parent ≠ child) (owned : Owned heap roots start)
    (rest : List (Nat × PageAttr)) (mapped : List Nat) :
    wp (copyPages parent child rest mapped : RamCall ε Bool) (fun result ram' =>
      (result = .ok true ∧ Copied heap roots parent child start (visits ++ rest) ram') ∨
        (result = .ok false ∧ Owned heap roots ram' ∧
          ∀ page, PageOf roots page → page.1 ≠ child → frameAt ram' page = frameAt start page))
      ram := by
  induction rest generalizing ram visits mapped with
  | nil =>
    rw [copyPages, wp_pure, List.append_nil]
    exact .inl ⟨rfl, copied⟩
  | cons visit rest ih =>
    have regroup : visits ++ visit :: rest = (visits ++ [visit]) ++ rest := by simp
    rw [copyPages, wp_bind]
    refine wp_mono (copied.extended.owned.wp_copyPage childIn parent visit.2 visit.1) ?_
    rintro result after (⟨rfl, rfl, unmapped⟩ | ⟨rfl, rfl⟩ | ⟨rfl, step, -⟩)
    · rw [regroup]
      exact ih (copied.skip parentIn different unmapped) _
    · dsimp only
      rw [wp_bind]
      refine wp_mono (wp_of_succeeds (copied.extended.owned.succeeds_dropPages childIn
        (fun path length frame now => (copied.source path length frame now).1) mapped)) ?_
      rintro _ final ⟨_, rfl, kept, others, -⟩
      refine (wp_pure false).mpr (.inr ⟨rfl, kept, fun page member other => ?_⟩)
      rw [others page member other, copied.others page member other]
    · rw [regroup]
      exact ih (copied.push parentIn childIn different owned step) _

theorem Owned.copied_nil (owned : Owned heap roots ram)
    (empty : ∀ path : List Index, path.length = 4 → frameAt ram (child, path) = none) :
    Copied heap roots parent child ram [] ram where
  extended := owned.refl
  others _ _ _ := rfl
  bytes _ _ _ := rfl
  source path length frame mapped := by
    rw [empty path length] at mapped
    cases mapped
  spends := Spends.of_pmm_eq rfl _
  complete _ _ listed := by cases listed

end Cyllor.Mm
