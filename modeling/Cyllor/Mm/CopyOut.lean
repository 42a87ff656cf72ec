import Cyllor.Mm.BareMachine
import Cyllor.Mm.UserCopy

/-!
Contract: `copy_to_user` of `syscall/fs.rs` over pages that may not be mapped.

Owns:
- `Copied`, what every address shows after a copy and which frames the pages have;
- that the loop ends, with an error only when no frame is free, and that `copy_from_user` then
  reads back what was copied.
-/

namespace Cyllor.Mm

open Cyllor.Arch LinkForest
open Call hiding pure bind

variable {roots : Set Nat} {ram ram' ram'' : Ram} {root virt : Nat} {data : List UInt8}

/-! ### What a copy leaves -/

/-- The page of an address holds an address of the range. -/
def Meets (virt len addr : Nat) : Prop :=
  0 < len ∧ virt < PAGE_SIZE * (addr / PAGE_SIZE) + PAGE_SIZE ∧
    PAGE_SIZE * (addr / PAGE_SIZE) < virt + len

instance (virt len addr : Nat) : Decidable (Meets virt len addr) :=
  inferInstanceAs (Decidable (_ ∧ _))

/-- What an address shows after a copy: the data, a zero beside them in a page that was not mapped,
or what it showed. -/
def shownAfter (ram : Ram) (root virt : Nat) (data : List UInt8) (addr : Nat) : Option UInt8 :=
  if virt ≤ addr ∧ addr < virt + data.length then data[addr - virt]?
  else if Meets virt data.length addr then some ((userByte ram root addr).getD 0)
  else userByte ram root addr

/-- Mapped pages have the frames they had, and new ones have frames that were free. -/
structure PagesAdded (roots : Set Nat) (root : Nat) (ram ram' : Ram) : Prop where
  extended : Extended ∅ roots ram ram'
  frames : ∀ addr frame, leaf ram root addr = some frame → leaf ram' root addr = some frame
  fresh : ∀ addr frame, leaf ram root addr = none → leaf ram' root addr = some frame →
    ram.pmm.IsFree frame
  taken : ∀ frame, ram'.pmm.IsFree frame → ram.pmm.IsFree frame

theorem PagesAdded.trans (first : PagesAdded roots root ram ram')
    (second : PagesAdded roots root ram' ram'') : PagesAdded roots root ram ram'' where
  extended := first.extended.trans second.extended
  frames addr frame mapped := second.frames addr frame (first.frames addr frame mapped)
  fresh addr frame unmapped mapped := by
    cases between : leaf ram' root addr with
    | none => exact first.taken frame (second.fresh addr frame between mapped)
    | some other =>
      obtain rfl : other = frame :=
        Option.some.inj ((second.frames addr other between).symm.trans mapped)
      exact first.fresh addr other unmapped between
  taken frame free := first.taken frame (second.taken frame free)

theorem PagesAdded.of_sameLeaves (extended : Extended ∅ roots ram ram') (based : root ∈ roots)
    (same : SameLeaves roots ram ram')
    (taken : ∀ frame, ram'.pmm.IsFree frame → ram.pmm.IsFree frame) :
    PagesAdded roots root ram ram' := by
  have sameLeaf : ∀ addr, leaf ram' root addr = leaf ram root addr :=
    fun addr => same root based _ (length_pagePath addr)
  refine ⟨extended, fun addr _ mapped => (sameLeaf addr).trans mapped,
    fun addr _ unmapped mapped => ?_, taken⟩
  rw [sameLeaf, unmapped] at mapped
  cases mapped

/-- The data are at the addresses from `virt` on. -/
structure CopiedOut (roots : Set Nat) (root virt : Nat) (data : List UInt8) (ram ram' : Ram) :
    Prop where
  added : PagesAdded roots root ram ram'
  shows : ∀ addr < 2 ^ 48, userByte ram' root addr = shownAfter ram root virt data addr

theorem Owned.copiedOut_nil (owned : Owned ∅ roots ram) (based : root ∈ roots) (virt : Nat) :
    CopiedOut roots root virt [] ram ram where
  added := .of_sameLeaves owned.refl based (SameLeaves.refl roots ram) fun _ => id
  shows addr _ := by
    rw [shownAfter, if_neg (by simp), if_neg (fun meets => by simp [Meets] at meets)]

theorem CopiedOut.append {more : List UInt8} (first : CopiedOut roots root virt data ram ram')
    (second : CopiedOut roots root (virt + data.length) more ram' ram'') :
    CopiedOut roots root virt (data ++ more) ram ram'' where
  added := first.added.trans second.added
  shows addr below := by
    rw [second.shows addr below, shownAfter, first.shows addr below, shownAfter, shownAfter,
      List.length_append]
    have joined : Meets virt (data.length + more.length) addr ↔
        Meets virt data.length addr ∨ Meets (virt + data.length) more.length addr := by
      simp only [Meets, PAGE_SIZE]
      omega
    by_cases inMore : virt + data.length ≤ addr ∧ addr < virt + data.length + more.length
    · rw [if_pos inMore, if_pos (by omega), List.getElem?_append_right (by omega)]
      congr 1
      omega
    rw [if_neg inMore]
    by_cases inData : virt ≤ addr ∧ addr < virt + data.length
    · rw [if_pos inData, if_pos (show virt ≤ addr ∧ addr < _ by omega),
        List.getElem?_append_left (by omega), List.getElem?_eq_getElem (by omega),
        Option.getD_some, ite_self]
    rw [if_neg inData, if_neg (show ¬ (virt ≤ addr ∧ addr < _) by omega)]
    by_cases inFirst : Meets virt data.length addr
    · rw [if_pos inFirst, if_pos (joined.mpr (.inl inFirst)), Option.getD_some, ite_self]
    · rw [if_neg inFirst]
      exact if_congr (by rw [joined, or_iff_right inFirst]) rfl rfl

/-! ### One round -/

theorem Owned.copiedOut_write (owned : Owned ∅ roots ram) (based : root ∈ roots) {frame : Nat}
    (mapped : leaf ram root virt = some frame) (below : virt < 2 ^ 48)
    (fits : data.length ≤ PAGE_SIZE - virt % PAGE_SIZE) :
    CopiedOut roots root virt data ram
      { ram with bytes := ram.bytes.copy (frame + virt % PAGE_SIZE) data } := by
  obtain ⟨written, same⟩ := owned.write_mapped based mapped fits
  refine ⟨.of_sameLeaves written based same fun _ => id, fun addr addrBelow => ?_⟩
  rw [owned.userStored_write based mapped (Set.notMem_empty frame) below fits addr addrBelow,
    shownAfter]
  refine if_congr Iff.rfl rfl ?_
  split
  case isTrue meets =>
    -- the range lies in the page of its first address, which is mapped
    have samePage : addr / PAGE_SIZE = virt / PAGE_SIZE := by
      simp only [Meets, PAGE_SIZE] at *
      omega
    rw [userByte_of_leaf ((leaf_congr ram root samePage).trans mapped), Option.getD_some]
  case isFalse => rfl

/-- The page of an address shows zeros if it is mapped now, and nothing else changed; a frame less
is free. -/
structure Opened (roots : Set Nat) (root virt : Nat) (ram ram' : Ram) : Prop where
  added : PagesAdded roots root ram ram'
  shows : ∀ addr < 2 ^ 48, userByte ram' root addr = userByte ram root addr ∨
    addr / PAGE_SIZE = virt / PAGE_SIZE ∧ userByte ram root addr = none ∧
      userByte ram' root addr = some 0
  fewer : ram'.pmm.clearPages.card < ram.pmm.clearPages.card

theorem Opened.copiedOut (opened : Opened roots root virt ram ram')
    (copied : CopiedOut roots root virt data ram' ram'') (nonempty : 0 < data.length) :
    CopiedOut roots root virt data ram ram'' where
  added := opened.added.trans copied.added
  shows addr below := by
    rw [copied.shows addr below, shownAfter, shownAfter]
    refine if_congr Iff.rfl rfl ?_
    rcases opened.shows addr below with same | ⟨samePage, wasNone, isZero⟩
    · rw [same]
    · have meets : Meets virt data.length addr := by
        simp only [Meets, PAGE_SIZE] at *
        omega
      rw [if_pos meets, if_pos meets, wasNone, isZero]
      rfl

theorem writeFrame_nil {ε : Type} (frame : Nat) :
    (writeFrame frame [] : RamCall ε Unit) = pure () := by
  funext ram
  have same : ram.bytes.copy frame [] = ram.bytes := by
    funext addr
    simp [ByteMemory.copy]
  rw [writeFrame, Call.modify, same]
  rfl

theorem Installed.opened {taken : Ram} {page frame : Nat} {result : Except Unit Unit}
    (installed : Installed ∅ roots root page frame .USER_RW [] taken result ram')
    (takes : Taken ∅ roots ram frame taken) (based : root ∈ roots)
    (samePath : pagePath page = pagePath virt) (unmapped : leaf ram root virt = none)
    (below : virt < 2 ^ 48)
    (frees : ∀ other, taken.pmm.IsFree other → ram.pmm.IsFree other)
    (spent : taken.pmm.clearPages.card + 1 = ram.pmm.clearPages.card) :
    Opened roots root virt ram ram' := by
  have leafOf : ∀ addr, pagePath addr = pagePath virt → ∀ state : Ram,
      leaf state root addr = leaf state root page := fun addr same state => by
    rw [leaf, leaf, same, samePath]
  have other : ∀ addr, pagePath addr ≠ pagePath virt →
      pageAt root addr ∉ ({pageAt root page} : Set Page) := fun addr different same =>
    different ((congrArg Prod.snd same).trans samePath)
  have sameLeaf : ∀ addr, pagePath addr ≠ pagePath virt →
      leaf ram' root addr = leaf ram root addr := fun addr different =>
    (installed.touched _ (pageOf_pageAt based addr) (other addr different)).trans
      (frameAt_of_sameLeaves takes.same (pageOf_pageAt based addr))
  refine ⟨⟨takes.extended.trans installed.extended, fun addr found mapped => ?_,
    fun addr found wasUnmapped mapped => ?_, fun found free => frees found (by_contra fun used =>
      installed.staysUsed found used free)⟩, fun addr addrBelow => ?_, ?_⟩
  · rw [sameLeaf addr fun same => ?_, mapped]
    rw [leaf, same] at mapped
    cases unmapped.symm.trans mapped
  · by_cases same : pagePath addr = pagePath virt
    · rw [leafOf addr same] at mapped
      rcases installed.leaf_cases with isFrame | ⟨-, isNone⟩
      · obtain rfl : frame = found := Option.some.inj (isFrame.symm.trans mapped)
        exact takes.free
      · cases isNone.symm.trans mapped
    · rw [sameLeaf addr same, wasUnmapped] at mapped
      cases mapped
  · by_cases same : pagePath addr = pagePath virt
    · have wasNone : userByte ram root addr = none := userByte_eq_none (by
        rw [leaf, same]
        exact unmapped)
      rcases installed.leafCases with ⟨isOk, -⟩ | ⟨-, -, isNone⟩
      · refine .inr ⟨?_, wasNone, ?_⟩
        · have congruent := (pagePath_eq_iff addr virt).mp same
          simp only [PAGE_SIZE] at *
          omega
        · rw [userByte_eq, pageAt, same, ← samePath]
          rw [show (root, pagePath page) = pageAt root page from rfl, installed.shows isOk,
            Option.bind_some]
          exact getElem?_padded (Nat.mod_lt _ (by decide))
      · exact .inl ((userByte_eq_none ((leafOf addr same ram').trans isNone)).trans wasNone.symm)
    · refine .inl ((installed.untouched.userByte based (other addr same)).trans ?_)
      exact (Untouched.of_bytes takes.bytes ∅).userByte based (Set.notMem_empty _)
  · rcases installed.demand with ⟨-, left, -⟩ | ⟨-, -, empty⟩ <;> omega

theorem Owned.succeeds_mapZeroPage {ε : Type} (owned : Owned ∅ roots ram) (based : root ∈ roots)
    (unmapped : leaf ram root virt = none) (below : virt < 2 ^ 48) :
    succeeds (mapZeroPage root (PAGE_SIZE * (virt / PAGE_SIZE)) : RamCall ε Bool)
      (fun found ram' => if found then Opened roots root virt ram ram'
        else ram' = ram ∧ ram.pmm.clearPages.card = 0) ram := by
  have samePath : pagePath (PAGE_SIZE * (virt / PAGE_SIZE)) = pagePath virt :=
    pagePath_congr (Nat.mul_div_cancel_left _ (by decide))
  rw [mapZeroPage]
  refine succeeds_bind (succeeds_mono owned.succeeds_allocPage_counts ?_)
  rintro _ taken (⟨rfl, rfl, empty⟩ | ⟨frame, rfl, takes, frees, spent⟩)
  · exact succeeds_pure ⟨rfl, empty⟩
  · have installs : succeedsOr False (do
        zeroFrame frame
        mapUserPage root (PAGE_SIZE * (virt / PAGE_SIZE)) frame .USER_RW
        writeFrame frame []
        return true :
    RamCall ε Bool) (fun found ram' => if found then Opened roots root virt ram ram'
          else ram' = ram ∧ ram.pmm.clearPages.card = 0) taken :=
      takes.extended.owned.succeeds_install based takes.loose .USER_RW
        (show ([] : List UInt8).length ≤ PAGE_SIZE by decide)
        fun result after installed => .inl (succeeds_pure (installed.opened takes based samePath
          unmapped below (fun other free => ((frees other).mp free).1) spent))
    rw [writeFrame_nil] at installs
    exact installs.resolve_right And.left

/-! ### The loop -/

/-- How `copy_to_user` ends: with a copy, or with `ENOMEM` when no frame is free. -/
def CopyOutcome (roots : Set Nat) (root virt : Nat) (data : List UInt8) (ram : Ram) :
    Except Errno Unit → Ram → Prop
  | .error error, ram' => error = .ENOMEM ∧ ∀ frame, ¬ ram'.pmm.IsFree frame
  | .ok _, ram' => CopiedOut roots root virt data ram ram'

theorem Owned.ends_copyToUserLoop (owned : Owned ∅ roots ram) (based : root ∈ roots) {fuel : Nat}
    (enough : data.length + ram.pmm.clearPages.card < fuel)
    (bounded : virt + data.length ≤ 2 ^ 48) :
    ends (copyToUserLoop root fuel virt data) (CopyOutcome roots root virt data ram) ram := by
  induction fuel generalizing ram virt data with
  | zero => exact absurd enough (Nat.not_lt_zero _)
  | succ fuel ih =>
    rw [copyToUserLoop]
    by_cases empty : data = []
    · subst empty
      exact ends_pure (owned.copiedOut_nil based virt)
    rw [if_neg (by simpa using empty)]
    have positive := List.length_pos_iff.mpr empty
    have inPage := Nat.mod_lt virt (show 0 < PAGE_SIZE by decide)
    refine ends_bind_word (by simp only [u64Max]; omega) (ends_bind_gets ?_)
    rw [translateUserVa, translate_eq_add]
    cases isFrame : leaf ram root virt with
    | none =>
      refine ends_bind_of_succeeds (succeeds_mono
        (owned.succeeds_mapZeroPage based isFrame (by omega)) ?_)
      rintro (_ | _) opening
      · rintro ⟨rfl, none⟩
        refine ends_throw ⟨rfl, fun frame free => ?_⟩
        exact (owned.counted.pos_of_isFree free).ne' (owned.counted.trans none)
      · intro opened
        refine ends_mono (ih opened.added.extended.owned ?_ bounded) ?_
        · have fewer := opened.fewer
          omega
        · rintro (_ | _) final copied
          · exact copied
          · exact opened.copiedOut copied positive
    | some frame =>
      have written := owned.copiedOut_write based isFrame (by omega) (bytes_fit data virt)
      have isChunk := List.length_take_of_le
        (min_le_right (PAGE_SIZE - virt % PAGE_SIZE) data.length)
      refine ends_bind_modify (ends_mono (ih written.added.extended.owned ?_ ?_) ?_)
      · rw [List.length_drop]
        dsimp only
        omega
      · rw [List.length_drop]
        omega
      · rintro (_ | _) final copied
        · exact copied
        · have whole := CopiedOut.append written (by rw [isChunk]; exact copied)
          rwa [List.take_append_drop] at whole

/-- What a copy that succeeds is to leave: the data are read back; pages that were mapped keep
their frames and their bytes outside the range; the others of the range have frames that were
free, no two pages the same one, with zeros outside the range. -/
structure RoundTrip (roots : Set Nat) (root virt : Nat) (data : List UInt8) (ram ram' : Ram) :
    Prop where
  back : copyFromUser root data.length virt data.length ram' = some (.ok data, ram')
  kept : ∀ addr frame, leaf ram root addr = some frame → leaf ram' root addr = some frame
  same : ∀ addr < 2 ^ 48, (leaf ram root addr).isSome →
    ¬ (virt ≤ addr ∧ addr < virt + data.length) → userByte ram' root addr = userByte ram root addr
  fresh : ∀ addr, virt ≤ addr → addr < virt + data.length → leaf ram root addr = none →
    ∃ frame, leaf ram' root addr = some frame ∧ ram.pmm.IsFree frame
  zeros : ∀ addr < 2 ^ 48, leaf ram root addr = none → Meets virt data.length addr →
    ¬ (virt ≤ addr ∧ addr < virt + data.length) → userByte ram' root addr = some 0
  owned : Owned ∅ roots ram'

theorem CopiedOut.roundTrip (copied : CopiedOut roots root virt data ram ram')
    (bounded : virt + data.length ≤ 2 ^ 48) : RoundTrip roots root virt data ram ram' := by
  have inRange : ∀ addr, virt ≤ addr → addr < virt + data.length →
      userByte ram' root addr = data[addr - virt]? := by
    intro addr lower upper
    rw [copied.shows addr (by omega), shownAfter, if_pos ⟨lower, upper⟩]
  have mapped : ∀ addr, virt ≤ addr → addr < virt + data.length →
      leaf ram' root addr ≠ none := by
    intro addr lower upper unmapped
    have shown := inRange addr lower upper
    rw [userByte_eq_none unmapped, List.getElem?_eq_getElem (by omega)] at shown
    cases shown
  refine ⟨?_, copied.added.frames, fun addr below isMapped outside => ?_,
    fun addr lower upper unmapped => ?_, fun addr below unmapped meets outside => ?_,
    copied.added.extended.owned⟩
  · have reads : ends (copyFromUser root data.length virt data.length) (fun result after =>
        after = ram' ∧ Fetched ram' root virt data.length result) ram' :=
      ends_copyFromUser le_rfl (by simp only [u64Max]; omega)
    obtain ⟨result, after, returned, rfl, fetched⟩ := reads
    rw [returned]
    cases result with
    | error error =>
      obtain ⟨addr, lower, upper, unmapped⟩ := fetched
      exact absurd unmapped (mapped addr lower upper)
    | ok bytes =>
      have isData : userBytes after root virt data.length = data := by
        refine List.ext_getElem (by simp [userBytes]) fun index below inData => ?_
        simp only [userBytes, List.getElem_map, List.getElem_range]
        rw [inRange _ (Nat.le_add_right _ _) (by omega), Nat.add_sub_cancel_left,
          List.getElem?_eq_getElem inData, Option.getD_some]
      rw [fetched.1, isData]
  · obtain ⟨frame, isFrame⟩ := Option.isSome_iff_exists.mp isMapped
    rw [copied.shows addr below, shownAfter, if_neg outside, userByte_of_leaf isFrame,
      Option.getD_some, ite_self]
  · obtain ⟨frame, isFrame⟩ := Option.ne_none_iff_exists'.mp (mapped addr lower upper)
    exact ⟨frame, isFrame, copied.added.fresh addr frame unmapped isFrame⟩
  · rw [copied.shows addr below, shownAfter, if_neg outside, if_pos meets,
      userByte_eq_none unmapped]
    rfl

/-- How `copy_to_user` is to end. -/
def RoundTripOutcome (roots : Set Nat) (root virt : Nat) (data : List UInt8) (ram : Ram) :
    Except Errno Unit → Ram → Prop
  | .error error, ram' => error = .ENOMEM ∧ ∀ frame, ¬ ram'.pmm.IsFree frame
  | .ok _, ram' => RoundTrip roots root virt data ram ram'

/-- `copy_to_user` ends, with an error only when no frame is free, and `copy_from_user` then
returns what it copied. -/
theorem copyToUser_roundTrip (owned : Owned ∅ roots ram) (based : root ∈ roots)
    (bounded : virt + data.length ≤ 2 ^ 48) :
    ends (copyToUser root virt data) (RoundTripOutcome roots root virt data ram) ram := by
  refine ends_bind_gets (ends_mono (owned.ends_copyToUserLoop based ?_ bounded) ?_)
  · have counted : ram.pmm.freePages = ram.pmm.clearPages.card := owned.counted
    omega
  · rintro (_ | _) final outcome
    · exact outcome
    · exact outcome.roundTrip bounded

theorem copyToUser_roundTrip_bare :
    Owned ∅ {0x1000} (bareMachine (fewFrames 8)).ram ∧
      ends (copyToUser 0x1000 0x5ffe [1, 2, 3, 4])
        (RoundTripOutcome {0x1000} 0x1000 0x5ffe [1, 2, 3, 4] (bareMachine (fewFrames 8)).ram)
        (bareMachine (fewFrames 8)).ram := by
  have sound : Sound (bareMachine (fewFrames 8)) := sound_fewFrames (by decide)
  have isRoot : (bareMachine (fewFrames 8)).rootSet = {0x1000} := by
    ext base
    simp [State.rootSet, bareMachine]
  obtain ⟨tables, counted, disciplined, -⟩ := isRoot ▸ sound.owned
  have owned : Owned ∅ {0x1000} (bareMachine (fewFrames 8)).ram := by
    refine ⟨tables, counted, disciplined, fun page member frame mapped => ?_,
      by rintro _ ⟨⟩, by rintro _ ⟨⟩⟩
    rw [frameAt, walk_bareMachine _ _ (by
      rw [ne_eq, ← List.length_eq_zero_iff, member.2]
      decide)] at mapped
    cases mapped
  exact ⟨owned, copyToUser_roundTrip owned rfl (by decide)⟩

end Cyllor.Mm
