import Cyllor.Fs.FileRead
import Cyllor.Mm.MapOutcome
import Cyllor.Mm.UserBytes

/-!
Contract: what a new mapping shows, compared with what reads of its file return.

Owns:
- `mmapFd`, `do_mmap` with the file looked up in the descriptor table;
- `ShowsFile`, that a mapping shows the bytes that reads of the file return, zeros when it is
  anonymous, and that a mapping of a descriptor that is not open fails;
- the files and numbers of free frames for which the call keeps to that.

The loop of `do_mmap` looks at the descriptor and not at the flags, and it copies from the
inode of the file. So an anonymous mapping with a descriptor shows the file, a memory file,
which has no inode, shows zeros, and so does a descriptor that is not open.
-/

namespace Cyllor.Mm

open Cyllor.Arch Cyllor.Fs LinkForest
open Call hiding pure bind

variable {root target length flags : Nat}

/-- The data that `do_mmap` copies from: that of the inode behind the descriptor. -/
def mappedData (table : FdTable) (files : FileId → OpenFile) (fd : Int) : Option (List UInt8) :=
  if 0 ≤ fd then
    ((getOpenFile table files fd.toNat).toOption.bind OpenFile.inode).map InodeData.data
  else none

/-- `do_mmap`, with the file of the descriptor. -/
def mmapFd (table : FdTable) (files : FileId → OpenFile)
    (pid addr length prot flags : Nat) (fd offset : Int) : MmCall Nat :=
  doMmap pid addr length prot flags fd offset (mappedData table files fd)

/-- What a caller may expect of the memory from `target` on. -/
structure ShowsFile (table : FdTable) (files : FileId → OpenFile) (ram : Ram)
    (root target length flags : Nat) (fd offset : Int) : Prop where
  anonymous : flags &&& MAP_ANONYMOUS ≠ 0 → ∀ index < length,
    userByte ram root (target + index) = some 0
  file : flags &&& MAP_ANONYMOUS = 0 → ∀ file, getOpenFile table files fd.toNat = .ok file →
    file.Readable → ∀ counts : List Nat, counts.sum = length → ∀ index < length,
      userByte ram root (target + index) = some ((file.readsFrom offset counts).getD index 0)

/-- What a caller may expect of the call. -/
def MapsFile (table : FdTable) (files : FileId → OpenFile) (root length flags : Nat)
    (fd offset : Int) (result : Except Errno Nat) (after : State) : Prop :=
  (∀ target, result = .ok target →
    ShowsFile table files after.ram root target length flags fd offset) ∧
  (flags &&& MAP_ANONYMOUS = 0 → (∀ file, getOpenFile table files fd.toNat ≠ .ok file) →
    ∃ error, result = .error error)

/-- The data has only zeros in the range. -/
def ZerosIn (data : List UInt8) (offset : Int) (length : Nat) : Prop :=
  ∀ index < length, data.getD (offset.toNat + index) 0 = 0

/-- The loop copies what the caller may expect: an anonymous mapping has no descriptor of a file
with data, and another one has an open file that keeps its data in an inode, as far as there is
any data in the range. -/
def CopiesRight (table : FdTable) (files : FileId → OpenFile) (length flags : Nat)
    (fd offset : Int) : Prop :=
  if flags &&& MAP_ANONYMOUS ≠ 0 then
    ∀ data, mappedData table files fd = some data → ZerosIn data offset length
  else
    ∃ file, getOpenFile table files fd.toNat = .ok file ∧
      (file.inode = none → ZerosIn file.contents offset length)

variable {table : FdTable} {files : FileId → OpenFile} {fd offset : Int}

theorem getD_fileBytes (data : Option (List UInt8)) {fd offset : Int} (given : data ≠ none → 0 ≤ fd)
    (index : Nat) :
    (fileBytes data fd offset (index / PAGE_SIZE)).getD (index % PAGE_SIZE) 0 =
      (data.getD []).getD (offset.toNat + index) 0 := by
  have inPage := Nat.mod_lt index (show 0 < PAGE_SIZE by decide)
  have whole := Nat.div_add_mod index PAGE_SIZE
  cases data with
  | none => rfl
  | some data =>
    rw [fileBytes, if_pos (given (by simp)), List.getD_eq_getElem?_getD,
      List.getElem?_take_of_lt inPage, List.getElem?_drop, Nat.add_assoc, whole,
      List.getD_eq_getElem?_getD, Option.getD_some]

theorem mappedData_given (table : FdTable) (files : FileId → OpenFile) (fd : Int) :
    mappedData table files fd ≠ none → 0 ≤ fd := by
  intro given
  by_contra negative
  exact given (if_neg negative)

/-- The loop copies the right bytes exactly when the memory shows what it should. -/
theorem showsFile_iff {ram : Ram} (fdGiven : flags &&& MAP_ANONYMOUS = 0 → 0 ≤ fd)
    (lower : 0 ≤ fd → 0 ≤ offset) (upper : offset < 2 ^ 63)
    (readable : flags &&& MAP_ANONYMOUS = 0 →
      ∀ file, getOpenFile table files fd.toNat = .ok file → file.Readable)
    (shown : ∀ index < length, userByte ram root (target + index) =
      some (((mappedData table files fd).getD []).getD (offset.toNat + index) 0)) :
    ShowsFile table files ram root target length flags fd offset ∧
        (flags &&& MAP_ANONYMOUS = 0 → ∃ file, getOpenFile table files fd.toNat = .ok file) ↔
      CopiesRight table files length flags fd offset := by
  rw [CopiesRight]
  by_cases anonymous : flags &&& MAP_ANONYMOUS ≠ 0
  · rw [if_pos anonymous]
    constructor
    · rintro ⟨shows, -⟩ data isData index below
      have zero := shows.anonymous anonymous index below
      rw [shown index below, isData] at zero
      exact Option.some.inj zero
    · intro zeros
      refine ⟨⟨fun _ index below => ?_, fun none => absurd none anonymous⟩,
        fun none => absurd none anonymous⟩
      rw [shown index below]
      cases isData : mappedData table files fd with
      | none => rfl
      | some data => exact congrArg some (zeros data isData index below)
  · rw [if_neg anonymous]
    rw [not_not] at anonymous
    have given := fdGiven anonymous
    have readings : ∀ (file : OpenFile) (counts : List Nat), counts.sum = length → ∀ index < length,
        (file.readsFrom offset counts).getD index 0 =
          file.contents.getD (offset.toNat + index) 0 := fun file counts isSum index below =>
      file.readsFrom_getD (lower given) upper (isSum.symm ▸ below)
    have isMapped : ∀ file, getOpenFile table files fd.toNat = .ok file →
        mappedData table files fd = file.inode.map InodeData.data := by
      intro file isOpen
      rw [mappedData, if_pos given, isOpen]
      rfl
    constructor
    · rintro ⟨shows, isOpen⟩
      obtain ⟨file, opened⟩ := isOpen anonymous
      refine ⟨file, opened, fun noInode index below => ?_⟩
      have same := shows.file anonymous file opened (readable anonymous file opened) [length]
        List.sum_singleton index below
      rw [shown index below, isMapped file opened, noInode,
        readings file [length] List.sum_singleton index below] at same
      exact (Option.some.inj same).symm
    · rintro ⟨file, opened, zeros⟩
      refine ⟨⟨fun isAnonymous => absurd anonymous isAnonymous, ?_⟩, fun _ => ⟨file, opened⟩⟩
      intro _ other isOther _ counts isSum index below
      obtain rfl : file = other := Except.ok.inj (opened.symm.trans isOther)
      rw [shown index below, readings file counts isSum index below, isMapped file opened]
      cases isInode : file.inode with
      | none => exact congrArg some (zeros isInode index below).symm
      | some node =>
        rw [OpenFile.contents, isInode]
        rfl

theorem mapsFile_ok_iff {after : State} :
    MapsFile table files root length flags fd offset (.ok target) after ↔
      ShowsFile table files after.ram root target length flags fd offset ∧
        (flags &&& MAP_ANONYMOUS = 0 → ∃ file, getOpenFile table files fd.toNat = .ok file) := by
  constructor
  · rintro ⟨shows, fails⟩
    refine ⟨shows target rfl, fun named => ?_⟩
    by_contra closed
    obtain ⟨_, isError⟩ := fails named fun file opened => closed ⟨file, opened⟩
    cases isError
  · rintro ⟨shows, isOpen⟩
    refine ⟨fun other isOther => Except.ok.inj isOther ▸ shows, fun named closed => ?_⟩
    obtain ⟨file, opened⟩ := isOpen named
    exact absurd opened (closed file)

theorem ShowsFile.exists_byte {ram : Ram}
    (shows : ShowsFile table files ram root target length flags fd offset)
    (isOpen : flags &&& MAP_ANONYMOUS = 0 → ∃ file, getOpenFile table files fd.toNat = .ok file)
    (readable : flags &&& MAP_ANONYMOUS = 0 →
      ∀ file, getOpenFile table files fd.toNat = .ok file → file.Readable) {index : Nat}
    (below : index < length) :
    ∃ value, userByte ram root (target + index) = some value := by
  by_cases anonymous : flags &&& MAP_ANONYMOUS = 0
  · obtain ⟨file, opened⟩ := isOpen anonymous
    exact ⟨_, shows.file anonymous file opened (readable anonymous file opened) [length]
      List.sum_singleton index below⟩
  · exact ⟨0, shows.anonymous anonymous index below⟩

theorem of_not_mmapRejects {prot : Nat}
    (accepted : mmapRejects (roundUp length) prot flags fd offset = false) :
    length ≠ 0 ∧ (flags &&& MAP_ANONYMOUS = 0 → 0 ≤ fd) ∧ (0 ≤ fd → 0 ≤ offset) := by
  simp only [mmapRejects, Bool.or_eq_false_iff, Bool.and_eq_false_iff,
    decide_eq_false_iff_not] at accepted
  obtain ⟨⟨⟨⟨nonempty, -⟩, -⟩, given⟩, from_⟩ := accepted
  refine ⟨?_, fun named => ?_, fun opened => ?_⟩
  · rintro rfl
    exact nonempty rfl
  · exact not_lt.mp (given.resolve_left (not_not.mpr named))
  · exact not_lt.mp (from_.resolve_left (not_not.mpr opened)).1

section Call

variable {state : State} {pid root : Nat} {process : Process}

/-- `do_mmap` with arguments that it accepts keeps to what a caller may expect of the contents
exactly when it runs out of frames in time, or has frames and tables for all pages and copies
the right bytes. -/
theorem mmapFd_mapsFile_iff (sound : Sound state) (present : state.roots pid = some root)
    (nonzero : root ≠ 0) (found : state.processes pid = some process)
    {addr length prot flags : Nat}
    (accepted : mmapRejects (roundUp length) prot flags fd offset = false)
    (placed : flags &&& MAP_FIXED ≠ 0 → addr ≠ 0 ∧ addr % PAGE_SIZE = 0)
    (inside : process.mmapTarget addr flags + roundUp length ≤ 2 ^ 48) (word : offset < 2 ^ 63)
    (readable : flags &&& MAP_ANONYMOUS = 0 →
      ∀ file, getOpenFile table files fd.toNat = .ok file → file.Readable) :
    ends (mmapFd table files pid addr length prot flags fd offset) (fun result after =>
      MapsFile table files root length flags fd offset result after ↔
        state.available pid root (process.mmapTarget addr flags) length flags <
            roundUp length / PAGE_SIZE + tableDemand state.ram root
              (process.mmapTarget addr flags) (roundUp length / PAGE_SIZE - 1) ∨
          roundUp length / PAGE_SIZE + tableDemand state.ram root
              (process.mmapTarget addr flags) (roundUp length / PAGE_SIZE) ≤
            state.available pid root (process.mmapTarget addr flags) length flags ∧
          CopiesRight table files length flags fd offset) state := by
  have based := sound.root_mem present
  have aligned := process.aligned_mmapTarget placed
  obtain ⟨nonempty, fdGiven, lower⟩ := of_not_mmapRejects accepted
  refine ends_mono (sound.ends_doMmap present nonzero found (mappedData table files fd) accepted
    placed inside) ?_
  generalize process.mmapTarget addr flags = target at *
  rintro result after ⟨process', middle, ready, enough, ram, outcome, isResult⟩
  have covers := mul_roundUp_div length
  have rounded := le_roundUp length
  cases outcome with
  | complete isLength fresh mapped enough =>
    rw [ready.card_eq, ready.demand_eq based] at enough
    obtain ⟨rfl, rfl⟩ := isResult
    have fewer := tableDemand_mono state.ram root target
      (Nat.sub_le (roundUp length / PAGE_SIZE) 1)
    have shown : ∀ index < length, userByte ram root (target + index) =
        some (((mappedData table files fd).getD []).getD (offset.toNat + index) 0) := by
      intro index below
      rw [fresh.userByte mapped aligned (by rw [isLength, covers]; omega),
        getD_fileBytes _ (mappedData_given table files fd)]
    rw [or_iff_right (by omega), and_iff_right enough, mapsFile_ok_iff]
    exact showsFile_iff fdGiven lower word readable shown
  | @lastMissing all ram last isLast isLength fresh unmapped enough short =>
    rw [ready.card_eq, ready.demand_eq based] at enough short
    obtain ⟨rfl, rfl⟩ := isResult
    have before : roundUp length / PAGE_SIZE - 1 = last := by omega
    rw [before, mapsFile_ok_iff]
    refine iff_of_false ?_ (by omega)
    -- the last page is not mapped, and the range reaches into it
    rintro ⟨shows, isOpen⟩
    have below : PAGE_SIZE * last < length := by
      rw [isLast] at covers
      simp only [roundUp, PAGE_SIZE] at *
      omega
    have absent : userByte ram root (target + PAGE_SIZE * last) = none := userByte_eq_none unmapped
    obtain ⟨value, present⟩ := shows.exists_byte isOpen readable below
    cases absent.symm.trans present
  | givenBack isLast back short =>
    rw [ready.card_eq, ready.demand_eq based] at short
    obtain ⟨rfl, rfl⟩ := isResult
    refine iff_of_true ⟨by rintro _ ⟨⟩, fun _ _ => ⟨_, rfl⟩⟩ (.inl ?_)
    rw [isLast, Nat.add_sub_cancel]
    rw [isLast] at short
    exact short

def oneOpen : FdTable := FdTable.init.install 3 3 false

def plainFile (data : List UInt8) : OpenFile where
  ftype := .Regular
  flags := 0
  inode := some ⟨data⟩
  offset := 0
  specialData := none

theorem mmapFd_mapsFile_plainFile :
    ends (mmapFd oneOpen (fun _ => plainFile [1, 2]) 1 0 PAGE_SIZE PROT_READ MAP_PRIVATE 3 0)
      (fun result after => MapsFile oneOpen (fun _ => plainFile [1, 2]) 0x1000 PAGE_SIZE MAP_PRIVATE
        3 0 result after) (bareMachine (fewFrames 8)) := by
  have readable :
    ∀ file, getOpenFile oneOpen (fun _ => plainFile [1, 2]) (3 : Int).toNat = .ok file →
      file.Readable := by
    rintro _ ⟨⟩
    exact .inl rfl
  refine ends_mono (mmapFd_mapsFile_iff (sound_fewFrames (by decide)) rfl (by decide) rfl
    (by decide) (by decide) (by decide) (by decide) fun _ => readable) fun result after iff =>
      iff.mpr (.inr ⟨?_, plainFile [1, 2], rfl, nofun⟩)
  exact enough_eightFrames MAP_PRIVATE

/-- A mapping of a memory file shows zero where a read returns 1; an anonymous mapping with the
descriptor of a regular file shows the file; and a mapping of a descriptor that is not open
succeeds. -/
theorem mmapFd_shows_other_bytes : Sound (bareMachine (fewFrames 8)) ∧
    ((OpenFile.memfd [1]).readsFrom 0 [PAGE_SIZE]).getD 0 0 = 1 ∧
    (∃ after, mmapFd oneOpen (fun _ => .memfd [1]) 1 0 PAGE_SIZE PROT_READ MAP_PRIVATE 3 0
        (bareMachine (fewFrames 8)) = some (.ok USER_MMAP_BASE, after) ∧
      userByte after.ram 0x1000 USER_MMAP_BASE = some 0) ∧
    (∃ after, mmapFd oneOpen (fun _ => plainFile [1]) 1 0 PAGE_SIZE PROT_READ
        (MAP_PRIVATE ||| MAP_ANONYMOUS) 3 0 (bareMachine (fewFrames 8)) =
          some (.ok USER_MMAP_BASE, after) ∧
      userByte after.ram 0x1000 USER_MMAP_BASE = some 1) ∧
    (getOpenFile oneOpen (fun _ => plainFile [1]) 4).toOption = none ∧
    ∃ after, mmapFd oneOpen (fun _ => plainFile [1]) 1 0 PAGE_SIZE PROT_READ MAP_PRIVATE 4 0
        (bareMachine (fewFrames 8)) = some (.ok USER_MMAP_BASE, after) := by
  have closed : (mmapFd oneOpen (fun _ => plainFile [1]) 1 0 PAGE_SIZE PROT_READ MAP_PRIVATE 4 0
      (bareMachine (fewFrames 8))).map Prod.fst = some (.ok USER_MMAP_BASE) := by
    decide +kernel
  obtain ⟨⟨_, after⟩, returned, rfl⟩ := Option.map_eq_some_iff.mp closed
  exact ⟨sound_fewFrames (by decide), by decide, by decide +kernel, by decide +kernel, rfl, after,
    returned⟩

end Call

end Cyllor.Mm
