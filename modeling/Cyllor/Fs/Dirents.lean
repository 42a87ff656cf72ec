import Cyllor.Fs.FdTable
import Cyllor.Fs.Vfs
import Cyllor.Syscall.UserMemory

/-!
Contract: reading a directory (`sys_getdents64` of `syscall/fs.rs`).

Owns:
- the list of entries that a call builds, and the records it makes of them;
- a decoder of `linux_dirent64` records that goes by their lengths;
- that a row of calls on an unchanged directory returns every entry once, in order, unless the
  directory is its own child, which a call waits for forever.

Does not own: the copy of the records to the caller, which is taken to succeed, and changes
of the directory between calls.
-/

namespace Cyllor.Fs

open Syscall (leBytes u16Le)

/-- The bytes of a text, as `str::as_bytes` gives them. -/
def asBytes (text : Text) : List UInt8 := text.flatMap String.utf8EncodeChar

def DT_DIR : UInt8 := 4

def inodeTypeToDtype : InodeType → UInt8
  | .Directory => DT_DIR
  | .File => 8
  | .CharDevice => 2
  | .BlockDevice => 6
  | .Pipe => 1
  | .Socket => 12
  | .Symlink => 10

def align8 (value : Nat) : Nat := (value + 7) / 8 * 8

structure Dirent where
  name : List UInt8
  dtype : UInt8
deriving DecidableEq, Repr

namespace Dirent

def reclen (entry : Dirent) : Nat := align8 (19 + entry.name.length + 1)

/-- The `linux_dirent64` of an entry: inode and offset, length, type, and the name with zeros
up to the length. -/
def record (entry : Dirent) (idx : Nat) : List UInt8 :=
  leBytes 8 (idx + 1) ++ leBytes 8 (idx + 1) ++ leBytes 2 entry.reclen ++ [entry.dtype] ++
    entry.name ++ List.replicate (entry.reclen - 19 - entry.name.length) 0

/-- A name that a path can hold, of at most 4096 bytes. -/
def Plain (entry : Dirent) : Prop := entry.name.length ≤ 4096 ∧ 0 ∉ entry.name

instance (entry : Dirent) : Decidable entry.Plain := inferInstanceAs (Decidable (_ ∧ _))

end Dirent

/-- The entries that a call lists: the directory itself, its parent and the children. -/
def Vfs.dirents (vfs : Vfs) (node : Nat) : List Dirent :=
  ⟨asBytes ['.'], DT_DIR⟩ :: ⟨asBytes ['.', '.'], DT_DIR⟩ ::
    (vfs.inodes node).children.toList.map fun entry =>
      ⟨asBytes entry.1, inodeTypeToDtype (vfs.inodes entry.2).itype⟩

/-- The loop of `sys_getdents64` over the entries from `idx` on: how much is written in all,
the records, and the index of the first entry that is left. -/
def emit (max : Nat) : List Dirent → Nat → Nat → Nat × List UInt8 × Nat
  | [], idx, written => (written, [], idx)
  | entry :: rest, idx, written =>
    if max < written + entry.reclen then (written, [], idx)
    else
      let (total, records, last) := emit max rest (idx + 1) (written + entry.reclen)
      (total, entry.record idx ++ records, last)

structure DirFile extends FileObject where
  inode : Option Nat
  offset : Nat
deriving DecidableEq, Repr

/-- A directory that is its own child, as `rename` of `/proc/self` to `/proc/1/x` makes one. -/
def Vfs.OwnChild (vfs : Vfs) (node : Nat) : Prop :=
  ∃ entry ∈ (vfs.inodes node).children.toList, entry.2 = node

instance (vfs : Vfs) (node : Nat) : Decidable (vfs.OwnChild node) :=
  inferInstanceAs (Decidable (∃ entry ∈ _, _))

/-- `sys_getdents64` on an open file: the result, the bytes stored from `dirp` on, and the file
with its new offset. The call locks each child while it holds the lock of the directory, so it
never returns when one of them is the directory. -/
def sysGetdents64 (vfs : Vfs) (file : DirFile) (dirp count : Nat) :
    ExceptT Errno Option (Nat × List UInt8 × DirFile) :=
  if dirp = 0 ∨ count = 0 then throw .EINVAL
  else if file.ftype ≠ .Directory then throw .ENOTDIR
  else
    match file.inode with
    | none => throw .EINVAL
    | some node =>
      if vfs.OwnChild node then ExceptT.lift none
      else
        let (written, records, idx) :=
          emit count ((vfs.dirents node).drop file.offset) file.offset 0
        return (written, records, { file with offset := idx })

/-- The results and the bytes of a row of calls, and the file after them. -/
def getdentsRow (vfs : Vfs) : DirFile → List (Nat × Nat) →
    ExceptT Errno Option (List (Nat × List UInt8) × DirFile)
  | file, [] => return ([], file)
  | file, (dirp, count) :: calls => do
    let (written, records, next) ← sysGetdents64 vfs file dirp count
    let (replies, final) ← getdentsRow vfs next calls
    return ((written, records) :: replies, final)

/-- Take a buffer apart by the lengths of its records, each with its length. -/
def decodeDirents : Nat → List UInt8 → Option (List (Nat × Dirent))
  | _, [] => some []
  | 0, _ :: _ => none
  | fuel + 1, byte :: bytes =>
    let buffer := byte :: bytes
    let reclen := u16Le buffer 16
    if 19 < reclen ∧ reclen ≤ buffer.length then
      (decodeDirents fuel (buffer.drop reclen)).map fun rest =>
        (reclen, ⟨((buffer.take reclen).drop 19).takeWhile (· ≠ 0), buffer.getD 18 0⟩) :: rest
    else none

/-! ### One record -/

namespace Dirent

variable {entry : Dirent}

theorem reclen_bounds (entry : Dirent) :
    20 + entry.name.length ≤ entry.reclen ∧ entry.reclen ≤ 27 + entry.name.length ∧
      8 ∣ entry.reclen := by
  unfold reclen align8
  omega

theorem length_record (entry : Dirent) (idx : Nat) : (entry.record idx).length = entry.reclen := by
  have bounds := entry.reclen_bounds
  simp only [record, leBytes, List.length_append, List.length_cons, List.length_nil,
    List.length_replicate]
  omega

theorem decode_record (plain : entry.Plain) (idx fuel : Nat) (suffix : List UInt8) :
    decodeDirents (fuel + 1) (entry.record idx ++ suffix) =
      (decodeDirents fuel suffix).map ((entry.reclen, entry) :: ·) := by
  obtain ⟨short, noNul⟩ := plain
  obtain ⟨lower, upper, -⟩ := entry.reclen_bounds
  have length := entry.length_record idx
  have isReclen : u16Le (entry.record idx ++ suffix) 16 = entry.reclen := by
    simp [u16Le, record, leBytes]
    omega
  have isType : (entry.record idx ++ suffix).getD 18 0 = entry.dtype := by
    simp [record, leBytes]
  have isName : ((entry.record idx).drop 19).takeWhile (· ≠ 0) = entry.name := by
    have dropped : (entry.record idx).drop 19 =
        entry.name ++ List.replicate (entry.reclen - 19 - entry.name.length) 0 := by
      simp [record, leBytes]
    rw [dropped, List.takeWhile_append_of_pos]
    · simp
    · intro byte member
      have nonzero : byte ≠ 0 := fun isNul => noNul (isNul ▸ member)
      simpa using nonzero
  cases buffer : entry.record idx ++ suffix with
  | nil =>
    rw [List.append_eq_nil_iff] at buffer
    rw [buffer.1, List.length_nil] at length
    omega
  | cons byte bytes =>
    have fits : entry.reclen ≤ (entry.record idx ++ suffix).length := by
      rw [List.length_append]
      omega
    rw [buffer] at isReclen isType fits
    rw [decodeDirents, isReclen, isType, if_pos ⟨by omega, fits⟩, ← buffer, ← length,
      List.drop_left, List.take_left, isName]

end Dirent

/-! ### Records of a call -/

/-- The records of entries whose first one has that index. -/
def recordsFrom : Nat → List Dirent → List UInt8
  | _, [] => []
  | idx, entry :: rest => entry.record idx ++ recordsFrom (idx + 1) rest

/-- What the loop does: it takes entries from the front, and stops at one that does not fit. -/
theorem emit_spec (max : Nat) (entries : List Dirent) (idx written : Nat) :
    ∃ taken left, entries = taken ++ left ∧
      emit max entries idx written = (written + (taken.map Dirent.reclen).sum,
        recordsFrom idx taken, idx + taken.length) ∧
      ∀ next ∈ left.head?, max < written + (taken.map Dirent.reclen).sum + next.reclen := by
  induction entries generalizing idx written with
  | nil => exact ⟨[], [], rfl, rfl, by simp⟩
  | cons entry rest ih =>
    unfold emit
    split
    case isTrue full => exact ⟨[], entry :: rest, rfl, rfl, by simpa using full⟩
    case isFalse =>
      obtain ⟨taken, left, rfl, emitted, stopped⟩ := ih (idx + 1) (written + entry.reclen)
      refine ⟨entry :: taken, left, rfl, ?_, ?_⟩
      · rw [emitted]
        simp only [recordsFrom, List.map_cons, List.sum_cons, List.length_cons, Nat.add_assoc,
          Nat.add_comm 1]
      · simpa [Nat.add_assoc] using stopped

theorem decode_recordsFrom {entries : List Dirent} (plain : ∀ entry ∈ entries, entry.Plain)
    (idx fuel : Nat) (enough : entries.length ≤ fuel) :
    decodeDirents fuel (recordsFrom idx entries) =
      some (entries.map fun entry => (entry.reclen, entry)) := by
  induction entries generalizing idx fuel with
  | nil => cases fuel <;> rfl
  | cons entry rest ih =>
    obtain ⟨fuel, rfl⟩ : ∃ less, fuel = less + 1 :=
      Nat.exists_eq_add_one.mpr (by rw [List.length_cons] at enough; omega)
    have rest := ih (fun other member => plain other (List.mem_cons_of_mem _ member)) (idx + 1)
      fuel (by rw [List.length_cons] at enough; omega)
    rw [recordsFrom, entry.decode_record (plain entry List.mem_cons_self), rest]
    rfl

theorem length_le_recordsFrom (idx : Nat) (entries : List Dirent) :
    entries.length ≤ (recordsFrom idx entries).length := by
  induction entries generalizing idx with
  | nil => exact Nat.le_refl _
  | cons entry rest ih =>
    have bounds := entry.reclen_bounds
    have shorter := ih (idx + 1)
    rw [recordsFrom, List.length_append, entry.length_record, List.length_cons]
    omega

section Scan

variable (vfs : Vfs) {node : Nat}

theorem nonempty_of_holds {count : Nat}
    (holds : ∀ entry ∈ vfs.dirents node, entry.reclen ≤ count) : count ≠ 0 := by
  have first := holds ⟨asBytes ['.'], DT_DIR⟩ List.mem_cons_self
  have bounds := (⟨asBytes ['.'], DT_DIR⟩ : Dirent).reclen_bounds
  omega

variable (file : DirFile)

/-- One call on a directory: it returns the records of the next entries, and stops at the end
or at an entry that does not fit. -/
theorem getdents_spec (directory : file.ftype = .Directory) (isInode : file.inode = some node)
    (notOwn : ¬ vfs.OwnChild node) {dirp count : Nat} (hasBuffer : dirp ≠ 0)
    (positive : count ≠ 0) :
    ∃ taken left, (vfs.dirents node).drop file.offset = taken ++ left ∧
      sysGetdents64 vfs file dirp count = pure ((taken.map Dirent.reclen).sum,
        recordsFrom file.offset taken, { file with offset := file.offset + taken.length }) ∧
      ∀ next ∈ left.head?, count < (taken.map Dirent.reclen).sum + next.reclen := by
  obtain ⟨taken, left, isSplit, emitted, stopped⟩ :=
    emit_spec count ((vfs.dirents node).drop file.offset) file.offset 0
  rw [Nat.zero_add] at emitted stopped
  refine ⟨taken, left, isSplit, ?_, stopped⟩
  unfold sysGetdents64
  rw [if_neg (by simp [hasBuffer, positive]), if_neg (by simp [directory]), isInode]
  dsimp only
  rw [if_neg notOwn, emitted]

theorem getdentsRow_takes (directory : file.ftype = .Directory) (isInode : file.inode = some node)
    (notOwn : ¬ vfs.OwnChild node) (plain : ∀ entry ∈ vfs.dirents node, entry.Plain)
    {calls : List (Nat × Nat)}
    (large : ∀ call ∈ calls, call.1 ≠ 0 ∧ ∀ entry ∈ vfs.dirents node, entry.reclen ≤ call.2) :
    ∃ replies, ∃ taken : List (List Dirent), ∃ left,
      (vfs.dirents node).drop file.offset = taken.flatten ++ left ∧
      getdentsRow vfs file calls =
        pure (replies, { file with offset := file.offset + taken.flatten.length }) ∧
      replies.map Prod.fst = taken.map (fun entries => (entries.map Dirent.reclen).sum) ∧
      replies.map (fun reply => decodeDirents reply.2.length reply.2) =
        taken.map (fun entries => some (entries.map fun entry => (entry.reclen, entry))) ∧
      (left = [] ∨ calls.length ≤ taken.flatten.length) := by
  induction calls generalizing file with
  | nil => exact ⟨[], [], _, rfl, rfl, rfl, rfl, .inr (Nat.le_refl _)⟩
  | cons call calls ih =>
    obtain ⟨hasBuffer, holds⟩ := large call List.mem_cons_self
    have positive := nonempty_of_holds vfs holds
    obtain ⟨now, left, isSplit, returned, stopped⟩ :=
      getdents_spec vfs file directory isInode notOwn hasBuffer positive
    have listed : ∀ entry ∈ now ++ left, entry ∈ vfs.dirents node :=
      fun entry member => List.mem_of_mem_drop (isSplit ▸ member)
    obtain ⟨replies, later, rest, restSplit, laterReturned, results, records, progress⟩ :=
      ih { file with offset := file.offset + now.length } directory isInode
        fun other member => large other (List.mem_cons_of_mem _ member)
    have isLeft : left = later.flatten ++ rest := by
      rw [← restSplit, ← List.drop_drop, isSplit, List.drop_left]
    have decoded := decode_recordsFrom
      (fun entry member => plain entry (listed entry (List.mem_append_left _ member)))
      file.offset _ (length_le_recordsFrom file.offset now)
    refine ⟨((now.map Dirent.reclen).sum, recordsFrom file.offset now) :: replies, now :: later,
      rest, ?_, ?_, by simp [results], by simp [records, decoded], ?_⟩
    · rw [isSplit, isLeft, List.flatten_cons, List.append_assoc]
    · rw [getdentsRow, returned, pure_bind]
      dsimp only
      rw [laterReturned, pure_bind]
      simp [Nat.add_assoc]
    · rcases progress with done | progress
      · exact .inl done
      · -- a call that takes nothing has nothing left to take
        cases now with
        | cons entry now =>
          refine .inr ?_
          simp only [List.flatten_cons, List.length_append, List.length_cons]
          omega
        | nil =>
          cases left with
          | nil => exact .inl (List.append_eq_nil_iff.mp isLeft.symm).2
          | cons next left =>
            have fits := holds next (listed next List.mem_cons_self)
            have full := stopped next rfl
            simp only [List.map_nil, List.sum_nil] at full
            omega

/-- A row of calls on an unchanged directory whose buffers hold the largest record: unless the
directory is its own child, on which the first call never returns, the records
decode to the next entries, in order, each once; their lengths are multiples of 8 and add up
to the results; and as many calls as there are entries reach the end, after which a call
returns nothing. -/
theorem getdentsRow_decodes (directory : file.ftype = .Directory)
    (isInode : file.inode = some node) (start : file.offset = 0)
    (names : ∀ name ∈ (vfs.inodes node).children, (asBytes name).length ≤ 4096 ∧ 0 ∉ asBytes name)
    (calls : List (Nat × Nat)) (large : ∀ call ∈ calls, call.1 ≠ 0 ∧
      ∀ entry ∈ vfs.dirents node, entry.reclen ≤ call.2) :
    (vfs.OwnChild node → calls ≠ [] → (getdentsRow vfs file calls).run = none) ∧
    (¬ vfs.OwnChild node → ∃ replies after, ∃ decoded : List (List (Nat × Dirent)),
      (getdentsRow vfs file calls).run = some (.ok (replies, after)) ∧
      replies.map (fun reply => decodeDirents reply.2.length reply.2) = decoded.map some ∧
      decoded.flatten.map Prod.snd = (vfs.dirents node).take after.offset ∧
      (∀ record ∈ decoded.flatten, 8 ∣ record.1) ∧
      replies.map Prod.fst = decoded.map (fun records => (records.map Prod.fst).sum) ∧
      ((vfs.dirents node).length ≤ calls.length → after.offset = (vfs.dirents node).length) ∧
      (after.offset = (vfs.dirents node).length → ∀ dirp count, dirp ≠ 0 → count ≠ 0 →
        (sysGetdents64 vfs after dirp count).run = some (.ok (0, [], after)))) := by
  refine ⟨fun own nonempty => ?_, fun notOwn => ?_⟩
  · obtain ⟨call, calls, rfl⟩ := List.exists_cons_of_ne_nil nonempty
    obtain ⟨hasBuffer, holds⟩ := large call List.mem_cons_self
    have hangs : sysGetdents64 vfs file call.1 call.2 = ExceptT.lift none := by
      unfold sysGetdents64
      rw [if_neg (by simp [hasBuffer, nonempty_of_holds vfs holds]), if_neg (by simp [directory]),
        isInode]
      exact if_pos own
    rw [getdentsRow, hangs]
    rfl
  have plain : ∀ entry ∈ vfs.dirents node, entry.Plain := by
    intro entry member
    rcases List.mem_cons.mp member with rfl | member
    · decide
    rcases List.mem_cons.mp member with rfl | member
    · decide
    obtain ⟨child, isChild, rfl⟩ := List.mem_map.mp member
    have isName := Std.ExtTreeMap.mem_toList_iff_getElem?_eq_some.mp isChild
    exact names child.1 (Std.ExtTreeMap.mem_iff_isSome_getElem?.mpr (by rw [isName]; rfl))
  obtain ⟨replies, taken, left, isSplit, returned, results, records, progress⟩ :=
    getdentsRow_takes vfs file directory isInode notOwn plain large
  rw [start, List.drop_zero] at isSplit
  rw [start, Nat.zero_add] at returned
  refine ⟨replies, _, taken.map fun entries => entries.map fun entry => (entry.reclen, entry),
    returned, ?_, ?_, ?_, ?_, ?_, ?_⟩
  · simpa [Function.comp_def] using records
  · dsimp only
    rw [isSplit, List.take_left]
    simp [List.map_flatten, Function.comp_def]
  · simp only [List.mem_flatten, List.mem_map]
    rintro record ⟨_, ⟨entries, -, rfl⟩, member⟩
    obtain ⟨entry, -, rfl⟩ := List.mem_map.mp member
    exact entry.reclen_bounds.2.2
  · simp [results, Function.comp_def]
  · intro enough
    rw [isSplit, List.length_append] at enough ⊢
    rcases progress with rfl | progress
    · simp
    · dsimp only
      omega
  · intro atEnd dirp count hasBuffer positive
    obtain ⟨now, rest, nowSplit, nothing, -⟩ := getdents_spec vfs
      { file with offset := taken.flatten.length } directory isInode notOwn hasBuffer positive
    dsimp only at atEnd nowSplit
    rw [atEnd, List.drop_length] at nowSplit
    obtain ⟨rfl, -⟩ := List.append_eq_nil_iff.mp nowSplit.symm
    exact nothing

end Scan

def Vfs.oneFile : Vfs :=
  Vfs.insertNew ⟨Function.update (fun _ => .newFile) Vfs.root .newDir, 1⟩ Vfs.root ['a'] .newFile

theorem dirents_oneFile : Vfs.oneFile.dirents 0 = [⟨[46], 4⟩, ⟨[46, 46], 4⟩, ⟨[97], 8⟩] := by
  decide +kernel

theorem getdentsRow_oneFile :
    ∃ replies after, ∃ decoded : List (List (Nat × Dirent)),
      (getdentsRow Vfs.oneFile ⟨⟨.Directory, 0⟩, some 0, 0⟩
          [(4096, 48), (4096, 24), (4096, 24)]).run = some (.ok (replies, after)) ∧
        replies.map (fun reply => decodeDirents reply.2.length reply.2) = decoded.map some ∧
        decoded.flatten.map Prod.snd = [⟨[46], 4⟩, ⟨[46, 46], 4⟩, ⟨[97], 8⟩] := by
  have names : ∀ name ∈ (Vfs.oneFile.inodes 0).children,
      (asBytes name).length ≤ 4096 ∧ 0 ∉ asBytes name := by
    intro name member
    have isKey := Std.ExtTreeMap.mem_keys.mpr member
    rw [show (Vfs.oneFile.inodes 0).children.keys = [['a']] from by decide +kernel] at isKey
    obtain rfl := List.mem_singleton.mp isKey
    decide
  obtain ⟨replies, after, decoded, returned, records, entries, -, -, atEnd, -⟩ :=
    (getdentsRow_decodes Vfs.oneFile ⟨⟨.Directory, 0⟩, some 0, 0⟩ rfl rfl rfl names
      [(4096, 48), (4096, 24), (4096, 24)] (by rw [dirents_oneFile]; decide)).2 (by decide +kernel)
  refine ⟨replies, after, decoded, returned, records, entries.trans ?_⟩
  rw [atEnd (by rw [dirents_oneFile]; decide), List.take_length, dirents_oneFile]

/-- The directory of the current process has two names; after one of them was moved into it, it
is its own child, and a call on it never returns. -/
theorem getdents_hangs : ∃ after,
    Vfs.rename 2 "/proc/self".toList "/proc/1/x".toList 0 Vfs.boot = some (.ok 0, after) ∧
      Vfs.resolvePath after 2 "/proc/1".toList = some (.ok 31) ∧
      (after.inodes 31).itype = .Directory ∧
      (sysGetdents64 after ⟨⟨.Directory, 0⟩, some 31, 0⟩ 4096 4096).run = none := by
  decide +kernel

end Cyllor.Fs
