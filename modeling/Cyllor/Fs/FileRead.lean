import Cyllor.Fs.FdTable

/-!
Contract: the data behind an open file, as reads see it (`FileObject::read` and
`FileObject::lseek` of `fs/vfs.rs`, `get_file` of `fs/fdtable.rs`).

Owns:
- `OpenFile`, a file object with its inode, its offset and the data of special files;
- seeking, and reading from regular and memory files;
- what a row of reads returns.

Does not own: reads from devices, pipes and the other special files, and the copy of the
bytes to the caller.
-/

namespace Cyllor.Fs

/-- `SpecialData`, with the contents of the objects that it points to. -/
inductive SpecialData where
  | EventFdVal (value : Nat)
  | TimerFdState (nextDeadline intervalTicks pendingExpirations : Nat)
  | SignalFdMask (mask : Nat)
  | PipeBuffer (data : List UInt8)
  | MemFdData (data : List UInt8)
  | PidFd (pid : Nat)
  | PtyMaster (id : Nat)
  | PtySlave (id : Nat)
deriving DecidableEq, Repr

structure InodeData where
  data : List UInt8
deriving DecidableEq, Repr

structure OpenFile extends FileObject where
  inode : Option InodeData
  offset : Nat
  specialData : Option SpecialData
deriving DecidableEq, Repr

namespace OpenFile

/-- `new_memfd`, with data written to it since. -/
def memfd (data : List UInt8) : OpenFile where
  ftype := .MemFd
  flags := 0
  inode := none
  offset := 0
  specialData := some (.MemFdData data)

/-- A machine word read as a signed one. -/
def asI64 (word : Nat) : Int := if word < 2 ^ 63 then word else word - 2 ^ 64

/-- `FileObject::lseek`; a sum that does not fit in 64 bits with sign panics. -/
def lseek (file : OpenFile) (offset : Int) (whence : Nat) : Option (Except Errno Nat × OpenFile) :=
  let size := (file.inode.map fun node => node.data.length).getD 0
  let signed (sum : Int) : Option Int := if -2 ^ 63 ≤ sum ∧ sum < 2 ^ 63 then some sum else none
  let target : Option (Except Errno Int) :=
    match whence with
    | 0 => some (.ok offset)
    | 1 => (signed (asI64 file.offset + offset)).map .ok
    | 2 => (signed (asI64 size + offset)).map .ok
    | _ => some (.error .EINVAL)
  target.map fun
    | .error error => (.error error, file)
    | .ok target =>
      let moved := (target % 2 ^ 64).toNat
      (.ok moved, { file with offset := moved })

/-- The files that `read` serves from data. -/
def Readable (file : OpenFile) : Prop := file.ftype = .Regular ∨ file.ftype = .MemFd

/-- `FileObject::read` of a regular or a memory file: the bytes for the buffer, and the file
with its offset moved. -/
def read (file : OpenFile) (count : Nat) : List UInt8 × OpenFile :=
  match file.inode with
  | some node =>
    let toRead := min count (node.data.length - file.offset)
    ((node.data.drop file.offset).take toRead, { file with offset := file.offset + toRead })
  | none =>
    match file.specialData with
    | some (.MemFdData data) =>
      let toRead := min count (data.length - file.offset)
      ((data.drop file.offset).take toRead, { file with offset := file.offset + toRead })
    | _ => ([], file)

def reads : OpenFile → List Nat → List UInt8
  | _, [] => []
  | file, count :: counts => (file.read count).1 ++ reads (file.read count).2 counts

/-- What `lseek` to an offset from the start and a row of reads return. -/
def readsFrom (file : OpenFile) (offset : Int) (counts : List Nat) : List UInt8 :=
  match file.lseek offset 0 with
  | some (_, moved) => moved.reads counts
  | none => []

/-- The data that reads come from. -/
def contents (file : OpenFile) : List UInt8 :=
  match file.inode with
  | some node => node.data
  | none =>
    match file.specialData with
    | some (.MemFdData data) => data
    | _ => []

theorem read_eq (file : OpenFile) (count : Nat) :
    (file.read count).1 = (file.contents.drop file.offset).take count ∧
      (file.read count).2 = { file with
        offset := file.offset + min count (file.contents.length - file.offset) } := by
  have prefixes : ∀ data : List UInt8,
      (data.drop file.offset).take (min count (data.length - file.offset)) =
        (data.drop file.offset).take count := by
    intro data
    rw [← List.length_drop, ← List.take_take, List.take_length]
  rw [read, contents]
  split
  · exact ⟨prefixes _, rfl⟩
  · split
    · exact ⟨prefixes _, rfl⟩
    · simp

/-- A row of reads returns the data from the offset on. -/
theorem reads_eq (file : OpenFile) (counts : List Nat) :
    file.reads counts = (file.contents.drop file.offset).take counts.sum := by
  induction counts generalizing file with
  | nil => simp [reads]
  | cons count counts ih =>
    obtain ⟨isRead, isMoved⟩ := file.read_eq count
    rw [reads, ih, isRead, isMoved, List.sum_cons]
    show _ ++ (file.contents.drop _).take counts.sum = _
    rw [← List.drop_drop, List.take_add]
    congr 2
    -- the offset moves by what is left, so by `count` or to the end
    by_cases le : count ≤ file.contents.length - file.offset
    · rw [min_eq_left le]
    · rw [min_eq_right (by omega), List.drop_of_length_le (by rw [List.length_drop]),
        List.drop_of_length_le (by rw [List.length_drop]; omega)]

theorem readsFrom_getD (file : OpenFile) {offset : Int} (lower : 0 ≤ offset)
    (upper : offset < 2 ^ 63) {counts : List Nat} {index : Nat} (below : index < counts.sum) :
    (file.readsFrom offset counts).getD index 0 =
      file.contents.getD (offset.toNat + index) 0 := by
  have isOffset : (offset % 2 ^ 64).toNat = offset.toNat := by
    rw [Int.emod_eq_of_lt lower (by omega)]
  have moved : file.lseek offset 0 =
      some (.ok offset.toNat, { file with offset := offset.toNat }) := by
    rw [lseek]
    simp only [Option.map_some, isOffset]
  rw [readsFrom, moved]
  dsimp only
  rw [reads_eq, List.getD_eq_getElem?_getD, List.getD_eq_getElem?_getD,
    List.getElem?_take_of_lt below, List.getElem?_drop]
  rfl

end OpenFile

def getOpenFile (table : FdTable) (files : FileId → OpenFile) (fd : Nat) : Except Errno OpenFile :=
  match table.get? fd with
  | some id => .ok (files id)
  | none => .error .EBADF

end Cyllor.Fs
