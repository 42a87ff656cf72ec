import Cyllor.Fs.FileRead
import Cyllor.Lib.LabelledRun

/-!
Contract: regular and memory files as arrays of bytes (`FileObject::read`,
`FileObject::write` and `FileObject::lseek` of `fs/vfs.rs`).

Owns:
- writing, with the growth of the data vector and the points where it panics;
- `ByteFile`, an array of bytes with a position, and what the calls mean on it;
- that a file whose calls stay in bounds is such an array over every run.

Does not own: the copies between the data and the caller's memory, and the inode's size
field, which only `stat` reads.
-/

namespace Cyllor.Fs

def isizeMax : Nat := 2 ^ 63 - 1

inductive FileCall where
  | lseek (offset : Int) (whence : Nat)
  | read (count : Nat)
  | write (bytes : List UInt8)
deriving DecidableEq, Repr

inductive FileReply where
  | position (result : Except Errno Nat)
  | data (bytes : List UInt8)
  | written (count : Nat)
deriving DecidableEq

namespace OpenFile

/-- Write into a vector at an offset. The end must be a machine word, a vector must not
grow past `isizeMax`, and the slice from the offset on must exist. -/
def store (offset : Nat) (bytes data : List UInt8) : Option (List UInt8) :=
  let stop := offset + bytes.length
  if stop ≤ u64Max ∧ (data.length < stop → stop ≤ isizeMax) then
    let grown := data ++ List.replicate (stop - data.length) 0
    if offset ≤ grown.length then some (grown.take offset ++ bytes ++ grown.drop stop) else none
  else none

/-- `FileObject::write` of a regular or a memory file. -/
def write (file : OpenFile) (bytes : List UInt8) : Option (Nat × OpenFile) :=
  match file.inode with
  | some node => (store file.offset bytes node.data).map fun data =>
    (bytes.length, { file with inode := some ⟨data⟩, offset := file.offset + bytes.length })
  | none =>
    match file.specialData with
    | some (.MemFdData data) => (store file.offset bytes data).map fun data =>
      (bytes.length, { file with
        specialData := some (.MemFdData data), offset := file.offset + bytes.length })
    | _ => some (bytes.length, file)

/-- The slice that `read` takes lies inside the data. -/
def ReadsInside (file : OpenFile) (count : Nat) : Prop :=
  let toRead := min count (file.contents.length - file.offset)
  toRead = 0 ∨ file.offset + toRead ≤ file.contents.length

instance (file : OpenFile) (count : Nat) : Decidable (file.ReadsInside count) :=
  inferInstanceAs (Decidable (_ ∨ _))

def perform (file : OpenFile) : FileCall → Option (FileReply × OpenFile)
  | .lseek offset whence =>
    (file.lseek offset whence).map fun (result, moved) => (.position result, moved)
  | .read count =>
    if file.ReadsInside count then some (.data (file.read count).1, (file.read count).2) else none
  | .write bytes => (file.write bytes).map fun (count, written) => (.written count, written)

def serve : OpenFile → List FileCall → Option (List FileReply × OpenFile)
  | file, [] => some ([], file)
  | file, call :: calls => do
    let (reply, next) ← file.perform call
    let (replies, final) ← serve next calls
    return (reply :: replies, final)

end OpenFile

/-! ### An array of bytes -/

/-- An array of bytes with a position; bytes past the length are zero when they are reached. -/
structure ByteFile where
  length : Nat
  byteAt : Nat → UInt8
  position : Nat

namespace ByteFile

/-- Where a seek goes, counted from the start, the position or the end. -/
def target (file : ByteFile) (offset : Int) : Nat → Option Int
  | 0 => some offset
  | 1 => some (file.position + offset)
  | 2 => some (file.length + offset)
  | _ => none

/-- What a call means: a seek to a negative position is refused, a read gives the bytes at
the position, a write replaces them. -/
def perform (file : ByteFile) : FileCall → FileReply × ByteFile
  | .lseek offset whence =>
    match file.target offset whence with
    | some target =>
      if 0 ≤ target then (.position (.ok target.toNat), { file with position := target.toNat })
      else (.position (.error .EINVAL), file)
    | none => (.position (.error .EINVAL), file)
  | .read count =>
    let toRead := min count (file.length - file.position)
    (.data ((List.range toRead).map fun index => file.byteAt (file.position + index)),
      { file with position := file.position + toRead })
  | .write bytes =>
    (.written bytes.length,
      { length := max file.length (file.position + bytes.length)
        byteAt := fun index =>
          if file.position ≤ index ∧ index < file.position + bytes.length then
            bytes.getD (index - file.position) 0
          else file.byteAt index
        position := file.position + bytes.length })

def serve : ByteFile → List FileCall → List FileReply × ByteFile
  | file, [] => ([], file)
  | file, call :: calls =>
    let (reply, next) := file.perform call
    let (replies, final) := serve next calls
    (reply :: replies, final)

end ByteFile

/-! ### Files as arrays -/

namespace OpenFile

def toBytes (file : OpenFile) : ByteFile :=
  ⟨file.contents.length, fun index => file.contents.getD index 0, file.offset⟩

/-- A file with an inode, or a memory file: what `FileObject::new` and `new_memfd` make. -/
def Stored (file : OpenFile) : Prop :=
  file.inode.isSome ∨ ∃ data, file.specialData = some (.MemFdData data)

/-- The offset and the length are those of a vector. -/
structure Bounded (file : OpenFile) : Prop where
  stored : file.Stored
  length : file.contents.length ≤ isizeMax
  offset : file.offset ≤ isizeMax

/-- The call stays in bounds: a seek goes to a position from 0 to `isizeMax`, a seek from the
end finds the length of the data (so not of a memory file that has data), and a write ends
at most at `isizeMax`. -/
def Allows (file : OpenFile) : FileCall → Prop
  | .lseek offset whence =>
    (∀ target ∈ file.toBytes.target offset whence, 0 ≤ target ∧ target ≤ isizeMax) ∧
      (whence = 2 → file.inode.isSome ∨ file.contents = [])
  | .read _ => True
  | .write bytes => file.offset + bytes.length ≤ isizeMax

instance (file : OpenFile) : (call : FileCall) → Decidable (file.Allows call)
  | .lseek _ _ => inferInstanceAs (Decidable (_ ∧ _))
  | .read _ => isTrue trivial
  | .write _ => inferInstanceAs (Decidable (_ ≤ _))

theorem asI64_of_le {word : Nat} (small : word ≤ isizeMax) : asI64 word = word :=
  if_pos (by unfold isizeMax at small; omega)

theorem size_eq_length {file : OpenFile} (known : file.inode.isSome ∨ file.contents = []) :
    (file.inode.map fun node => node.data.length).getD 0 = file.contents.length := by
  cases found : file.inode with
  | some node => simp [contents, found]
  | none =>
    rcases known with isSome | empty
    · simp [found] at isSome
    · simp [empty]

theorem lseek_of_allows {file : OpenFile} (bounded : file.Bounded) {offset : Int} {whence : Nat}
    (allows : file.Allows (.lseek offset whence)) :
    file.lseek offset whence =
      match file.toBytes.target offset whence with
      | some target => some (.ok target.toNat, { file with offset := target.toNat })
      | none => some (.error .EINVAL, file) := by
  obtain ⟨inRange, known⟩ := allows
  have moved : ∀ target : Int, 0 ≤ target ∧ target ≤ isizeMax →
      (target % 2 ^ 64).toNat = target.toNat ∧ -2 ^ 63 ≤ target ∧ target < 2 ^ 63 := by
    intro target bounds
    unfold isizeMax at bounds
    rw [Int.emod_eq_of_lt bounds.1 (by omega)]
    omega
  unfold lseek
  match whence with
  | 0 =>
    obtain ⟨same, -⟩ := moved offset (inRange offset rfl)
    simp only [ByteFile.target, Option.map_some, same]
  | 1 =>
    obtain ⟨same, fits⟩ := moved (file.offset + offset) (inRange _ rfl)
    simp only [ByteFile.target, toBytes, asI64_of_le bounded.offset, if_pos fits, Option.map_some,
      same]
  | 2 =>
    obtain ⟨same, fits⟩ := moved (file.contents.length + offset) (inRange _ rfl)
    simp only [ByteFile.target, toBytes, size_eq_length (known rfl), asI64_of_le bounded.length,
      if_pos fits, Option.map_some, same]
  | _ + 3 => rfl

private theorem getD_append_zeros (data : List UInt8) (added index : Nat) :
    (data ++ List.replicate added 0)[index]?.getD 0 = data[index]?.getD 0 := by
  by_cases inside : index < data.length
  · rw [List.getElem?_append_left inside]
  · rw [List.getElem?_append_right (by omega), List.getElem?_eq_none (Nat.not_lt.mp inside),
      List.getElem?_replicate]
    split <;> rfl

private theorem getElem?_overwrite {grown bytes : List UInt8} {offset : Nat}
    (long : offset + bytes.length ≤ grown.length) (index : Nat) :
    (grown.take offset ++ bytes ++ grown.drop (offset + bytes.length))[index]? =
      if offset ≤ index ∧ index < offset + bytes.length then bytes[index - offset]?
      else grown[index]? := by
  have taken : (grown.take offset).length = offset := by
    rw [List.length_take]
    omega
  rw [List.append_assoc]
  by_cases before : index < offset
  · rw [if_neg (by omega), List.getElem?_append_left (by omega), List.getElem?_take_of_lt before]
  · rw [List.getElem?_append_right (by omega), taken]
    by_cases inside : index < offset + bytes.length
    · rw [if_pos (by omega), List.getElem?_append_left (by omega)]
    · rw [if_neg (by omega), List.getElem?_append_right (by omega), List.getElem?_drop]
      congr 1
      omega

theorem store_spec {offset : Nat} {bytes : List UInt8} (data : List UInt8)
    (bound : offset + bytes.length ≤ isizeMax) :
    ∃ after, store offset bytes data = some after ∧
      after.length = max data.length (offset + bytes.length) ∧
      ∀ index, after.getD index 0 =
        if offset ≤ index ∧ index < offset + bytes.length then bytes.getD (index - offset) 0
        else data.getD index 0 := by
  have fits : offset + bytes.length ≤ u64Max := by unfold isizeMax u64Max at *; omega
  have long : (data ++ List.replicate (offset + bytes.length - data.length) 0).length =
      max data.length (offset + bytes.length) := by
    rw [List.length_append, List.length_replicate]
    omega
  unfold store
  dsimp only
  rw [if_pos ⟨fits, fun _ => bound⟩, if_pos (by omega)]
  refine ⟨_, rfl, ?_, fun index => ?_⟩
  · simp only [List.length_append, List.length_take, List.length_drop, List.length_replicate]
    omega
  · simp only [List.getD_eq_getElem?_getD]
    rw [getElem?_overwrite (by omega), apply_ite (Option.getD · 0), getD_append_zeros]

/-- What a write leaves: the contents are the stored ones, at an offset past the bytes. -/
theorem write_spec {file : OpenFile} (stored : file.Stored) {bytes : List UInt8}
    (bound : file.offset + bytes.length ≤ isizeMax) :
    ∃ after, file.write bytes = some (bytes.length, after) ∧ after.Stored ∧
      store file.offset bytes file.contents = some after.contents ∧
      after.offset = file.offset + bytes.length := by
  obtain ⟨data, isStored, -⟩ := store_spec file.contents bound
  rw [isStored]
  unfold write
  cases found : file.inode with
  | some node =>
    have isContents : file.contents = node.data := by simp [contents, found]
    rw [isContents] at isStored
    refine ⟨{ file with inode := some ⟨data⟩, offset := file.offset + bytes.length }, ?_,
      .inl rfl, rfl, rfl⟩
    simp only [isStored, Option.map_some]
  | none =>
    obtain ⟨old, isMemFd⟩ : ∃ old, file.specialData = some (.MemFdData old) := by
      simpa [Stored, found] using stored
    have isContents : file.contents = old := by simp [contents, found, isMemFd]
    rw [isContents] at isStored
    refine ⟨{ file with
      specialData := some (.MemFdData data), offset := file.offset + bytes.length }, ?_,
      .inr ⟨data, rfl⟩, ?_, rfl⟩
    · simp only [isMemFd, isStored, Option.map_some, found]
    · simp [contents, found]

theorem read_bytes (file : OpenFile) (count : Nat) :
    (file.read count).1 = (List.range (min count (file.contents.length - file.offset))).map
      fun index => file.contents.getD (file.offset + index) 0 := by
  rw [(file.read_eq count).1]
  refine List.ext_getElem (by simp) fun index inRead _ => ?_
  have below : file.offset + index < file.contents.length := by
    rw [List.length_take, List.length_drop] at inRead
    omega
  simp [List.getElem_take, List.getElem_drop, below]

/-- One allowed call: it returns, what it answers and leaves is what it means on the array,
and the file stays in bounds. -/
theorem perform_spec {file : OpenFile} (bounded : file.Bounded) {call : FileCall}
    (allows : file.Allows call) :
    ∃ reply after, file.perform call = some (reply, after) ∧ after.Bounded ∧
      file.toBytes.perform call = (reply, after.toBytes) := by
  obtain ⟨stored, length, offset⟩ := bounded
  cases call with
  | lseek distance whence =>
    have sought := lseek_of_allows ⟨stored, length, offset⟩ allows
    unfold perform ByteFile.perform
    dsimp only
    rw [sought]
    cases isTarget : file.toBytes.target distance whence with
    | none => exact ⟨_, _, rfl, ⟨stored, length, offset⟩, rfl⟩
    | some target =>
      obtain ⟨lower, upper⟩ := allows.1 target isTarget
      refine ⟨_, _, rfl, ⟨stored, length, ?_⟩, if_pos lower⟩
      dsimp only
      omega
  | read count =>
    have inside : file.ReadsInside count := by
      unfold ReadsInside
      omega
    refine ⟨_, _, if_pos inside, ?_⟩
    rw [read_bytes, (file.read_eq count).2]
    refine ⟨⟨stored, length, ?_⟩, rfl⟩
    dsimp only
    omega
  | write bytes =>
    obtain ⟨after, written, stays, isStored, moved⟩ := write_spec stored allows
    obtain ⟨data, isData, grown, byte⟩ := store_spec file.contents allows
    obtain rfl := Option.some.inj (isData.symm.trans isStored)
    refine ⟨.written bytes.length, after, by simp [perform, written], ⟨stays, ?_, ?_⟩, ?_⟩
    · rw [grown]
      exact max_le length allows
    · rw [moved]
      exact allows
    · unfold ByteFile.perform toBytes
      simp only [grown, moved, byte]

/-- Every row of calls that stay in bounds is served to its end, and the replies and the
contents are those of an array of bytes. -/
theorem serve_eq_bytes {file : OpenFile} (bounded : file.Bounded) {calls : List FileCall}
    (allowed : LabelledRun.Guarded (fun file call => (file.perform call).map Prod.snd)
      OpenFile.Allows file calls) :
    ∃ replies after, file.serve calls = some (replies, after) ∧
      file.toBytes.serve calls = (replies, after.toBytes) := by
  induction calls generalizing file with
  | nil => exact ⟨[], file, rfl, rfl⟩
  | cons call calls ih =>
    obtain ⟨reply, next, performed, stays, meant⟩ := perform_spec bounded allowed.1
    obtain ⟨replies, after, served, means⟩ := ih stays (allowed.tail (by simp [performed]))
    refine ⟨reply :: replies, after, by simp [serve, performed, served], ?_⟩
    simp only [ByteFile.serve, meant, means]

theorem serve_memfd_gap :
    ∃ replies after, (memfd []).serve
        [.write [1, 2], .lseek 2 1, .write [9], .lseek 0 0, .read 10] = some (replies, after) ∧
      replies = [.written 2, .position (.ok 4), .written 1, .position (.ok 0),
        .data [1, 2, 0, 0, 9]] := by
  have bounded : (memfd []).Bounded := ⟨.inr ⟨[], rfl⟩, by decide, by decide⟩
  have allowed : LabelledRun.Guarded (fun file call => (file.perform call).map Prod.snd)
      OpenFile.Allows (memfd []) [.write [1, 2], .lseek 2 1, .write [9], .lseek 0 0, .read 10] := by
    decide
  obtain ⟨replies, after, served, meant⟩ := serve_eq_bytes bounded allowed
  exact ⟨replies, after, served, (congrArg Prod.fst meant).symm.trans (by decide)⟩

/-- A seek to a negative position is accepted and the write after it panics, and the end of
a memory file is taken to be its start. -/
theorem serve_not_bytes :
    (memfd [7]).serve [.lseek (-1) 0] =
        some ([.position (.ok (2 ^ 64 - 1))], { memfd [7] with offset := 2 ^ 64 - 1 }) ∧
      (memfd [7]).serve [.lseek (-1) 0, .write [1]] = none ∧
      (memfd [7]).serve [.lseek 0 2] = some ([.position (.ok 0)], memfd [7]) ∧
      ((memfd [7]).toBytes.serve [.lseek (-1) 0]).1 = [.position (.error .EINVAL)] ∧
      ((memfd [7]).toBytes.serve [.lseek 0 2]).1 = [.position (.ok 1)] := by
  decide

end OpenFile

end Cyllor.Fs
