import Cyllor.Fs.Dirents
import Cyllor.Fs.Ext4Extents
import Mathlib.Algebra.Order.BigOperators.Group.List

/-!
Contract: the entries that the ext4 driver finds in a directory (`Ext4Fs::read_dir` of
`fs/ext4.rs`).

Owns:
- `scan`, the loop over the bytes of a directory, and that it ends on any bytes;
- on which linear directories it finds the live entries of all blocks, in order.
-/

namespace Cyllor.Fs.Ext4Dir

open Syscall Ext4Extents

/-- The name and the numbers of an entry. -/
abbrev Entry := Text × Nat × Nat

/-- `from_utf8` of a name, `unwrap_or("?")`. -/
def nameOf (bytes : List UInt8) : Text := ((String.fromUTF8? bytes.toByteArray).getD "?").toList

def recLen (data : List UInt8) (pos : Nat) : Nat := u16Le data (pos + 4)

def nameLen (data : List UInt8) (pos : Nat) : Nat := (data.getD (pos + 6) 0).toNat

/-- The bytes of the name at a position, the inode and the file type. -/
def rawEntry (data : List UInt8) (pos : Nat) : List UInt8 × Nat × Nat :=
  ((data.drop (pos + 8)).take (nameLen data pos), u32Le data pos, (data.getD (pos + 7) 0).toNat)

def entryAt (data : List UInt8) (pos : Nat) : Entry :=
  (nameOf (rawEntry data pos).1, (rawEntry data pos).2)

/-- The entry that is pushed at a position, if its name is inside the data. -/
def pushed (data : List UInt8) (pos : Nat) : List Entry :=
  if 0 < nameLen data pos ∧ pos + 8 + nameLen data pos ≤ data.length then [entryAt data pos]
  else []

/-- The loop of `read_dir`, with fuel. An entry without an inode moves it to the next block. -/
def scan (blockSize : Nat) (data : List UInt8) : (fuel pos : Nat) → Option (List Entry)
  | 0, _ => none
  | fuel + 1, pos =>
    if data.length < pos + 8 ∨ recLen data pos = 0 then some []
    else if u32Le data pos = 0 then
      let nextBlock := (pos / blockSize + 1) * blockSize
      if data.length ≤ nextBlock then some [] else scan blockSize data fuel nextBlock
    else
      (if data.length ≤ pos + recLen data pos then some []
        else scan blockSize data fuel (pos + recLen data pos)).map (pushed data pos ++ ·)

/-- `read_dir` of an inode with `i_block` and a size; what is not read stays zero. -/
def readDir {blockSize : Nat} (disk : Nat → Vector UInt8 blockSize) (iBlock : List UInt8)
    (size fuel : Nat) : Option (List Entry) :=
  let read := readExtents disk iBlock 0 size
  scan blockSize (read ++ List.replicate (size - read.length) 0) fuel 0

variable {blockSize : Nat} {data : List UInt8} {fuel pos stop index : Nat} {records : List Nat}
  {blocks : List (List Nat)} {entries : List Entry}

/-- Every round goes on in the data, so its length is enough fuel. -/
theorem scan_returns (positive : 0 < blockSize) (enough : data.length - pos < fuel) :
    ∃ entries, ∀ extra, scan blockSize data (fuel + extra) pos = some entries := by
  induction fuel generalizing pos with
  | zero => omega
  | succ fuel ih =>
    simp only [Nat.add_right_comm fuel 1, scan]
    split
    · exact ⟨[], fun _ => rfl⟩
    split
    · split
      · exact ⟨[], fun _ => rfl⟩
      · apply ih
        have onward := Nat.lt_mul_div_succ pos positive
        rw [Nat.mul_comm] at onward
        omega
    · split
      · exact ⟨_, fun _ => rfl⟩
      · obtain ⟨entries, returns⟩ : ∃ entries, ∀ extra,
            scan blockSize data (fuel + extra) (pos + recLen data pos) = some entries :=
          ih (by omega)
        exact ⟨_, fun extra => by rw [returns extra]; rfl⟩

/-! ### Linear directories -/

/-- A deleted entry has no inode. -/
def live (data : List UInt8) (pos : Nat) : Bool := u32Le data pos ≠ 0

/-- Records from one position tile the bytes up to another. Each has room for its name, and a live
one has a name. -/
def Tiles (data : List UInt8) (stop : Nat) : (pos : Nat) → (records : List Nat) → Prop
  | pos, [] => pos = stop
  | pos, record :: records =>
    record = pos ∧ 8 + nameLen data pos ≤ recLen data pos ∧
      (live data pos → 0 < nameLen data pos) ∧ Tiles data stop (pos + recLen data pos) records

/-- Blocks from an index on are tiled by their records. -/
def Blocks (blockSize : Nat) (data : List UInt8) : (index : Nat) → List (List Nat) → Prop
  | _, [] => True
  | index, block :: blocks =>
    Tiles data ((index + 1) * blockSize) (index * blockSize) block ∧
      Blocks blockSize data (index + 1) blocks

/-- The live entries of all blocks, in order. -/
def liveEntries (data : List UInt8) (blocks : List (List Nat)) : List (List UInt8 × Nat × Nat) :=
  (blocks.flatMap (List.filter (live data))).map (rawEntry data)

theorem nameOf_asBytes {text : Text} : nameOf (asBytes text) = text := by
  have decoded : String.fromUTF8? text.utf8Encode = some (String.ofList text) :=
    dif_pos ⟨text, rfl⟩
  exact (congrArg (fun name => (name.getD "?").toList) decoded).trans String.toList_ofList

theorem scan_next (more : 0 < fuel) :
    (if data.length ≤ pos then some [] else scan blockSize data fuel pos) =
      scan blockSize data fuel pos := by
  cases fuel with
  | zero => exact absurd more (Nat.lt_irrefl 0)
  | succ fuel =>
    split
    case isTrue ended => rw [scan, if_pos (.inl (by omega))]
    case isFalse => rfl

theorem Tiles.le (tiles : Tiles data stop pos records) : pos ≤ stop := by
  induction records generalizing pos with
  | nil => exact tiles.le
  | cons record records ih => exact Nat.le_of_add_right_le (ih tiles.2.2.2)

/-- In a block the loop finds the live records before the first deleted one. -/
theorem scan_block
    (onward : ∀ fuel, data.length - (index + 1) * blockSize < fuel →
      scan blockSize data fuel ((index + 1) * blockSize) = some entries)
    (inside : (index + 1) * blockSize ≤ data.length) (inBlock : index * blockSize ≤ pos)
    (tiles : Tiles data ((index + 1) * blockSize) pos records) (enough : data.length - pos < fuel) :
    scan blockSize data fuel pos =
      some ((records.takeWhile (live data)).map (entryAt data) ++ entries) := by
  induction records generalizing pos fuel with
  | nil =>
    cases (tiles : pos = _)
    exact onward fuel enough
  | cons record records ih =>
    obtain ⟨rfl, room, named, rest⟩ := tiles
    have last := rest.le
    cases fuel with
    | zero => exact absurd enough (Nat.not_lt_zero _)
    | succ fuel =>
      rw [scan, if_neg (by omega), scan_next (by omega), scan_next (by omega)]
      split
      case isTrue deleted =>
        have here : record / blockSize = index := Nat.div_eq_of_lt_le inBlock (by omega)
        rw [here, onward fuel (by omega)]
        simp [live, deleted]
      case isFalse present =>
        have isLive : live data record := by simpa [live] using present
        rw [ih (by omega) rest (by omega), pushed, if_pos ⟨named isLive, by omega⟩,
          List.takeWhile_cons_of_pos isLive]
        rfl

/-- The loop ends behind the blocks when zeros follow. -/
theorem scan_blocks (dir : Blocks blockSize data index blocks)
    (inside : (index + blocks.length) * blockSize ≤ data.length)
    (ends : recLen data ((index + blocks.length) * blockSize) = 0)
    (enough : data.length - index * blockSize < fuel) :
    scan blockSize data fuel (index * blockSize) =
      some ((blocks.flatMap (List.takeWhile (live data))).map (entryAt data)) := by
  induction blocks generalizing index fuel with
  | nil =>
    obtain ⟨fuel, rfl⟩ := Nat.exists_eq_succ_of_ne_zero (Nat.ne_zero_of_lt enough)
    exact if_pos (.inr ends)
  | cons block blocks ih =>
    rw [List.length_cons, ← Nat.add_assoc, Nat.add_right_comm] at inside ends
    have here : (index + 1) * blockSize ≤ data.length :=
      (Nat.mul_le_mul_right _ (Nat.le_add_right _ _)).trans inside
    rw [scan_block (fun fuel enough => ih dir.2 inside ends enough) here le_rfl dir.1 enough,
      List.flatMap_cons, List.map_append]

/-! ### Directories of which a part is read -/

section

variable {first second : List UInt8} {bound : Nat}

/-- Records inside a common part of the bytes are the same. -/
theorem Tiles.of_take (alike : first.take bound = second.take bound)
    (tiles : Tiles first stop pos records) (inside : stop ≤ bound) :
    Tiles second stop pos records ∧
      ∀ record ∈ records, live second record = live first record ∧
        rawEntry second record = rawEntry first record := by
  induction records generalizing pos with
  | nil => exact ⟨tiles, fun _ member => absurd member List.not_mem_nil⟩
  | cons record records ih =>
    obtain ⟨rfl, room, named, rest⟩ := tiles
    have last := rest.le
    have byte (offset : Nat) (small : offset < 8) :
        second[record + offset]? = first[record + offset]? := by
      rw [← List.getElem?_take_of_lt (show record + offset < bound by omega), ← alike,
        List.getElem?_take_of_lt (by omega)]
    have firstByte : second[record]? = first[record]? := byte 0 (by decide)
    have sameLen : recLen second record = recLen first record := by
      simp [recLen, u16Le, Nat.add_assoc, byte]
    have sameName : nameLen second record = nameLen first record := by
      simp [nameLen, byte]
    have sameInode : u32Le second record = u32Le first record := by
      simp [u32Le, u16Le, Nat.add_assoc, byte, firstByte]
    have sameBytes : (second.drop (record + 8)).take (nameLen first record) =
        (first.drop (record + 8)).take (nameLen first record) := by
      rw [List.take_drop, List.take_drop, ← Nat.min_eq_left (show record + 8 + _ ≤ bound by omega),
        ← List.take_take, ← List.take_take, alike]
    have sameLive : live second record = live first record := by rw [live, live, sameInode]
    obtain ⟨tiled, same⟩ := ih rest
    refine ⟨⟨rfl, sameName ▸ sameLen ▸ room, fun isLive => ?_, sameLen ▸ tiled⟩, ?_⟩
    · rw [sameName]
      exact named (sameLive ▸ isLive)
    · rintro other (_ | ⟨_, member⟩)
      · refine ⟨sameLive, ?_⟩
        simp [rawEntry, sameName, sameBytes, sameInode, byte]
      · exact same other member

theorem Blocks.of_take (alike : first.take bound = second.take bound)
    (dir : Blocks blockSize first index blocks) (count : Nat)
    (inside : (index + count) * blockSize ≤ bound) :
    Blocks blockSize second index (blocks.take count) ∧
      ∀ block ∈ blocks.take count, ∀ record ∈ block, live second record = live first record ∧
        rawEntry second record = rawEntry first record := by
  induction blocks generalizing index count with
  | nil => simp [Blocks]
  | cons block blocks ih =>
    cases count with
    | zero => simp [Blocks]
    | succ count =>
      rw [← Nat.add_assoc, Nat.add_right_comm] at inside
      obtain ⟨tiled, same⟩ := dir.1.of_take alike
        ((Nat.mul_le_mul_right _ (Nat.le_add_right _ _)).trans inside)
      obtain ⟨blocked, others⟩ := ih dir.2 count inside
      exact ⟨⟨tiled, blocked⟩, List.forall_mem_cons.mpr ⟨same, others⟩⟩

end

section

variable {α β : Type} {p q : α → Bool} {rows : List (List α)} {f g : α → β}

private theorem flatMap_takeWhile_congr
    (same : ∀ row ∈ rows, ∀ a ∈ row, p a = q a ∧ f a = g a) :
    (rows.flatMap (List.takeWhile p)).map f = (rows.flatMap (List.takeWhile q)).map g := by
  rw [List.map_flatMap, List.map_flatMap]
  refine List.flatMap_congr fun row listed => ?_
  have inRow := same row listed
  clear listed
  induction row with
  | nil => rfl
  | cons a row ih =>
    obtain ⟨⟨samePred, sameValue⟩, others⟩ := List.forall_mem_cons.mp inRow
    cases passes : q a with
    | true => simp [samePred, passes, sameValue, ih others]
    | false => simp [samePred, passes]

private theorem filter_eq_takeWhile_append (row : List α) :
    row.filter p = row.takeWhile p ++ (row.dropWhile p).filter p := by
  conv_lhs => rw [← List.takeWhile_append_dropWhile (p := p) (l := row), List.filter_append]
  rw [List.filter_eq_self.mpr fun _ => List.mem_takeWhile_imp]

/-- Rows cut short are the filtered rows exactly when nothing was cut. -/
private theorem flatMap_takeWhile_iff {rest : List (List α)} :
    (rows.flatMap (List.takeWhile p)).map f = ((rows ++ rest).flatMap (List.filter p)).map g ↔
      (∀ row ∈ rows, (∀ a ∈ row.dropWhile p, p a = false) ∧ ∀ a ∈ row, p a → f a = g a) ∧
        ∀ row ∈ rest, ∀ a ∈ row, p a = false := by
  induction rows with
  | nil => simp [@eq_comm _ []]
  | cons row rows ih =>
    have shorter : (rows.flatMap (List.takeWhile p)).length ≤
        ((rows ++ rest).flatMap (List.filter p)).length := by
      rw [List.flatMap_append, List.length_append, List.length_flatMap, List.length_flatMap]
      refine (List.sum_le_sum fun row _ => ?_).trans (Nat.le_add_right _ _)
      rw [filter_eq_takeWhile_append, List.length_append]
      exact Nat.le_add_right _ _
    have whole : (row.dropWhile p).filter p = [] ↔ ∀ a ∈ row.dropWhile p, p a = false := by
      simp [List.filter_eq_nil_iff]
    rw [List.forall_mem_cons, and_assoc, ← ih, ← whole, List.cons_append, List.flatMap_cons,
      List.flatMap_cons, List.map_append, filter_eq_takeWhile_append, List.map_append,
      List.map_append]
    constructor
    · intro same
      rw [List.append_assoc] at same
      obtain ⟨head, tail⟩ := List.append_inj same (by simp)
      have lengths := congrArg List.length tail
      simp only [List.length_append, List.length_map] at lengths
      have none : (row.dropWhile p).filter p = [] := List.length_eq_zero_iff.mp (by omega)
      rw [none] at tail
      refine ⟨⟨none, fun a member passes => List.map_inj_left.mp head a ?_⟩, tail⟩
      have kept := List.mem_filter.mpr ⟨member, passes⟩
      rwa [filter_eq_takeWhile_append, none, List.append_nil] at kept
    · rintro ⟨⟨none, same⟩, tail⟩
      have head : (row.takeWhile p).map f = (row.takeWhile p).map g :=
        List.map_inj_left.mpr fun a taken =>
          same a ((List.takeWhile_sublist p).mem taken) (List.mem_takeWhile_imp taken)
      rw [none, head, tail, List.map_nil, List.append_nil]

end

/-- When the first blocks of a directory are read and zeros follow, their records are found. -/
theorem scan_padded {content : List UInt8} {count : Nat} (dir : Blocks blockSize content 0 blocks)
    (size : content.length = blocks.length * blockSize) (le : count ≤ blocks.length)
    (enough : content.length < fuel) :
    scan blockSize (content.take (count * blockSize) ++
        List.replicate (content.length - count * blockSize) 0) fuel 0 =
      some (((blocks.take count).flatMap (List.takeWhile (live content))).map
        (entryAt content)) := by
  have bound : count * blockSize ≤ content.length := size ▸ Nat.mul_le_mul_right _ le
  have partLength : (content.take (count * blockSize)).length = count * blockSize := by simpa
  obtain ⟨data, isData⟩ : ∃ data, data = content.take (count * blockSize) ++
      List.replicate (content.length - count * blockSize) 0 := ⟨_, rfl⟩
  have dataLength : data.length = content.length := by
    rw [isData, List.length_append, partLength, List.length_replicate]
    omega
  have alike : content.take (count * blockSize) = data.take (count * blockSize) := by
    rw [isData, List.take_append_of_le_length partLength.ge, List.take_take, Nat.min_self]
  have ends : recLen data (count * blockSize) = 0 := by
    have zero (offset : Nat) : data[count * blockSize + offset]?.getD 0 = 0 := by
      rw [isData, List.getElem?_append_right (by omega), List.getElem?_replicate]
      split <;> rfl
    simp [recLen, u16Le, Nat.add_assoc, zero]
  have reached : (blocks.take count).length = count := by simpa
  obtain ⟨tiled, same⟩ := dir.of_take alike count (by simp)
  have scanned := scan_blocks tiled (by simpa [reached, dataLength] using bound)
    (by simpa [reached] using ends) (by simpa [dataLength] using enough)
  rw [Nat.zero_mul] at scanned
  rw [← isData, scanned, flatMap_takeWhile_congr fun block listed record member => ?_]
  obtain ⟨sameLive, sameEntry⟩ := same block listed record member
  exact ⟨sameLive, by rw [entryAt, entryAt, sameEntry]⟩

/-- An extent node with one extent, of block 5. -/
private def oneExtent : List UInt8 :=
  [0x0A, 0xF3, 1, 0, 4, 0, 0, 0, 0, 0, 0, 0, 0, 0, 0, 0, 1, 0, 0, 0, 5, 0, 0, 0]

/-- A disk on which every block starts with some bytes and goes on with zeros. -/
private def diskOf (size : Nat) (bytes : List UInt8) : Nat → Vector UInt8 size := fun _ =>
  ⟨((bytes ++ List.replicate size 0).take size).toArray, by simp⟩

private theorem maps_oneExtent {bytes : List UInt8} : Maps (diskOf 1024 bytes) oneExtent [5] := by
  rw [Maps, if_neg (by decide), show ehDepth oneExtent = 0 by decide]
  exact ⟨⟨by decide, by decide⟩, ⟨by decide, trivial⟩, rfl⟩

/-- The entry `b` of inode 11 is a whole block. -/
private def oneEntry : List UInt8 := [11, 0, 0, 0, 0, 4, 1, 1, 98]

/-- The first record of the block is deleted, and the rest of it is the record of `b`. -/
private def firstDeleted : List UInt8 :=
  [0, 0, 0, 0, 12, 0, 1, 1, 97, 0, 0, 0, 11, 0, 0, 0, 244, 3, 1, 1, 98]

end Cyllor.Fs.Ext4Dir
