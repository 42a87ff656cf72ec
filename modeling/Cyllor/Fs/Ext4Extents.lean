import Cyllor.Syscall.UserMemory

/-!
Contract: the bytes of a file on an ext4 disk (`read_extents`, `read_from_extents` and
`read_direct_blocks` of `fs/ext4.rs`).

Owns:
- extent nodes as they stand on disk, and the reads through extents and direct pointers;
- `Maps`, which blocks of the disk an inode maps in order;
- how many of them a read from the start of the file reaches;
- `readInto`, a read of a part of a file through its extents.

Does not own: the block device, whose reads succeed here, and the inode table.
-/

namespace Cyllor.Fs.Ext4Extents

open Syscall

/-! ### Extent nodes -/

/-- A node of an extent tree, in an inode or in a block, starts with `ExtentHeader`. -/
def ehMagic (node : List UInt8) : Nat := u16Le node 0

def ehEntries (node : List UInt8) : Nat := u16Le node 2

def ehDepth (node : List UInt8) : Nat := u16Le node 6

/-- `Extent`: logical block, length, and physical block. -/
structure Extent where
  eeBlock : Nat
  eeLen : Nat
  eeStart : Nat
deriving DecidableEq, Repr

def Extent.blocks (ext : Extent) : List Nat := List.range' ext.eeStart ext.eeLen

def extents (node : List UInt8) : List Extent :=
  (List.range (ehEntries node)).map fun index =>
    let offset := 12 + 12 * index
    { eeBlock := u32Le node offset
      eeLen := u16Le node (offset + 4)
      eeStart := u32Le node (offset + 8) + 2 ^ 32 * u16Le node (offset + 6) }

/-- The blocks of the nodes below, from `ExtentIdx`. -/
def leaves (node : List UInt8) : List Nat :=
  (List.range (ehEntries node)).map fun index =>
    u32Le node (12 + 12 * index + 4) + 2 ^ 32 * u16Le node (12 + 12 * index + 8)

/-- `i_block` of an inode without extents: the numbers of its first blocks. -/
def directPointers (iBlock : List UInt8) : List Nat :=
  (List.range 12).map fun index => u32Le iBlock (4 * index)

/-! ### Reads -/

variable {blockSize : Nat} (disk : Nat → Vector UInt8 blockSize)

/-- The bytes of a row of blocks. -/
def bytesOf (blocks : List Nat) : List UInt8 := blocks.flatMap fun number => (disk number).toList

/-- The inner loop of `read_from_extents`, over the blocks that the extent has left. -/
def readBlocks : (blocks : List Nat) → (curOffset toRead : Nat) → List UInt8
  | [], _, _ => []
  | number :: blocks, curOffset, toRead =>
    if toRead = 0 then []
    else
      let chunk := min (blockSize - curOffset) toRead
      ((disk number).toList.drop curOffset).take chunk ++ readBlocks blocks 0 (toRead - chunk)

/-- The bytes that are read for a buffer with room for `remaining`. -/
def readFromExtents : (exts : List Extent) → (fileOffset remaining : Nat) → List UInt8
  | [], _, _ => []
  | ext :: exts, fileOffset, remaining =>
    let start := ext.eeBlock * blockSize
    let length := ext.eeLen * blockSize
    if start + length ≤ fileOffset then readFromExtents exts fileOffset remaining
    else if fileOffset < start then []
    else
      let inExt := fileOffset - start
      let toRead := min remaining (length - inExt)
      readBlocks disk (ext.blocks.drop (inExt / blockSize)) (inExt % blockSize) toRead ++
        readFromExtents exts (fileOffset + toRead) (remaining - toRead)

/-- The loop of `read_direct_blocks` from a pointer on. -/
def readDirectBlocks : (pointers : List Nat) → (index fileOff remaining : Nat) → List UInt8
  | [], _, _, _ => []
  | number :: pointers, index, fileOff, remaining =>
    if number = 0 then []
    else if index * blockSize + blockSize ≤ fileOff then
      readDirectBlocks pointers (index + 1) fileOff remaining
    else if fileOff < index * blockSize then []
    else
      let offInBlock := fileOff - index * blockSize
      let chunk := min (blockSize - offInBlock) remaining
      ((disk number).toList.drop offInBlock).take chunk ++
        if remaining - chunk = 0 then []
        else readDirectBlocks pointers (index + 1) (fileOff + chunk) (remaining - chunk)

/-- The extents below an index node; nodes there that are not leaves are skipped. -/
def allExtents (iBlock : List UInt8) : List Extent :=
  (leaves iBlock).flatMap fun leaf =>
    let node := (disk leaf).toList
    if ehMagic node ≠ 0xF30A ∨ ehDepth node ≠ 0 then [] else extents node

def readExtents (iBlock : List UInt8) (offset size : Nat) : List UInt8 :=
  if ehMagic iBlock ≠ 0xF30A then readDirectBlocks disk (directPointers iBlock) 0 offset size
  else if ehDepth iBlock = 0 then readFromExtents disk (extents iBlock) offset size
  else readFromExtents disk (allExtents disk iBlock) offset size

/-! ### What an inode maps -/

/-- A tree of extent nodes of a depth. -/
def ExtentTree : (depth : Nat) → (node : List UInt8) → Prop
  | 0, node => ehMagic node = 0xF30A ∧ ehDepth node = 0
  | depth + 1, node =>
    ehMagic node = 0xF30A ∧ ehDepth node = depth + 1 ∧
      ∀ leaf ∈ leaves node, ExtentTree depth (disk leaf).toList

/-- The extents in the leaves of a tree. -/
def treeExtents : (depth : Nat) → (node : List UInt8) → List Extent
  | 0, node => extents node
  | depth + 1, node => (leaves node).flatMap fun leaf => treeExtents depth (disk leaf).toList

/-- Extents without a hole from a logical block on. -/
def Consecutive : (logical : Nat) → List Extent → Prop
  | _, [] => True
  | logical, ext :: exts => ext.eeBlock = logical ∧ Consecutive (logical + ext.eeLen) exts

/-- The blocks of a file without holes, in order. Without extents, what is behind the twelfth is
found in indirect blocks, which nothing here looks at. -/
def Maps (iBlock : List UInt8) (mapped : List Nat) : Prop :=
  if ehMagic iBlock ≠ 0xF30A then
    mapped.take 12 <+: directPointers iBlock ∧ 0 ∉ mapped.take 12
  else
    ExtentTree disk (ehDepth iBlock) iBlock ∧
      Consecutive 0 (treeExtents disk (ehDepth iBlock) iBlock) ∧
      mapped = (treeExtents disk (ehDepth iBlock) iBlock).flatMap Extent.blocks

/-- How many blocks of a file the driver reads. -/
def reach (iBlock : List UInt8) (total : Nat) : Nat :=
  if ehMagic iBlock ≠ 0xF30A then min 12 total else if ehDepth iBlock ≤ 1 then total else 0

theorem reach_le (iBlock : List UInt8) (total : Nat) : reach iBlock total ≤ total := by
  unfold reach
  split_ifs
  · exact Nat.min_le_right _ _
  · exact le_rfl
  · exact Nat.zero_le _

theorem length_bytesOf (blocks : List Nat) :
    (bytesOf disk blocks).length = blocks.length * blockSize := by
  simp [bytesOf, List.length_flatMap]

theorem bytesOf_append (first second : List Nat) :
    bytesOf disk (first ++ second) = bytesOf disk first ++ bytesOf disk second :=
  List.flatMap_append

theorem take_bytesOf {blocks : List Nat} {count : Nat} (le : count ≤ blocks.length) :
    (bytesOf disk blocks).take (count * blockSize) = bytesOf disk (blocks.take count) := by
  conv_lhs => rw [← List.take_append_drop count blocks, bytesOf_append]
  apply List.take_left'
  rw [length_bytesOf, List.length_take_of_le le]

theorem drop_bytesOf {blocks : List Nat} {count : Nat} (le : count ≤ blocks.length) :
    (bytesOf disk blocks).drop (count * blockSize) = bytesOf disk (blocks.drop count) := by
  conv_lhs => rw [← List.take_append_drop count blocks, bytesOf_append]
  apply List.drop_left'
  rw [length_bytesOf, List.length_take_of_le le]

/-- The inner loop copies the bytes of the blocks from an offset in the first one on. -/
theorem readBlocks_eq (blocks : List Nat) {curOffset : Nat} (inBlock : curOffset ≤ blockSize)
    (toRead : Nat) :
    readBlocks disk blocks curOffset toRead =
      ((bytesOf disk blocks).drop curOffset).take toRead := by
  induction blocks generalizing curOffset toRead with
  | nil => simp [readBlocks, bytesOf]
  | cons number blocks ih =>
    rw [readBlocks]
    split
    case isTrue none => simp [none]
    case isFalse =>
      have left : ((disk number).toList.drop curOffset).length = blockSize - curOffset := by simp
      show _ = (((disk number).toList ++ bytesOf disk blocks).drop curOffset).take toRead
      rw [List.drop_append_of_le_length (by simpa), List.take_append, left]
      dsimp only
      rw [ih (Nat.zero_le _), List.drop_zero, ← left, Nat.min_comm, ← List.take_eq_take_min]
      congr 2
      omega

/-! ### Reads of a part of a file -/

/-- `read_from_extents`: how many bytes it reads, and the buffer after it. -/
def readInto (exts : List Extent) (offset : Nat) (buf : List UInt8) : Nat × List UInt8 :=
  let read := readFromExtents disk exts offset buf.length
  (read.length, read ++ buf.drop read.length)

/-- The byte at a position of the file, if an extent maps it. -/
def logicalByte (exts : List Extent) (pos : Nat) : Option UInt8 :=
  exts.findSome? fun ext =>
    if ext.eeBlock * blockSize ≤ pos then
      (bytesOf disk ext.blocks)[pos - ext.eeBlock * blockSize]?
    else none

/-- The bytes from an offset up to the first one that is not mapped, or as many as fit. -/
structure Reads (exts : List Extent) (offset room : Nat) (read : List UInt8) : Prop where
  fits : read.length ≤ room
  ends : read.length < room → logicalByte disk exts (offset + read.length) = none
  bytes : ∀ index < read.length, read[index]? = logicalByte disk exts (offset + index)

variable {ext : Extent} {exts : List Extent}

theorem length_blocks (ext : Extent) :
    (bytesOf disk ext.blocks).length = ext.eeLen * blockSize := by
  rw [length_bytesOf, Extent.blocks, List.length_range']

theorem logicalByte_tail {pos : Nat}
    (beyond : ext.eeBlock * blockSize + ext.eeLen * blockSize ≤ pos) :
    logicalByte disk (ext :: exts) pos = logicalByte disk exts pos := by
  have behind := length_blocks disk ext
  rw [logicalByte, List.findSome?_cons, if_pos (by omega), List.getElem?_eq_none (by omega)]
  rfl

theorem readBlocks_extent (positive : 0 < blockSize) {inExt : Nat}
    (inside : inExt ≤ ext.eeLen * blockSize) (toRead : Nat) :
    readBlocks disk (ext.blocks.drop (inExt / blockSize)) (inExt % blockSize) toRead =
      ((bytesOf disk ext.blocks).drop inExt).take toRead := by
  have inBlocks : inExt / blockSize ≤ ext.blocks.length :=
    (Nat.div_le_of_le_mul (by rwa [Nat.mul_comm])).trans_eq List.length_range'.symm
  rw [readBlocks_eq disk _ (Nat.mod_lt _ positive).le, ← drop_bytesOf disk inBlocks,
    List.drop_drop, Nat.div_add_mod']

theorem reads_readFromExtents (positive : 0 < blockSize)
    (sorted : exts.Pairwise fun ext later => ext.eeBlock ≤ later.eeBlock) (offset room : Nat) :
    Reads disk exts offset room (readFromExtents disk exts offset room) := by
  induction exts generalizing offset room with
  | nil => exact ⟨Nat.zero_le _, fun _ => rfl, nofun⟩
  | cons ext exts ih =>
    obtain ⟨first, rest⟩ := List.pairwise_cons.mp sorted
    rw [readFromExtents]
    split
    case isTrue ended =>
      have reads := ih rest offset room
      refine ⟨reads.fits, fun fewer => ?_, fun index below => ?_⟩
      · rw [logicalByte_tail disk (by omega), reads.ends fewer]
      · rw [logicalByte_tail disk (by omega), reads.bytes index below]
    case isFalse notEnded =>
    split
    case isTrue hole =>
      refine ⟨Nat.zero_le _, fun _ => List.findSome?_eq_none_iff.mpr ?_, nofun⟩
      refine List.forall_mem_cons.mpr ⟨if_neg (Nat.not_le.mpr hole), fun later listed => ?_⟩
      exact if_neg (Nat.not_le.mpr (hole.trans_le (Nat.mul_le_mul_right _ (first later listed))))
    case isFalse reached =>
      -- a part of this extent, and what follows it when the whole extent was wanted
      dsimp only
      obtain ⟨inExt, isOffset⟩ := Nat.exists_eq_add_of_le (Nat.le_of_not_lt reached)
      obtain ⟨toRead, isToRead⟩ : ∃ toRead, toRead =
        min room (ext.eeLen * blockSize - inExt) := ⟨_, rfl⟩
      have reads := ih rest (offset + toRead) (room - toRead)
      have chunk := readBlocks_extent disk positive
        (show inExt ≤ ext.eeLen * blockSize by omega) toRead
      have whole := length_blocks disk ext
      have size : (((bytesOf disk ext.blocks).drop inExt).take toRead).length = toRead := by
        rw [List.length_take, List.length_drop]
        omega
      have fits := reads.fits
      rw [isOffset, Nat.add_sub_cancel_left, ← isToRead, ← isOffset, chunk]
      refine ⟨by rw [List.length_append]; omega, fun fewer => ?_, fun index below => ?_⟩
      · rw [List.length_append, size] at fewer ⊢
        rw [logicalByte_tail disk (by omega), ← Nat.add_assoc, reads.ends (by omega)]
      · rw [List.length_append, size] at below
        by_cases inChunk : index < toRead
        · have mapped : inExt + index < (bytesOf disk ext.blocks).length := by omega
          rw [List.getElem?_append_left (by omega), List.getElem?_take_of_lt inChunk,
            List.getElem?_drop, logicalByte, List.findSome?_cons, if_pos (by omega), isOffset,
            Nat.add_assoc, Nat.add_sub_cancel_left, List.getElem?_eq_getElem mapped]
        · rw [List.getElem?_append_right (by omega), size, reads.bytes _ (by omega),
            logicalByte_tail disk (by omega)]
          congr 1
          omega

/-- Blocks of two bytes. -/
def numbered (number : Nat) : Vector UInt8 2 :=
  #v[(10 * number).toUInt8, (10 * number + 1).toUInt8]

def twoExtents : List Extent := [⟨0, 1, 7⟩, ⟨1, 2, 3⟩]

/-- From the logical block where consecutive extents start, all their blocks are read. -/
theorem readFromExtents_all (positive : 0 < blockSize) {exts : List Extent} {logical : Nat}
    (consecutive : Consecutive logical exts) :
    readFromExtents disk exts (logical * blockSize)
        ((exts.flatMap Extent.blocks).length * blockSize) =
      bytesOf disk (exts.flatMap Extent.blocks) := by
  induction exts generalizing logical with
  | nil => rfl
  | cons ext exts ih =>
    obtain ⟨rfl, rest⟩ := consecutive
    have tail := ih rest
    have total : ((ext :: exts).flatMap Extent.blocks).length * blockSize =
        ext.eeLen * blockSize + (exts.flatMap Extent.blocks).length * blockSize := by
      rw [List.flatMap_cons, List.length_append, Nat.add_mul]
      simp [Extent.blocks]
    rw [Nat.add_mul] at tail
    rw [total, List.flatMap_cons, bytesOf_append, ← tail, readFromExtents]
    simp only [Nat.sub_self, Nat.sub_zero, Nat.zero_div, Nat.zero_mod, List.drop_zero,
      Nat.min_eq_right (Nat.le_add_right _ _), Nat.add_sub_cancel_left, lt_irrefl, if_false]
    split
    case isTrue ended =>
      -- an extent of no block is skipped
      have none : ext.eeLen = 0 := by
        by_contra some
        have := Nat.mul_pos (Nat.pos_of_ne_zero some) positive
        omega
      simp [none, Extent.blocks, bytesOf]
    case isFalse =>
      rw [readBlocks_eq disk _ (Nat.zero_le _), List.drop_zero,
        List.take_of_length_le (length_blocks disk ext).le]

/-- Direct pointers are read as long as blocks are left. -/
theorem readDirectBlocks_all (positive : 0 < blockSize) {pointers mapped : List Nat} (index : Nat)
    (points : mapped.take pointers.length <+: pointers)
    (used : 0 ∉ mapped.take pointers.length) :
    readDirectBlocks disk pointers index (index * blockSize) (mapped.length * blockSize) =
      bytesOf disk (mapped.take pointers.length) := by
  induction pointers generalizing mapped index with
  | nil => rfl
  | cons number pointers ih =>
    cases mapped with
    | nil => simp [readDirectBlocks, bytesOf, positive.ne']
    | cons first mapped =>
      rw [List.length_cons, List.take_succ_cons] at points used
      obtain ⟨rfl, rest⟩ := List.cons_prefix_cons.mp points
      rw [List.mem_cons, not_or] at used
      have tail := ih (index + 1) rest used.2
      have whole : (mapped.length + 1) * blockSize = mapped.length * blockSize + blockSize :=
        Nat.succ_mul _ _
      rw [Nat.add_mul, Nat.one_mul] at tail
      rw [readDirectBlocks, if_neg (Ne.symm used.1), if_neg (by omega), if_neg (lt_irrefl _),
        List.length_cons, List.length_cons, List.take_succ_cons]
      simp only [Nat.sub_self, Nat.sub_zero, whole, Nat.min_eq_left (Nat.le_add_left _ _),
        Nat.add_sub_cancel, List.drop_zero, tail]
      rw [List.take_of_length_le (by simp)]
      split
      case isTrue ended =>
        have empty : mapped = [] := by
          rcases Nat.mul_eq_zero.mp ended with none | none
          · exact List.length_eq_zero_iff.mp none
          · omega
        simp [empty, bytesOf]
      case isFalse => rfl

/-- A read of a whole file returns its bytes up to the last block that is reached. -/
theorem readExtents_eq (positive : 0 < blockSize) {iBlock : List UInt8} {mapped : List Nat}
    (maps : Maps disk iBlock mapped) :
    readExtents disk iBlock 0 (mapped.length * blockSize) =
      (bytesOf disk mapped).take (reach iBlock mapped.length * blockSize) := by
  rw [take_bytesOf disk (reach_le _ _)]
  unfold Maps at maps
  unfold readExtents reach
  split at maps
  case isTrue direct =>
    have twelve : (directPointers iBlock).length = 12 := by simp [directPointers]
    have read : readDirectBlocks disk (directPointers iBlock) 0 (0 * blockSize) _ = _ :=
      readDirectBlocks_all disk positive 0 (twelve.symm ▸ maps.1) (twelve.symm ▸ maps.2)
    rw [if_pos direct, if_pos direct, ← List.take_eq_take_min, ← twelve, ← read, Nat.zero_mul]
  case isFalse extended =>
    obtain ⟨tree, consecutive, rfl⟩ := maps
    have read := readFromExtents_all disk positive consecutive
    rw [Nat.zero_mul] at read
    rw [if_neg extended, if_neg extended]
    match depth : ehDepth iBlock with
    | 0 =>
      rw [depth] at read
      rw [if_pos rfl, if_pos (Nat.zero_le 1), List.take_length, ← read]
      rfl
    | 1 =>
      rw [depth] at read tree
      rw [if_neg Nat.one_ne_zero, if_pos le_rfl, List.take_length, ← read]
      congr 1
      refine List.flatMap_congr fun leaf below => if_neg ?_
      obtain ⟨magic, isLeaf⟩ := tree.2.2 leaf below
      simp [magic, isLeaf]
    | _ + 2 =>
      rw [depth] at tree
      have none : allExtents disk iBlock = [] := by
        refine List.flatMap_eq_nil_iff.mpr fun leaf below => if_pos (.inr ?_)
        rw [(tree.2.2 leaf below).2.1]
        exact Nat.succ_ne_zero _
      rw [if_neg (by omega), if_neg (by omega), none]
      rfl

end Cyllor.Fs.Ext4Extents
