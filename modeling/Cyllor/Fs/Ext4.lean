import Cyllor.Syscall.UserMemory

/-!
Contract: where the ext4 driver reads its structures (`Ext4Fs::mount` and `read_inode` of
`fs/ext4.rs`), beside the layout of the format.

Owns: the geometry that `mount` takes from a superblock, and the two reads of `read_inode`.

Does not own: the sectors of the device; every block is taken to be read.
-/

namespace Cyllor.Fs

open Syscall

def EXT4_SUPER_MAGIC : Nat := 0xEF53

structure Superblock where
  sLogBlockSize : Nat
  sInodesPerGroup : Nat
  sMagic : Nat
  sInodeSize : Nat
  sFeatureIncompat : Nat

def Superblock.is64Bit (sb : Superblock) : Bool := sb.sFeatureIncompat &&& 0x80 ≠ 0

structure Ext4Fs where
  blockSize : Nat
  sb : Superblock
  descSize : Nat

/-- A structure read through a pointer into the buffer of a block. -/
structure StructRead where
  block : Nat
  offset : Nat
  size : Nat

def u32At (disk : Nat → UInt8) (address : Nat) : Nat :=
  u32Le ((List.range 4).map fun index => disk (address + index)) 0

namespace Ext4Fs

/-- A shift by 64 or more panics. -/
def mount (sb : Superblock) : Option (Except String Ext4Fs) :=
  if sb.sMagic ≠ EXT4_SUPER_MAGIC then some (.error "Not ext4 (bad magic)")
  else if 64 ≤ sb.sLogBlockSize then none
  else some (.ok ⟨1024 <<< sb.sLogBlockSize % 2 ^ 64, sb, if sb.is64Bit then 64 else 32⟩)

variable (fs : Ext4Fs) (disk : Nat → UInt8) (ino : Nat)

def group : Nat := (ino - 1) / fs.sb.sInodesPerGroup

def index : Nat := (ino - 1) % fs.sb.sInodesPerGroup

def Inside (read : StructRead) : Prop := read.offset + read.size ≤ fs.blockSize

def address (read : StructRead) : Nat := read.block * fs.blockSize + read.offset

/-- The read of the `BlockGroupDesc`, which has 68 bytes. -/
def descRead : StructRead where
  block := (if fs.blockSize = 1024 then 2 else 1) + fs.group ino * fs.descSize / fs.blockSize
  offset := fs.group ino * fs.descSize % fs.blockSize
  size := 68

/-- The read of the `Inode`, which has 140 bytes, from the table that `bg_inode_table_lo` gives. -/
def inodeRead : StructRead where
  block := u32At disk (fs.address (fs.descRead ino) + 8) +
    fs.index ino * fs.sb.sInodeSize / fs.blockSize
  offset := fs.index ino * fs.sb.sInodeSize % fs.blockSize
  size := 140

/-- What `read_inode` reads. It panics on inode 0 and without inodes in a group. -/
def readInode : Option (StructRead × StructRead) :=
  if ino = 0 ∨ fs.sb.sInodesPerGroup = 0 then none
  else some (fs.descRead ino, fs.inodeRead disk ino)

/-! ### The layout of the format -/

/-- Descriptors follow the block of the superblock, which is at byte 1024. -/
def descAddress : Nat :=
  (1024 / fs.blockSize + 1) * fs.blockSize + fs.group ino * fs.descSize

/-- A descriptor of 64 bytes has the high half of the table's address at 0x28. -/
def inodeAddress : Nat :=
  (u32At disk (fs.descAddress ino + 8) +
      if fs.sb.is64Bit then 2 ^ 32 * u32At disk (fs.descAddress ino + 0x28) else 0) * fs.blockSize +
    fs.index ino * fs.sb.sInodeSize

variable {fs}

theorem of_mount {sb : Superblock} (mounted : mount sb = some (.ok fs))
    (small : sb.sLogBlockSize ≤ 6) :
    fs.sb = sb ∧ fs.blockSize = 2 ^ (10 + sb.sLogBlockSize) ∧
      fs.descSize = if sb.is64Bit then 64 else 32 := by
  have fits : 2 ^ (10 + sb.sLogBlockSize) < 2 ^ 64 :=
    Nat.pow_lt_pow_right (by decide) (by omega)
  have shifted : 1024 <<< sb.sLogBlockSize % 2 ^ 64 = 2 ^ (10 + sb.sLogBlockSize) := by
    rw [Nat.shiftLeft_eq, Nat.pow_add] at *
    exact Nat.mod_eq_of_lt fits
  unfold mount at mounted
  rw [shifted, if_neg (show ¬ 64 ≤ sb.sLogBlockSize by omega)] at mounted
  split at mounted
  · cases mounted
  · cases mounted
    exact ⟨rfl, rfl, rfl⟩

/-- Structures of one width tile a block: a read of one of them stays in the block when enough of
them follow it there. -/
theorem fits_iff {block width size : Nat} (tiles : width ∣ block) (isWidth : 0 < width)
    (isSize : 0 < size) (position : Nat) :
    position * width % block + size ≤ block ↔
      position % (block / width) + (size - 1) / width < block / width := by
  obtain ⟨count, rfl⟩ := tiles
  rw [Nat.mul_comm position, Nat.mul_mod_mul_left, Nat.mul_div_cancel_left _ isWidth,
    ← Nat.lt_sub_iff_add_lt', Nat.div_lt_iff_lt_mul isWidth, Nat.mul_comm _ width, Nat.mul_sub]
  omega

theorem address_descRead (atLeast : 1024 ≤ fs.blockSize) :
    fs.address (fs.descRead ino) = fs.descAddress ino := by
  have first : (if fs.blockSize = 1024 then 2 else 1) = 1024 / fs.blockSize + 1 := by
    split
    next same => rw [same]
    next more => rw [Nat.div_eq_of_lt (by omega)]
  unfold address descRead descAddress
  dsimp only
  rw [first, Nat.add_mul, Nat.add_assoc, Nat.div_add_mod']

/-- The inode is read from its place exactly when the high half of the table's address is 0. -/
theorem address_inodeRead_iff (isDesc : fs.address (fs.descRead ino) = fs.descAddress ino)
    (positive : 0 < fs.blockSize) :
    fs.address (fs.inodeRead disk ino) = fs.inodeAddress disk ino ↔
      (fs.sb.is64Bit → u32At disk (fs.descAddress ino + 0x28) = 0) := by
  unfold address inodeRead inodeAddress
  dsimp only
  rw [isDesc, Nat.add_mul, Nat.add_assoc, Nat.div_add_mod', Nat.add_left_inj,
    Nat.mul_left_inj positive.ne']
  split <;> simp [*]

end Ext4Fs

/-- `read_inode` reads the descriptor and the inode inside the buffers and from where the format
has them exactly when enough descriptors follow in the block (one of 64 bytes, two of 32), enough
inodes do (one of 128 bytes, none of more), and the high half of the table's address is 0. -/
theorem readInode_laidOut_iff (sb : Superblock) (fs : Ext4Fs) (disk : Nat → UInt8)
    (ino width : Nat) (mounted : Ext4Fs.mount sb = some (.ok fs)) (small : sb.sLogBlockSize ≤ 6)
    (grouped : 0 < sb.sInodesPerGroup) (isWidth : sb.sInodeSize = 2 ^ width)
    (atMost : sb.sInodeSize ≤ fs.blockSize) (isIno : 1 ≤ ino) :
    (∃ desc inode, fs.readInode disk ino = some (desc, inode) ∧
      fs.Inside desc ∧ fs.address desc = fs.descAddress ino ∧
      fs.Inside inode ∧ fs.address inode = fs.inodeAddress disk ino) ↔
    (fs.group ino % (fs.blockSize / fs.descSize) + 67 / fs.descSize < fs.blockSize / fs.descSize ∧
      fs.index ino % (fs.blockSize / sb.sInodeSize) + 139 / sb.sInodeSize <
        fs.blockSize / sb.sInodeSize ∧
      (sb.is64Bit → u32At disk (fs.descAddress ino + 0x28) = 0)) := by
  obtain ⟨rfl, isBlock, isDesc⟩ := Ext4Fs.of_mount mounted small
  have atLeast : 1024 ≤ fs.blockSize :=
    isBlock ▸ Nat.pow_le_pow_right (show 0 < 2 by decide) (show 10 ≤ _ by omega)
  have positive : 0 < fs.blockSize := by omega
  have descTiles : fs.descSize ∣ fs.blockSize := by
    rw [isBlock, isDesc]
    split
    · exact Nat.pow_dvd_pow 2 (show 6 ≤ _ by omega)
    · exact Nat.pow_dvd_pow 2 (show 5 ≤ _ by omega)
  have inodesTile : fs.sb.sInodeSize ∣ fs.blockSize := by
    rw [isWidth, isBlock] at atMost ⊢
    exact Nat.pow_dvd_pow 2 ((Nat.pow_le_pow_iff_right (by decide : 1 < 2)).mp atMost)
  have descInside := Ext4Fs.fits_iff descTiles (Nat.pos_of_dvd_of_pos descTiles positive)
    (show 0 < 68 by decide) (fs.group ino)
  have inodeInside := Ext4Fs.fits_iff inodesTile (Nat.pos_of_dvd_of_pos inodesTile positive)
    (show 0 < 140 by decide) (fs.index ino)
  have descPlace := Ext4Fs.address_descRead ino atLeast
  rw [← descInside, ← inodeInside, ← Ext4Fs.address_inodeRead_iff disk ino descPlace positive,
    Ext4Fs.readInode, if_neg (show ¬ (ino = 0 ∨ fs.sb.sInodesPerGroup = 0) by omega)]
  constructor
  · intro ⟨desc, inode, reads, inside, _, insideInode, placed⟩
    cases reads
    exact ⟨inside, insideInode, placed⟩
  · intro ⟨inside, insideInode, placed⟩
    exact ⟨_, _, rfl, inside, descPlace, insideInode, placed⟩

/-- 1024-byte blocks of 128-byte inodes, in one group of 8. -/
def smallSuperblock : Superblock := ⟨0, 8, EXT4_SUPER_MAGIC, 128, 0⟩

theorem readInode_laidOut_small :
    ∃ fs, Ext4Fs.mount smallSuperblock = some (.ok fs) ∧
      ∃ desc inode, fs.readInode (fun _ => 0) 1 = some (desc, inode) ∧
        fs.Inside desc ∧ fs.address desc = fs.descAddress 1 ∧
        fs.Inside inode ∧ fs.address inode = fs.inodeAddress (fun _ => 0) 1 := by
  refine ⟨_, rfl, ?_⟩
  apply (readInode_laidOut_iff smallSuperblock _ (fun _ => 0) 1 7 rfl ?_ ?_ rfl ?_ ?_).mpr
  all_goals decide

/-- The eighth inode is read past the end of its block. -/
theorem readInode_passes_block :
    ∃ fs, Ext4Fs.mount smallSuperblock = some (.ok fs) ∧
      ∃ desc inode, fs.readInode (fun _ => 0) 8 = some (desc, inode) ∧ ¬ fs.Inside inode := by
  refine ⟨_, rfl, _, _, rfl, ?_⟩
  unfold Ext4Fs.Inside
  decide

end Cyllor.Fs
