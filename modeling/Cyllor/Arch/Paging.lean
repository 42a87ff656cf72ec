import Cyllor.Lib.LinkForest
import Cyllor.Mm.Pmm

/-!
Contract: the four-level page tables of AArch64 (`arch/aarch64/paging.rs`).

Owns:
- page table entries and where they lie in physical memory;
- `AddressSpace::map_page`, `unmap_page`, `translate` and `map_anon`, and the helpers
  by which the rest of the kernel calls them;
- `Ram.link`, the table or frame an entry points to, and how writes to memory change it.

Physical memory is addressed by physical addresses: the offset of the higher-half
map is the same in every access. The translation caches hold nothing here.
-/

namespace Cyllor.Arch

open Cyllor.Mm

variable {table frame : Nat}

structure PageAttr where
  readable : Bool
  writable : Bool
  executable : Bool
  user : Bool
  device : Bool
deriving DecidableEq, Repr

def PageAttr.USER_RW : PageAttr := ⟨true, true, false, true, false⟩
def PageAttr.USER_RO : PageAttr := ⟨true, false, false, true, false⟩

def PTE_VALID : BitVec 64 := 1#64 <<< 0
def PTE_TABLE : BitVec 64 := 1#64 <<< 1
def PTE_PAGE : BitVec 64 := 1#64 <<< 1
def PTE_AF : BitVec 64 := 1#64 <<< 10
def PTE_SH_INNER : BitVec 64 := 3#64 <<< 8
def PTE_AP_RW_EL1 : BitVec 64 := 0#64 <<< 6
def PTE_AP_RW_ALL : BitVec 64 := 1#64 <<< 6
def PTE_AP_RO_EL1 : BitVec 64 := 2#64 <<< 6
def PTE_AP_RO_ALL : BitVec 64 := 3#64 <<< 6
def PTE_UXN : BitVec 64 := 1#64 <<< 54
def PTE_PXN : BitVec 64 := 1#64 <<< 53
def PTE_ATTR_NORMAL : BitVec 64 := 0#64 <<< 2
def PTE_ATTR_DEVICE : BitVec 64 := 1#64 <<< 2
def PTE_NG : BitVec 64 := 1#64 <<< 11

def PTE_ADDR : BitVec 64 := 0x0000FFFFFFFFF000#64

def PageAttr.toPte (attr : PageAttr) : BitVec 64 :=
  let flags := PTE_SH_INNER ||| if attr.device then PTE_ATTR_DEVICE else PTE_ATTR_NORMAL
  if attr.user then
    flags ||| PTE_NG ||| (if attr.writable then PTE_AP_RW_ALL else PTE_AP_RO_ALL) |||
      (if attr.executable then 0 else PTE_UXN) ||| PTE_PXN
  else
    flags ||| (if attr.writable then PTE_AP_RW_EL1 else PTE_AP_RO_EL1) |||
      (if attr.executable then 0 else PTE_PXN) ||| PTE_UXN

def tableEntry (table : Nat) : BitVec 64 := BitVec.ofNat 64 table ||| PTE_VALID ||| PTE_TABLE

def pageEntry (phys : Nat) (attr : PageAttr) : BitVec 64 :=
  (BitVec.ofNat 64 phys &&& PTE_ADDR) ||| attr.toPte ||| PTE_VALID ||| PTE_PAGE ||| PTE_AF

/-- Index into a table; a table has 512 entries. -/
abbrev Index := Fin 512

/-- The part of `indices` that selects the tables: levels 0, 1 and 2. -/
def tableIndices (virt : Nat) : List Index :=
  [Fin.ofNat 512 (virt / 2 ^ 39), Fin.ofNat 512 (virt / 2 ^ 30), Fin.ofNat 512 (virt / 2 ^ 21)]

/-- The part of `indices` that selects the entry of the page, on level 3. -/
def pageIndex (virt : Nat) : Index := Fin.ofNat 512 (virt / 2 ^ 12)

/-- Where an entry points, if it is valid. -/
def target (entry : BitVec 64) : Option Nat :=
  if entry &&& PTE_VALID = 0 then none else some (entry &&& PTE_ADDR).toNat

def readEntry (ram : Ram) (table : Nat) (index : Index) : BitVec 64 :=
  BitVec.ofNat 64 (ram.bytes.load (table + 8 * index) 8)

def writeEntry (ram : Ram) (table : Nat) (index : Index) (entry : BitVec 64) : Ram :=
  { ram with bytes := ram.bytes.store (table + 8 * index) 8 entry.toNat }

/-- The table or frame that an entry of a table points to. -/
def link (ram : Ram) (table : Nat) (index : Index) :
    Option Nat := target (readEntry ram table index)

/-- A sum or product of machine words, which must not overflow. -/
def word {σ ε : Type} (value : Nat) : Call σ ε Nat :=
  if value ≤ u64Max then return value else Call.hang

def allocTablePage {ε : Type} : RamCall ε (Option Nat) := do
  match ← allocPage with
  | none => return none
  | some phys =>
    zeroFrame phys
    return some phys

/-- The walk of `map_page` from a table down, which makes the tables it does not find. -/
def walkCreate (root : Nat) : (table : Nat) → List Index → RamCall Unit Nat
  | table, [] => return table
  | table, index :: indices => do
      match ← Call.gets fun ram => link ram table index with
      | some next => walkCreate root next indices
      | none =>
        let allocated ← allocTablePage
        let newTable ← Call.ofOption () allocated
        if newTable = root then Call.throw ()
        else
          Call.modify fun ram => writeEntry ram table index (tableEntry newTable)
          let verify ← Call.gets fun ram => readEntry ram table index
          if verify ≠ tableEntry newTable then Call.throw ()
          else walkCreate root newTable indices

def mapPage (root virt phys : Nat) (attr : PageAttr) : RamCall Unit Unit := do
  let table ← walkCreate root root (tableIndices virt)
  Call.modify fun ram => writeEntry ram table (pageIndex virt) (pageEntry phys attr)

/-- The lowest table on the way to a page, and the frame its entry points to. -/
def lookup (ram : Ram) (root virt : Nat) : Option (Nat × Nat) :=
  match LinkForest.walk (link ram) root (tableIndices virt) with
  | none => none
  | some table => (link ram table (pageIndex virt)).map fun frame => (table, frame)

def unmapPage {ε : Type} (root virt : Nat) : RamCall ε (Option Nat) := do
  match ← Call.gets fun ram => lookup ram root virt with
  | none => return none
  | some (table, frame) =>
    Call.modify fun ram => writeEntry ram table (pageIndex virt) 0
    return some frame

def translate (ram : Ram) (root virt : Nat) : Option Nat :=
  (lookup ram root virt).map fun found => found.2 ||| virt % PAGE_SIZE

def mapAnon (root virtStart size : Nat) (attr : PageAttr) : RamCall Unit Unit := do
  let bytes ← word (size + PAGE_SIZE - 1)
  Call.iterate (fun i _ => do
    let allocated ← allocPage
    let phys ← Call.ofOption () allocated
    zeroFrame phys
    let virt ← word (virtStart + PAGE_SIZE * i)
    mapPage root virt phys attr) (bytes / PAGE_SIZE) ()

/-- `map_user_page`, which ignores that a table could not be made. -/
def mapUserPage {ε : Type} (root virt phys : Nat) (attr : PageAttr) : RamCall ε Unit := do
  let _ ← Call.attempt (mapPage root virt phys attr)

def unmapUserPage {ε : Type} (root virt : Nat) : RamCall ε (Option Nat) := unmapPage root virt

def translateUserVa (ram : Ram) (root virt : Nat) : Option Nat := translate ram root virt

/-! ### Entries -/

private theorem toNat_and_addr (phys : Nat) :
    (BitVec.ofNat 64 phys &&& PTE_ADDR).toNat = PAGE_SIZE * (phys % 2 ^ 48 / PAGE_SIZE) := by
  refine Nat.eq_of_testBit_eq fun bit => ?_
  have mask : PTE_ADDR.toNat = (2 ^ 36 - 1) * 2 ^ 12 := rfl
  rw [BitVec.toNat_and, BitVec.toNat_ofNat, mask, Nat.testBit_and, Nat.testBit_mod_two_pow,
    Nat.testBit_mul_two_pow, Nat.testBit_two_pow_sub_one,
    show PAGE_SIZE * (phys % 2 ^ 48 / PAGE_SIZE) = phys % 2 ^ 48 / 2 ^ 12 * 2 ^ 12 from
      Nat.mul_comm _ _,
    Nat.testBit_mul_two_pow, Nat.testBit_div_two_pow, Nat.testBit_mod_two_pow]
  by_cases low : 12 ≤ bit
  · by_cases high : bit < 48
    · have shifted : bit - 12 + 12 = bit := by omega
      simp [low, high, shifted, show bit < 64 by omega, show bit - 12 < 36 by omega]
    · have shifted : bit - 12 + 12 = bit := by omega
      simp [low, high, shifted, show ¬ bit - 12 < 36 by omega]
  · simp [low]

private theorem toPte_addr (attr : PageAttr) : attr.toPte &&& PTE_ADDR = 0 := by
  obtain ⟨readable, writable, executable, user, device⟩ := attr
  revert readable writable executable user device
  decide

theorem target_tableEntry (aligned : table % PAGE_SIZE = 0) (below : table < 2 ^ 48) :
    target (tableEntry table) = some table := by
  have valid : tableEntry table &&& PTE_VALID ≠ 0 := by
    intro zero
    have bit := congrArg (fun value => value.getLsbD 0) zero
    simp [tableEntry, PTE_VALID] at bit
  have addr : tableEntry table &&& PTE_ADDR = BitVec.ofNat 64 table &&& PTE_ADDR := by
    rw [tableEntry, BitVec.and_or_distrib_right, BitVec.and_or_distrib_right,
      show PTE_VALID &&& PTE_ADDR = 0 from rfl, show PTE_TABLE &&& PTE_ADDR = 0 from rfl]
    simp
  rw [target, if_neg valid, addr, toNat_and_addr, Nat.mod_eq_of_lt below]
  simp only [PAGE_SIZE] at aligned ⊢
  rw [Nat.mul_div_cancel' (Nat.dvd_of_mod_eq_zero aligned)]

theorem target_pageEntry (phys : Nat) (attr : PageAttr) :
    target (pageEntry phys attr) = some (PAGE_SIZE * (phys % 2 ^ 48 / PAGE_SIZE)) := by
  have valid : pageEntry phys attr &&& PTE_VALID ≠ 0 := by
    intro zero
    have bit := congrArg (fun value => value.getLsbD 0) zero
    simp [pageEntry, PTE_VALID] at bit
  have addr : pageEntry phys attr &&& PTE_ADDR = BitVec.ofNat 64 phys &&& PTE_ADDR := by
    rw [pageEntry]
    simp only [BitVec.and_or_distrib_right, toPte_addr,
      show PTE_VALID &&& PTE_ADDR = 0 from rfl, show PTE_PAGE &&& PTE_ADDR = 0 from rfl,
      show PTE_AF &&& PTE_ADDR = 0 from rfl, BitVec.and_assoc, BitVec.and_self]
    simp
  rw [target, if_neg valid, addr, toNat_and_addr]

theorem target_bounds {entry : BitVec 64} (points : target entry = some frame) :
    frame % PAGE_SIZE = 0 ∧ frame < 2 ^ 48 := by
  rw [target] at points
  split at points
  · cases points
  · obtain rfl := Option.some.inj points
    have isFrame := toNat_and_addr entry.toNat
    rw [BitVec.ofNat_toNat, BitVec.setWidth_eq] at isFrame
    rw [isFrame]
    simp only [PAGE_SIZE]
    omega

/-! ### Writes to memory and links -/

private theorem readEntry_congr {ram ram' : Ram} {index : Index} {addr length : Nat}
    (same : ByteMemory.SameOutside addr length ram.bytes ram'.bytes)
    (apart : table + 8 * index + 8 ≤ addr ∨ addr + length ≤ table + 8 * index) :
    readEntry ram' table index = readEntry ram table index := by
  rw [readEntry, readEntry, same.load_eq apart]

theorem readEntry_writeEntry (ram : Ram) (table : Nat) (index : Index) (entry : BitVec 64) :
    readEntry (writeEntry ram table index entry) table index = entry := by
  rw [readEntry, writeEntry, ByteMemory.load_store, show (256 : Nat) ^ 8 = 2 ^ 64 from rfl,
    Nat.mod_eq_of_lt entry.isLt, BitVec.ofNat_toNat, BitVec.setWidth_eq]

@[simp] theorem link_writeEntry (ram : Ram) (table : Nat) (index : Index) (entry : BitVec 64) :
    link (writeEntry ram table index entry) table index = target entry := by
  rw [link, readEntry_writeEntry]

section

variable {other : Nat} {index slot : Index} (ram : Ram) (entry : BitVec 64)
  (aligned : table % PAGE_SIZE = 0) (alignedOther : other % PAGE_SIZE = 0)
  (different : ¬ (other = table ∧ slot = index))

include ram entry aligned alignedOther different

theorem readEntry_writeEntry_of_ne :
    readEntry (writeEntry ram table index entry) other slot = readEntry ram other slot := by
  refine readEntry_congr (ByteMemory.sameOutside_store _ _ _ _) ?_
  have bound := index.isLt
  have boundOther := slot.isLt
  simp only [PAGE_SIZE] at aligned alignedOther
  by_cases same : other = table
  · have apart : (slot : Nat) ≠ index := fun equal => different ⟨same, Fin.ext equal⟩
    omega
  · omega

end

theorem readEntry_eq_of_sameOutside {ram ram' : Ram}
    (same : ByteMemory.SameOutside frame PAGE_SIZE ram.bytes ram'.bytes)
    (aligned : frame % PAGE_SIZE = 0) (alignedTable : table % PAGE_SIZE = 0)
    (different : table ≠ frame) (index : Index) :
    readEntry ram' table index = readEntry ram table index := by
  refine readEntry_congr same ?_
  have bound := index.isLt
  simp only [PAGE_SIZE] at aligned alignedTable ⊢
  omega

theorem readEntry_fill_zero {ram : Ram} (index : Index) :
    readEntry { ram with bytes := ram.bytes.fill frame PAGE_SIZE 0 } frame index = 0 := by
  have bound := index.isLt
  rw [readEntry, ByteMemory.load_fill_zero (by simp only [PAGE_SIZE]; omega)]
  rfl

theorem link_fill_zero {ram : Ram} (index : Index) :
    link { ram with bytes := ram.bytes.fill frame PAGE_SIZE 0 } frame index = none := by
  rw [link, readEntry_fill_zero]
  rfl

end Cyllor.Arch
