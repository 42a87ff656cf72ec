import Mathlib.Tactic

/-!
Contract: memory as a function from addresses to bytes.

Owns: little-endian numbers of any width in memory, filling and copying, what a load
sees of each of them, and memory as an array of 64-bit words.
-/

abbrev ByteMemory := Nat → UInt8

namespace ByteMemory

def load (memory : ByteMemory) (addr : Nat) : Nat → Nat
  | 0 => 0
  | width + 1 => (memory addr).toNat + 256 * load memory (addr + 1) width

def store (memory : ByteMemory) (addr width value : Nat) : ByteMemory := fun target =>
  if addr ≤ target ∧ target < addr + width then UInt8.ofNat (value / 256 ^ (target - addr))
  else memory target

def fill (memory : ByteMemory) (addr length : Nat) (byte : UInt8) : ByteMemory := fun target =>
  if addr ≤ target ∧ target < addr + length then byte else memory target

def copy (memory : ByteMemory) (addr : Nat) (bytes : List UInt8) : ByteMemory := fun target =>
  if addr ≤ target then bytes[target - addr]?.getD (memory target) else memory target

/-- Two memories have the same byte at every address outside `[addr, addr + length)`. -/
def SameOutside (addr length : Nat) (before after : ByteMemory) : Prop :=
  ∀ target, target < addr ∨ addr + length ≤ target → after target = before target

theorem sameOutside_store (memory : ByteMemory) (addr width value : Nat) :
    SameOutside addr width memory (memory.store addr width value) := by
  intro target outside
  rw [store, if_neg (by omega)]

theorem sameOutside_fill (memory : ByteMemory) (addr length : Nat) (byte : UInt8) :
    SameOutside addr length memory (memory.fill addr length byte) := by
  intro target outside
  rw [fill, if_neg (by omega)]

theorem sameOutside_copy (memory : ByteMemory) (addr : Nat) (bytes : List UInt8) :
    SameOutside addr bytes.length memory (memory.copy addr bytes) := by
  intro target outside
  unfold copy
  split
  · rw [List.getElem?_eq_none (by omega), Option.getD_none]
  · rfl

theorem load_congr {memory memory' : ByteMemory} {addr width : Nat}
    (same : ∀ offset < width, memory' (addr + offset) = memory (addr + offset)) :
    memory'.load addr width = memory.load addr width := by
  induction width generalizing addr with
  | zero => rfl
  | succ width ih =>
    have head := same 0 (by omega)
    have tail : memory'.load (addr + 1) width = memory.load (addr + 1) width :=
      ih fun offset below => by
        have next := same (offset + 1) (by omega)
        rwa [← Nat.add_assoc, Nat.add_right_comm] at next
    rw [Nat.add_zero] at head
    rw [load, load, head, tail]

theorem SameOutside.load_eq {addr length target width : Nat} {before after : ByteMemory}
    (same : SameOutside addr length before after)
    (apart : target + width ≤ addr ∨ addr + length ≤ target) :
    after.load target width = before.load target width :=
  load_congr fun offset below => same _ (by omega)

private theorem load_of_digits {memory : ByteMemory} {addr width value : Nat}
    (digits : ∀ offset < width, memory (addr + offset) = UInt8.ofNat (value / 256 ^ offset)) :
    memory.load addr width = value % 256 ^ width := by
  induction width generalizing addr value with
  | zero => rw [load, Nat.pow_zero, Nat.mod_one]
  | succ width ih =>
    have head : memory addr = UInt8.ofNat value := by simpa using digits 0 (by omega)
    have tail : memory.load (addr + 1) width = value / 256 % 256 ^ width :=
      ih fun offset below => by
        have next := digits (offset + 1) (by omega)
        rwa [← Nat.add_assoc, Nat.add_right_comm, Nat.pow_succ', ← Nat.div_div_eq_div_mul] at next
    have digit : (UInt8.ofNat value).toNat = value % 256 := UInt8.toNat_ofNat'
    rw [load, head, tail, digit, Nat.pow_succ', Nat.mod_mul]

theorem load_store (memory : ByteMemory) (addr width value : Nat) :
    (memory.store addr width value).load addr width = value % 256 ^ width :=
  load_of_digits fun offset below => by
    rw [store, if_pos (by omega), Nat.add_sub_cancel_left]

theorem load_fill_zero {memory : ByteMemory} {addr length target width : Nat}
    (inside : addr ≤ target ∧ target + width ≤ addr + length) :
    (memory.fill addr length 0).load target width = 0 := by
  have digits : ∀ offset < width,
      memory.fill addr length 0 (target + offset) = UInt8.ofNat (0 / 256 ^ offset) := by
    intro offset below
    rw [fill, if_pos (by omega), Nat.zero_div]
    rfl
  rw [load_of_digits digits, Nat.zero_mod]

/-! ### Arrays of words -/

def slots (memory : ByteMemory) (base slot : Nat) : BitVec 64 :=
  BitVec.ofNat 64 (memory.load (base + 8 * slot) 8)

def setWord (memory : ByteMemory) (addr : Nat) (word : BitVec 64) : ByteMemory :=
  memory.store addr 8 word.toNat

@[simp] theorem slots_setWord (memory : ByteMemory) (base : Nat) {offset : Nat} (word : BitVec 64)
    (aligned : offset % 8 = 0) :
    (memory.setWord (base + offset) word).slots base =
      Function.update (memory.slots base) (offset / 8) word := by
  funext slot
  by_cases same : slot = offset / 8
  · have isSlot : base + 8 * slot = base + offset := by omega
    rw [same, Function.update_self, ← same, slots, isSlot, setWord, load_store,
      show (256 : Nat) ^ 8 = 2 ^ 64 from rfl, Nat.mod_eq_of_lt word.isLt, BitVec.ofNat_toNat,
      BitVec.setWidth_eq]
  · rw [Function.update_of_ne same, slots, slots, setWord,
      (sameOutside_store memory (base + offset) 8 word.toNat).load_eq (by omega)]

end ByteMemory
