import Cyllor.Base
import Cyllor.Lib.Call

/-!
Contract: the calling thread's memory as system calls read and write it
(`copy_from_user`, `copy_to_user` and `sys_write` of `syscall/fs.rs`).

Owns: `UserMemory`, the two copies, the byte order of the numbers that user structures
hold, and the loop that hands a buffer to a file page by page.
-/

namespace Cyllor.Syscall

open Call hiding pure bind

/-! ### Byte order -/

def u16Le (bytes : List UInt8) (offset : Nat) : Nat :=
  (bytes.getD offset 0).toNat + 256 * (bytes.getD (offset + 1) 0).toNat

def u16Be (bytes : List UInt8) (offset : Nat) : Nat :=
  256 * (bytes.getD offset 0).toNat + (bytes.getD (offset + 1) 0).toNat

def u32Be (bytes : List UInt8) (offset : Nat) : Nat :=
  65536 * u16Be bytes offset + u16Be bytes (offset + 2)

def u32Le (bytes : List UInt8) (offset : Nat) : Nat :=
  u16Le bytes offset + 65536 * u16Le bytes (offset + 2)

def u64Le (bytes : List UInt8) (offset : Nat) : Nat :=
  u32Le bytes offset + 2 ^ 32 * u32Le bytes (offset + 4)

def leBytes : Nat → Nat → List UInt8
  | 0, _ => []
  | width + 1, value => UInt8.ofNat value :: leBytes width (value / 256)

def beBytes (width value : Nat) : List UInt8 := (leBytes width value).reverse

/-! ### Memory -/

/-- The memory of the calling thread. Page tables resolve the low 48 bits of an
address, so memory is indexed by these. -/
structure UserMemory where
  /-- The byte at an address, `none` where no page is mapped. -/
  byte : Nat → Option UInt8
  /-- Whether `copy_to_user` can map a page at the address when none is. -/
  room : Nat → Bool

namespace UserMemory

/-- The part of an address that selects memory. -/
def index (addr : Nat) : Nat := addr % 2 ^ 48

/-- Store a byte. A page mapped for it is zeroed. -/
def store (memory : UserMemory) (addr : Nat) (value : UInt8) : UserMemory where
  byte other :=
    if other = index addr then some value
    else if other / PAGE_SIZE = index addr / PAGE_SIZE then some ((memory.byte other).getD 0)
    else memory.byte other
  room := memory.room

end UserMemory

abbrev UserCall (α : Type) := Call UserMemory Errno α

/-- `copy_from_user` into a buffer of `len` bytes. Passing the end of the address
space panics. -/
def copyFromUser : (addr len : Nat) → UserCall (List UInt8)
  | _, 0 => pure []
  | addr, len + 1 => do
      if 2 ^ 64 ≤ addr then Call.hang
      else
        let found ← Call.gets fun memory => memory.byte (UserMemory.index addr)
        let value ← Call.ofOption .EFAULT found
        let rest ← copyFromUser (addr + 1) len
        return value :: rest

/-- `copy_to_user`. Every caller reports a page that cannot be mapped as `EFAULT`. -/
def copyToUser : (addr : Nat) → (bytes : List UInt8) → UserCall Unit
  | _, [] => pure ()
  | addr, value :: rest => do
      if 2 ^ 64 ≤ addr then Call.hang
      else
        let reachable ← Call.gets fun memory =>
          (memory.byte (UserMemory.index addr)).isSome || memory.room (UserMemory.index addr)
        if reachable then
          Call.modify fun memory => memory.store addr value
          copyToUser (addr + 1) rest
        else Call.throw .EFAULT

/-- Stores of the kernel through a user pointer. Where no page is mapped the kernel faults, and
the handler of that fault never returns. -/
def storeUser : (addr : Nat) → (bytes : List UInt8) → UserCall Unit
  | _, [] => pure ()
  | addr, value :: rest => do
      if 2 ^ 64 ≤ addr then Call.hang
      else
        let mapped ← Call.gets fun memory => (memory.byte (UserMemory.index addr)).isSome
        if mapped then
          Call.modify fun memory => memory.store addr value
          storeUser (addr + 1) rest
        else Call.hang

def UserCall.Fails {α : Type} (call : UserCall α) (memory : UserMemory) : Prop :=
  ∃ error after, call memory = some (.error error, after)

def UserCall.value? {α : Type} (call : UserCall α) (memory : UserMemory) : Option α :=
  match call memory with
  | some (.ok value, _) => some value
  | _ => none

namespace UserMemory

def Readable (memory : UserMemory) (addr len : Nat) : Prop :=
  ∀ offset < len, (memory.byte (index (addr + offset))).isSome

instance (memory : UserMemory) (addr len : Nat) : Decidable (memory.Readable addr len) :=
  inferInstanceAs (Decidable (∀ offset < len, _))

/-- Copies leave every mapped byte mapped, and change nothing about where pages can
be mapped. -/
def Grows (before after : UserMemory) : Prop :=
  (∀ addr, (before.byte addr).isSome → (after.byte addr).isSome) ∧ after.room = before.room

theorem Readable.of_grows {before after : UserMemory} {addr len : Nat}
    (readable : before.Readable addr len) (grows : Grows before after) :
    after.Readable addr len :=
  fun offset within => grows.1 _ (readable offset within)

theorem grows_store (memory : UserMemory) (addr : Nat) (value : UInt8) :
    Grows memory (memory.store addr value) := by
  refine ⟨fun other mapped => ?_, rfl⟩
  simp only [store]
  split
  · rfl
  · split
    · rfl
    · exact mapped

end UserMemory

open UserMemory

theorem not_fails_storeUser (addr : Nat) (bytes : List UInt8) (memory : UserMemory) :
    wp (storeUser addr bytes) (fun result _ => result = .ok ()) memory := by
  induction bytes generalizing addr memory with
  | nil => exact (wp_pure _).mpr rfl
  | cons value rest ih =>
    rw [storeUser, wp_ite]
    refine ⟨fun _ => wp_hang, fun _ => ?_⟩
    rw [wp_bind_gets, wp_ite]
    refine ⟨fun _ => ?_, fun _ => wp_hang⟩
    rw [wp_bind_modify]
    exact ih (addr + 1) _

/-! ### Writing to a file -/

variable {σ : Type}

def UserMemory.bytesAt (memory : UserMemory) (addr len : Nat) : List UInt8 :=
  (List.range len).map fun offset => (memory.byte (index (addr + offset))).getD 0

/-- The loop of `sys_write` with `left` bytes to go. A round that is not the last writes at
least one byte, so `left` rounds are enough. -/
def writePages (memory : UserMemory) (fdWrite : List UInt8 → Call σ Errno Nat) :
    (rounds uaddr left written : Nat) → Call σ Errno Nat
  | 0, _, _, written => pure written
  | rounds + 1, uaddr, left, written =>
    if left = 0 then pure written
    else if (memory.byte (index uaddr)).isNone then
      if 0 < written then pure written else Call.throw .EFAULT
    else fun state =>
      let chunk := min (PAGE_SIZE - uaddr % PAGE_SIZE) left
      match fdWrite (memory.bytesAt uaddr chunk) state with
      | none => none
      | some (.error error, after) =>
        some (if 0 < written then .ok written else .error error, after)
      | some (.ok n, after) =>
        -- passing the end of the address space panics
        if 2 ^ 64 ≤ uaddr + n then none
        else if n < chunk then some (.ok (written + n), after)
        else writePages memory fdWrite rounds (uaddr + n) (left - n) (written + n) after

def sysWrite (memory : UserMemory) (fdWrite : List UInt8 → Call σ Errno Nat) (buf count : Nat) :
    Call σ Errno Nat :=
  writePages memory fdWrite count buf count 0

end Cyllor.Syscall
