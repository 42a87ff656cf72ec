import Cyllor.Mm.RangeEffects
import Cyllor.Mm.UserBytes

/-!
Contract: the copies between the kernel and user memory through the page tables
(`copy_from_user` and `copy_to_user` of `syscall/fs.rs`).

Owns: the two loops, with the pages that `copy_to_user` maps on the way, what the first reads
when every page is mapped, and what a round of the second writes.
-/

namespace Cyllor.Mm

open Cyllor.Arch LinkForest
open Call hiding pure bind

variable {virt frame : Nat} {data : List UInt8}

/-! ### The loops -/

/-- `copy_from_user` into a buffer of `len` bytes; every round reads a byte at least, so `len`
rounds are enough. -/
def copyFromUser (root : Nat) : (fuel virt len : Nat) → RamCall Errno (List UInt8)
  | 0, _, _ => return []
  | fuel + 1, virt, len => do
      if len = 0 then return []
      else
        let virt ← word virt
        let found ← Call.gets fun ram => translateUserVa ram root virt
        let phys ← Call.ofOption .EFAULT found
        let chunk := min (PAGE_SIZE - virt % PAGE_SIZE) len
        let bytes ← Call.gets fun ram =>
          (List.range chunk).map fun offset => ram.bytes (phys + offset)
        let rest ← copyFromUser root fuel (virt + chunk) (len - chunk)
        return bytes ++ rest

/-- The loop of `copy_to_user`: a page that is not mapped gets a frame of zeros, and the round
is tried again. -/
def copyToUserLoop (root : Nat) : (fuel virt : Nat) → List UInt8 → RamCall Errno Unit
  | 0, _, data => if data.isEmpty then return () else Call.hang
  | fuel + 1, virt, data => do
      if data.isEmpty then return ()
      else
        let virt ← word virt
        match ← Call.gets fun ram => translateUserVa ram root virt with
        | some phys =>
          let chunk := min (PAGE_SIZE - virt % PAGE_SIZE) data.length
          writeFrame phys (data.take chunk)
          copyToUserLoop root fuel (virt + chunk) (data.drop chunk)
        | none =>
          if ← mapZeroPage root (PAGE_SIZE * (virt / PAGE_SIZE)) then
            copyToUserLoop root fuel virt data
          else Call.throw .ENOMEM

/-- `copy_to_user`; every round writes a byte at least or takes a frame, which bounds the
rounds. -/
def copyToUser (root virt : Nat) (data : List UInt8) : RamCall Errno Unit := do
  let frames ← Call.gets fun ram => ram.pmm.freePages
  copyToUserLoop root (data.length + frames + 1) virt data

variable {heap roots : Set Nat} {ram ram' ram'' : Ram} {root : Nat}

/-! ### Reading -/

theorem userByte_of_leaf (mapped : leaf ram root virt = some frame) :
    userByte ram root virt = some (ram.bytes (frame + virt % PAGE_SIZE)) := by
  rw [userByte, translateUserVa, translate_eq_add, mapped, Option.map_some, Option.map_some]

theorem userByte_add (mapped : leaf ram root virt = some frame) {offset : Nat}
    (inPage : virt % PAGE_SIZE + offset < PAGE_SIZE) :
    userByte ram root (virt + offset) = some (ram.bytes (frame + virt % PAGE_SIZE + offset)) := by
  have samePage : (virt + offset) / PAGE_SIZE = virt / PAGE_SIZE := by
    simp only [PAGE_SIZE] at *
    omega
  have isOffset : (virt + offset) % PAGE_SIZE = virt % PAGE_SIZE + offset := by
    simp only [PAGE_SIZE] at *
    omega
  rw [userByte_of_leaf ((leaf_congr ram root samePage).trans mapped), isOffset, Nat.add_assoc]

def userBytes (ram : Ram) (root virt len : Nat) : List UInt8 :=
  (List.range len).map fun index => (userByte ram root (virt + index)).getD 0

theorem userBytes_add (ram : Ram) (root virt first second : Nat) :
    userBytes ram root virt (first + second) =
      userBytes ram root virt first ++ userBytes ram root (virt + first) second := by
  rw [userBytes, List.range_add, List.map_append, List.map_map]
  simp only [userBytes, Function.comp_def, Nat.add_assoc]

/-- What `copy_from_user` returns: the bytes of mapped pages, or an error for a page that is
not mapped. -/
def Fetched (ram : Ram) (root virt len : Nat) : Except Errno (List UInt8) → Prop
  | .ok bytes => bytes = userBytes ram root virt len ∧
      ∀ addr, virt ≤ addr → addr < virt + len → (leaf ram root addr).isSome
  | .error _ => ∃ addr, virt ≤ addr ∧ addr < virt + len ∧ leaf ram root addr = none

theorem ends_copyFromUser {fuel len : Nat} (enough : len ≤ fuel) (bounded : virt + len ≤ u64Max) :
    ends (copyFromUser root fuel virt len) (fun result ram' =>
      ram' = ram ∧ Fetched ram root virt len result) ram := by
  induction fuel generalizing virt len with
  | zero =>
    obtain rfl := Nat.le_zero.mp enough
    exact ends_pure ⟨rfl, rfl, fun addr lower upper => by omega⟩
  | succ fuel ih =>
    rw [copyFromUser]
    by_cases empty : len = 0
    · rw [if_pos empty, empty]
      exact ends_pure ⟨rfl, rfl, fun addr lower upper => by omega⟩
    rw [if_neg empty]
    have inPage := Nat.mod_lt virt (show 0 < PAGE_SIZE by decide)
    refine ends_bind_word (by omega) (ends_bind_gets ?_)
    rw [translateUserVa, translate_eq_add]
    cases isFrame : leaf ram root virt with
    | none =>
      exact ends_bind (ends_throw ⟨rfl, virt, le_rfl, by omega, isFrame⟩)
    | some frame =>
      have chunkLe : min (PAGE_SIZE - virt % PAGE_SIZE) len ≤ len := min_le_right _ _
      refine ends_bind_of_succeeds (succeeds_pure (ends_bind_gets
        (ends_bind (ends_mono (ih (by omega) (by omega)) ?_))))
      rintro result ram ⟨rfl, fetched⟩
      cases result with
      | error _ =>
        obtain ⟨addr, lower, upper, unmapped⟩ := fetched
        exact ⟨rfl, addr, by omega, by omega, unmapped⟩
      | ok rest =>
        obtain ⟨rfl, restMapped⟩ := fetched
        refine ends_pure ⟨rfl, ?_, fun addr lower upper => ?_⟩
        · have split := userBytes_add ram root virt
            (min (PAGE_SIZE - virt % PAGE_SIZE) len)
            (len - min (PAGE_SIZE - virt % PAGE_SIZE) len)
          rw [Nat.add_sub_cancel' chunkLe] at split
          rw [split]
          congr 1
          refine List.map_congr_left fun offset listed => ?_
          have below := List.mem_range.mp listed
          rw [userByte_add isFrame (by omega), Option.getD_some]
        · by_cases inFirst : addr < virt + min (PAGE_SIZE - virt % PAGE_SIZE) len
          · have samePage : addr / PAGE_SIZE = virt / PAGE_SIZE := by
              simp only [PAGE_SIZE] at *
              omega
            rw [leaf_congr ram root samePage]
            exact Option.isSome_of_eq_some isFrame
          · exact restMapped addr (by omega) (by omega)

/-! ### Writing -/

/-- The addresses from `virt` on show the data, and the others what they showed before. -/
def UserStored (root virt : Nat) (data : List UInt8) (ram ram' : Ram) : Prop :=
  ∀ addr < 2 ^ 48, userByte ram' root addr =
    if virt ≤ addr ∧ addr < virt + data.length then data[addr - virt]? else userByte ram root addr

section

variable (owned : Owned heap roots ram) (based : root ∈ roots)

include owned based

theorem Owned.userStored_write (mapped : leaf ram root virt = some frame) (outside : frame ∉ heap)
    (below : virt < 2 ^ 48) (fits : data.length ≤ PAGE_SIZE - virt % PAGE_SIZE) :
    UserStored root virt data ram
      { ram with bytes := ram.bytes.copy (frame + virt % PAGE_SIZE) data } := by
  have inPage := Nat.mod_lt virt (show 0 < PAGE_SIZE by decide)
  have member := pageOf_pageAt based virt
  have aligned := (leaf_bounds mapped).1
  have noTable := (owned.mapped_settled member mapped).2
  have untouched : Untouched roots { page | frameAt ram page = some frame } ram
      { ram with bytes := ram.bytes.copy (frame + virt % PAGE_SIZE) data } :=
    owned.untouched_write noTable fun addr other =>
      ByteMemory.sameOutside_copy _ _ _ addr (by simp only [PAGE_SIZE] at *; omega)
  obtain ⟨-, same⟩ := owned.write_mapped based mapped fits
  intro addr addrBelow
  by_cases samePage : addr / PAGE_SIZE = virt / PAGE_SIZE
  · have isFrame := (leaf_congr ram root samePage).trans mapped
    rw [userByte_of_leaf ((same root based _ (length_pagePath addr)).trans isFrame),
      userByte_of_leaf isFrame]
    dsimp only [ByteMemory.copy]
    by_cases inData : virt ≤ addr ∧ addr < virt + data.length
    · rw [if_pos inData, if_pos (by simp only [PAGE_SIZE] at *; omega),
        List.getElem?_eq_getElem (by simp only [PAGE_SIZE] at *; omega), Option.getD_some,
        List.getElem?_eq_getElem (by omega)]
      congr 2
      simp only [PAGE_SIZE] at *
      omega
    · rw [if_neg inData]
      split
      · rw [List.getElem?_eq_none (by simp only [PAGE_SIZE] at *; omega), Option.getD_none]
      · rfl
  · rw [if_neg (by simp only [PAGE_SIZE] at *; omega)]
    refine untouched.userByte based fun sameFrame => samePage ?_
    have samePath := congrArg Prod.snd
      (owned.page_eq (pageOf_pageAt based addr) member sameFrame mapped outside)
    have same := (pagePath_eq_iff addr virt).mp samePath
    simp only [PAGE_SIZE] at *
    omega

end

end Cyllor.Mm
