import Cyllor.Arch.Paging

/-!
Contract: the loops over pages that the memory calls share (`mm/mmap.rs`, `mm/shm.rs`,
`clone_user_address_space` of `sched/mod.rs`, `copy_to_user` of `arch/aarch64/paging.rs`).

Owns: mapping new frames with the way back when memory runs out, unmapping with and
without giving frames back, changing the protection of mapped pages, mapping the
frames of a buffer, copying to mapped pages and copying pages to another address space.
-/

namespace Cyllor.Mm

open Cyllor.Arch

def alignUp {σ ε : Type} (value : Nat) : Call σ ε Nat := do
  let sum ← word (value + PAGE_SIZE)
  return PAGE_SIZE * ((sum - 1) / PAGE_SIZE)

def roundUp (value : Nat) : Nat := PAGE_SIZE * ((value + PAGE_SIZE - 1) / PAGE_SIZE)

/-- `prot_to_page_attr`: protection bits 0, 1 and 2 stand for read, write and execute. -/
def protToPageAttr (prot : Nat) : PageAttr :=
  let readable := prot.testBit 0
  let writable := prot.testBit 1
  let executable := prot.testBit 2
  ⟨readable || writable || executable, writable, executable, true, false⟩

def writeFrame {ε : Type} (phys : Nat) (bytes : List UInt8) : RamCall ε Unit :=
  Call.modify fun ram => { ram with bytes := ram.bytes.copy phys bytes }

/-- The way back of `do_mmap` and `do_brk`: what a page is mapped to is given back, or the
frame meant for it when it is not mapped. -/
def giveBack {ε : Type} (root : Nat) : List (Nat × Nat) → RamCall ε Unit
  | [] => return ()
  | (virt, fallback) :: rest => do
      let found ← unmapUserPage root virt
      freePage (found.getD fallback)
      giveBack root rest

/-- Map `count` new frames from `base` on, of which `mapped` are done; whether there were
enough. The contents of a page are zeros under the given bytes. -/
def mapFresh {ε : Type} (root base : Nat) (attr : PageAttr) (contents : Nat → List UInt8) :
    (count : Nat) → (mapped : List (Nat × Nat)) → RamCall ε Bool
  | 0, _ => return true
  | count + 1, mapped => do
      let virt ← word (base + PAGE_SIZE * mapped.length)
      match ← allocPage with
      | none =>
        giveBack root mapped
        return false
      | some phys =>
        zeroFrame phys
        mapUserPage root virt phys attr
        writeFrame phys (contents mapped.length)
        mapFresh root base attr contents count (mapped ++ [(virt, phys)])

/-- Unmap `count` pages from `base` on; the frame of page `i` is given back if `frees i`. -/
def unmapRange {ε : Type} (root base : Nat) (frees : Nat → Bool) (count : Nat) : RamCall ε Unit :=
  Call.iterate (fun i _ => do
    let virt ← word (base + PAGE_SIZE * i)
    match ← unmapUserPage root virt with
    | some phys => if frees i then freePage phys else return ()
    | none => return ()) count ()

/-- The frames behind `count` pages from `base` on; an error when one is not mapped. -/
def framesOf {ε : Type} (error : ε) (root base : Nat) : (count : Nat) →
    RamCall ε (List (Nat × Nat))
  | 0 => return []
  | count + 1 => do
      let earlier ← framesOf error root base count
      let virt ← word (base + PAGE_SIZE * count)
      let found ← Call.gets fun ram => translateUserVa ram root virt
      let phys ← Call.ofOption error found
      return earlier ++ [(virt, PAGE_SIZE * (phys / PAGE_SIZE))]

/-- Map pages again to the frames they have. -/
def remap {ε : Type} (root : Nat) (attr : PageAttr) : List (Nat × Nat) → RamCall ε Unit
  | [] => return ()
  | (virt, phys) :: rest => do
      mapUserPage root virt phys attr
      remap root attr rest

/-- Map `count` pages from `base` on to the memory from `phys` on. -/
def mapBuffer {ε : Type} (root base phys : Nat) (attr : PageAttr) (count : Nat) :
    RamCall ε Unit :=
  Call.iterate (fun i _ => do
    let virt ← word (base + PAGE_SIZE * i)
    mapUserPage root virt (phys + PAGE_SIZE * i) attr) count ()

/-- `AddressSpace::copy_to_user`, page by page; `fuel` pages are enough for that many
bytes. -/
def copyOut (root : Nat) : (fuel virt : Nat) → List UInt8 → RamCall Unit Unit
  | 0, _, _ => return ()
  | fuel + 1, virt, data => do
      if data.isEmpty then return ()
      else
        let virt ← word virt
        let chunk := min (PAGE_SIZE - virt % PAGE_SIZE) data.length
        let found ← Call.gets fun ram => translate ram root virt
        let phys ← Call.ofOption () found
        writeFrame phys (data.take chunk)
        copyOut root fuel (virt + chunk) (data.drop chunk)

/-- Unmap a page and give its frame back. -/
def dropPage {ε : Type} (root virt : Nat) : RamCall ε Unit := do
  match ← unmapUserPage root virt with
  | some phys => freePage phys
  | none => return ()

/-- The way back of `clone_user_address_space`. -/
def dropPages {ε : Type} (root : Nat) : List Nat → RamCall ε Unit
  | [] => return ()
  | virt :: rest => do
      dropPage root virt
      dropPages root rest

def pageBytes (ram : Ram) (phys : Nat) : List UInt8 :=
  (List.range PAGE_SIZE).map fun offset => ram.bytes (phys + offset)

/-- Copy one page of the parent, if it is mapped; whether there was a frame for it. -/
def copyPage {ε : Type} (parentRoot childRoot : Nat) (attr : PageAttr) (virt : Nat) :
    RamCall ε (Option Bool) := do
  match ← Call.gets fun ram => translateUserVa ram parentRoot virt with
  | none => return some false
  | some parentPhys =>
    match ← allocPage with
    | none => return none
    | some childPhys =>
      let bytes ← Call.gets fun ram => pageBytes ram parentPhys
      writeFrame childPhys bytes
      mapUserPage childRoot virt childPhys attr
      return some true

/-- The loops of `clone_user_address_space` over the pages of the areas, given with the
attributes of their area; whether there were frames for all of them. -/
def copyPages {ε : Type} (parentRoot childRoot : Nat) :
    List (Nat × PageAttr) → (mapped : List Nat) → RamCall ε Bool
  | [], _ => return true
  | (virt, attr) :: rest, mapped => do
      match ← copyPage parentRoot childRoot attr virt with
      | none =>
        dropPages childRoot mapped
        return false
      | some copied =>
        copyPages parentRoot childRoot rest (if copied then mapped ++ [virt] else mapped)

end Cyllor.Mm
