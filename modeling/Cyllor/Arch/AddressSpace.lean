import Cyllor.Arch.PagingFacts
import Cyllor.Lib.LabelledRun

/-!
Contract: an address space is a map from pages to frames.

Owns:
- `AddressSpace::new`;
- sessions of `map_page` and `unmap_page` on one address space, between which the rest
  of the kernel may use the allocator and the memory that is not part of the tables;
- `pagesOf`, the map that the calls of a session describe;
- that `translate` is that map.
-/

namespace Cyllor.Arch

open Cyllor.Mm LinkForest
open Call (wp_of_succeeds)

/-- `AddressSpace::new`, with the root of the new tables. -/
def newAddressSpace {ε : Type} : RamCall ε (Option Nat) := allocTablePage

inductive SpaceCall where
  | mapPage (virt phys : Nat) (attr : PageAttr)
  | unmapPage (virt : Nat)
  /-- The rest of the kernel leaves memory in another state. -/
  | elsewhere (next : Ram)

inductive SpaceReply where
  | mapped (result : Except Unit Unit)
  | unmapped (frame : Option Nat)
  | nothing

/-- Memory, and the calls so far with what they returned; the latest comes first. -/
structure Session where
  ram : Ram
  log : List (SpaceCall × SpaceReply)

def Session.step (root : Nat) (session : Session) (call : SpaceCall) : Option Session :=
  match call with
  | .mapPage virt phys attr =>
    (Arch.mapPage root virt phys attr session.ram).map fun (result, ram) =>
      ⟨ram, (call, .mapped result) :: session.log⟩
  | .unmapPage virt =>
    ((Arch.unmapPage root virt : RamCall Unit (Option Nat)) session.ram).map fun (result, ram) =>
      ⟨ram, (call, .unmapped (result.toOption.getD none)) :: session.log⟩
  | .elsewhere next => some ⟨next, (call, .nothing) :: session.log⟩

/-- The frame of the last `map_page` of a page that succeeded and that no `unmap_page`
of it follows. -/
def pagesOf : List (SpaceCall × SpaceReply) → (page : Nat) → Option Nat
  | [], _ => none
  | (.mapPage virt phys _, .mapped (.ok _)) :: earlier, page =>
    if page = virt / PAGE_SIZE then some phys else pagesOf earlier page
  | (.unmapPage virt, _) :: earlier, page =>
    if page = virt / PAGE_SIZE then none else pagesOf earlier page
  | _ :: earlier, page => pagesOf earlier page

/-- The tables keep their contents, and none of them is free. -/
def KeepsTables (root : Nat) (ram next : Ram) : Prop :=
  ∀ path : List Index, path.length < 4 → ∀ table, walk (link ram) root path = some table →
    ¬ next.pmm.IsFree table ∧
      ∀ offset < PAGE_SIZE, next.bytes (table + offset) = ram.bytes (table + offset)

/-- Addresses are below the end of the address space, frames are whole frames, and the
rest of the kernel does not touch the tables. -/
def Session.Permits (root : Nat) (session : Session) : SpaceCall → Prop
  | .mapPage virt phys _ => virt < 2 ^ 48 ∧ phys % PAGE_SIZE = 0 ∧ phys < 2 ^ 48
  | .unmapPage virt => virt < 2 ^ 48
  | .elsewhere next => KeepsTables root session.ram next

/-! ### Pages and their paths -/

theorem pagePath_inj {virt other : Nat} (inside : virt < 2 ^ 48) (insideOther : other < 2 ^ 48) :
    pagePath virt = pagePath other ↔ virt / PAGE_SIZE = other / PAGE_SIZE := by
  rw [pagePath_eq_iff]
  simp only [PAGE_SIZE]
  omega

theorem LeafSet.leaf_eq {root virt : Nat} {frame : Option Nat} {ram ram' : Ram}
    (set : LeafSet {root} root virt frame ram ram') (inside : virt < 2 ^ 48) {other : Nat}
    (insideOther : other < 2 ^ 48) :
    leaf ram' root other =
      if other / PAGE_SIZE = virt / PAGE_SIZE then frame else leaf ram root other := by
  split
  · rename_i same
    rw [leaf, (pagePath_inj insideOther inside).mpr same]
    exact set.1
  · rename_i different
    refine set.2 root rfl (pagePath other) rfl ?_
    rintro ⟨-, same⟩
    exact different ((pagePath_inj insideOther inside).mp same)

/-! ### Sessions -/

/-- The tables are placed, and the pages are mapped as the calls describe. -/
def Session.Inv (root : Nat) (session : Session) : Prop :=
  ∃ place, Tables session.ram {root} place ∧
    ∀ virt < 2 ^ 48, leaf session.ram root virt = pagesOf session.log (virt / PAGE_SIZE)

theorem Tables.reached {ram : Ram} {roots : Set Nat} {place : Place}
    (tables : Tables ram roots place) :
    ∃ place', Tables ram roots place' ∧ ∀ node, (place' node).isSome →
      ∃ root ∈ roots, ∃ path : List Index, path.length < 4 ∧
        walk (link ram) root path = some node := by
  classical
  let Reached := fun node => ∃ root ∈ roots, ∃ path : List Index, path.length < 4 ∧
    walk (link ram) root path = some node
  have keeps : ∀ node, ((if Reached node then place node else none).isSome → Reached node) ∧
      ((if Reached node then place node else none).isSome → (place node).isSome) := by
    intro node
    split
    · rename_i isReached
      exact ⟨fun _ => isReached, id⟩
    · exact ⟨fun some => absurd some (by simp), fun some => absurd some (by simp)⟩
  refine ⟨fun node => if Reached node then place node else none, ⟨?_, ?_, ?_⟩, ?_⟩
  · intro root member path node below walked
    have isReached : Reached node := ⟨root, member, path, below, walked⟩
    exact (if_pos isReached).trans (tables.placed root member path node below walked)
  · exact fun node isPlaced => tables.frames node ((keeps node).2 isPlaced)
  · exact fun node isPlaced => tables.used node ((keeps node).2 isPlaced)
  · exact fun node => (keeps node).1

theorem Session.inv_new {ram start : Ram} {root : Nat}
    (opened : (newAddressSpace : RamCall Unit (Option Nat)) ram = some (.ok (some root), start)) :
    Session.Inv root ⟨start, []⟩ := by
  have specified : Call.wp (newAddressSpace : RamCall Unit (Option Nat)) (fun result ram' =>
      ∀ root, result = .ok (some root) → Session.Inv root ⟨ram', []⟩) ram := by
    rw [newAddressSpace]
    refine wp_allocTablePage (Tables.empty ram) (by rintro _ ⟨⟩) ?_
    rintro fresh ram' place - - tables - - bare _ ⟨⟩
    rw [insert_empty_eq] at tables
    exact ⟨place, tables, fun virt _ => bare virt⟩
  exact specified _ _ opened root rfl

theorem Session.inv_step {root : Nat} {session next : Session} {call : SpaceCall}
    (inv : session.Inv root) (permitted : session.Permits root call)
    (stepped : session.step root call = some next) : next.Inv root := by
  obtain ⟨place, tables, mapped⟩ := inv
  cases call with
  | mapPage virt phys attr =>
    obtain ⟨inside, aligned, below⟩ := permitted
    obtain ⟨⟨result, ram⟩, returned, rfl⟩ := Option.map_eq_some_iff.mp stepped
    obtain ⟨place', tables', -, outcome⟩ :=
      wp_mapPage tables (Set.mem_singleton root) virt phys attr result ram returned
    refine ⟨place', tables', fun other insideOther => ?_⟩
    cases result with
    | error _ => exact (outcome.1 root rfl _ rfl).trans (mapped other insideOther)
    | ok _ =>
      have whole : PAGE_SIZE * (phys % 2 ^ 48 / PAGE_SIZE) = phys := by
        rw [Nat.mod_eq_of_lt below, Nat.mul_div_cancel' (Nat.dvd_of_mod_eq_zero aligned)]
      rw [whole] at outcome
      rw [LeafSet.leaf_eq outcome inside insideOther, mapped other insideOther]
      rfl
  | unmapPage virt =>
    obtain ⟨⟨result, ram⟩, returned, rfl⟩ := Option.map_eq_some_iff.mp stepped
    obtain ⟨_, -, -, -, -, tables', -, set⟩ :=
      wp_of_succeeds (succeeds_unmapPage tables (Set.mem_singleton root) virt) result ram returned
    refine ⟨place, tables', fun other insideOther => ?_⟩
    rw [set.leafSet.leaf_eq permitted insideOther, mapped other insideOther]
    rfl
  | elsewhere ram =>
    obtain rfl := Option.some.inj stepped
    obtain ⟨place', tables', reached⟩ := tables.reached
    have keeps : ∀ node, (place' node).isSome → ¬ ram.pmm.IsFree node ∧
        ∀ offset < PAGE_SIZE, ram.bytes (node + offset) = session.ram.bytes (node + offset) := by
      intro node isPlaced
      obtain ⟨_, rfl, path, below, walked⟩ := reached node isPlaced
      exact permitted path below node walked
    obtain ⟨kept, same⟩ : Tables ram {root} place' ∧ SameLeaves {root} session.ram ram :=
      tables'.of_bytes (fun addr isPlaced => by
          have inFrame := (keeps _ isPlaced).2 (addr % PAGE_SIZE) (Nat.mod_lt _ (by decide))
          rwa [Nat.div_add_mod] at inFrame)
        (fun node isPlaced => (keeps node isPlaced).1)
    exact ⟨place', kept, fun other insideOther =>
      (same root rfl _ rfl).trans (mapped other insideOther)⟩

/-- In a session on a new address space, `translate` gives for every address the frame that
the calls so far map its page to, with the low bits of the address; a `map_page` that
fails changes no translation; and `unmap_page` returns the frame that `translate` gave. -/
theorem translate_of_session {ram start : Ram} {root : Nat} {calls : List SpaceCall}
    {final : Session}
    (opened : (newAddressSpace : RamCall Unit (Option Nat)) ram = some (.ok (some root), start))
    (permitted : LabelledRun.Guarded (Session.step root) (Session.Permits root) ⟨start, []⟩ calls)
    (reached : LabelledRun.run (Session.step root) ⟨start, []⟩ calls = some final) :
    (∀ virt < 2 ^ 48, translate final.ram root virt =
        (pagesOf final.log (virt / PAGE_SIZE)).map (· ||| virt % PAGE_SIZE)) ∧
      (∀ virt < 2 ^ 48, ∀ phys < 2 ^ 48, phys % PAGE_SIZE = 0 → ∀ attr after,
        mapPage root virt phys attr final.ram = some (.error (), after) →
          ∀ other, translate after root other = translate final.ram root other) ∧
      ∀ virt < 2 ^ 48, ∃ after, (unmapPage root virt : RamCall Unit (Option Nat)) final.ram =
        some (.ok (translate final.ram root (PAGE_SIZE * (virt / PAGE_SIZE))), after) := by
  obtain ⟨place, tables, mapped⟩ : final.Inv root :=
    LabelledRun.invariant_of_guarded (Session.Inv root)
      (fun inv permits stepped => Session.inv_step inv permits stepped)
      (Session.inv_new opened) permitted reached
  refine ⟨?_, ?_, ?_⟩
  · intro virt inside
    rw [translate_eq_leaf, mapped virt inside]
  · intro virt _ phys _ _ attr after failed other
    obtain ⟨-, -, -, same, -⟩ :=
      wp_mapPage tables (Set.mem_singleton root) virt phys attr _ _ failed
    rw [translate_eq_leaf, translate_eq_leaf, leaf, same root rfl _ rfl, leaf]
  · intro virt inside
    obtain ⟨_, after, returned, rfl, -⟩ :=
      succeeds_unmapPage tables (Set.mem_singleton root) virt
    refine ⟨after, returned.trans ?_⟩
    have base : PAGE_SIZE * (virt / PAGE_SIZE) / PAGE_SIZE = virt / PAGE_SIZE :=
      Nat.mul_div_cancel_left _ (by decide)
    have noOffset : PAGE_SIZE * (virt / PAGE_SIZE) % PAGE_SIZE = 0 := Nat.mul_mod_right _ _
    have lower : PAGE_SIZE * (virt / PAGE_SIZE) ≤ virt := Nat.mul_div_le _ _
    rw [translate_eq_leaf, noOffset, leaf, leaf,
      (pagePath_inj (lower.trans_lt inside) inside).mpr base]
    simp

private def fiveFrames : Ram where
  bytes := ByteMemory.fill (fun _ => 0) 0x2000 PAGE_SIZE 0xFF
  pmm := ⟨fun word => if word = 0 then ~~~ 0x1F#64 else BitVec.allOnes 64, 5, 5⟩
  events := []

/-- Two pages that share all but the lowest table are mapped, a third one finds no frame
for its tables, and the first is unmapped again. -/
private def fiveFramesCalls : List SpaceCall :=
  [.mapPage 0x400000 0x80000 .USER_RW, .mapPage 0x601000 0x81000 .USER_RO,
    .mapPage 0x40000000 0x82000 .USER_RW, .unmapPage 0x400000]

theorem translate_fiveFrames :
    ∃ start final, (newAddressSpace : RamCall Unit (Option Nat)) fiveFrames =
        some (.ok (some 0), start) ∧
      LabelledRun.run (Session.step 0) ⟨start, []⟩ fiveFramesCalls = some final ∧
      translate final.ram 0 0x601234 = some 0x81234 ∧ translate final.ram 0 0x400000 = none ∧
      translate final.ram 0 0x40000000 = none := by
  obtain ⟨start, opened, final, reached, second, first, third⟩ :
      ∃ start, (newAddressSpace : RamCall Unit (Option Nat)) fiveFrames =
          some (.ok (some 0), start) ∧
        ∃ final, LabelledRun.run (Session.step 0) ⟨start, []⟩ fiveFramesCalls = some final ∧
          pagesOf final.log (0x601234 / PAGE_SIZE) = some 0x81000 ∧
          pagesOf final.log (0x400000 / PAGE_SIZE) = none ∧
          pagesOf final.log (0x40000000 / PAGE_SIZE) = none := by
    decide +kernel
  have permitted : LabelledRun.Guarded (Session.step 0) (Session.Permits 0) ⟨start, []⟩
      fiveFramesCalls := LabelledRun.guarded_of_forall fun call member session => by
    simp only [fiveFramesCalls, List.mem_cons, List.not_mem_nil, or_false] at member
    rcases member with rfl | rfl | rfl | rfl <;> simp [Session.Permits, PAGE_SIZE]
  have translated := (translate_of_session opened permitted reached).1
  refine ⟨start, final, opened, reached, ?_, ?_, ?_⟩
  · rw [translated _ (by decide), second]
    rfl
  · rw [translated _ (by decide), first]
    rfl
  · rw [translated _ (by decide), third]
    rfl

end Cyllor.Arch
