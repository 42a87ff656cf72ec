import Cyllor.Base
import Cyllor.Lib.IntervalMap
import Cyllor.Lib.LabelledRun

/-!
Contract: the virtual memory areas of an address space (`mm/vmm.rs`).

Owns:
- `Vmm` with `map`, `unmap`, `mprotect` and `find`;
- `Vmm.WellFormed`, that areas are keyed by their start and disjoint, kept by every
  operation;
- what every operation does to the attributes that a lookup finds;
- when an operation keeps the file positions of the addresses that stay mapped.

The name of an area is opaque here: nothing in this file looks into it.
-/

namespace Cyllor.Mm

def PROT_READ : Nat := 1
def PROT_WRITE : Nat := 2
def PROT_EXEC : Nat := 4
def MAP_SHARED : Nat := 0x01
def MAP_PRIVATE : Nat := 0x02
def MAP_ANONYMOUS : Nat := 0x20

/-- `Vma`: the area of the addresses from `start` up to, not including, `stop`. -/
structure Vma (Name : Type) where
  start : Nat
  stop : Nat
  prot : Nat
  flags : Nat
  offset : Nat
  name : Option Name
deriving DecidableEq, Repr

/-- An area that is not anonymous is backed by a file. -/
def Vma.FileBacked {Name : Type} (vma : Vma Name) : Prop := vma.flags &&& MAP_ANONYMOUS = 0

/-- The file position of an address of an area; at the start of the area it is the offset
that `maps_string` prints. -/
def Vma.position {Name : Type} (vma : Vma Name) (addr : Nat) : Nat :=
  vma.offset + (addr - vma.start)

/-- The address is one of the area. -/
abbrev Vma.Holds {Name : Type} (vma : Vma Name) (addr : Nat) : Prop :=
  IntervalMap.Contains Vma.start Vma.stop vma addr

structure Vmm (Name : Type) where
  vmas : BTreeMap Nat (Vma Name)

namespace Vmm

variable {Name : Type} {vmm after : Vmm Name} {addr len : Nat} {vma : Vma Name}

def new : Vmm Name := ⟨∅⟩

/-- The keys of the areas that overlap `[start, stop)`, collected before any change. -/
def overlapping (vmas : BTreeMap Nat (Vma Name)) (start stop : Nat) : List Nat :=
  (vmas.toList.filter fun entry => entry.1 < stop ∧ start < entry.2.stop).map Prod.fst

/-- One round of the loop of `remove_range`: keep what lies left and right of the range. -/
def removeKey (start stop : Nat) (vmas : BTreeMap Nat (Vma Name)) (key : Nat) :
    BTreeMap Nat (Vma Name) :=
  match vmas[key]? with
  | none => vmas
  | some vma =>
    let removed := vmas.erase key
    let kept :=
      if vma.start < start then removed.insert vma.start { vma with stop := start } else removed
    if stop < vma.stop then kept.insert stop { vma with start := stop } else kept

def removeRange (vmm : Vmm Name) (start stop : Nat) : Vmm Name :=
  ⟨(overlapping vmm.vmas start stop).foldl (removeKey start stop) vmm.vmas⟩

def map (vmm : Vmm Name) (start stop prot flags offset : Nat) (name : Option Name) : Vmm Name :=
  ⟨(vmm.removeRange start stop).vmas.insert start ⟨start, stop, prot, flags, offset, name⟩⟩

/-- `Vmm::unmap`; the end of the range must not overflow. -/
def unmap (vmm : Vmm Name) (start len : Nat) : Option (Vmm Name) :=
  if start + len ≤ u64Max then some (vmm.removeRange start (start + len)) else none

/-- `Vmm::map_anon`; the end of the range must not overflow. -/
def mapAnon (vmm : Vmm Name) (start len prot : Nat) (name : Option Name) : Option (Vmm Name) :=
  if start + len ≤ u64Max then
    some (vmm.map start (start + len) prot (MAP_PRIVATE ||| MAP_ANONYMOUS) 0 name)
  else none

/-- One round of the loop of `mprotect`: split off the tails, then set the protection. -/
def protectKey (start stop prot : Nat) (vmas : BTreeMap Nat (Vma Name)) (key : Nat) :
    BTreeMap Nat (Vma Name) :=
  match vmas[key]? with
  | none => vmas
  | some vma =>
    let removed := vmas.erase key
    let (leftKept, trimmed) :=
      if vma.start < start then
        (removed.insert vma.start { vma with stop := start }, { vma with start := start })
      else (removed, vma)
    let (bothKept, middle) :=
      if stop < trimmed.stop then
        (leftKept.insert stop { trimmed with start := stop }, { trimmed with stop := stop })
      else (leftKept, trimmed)
    bothKept.insert middle.start { middle with prot := prot }

/-- `Vmm::mprotect`; the end of the range must not overflow. -/
def mprotect (vmm : Vmm Name) (start len prot : Nat) : Option (Vmm Name) :=
  let stop := start + len
  if stop ≤ u64Max then
    some ⟨(overlapping vmm.vmas start stop).foldl (protectKey start stop prot) vmm.vmas⟩
  else none

def find (vmm : Vmm Name) (addr : Nat) : Option (Vma Name) :=
  IntervalMap.find Vma.stop vmm.vmas addr

/-- Areas are keyed by their start, and no two of them share an address. -/
def WellFormed (vmm : Vmm Name) : Prop := IntervalMap.Disjoint Vma.start Vma.stop vmm.vmas

def Covers (vmm : Vmm Name) (vma : Vma Name) (addr : Nat) : Prop :=
  IntervalMap.Mem Vma.start vmm.vmas vma ∧ IntervalMap.Contains Vma.start Vma.stop vma addr

theorem wellFormed_new : (new : Vmm Name).WellFormed := IntervalMap.disjoint_empty

theorem WellFormed.find_eq_some (wellFormed : vmm.WellFormed) :
    vmm.find addr = some vma ↔ vmm.Covers vma addr :=
  IntervalMap.Disjoint.find_eq_some wellFormed

/-! ### Cutting areas -/

/-- The parts of an area on both sides of a range. -/
private def remnants (start stop : Nat) (vma : Vma Name) : List (Vma Name) :=
  (if vma.start < start then [{ vma with stop := start }] else []) ++
    if stop < vma.stop then [{ vma with start := stop }] else []

private theorem mem_remnants_iff {start stop : Nat} {part : Vma Name} :
    part ∈ remnants start stop vma ↔
      vma.start < start ∧ part = { vma with stop := start } ∨
        stop < vma.stop ∧ part = { vma with start := stop } := by
  unfold remnants
  rw [List.mem_append]
  split <;> split <;> simp [*]

/-- The part of an area inside a range, with a new protection. -/
private def middle (start stop prot : Nat) (vma : Vma Name) : Vma Name :=
  { vma with start := max vma.start start, stop := min vma.stop stop, prot := prot }

private theorem removeKey_eq_replace (start stop : Nat) :
    (removeKey start stop : BTreeMap Nat (Vma Name) → Nat → BTreeMap Nat (Vma Name)) =
      IntervalMap.replace Vma.start (remnants start stop) := by
  funext vmas key
  unfold removeKey IntervalMap.replace remnants
  cases vmas[key]? with
  | none => rfl
  | some vma =>
    dsimp only
    split <;> split <;> rfl

private theorem protectKey_eq_replace (start stop prot : Nat) :
    (protectKey start stop prot : BTreeMap Nat (Vma Name) → Nat → BTreeMap Nat (Vma Name)) =
      IntervalMap.replace Vma.start fun vma =>
        remnants start stop vma ++ [middle start stop prot vma] := by
  funext vmas key
  unfold protectKey IntervalMap.replace remnants middle
  cases vmas[key]? with
  | none => rfl
  | some vma =>
    dsimp only
    by_cases left : vma.start < start <;> by_cases right : stop < vma.stop <;>
      simp [left, right, Nat.le_of_lt, Nat.le_of_not_lt]

private def overlaps (vmm : Vmm Name) (start stop : Nat) : List (Vma Name) :=
  (vmm.vmas.toList.filter fun entry => entry.1 < stop ∧ start < entry.2.stop).map Prod.snd

section Overlaps

variable {vmm : Vmm Name} (wellFormed : vmm.WellFormed) (start stop : Nat)

include wellFormed

private theorem mem_overlaps (vma : Vma Name) :
    vma ∈ vmm.overlaps start stop ↔
      IntervalMap.Mem Vma.start vmm.vmas vma ∧ vma.start < stop ∧ start < vma.stop := by
  unfold overlaps
  simp only [List.mem_map, List.mem_filter, Bool.decide_and, Bool.and_eq_true, decide_eq_true_eq,
    Std.ExtTreeMap.mem_toList_iff_getElem?_eq_some, Prod.exists, exists_eq_right]
  constructor
  · rintro ⟨key, found, below, above⟩
    have isKey := wellFormed.keyed key vma found
    exact ⟨wellFormed.mem_of_getElem? found, by omega, above⟩
  · rintro ⟨member, below, above⟩
    exact ⟨vma.start, member, below, above⟩

private theorem overlapping_eq : overlapping vmm.vmas start stop =
    (vmm.overlaps start stop).map Vma.start := by
  unfold overlapping overlaps
  rw [List.map_map]
  refine List.map_congr_left ?_
  intro entry member
  have found := Std.ExtTreeMap.mem_toList_iff_getElem?_eq_some.mp (List.mem_filter.mp member).1
  exact (wellFormed.keyed _ _ found).symm

private theorem nodup_overlaps : (vmm.overlaps start stop).Nodup := by
  refine List.Nodup.of_map Vma.start ?_
  rw [← overlapping_eq wellFormed]
  refine List.Pairwise.map Prod.fst (fun _ _ => id) (List.Pairwise.filter _ ?_)
  refine Std.ExtTreeMap.distinct_keys_toList.imp ?_
  intro first second distinct same
  exact distinct (by rw [same]; exact Std.ReflCmp.compare_self)

end Overlaps

private theorem parts_remnants {start stop : Nat} (range : start ≤ stop)
    (below : vma.start < stop) (above : start < vma.stop) :
    IntervalMap.Parts Vma.start Vma.stop vma (remnants start stop vma) := by
  constructor
  · intro part member
    rcases mem_remnants_iff.mp member with ⟨left, rfl⟩ | ⟨right, rfl⟩
    · dsimp only
      omega
    · dsimp only
      omega
  · unfold remnants
    split <;> split <;> simp [IntervalMap.Contains]
    omega

private theorem parts_protected {start stop : Nat} (prot : Nat) (range : start < stop)
    (nonempty : vma.start < vma.stop) (below : vma.start < stop) (above : start < vma.stop) :
    IntervalMap.Parts Vma.start Vma.stop vma
      (remnants start stop vma ++ [middle start stop prot vma]) := by
  have sides := parts_remnants (Nat.le_of_lt range) below above
  constructor
  · intro part member
    rcases List.mem_append.mp member with inSides | isMiddle
    · exact sides.inside part inSides
    · obtain rfl := List.mem_singleton.mp isMiddle
      dsimp only [middle]
      omega
  · refine List.pairwise_append.mpr ⟨sides.apart, List.pairwise_singleton _ _, ?_⟩
    intro part inSides other isMiddle addr inPart inMiddle
    obtain rfl := List.mem_singleton.mp isMiddle
    simp only [IntervalMap.Contains, middle] at inPart inMiddle
    rcases mem_remnants_iff.mp inSides with ⟨left, rfl⟩ | ⟨right, rfl⟩
    · dsimp only at inPart
      omega
    · dsimp only at inPart
      omega

/-- The part of an area that holds an address after a cut at both ends of a range. -/
def piece (start stop addr : Nat) (vma : Vma Name) : Vma Name :=
  { vma with
    start := if addr < start then vma.start else
      if addr < stop then max vma.start start else max vma.start stop
    stop := if addr < start then min vma.stop start else
      if addr < stop then min vma.stop stop else vma.stop }

section Piece

variable {start stop addr : Nat} {vma : Vma Name}

private theorem piece_before (before : addr < start) (above : start < vma.stop) :
    piece start stop addr vma = { vma with stop := start } := by
  simp [piece, before, Nat.le_of_lt above]

private theorem piece_after (range : start ≤ stop) (after : stop ≤ addr)
    (below : vma.start < stop) : piece start stop addr vma = { vma with start := stop } := by
  simp [piece, Nat.not_lt.mpr after, Nat.not_lt.mpr (range.trans after), Nat.le_of_lt below]

private theorem piece_apart (range : start ≤ stop)
    (contains : vma.Holds addr) (apart : ¬ (vma.start < stop ∧ start < vma.stop)) :
    piece start stop addr vma = vma := by
  obtain ⟨lower, upper⟩ := contains
  by_cases before : addr < start
  · have short : vma.stop ≤ start := by omega
    simp [piece, before, short]
  · have long : stop ≤ vma.start := by omega
    simp [piece, before, Nat.not_lt.mpr (long.trans lower), long]

private theorem mem_remnants (range : start ≤ stop)
    (contains : vma.Holds addr) (below : vma.start < stop)
    (above : start < vma.stop) (satisfies : Vma Name → Prop) :
    (∃ part ∈ remnants start stop vma, part.Holds addr ∧ satisfies part) ↔
      ¬ (start ≤ addr ∧ addr < stop) ∧ satisfies (piece start stop addr vma) := by
  obtain ⟨lower, upper⟩ := contains
  simp only [mem_remnants_iff]
  constructor
  · rintro ⟨part, ⟨-, rfl⟩ | ⟨-, rfl⟩, inPart, holds⟩
    · rw [piece_before inPart.2 above]
      exact ⟨fun inside => absurd inPart.2 (Nat.not_lt.mpr inside.1), holds⟩
    · rw [piece_after range inPart.1 below]
      exact ⟨fun inside => absurd inPart.1 (Nat.not_le.mpr inside.2), holds⟩
  · rintro ⟨outside, holds⟩
    by_cases before : addr < start
    · rw [piece_before before above] at holds
      exact ⟨_, .inl ⟨by omega, rfl⟩, ⟨lower, before⟩, holds⟩
    · have after : stop ≤ addr := by omega
      rw [piece_after range after below] at holds
      exact ⟨_, .inr ⟨by omega, rfl⟩, ⟨after, upper⟩, holds⟩

end Piece

/-- The areas after those that overlap a range were replaced by parts of theirs. -/
private def cut (vmm : Vmm Name) (start stop : Nat) (parts : Vma Name → List (Vma Name)) :
    Vmm Name :=
  ⟨(overlapping vmm.vmas start stop).foldl (IntervalMap.replace Vma.start parts) vmm.vmas⟩

private theorem WellFormed.cut (wellFormed : vmm.WellFormed) {start stop : Nat}
    {parts : Vma Name → List (Vma Name)}
    (isParts : ∀ vma, vma.start < vma.stop → vma.start < stop → start < vma.stop →
      IntervalMap.Parts Vma.start Vma.stop vma (parts vma)) :
    (vmm.cut start stop parts).WellFormed ∧ ∀ {addr} {satisfies result : Vma Name → Prop},
      (∀ vma, vma.Holds addr → vma.start < stop → start < vma.stop →
        ((∃ part ∈ parts vma, part.Holds addr ∧ satisfies part) ↔ result vma)) →
      (∀ vma, vma.Holds addr → ¬ (vma.start < stop ∧ start < vma.stop) →
        (satisfies vma ↔ result vma)) →
      ((∃ vma, (vmm.cut start stop parts).Covers vma addr ∧ satisfies vma) ↔
        ∃ vma, vmm.Covers vma addr ∧ result vma) := by
  unfold Vmm.cut
  have overlap := mem_overlaps wellFormed start stop
  have members : ∀ vma ∈ vmm.overlaps start stop, IntervalMap.Mem Vma.start vmm.vmas vma :=
    fun vma listed => ((overlap vma).mp listed).1
  have partsOf : ∀ vma ∈ vmm.overlaps start stop,
      IntervalMap.Parts Vma.start Vma.stop vma (parts vma) := by
    intro vma listed
    obtain ⟨member, below, above⟩ := (overlap vma).mp listed
    exact isParts vma (wellFormed.nonempty vma member) below above
  rw [overlapping_eq wellFormed]
  refine ⟨(wellFormed.replaceAll members (nodup_overlaps wellFormed _ _) partsOf).1,
    fun {addr satisfies _} meets apart => ?_⟩
  unfold Covers
  simp only [and_assoc]
  refine (wellFormed.exists_replaceAll members (nodup_overlaps wellFormed _ _) partsOf addr
    satisfies).trans (exists_congr fun vma => ?_)
  refine and_congr_right fun member => and_congr_right fun contains => ?_
  by_cases listed : vma ∈ vmm.overlaps start stop
  · obtain ⟨-, below, above⟩ := (overlap vma).mp listed
    simp only [listed, true_and, not_true_eq_false, false_and, or_false]
    exact meets vma contains below above
  · simp only [listed, false_and, not_false_eq_true, true_and, false_or]
    exact apart vma contains fun meets => listed ((overlap vma).mpr ⟨member, meets⟩)

private theorem outside_of_apart {start stop : Nat}
    (contains : vma.Holds addr) (apart : ¬ (vma.start < stop ∧ start < vma.stop)) :
    ¬ (start ≤ addr ∧ addr < stop) :=
  fun inside => apart ⟨contains.1.trans_lt inside.2, inside.1.trans_lt contains.2⟩

private theorem removeRange_eq_cut (start stop : Nat) :
    vmm.removeRange start stop = vmm.cut start stop (remnants start stop) := by
  rw [removeRange, removeKey_eq_replace, cut]

theorem WellFormed.removeRange (wellFormed : vmm.WellFormed) {start stop : Nat}
    (range : start ≤ stop) : (vmm.removeRange start stop).WellFormed := by
  rw [removeRange_eq_cut]
  exact (wellFormed.cut fun vma _ => parts_remnants range).1

theorem WellFormed.covers_removeRange (wellFormed : vmm.WellFormed) {start stop : Nat}
    (range : start ≤ stop) (addr : Nat) (satisfies : Vma Name → Prop) :
    (∃ vma, (vmm.removeRange start stop).Covers vma addr ∧ satisfies vma) ↔
      ¬ (start ≤ addr ∧ addr < stop) ∧
        ∃ vma, vmm.Covers vma addr ∧ satisfies (piece start stop addr vma) := by
  rw [removeRange_eq_cut, (wellFormed.cut fun vma _ => parts_remnants range).2
    (fun vma contains below above => mem_remnants range contains below above satisfies)]
  · simp only [and_left_comm (a := Covers _ _ _), exists_and_left]
  · intro vma contains apart
    rw [piece_apart range contains apart]
    exact (and_iff_right (outside_of_apart contains apart)).symm

section

variable {start stop : Nat} (wellFormed : vmm.WellFormed) (range : start < stop)
  (prot flags offset : Nat) (name : Option Name)

include wellFormed range prot flags offset name

private theorem WellFormed.map_spec :
    (vmm.map start stop prot flags offset name).WellFormed ∧
      ∀ vma, IntervalMap.Mem Vma.start (vmm.map start stop prot flags offset name).vmas vma ↔
        vma = ⟨start, stop, prot, flags, offset, name⟩ ∨
          IntervalMap.Mem Vma.start (vmm.removeRange start stop).vmas vma := by
  have removed := wellFormed.removeRange (Nat.le_of_lt range)
  refine removed.insert (show Vma.start (⟨start, stop, prot, flags, offset, name⟩ : Vma Name) <
    Vma.stop ⟨start, stop, prot, flags, offset, name⟩ from range) ?_
  intro vma addr member contains inside
  exact ((wellFormed.covers_removeRange (Nat.le_of_lt range) addr fun _ => True).mp
    ⟨vma, ⟨member, contains⟩, trivial⟩).1 inside

theorem WellFormed.map : (vmm.map start stop prot flags offset name).WellFormed :=
  (wellFormed.map_spec range prot flags offset name).1

/-- What covers an address after a range was mapped: the new area inside the range. -/
theorem WellFormed.covers_map (addr : Nat) (satisfies : Vma Name → Prop) :
    (∃ vma, (vmm.map start stop prot flags offset name).Covers vma addr ∧ satisfies vma) ↔
      if start ≤ addr ∧ addr < stop then satisfies ⟨start, stop, prot, flags, offset, name⟩
      else ∃ vma, vmm.Covers vma addr ∧ satisfies (piece start stop addr vma) := by
  have removed := wellFormed.covers_removeRange (Nat.le_of_lt range) addr satisfies
  have either : (∃ vma, (vmm.map start stop prot flags offset name).Covers vma addr ∧
        satisfies vma) ↔
      (start ≤ addr ∧ addr < stop) ∧ satisfies ⟨start, stop, prot, flags, offset, name⟩ ∨
        ∃ vma, (vmm.removeRange start stop).Covers vma addr ∧ satisfies vma := by
    simp only [Covers, IntervalMap.Contains, and_assoc, or_and_right, exists_or, exists_eq_left,
      (wellFormed.map_spec range prot flags offset name).2]
  rw [either, removed]
  split
  case isTrue inside => simp [inside]
  case isFalse outside => simp [outside]

end

theorem WellFormed.unmap (wellFormed : vmm.WellFormed) {start : Nat}
    (unmapped : vmm.unmap start len = some after) :
    after.WellFormed ∧ ∀ addr (satisfies : Vma Name → Prop),
      ((∃ vma, after.Covers vma addr ∧ satisfies vma) ↔
        ¬ (start ≤ addr ∧ addr < start + len) ∧
          ∃ vma, vmm.Covers vma addr ∧ satisfies (piece start (start + len) addr vma)) := by
  unfold Vmm.unmap at unmapped
  split at unmapped
  · obtain rfl := Option.some.inj unmapped
    exact ⟨wellFormed.removeRange (Nat.le_add_right _ _),
      wellFormed.covers_removeRange (Nat.le_add_right _ _)⟩
  · cases unmapped

section Protect

variable {vmm after : Vmm Name} {start len prot : Nat}

private theorem mem_protected {stop : Nat} (range : start ≤ stop)
    (contains : vma.Holds addr) (below : vma.start < stop)
    (above : start < vma.stop) (satisfies : Vma Name → Prop) :
    (∃ part ∈ remnants start stop vma ++ [middle start stop prot vma],
        part.Holds addr ∧ satisfies part) ↔
      if start ≤ addr ∧ addr < stop then satisfies (piece start stop addr { vma with prot := prot })
      else satisfies (piece start stop addr vma) := by
  have sides := mem_remnants range contains below above satisfies
  have inMiddle : (middle start stop prot vma).Holds addr ↔
      start ≤ addr ∧ addr < stop := by
    obtain ⟨lower, upper⟩ := contains
    simp only [IntervalMap.Contains, middle, Nat.max_le, Nat.lt_min]
    omega
  simp only [List.mem_append, List.mem_singleton, or_and_right, exists_or, exists_eq_left, sides,
    inMiddle]
  split
  · rename_i inside
    simp [inside, middle, piece, Nat.not_lt.mpr inside.1]
  · rename_i outside
    simp [outside]

theorem WellFormed.mprotect (wellFormed : vmm.WellFormed) (nonempty : 0 < len)
    (changed : vmm.mprotect start len prot = some after) :
    after.WellFormed ∧ ∀ addr (satisfies : Vma Name → Prop),
      ((∃ vma, after.Covers vma addr ∧ satisfies vma) ↔
        ∃ vma, vmm.Covers vma addr ∧
          if start ≤ addr ∧ addr < start + len then
            satisfies (piece start (start + len) addr { vma with prot := prot })
          else satisfies (piece start (start + len) addr vma)) := by
  unfold Vmm.mprotect at changed
  dsimp only at changed
  split at changed
  case isFalse => cases changed
  case isTrue inRange =>
    obtain rfl := Option.some.inj changed
    have range : start < start + len := by omega
    rw [protectKey_eq_replace]
    have cut := wellFormed.cut fun vma => parts_protected prot range
    refine ⟨cut.1, fun addr satisfies => cut.2
      (fun vma contains below above => mem_protected range.le contains below above satisfies) ?_⟩
    intro vma contains apart
    rw [if_neg (outside_of_apart contains apart), piece_apart range.le contains apart]

end Protect

/-! ### Refinement of a function from addresses to attributes -/

structure Attrs (Name : Type) where
  prot : Nat
  flags : Nat
  name : Option Name
deriving DecidableEq, Repr

/-- The attributes of the area that a lookup finds. -/
def attrsAt (vmm : Vmm Name) (addr : Nat) : Option (Attrs Name) :=
  (vmm.find addr).map fun vma => ⟨vma.prot, vma.flags, vma.name⟩

inductive VmmCall (Name : Type) where
  | map (start stop prot flags offset : Nat) (name : Option Name)
  | mapAnon (start len prot : Nat) (name : Option Name)
  | unmap (start len : Nat)
  | mprotect (start len prot : Nat)

/-- The range of a call is nonempty and its end is a machine word. -/
def VmmCall.InRange : VmmCall Name → Prop
  | .map start stop _ _ _ _ => start < stop ∧ stop ≤ u64Max
  | .mapAnon start len _ _ => 0 < len ∧ start + len ≤ u64Max
  | .unmap start len => 0 < len ∧ start + len ≤ u64Max
  | .mprotect start len _ => 0 < len ∧ start + len ≤ u64Max

instance : (call : VmmCall Name) → Decidable call.InRange
  | .map _ _ _ _ _ _ => inferInstanceAs (Decidable (_ ∧ _))
  | .mapAnon _ _ _ _ => inferInstanceAs (Decidable (_ ∧ _))
  | .unmap _ _ => inferInstanceAs (Decidable (_ ∧ _))
  | .mprotect _ _ _ => inferInstanceAs (Decidable (_ ∧ _))

def perform (vmm : Vmm Name) : VmmCall Name → Option (Vmm Name)
  | .map start stop prot flags offset name => some (vmm.map start stop prot flags offset name)
  | .mapAnon start len prot name => vmm.mapAnon start len prot name
  | .unmap start len => vmm.unmap start len
  | .mprotect start len prot => vmm.mprotect start len prot

/-- What a call means for the attributes of an address. -/
def VmmCall.meaning (attrs : Nat → Option (Attrs Name)) (call : VmmCall Name) (addr : Nat) :
    Option (Attrs Name) :=
  match call with
  | .map start stop prot flags _ name =>
    if start ≤ addr ∧ addr < stop then some ⟨prot, flags, name⟩ else attrs addr
  | .mapAnon start len prot name =>
    if start ≤ addr ∧ addr < start + len then
      some ⟨prot, MAP_PRIVATE ||| MAP_ANONYMOUS, name⟩
    else attrs addr
  | .unmap start len => if start ≤ addr ∧ addr < start + len then none else attrs addr
  | .mprotect start len prot =>
    if start ≤ addr ∧ addr < start + len then
      (attrs addr).map fun found => { found with prot := prot }
    else attrs addr

section

variable (wellFormed : vmm.WellFormed)

include wellFormed

theorem WellFormed.attrsAt_eq_some {attrs : Attrs Name} :
    vmm.attrsAt addr = some attrs ↔
      ∃ vma, vmm.Covers vma addr ∧ (⟨vma.prot, vma.flags, vma.name⟩ : Attrs Name) = attrs := by
  unfold attrsAt
  simp only [Option.map_eq_some_iff, wellFormed.find_eq_some]

theorem WellFormed.attrsAt_map {start stop : Nat} (range : start < stop) (prot flags offset : Nat)
    (name : Option Name) :
    (vmm.map start stop prot flags offset name).attrsAt =
      VmmCall.meaning vmm.attrsAt (.map start stop prot flags offset name) := by
  have stays := wellFormed.map range prot flags offset name
  refine funext fun addr => Option.ext fun attrs => ?_
  rw [stays.attrsAt_eq_some, wellFormed.covers_map range prot flags offset name addr]
  unfold VmmCall.meaning
  dsimp only
  split
  · rw [Option.some.injEq]
  · exact wellFormed.attrsAt_eq_some.symm

theorem WellFormed.attrsAt_unmap {start : Nat} (unmapped : vmm.unmap start len = some after) :
    after.WellFormed ∧ after.attrsAt = VmmCall.meaning vmm.attrsAt (.unmap start len) := by
  obtain ⟨stays, covers⟩ := wellFormed.unmap unmapped
  refine ⟨stays, funext fun addr => Option.ext fun attrs => ?_⟩
  rw [stays.attrsAt_eq_some, covers addr]
  unfold VmmCall.meaning
  dsimp only
  split
  · rename_i inside
    simp [inside]
  · rename_i outside
    rw [wellFormed.attrsAt_eq_some]
    exact and_iff_right outside

theorem WellFormed.attrsAt_mprotect {start prot : Nat} (nonempty : 0 < len)
    (changed : vmm.mprotect start len prot = some after) :
    after.WellFormed ∧ after.attrsAt = VmmCall.meaning vmm.attrsAt (.mprotect start len prot) := by
  obtain ⟨stays, covers⟩ := wellFormed.mprotect nonempty changed
  refine ⟨stays, funext fun addr => Option.ext fun attrs => ?_⟩
  rw [stays.attrsAt_eq_some, covers addr]
  unfold VmmCall.meaning
  dsimp only
  split
  · unfold attrsAt piece
    simp only [Option.map_map, Option.map_eq_some_iff, wellFormed.find_eq_some,
      Function.comp_apply]
  · exact wellFormed.attrsAt_eq_some.symm

/-- One call: it returns, the areas stay well formed, and the attributes change as the
call means. -/
theorem WellFormed.perform {call : VmmCall Name} (inRange : call.InRange) :
    ∃ after, vmm.perform call = some after ∧ after.WellFormed ∧
      after.attrsAt = VmmCall.meaning vmm.attrsAt call := by
  cases call with
  | map start stop prot flags offset name =>
    exact ⟨_, rfl, wellFormed.map inRange.1 prot flags offset name,
      wellFormed.attrsAt_map inRange.1 prot flags offset name⟩
  | mapAnon start len prot name =>
    have range : start < start + len := Nat.lt_add_of_pos_right inRange.1
    exact ⟨_, if_pos inRange.2, wellFormed.map range _ _ 0 name,
      wellFormed.attrsAt_map range prot (MAP_PRIVATE ||| MAP_ANONYMOUS) 0 name⟩
  | unmap start len =>
    have returned : vmm.unmap start len = some (vmm.removeRange start (start + len)) :=
      if_pos inRange.2
    exact ⟨_, returned, wellFormed.attrsAt_unmap returned⟩
  | mprotect start len prot =>
    have returned : vmm.mprotect start len prot = some _ := if_pos inRange.2
    exact ⟨_, returned, wellFormed.attrsAt_mprotect inRange.1 returned⟩

end

/-- After every sequence of calls with nonempty ranges that do not overflow, areas are
keyed by their start, nonempty and disjoint, and a lookup finds at every address the
attributes that the calls mean. -/
theorem attrsAt_of_calls (calls : List (VmmCall Name)) (inRange : ∀ call ∈ calls, call.InRange) :
    ∃ vmm, LabelledRun.run perform (new : Vmm Name) calls = some vmm ∧ vmm.WellFormed ∧
      vmm.attrsAt = calls.foldl VmmCall.meaning fun _ => none := by
  suffices run : ∀ vmm : Vmm Name, vmm.WellFormed →
      ∃ after, LabelledRun.run Vmm.perform vmm calls = some after ∧ after.WellFormed ∧
        after.attrsAt = calls.foldl VmmCall.meaning vmm.attrsAt from
    run new wellFormed_new
  induction calls with
  | nil => exact fun vmm wellFormed => ⟨vmm, rfl, wellFormed, rfl⟩
  | cons call calls ih =>
    intro vmm wellFormed
    obtain ⟨next, performed, stays, means⟩ :=
      wellFormed.perform (inRange call List.mem_cons_self)
    obtain ⟨final, reached, kept, refines⟩ := ih
      (fun other member => inRange other (List.mem_cons_of_mem _ member)) next stays
    refine ⟨final, LabelledRun.run_cons_eq_some.mpr ⟨next, performed, reached⟩, kept, ?_⟩
    rw [refines, means, List.foldl_cons]

def mapProtectUnmap : List (VmmCall Unit) :=
  [.map 0x1000 0x5000 (PROT_READ ||| PROT_WRITE) (MAP_PRIVATE ||| MAP_ANONYMOUS) 0 none,
    .mprotect 0x2000 0x1000 PROT_READ, .unmap 0x3000 0x1000]

theorem attrsAt_mapProtectUnmap :
    ∃ vmm, LabelledRun.run perform new mapProtectUnmap = some vmm ∧ vmm.WellFormed ∧
      [0x0fff, 0x1000, 0x2fff, 0x3000, 0x4000].map vmm.attrsAt =
        [none, some ⟨3, 0x22, none⟩, some ⟨1, 0x22, none⟩, none, some ⟨3, 0x22, none⟩] := by
  obtain ⟨vmm, reached, wellFormed, refines⟩ := attrsAt_of_calls mapProtectUnmap (by decide)
  refine ⟨vmm, reached, wellFormed, ?_⟩
  rw [refines]
  decide

/-! ### File positions -/

def VmmCall.start : VmmCall Name → Nat
  | .map start _ _ _ _ _ | .mapAnon start _ _ _ | .unmap start _ | .mprotect start _ _ => start

def VmmCall.stop : VmmCall Name → Nat
  | .map _ stop _ _ _ _ => stop
  | .mapAnon start len _ _ | .unmap start len | .mprotect start len _ => start + len

/-- The call neither unmaps the address nor maps it anew. -/
def VmmCall.Keeps (call : VmmCall Name) (addr : Nat) : Prop :=
  match call with
  | .mprotect _ _ _ => True
  | _ => ¬ (call.start ≤ addr ∧ addr < call.stop)

/-- No file-backed area has an end of the range after its start, where the address at that
end stays mapped: for `map` and `unmap` this is the end of the range, for `mprotect` also
its start. -/
def VmmCall.Uncut (call : VmmCall Name) (vmm : Vmm Name) : Prop :=
  ∀ vma, IntervalMap.Mem Vma.start vmm.vmas vma → vma.FileBacked →
    ∀ edge ∈ [call.start, call.stop], call.Keeps edge → ¬ (vma.start < edge ∧ edge < vma.stop)

/-- Every address that stays mapped by a file-backed area has the file position it had. -/
def KeepsPositions (call : VmmCall Name) (vmm after : Vmm Name) : Prop :=
  ∀ addr before now, call.Keeps addr → vmm.find addr = some before → before.FileBacked →
    after.find addr = some now → now.FileBacked → now.position addr = before.position addr

section Positions

variable {vmm after : Vmm Name} {call : VmmCall Name} {addr : Nat}

theorem VmmCall.InRange.start_lt_stop (inRange : call.InRange) : call.start < call.stop := by
  cases call <;> simp only [VmmCall.start, VmmCall.stop, VmmCall.InRange] at inRange ⊢ <;> omega

theorem VmmCall.keeps_stop (call : VmmCall Name) : call.Keeps call.stop := by
  cases call <;> simp [VmmCall.Keeps]

theorem VmmCall.Keeps.keeps_start (keeps : call.Keeps addr) (lower : call.start ≤ addr)
    (upper : addr < call.stop) : call.Keeps call.start := by
  cases call with
  | mprotect => trivial
  | _ => exact absurd ⟨lower, upper⟩ keeps

/-- An address that a call keeps is found in a piece of the area that held it. -/
theorem WellFormed.covers_perform (wellFormed : vmm.WellFormed) (inRange : call.InRange)
    (performed : vmm.perform call = some after) (keeps : call.Keeps addr)
    (satisfies : Vma Name → Prop)
    (blind : ∀ vma prot, satisfies { vma with prot := prot } ↔ satisfies vma) :
    (∃ vma, after.Covers vma addr ∧ satisfies vma) ↔
      ∃ vma, vmm.Covers vma addr ∧ satisfies (piece call.start call.stop addr vma) := by
  have range := inRange.start_lt_stop
  cases call with
  | map start stop prot flags offset name =>
    obtain rfl := Option.some.inj performed
    exact (wellFormed.covers_map range prot flags offset name addr satisfies).trans
      (iff_of_eq (if_neg keeps))
  | mapAnon start len prot name =>
    obtain rfl := Option.some.inj ((if_pos inRange.2).symm.trans performed)
    exact (wellFormed.covers_map range _ _ _ _ addr satisfies).trans (iff_of_eq (if_neg keeps))
  | unmap start len =>
    exact ((wellFormed.unmap performed).2 addr satisfies).trans (and_iff_right keeps)
  | mprotect start len prot =>
    refine ((wellFormed.mprotect inRange.1 performed).2 addr satisfies).trans ?_
    refine exists_congr fun vma => and_congr_right fun _ => ?_
    split
    · exact blind (piece start (start + len) addr vma) prot
    · exact Iff.rfl

/-- A piece that begins where its area does has the area's file positions. -/
theorem position_piece_eq (call : VmmCall Name) (lower : vma.start ≤ addr)
    (begins : (piece call.start call.stop addr vma).start ≤ addr) :
    (piece call.start call.stop addr vma).position addr = vma.position addr ↔
      (piece call.start call.stop addr vma).start = vma.start := by
  change vma.offset + (addr - _) = vma.offset + (addr - _) ↔ _
  omega

theorem VmmCall.Uncut.piece_start (uncut : call.Uncut vmm) (covers : vmm.Covers vma addr)
    (fileBacked : vma.FileBacked) (keeps : call.Keeps addr) :
    (piece call.start call.stop addr vma).start = vma.start := by
  obtain ⟨member, lower, upper⟩ := covers
  have atStart := uncut vma member fileBacked call.start (by simp)
  have atStop := uncut vma member fileBacked call.stop (by simp) call.keeps_stop
  unfold piece
  dsimp only
  split
  · rfl
  · split
    · have startKept := atStart (keeps.keeps_start (by omega) ‹_›)
      omega
    · omega

/-- A call keeps the file positions of all addresses that stay mapped exactly when it cuts no
file-backed area: a piece that begins inside its area has the offset of the whole area. -/
theorem keepsPositions_iff (wellFormed : vmm.WellFormed) (inRange : call.InRange) :
    ∃ after, vmm.perform call = some after ∧
      (KeepsPositions call vmm after ↔ call.Uncut vmm) := by
  obtain ⟨after, performed, stays, -⟩ := wellFormed.perform inRange
  have range := inRange.start_lt_stop
  refine ⟨after, performed, ?_⟩
  constructor
  · intro kept vma member fileBacked edge isEdge keeps inside
    have covers : vmm.Covers vma edge := ⟨member, Nat.le_of_lt inside.1, inside.2⟩
    have begins : (piece call.start call.stop edge vma).start = edge := by
      unfold piece
      dsimp only
      rcases List.mem_pair.mp isEdge with rfl | rfl
      · rw [if_neg (Nat.lt_irrefl _), if_pos range]
        omega
      · rw [if_neg (by omega), if_neg (Nat.lt_irrefl _)]
        omega
    obtain ⟨now, nowCovers, sameFlags, sameOffset, nowStart⟩ :=
      (wellFormed.covers_perform inRange performed keeps
        (fun now => now.flags = vma.flags ∧ now.offset = vma.offset ∧ now.start = edge)
        fun _ _ => Iff.rfl).mpr ⟨vma, covers, rfl, rfl, begins⟩
    have same := kept edge vma now keeps (wellFormed.find_eq_some.mpr covers) fileBacked
      (stays.find_eq_some.mpr nowCovers) (by rwa [Vma.FileBacked, sameFlags])
    unfold Vma.position at same
    omega
  · intro uncut addr before now keeps found fileBacked foundNow _
    have covers := wellFormed.find_eq_some.mp found
    obtain ⟨vma, vmaCovers, same⟩ := (wellFormed.covers_perform inRange performed keeps
      (fun vma => vma.position addr = now.position addr)
      fun _ _ => Iff.rfl).mp ⟨now, stays.find_eq_some.mp foundNow, rfl⟩
    obtain rfl := Option.some.inj (found.symm.trans (wellFormed.find_eq_some.mpr vmaCovers))
    rw [← same]
    have begins := uncut.piece_start covers fileBacked keeps
    exact (position_piece_eq call covers.2.1 (begins ▸ covers.2.1)).mpr begins

end Positions

theorem keepsPositions_unmap_last :
    ∃ after : Vmm Unit,
      (new.map 0x1000 0x5000 PROT_READ MAP_PRIVATE 0 none).perform (.unmap 0x4000 0x1000) =
          some after ∧
        KeepsPositions (.unmap 0x4000 0x1000)
          (new.map 0x1000 0x5000 PROT_READ MAP_PRIVATE 0 none) after := by
  have wellFormed : (new.map 0x1000 0x5000 PROT_READ MAP_PRIVATE 0 none : Vmm Unit).WellFormed :=
    wellFormed_new.map (by decide) _ _ _ _
  obtain ⟨after, performed, kept⟩ :=
    keepsPositions_iff wellFormed
      (by decide : (VmmCall.unmap 0x4000 0x1000 : VmmCall Unit).InRange)
  refine ⟨after, performed, kept.mpr ?_⟩
  intro vma member _ edge isEdge keeps inside
  have covers := (wellFormed_new.covers_map (by decide) PROT_READ MAP_PRIVATE 0 none edge
    (· = vma)).mp ⟨vma, ⟨member, Nat.le_of_lt inside.1, inside.2⟩, rfl⟩
  split at covers
  · rcases List.mem_pair.mp isEdge with rfl | rfl
    · exact keeps ⟨Nat.le_refl _, by decide⟩
    · simp_all [VmmCall.stop]
  · obtain ⟨none, ⟨absent, -⟩, -⟩ := covers
    simp [IntervalMap.Mem, new] at absent

/-- Unmap the second of four pages of a file: the third page gets the position of the first. -/
theorem positions_lost_of_unmap :
    ∃ vmm after : Vmm Unit,
      vmm = new.map 0x1000 0x5000 PROT_READ MAP_PRIVATE 0 none ∧ vmm.WellFormed ∧
        (VmmCall.unmap 0x2000 0x1000 : VmmCall Unit).InRange ∧
        vmm.perform (.unmap 0x2000 0x1000) = some after ∧
        (vmm.find 0x3000).map (·.position 0x3000) = some 0x2000 ∧
        (after.find 0x3000).map (·.position 0x3000) = some 0 ∧
        ¬ KeepsPositions (.unmap 0x2000 0x1000) vmm after := by
  refine ⟨_, _, rfl, wellFormed_new.map (by decide) _ _ _ _, by decide, rfl,
    by decide +kernel, by decide +kernel, ?_⟩
  intro kept
  have same := kept 0x3000 ⟨0x1000, 0x5000, PROT_READ, MAP_PRIVATE, 0, none⟩
    ⟨0x3000, 0x5000, PROT_READ, MAP_PRIVATE, 0, none⟩ (by simp [VmmCall.Keeps, VmmCall.stop])
    (by decide +kernel) rfl (by decide +kernel) rfl
  exact absurd same (by decide)

end Vmm

end Cyllor.Mm
