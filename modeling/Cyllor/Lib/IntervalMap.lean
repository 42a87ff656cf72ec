import Mathlib.Tactic

/-!
Contract: an ordered map of half-open intervals that are keyed by their lower ends.

Owns:
- `Disjoint`, the invariant of such a map: keys are lower ends and no two intervals
  share an address;
- `find`, which looks at the last interval that starts at or below an address, and
  that it finds exactly the interval that contains the address;
- `replaceAll`, which cuts intervals into parts, and `insert`, with the intervals
  each of them leaves.
-/

namespace IntervalMap

universe u

variable {V : Type u}

abbrev Map (V : Type u) := Std.ExtTreeMap Nat V compare

variable (lo hi : V → Nat)

def Contains (interval : V) (addr : Nat) : Prop := lo interval ≤ addr ∧ addr < hi interval

def Mem (map : Map V) (interval : V) : Prop := map[lo interval]? = some interval

/-- Keys are lower ends, and no two intervals share an address. -/
structure Disjoint (map : Map V) : Prop where
  keyed : ∀ (key : Nat) interval, map[key]? = some interval → lo interval = key
  nonempty : ∀ interval, Mem lo map interval → lo interval < hi interval
  apart : ∀ first second addr, Mem lo map first → Mem lo map second →
    Contains lo hi first addr → Contains lo hi second addr → first = second

/-- The last interval that starts at or below the address, if it reaches above it. -/
def find (map : Map V) (addr : Nat) : Option V :=
  match (map.toList.filter fun entry => entry.1 ≤ addr).getLast? with
  | none => none
  | some entry => if addr < hi entry.2 then some entry.2 else none

/-- Replace the interval at a key by its parts. -/
def replace (parts : V → List V) (map : Map V) (key : Nat) : Map V :=
  match map[key]? with
  | none => map
  | some interval =>
    (parts interval).foldl (fun map part => map.insert (lo part) part) (map.erase key)

/-- Replace the intervals at some keys by their parts. -/
def replaceAll (parts : V → List V) (map : Map V) (keys : List Nat) : Map V :=
  keys.foldl (replace lo parts) map

variable {lo hi} {map : Map V}

theorem Disjoint.mem_of_getElem? (disjoint : Disjoint lo hi map) {key : Nat} {interval : V}
    (found : map[key]? = some interval) : Mem lo map interval := by
  rw [Mem, disjoint.keyed key interval found, found]

theorem disjoint_empty : Disjoint lo hi (∅ : Map V) where
  keyed := by simp
  nonempty := by simp [Mem]
  apart := by simp [Mem]

/-- A lookup finds exactly the interval that contains the address. -/
theorem Disjoint.find_eq_some (disjoint : Disjoint lo hi map) {addr : Nat} {interval : V} :
    find hi map addr = some interval ↔ Mem lo map interval ∧ Contains lo hi interval addr := by
  have listed : ∀ entry ∈ map.toList.filter fun entry => entry.1 ≤ addr,
      Mem lo map entry.2 ∧ lo entry.2 = entry.1 ∧ entry.1 ≤ addr := by
    intro entry member
    obtain ⟨inMap, below⟩ := List.mem_filter.mp member
    have found := Std.ExtTreeMap.mem_toList_iff_getElem?_eq_some.mp inMap
    exact ⟨disjoint.mem_of_getElem? found, disjoint.keyed _ _ found, by simpa using below⟩
  unfold find
  constructor
  · intro found
    split at found
    · cases found
    · rename_i entry last
      split at found
      · rename_i reaches
        obtain rfl := Option.some.inj found
        obtain ⟨member, key, below⟩ := listed entry (List.mem_of_getLast? last)
        exact ⟨member, by rw [key]; exact below, reaches⟩
      · cases found
  · rintro ⟨member, contains⟩
    have inList : (lo interval, interval) ∈ map.toList.filter fun entry => entry.1 ≤ addr := by
      refine List.mem_filter.mpr ⟨Std.ExtTreeMap.mem_toList_iff_getElem?_eq_some.mpr member, ?_⟩
      simpa using contains.1
    have ordered : (map.toList.filter fun entry => entry.1 ≤ addr).Pairwise
        fun first second => first.1 < second.1 := by
      refine List.Pairwise.filter _ ?_
      exact Std.ExtTreeMap.ordered_keys_toList.imp Nat.compare_eq_lt.mp
    obtain ⟨front, entry, split⟩ : ∃ front entry,
        map.toList.filter (fun entry => entry.1 ≤ addr) = front ++ [entry] :=
      ⟨_, _, (List.dropLast_append_getLast (List.ne_nil_of_mem inList)).symm⟩
    rw [split] at inList ordered listed
    -- a later interval would start inside the one that contains the address
    have isLast : (lo interval, interval) = entry := by
      rcases List.mem_append.mp inList with earlier | last
      · have before := (List.pairwise_append.mp ordered).2.2 _ earlier entry (by simp)
        obtain ⟨entryMember, key, below⟩ := listed entry (by simp)
        have start : Contains lo hi interval entry.1 := ⟨by omega, by have := contains.2; omega⟩
        have own : Contains lo hi entry.2 entry.1 :=
          ⟨by omega, by have := disjoint.nonempty _ entryMember; omega⟩
        have same := disjoint.apart _ _ _ member entryMember start own
        rw [same, key] at before
        exact absurd before (Nat.lt_irrefl _)
      · simpa using last
    rw [split, List.getLast?_concat, ← isLast]
    exact if_pos contains.2

/-! ### Cutting intervals into parts -/

structure Parts (lo hi : V → Nat) (interval : V) (parts : List V) : Prop where
  inside : ∀ part ∈ parts, lo interval ≤ lo part ∧ lo part < hi part ∧ hi part ≤ hi interval
  apart : parts.Pairwise fun first second => ∀ addr,
    Contains lo hi first addr → ¬ Contains lo hi second addr

private theorem getElem?_insertAll {parts : List V} (map : Map V)
    (distinct : parts.Pairwise fun first second => lo first ≠ lo second) (key : Nat) (value : V) :
    (parts.foldl (fun map part => map.insert (lo part) part) map)[key]? = some value ↔
      (value ∈ parts ∧ lo value = key) ∨
        (map[key]? = some value ∧ ∀ part ∈ parts, lo part ≠ key) := by
  induction parts generalizing map with
  | nil => simp
  | cons part parts ih =>
    obtain ⟨others, rest⟩ := List.pairwise_cons.mp distinct
    rw [List.foldl_cons, ih _ rest]
    by_cases same : lo part = key
    · subst same
      rw [Std.ExtTreeMap.getElem?_insert_self]
      constructor
      · rintro (⟨member, equal⟩ | ⟨equal, -⟩)
        · exact .inl ⟨List.mem_cons_of_mem _ member, equal⟩
        · obtain rfl := Option.some.inj equal
          exact .inl ⟨List.mem_cons_self, rfl⟩
      · rintro (⟨member, equal⟩ | ⟨-, none⟩)
        · rcases List.mem_cons.mp member with rfl | later
          · exact .inr ⟨rfl, fun other inRest => (others other inRest).symm⟩
          · exact .inl ⟨later, equal⟩
        · exact absurd rfl (none part List.mem_cons_self)
    · rw [Std.ExtTreeMap.getElem?_insert, if_neg (by simpa using same)]
      simp only [List.mem_cons, forall_eq_or_imp]
      constructor
      · rintro (⟨member, equal⟩ | ⟨found, none⟩)
        · exact .inl ⟨.inr member, equal⟩
        · exact .inr ⟨found, same, none⟩
      · rintro (⟨rfl | member, equal⟩ | ⟨found, -, none⟩)
        · exact absurd equal same
        · exact .inl ⟨member, equal⟩
        · exact .inr ⟨found, none⟩

private theorem Disjoint.exchange {map' : Map V} {new : List V} {kept : V → Prop}
    (disjoint : Disjoint lo hi map)
    (found : ∀ (key : Nat) value, map'[key]? = some value ↔
      (value ∈ new ∧ lo value = key) ∨ (map[key]? = some value ∧ kept value))
    (nonempty : ∀ part ∈ new, lo part < hi part)
    (apart : new.Pairwise fun first second => ∀ addr,
      Contains lo hi first addr → ¬ Contains lo hi second addr)
    (clear : ∀ part ∈ new, ∀ value addr, Mem lo map value → kept value →
      Contains lo hi part addr → ¬ Contains lo hi value addr) :
    Disjoint lo hi map' ∧
      ∀ value, Mem lo map' value ↔ value ∈ new ∨ (Mem lo map value ∧ kept value) := by
  have members : ∀ value, Mem lo map' value ↔
      value ∈ new ∨ (Mem lo map value ∧ kept value) := by
    intro value
    rw [Mem, found]
    exact or_congr (and_iff_left rfl) Iff.rfl
  refine ⟨⟨?_, ?_, ?_⟩, members⟩
  · intro key value isFound
    rcases (found key value).mp isFound with ⟨-, equal⟩ | ⟨old, -⟩
    · exact equal
    · exact disjoint.keyed _ _ old
  · intro value isMem
    rcases (members value).mp isMem with isNew | ⟨old, -⟩
    · exact nonempty value isNew
    · exact disjoint.nonempty _ old
  · intro first second addr isFirst isSecond inFirst inSecond
    rcases (members first).mp isFirst with firstNew | ⟨firstOld, firstKept⟩ <;>
      rcases (members second).mp isSecond with secondNew | ⟨secondOld, secondKept⟩
    · by_contra different
      have : Std.Symm fun left right : V =>
          ∀ addr, Contains lo hi left addr → ¬ Contains lo hi right addr :=
        ⟨fun _ _ apart addr inRight inLeft => apart addr inLeft inRight⟩
      exact apart.forall firstNew secondNew different addr inFirst inSecond
    · exact absurd inSecond (clear first firstNew second addr secondOld secondKept inFirst)
    · exact absurd inFirst (clear second secondNew first addr firstOld firstKept inSecond)
    · exact disjoint.apart _ _ addr firstOld secondOld inFirst inSecond

section

variable {parts : V → List V} {interval : V} (disjoint : Disjoint lo hi map)
  (member : Mem lo map interval) (cut : Parts lo hi interval (parts interval))

include disjoint member cut

theorem Disjoint.getElem?_replace (key : Nat) (value : V) :
    (replace lo parts map (lo interval))[key]? = some value ↔
      (value ∈ parts interval ∧ lo value = key) ∨ (map[key]? = some value ∧ value ≠ interval) := by
  have distinct : (parts interval).Pairwise fun first second => lo first ≠ lo second := by
    refine cut.apart.imp_of_mem ?_
    intro first second inFirst inSecond apart equal
    refine apart (lo first) ⟨le_refl _, (cut.inside first inFirst).2.1⟩ ?_
    rw [equal]
    exact ⟨le_refl _, (cut.inside second inSecond).2.1⟩
  have found : map[lo interval]? = some interval := member
  rw [replace, found]
  dsimp only
  rw [getElem?_insertAll _ distinct, Std.ExtTreeMap.getElem?_erase]
  refine or_congr Iff.rfl ?_
  by_cases same : lo interval = key
  · rw [if_pos (by simpa using same)]
    constructor
    · rintro ⟨impossible, -⟩
      cases impossible
    · rintro ⟨atKey, different⟩
      rw [← same, found] at atKey
      exact absurd (Option.some.inj atKey).symm different
  · rw [if_neg (by simpa using same)]
    constructor
    · rintro ⟨atKey, -⟩
      refine ⟨atKey, ?_⟩
      rintro rfl
      exact same (disjoint.keyed _ _ atKey)
    · rintro ⟨atKey, different⟩
      refine ⟨atKey, ?_⟩
      intro part inParts equal
      -- a part that starts where another interval starts shares that address with it
      have inside := cut.inside part inParts
      have valueMember := disjoint.mem_of_getElem? atKey
      have valueKey := disjoint.keyed _ _ atKey
      refine different (disjoint.apart _ _ key valueMember member ?_ ⟨by omega, by omega⟩)
      exact ⟨by omega, by have := disjoint.nonempty _ valueMember; omega⟩

theorem Disjoint.replace :
    Disjoint lo hi (replace lo parts map (lo interval)) ∧
      ∀ value, Mem lo (IntervalMap.replace lo parts map (lo interval)) value ↔
        value ∈ parts interval ∨ (Mem lo map value ∧ value ≠ interval) := by
  refine disjoint.exchange (disjoint.getElem?_replace member cut)
    (fun part isPart => (cut.inside part isPart).2.1) cut.apart ?_
  intro part isPart value addr isMem different inPart inValue
  have inside := cut.inside part isPart
  exact different (disjoint.apart _ _ addr isMem member inValue
    ⟨inside.1.trans inPart.1, inPart.2.trans_le inside.2.2⟩)

end

section

variable {parts : V → List V} {intervals : List V} (disjoint : Disjoint lo hi map)
  (members : ∀ interval ∈ intervals, Mem lo map interval) (nodup : intervals.Nodup)
  (cut : ∀ interval ∈ intervals, Parts lo hi interval (parts interval))

include disjoint members nodup cut

/-- Replacing several intervals by their parts: the invariant stays, and the
intervals are the parts of the replaced ones and the others. -/
theorem Disjoint.replaceAll :
    Disjoint lo hi (replaceAll lo parts map (intervals.map lo)) ∧
      ∀ value, Mem lo (replaceAll lo parts map (intervals.map lo)) value ↔
        (∃ interval ∈ intervals, value ∈ parts interval) ∨
          (Mem lo map value ∧ value ∉ intervals) := by
  induction intervals generalizing map with
  | nil => simpa [IntervalMap.replaceAll] using disjoint
  | cons interval intervals ih =>
    obtain ⟨fresh, rest⟩ := List.nodup_cons.mp nodup
    have member := members interval List.mem_cons_self
    have cutHead := cut interval List.mem_cons_self
    obtain ⟨replaced, memReplaced⟩ := disjoint.replace member cutHead
    have stillMembers : ∀ other ∈ intervals,
        Mem lo (IntervalMap.replace lo parts map (lo interval)) other := by
      intro other inRest
      refine (memReplaced other).mpr (.inr ⟨?_, ?_⟩)
      · exact members other (List.mem_cons_of_mem _ inRest)
      · rintro rfl
        exact fresh inRest
    obtain ⟨stays, intervalsAre⟩ := ih replaced stillMembers rest
      fun other inRest => cut other (List.mem_cons_of_mem _ inRest)
    refine ⟨stays, fun value => (intervalsAre value).trans ?_⟩
    rw [memReplaced]
    -- a part of the first interval is none of the later intervals
    have partFresh : value ∈ parts interval → value ∉ intervals := by
      intro isPart inRest
      have inside := cutHead.inside value isPart
      refine fresh ?_
      rw [disjoint.apart _ _ (lo value) member (members value (List.mem_cons_of_mem _ inRest))
        ⟨inside.1, inside.2.1.trans_le inside.2.2⟩ ⟨le_refl _, inside.2.1⟩]
      exact inRest
    simp only [List.mem_cons, exists_eq_or_imp, not_or]
    constructor
    · rintro (later | ⟨isPart | ⟨old, different⟩, notLater⟩)
      · exact .inl (.inr later)
      · exact .inl (.inl isPart)
      · exact .inr ⟨old, different, notLater⟩
    · rintro ((isPart | later) | ⟨old, different, notLater⟩)
      · exact .inr ⟨.inl isPart, partFresh isPart⟩
      · exact .inl later
      · exact .inr ⟨.inr ⟨old, different⟩, notLater⟩

/-- What contains an address after intervals were cut into parts. -/
theorem Disjoint.exists_replaceAll (addr : Nat) (satisfies : V → Prop) :
    (∃ value, Mem lo (IntervalMap.replaceAll lo parts map (intervals.map lo)) value ∧
        Contains lo hi value addr ∧ satisfies value) ↔
      ∃ value, Mem lo map value ∧ Contains lo hi value addr ∧
        ((value ∈ intervals ∧ ∃ part ∈ parts value, Contains lo hi part addr ∧ satisfies part) ∨
          (value ∉ intervals ∧ satisfies value)) := by
  have mem := (disjoint.replaceAll members nodup cut).2
  constructor
  · rintro ⟨value, isMem, contains, holds⟩
    rcases (mem value).mp isMem with ⟨interval, listed, isPart⟩ | ⟨old, unlisted⟩
    · have inside := (cut interval listed).inside value isPart
      exact ⟨interval, members interval listed,
        ⟨inside.1.trans contains.1, contains.2.trans_le inside.2.2⟩,
        .inl ⟨listed, value, isPart, contains, holds⟩⟩
    · exact ⟨value, old, contains, .inr ⟨unlisted, holds⟩⟩
  · rintro ⟨value, old, contains, ⟨listed, part, isPart, inPart, holds⟩ | ⟨unlisted, holds⟩⟩
    · exact ⟨part, (mem part).mpr (.inl ⟨value, listed, isPart⟩), inPart, holds⟩
    · exact ⟨value, (mem value).mpr (.inr ⟨old, unlisted⟩), contains, holds⟩

end

theorem Disjoint.insert (disjoint : Disjoint lo hi map) {interval : V}
    (nonempty : lo interval < hi interval)
    (apart : ∀ value addr, Mem lo map value → Contains lo hi value addr →
      ¬ Contains lo hi interval addr) :
    Disjoint lo hi (map.insert (lo interval) interval) ∧
      ∀ value, Mem lo (map.insert (lo interval) interval) value ↔
        value = interval ∨ Mem lo map value := by
  have free : ∀ value, map[lo interval]? ≠ some value := by
    intro value found
    have member := disjoint.mem_of_getElem? found
    have key := disjoint.keyed _ _ found
    refine apart value (lo interval) member ⟨by omega, ?_⟩ ⟨le_refl _, nonempty⟩
    have := disjoint.nonempty _ member
    omega
  have found : ∀ (key : Nat) value, (map.insert (lo interval) interval)[key]? = some value ↔
      (value ∈ [interval] ∧ lo value = key) ∨ (map[key]? = some value ∧ True) := by
    intro key value
    refine (getElem?_insertAll map (List.pairwise_singleton _ interval) key value).trans ?_
    refine or_congr Iff.rfl (and_congr_right fun old => iff_of_true ?_ trivial)
    intro part isPart equal
    obtain rfl := List.mem_singleton.mp isPart
    exact free value (equal ▸ old)
  have exchanged := disjoint.exchange found (by simpa using nonempty) (List.pairwise_singleton _ _)
    fun part isPart value addr isMem _ inPart inValue => by
      obtain rfl := List.mem_singleton.mp isPart
      exact apart value addr isMem inValue inPart
  simpa only [List.mem_singleton, and_true] using exchanged

end IntervalMap
