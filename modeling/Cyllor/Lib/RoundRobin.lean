import Mathlib.Data.List.Rotate
import Mathlib.Tactic

/-!
Contract: taking turns. A list of entries, each with the number of turns it had; the first one
has its turn and goes to the end.

Owns:
- `turn`, and `Level`, the shape that any number of turns from equal counts leads to: a front
  part that had as many turns as there were full rounds, and a back part that had one more;
- that the entries at the front in as many turns as there are entries are all of them.
-/

namespace RoundRobin

universe u

variable {Item : Type u}

/-- The first entry has its turn and goes to the end. -/
def turn : List (Item × Nat) → List (Item × Nat)
  | [] => []
  | (item, had) :: rest => rest ++ [(item, had + 1)]

/-- The entries after `turns` turns from a list in which all had `start`. -/
structure Level (items : List Item) (start turns : Nat) (entries : List (Item × Nat)) : Prop where
  rotated : entries.map Prod.fst = items.rotate turns
  split : ∃ front back, entries = front ++ back ∧ front ≠ [] ∧
    back.length = turns % items.length ∧
      (∀ entry ∈ front, entry.2 = start + turns / items.length) ∧
      ∀ entry ∈ back, entry.2 = start + turns / items.length + 1

theorem level_zero {items : List Item} (nonempty : items ≠ []) (start : Nat) :
    Level items start 0 (items.map fun item => (item, start)) := by
  refine ⟨?_, items.map fun item => (item, start), [], ?_, ?_, ?_, ?_, ?_⟩
  · simp [Function.comp_def]
  · simp
  · simpa using nonempty
  · simp
  · simp
  · exact fun _ member => by cases member

variable {items : List Item} {start turns : Nat} {entries : List (Item × Nat)}

section

variable (level : Level items start turns entries)

include level

theorem Level.length_eq : entries.length = items.length := by
  have lengths := congrArg List.length level.rotated
  rwa [List.length_map, List.length_rotate] at lengths

theorem Level.bounds {entry : Item × Nat} (member : entry ∈ entries) :
    start + turns / items.length ≤ entry.2 ∧ entry.2 ≤ start + turns / items.length + 1 := by
  obtain ⟨front, back, rfl, _, _, inFront, inBack⟩ := level.split
  rcases List.mem_append.mp member with isFront | isBack
  · rw [inFront entry isFront]
    exact ⟨le_refl _, Nat.le_succ _⟩
  · rw [inBack entry isBack]
    exact ⟨Nat.le_succ _, le_refl _⟩

theorem Level.head {entry : Item × Nat} {rest : List (Item × Nat)}
    (isCons : entries = entry :: rest) : entry.2 = start + turns / items.length := by
  obtain ⟨front, back, isSplit, nonempty, _, inFront, _⟩ := level.split
  cases front with
  | nil => exact absurd rfl nonempty
  | cons first front =>
    rw [isCons, List.cons_append] at isSplit
    rw [(List.cons.inj isSplit).1]
    exact inFront first List.mem_cons_self

theorem Level.pairwise : entries.Pairwise fun earlier later => earlier.2 ≤ later.2 := by
  obtain ⟨front, back, rfl, _, _, inFront, inBack⟩ := level.split
  refine List.pairwise_append.mpr ⟨?_, ?_, ?_⟩
  · refine List.pairwise_of_forall_mem_list ?_
    intro earlier isEarlier later isLater
    rw [inFront earlier isEarlier, inFront later isLater]
  · refine List.pairwise_of_forall_mem_list ?_
    intro earlier isEarlier later isLater
    rw [inBack earlier isEarlier, inBack later isLater]
  · intro earlier isEarlier later isLater
    rw [inFront earlier isEarlier, inBack later isLater]
    exact Nat.le_succ _

theorem Level.next : Level items start (turns + 1) (turn entries) := by
  have sameLength := level.length_eq
  obtain ⟨front, back, isSplit, nonempty, backLength, inFront, inBack⟩ := level.split
  obtain ⟨entry, front, rfl⟩ := List.exists_cons_of_ne_nil nonempty
  have isEntry : entry.2 = start + turns / items.length := inFront entry List.mem_cons_self
  have isTurn : turn entries = front ++ back ++ [(entry.1, entry.2 + 1)] := by
    rw [isSplit]
    rfl
  have positive : 0 < items.length := by
    rw [← sameLength, isSplit]
    simp
  have total : front.length + 1 + back.length = items.length := by
    rw [← sameLength, isSplit, List.length_append, List.length_cons]
  have isTurns : turns % items.length + items.length * (turns / items.length) = turns :=
    Nat.mod_add_div turns items.length
  refine ⟨?_, ?_⟩
  · have shifted : (turn entries).map Prod.fst = (entries.map Prod.fst).rotate 1 := by
      rw [isTurn, isSplit]
      simp
    rw [shifted, level.rotated, List.rotate_rotate]
  · rw [isTurn]
    by_cases isLast : front = []
    · -- The last entry of the front part had its turn: the round is complete.
      subst isLast
      rw [List.length_nil] at total
      have complete : (turns + 1) / items.length = turns / items.length + 1 ∧
          (turns + 1) % items.length = 0 := by
        refine (Nat.div_mod_unique positive).mpr ⟨?_, positive⟩
        rw [Nat.mul_add, Nat.mul_one]
        omega
      refine ⟨back ++ [(entry.1, entry.2 + 1)], [], by simp, by simp, ?_, ?_, ?_⟩
      · rw [complete.2, List.length_nil]
      · intro other member
        rw [complete.1]
        rcases List.mem_append.mp member with inOld | isNew
        · rw [inBack other inOld, Nat.add_assoc]
        · rw [List.mem_singleton.mp isNew, isEntry, Nat.add_assoc]
      · exact fun _ member => by cases member
    · have some_ : 0 < front.length := List.length_pos_of_ne_nil isLast
      have during : (turns + 1) / items.length = turns / items.length ∧
          (turns + 1) % items.length = turns % items.length + 1 := by
        refine (Nat.div_mod_unique positive).mpr ⟨?_, ?_⟩
        · omega
        · omega
      refine ⟨front, back ++ [(entry.1, entry.2 + 1)], by simp, isLast, ?_, ?_, ?_⟩
      · rw [List.length_append, List.length_singleton, backLength, during.2]
      · intro other member
        rw [during.1]
        exact inFront other (List.mem_cons_of_mem _ member)
      · intro other member
        rw [during.1]
        rcases List.mem_append.mp member with inOld | isNew
        · exact inBack other inOld
        · rw [List.mem_singleton.mp isNew, isEntry]

end

/-- The items at the front in as many turns as there are items are all of them, each once. -/
theorem heads_perm (items : List Item) (first : Nat) :
    ((List.range items.length).map fun later => (items.rotate (first + later)).head?).Perm
      (items.map some) := by
  have isRotation : ((List.range items.length).map fun later =>
      (items.rotate (first + later)).head?) = (items.rotate first).map some := by
    refine List.ext_getElem (by simp) fun index inRange inItems => ?_
    have inBounds : index < items.length := by simpa using inRange
    have positive : 0 < items.length := Nat.zero_lt_of_lt inBounds
    rw [List.getElem_map, List.getElem_range, List.getElem_map, List.head?_eq_getElem?,
      List.getElem?_rotate positive, List.getElem_rotate, Nat.zero_add, Nat.add_comm first,
      List.getElem?_eq_getElem (Nat.mod_lt _ positive)]
  rw [isRotation]
  exact (List.rotate_perm items first).map some

end RoundRobin
