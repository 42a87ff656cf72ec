import Mathlib.Algebra.Order.BigOperators.Group.List
import Mathlib.Algebra.Order.Ring.Nat
import Mathlib.Tactic.Common

/-!
Contract: sums over the entries of an ordered map.

Owns: `sumOver`, and the rules that split the entry of one key off a sum, so that a change
of one key changes the sum by that entry.
-/

namespace MapSum

universe u v

variable {Key : Type u} {Value : Type v} {cmp : Key → Key → Ordering} [Std.TransCmp cmp]

def sumOver (weigh : Key → Value → Nat) (map : Std.ExtTreeMap Key Value cmp) : Nat :=
  (map.toList.map fun entry => weigh entry.1 entry.2).sum

def weightAt (weigh : Key → Value → Nat) (map : Std.ExtTreeMap Key Value cmp) (key : Key) : Nat :=
  (map[key]?).elim 0 (weigh key)

variable (weigh : Key → Value → Nat) (map : Std.ExtTreeMap Key Value cmp) (key : Key)

theorem nodup_toList : map.toList.Nodup := by
  have keysApart : (map.toList.map Prod.fst).Nodup := by
    rw [Std.ExtTreeMap.map_fst_toList_eq_keys]
    exact Std.ExtTreeMap.nodup_keys
  exact List.Pairwise.of_map Prod.fst (fun _ _ => mt (congrArg Prod.fst)) keysApart

theorem sumOver_le_sumOver {larger : Key → Value → Nat}
    (le : ∀ key value, weigh key value ≤ larger key value) :
    sumOver weigh map ≤ sumOver larger map :=
  List.sum_le_sum fun entry _ => le entry.1 entry.2

variable [DecidableEq Key] [Std.LawfulEqCmp cmp]

theorem getElem?_erase_eq (other : Key) :
    (map.erase key)[other]? = if key = other then none else map[other]? := by
  rw [Std.ExtTreeMap.getElem?_erase]
  simp only [Std.LawfulEqCmp.compare_eq_iff_eq]

theorem perm_cons_erase {value : Value} (found : map[key]? = some value) :
    map.toList.Perm ((key, value) :: (map.erase key).toList) := by
  have absent : (key, value) ∉ (map.erase key).toList := by
    rw [Std.ExtTreeMap.mem_toList_iff_getElem?_eq_some, getElem?_erase_eq, if_pos rfl]
    exact fun isSome => by cases isSome
  apply (List.perm_ext_iff_of_nodup (nodup_toList map)
    (List.nodup_cons.mpr ⟨absent, nodup_toList _⟩)).mpr
  intro entry
  rw [List.mem_cons, Std.ExtTreeMap.mem_toList_iff_getElem?_eq_some,
    Std.ExtTreeMap.mem_toList_iff_getElem?_eq_some, getElem?_erase_eq]
  by_cases isKey : key = entry.1
  · rw [if_pos isKey, ← isKey, found]
    constructor
    · intro isValue
      exact .inl (Prod.ext isKey.symm (Option.some.inj isValue).symm)
    · intro either
      rcases either with isEntry | none
      · rw [isEntry]
      · cases none
  · rw [if_neg isKey]
    constructor
    · exact .inr
    · intro either
      rcases either with isEntry | other
      · exact absurd (congrArg Prod.fst isEntry).symm isKey
      · exact other

theorem sumOver_eq_erase_add :
    sumOver weigh map = sumOver weigh (map.erase key) + weightAt weigh map key := by
  unfold weightAt
  cases found : map[key]? with
  | none =>
    have unchanged : map.erase key = map := by
      apply Std.ExtTreeMap.ext_getElem?
      intro other
      rw [getElem?_erase_eq]
      by_cases isKey : key = other
      · rw [if_pos isKey, ← isKey, found]
      · rw [if_neg isKey]
    rw [unchanged]
    rfl
  | some value =>
    have split := ((perm_cons_erase map key found).map fun entry =>
      weigh entry.1 entry.2).sum_eq
    unfold sumOver
    rw [split, List.map_cons, List.sum_cons, Nat.add_comm]
    rfl

theorem weightAt_le_sumOver : weightAt weigh map key ≤ sumOver weigh map := by
  rw [sumOver_eq_erase_add weigh map key]
  exact Nat.le_add_left _ _

section

variable {other : Std.ExtTreeMap Key Value cmp} (agree : ∀ at_, key ≠ at_ → other[at_]? = map[at_]?)

include agree

theorem sumOver_erase_congr : sumOver weigh (other.erase key) = sumOver weigh (map.erase key) := by
  have same : other.erase key = map.erase key := by
    apply Std.ExtTreeMap.ext_getElem?
    intro at_
    rw [getElem?_erase_eq, getElem?_erase_eq]
    by_cases isKey : key = at_
    · rw [if_pos isKey, if_pos isKey]
    · rw [if_neg isKey, if_neg isKey, agree at_ isKey]
  rw [same]

theorem sumOver_change :
    sumOver weigh other + weightAt weigh map key =
      sumOver weigh map + weightAt weigh other key := by
  rw [sumOver_eq_erase_add weigh other key, sumOver_eq_erase_add weigh map key,
    sumOver_erase_congr weigh map key agree]
  omega

end

end MapSum
