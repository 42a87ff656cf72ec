import Mathlib.Data.List.MinMax
import Mathlib.Tactic

/-!
Contract: an ordered map from keys to queues, where a key without an entry and
a key with an empty queue hold the same values.

Owns: the observation `queueAt`, the operations that append, replace, filter
and drain queues, and what each of them does to every observation.
-/

universe u v

variable {K : Type u} {V : Type v} [Ord K] [Std.TransOrd K]

abbrev QueueMap (K : Type u) (V : Type v) [Ord K] : Type (max u v) :=
  Std.ExtTreeMap K (List V) compare

namespace QueueMap

def queueAt (queues : QueueMap K V) (key : K) : List V :=
  queues[key]?.getD []

def push (queues : QueueMap K V) (key : K) (value : V) : QueueMap K V :=
  queues.insert key (queueAt queues key ++ [value])

/-- Replace the queue of a key; an empty queue is not stored. -/
def store (queues : QueueMap K V) (key : K) (queue : List V) : QueueMap K V :=
  if queue.isEmpty then queues.erase key else queues.insert key queue

/-- Keep, in every queue, only the values that satisfy a test. -/
def retainAll (queues : QueueMap K V) (keep : V → Bool) : QueueMap K V :=
  queues.map fun _ queue => queue.filter keep

/-- Remove the leading entries of an ordered entry list whose key satisfies a
test, collecting their values in order. -/
def drainWhile (due : K → Bool) :
    List (K × List V) → QueueMap K V → List V × QueueMap K V
  | [], queues => ([], queues)
  | entry :: entries, queues =>
    if due entry.1 then
      let drained := drainWhile due entries (queues.erase entry.1)
      (entry.2 ++ drained.1, drained.2)
    else ([], queues)

/-- Remove the entries, from the least key on, whose key satisfies a test. -/
def drain (due : K → Bool) (queues : QueueMap K V) : List V × QueueMap K V :=
  drainWhile due queues.toList queues

def Listed (queues : QueueMap K V) (value : V) : Prop :=
  ∃ entry ∈ queues.toList, value ∈ entry.2

instance [DecidableEq V] (queues : QueueMap K V) (value : V) : Decidable (Listed queues value) :=
  inferInstanceAs (Decidable (∃ entry ∈ queues.toList, _))

structure StoredOnce (queues : QueueMap K V) : Prop where
  nodup : ∀ key, (queueAt queues key).Nodup
  single : ∀ {key other : K} {value : V}, value ∈ queueAt queues key →
    value ∈ queueAt queues other → key = other

/-! ### Observations after each operation -/

variable {queues : QueueMap K V} {key : K} {value : V}

@[simp] theorem queueAt_empty (key : K) : queueAt (∅ : QueueMap K V) key = [] := by
  simp [queueAt]

theorem mem_queueAt_iff :
    value ∈ queueAt queues key ↔ ∃ queue, queues[key]? = some queue ∧ value ∈ queue := by
  cases found : queues[key]? <;> simp [queueAt, found]

theorem storedOnce_empty : StoredOnce (∅ : QueueMap K V) where
  nodup key := by simp
  single member := by simp at member

theorem StoredOnce.of_sublist {next : QueueMap K V} (once : StoredOnce queues)
    (sublist : ∀ key, (queueAt next key).Sublist (queueAt queues key)) : StoredOnce next where
  nodup key := (once.nodup key).sublist (sublist key)
  single member other := once.single ((sublist _).subset member) ((sublist _).subset other)

theorem listed_iff [Std.LawfulEqOrd K] :
    Listed queues value ↔ ∃ key, value ∈ queueAt queues key := by
  constructor
  · rintro ⟨entry, stored, member⟩
    have found := Std.ExtTreeMap.mem_toList_iff_getElem?_eq_some.mp stored
    exact ⟨entry.1, mem_queueAt_iff.mpr ⟨entry.2, found, member⟩⟩
  · rintro ⟨key, member⟩
    obtain ⟨queue, found, member⟩ := mem_queueAt_iff.mp member
    exact ⟨(key, queue), Std.ExtTreeMap.mem_toList_iff_getElem?_eq_some.mpr found, member⟩

variable [Std.LawfulEqOrd K] [DecidableEq K]

theorem queueAt_insert (queues : QueueMap K V) (key other : K) (queue : List V) :
    queueAt (queues.insert key queue) other =
      if other = key then queue else queueAt queues other := by
  simp only [queueAt, Std.ExtTreeMap.getElem?_insert, Std.LawfulEqCmp.compare_eq_iff_eq,
    eq_comm (a := other)]
  split <;> rfl

theorem queueAt_erase (queues : QueueMap K V) (key other : K) :
    queueAt (queues.erase key) other = if other = key then [] else queueAt queues other := by
  simp only [queueAt, Std.ExtTreeMap.getElem?_erase, Std.LawfulEqCmp.compare_eq_iff_eq,
    eq_comm (a := other)]
  split <;> rfl

omit [DecidableEq K] in
@[simp] theorem queueAt_insertIfNew_nil (queues : QueueMap K V) (key other : K) :
    queueAt (queues.insertIfNew key []) other = queueAt queues other := by
  simp only [queueAt, Std.ExtTreeMap.getElem?_insertIfNew]
  split
  · next fresh =>
      obtain ⟨equal, absent⟩ := fresh
      obtain rfl := Std.LawfulEqOrd.eq_of_compare equal
      rw [Std.ExtTreeMap.getElem?_eq_none absent]
      rfl
  · rfl

theorem queueAt_push (queues : QueueMap K V) (key other : K) (value : V) :
    queueAt (push queues key value) other =
      if other = key then queueAt queues key ++ [value] else queueAt queues other :=
  queueAt_insert queues key other _

theorem queueAt_store (queues : QueueMap K V) (key other : K) (queue : List V) :
    queueAt (store queues key queue) other =
      if other = key then queue else queueAt queues other := by
  unfold store
  split
  next empty =>
    rw [queueAt_erase]
    rw [List.isEmpty_iff.mp empty]
  next => exact queueAt_insert queues key other queue

private theorem mem_queueAt_of_drainWhile (due : K → Bool) {entries : List (K × List V)}
    (stored : ∀ entry ∈ entries, queues[entry.1]? = some entry.2)
    (distinct : (entries.map Prod.fst).Nodup) (member : value ∈ queueAt queues key) :
    value ∈ (drainWhile due entries queues).1 ∨
      value ∈ queueAt (drainWhile due entries queues).2 key := by
  induction entries generalizing queues with
  | nil => exact .inr member
  | cons entry entries ih =>
    unfold drainWhile
    split
    case isFalse => exact .inr member
    case isTrue =>
      have entryStored := stored entry List.mem_cons_self
      by_cases same : key = entry.1
      · subst same
        refine .inl (List.mem_append_left _ ?_)
        simpa [queueAt, entryStored] using member
      · have kept : value ∈ queueAt (queues.erase entry.1) key := by
          rw [queueAt_erase, if_neg same]
          exact member
        rw [List.map_cons, List.nodup_cons] at distinct
        have restStored : ∀ other ∈ entries,
            (queues.erase entry.1)[other.1]? = some other.2 := by
          intro other otherMember
          have different : compare entry.1 other.1 ≠ .eq := by
            intro equal
            have sameKey := Std.LawfulEqOrd.eq_of_compare equal
            exact distinct.1 (sameKey ▸ List.mem_map_of_mem otherMember)
          rw [Std.ExtTreeMap.getElem?_erase, if_neg different]
          exact stored other (List.mem_cons_of_mem _ otherMember)
        rcases ih restStored distinct.2 kept with drained | left
        · exact .inl (List.mem_append_right _ drained)
        · exact .inr left

/-- Draining loses nothing: a queued value is drained or still queued. -/
theorem mem_drain_or_queueAt (due : K → Bool) (member : value ∈ queueAt queues key) :
    value ∈ (drain due queues).1 ∨ value ∈ queueAt (drain due queues).2 key := by
  refine mem_queueAt_of_drainWhile due ?_ ?_ member
  · intro entry entryMember
    exact Std.ExtTreeMap.mem_toList_iff_getElem?_eq_some.mp entryMember
  · rw [Std.ExtTreeMap.map_fst_toList_eq_keys]
    exact Std.ExtTreeMap.nodup_keys

theorem listed_push {other : V} :
    Listed (push queues key value) other ↔ Listed queues other ∨ other = value := by
  simp only [listed_iff, queueAt_push]
  constructor
  · rintro ⟨place, member⟩
    split at member
    case isTrue =>
      rcases List.mem_append.mp member with old | new
      · exact .inl ⟨key, old⟩
      · exact .inr (List.mem_singleton.mp new)
    case isFalse => exact .inl ⟨place, member⟩
  · rintro (⟨place, member⟩ | rfl)
    · refine ⟨place, ?_⟩
      split
      case isTrue same =>
        subst same
        exact List.mem_append_left _ member
      case isFalse => exact member
    · exact ⟨key, by simp⟩

theorem listed_drain (due : K → Bool) (listed : Listed queues value) :
    value ∈ (drain due queues).1 ∨ Listed (drain due queues).2 value := by
  obtain ⟨key, member⟩ := listed_iff.mp listed
  rcases mem_drain_or_queueAt due member with drained | left
  · exact .inl drained
  · exact .inr (listed_iff.mpr ⟨key, left⟩)

/-! ### Storing values once -/

theorem StoredOnce.push (once : StoredOnce queues)
    (fresh : ¬ Listed queues value) : StoredOnce (push queues key value) where
  nodup other := by
    rw [queueAt_push]
    split
    case isTrue =>
      refine List.nodup_append'.mpr ⟨once.nodup key, List.nodup_singleton value, ?_⟩
      intro member isOld isNew
      obtain rfl := List.mem_singleton.mp isNew
      exact fresh (listed_iff.mpr ⟨key, isOld⟩)
    case isFalse => exact once.nodup other
  single {first second stored} atFirst atSecond := by
    have place {somewhere : K}
        (member : stored ∈ queueAt (QueueMap.push queues key value) somewhere) :
        stored ∈ queueAt queues somewhere ∨ stored = value ∧ somewhere = key := by
      rw [queueAt_push] at member
      split at member
      case isTrue same =>
        rcases List.mem_append.mp member with old | new
        · exact .inl (same ▸ old)
        · exact .inr ⟨List.mem_singleton.mp new, same⟩
      case isFalse => exact .inl member
    rcases place atFirst with oldFirst | ⟨rfl, rfl⟩ <;>
      rcases place atSecond with oldSecond | ⟨same, rfl⟩
    · exact once.single oldFirst oldSecond
    · exact absurd (listed_iff.mpr ⟨first, same ▸ oldFirst⟩) fresh
    · exact absurd (listed_iff.mpr ⟨second, oldSecond⟩) fresh
    · rfl

end QueueMap
