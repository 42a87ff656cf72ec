import Mathlib.Data.Set.Insert
import Mathlib.Tactic

/-!
Contract: trees of bounded height made of nodes with indexed links to other nodes.

Owns:
- `walk`, which follows the links along a path;
- `Placed`, which asks that an inner node is reached from one root along one path
  only, so that the nodes form disjoint trees;
- what a change of one link does to every walk, and that the nodes stay placed.

The links of a node that is in no tree are arbitrary, and a change may alter them.
-/

namespace LinkForest

universe u v

variable {Node : Type u} {Index : Type v}

def walk (link : Node → Index → Option Node) : Node → List Index → Option Node
  | node, [] => some node
  | node, index :: path =>
    match link node index with
    | none => none
    | some next => walk link next path

variable {link link' : Node → Index → Option Node}

theorem walk_append (node : Node) (first second : List Index) :
    walk link node (first ++ second) =
      (walk link node first).bind fun middle => walk link middle second := by
  induction first generalizing node with
  | nil => rfl
  | cons index path ih =>
    simp only [List.cons_append, walk]
    cases link node index with
    | none => rfl
    | some next => exact ih next

theorem walk_concat (node : Node) (path : List Index) (index : Index) :
    walk link node (path ++ [index]) = (walk link node path).bind fun last => link last index := by
  rw [walk_append]
  congr 1
  funext last
  simp only [walk]
  cases link last index <;> rfl

theorem walk_congr {node : Node} {path : List Index}
    (same : ∀ before index after, path = before ++ index :: after →
      ∀ reached, walk link node before = some reached → link' reached index = link reached index) :
    walk link' node path = walk link node path := by
  induction path generalizing node with
  | nil => rfl
  | cons index path ih =>
    have head : link' node index = link node index := same [] index path rfl node rfl
    simp only [walk, head]
    cases found : link node index with
    | none => rfl
    | some next =>
      refine ih ?_
      rintro before other after rfl reached walked
      refine same (index :: before) other after rfl reached ?_
      simpa only [walk, found] using walked

/-- Every node that a root reaches in fewer than `height` steps has its root and its
path as its place. -/
def Placed (link : Node → Index → Option Node) (roots : Set Node) (height : Nat)
    (place : Node → Option (Node × List Index)) : Prop :=
  ∀ root ∈ roots, ∀ path node, path.length < height → walk link root path = some node →
    place node = some (root, path)

/-- A change that keeps the links of every placed node keeps every walk. -/
theorem Placed.walk_eq {roots : Set Node} {height : Nat}
    {place : Node → Option (Node × List Index)} (placed : Placed link roots height place)
    (same : ∀ node index, (place node).isSome → link' node index = link node index)
    {root : Node} (member : root ∈ roots) {path : List Index} (short : path.length ≤ height) :
    walk link' root path = walk link root path := by
  refine walk_congr ?_
  rintro before index after rfl reached walked
  refine same reached index ?_
  rw [placed root member before reached (by simp at short; omega) walked]
  rfl

section Slot

/-! One slot changes: the link number `index` of the node at the end of `trail`. -/

variable {roots : Set Node} {height : Nat} {place : Node → Option (Node × List Index)}
  {base holder : Node} {trail : List Index} {index : Index}

section

variable (placed : Placed link roots height place) (based : base ∈ roots)
  (inner : trail.length < height) (located : walk link base trail = some holder)
  (same : ∀ node other, (place node).isSome → ¬ (node = holder ∧ other = index) →
    link' node other = link node other)

include placed based inner located same

theorem Placed.walk_slot_other {root : Node} (member : root ∈ roots) {path : List Index}
    (short : path.length ≤ height) (avoids : ¬ (root = base ∧ (trail ++ [index]) <+: path)) :
    walk link' root path = walk link root path := by
  have home := placed base based trail holder inner located
  refine walk_congr ?_
  rintro before other after rfl reached walked
  have found := placed root member before reached (by simp at short; omega) walked
  refine same reached other (by rw [found]; rfl) ?_
  rintro ⟨rfl, rfl⟩
  -- the place of the node tells that the walk came along the trail
  obtain ⟨rfl, rfl⟩ := Prod.mk.inj (Option.some.inj (found.symm.trans home))
  exact avoids ⟨rfl, ⟨after, by simp⟩⟩

theorem Placed.walk_slot_same : walk link' base (trail ++ [index]) = link' holder index := by
  have kept : walk link' base trail = some holder := by
    rw [← located]
    refine placed.walk_slot_other based inner located same based (by omega) ?_
    rintro ⟨-, longer⟩
    have := longer.length_le
    simp at this
  rw [walk_concat, kept, Option.bind_some]

/-- A new node without links hangs in the slot, which was empty: no walk goes
further than the new node. -/
theorem Placed.walk_grown {fresh : Node} (empty : link holder index = none)
    (grown : link' holder index = some fresh) (bare : ∀ other, link' fresh other = none)
    {root : Node} (member : root ∈ roots) {path : List Index} (short : path.length ≤ height)
    (elsewhere : ¬ (root = base ∧ path = trail ++ [index])) :
    walk link' root path = walk link root path := by
  by_cases through : root = base ∧ (trail ++ [index]) <+: path
  · obtain ⟨rfl, rest, rfl⟩ := through
    cases rest with
    | nil => simp at elsewhere
    | cons next rest =>
      have before : walk link root (trail ++ [index]) = none := by
        rw [walk_concat, located, Option.bind_some, empty]
      have after : walk link' root (trail ++ [index]) = some fresh :=
        (placed.walk_slot_same based inner located same).trans grown
      rw [walk_append root (trail ++ [index]), walk_append root (trail ++ [index]), before, after,
        Option.bind_none, Option.bind_some, walk, bare next]
  · exact placed.walk_slot_other based inner located same member short through

omit inner in
theorem Placed.set_lowest (lowest : trail.length + 1 = height) :
    Placed link' roots height place := by
  intro root member path node below walked
  refine placed root member path node below ?_
  rw [← walked]
  refine (placed.walk_slot_other based (by omega) located same member (by omega) ?_).symm
  rintro ⟨-, longer⟩
  have := longer.length_le
  simp at this
  omega

/-- Hanging a new node into an empty slot above the lowest level keeps the nodes
placed. -/
theorem Placed.grow [DecidableEq Node] {fresh : Node} (empty : link holder index = none)
    (grown : link' holder index = some fresh) (bare : ∀ other, link' fresh other = none)
    (unplaced : place fresh = none) :
    Placed link' roots height (Function.update place fresh (some (base, trail ++ [index]))) := by
  intro root member path node below walked
  by_cases target : root = base ∧ path = trail ++ [index]
  · obtain ⟨rfl, rfl⟩ := target
    rw [placed.walk_slot_same based inner located same, grown] at walked
    obtain rfl := Option.some.inj walked
    rw [Function.update_self]
  · rw [placed.walk_grown based inner located same empty grown bare member (by omega) target]
      at walked
    have home := placed root member path node below walked
    have other : node ≠ fresh := by
      rintro rfl
      rw [unplaced] at home
      cases home
    rwa [Function.update_of_ne other]

end

end Slot

theorem Placed.insert_root [DecidableEq Node] {roots : Set Node} {height : Nat}
    {place : Node → Option (Node × List Index)} (placed : Placed link roots height place)
    {root : Node} (bare : ∀ index, link root index = none) (unplaced : place root = none) :
    Placed link (insert root roots) height (Function.update place root (some (root, []))) := by
  intro base member path node below walked
  rcases Set.mem_insert_iff.mp member with rfl | old
  · cases path with
    | nil =>
      obtain rfl := Option.some.inj walked
      rw [Function.update_self]
    | cons index rest =>
      rw [walk, bare index] at walked
      cases walked
  · have home := placed base old path node below walked
    have other : node ≠ root := by
      rintro rfl
      rw [unplaced] at home
      cases home
    rwa [Function.update_of_ne other]

end LinkForest
