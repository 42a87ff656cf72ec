import Mathlib.Data.Fintype.Basic
import Mathlib.Order.WellFounded
import Mathlib.Data.Fintype.Order
import Mathlib.Logic.Relation
import Mathlib.Tactic.Common

/-!
Contract: directed graphs that change by one edge at a time.

Owns:
- `Reaches`, and what it becomes when an edge is added;
- that nodes on no cycle stay on none when the edge that is added does not close one;
- that a graph with finitely many nodes and no cycle can be searched to the end.
-/

namespace Digraph

universe u

variable {Node : Type u} {edge edge' : Node → Node → Prop}

abbrev Reaches (edge : Node → Node → Prop) : Node → Node → Prop := Relation.ReflTransGen edge

def OnCycle (edge : Node → Node → Prop) (node : Node) : Prop := Relation.TransGen edge node node

section Added

variable {source target : Node}

/-- A path in the graph with one edge more is a path of the graph, or runs through the edge. -/
theorem reaches_added
    (added : ∀ {first second}, edge' first second →
      edge first second ∨ first = source ∧ second = target)
    {first last : Node} (reaches : Reaches edge' first last) :
    Reaches edge first last ∨ Reaches edge first source ∧ Reaches edge target last := by
  induction reaches with
  | refl => exact .inl .refl
  | tail _ step ih =>
    rcases ih with direct | ⟨before, after⟩
    · rcases added step with isOld | ⟨rfl, rfl⟩
      · exact .inl (direct.tail isOld)
      · exact .inr ⟨direct, .refl⟩
    · rcases added step with isOld | ⟨rfl, rfl⟩
      · exact .inr ⟨before, after.tail isOld⟩
      · exact .inr ⟨before, .refl⟩

/-- A cycle that an added edge makes runs through it. -/
theorem onCycle_added
    (added : ∀ {first second}, edge' first second →
      edge first second ∨ first = source ∧ second = target)
    {node : Node} (cycle : OnCycle edge' node) :
    OnCycle edge node ∨
      Reaches edge node source ∧ Reaches edge target source := by
  obtain ⟨second, step, rest⟩ := Relation.TransGen.head'_iff.mp cycle
  rcases added step with isOld | ⟨rfl, rfl⟩
  · rcases reaches_added added rest with direct | ⟨before, after⟩
    · exact .inl (Relation.TransGen.head' isOld direct)
    · exact .inr ⟨.head isOld before, (after.tail isOld).trans before⟩
  · rcases reaches_added added rest with direct | ⟨before, -⟩
    · exact .inr ⟨.refl, direct⟩
    · exact .inr ⟨.refl, before⟩

end Added

/-- From a node that reaches finitely many nodes, none of them on a cycle, every path ends. -/
theorem acc_of_finite {start : Node} {nodes : Set Node} (finite : nodes.Finite)
    (within : ∀ {node}, Reaches edge start node → node ∈ nodes)
    (acyclic : ∀ {node}, Reaches edge start node → ¬ OnCycle edge node) :
    Acc (fun child parent => edge parent child) start := by
  -- Below `start` the paths form a strict order on a finite type.
  let Below := { node : nodes // Reaches edge start node }
  let order : Below → Below → Prop := fun lower upper =>
    Relation.TransGen edge upper.1.1 lower.1.1
  have finiteBelow : Finite nodes := finite
  have transitive : IsTrans Below order := ⟨fun _ _ _ first second => second.trans first⟩
  have irreflexive : Std.Irrefl order := ⟨fun node => acyclic node.2⟩
  have wellFounded : WellFounded order := Finite.wellFounded_of_trans_of_irrefl order
  have below : ∀ node : Below, Acc (fun child parent => edge parent child) node.1.1 := by
    intro node
    induction node using wellFounded.induction with
    | h node ih =>
      constructor
      intro child isChild
      have reaches : Reaches edge start child := node.2.tail isChild
      exact ih ⟨⟨child, within reaches⟩, reaches⟩ (.single isChild)
  exact below ⟨⟨start, within .refl⟩, .refl⟩

end Digraph
