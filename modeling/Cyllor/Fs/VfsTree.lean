import Cyllor.Fs.VfsBoot

/-!
Contract: the directories that are reached from the root form no cycle, and `path_of_inode`
comes to an end.

Owns:
- `Apart`, when a `rename` closes no cycle, and that runs of such calls keep the directories
  free of cycles;
- that the search for an inode then ends;
- the `rename` that closes a cycle, and the search that does not end after it.

The argument: an edit adds at most one edge. A cycle that it makes runs through the edge, so
the moved inode reaches the directory that it was moved into. Inodes under an inode that is no
directory are not searched, but they can be moved back under one: they are kept free of cycles
too.
-/

namespace Cyllor.Fs

open Digraph (Reaches OnCycle)
open Function (update update_self update_of_ne)

variable {parent node : Nat}

namespace Vfs

/-- No inode that the root reaches is on a cycle of directories. -/
structure Tree (vfs : Vfs) : Prop extends Numbered vfs where
  acyclic : ∀ {node : Nat}, Reaches vfs.Child root node → ¬ OnCycle vfs.Branch node

section Edits

variable {vfs : Vfs}

theorem Tree.removeChild (tree : vfs.Tree) (parent : Nat) (name : Text) :
    (vfs.removeChild parent name).Tree where
  toNumbered := tree.toNumbered.removeChild parent name
  acyclic reaches cycle := by
    have before : Reaches vfs.Child root _ :=
      Relation.ReflTransGen.mono (fun _ _ => Child.of_removeChild) _ _ reaches
    exact tree.acyclic before
      (Relation.TransGen.mono (fun _ _ => Branch.of_removeChild) _ _ cycle)

/-- An inode that was below the root in a tree gets a name in an inode that it does not reach,
or that the root does not. -/
theorem Tree.insertChild (tree : vfs.Tree) {child : Nat} (name : Text)
    (isParent : parent < vfs.next) (isChild : child < vfs.next)
    (below : ∀ {node : Nat}, Reaches vfs.Child child node → ¬ OnCycle vfs.Branch node)
    (apart : (vfs.inodes parent).itype = .Directory →
      ¬ (Reaches vfs.Child root parent ∧ Reaches vfs.Branch child parent)) :
    (vfs.insertChild parent name child).Tree where
  toNumbered := tree.toNumbered.insertChild name isParent isChild
  acyclic {node} reaches cycle := by
    have reached := Digraph.reaches_added Child.of_insertChild reaches
    have notBefore : ¬ OnCycle vfs.Branch node := by
      rcases reached with before | ⟨-, fromChild⟩
      · exact tree.acyclic before
      · exact below fromChild
    rcases Digraph.onCycle_added Branch.of_insertChild cycle with before | ⟨toParent, closes⟩
    · exact notBefore before
    · -- The cycle runs through the parent, which is then a directory.
      have isDirectory : (vfs.inodes parent).itype = .Directory := by
        by_contra notDirectory
        apply notBefore
        refine Relation.TransGen.mono (fun first second step => ?_) _ _ cycle
        rcases Branch.of_insertChild step with isOld | ⟨rfl, rfl⟩
        · exact isOld
        · have isDirectory := step.1
          rw [itype_insertChild] at isDirectory
          exact absurd isDirectory notDirectory
      apply apart isDirectory
      refine ⟨?_, closes⟩
      rcases reached with before | ⟨toRoot, -⟩
      · exact before.trans (reaches_child toParent)
      · exact toRoot

theorem Tree.addNew (tree : vfs.Tree) {inode : Inode} (childless : inode.children = ∅) :
    ({ inodes := update vfs.inodes vfs.next inode, next := vfs.next + 1 } : Vfs).Tree := by
  have childOf : ∀ {first second : Nat},
      ({ inodes := update vfs.inodes vfs.next inode, next := vfs.next + 1 } : Vfs).Child
        first second → vfs.Child first second ∧ first ≠ vfs.next := by
    intro first second ⟨name, isChild⟩
    change (update vfs.inodes vfs.next inode first).children[name]? = some second
      at isChild
    by_cases isNew : first = vfs.next
    · rw [isNew, update_self, childless] at isChild
      simp at isChild
    · rw [update_of_ne isNew] at isChild
      exact ⟨⟨name, isChild⟩, isNew⟩
  refine { used := Nat.succ_pos _, children := ?_, acyclic := ?_ }
  case refine_1 =>
    intro parent child step
    have before := tree.children (childOf step).1
    exact ⟨Nat.lt_succ_of_lt before.1, Nat.lt_succ_of_lt before.2⟩
  case refine_2 =>
    intro node reaches cycle
    have before : Reaches vfs.Child root node :=
      Relation.ReflTransGen.mono (fun _ _ step => (childOf step).1) _ _ reaches
    apply tree.acyclic before
    refine Relation.TransGen.mono (fun first second step => ?_) _ _ cycle
    obtain ⟨isChild, notNew⟩ := childOf step.2
    have isDirectory := step.1
    change (update vfs.inodes vfs.next inode first).itype = .Directory at isDirectory
    rw [update_of_ne notNew] at isDirectory
    exact ⟨isDirectory, isChild⟩

theorem Tree.insertNew (tree : vfs.Tree) (name : Text) {inode : Inode}
    (isParent : parent < vfs.next) (childless : inode.children = ∅) :
    (vfs.insertNew parent name inode).Tree := by
  have noChild : ∀ {second : Nat},
      ¬ ({ inodes := update vfs.inodes vfs.next inode, next := vfs.next + 1 } : Vfs).Child
        vfs.next second := by
    intro second ⟨other, isChild⟩
    change (update vfs.inodes vfs.next inode vfs.next).children[other]? = _ at isChild
    rw [update_self, childless] at isChild
    simp at isChild
  apply (tree.addNew childless).insertChild name (Nat.lt_succ_of_lt isParent) (Nat.lt_succ_self _)
  case below =>
    intro node reaches cycle
    rcases reaches.cases_head with rfl | ⟨child, step, -⟩
    · obtain ⟨child, step, -⟩ := Relation.TransGen.head'_iff.mp cycle
      exact noChild step.2
    · exact noChild step
  case apart =>
    intro _ ⟨_, reaches⟩
    rcases reaches.cases_head with same | ⟨child, step, -⟩
    · omega
    · exact noChild step.2

end Edits

/-! ### Calls -/

/-- When a call closes no cycle: for a `rename` into a directory other than the old one, once
the old name is gone that directory is no longer below the root, or it is not below the moved
inode. -/
def Apart (depth : Nat) (vfs : Vfs) : VfsLabel → Prop
  | .rename oldPath newPath _ =>
    ∀ oldParent newParent moved,
      vfs.found depth (rsplitPath oldPath).1 = some oldParent →
      vfs.found depth (rsplitPath newPath).1 = some newParent → oldParent ≠ newParent →
      vfs.child? oldParent (rsplitPath oldPath).2 = some moved →
      (vfs.inodes newParent).itype = .Directory →
      let removed := vfs.removeChild oldParent (rsplitPath oldPath).2
      ¬ (Reaches removed.Child root newParent ∧ Reaches removed.Branch moved newParent)
  | _ => True

section Steps

variable {depth : Nat} {vfs next : Vfs}

theorem Tree.grow (tree : vfs.Tree) (grown : Relation.ReflTransGen (Grow depth) vfs next) :
    next.Tree := by
  induction grown with
  | refl => exact tree
  | tail _ step ih =>
    obtain ⟨path, parent, name, inode, isFound, isPlain, rfl⟩ := step
    apply ih.insertNew
    · exact ih.toNumbered.lt_next (reaches_child (reaches_of_found isFound))
    · rcases isPlain with rfl | rfl
      · rfl
      · rfl

theorem Tree.step (tree : vfs.Tree) {label : VfsLabel} (apart : Apart depth vfs label)
    (stepped : vfs.step depth label = some next) : next.Tree := by
  have inTree : ∀ {path : Text} {node : Nat}, vfs.found depth path = some node →
      Reaches vfs.Child root node := fun isFound => reaches_child (reaches_of_found isFound)
  cases change_of_step stepped with
  | same => exact tree
  | mkdir isFound => exact tree.insertNew _ (tree.toNumbered.lt_next (inTree isFound)) rfl
  | unlink => exact tree.removeChild _ _
  | @rename oldPath newPath flags parent moved isFound _ isMoved =>
    -- The inode had a name in this directory before, and cycles need no other.
    have step : vfs.Child parent moved := ⟨_, isMoved⟩
    constructor
    case toNumbered =>
      have numbers := tree.children step
      exact (tree.toNumbered.removeChild parent _).insertChild _ numbers.1 numbers.2
    case acyclic =>
      intro node reaches cycle
      have childOf : ∀ first second, ((vfs.removeChild parent (rsplitPath oldPath).2).insertChild
          parent (rsplitPath newPath).2 moved).Child first second → vfs.Child first second := by
        intro first second isChild
        rcases Child.of_insertChild isChild with isOld | ⟨rfl, rfl⟩
        · exact Child.of_removeChild isOld
        · exact step
      apply tree.acyclic (Relation.ReflTransGen.mono childOf _ _ reaches)
      refine Relation.TransGen.mono (fun first second branch => ?_) _ _ cycle
      refine ⟨?_, childOf first second branch.2⟩
      have isDirectory := branch.1
      rw [itype_insertChild, itype_removeChild] at isDirectory
      exact isDirectory
  | lose => exact tree.removeChild _ _
  | @move oldPath newPath flags oldParent newParent moved oldFound newFound different isMoved =>
    have step : vfs.Child oldParent moved := ⟨_, isMoved⟩
    apply (tree.removeChild oldParent _).insertChild
    case isParent => exact tree.toNumbered.lt_next (inTree newFound)
    case isChild => exact (tree.children step).2
    case below =>
      intro node reaches cycle
      have fromMoved : Reaches vfs.Child moved node :=
        Relation.ReflTransGen.mono (fun _ _ => Child.of_removeChild) _ _ reaches
      apply tree.acyclic (((inTree oldFound).tail step).trans fromMoved)
      exact Relation.TransGen.mono (fun _ _ => Branch.of_removeChild) _ _ cycle
    case apart =>
      rw [itype_removeChild]
      exact apart oldParent newParent moved oldFound newFound different isMoved
  | openat grown => exact tree.grow grown

theorem Rising.tree (rising : vfs.Rising) : vfs.Tree where
  used := rising.used
  children step := by
    have rises := rising.rises step
    omega
  acyclic _ cycle := by
    have along : ∀ {first last : Nat}, Relation.TransGen vfs.Branch first last → first < last := by
      intro first last path
      induction path with
      | single step => exact (rising.rises step.2).1
      | tail _ step ih =>
        exact Nat.lt_trans ih (rising.rises step.2).1
    exact Nat.lt_irrefl _ (along cycle)

theorem tree_boot : boot.Tree := rising_boot.tree

end Steps

/-! ### The search for an inode -/

section Search

variable {vfs : Vfs} {target : Nat}

/-- The search ends from a stack, with or without the inode. -/
def Ends (vfs : Vfs) (target : Nat) (stack : List (Nat × Text)) : Prop :=
  ∃ rounds, (vfs.search target rounds stack).isSome

theorem branch_of_entries {entry : Text × Nat} (member : entry ∈ vfs.entries node) :
    vfs.Branch node entry.2 := by
  unfold entries at member
  split at member
  case isTrue => cases member
  case isFalse isDirectory =>
    exact ⟨Decidable.not_not.mp isDirectory, entry.1,
      Std.ExtTreeMap.mem_toList_iff_getElem?_eq_some.mp member⟩

theorem ends_append {items stack : List (Nat × Text)}
    (each : ∀ item ∈ items, ∀ stack, vfs.Ends target stack → vfs.Ends target (item :: stack))
    (ends : vfs.Ends target stack) : vfs.Ends target (items ++ stack) := by
  induction items with
  | nil => exact ends
  | cons item items ih =>
    apply each item List.mem_cons_self
    exact ih fun later member => each later (List.mem_cons_of_mem _ member)

theorem ends_cons (bounded : Acc (fun child parent => vfs.Branch parent child) node) :
    ∀ (path : Text) (stack : List (Nat × Text)), vfs.Ends target stack →
      vfs.Ends target ((node, path) :: stack) := by
  induction bounded with
  | intro node _ ih =>
    intro path stack ends
    by_cases isTarget : node = target
    · refine ⟨1, ?_⟩
      rw [search, if_pos isTarget]
      rfl
    · have below : ∀ item ∈ ((vfs.entries node).map fun entry =>
          (entry.2, childPath path entry.1)).reverse, ∀ stack, vfs.Ends target stack →
            vfs.Ends target (item :: stack) := by
        intro item member
        obtain ⟨entry, isEntry, rfl⟩ := List.mem_map.mp (List.mem_reverse.mp member)
        exact ih entry.2 (branch_of_entries isEntry) _
      obtain ⟨rounds, done⟩ := ends_append below ends
      refine ⟨rounds + 1, ?_⟩
      rw [search, if_neg isTarget]
      exact done

theorem Tree.acc_root (tree : vfs.Tree) :
    Acc (fun child parent => vfs.Branch parent child) root := by
  apply Digraph.acc_of_finite (Set.finite_lt_nat vfs.next)
  · exact fun reaches => tree.toNumbered.lt_next (reaches_child reaches)
  · exact fun reaches => tree.acyclic (reaches_child reaches)

theorem Tree.pathOfInode_isSome (tree : vfs.Tree) (target : Nat) :
    ∃ rounds, (vfs.pathOfInode target rounds).isSome := by
  have empty : vfs.Ends target [] := ⟨1, rfl⟩
  obtain ⟨rounds, done⟩ := ends_cons tree.acc_root ['/'] [] empty
  refine ⟨rounds, ?_⟩
  unfold pathOfInode
  split
  · rfl
  · exact done

end Search

/-! ### Runs -/

/-- In every run of calls none of which closes a cycle, the directories below the root are free
of cycles and the search for every inode ends. -/
theorem acyclic_of_run {depth : Nat} {trace : List VfsLabel} {final : Vfs}
    (apart : LabelledRun.Guarded (step depth) (Apart depth) boot trace)
    (reached : boot.run depth trace = some final) :
    (∀ node, Reaches final.Branch root node → ¬ OnCycle final.Branch node) ∧
      ∀ target, ∃ rounds, (final.pathOfInode target rounds).isSome := by
  have tree : final.Tree := LabelledRun.invariant_of_guarded Tree
    (fun tree guard stepped => tree.step guard stepped) tree_boot apart reached
  constructor
  · intro node reaches
    exact tree.acyclic (reaches_child reaches)
  · exact tree.pathOfInode_isSome

theorem not_reaches_of_childless {vfs : Vfs} {moved other : Nat} {name : Text}
    (childless : (vfs.inodes moved).children = ∅) (isOther : moved ≠ other) :
    ¬ Reaches (vfs.removeChild parent name).Branch moved other := by
  intro reaches
  rcases reaches.cases_head with same | ⟨child, step, -⟩
  · exact isOther same
  · obtain ⟨entry, isChild⟩ := Child.of_removeChild step.2
    rw [child?, childless] at isChild
    simp at isChild

def makeAndMove : List VfsLabel :=
  [.mkdir "/a".toList, .rename "/a".toList "/tmp/b".toList 0]

theorem acyclic_makeAndMove :
    ∃ final, boot.run 1 makeAndMove = some final ∧ final.found 1 "/tmp/b".toList = some 52 ∧
      (∀ node, Reaches final.Branch root node → ¬ OnCycle final.Branch node) ∧
      ∀ target, ∃ rounds, (final.pathOfInode target rounds).isSome := by
  obtain ⟨made, isMade, newParent, oldParent, isChild, childless, final, moved, isMoved⟩ :
      ∃ made, boot.step 1 (.mkdir "/a".toList) = some made ∧
        made.found 1 (rsplitPath "/tmp/b".toList).1 = some 3 ∧
        made.found 1 (rsplitPath "/a".toList).1 = some 0 ∧
        made.child? 0 (rsplitPath "/a".toList).2 = some 52 ∧
        (made.inodes 52).children.isEmpty = true ∧
        ∃ final, made.run 1 [.rename "/a".toList "/tmp/b".toList 0] = some final ∧
          final.found 1 "/tmp/b".toList = some 52 := by
    decide +kernel
  have reached : boot.run 1 makeAndMove = some final :=
    LabelledRun.run_cons_eq_some.mpr ⟨made, isMade, moved⟩
  have apart : LabelledRun.Guarded (step 1) (Apart 1) boot makeAndMove := by
    refine ⟨trivial, ?_⟩
    rw [isMade]
    refine ⟨?_, ?_⟩
    · intro old new child isOld isNew _ isNamed _ removed ⟨_, reaches⟩
      rw [oldParent] at isOld
      obtain rfl := Option.some.inj isOld
      rw [isChild] at isNamed
      obtain rfl := Option.some.inj isNamed
      rw [newParent] at isNew
      obtain rfl := Option.some.inj isNew
      exact not_reaches_of_childless (Std.ExtTreeMap.isEmpty_iff.mp childless) (by decide) reaches
    · split
      · trivial
      · trivial
  exact ⟨final, reached, isMoved, acyclic_of_run apart reached⟩

/-! ### The directory with two names -/

section Endless

variable {vfs : Vfs} {target : Nat}

/-- The stack after some rounds that do not find the inode. -/
def unwind (vfs : Vfs) (target : Nat) : Nat → List (Nat × Text) → Option (List (Nat × Text))
  | 0, stack => some stack
  | _ + 1, [] => none
  | rounds + 1, (node, path) :: stack =>
    if node = target then none
    else
      vfs.unwind target rounds
        (((vfs.entries node).map fun entry => (entry.2, childPath path entry.1)).reverse ++ stack)

theorem search_of_unwind {before : Nat} {stack later : List (Nat × Text)}
    (unwound : vfs.unwind target before stack = some later) (rounds : Nat) :
    vfs.search target (before + rounds) stack = vfs.search target rounds later := by
  induction before generalizing stack with
  | zero =>
    cases unwound
    rw [Nat.zero_add]
  | succ before ih =>
    rw [Nat.succ_add]
    cases stack with
    | nil => cases unwound
    | cons top stack =>
      rw [unwind] at unwound
      rw [search]
      split at unwound
      case isTrue => cases unwound
      case isFalse notTarget =>
        rw [if_neg notTarget]
        exact ih unwound

/-- A directory whose last entry is itself is searched again and again. -/
theorem search_eq_none {name : Text} (isLast : (vfs.entries node).getLast? =
    some (name, node)) (notTarget : node ≠ target) (rounds : Nat) (path : Text)
    (stack : List (Nat × Text)) : vfs.search target rounds ((node, path) :: stack) = none := by
  induction rounds generalizing path stack with
  | zero => rfl
  | succ rounds ih =>
    rw [search, if_neg notTarget]
    obtain ⟨others, isEntries⟩ := List.getLast?_eq_some_iff.mp isLast
    rw [isEntries, List.map_append, List.reverse_append]
    exact ih _ _

end Endless

/-- `/proc/self` and `/proc/1` are one directory; the first name is moved into the second. -/
def moveIntoItself : List VfsLabel := [.rename "/proc/self".toList "/proc/1/x".toList 0]

/-- The directory is then a child of itself, below the root, and the search for `/bin` does not
end. -/
theorem directory_in_itself :
    ∃ final selfDir bin, boot.run 1 moveIntoItself = some final ∧
      final.found 1 "/proc/1".toList = some selfDir ∧ Reaches final.Branch root selfDir ∧
      OnCycle final.Branch selfDir ∧ final.found 1 "/bin".toList = some bin ∧
      ∀ rounds, final.pathOfInode bin rounds = none := by
  obtain ⟨final, reached, isSelf, isBin, isDirectory, isChild, isLast, first, stack, unwound,
      isTop⟩ :
      ∃ final, boot.run 1 moveIntoItself = some final ∧
        final.found 1 "/proc/1".toList = some 31 ∧ final.found 1 "/bin".toList = some 8 ∧
        (final.inodes 31).itype = .Directory ∧ final.child? 31 "x".toList = some 31 ∧
        (final.entries 31).getLast? = some ("x".toList, 31) ∧
        (∀ rounds < 18, final.search 8 rounds [(root, ['/'])] = none) ∧
        ∃ stack, final.unwind 8 18 [(root, ['/'])] = some stack ∧
          stack.head?.map Prod.fst = some 31 := by
    decide +kernel
  refine ⟨final, 31, 8, reached, isSelf, reaches_of_found isSelf,
    .single ⟨isDirectory, _, isChild⟩, isBin, ?_⟩
  intro rounds
  show final.search 8 rounds [(root, ['/'])] = none
  rcases Nat.lt_or_ge rounds 18 with early | late
  · exact first rounds early
  · -- after 18 rounds the search is at the directory in itself
    obtain ⟨more, rfl⟩ := Nat.exists_eq_add_of_le late
    rw [search_of_unwind unwound]
    cases stack with
    | nil => cases isTop
    | cons top stack =>
      obtain ⟨node, path⟩ := top
      obtain rfl : node = 31 := Option.some.inj isTop
      exact search_eq_none isLast (by decide) more path stack

end Vfs

end Cyllor.Fs
