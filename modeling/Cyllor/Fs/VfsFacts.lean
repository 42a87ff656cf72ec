import Cyllor.Fs.Vfs
import Cyllor.Lib.Digraph

/-!
Contract: what the calls on the tree of inodes do to it.

Owns:
- lookups after an entry is inserted or removed;
- `Change`, what each call can make of the tree;
- that resolution follows directories from the root, and does not depend on the depth it is
  given once it returns.
-/

namespace Cyllor.Fs

open Digraph (Reaches)
open Call hiding pure bind
open Function (update update_self update_of_ne)

variable {node parent first second child depth : Nat} {name path : Text}

namespace Vfs

def child? (vfs : Vfs) (node : Nat) (name : Text) : Option Nat :=
  (vfs.inodes node).children[name]?

def Child (vfs : Vfs) (parent child : Nat) : Prop := ∃ name, vfs.child? parent name = some child

def Branch (vfs : Vfs) (parent child : Nat) : Prop :=
  (vfs.inodes parent).itype = .Directory ∧ vfs.Child parent child

def found (vfs : Vfs) (depth : Nat) (path : Text) : Option Nat :=
  (vfs.resolvePath depth path).bind Except.toOption

/-! ### Lookups -/

section Lookups

variable (vfs : Vfs) (parent node : Nat) (name other : Text)

theorem itype_setChildren (children : BTreeMap Text Nat) :
    ((vfs.setChildren parent children).inodes node).itype = (vfs.inodes node).itype := by
  show (update vfs.inodes parent _ node).itype = _
  by_cases isParent : node = parent
  · rw [isParent, update_self]
  · rw [update_of_ne isParent]

theorem data_setChildren (children : BTreeMap Text Nat) :
    ((vfs.setChildren parent children).inodes node).data = (vfs.inodes node).data := by
  show (update vfs.inodes parent _ node).data = _
  by_cases isParent : node = parent
  · rw [isParent, update_self]
  · rw [update_of_ne isParent]

theorem child?_setChildren (children : BTreeMap Text Nat) :
    (vfs.setChildren parent children).child? node other =
      if node = parent then children[other]? else vfs.child? node other := by
  show (update vfs.inodes parent _ node).children[other]? = _
  split
  case isTrue isParent => rw [isParent, update_self]
  case isFalse isOther =>
    rw [update_of_ne isOther]
    rfl

theorem itype_insertChild (child : Nat) :
    ((vfs.insertChild parent name child).inodes node).itype = (vfs.inodes node).itype :=
  itype_setChildren vfs parent node _

theorem data_insertChild (child : Nat) :
    ((vfs.insertChild parent name child).inodes node).data = (vfs.inodes node).data :=
  data_setChildren vfs parent node _

theorem itype_removeChild :
    ((vfs.removeChild parent name).inodes node).itype = (vfs.inodes node).itype :=
  itype_setChildren vfs parent node _

theorem data_removeChild :
    ((vfs.removeChild parent name).inodes node).data = (vfs.inodes node).data :=
  data_setChildren vfs parent node _

theorem child?_insertChild (child : Nat) :
    (vfs.insertChild parent name child).child? node other =
      if node = parent ∧ other = name then some child else vfs.child? node other := by
  rw [insertChild, child?_setChildren, Std.ExtTreeMap.getElem?_insert]
  simp only [Std.LawfulEqCmp.compare_eq_iff_eq, eq_comm (a := name)]
  by_cases isParent : node = parent
  · subst isParent
    by_cases isName : other = name <;> simp [isName, child?]
  · simp [isParent]

theorem child?_removeChild :
    (vfs.removeChild parent name).child? node other =
      if node = parent ∧ other = name then none else vfs.child? node other := by
  rw [removeChild, child?_setChildren, Std.ExtTreeMap.getElem?_erase]
  simp only [Std.LawfulEqCmp.compare_eq_iff_eq, eq_comm (a := name)]
  by_cases isParent : node = parent
  · subst isParent
    by_cases isName : other = name <;> simp [isName, child?]
  · simp [isParent]

theorem itype_insertNew (inode : Inode) :
    ((vfs.insertNew parent name inode).inodes node).itype =
      if node = vfs.next then inode.itype else (vfs.inodes node).itype := by
  unfold insertNew
  rw [itype_insertChild]
  show (update vfs.inodes vfs.next inode node).itype = _
  by_cases isNew : node = vfs.next
  · rw [isNew, update_self, if_pos rfl]
  · rw [update_of_ne isNew, if_neg isNew]

theorem data_insertNew (inode : Inode) :
    ((vfs.insertNew parent name inode).inodes node).data =
      if node = vfs.next then inode.data else (vfs.inodes node).data := by
  unfold insertNew
  rw [data_insertChild]
  show (update vfs.inodes vfs.next inode node).data = _
  by_cases isNew : node = vfs.next
  · rw [isNew, update_self, if_pos rfl]
  · rw [update_of_ne isNew, if_neg isNew]

theorem child?_insertNew (inode : Inode) :
    (vfs.insertNew parent name inode).child? node other =
      if node = parent ∧ other = name then some vfs.next
      else if node = vfs.next then inode.children[other]? else vfs.child? node other := by
  unfold insertNew
  rw [child?_insertChild]
  split
  · rfl
  · show (update vfs.inodes vfs.next inode node).children[other]? = _
    by_cases isNew : node = vfs.next
    · rw [isNew, update_self, if_pos rfl]
    · rw [update_of_ne isNew, if_neg isNew]
      rfl

end Lookups

/-! ### Edges -/

section Edges

variable {vfs : Vfs}

theorem reaches_child {start : Nat} (reaches : Reaches vfs.Branch start node) :
    Reaches vfs.Child start node :=
  Relation.ReflTransGen.mono (fun _ _ branch => branch.2) _ _ reaches

theorem Child.of_removeChild (step : (vfs.removeChild parent name).Child first second) :
    vfs.Child first second := by
  obtain ⟨other, isChild⟩ := step
  rw [child?_removeChild] at isChild
  split at isChild
  · cases isChild
  · exact ⟨other, isChild⟩

theorem Branch.of_removeChild (step : (vfs.removeChild parent name).Branch first second) :
    vfs.Branch first second := by
  refine ⟨?_, Child.of_removeChild step.2⟩
  rw [← itype_removeChild vfs parent first name]
  exact step.1

theorem Child.of_insertChild (step : (vfs.insertChild parent name child).Child first second) :
    vfs.Child first second ∨ first = parent ∧ second = child := by
  obtain ⟨other, isChild⟩ := step
  rw [child?_insertChild] at isChild
  split at isChild
  case isTrue here => exact .inr ⟨here.1, (Option.some.inj isChild).symm⟩
  case isFalse => exact .inl ⟨other, isChild⟩

theorem Branch.of_insertChild (step : (vfs.insertChild parent name child).Branch first second) :
    vfs.Branch first second ∨ first = parent ∧ second = child := by
  have isDirectory := step.1
  rw [itype_insertChild] at isDirectory
  rcases Child.of_insertChild step.2 with isOld | isNew
  · exact .inl ⟨isDirectory, isOld⟩
  · exact .inr isNew

/-- Children, and the inodes that have them, have numbers in use. -/
structure Numbered (vfs : Vfs) : Prop where
  used : 0 < vfs.next
  children : ∀ {parent child : Nat}, vfs.Child parent child →
    parent < vfs.next ∧ child < vfs.next

theorem Numbered.lt_next (numbered : vfs.Numbered) (reaches : Reaches vfs.Child root node) :
    node < vfs.next := by
  cases reaches with
  | refl => exact numbered.used
  | tail _ step => exact (numbered.children step).2

theorem Numbered.removeChild (numbered : vfs.Numbered) (parent : Nat) (name : Text) :
    (vfs.removeChild parent name).Numbered where
  used := numbered.used
  children step := numbered.children (Child.of_removeChild step)

theorem Numbered.insertChild (numbered : vfs.Numbered) (name : Text)
    (isParent : parent < vfs.next) (isChild : child < vfs.next) :
    (vfs.insertChild parent name child).Numbered where
  used := numbered.used
  children step := by
    rcases Child.of_insertChild step with isOld | ⟨rfl, rfl⟩
    · exact numbered.children isOld
    · exact ⟨isParent, isChild⟩

theorem Numbered.insertNew (numbered : vfs.Numbered) (name : Text) {inode : Inode}
    (isParent : parent < vfs.next) (childless : inode.children = ∅) :
    (vfs.insertNew parent name inode).Numbered where
  used := Nat.succ_pos _
  children {first second} step := by
    obtain ⟨other, isChild⟩ := step
    rw [child?_insertNew] at isChild
    show first < vfs.next + 1 ∧ second < vfs.next + 1
    split at isChild
    case isTrue here =>
      cases isChild
      omega
    case isFalse =>
      split at isChild
      · rw [childless] at isChild
        simp at isChild
      · have before := numbered.children ⟨other, isChild⟩
        omega

end Edges

/-! ### Resolution -/

section Resolution

variable {vfs : Vfs}

/-- Resolution goes down from where it is, or starts again at the root for a link. -/
theorem reaches_of_walk {follow : Text → Option (Except Errno Nat)}
    (links : ∀ {path node}, follow path = some (.ok node) → Reaches vfs.Branch root node)
    {components : List Text} {current : Nat} (reached : Reaches vfs.Branch root current)
    (walked : vfs.walk follow components current = some (.ok node)) :
    Reaches vfs.Branch root node := by
  fun_induction vfs.walk follow components current with
  | case1 =>
    cases walked
    exact reached
  | case2 _ _ _ _ ih => exact ih reached walked
  | case3 | case4 | case5 | case6 => cases walked
  | case7 _ _ _ _ _ _ _ _ _ followed ih => exact ih (links followed) walked
  | case8 component rest current _ isDirectory child isChild _ ih =>
    have step : vfs.Branch current child :=
      ⟨Decidable.not_not.mp isDirectory, component, isChild⟩
    exact ih (reached.tail step) walked

theorem reaches_of_resolvePath (resolved : vfs.resolvePath depth path = some (.ok node)) :
    Reaches vfs.Branch root node := by
  induction depth generalizing path node with
  | zero => cases resolved
  | succ depth ih =>
    rw [resolvePath] at resolved
    split at resolved
    · cases resolved
      exact .refl
    · exact reaches_of_walk ih .refl resolved

theorem found_eq_some :
    vfs.found depth path = some node ↔ vfs.resolvePath depth path = some (.ok node) := by
  unfold found
  cases vfs.resolvePath depth path with
  | none => simp
  | some result =>
    cases result with
    | error error => simp [Except.toOption]
    | ok other => simp [Except.toOption]

theorem reaches_of_found (isFound : vfs.found depth path = some node) :
    Reaches vfs.Branch root node :=
  reaches_of_resolvePath (found_eq_some.mp isFound)

end Resolution

/-! ### Calls -/

/-- A directory or a file that was not there is entered, in an inode that a path resolves to. -/
def Grow (depth : Nat) (vfs next : Vfs) : Prop :=
  ∃ path parent name inode, vfs.found depth path = some parent ∧
    (inode = .newDir ∨ inode = .newFile) ∧ next = vfs.insertNew parent name inode

/-- What a call makes of the tree. -/
inductive Change (depth : Nat) (vfs : Vfs) : VfsLabel → Vfs → Prop
  | same (label : VfsLabel) : Change depth vfs label vfs
  | mkdir {path : Text} {parent : Nat} :
      vfs.found depth (rsplitPath path).1 = some parent →
      Change depth vfs (.mkdir path) (vfs.insertNew parent (rsplitPath path).2 .newDir)
  | unlink {path : Text} {parent : Nat} :
      vfs.found depth (rsplitPath path).1 = some parent →
      Change depth vfs (.unlink path) (vfs.removeChild parent (rsplitPath path).2)
  | rename {oldPath newPath : Text} {flags parent moved : Nat} :
      vfs.found depth (rsplitPath oldPath).1 = some parent →
      vfs.found depth (rsplitPath newPath).1 = some parent →
      vfs.child? parent (rsplitPath oldPath).2 = some moved →
      Change depth vfs (.rename oldPath newPath flags)
        ((vfs.removeChild parent (rsplitPath oldPath).2).insertChild parent
          (rsplitPath newPath).2 moved)
  | lose {oldPath newPath : Text} {flags oldParent : Nat} :
      vfs.found depth (rsplitPath oldPath).1 = some oldParent →
      Change depth vfs (.rename oldPath newPath flags)
        (vfs.removeChild oldParent (rsplitPath oldPath).2)
  | move {oldPath newPath : Text} {flags oldParent newParent moved : Nat} :
      vfs.found depth (rsplitPath oldPath).1 = some oldParent →
      vfs.found depth (rsplitPath newPath).1 = some newParent → oldParent ≠ newParent →
      vfs.child? oldParent (rsplitPath oldPath).2 = some moved →
      Change depth vfs (.rename oldPath newPath flags)
        ((vfs.removeChild oldParent (rsplitPath oldPath).2).insertChild newParent
          (rsplitPath newPath).2 moved)
  | openat {path : Text} {onDisk : Bool} {after : Vfs} :
      Relation.ReflTransGen (Grow depth) vfs after → Change depth vfs (.openat path onDisk) after

section Calls

variable {depth : Nat} {vfs : Vfs}

theorem wp_resolve {post : Except Errno Nat → Vfs → Prop} :
    wp (resolve depth path) post vfs ↔
      ∀ result, vfs.resolvePath depth path = some result → post result vfs := by
  unfold wp resolve
  constructor
  · intro holds result resolved
    exact holds result vfs (by rw [resolved]; rfl)
  · intro holds result after returned
    obtain ⟨outcome, resolved, isOutcome⟩ := Option.map_eq_some_iff.mp returned
    cases isOutcome
    exact holds _ resolved

theorem wp_bind_resolve {α : Type} {next : Nat → VfsCall α} {post : Except Errno α → Vfs → Prop}
    (fails : ∀ error, post (.error error) vfs)
    (holds : ∀ node, vfs.found depth path = some node → wp (next node) post vfs) :
    wp (resolve depth path >>= next) post vfs := by
  rw [wp_bind, wp_resolve]
  intro result resolved
  cases result with
  | error error => exact fails error
  | ok node => exact holds node (found_eq_some.mpr resolved)

theorem change_mkdir (path : Text) :
    wp (mkdir depth path) (fun _ after => Change depth vfs (.mkdir path) after) vfs := by
  unfold mkdir
  refine wp_bind_resolve (fun _ => .same _) ?_
  intro parent resolved
  simp only [wp_bind_gets, wp_ite, wp_throw, wp_bind_modify, wp_pure]
  exact ⟨fun _ => .same _, fun _ => .mkdir resolved⟩

theorem change_unlink (path : Text) :
    wp (unlink depth path) (fun _ after => Change depth vfs (.unlink path) after) vfs := by
  unfold unlink
  refine wp_bind_resolve (fun _ => .same _) ?_
  intro parent resolved
  simp only [wp_bind_gets, wp_ite, wp_throw, wp_bind_modify, wp_pure]
  exact ⟨fun _ => .unlink resolved, fun _ => .same _⟩

theorem change_rename (oldPath newPath : Text) (flags : Nat) :
    wp (rename depth oldPath newPath flags)
      (fun _ after => Change depth vfs (.rename oldPath newPath flags) after) vfs := by
  unfold rename
  simp only [wp_ite, wp_throw]
  refine ⟨fun _ => .same _, fun _ => ⟨fun _ => .same _, fun _ => ?_⟩⟩
  refine wp_bind_resolve (fun _ => .same _) ?_
  intro oldParent oldResolved
  refine wp_bind_resolve (fun _ => .same _) ?_
  intro newParent newResolved
  unfold move
  simp only [wp_bind_gets, wp_ite, wp_throw, wp_bind_ofOption,
    wp_bind_modify, wp_pure]
  constructor
  · intro same
    refine ⟨fun _ => .same _, fun _ => ⟨fun _ => .same _, fun moved isMoved => ?_⟩⟩
    rw [← same] at newResolved
    exact .rename oldResolved newResolved isMoved
  · intro apart
    refine ⟨fun _ => .same _, fun moved isMoved => ⟨fun _ => .lose oldResolved, fun _ => ?_⟩⟩
    exact .move oldResolved newResolved apart isMoved

instance : IsPreorder Vfs (Relation.ReflTransGen (Grow depth)) where

theorem grow_resolve (path : Text) :
    Keeps (Relation.ReflTransGen (Grow depth)) (resolve depth path) := by
  intro vfs
  exact wp_resolve.mpr fun _ _ => .refl

theorem grow_ensureVfsParent (parent part : Text) :
    Keeps (Relation.ReflTransGen (Grow depth)) (ensureVfsParent depth parent part) := by
  intro vfs
  unfold ensureVfsParent
  rw [wp_bind, wp_attempt, wp_resolve]
  intro result _
  cases result with
  | ok node => exact keeps_pure _ vfs
  | error error =>
    show wp (Call.attempt _ >>= _) _ vfs
    rw [wp_bind, wp_attempt, wp_resolve]
    intro above resolved
    cases above with
    | error error => exact keeps_pure _ vfs
    | ok node =>
      show wp (Call.modify _) _ vfs
      rw [wp_modify]
      exact .single ⟨_, node, part, _, found_eq_some.mpr resolved, .inl rfl, rfl⟩

theorem grow_ensureVfsParents (current : Text) (parts : List Text) :
    Keeps (Relation.ReflTransGen (Grow depth)) (ensureVfsParents depth current parts) := by
  induction parts generalizing current with
  | nil => exact keeps_pure _
  | cons part parts ih =>
    exact (grow_ensureVfsParent current part).bind fun _ => ih _

theorem grow_materialize (path : Text) :
    Keeps (Relation.ReflTransGen (Grow depth)) (materializeExt4FileToVfs depth path) := by
  unfold materializeExt4FileToVfs
  apply Keeps.ite (keeps_throw _)
  apply (grow_ensureVfsParents [] _).bind
  intro _
  apply (keeps_ofOption _ _).bind
  intro (parentPath, name) vfs
  refine wp_bind_resolve (fun _ => .refl) ?_
  intro parent resolved
  rw [wp_modify]
  exact .single ⟨_, parent, name, _, resolved, .inr rfl, rfl⟩

theorem change_openat (path : Text) (onDisk : Bool) :
    wp (openat depth path onDisk)
      (fun _ after => Change depth vfs (.openat path onDisk) after) vfs := by
  have grows : Keeps (Relation.ReflTransGen (Grow depth)) (openat depth path onDisk) := by
    unfold openat
    apply Keeps.ite (keeps_pure _)
    have resolves : ∀ {path : Text}, Keeps (Relation.ReflTransGen (Grow depth))
        (Call.attempt (resolve depth path) : VfsCall (Except Errno Nat)) := by
      intro path vfs
      rw [wp_attempt]
      exact grow_resolve path vfs
    apply resolves.bind
    intro found
    cases found with
    | ok node => exact keeps_pure _
    | error error =>
      apply Keeps.ite _ (keeps_throw _)
      apply Keeps.bind
      · intro vfs
        rw [wp_attempt]
        exact grow_materialize path vfs
      · intro _
        apply resolves.bind
        intro loaded
        cases loaded with
        | ok node => exact keeps_pure _
        | error error => exact keeps_throw _
  exact wp_mono (grows vfs) fun _ _ grown => .openat grown

theorem change_of_step {label : VfsLabel} {next : Vfs} (stepped :
    vfs.step depth label = some next) :
    Change depth vfs label next := by
  cases label with
  | mkdir path => exact of_wp (change_mkdir path) stepped
  | unlink path => exact of_wp (change_unlink path) stepped
  | rename oldPath newPath flags => exact of_wp (change_rename oldPath newPath flags) stepped
  | openat path onDisk => exact of_wp (change_openat path onDisk) stepped

end Calls

end Vfs

end Cyllor.Fs
