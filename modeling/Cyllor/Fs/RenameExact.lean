import Cyllor.Fs.VfsPaths

/-!
Contract: what `rename` of `fs/vfs.rs` does to the paths of the tree.

Owns:
- `Clear`, resolutions that look up none of some entries, and that they do not depend on them;
- what a `rename` returns and leaves, by its result;
- `RenameSafe`, when a `rename` that fails changes no path and one that succeeds moves exactly
  one entry, and calls that lose an inode without it.
-/

namespace Cyllor.Fs

open Call hiding pure bind

namespace Vfs

/-! ### Resolutions past a change -/

/-- The loop of `resolve_path` looks up none of the entries; `clear` says so of a link. -/
def walkClear (vfs : Vfs) (changed : Nat → Text → Prop)
    (follow : Text → Option (Except Errno Nat)) (clear : Text → Prop) : List Text → Nat → Prop
  | [], _ => True
  | part :: rest, current =>
    if skipped part then vfs.walkClear changed follow clear rest current
    else (vfs.inodes current).itype = .Directory → ¬ changed current part ∧
      ∀ child, vfs.child? current part = some child →
        if (vfs.inodes child).itype = .Symlink then
          clear (vfs.inodes child).data ∧
            ∀ target, follow (vfs.inodes child).data = some (.ok target) →
              vfs.walkClear changed follow clear rest target
        else vfs.walkClear changed follow clear rest child

/-- The resolution of a path looks up none of the entries, and no link on the way does. -/
def Clear (vfs : Vfs) (changed : Nat → Text → Prop) : Nat → Text → Prop
  | 0, _ => True
  | depth + 1, path =>
    vfs.walkClear changed (vfs.resolvePath depth) (vfs.Clear changed depth) (partsOf path) root

/-- Two trees differ in some entries only. -/
structure SameExcept (changed : Nat → Text → Prop) (before after : Vfs) : Prop where
  itype : ∀ node, (after.inodes node).itype = (before.inodes node).itype
  data : ∀ node, (after.inodes node).data = (before.inodes node).data
  child : ∀ node name, ¬ changed node name → after.child? node name = before.child? node name

variable {changed : Nat → Text → Prop} {vfs after : Vfs}

theorem SameExcept.walk_eq (same : SameExcept changed vfs after)
    {follow follow' : Text → Option (Except Errno Nat)} {clear : Text → Prop}
    (follows : ∀ path, clear path → follow' path = follow path) {parts : List Text} {current : Nat}
    (isClear : vfs.walkClear changed follow clear parts current) :
    after.walk follow' parts current = vfs.walk follow parts current := by
  induction parts generalizing current with
  | nil => rfl
  | cons part rest ih =>
    rw [walkClear] at isClear
    rw [walk, walk]
    split
    case isTrue isSkipped =>
      rw [if_pos isSkipped] at isClear
      exact ih isClear
    case isFalse isPart =>
      rw [if_neg isPart] at isClear
      rw [same.itype]
      split
      case isTrue => rfl
      case isFalse isDirectory =>
        obtain ⟨unchanged, below⟩ := isClear (Decidable.not_not.mp isDirectory)
        rw [show (after.inodes current).children[part]? = (vfs.inodes current).children[part]?
          from same.child current part unchanged]
        cases isChild : (vfs.inodes current).children[part]? with
        | none => rfl
        | some child =>
          have belowChild := below child isChild
          dsimp only
          rw [same.itype, same.data]
          split
          case isTrue isLink =>
            rw [if_pos isLink] at belowChild
            rw [follows _ belowChild.1]
            cases followed : follow (vfs.inodes child).data with
            | none => rfl
            | some result =>
              cases result with
              | error error => rfl
              | ok target => exact ih (belowChild.2 target followed)
          case isFalse notLink =>
            rw [if_neg notLink] at belowChild
            exact ih belowChild

/-- A resolution that looks up none of the changed entries gives what it gave. -/
theorem SameExcept.resolvePath_eq (same : SameExcept changed vfs after) {depth : Nat} {path : Text}
    (isClear : vfs.Clear changed depth path) :
    after.resolvePath depth path = vfs.resolvePath depth path := by
  induction depth generalizing path with
  | zero => rfl
  | succ depth ih =>
    rw [Fs.resolvePath_eq, Fs.resolvePath_eq]
    exact same.walk_eq (fun _ => ih) isClear

/-! ### One rename -/

theorem partsOf_rsplitPath (path : Text) :
    partsOf path = partsOf (rsplitPath path).1 ++ partsOf (rsplitPath path).2 := by
  rw [← partsOf_rdropWhile path]
  unfold rsplitPath
  dsimp only
  split
  case h_1 parent name split =>
    rw [(rsplitOnce_eq_some split).1, partsOf_append]
    split
    case isTrue isEmpty =>
      rw [isEmpty]
      rfl
    case isFalse => rfl
  case h_2 => rfl

/-- A path resolves to what its last component names in what its parent resolves to. -/
theorem resolvePath_rsplitPath (vfs : Vfs) (depth : Nat) (path : Text) :
    vfs.resolvePath (depth + 1) path =
      andThen (vfs.resolvePath (depth + 1) (rsplitPath path).1) fun node =>
        vfs.walk (vfs.resolvePath depth) [(rsplitPath path).2] node := by
  rw [vfs.resolvePath_append depth (partsOf_rsplitPath path),
    List.splitOn_eq_singleton (not_mem_rsplitPath path)]

def movedEntries (oldParent newParent : Nat) (oldPath newPath : Text) (node : Nat) (name : Text) :
    Prop :=
  node = oldParent ∧ name = (rsplitPath oldPath).2 ∨
    node = newParent ∧ name = (rsplitPath newPath).2

def afterMove (vfs : Vfs) (oldParent newParent moved : Nat) (oldPath newPath : Text) : Vfs :=
  (vfs.removeChild oldParent (rsplitPath oldPath).2).insertChild newParent (rsplitPath newPath).2
    moved

/-- The call passes the checks that come before the old entry is removed, and there is one: the
flags are known, both paths have a last component, both parents resolve, the new name is not
refused in the directory of the old one, and the old name names an inode. -/
structure Moves (depth : Nat) (vfs : Vfs) (oldPath newPath : Text) (flags : Nat)
    (oldParent newParent moved : Nat) : Prop where
  known : flags &&& (2 ^ 32 - 1 - RENAME_NOREPLACE) = 0
  named : ¬ ((rsplitPath oldPath).2 = [] ∨ (rsplitPath newPath).2 = [])
  accepted : ¬ (oldParent = newParent ∧ flags &&& RENAME_NOREPLACE ≠ 0 ∧
    (vfs.child? newParent (rsplitPath newPath).2).isSome)
  oldFound : vfs.found depth (rsplitPath oldPath).1 = some oldParent
  newFound : vfs.found depth (rsplitPath newPath).1 = some newParent
  isMoved : vfs.child? oldParent (rsplitPath oldPath).2 = some moved

inductive RenameOutcome (depth : Nat) (vfs : Vfs) (oldPath newPath : Text) (flags : Nat) :
    Except Errno Nat → Vfs → Prop
  | failed (error : Errno) : RenameOutcome depth vfs oldPath newPath flags (.error error) vfs
  | lost {oldParent newParent moved : Nat} (error : Errno)
      (moves : Moves depth vfs oldPath newPath flags oldParent newParent moved)
      (different : oldParent ≠ newParent) (noReplace : flags &&& RENAME_NOREPLACE ≠ 0)
      (taken : (vfs.child? newParent (rsplitPath newPath).2).isSome) :
      RenameOutcome depth vfs oldPath newPath flags (.error error)
        (vfs.removeChild oldParent (rsplitPath oldPath).2)
  | moved {oldParent newParent moved : Nat}
      (moves : Moves depth vfs oldPath newPath flags oldParent newParent moved) :
      RenameOutcome depth vfs oldPath newPath flags (.ok 0)
        (vfs.afterMove oldParent newParent moved oldPath newPath)

theorem rename_outcome (depth : Nat) (oldPath newPath : Text) (flags : Nat) :
    wp (rename depth oldPath newPath flags)
      (RenameOutcome depth vfs oldPath newPath flags) vfs := by
  unfold rename
  simp only [wp_ite, wp_throw]
  refine ⟨fun _ => .failed _, fun known => ⟨fun _ => .failed _, fun named => ?_⟩⟩
  rw [not_not] at known
  refine wp_bind_resolve (fun _ => .failed _) fun oldParent oldFound => ?_
  refine wp_bind_resolve (fun _ => .failed _) fun newParent newFound => ?_
  unfold move
  simp only [wp_bind_gets, wp_ite, wp_throw, wp_bind_ofOption,
    wp_bind_modify, wp_pure]
  constructor
  · rintro rfl
    refine ⟨fun _ => .failed _, fun free => ⟨fun _ => .failed _, fun moved isMoved => ?_⟩⟩
    simp only [Std.ExtTreeMap.contains_eq_isSome_getElem?] at free
    exact .moved ⟨known, named, fun taken => free ⟨by simpa using taken.2.1, taken.2.2⟩,
      oldFound, newFound, isMoved⟩
  · intro different
    refine ⟨fun _ => .failed _, fun moved isMoved => ⟨fun taken => ?_, fun _ => ?_⟩⟩
    · have both := taken
      simp only [Std.ExtTreeMap.contains_eq_isSome_getElem?] at both
      exact .lost _ ⟨known, named, fun same => different same.1, oldFound, newFound, isMoved⟩
        different (by simpa using both.1) both.2
    · exact .moved ⟨known, named, fun same => different same.1, oldFound, newFound, isMoved⟩

/-- When a rename keeps to the entries it names. No name of another directory is refused after
the old entry is gone; the new name is looked up, in a directory, and so is the old one, unless
its directory is another inode; the inode is no symbolic link; the paths of both parents pass
through neither entry; and what is replaced, unless it is the same inode, has nothing else
below it. -/
structure RenameSafe (depth : Nat) (vfs : Vfs) (oldPath newPath : Text) (flags : Nat)
    (oldParent newParent moved : Nat) : Prop where
  kept : ¬ (oldParent ≠ newParent ∧ flags &&& RENAME_NOREPLACE ≠ 0 ∧
    (vfs.child? newParent (rsplitPath newPath).2).isSome)
  oldName : skipped (rsplitPath oldPath).2 = true → oldParent ≠ moved
  newName : skipped (rsplitPath newPath).2 = false
  directory : (vfs.inodes newParent).itype = .Directory
  notLink : (vfs.inodes moved).itype ≠ .Symlink
  oldClear : vfs.Clear (movedEntries oldParent newParent oldPath newPath) depth
    (rsplitPath oldPath).1
  newClear : vfs.Clear (movedEntries oldParent newParent oldPath newPath) depth
    (rsplitPath newPath).1
  leaf : ∀ replaced, vfs.child? newParent (rsplitPath newPath).2 = some replaced →
    replaced ≠ moved → ∀ child, vfs.Branch replaced child → child = moved

/-- What a rename that succeeds is to do: the new path resolves to the inode, the old one does not
unless both name one entry, resolutions that pass through neither entry give what they gave, and
nothing but what was replaced is unreachable now. -/
structure RenamedExactly (depth : Nat) (vfs after : Vfs) (oldPath newPath : Text)
    (oldParent newParent moved : Nat) : Prop where
  new : after.resolvePath depth newPath = some (.ok moved)
  old : oldParent = newParent ∧ (rsplitPath oldPath).2 = (rsplitPath newPath).2 ∨
    after.resolvePath depth oldPath ≠ some (.ok moved)
  others : ∀ bound path, vfs.Clear (movedEntries oldParent newParent oldPath newPath) bound path →
    after.resolvePath bound path = vfs.resolvePath bound path
  reachable : ∀ node, Digraph.Reaches vfs.Branch root node →
    Digraph.Reaches after.Branch root node ∨
      vfs.child? newParent (rsplitPath newPath).2 = some node

section Moved

variable {depth flags oldParent newParent moved : Nat} {oldPath newPath : Text}

theorem child?_afterMove (vfs : Vfs) (node : Nat) (name : Text) :
    (vfs.afterMove oldParent newParent moved oldPath newPath).child? node name =
      if node = newParent ∧ name = (rsplitPath newPath).2 then some moved
      else if node = oldParent ∧ name = (rsplitPath oldPath).2 then none
      else vfs.child? node name := by
  rw [afterMove, child?_insertChild, child?_removeChild]

theorem itype_afterMove (vfs : Vfs) (node : Nat) :
    ((vfs.afterMove oldParent newParent moved oldPath newPath).inodes node).itype =
      (vfs.inodes node).itype := by
  rw [afterMove, itype_insertChild, itype_removeChild]

theorem sameExcept_afterMove (vfs : Vfs) :
    SameExcept (movedEntries oldParent newParent oldPath newPath) vfs
      (vfs.afterMove oldParent newParent moved oldPath newPath) where
  itype := itype_afterMove vfs
  data node := by rw [afterMove, data_insertChild, data_removeChild]
  child node name unchanged := by
    rw [child?_afterMove, if_neg (fun isNew => unchanged (.inr isNew)),
      if_neg (fun isOld => unchanged (.inl isOld))]

theorem walk_name {follow : Text → Option (Except Errno Nat)} {name : Text} {node : Nat}
    (isName : skipped name = false) (isDirectory : (vfs.inodes node).itype = .Directory) :
    vfs.walk follow [name] node =
      match vfs.child? node name with
      | none => some (.error .ENOENT)
      | some child =>
        if (vfs.inodes child).itype = .Symlink then
          andThen (follow (vfs.inodes child).data) fun target => some (.ok target)
        else some (.ok child) := by
  rw [walk, if_neg (by simp [isName]), if_neg (by simp [isDirectory])]
  change (match vfs.child? node name with | none => _ | some child => _) = _
  cases vfs.child? node name with
  | none => rfl
  | some child =>
    dsimp only
    split
    · rcases follow (vfs.inodes child).data with _ | _ | _ <;> rfl
    · rfl

variable (moves : Moves depth vfs oldPath newPath flags oldParent newParent moved)
  (safe : RenameSafe depth vfs oldPath newPath flags oldParent newParent moved)

include moves safe

theorem newParent_afterMove :
    (vfs.afterMove oldParent newParent moved oldPath newPath).resolvePath depth
      (rsplitPath newPath).1 = some (.ok newParent) :=
  ((sameExcept_afterMove vfs).resolvePath_eq safe.newClear).trans (found_eq_some.mp moves.newFound)

/-- What was below the root still is, but for what was replaced. -/
theorem reaches_afterMove {node : Nat} (reaches : Digraph.Reaches vfs.Branch root node) :
    Digraph.Reaches (vfs.afterMove oldParent newParent moved oldPath newPath).Branch root node ∨
      vfs.child? newParent (rsplitPath newPath).2 = some node ∧ node ≠ moved := by
  have branch : ∀ {parent child : Nat} (name : Text), (vfs.inodes parent).itype = .Directory →
      (vfs.afterMove oldParent newParent moved oldPath newPath).child? parent name = some child →
      (vfs.afterMove oldParent newParent moved oldPath newPath).Branch parent child :=
    fun name isDirectory isChild => ⟨(itype_afterMove vfs _).trans isDirectory, name, isChild⟩
  have movedReached : Digraph.Reaches
      (vfs.afterMove oldParent newParent moved oldPath newPath).Branch root moved := by
    refine (reaches_of_resolvePath (newParent_afterMove moves safe)).tail
      (branch (rsplitPath newPath).2 safe.directory ?_)
    rw [child?_afterMove, if_pos ⟨rfl, rfl⟩]
  induction reaches with
  | refl => exact .inl .refl
  | @tail parent child _ step ih =>
    obtain ⟨isDirectory, name, isChild⟩ := step
    rcases ih with reached | ⟨isReplaced, isOther⟩
    · by_cases isMoved : child = moved
      · exact .inl (isMoved ▸ movedReached)
      · by_cases isNew : parent = newParent ∧ name = (rsplitPath newPath).2
        · rw [isNew.1, isNew.2] at isChild
          exact .inr ⟨isChild, isMoved⟩
        · refine .inl (reached.tail (branch name isDirectory ?_))
          rw [child?_afterMove, if_neg isNew, if_neg]
          · exact isChild
          · rintro ⟨rfl, rfl⟩
            exact isMoved (Option.some.inj (isChild.symm.trans moves.isMoved))
    · obtain rfl := safe.leaf parent isReplaced isOther child ⟨isDirectory, name, isChild⟩
      exact .inl movedReached

theorem renamedExactly : RenamedExactly depth vfs
    (vfs.afterMove oldParent newParent moved oldPath newPath) oldPath newPath oldParent newParent
    moved := by
  have same : SameExcept (movedEntries oldParent newParent oldPath newPath) vfs
      (vfs.afterMove oldParent newParent moved oldPath newPath) := sameExcept_afterMove vfs
  have newKept := newParent_afterMove moves safe
  have oldKept := (same.resolvePath_eq safe.oldClear).trans (found_eq_some.mp moves.oldFound)
  obtain _ | depth := depth
  · cases newKept
  refine
    { new := ?_
      old := or_iff_not_imp_left.mpr fun different => ?_
      others := fun _ _ isClear => same.resolvePath_eq isClear
      reachable := fun _ reaches => (reaches_afterMove moves safe reaches).imp_right And.left }
  · have isDirectory := (same.itype newParent).trans safe.directory
    rw [resolvePath_rsplitPath, newKept, andThen, walk_name safe.newName isDirectory,
      child?_afterMove, if_pos ⟨rfl, rfl⟩]
    exact if_neg fun isLink => safe.notLink ((same.itype moved).symm.trans isLink)
  · rw [resolvePath_rsplitPath, oldKept, andThen]
    cases oldName : skipped (rsplitPath oldPath).2 with
    | true =>
      rw [walk, if_pos oldName, walk]
      simpa using safe.oldName oldName
    | false =>
    by_cases isDirectory : ((vfs.afterMove oldParent newParent moved oldPath newPath).inodes
        oldParent).itype = .Directory
    · rw [walk_name oldName isDirectory, child?_afterMove, if_neg different,
        if_pos ⟨rfl, rfl⟩]
      simp
    · rw [walk, if_neg (by simp [oldName]), if_pos isDirectory]
      simp

end Moved

end Vfs

end Cyllor.Fs
