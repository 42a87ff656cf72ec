import Cyllor.Fs.VfsPaths
import Cyllor.Fs.VfsTree

/-!
Contract: names relative to an open directory (`resolve_at_path` of `fs/mod.rs` with
`path_of_inode` and `resolve_path` of `fs/vfs.rs`).

Owns:
- `resolve_at_path`;
- that the search for an inode finds a path to it, if there is one, by which it resolves;
- that a name relative to an open directory resolves to the directory's child, in every run of
  calls that give usable names and close no cycle, and a run where it does not.
-/

namespace Cyllor.Fs

namespace Vfs

/-- `resolve_at_path`, which searches for a number of rounds; `getInode` is what `get_file` gives
for a descriptor, with the inode of the file. -/
def resolveAtPath (vfs : Vfs) (rounds : Nat) (cwd : Text)
    (getInode : Nat → Except Errno (Option Nat)) (dirfd : Int) (path : Text) :
    Option (Except Errno Text) :=
  if path.head? = some '/' then some (.ok path)
  else if dirfd = -100 then
    if cwd = ['/'] then some (.ok ('/' :: path))
    else some (.ok (cwd.rdropWhile (· = '/') ++ '/' :: path))
  else if dirfd < 0 then some (.error .EBADF)
  else
    match getInode dirfd.toNat with
    | .error error => some (.error error)
    | .ok none => some (.error .EBADF)
    | .ok (some inode) =>
      if (vfs.inodes inode).itype ≠ .Directory then some (.error .ENOTDIR)
      else
        (vfs.pathOfInode inode rounds).map fun
          | none => .error .ENOENT
          | some base =>
            if base = ['/'] then .ok ('/' :: path)
            else .ok (base.rdropWhile (· = '/') ++ '/' :: path)

variable {vfs : Vfs} {target : Nat}

/-- The path leads to the inode, unless that is a symbolic link. -/
def LeadsTo (vfs : Vfs) (path : Text) (node : Nat) : Prop :=
  (vfs.inodes node).itype ≠ .Symlink →
    ∀ follow, vfs.walk follow (partsOf path) root = some (.ok node)

theorem partsOf_childPath (path name : Text) :
    partsOf (childPath path name) = partsOf path ++ partsOf name := by
  unfold childPath
  split
  case isTrue isRoot =>
    rw [isRoot]
    exact partsOf_append [] name
  case isFalse => exact partsOf_append path name

theorem LeadsTo.child (named : vfs.Named) {path name : Text} {node child : Nat}
    (leads : vfs.LeadsTo path node) (isChild : vfs.child? node name = some child) :
    vfs.LeadsTo (childPath path name) child := by
  intro notLink follow
  have isDirectory := named.directory isChild
  obtain ⟨notSkipped, noSlash⟩ := named.proper isChild
  have notEmpty : name ≠ [] := by
    rintro rfl
    cases notSkipped
  rw [partsOf_childPath, walk_append, leads (by simp [isDirectory]) follow,
    partsOf_part noSlash notEmpty]
  change (vfs.inodes node).children[name]? = some child at isChild
  simp [walk, notSkipped, isDirectory, isChild, notLink]

theorem leadsTo_of_search (named : vfs.Named) {rounds : Nat} {stack : List (Nat × Text)}
    {path : Text} (leads : ∀ item ∈ stack, vfs.LeadsTo item.2 item.1)
    (found : vfs.search target rounds stack = some (some path)) : vfs.LeadsTo path target := by
  induction rounds generalizing stack with
  | zero => cases found
  | succ rounds ih =>
    cases stack with
    | nil => cases found
    | cons top stack =>
      have topLeads := leads top List.mem_cons_self
      rw [search] at found
      split at found
      case isTrue isTarget =>
        cases found
        rwa [isTarget] at topLeads
      case isFalse =>
        refine ih ?_ found
        intro item member
        rcases List.mem_append.mp member with pushed | old
        · obtain ⟨entry, isEntry, rfl⟩ := List.mem_map.mp (List.mem_reverse.mp pushed)
          unfold entries at isEntry
          split at isEntry
          · cases isEntry
          · exact topLeads.child named (Std.ExtTreeMap.mem_toList_iff_getElem?_eq_some.mp isEntry)
        · exact leads item (List.mem_cons_of_mem _ old)

theorem not_reaches_of_search {rounds : Nat} {stack : List (Nat × Text)}
    (ended : vfs.search target rounds stack = some none) :
    ∀ item ∈ stack, ¬ Digraph.Reaches vfs.Branch item.1 target := by
  induction rounds generalizing stack with
  | zero => cases ended
  | succ rounds ih =>
    cases stack with
    | nil => exact fun item member => absurd member List.not_mem_nil
    | cons top stack =>
      rw [search] at ended
      split at ended
      case isTrue => cases ended
      case isFalse notTarget =>
        have later := ih ended
        intro item member reaches
        rcases List.mem_cons.mp member with rfl | old
        · rcases reaches.cases_head with same | ⟨child, ⟨isDirectory, name, isChild⟩, below⟩
          · exact notTarget same
          · refine later (child, childPath item.2 name) (List.mem_append_left _ ?_) below
            refine List.mem_reverse.mpr (List.mem_map.mpr ⟨(name, child), ?_, rfl⟩)
            rw [entries, if_neg (by simp [isDirectory])]
            exact Std.ExtTreeMap.mem_toList_iff_getElem?_eq_some.mpr isChild
        · exact later item (List.mem_append_right _ old) reaches

/-- `path_of_inode` finds a path that leads to an inode of the tree. -/
theorem Tree.pathOfInode_leadsTo (tree : vfs.Tree) (named : vfs.Named) {node : Nat}
    (inTree : Digraph.Reaches vfs.Branch root node) :
    ∃ rounds path, vfs.pathOfInode node rounds = some (some path) ∧ vfs.LeadsTo path node := by
  obtain ⟨rounds, ended⟩ := tree.pathOfInode_isSome node
  obtain ⟨result, isResult⟩ := Option.isSome_iff_exists.mp ended
  refine ⟨rounds, ?_⟩
  unfold pathOfInode at isResult ⊢
  split at isResult
  case isTrue isRoot =>
    rw [if_pos isRoot]
    exact ⟨['/'], rfl, fun _ _ => congrArg (some ∘ Except.ok) isRoot⟩
  case isFalse notRoot =>
    rw [if_neg notRoot, isResult]
    cases result with
    | none => exact absurd inTree (not_reaches_of_search isResult _ (List.mem_singleton_self _))
    | some path =>
      refine ⟨path, rfl, leadsTo_of_search named ?_ isResult⟩
      intro item member
      obtain rfl := List.mem_singleton.mp member
      exact fun _ _ => rfl

/-- From a path that leads to a directory, a usable name resolves to the directory's child. -/
theorem LeadsTo.resolvePath {path base name : Text} {node : Nat} (leads : vfs.LeadsTo base node)
    (isDirectory : (vfs.inodes node).itype = .Directory) (noSlash : '/' ∉ name)
    (notSkipped : skipped name = false)
    (notLink : ∀ child, vfs.child? node name = some child → (vfs.inodes child).itype ≠ .Symlink)
    (isPath : partsOf path = partsOf base ++ partsOf name) (bound : Nat) :
    vfs.resolvePath (bound + 1) path = some (vfs.getChild node name) := by
  have resolved : vfs.resolvePath (bound + 1) base = some (.ok node) := by
    rw [resolvePath_eq]
    exact leads (by simp [isDirectory]) _
  rw [vfs.resolvePath_append bound isPath, resolved, List.splitOn_eq_singleton noSlash]
  simp only [andThen, walk, notSkipped, isDirectory, getChild]
  cases isChild : vfs.child? node name with
  | none =>
    rw [child?] at isChild
    simp [isChild]
  | some child =>
    have other := notLink child isChild
    rw [child?] at isChild
    simp [isChild, other]

/-- In every run of calls that give usable names in directories and close no cycle: the path
made of an open directory of the tree and a usable name resolves to the directory's child of
that name, or is not found when it has none. -/
theorem resolveAtPath_of_run {depth : Nat} {trace : List VfsLabel} {final : Vfs}
    (tidy : LabelledRun.Guarded (step depth)
      (fun vfs label => Proper depth vfs label ∧ Apart depth vfs label) boot trace)
    (reached : boot.run depth trace = some final) (cwd : Text) {name : Text}
    (getInode : Nat → Except Errno (Option Nat)) {dirfd : Int} {node : Nat} (isFd : 0 ≤ dirfd)
    (isOpen : getInode dirfd.toNat = .ok (some node))
    (inTree : Digraph.Reaches final.Branch root node)
    (isDirectory : (final.inodes node).itype = .Directory) (noSlash : '/' ∉ name)
    (notSkipped : skipped name = false)
    (notLink : ∀ child, final.child? node name = some child →
      (final.inodes child).itype ≠ .Symlink) :
    ∃ rounds path, final.resolveAtPath rounds cwd getInode dirfd name = some (.ok path) ∧
      ∀ bound, final.resolvePath (bound + 1) path = some (final.getChild node name) := by
  have both : final.Named ∧ final.Tree :=
    LabelledRun.invariant_of_guarded (fun vfs : Vfs => vfs.Named ∧ vfs.Tree)
      (fun kept guard stepped => ⟨kept.1.step guard.1 stepped, kept.2.step guard.2 stepped⟩)
      ⟨named_boot, tree_boot⟩ tidy reached
  obtain ⟨named, tree⟩ := both
  obtain ⟨rounds, base, isBase, leads⟩ := tree.pathOfInode_leadsTo named inTree
  have relative : name.head? ≠ some '/' := fun isHead => noSlash (List.mem_of_head? isHead)
  have built : final.resolveAtPath rounds cwd getInode dirfd name =
      some (if base = ['/'] then .ok ('/' :: name)
        else .ok (base.rdropWhile (· = '/') ++ '/' :: name)) := by
    unfold resolveAtPath
    rw [if_neg relative, if_neg (by omega), if_neg (by omega), isOpen]
    simp only [isDirectory, isBase, ne_eq, not_true_eq_false, if_false, Option.map_some]
  refine ⟨rounds, if base = ['/'] then '/' :: name else base.rdropWhile (· = '/') ++ '/' :: name,
    ?_, leads.resolvePath isDirectory noSlash notSkipped notLink ?_⟩
  · rw [built]
    split <;> rfl
  · split
    case isTrue isRoot =>
      rw [isRoot]
      exact partsOf_append [] name
    case isFalse => rw [partsOf_append, partsOf_rdropWhile]

def renameOpened : List VfsLabel :=
  [.mkdir "/a".toList, .rename "/a".toList "/b".toList 0, .mkdir "/b/c".toList]

theorem resolveAtPath_renameOpened :
    ∃ final rounds path, boot.run 1 renameOpened = some final ∧
      final.resolveAtPath rounds ['/'] (fun _ => .ok (some 52)) 3 ['c'] = some (.ok path) ∧
      final.resolvePath 1 path = some (.ok 53) := by
  obtain ⟨final, reached, isFound, isDirectory, isChild, childDirectory⟩ :
      ∃ final, boot.run 1 renameOpened = some final ∧ final.found 1 "/b".toList = some 52 ∧
        (final.inodes 52).itype = .Directory ∧ final.child? 52 ['c'] = some 53 ∧
        (final.inodes 53).itype = .Directory := by
    decide +kernel
  have apart : LabelledRun.Guarded (step 1) (Apart 1) boot renameOpened := by
    refine LabelledRun.guarded_of_forall fun label member vfs => ?_
    simp only [renameOpened, List.mem_cons, List.not_mem_nil, or_false] at member
    rcases member with rfl | rfl | rfl
    · trivial
    · -- both names are in the root
      exact fun old new _ isOld isNew different =>
        absurd ((Option.some.inj isOld).symm.trans (Option.some.inj isNew)) different
    · trivial
  have proper : LabelledRun.Guarded (step 1) (Proper 1) boot renameOpened := by decide +kernel
  obtain ⟨rounds, path, isPath, resolved⟩ := resolveAtPath_of_run (proper.and apart) reached
    ['/'] (fun _ => .ok (some 52)) (by decide : (0 : Int) ≤ 3) rfl (reaches_of_found isFound)
    isDirectory (by decide : '/' ∉ ['c']) rfl fun child isNamed => by
      obtain rfl : 53 = child := Option.some.inj (isChild.symm.trans isNamed)
      simp [childDirectory]
  refine ⟨final, rounds, path, reached, isPath, ?_⟩
  rw [resolved 0, getChild, isChild]

/-- An open directory is renamed to the name of a parent component: names relative to it are
looked up in the directory that it was moved into. -/
theorem resolveAtPath_wrong_directory :
    ((boot.run 1 [.mkdir "/x".toList, .rename "/x".toList "/tmp/..".toList 0,
      .mkdir "/tmp/f".toList]).any fun final =>
        decide (final.child? 3 "..".toList = some 52 ∧ (final.inodes 52).itype = .Directory ∧
          final.child? 52 "f".toList = none ∧
          final.resolveAtPath 200 ['/'] (fun _ => .ok (some 52)) 3 "f".toList =
            some (.ok "/tmp/../f".toList) ∧
          final.resolvePath 1 "/tmp/../f".toList = some (.ok 53))) = true := by
  decide +kernel

end Vfs

end Cyllor.Fs
