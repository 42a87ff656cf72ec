import Cyllor.Fs.VfsNames

/-!
Contract: laws of paths in the tree of inodes (`resolve_path` and `resolve_path_lstat` of
`fs/vfs.rs`).

Owns:
- resolution as the resolution of a parent and a lookup of the last component;
- `resolve_path_lstat`, and when it agrees with `resolve_path` on an entry that is no link;
- what `resolve_path` makes of a parent component.
-/

namespace Cyllor.Fs

namespace Vfs

def andThen (result : Option (Except Errno Nat)) (next : Nat → Option (Except Errno Nat)) :
    Option (Except Errno Nat) :=
  match result with
  | some (.ok node) => next node
  | other => other

def getChild (vfs : Vfs) (node : Nat) (name : Text) : Except Errno Nat :=
  match vfs.child? node name with
  | some child => .ok child
  | none => .error .ENOENT

def resolvePathLstat (vfs : Vfs) (depth : Nat) (path : Text) : Option (Except Errno Nat) :=
  if path = ['/'] ∨ path = [] then some (.ok root)
  else
    let trimmed := path.dropWhile (· = '/')
    match rsplitOnce trimmed with
    | some (parentPath, last) =>
      match vfs.resolvePath depth ('/' :: parentPath) with
      | none => none
      | some (.error error) => some (.error error)
      | some (.ok parent) => some (vfs.getChild parent last)
    | none => some (vfs.getChild root trimmed)

/-- The path of the parent and the last component, as `resolve_path_lstat` takes them. -/
def lstatSplit (path : Text) : Text × Text :=
  let trimmed := path.dropWhile (· = '/')
  match rsplitOnce trimmed with
  | some (parentPath, last) => ('/' :: parentPath, last)
  | none => (['/'], trimmed)

theorem partsOf_lstatSplit (path : Text) :
    partsOf path = partsOf (lstatSplit path).1 ++ partsOf (lstatSplit path).2 ∧
      '/' ∉ (lstatSplit path).2 := by
  rw [← partsOf_dropWhile path]
  unfold lstatSplit
  dsimp only
  split
  case h_1 parentPath last split =>
    obtain ⟨isPath, noSlash⟩ := rsplitOnce_eq_some split
    refine ⟨?_, noSlash⟩
    rw [isPath, partsOf_append]
    exact congrArg (· ++ _) (partsOf_append [] parentPath).symm
  case h_2 noSplit =>
    refine ⟨rfl, fun hasSlash => ?_⟩
    rw [rsplitOnce, if_pos hasSlash] at noSplit
    cases noSplit

/-- `resolve_path_lstat` resolves the parent and looks the last component up in it. -/
theorem resolvePathLstat_eq (vfs : Vfs) (depth : Nat) {path : Text} (notRoot : path ≠ ['/'])
    (notEmpty : path ≠ []) :
    vfs.resolvePathLstat (depth + 1) path =
      andThen (vfs.resolvePath (depth + 1) (lstatSplit path).1) fun parent =>
        some (vfs.getChild parent (lstatSplit path).2) := by
  unfold resolvePathLstat lstatSplit
  rw [if_neg (by simp [notRoot, notEmpty])]
  dsimp only
  split
  · dsimp only [andThen]
    split <;> simp_all
  · rfl

theorem partsOf_rdropWhile (path : Text) : partsOf (path.rdropWhile (· = '/')) = partsOf path := by
  induction path using List.reverseRecOn with
  | nil => rfl
  | append_singleton path char ih =>
    by_cases isSlash : char = '/'
    · rw [List.rdropWhile_concat_pos _ _ _ (by simpa using isSlash), ih, isSlash, partsOf_append]
      exact (List.append_nil _).symm
    · rw [List.rdropWhile_concat_neg _ _ _ (by simpa using isSlash)]

theorem resolvePath_append (vfs : Vfs) (depth : Nat) {path first second : Text}
    (isPath : partsOf path = partsOf first ++ partsOf second) :
    vfs.resolvePath (depth + 1) path =
      andThen (vfs.resolvePath (depth + 1) first) fun node =>
        vfs.walk (vfs.resolvePath depth) (second.splitOn '/') node := by
  rw [resolvePath_eq, resolvePath_eq, isPath, walk_append]
  simp only [partsOf, walk_filter]
  rfl

/-- For an entry that is no symbolic link, `resolve_path_lstat` agrees with `resolve_path`
exactly on the root, on paths whose parent does not resolve, and on paths whose parent is a
directory and whose last component is looked up; a component that `resolve_path` passes over
has to name the parent itself. -/
theorem resolvePathLstat_eq_resolvePath_iff (vfs : Vfs) (depth : Nat) (path : Text)
    (notLink : ∀ parent child, vfs.resolvePath (depth + 1) (lstatSplit path).1 = some (.ok parent) →
      vfs.child? parent (lstatSplit path).2 = some child → (vfs.inodes child).itype ≠ .Symlink) :
    vfs.resolvePathLstat (depth + 1) path = vfs.resolvePath (depth + 1) path ↔
      (path = ['/'] ∨ path = []) ∨
        ∀ parent, vfs.resolvePath (depth + 1) (lstatSplit path).1 = some (.ok parent) →
          if skipped (lstatSplit path).2 then vfs.child? parent (lstatSplit path).2 = some parent
          else (vfs.inodes parent).itype = .Directory := by
  by_cases isRoot : path = ['/'] ∨ path = []
  · refine iff_of_true ?_ (.inl isRoot)
    rw [resolvePathLstat, resolvePath, if_pos isRoot, if_pos isRoot]
  · rw [or_iff_right isRoot]
    obtain ⟨notRoot, notEmpty⟩ := not_or.mp isRoot
    obtain ⟨isPath, noSlash⟩ := partsOf_lstatSplit path
    rw [vfs.resolvePathLstat_eq depth notRoot notEmpty, vfs.resolvePath_append depth isPath,
      List.splitOn_eq_singleton noSlash]
    rcases resolved : vfs.resolvePath (depth + 1) (lstatSplit path).1 with _ | error | parent
    · simp [andThen]
    · simp [andThen]
    · have notLink := fun child => notLink parent child resolved
      generalize (lstatSplit path).2 = last at notLink
      simp only [andThen, Option.some.injEq, Except.ok.injEq, forall_eq', walk, getChild]
      -- in every case at most one of the two looks up, checks or passes over the component
      by_cases isSkipped : skipped last = true
      · rw [if_pos isSkipped, if_pos isSkipped]
        cases vfs.child? parent last <;> simp
      · rw [if_neg isSkipped, if_neg isSkipped]
        by_cases isDirectory : (vfs.inodes parent).itype = .Directory
        · rw [if_neg (by simpa using isDirectory)]
          refine iff_of_true ?_ isDirectory
          cases isChild : vfs.child? parent last with
          | none =>
            rw [child?] at isChild
            simp [isChild]
          | some child =>
            have other := notLink child isChild
            rw [child?] at isChild
            simp [isChild, other]
        · rw [if_pos isDirectory]
          refine iff_of_false ?_ isDirectory
          cases vfs.child? parent last <;> simp

def dirAndFile : Vfs :=
  populate ⟨Function.update (fun _ => .newFile) root .newDir, 1⟩ root
    [("d", .newDir), ("f", .newFile)]

theorem noLink_dirAndFile (node : Nat) : (dirAndFile.inodes node).itype ≠ .Symlink := by
  match node with
  | 0 | 1 | 2 => decide +kernel
  | node + 3 =>
    simp [dirAndFile, populate, insertNew, insertChild, setChildren, root, Inode.newFile]

theorem resolvePathLstat_dirAndFile :
    dirAndFile.resolvePathLstat 1 ['/', 'd'] = dirAndFile.resolvePath 1 ['/', 'd'] := by
  refine (resolvePathLstat_eq_resolvePath_iff dirAndFile 0 ['/', 'd']
    fun _ child _ _ => noLink_dirAndFile child).mpr (.inr fun parent resolved => ?_)
  have isRoot : dirAndFile.resolvePath 1 (lstatSplit ['/', 'd']).1 = some (.ok 0) := by
    decide +kernel
  obtain rfl : 0 = parent := by simpa [isRoot] using resolved
  decide +kernel

/-- A slash or a dot at the end, and a parent that is a file: the two differ in a tree without
symbolic links. -/
theorem resolvePathLstat_ne_resolvePath :
    (∀ node, (dirAndFile.inodes node).itype ≠ .Symlink) ∧
      dirAndFile.resolvePath 1 ['/', 'd', '/'] = some (.ok 1) ∧
      dirAndFile.resolvePathLstat 1 ['/', 'd', '/'] = some (.error .ENOENT) ∧
      dirAndFile.resolvePath 1 ['/', 'd', '/', '.'] = some (.ok 1) ∧
      dirAndFile.resolvePathLstat 1 ['/', 'd', '/', '.'] = some (.error .ENOENT) ∧
      dirAndFile.resolvePath 1 ['/', 'f', '/', 'x'] = some (.error .ENOTDIR) ∧
      dirAndFile.resolvePathLstat 1 ['/', 'f', '/', 'x'] = some (.error .ENOENT) :=
  ⟨noLink_dirAndFile, by decide +kernel⟩

/-! ### Parent components -/

def viaParent (directory entry rest : Text) : Text :=
  directory ++ '/' :: (entry ++ '/' :: (['.', '.'] ++ '/' :: rest))

section

variable {directory entry : Text} {node child : Nat} (vfs : Vfs) (depth : Nat)
  (resolved : vfs.resolvePath (depth + 1) directory = some (.ok node))
  (isDirectory : (vfs.inodes node).itype = .Directory)
  (isChild : vfs.child? node entry = some child) (notLink : (vfs.inodes child).itype ≠ .Symlink)
  (noSlash : '/' ∉ entry)

include vfs depth resolved isDirectory isChild notLink noSlash

/-- `resolve_path` passes over a parent component, so it stays in the entry before it. -/
theorem resolvePath_viaParent (rest : Text) :
    vfs.resolvePath (depth + 1) (viaParent directory entry rest) =
      vfs.walk (vfs.resolvePath depth) (rest.splitOn '/')
        (if skipped entry then node else child) := by
  rw [viaParent, vfs.resolvePath_append depth (partsOf_append directory _), resolved,
    List.splitOn_append_cons_self, List.splitOn_append_cons_self,
    List.splitOn_eq_singleton noSlash, List.splitOn_eq_singleton (by decide)]
  simp only [andThen, List.singleton_append]
  have parentSkipped : skipped ['.', '.'] = true := rfl
  by_cases isSkipped : skipped entry = true
  · simp [walk, isSkipped, parentSkipped]
  · change (vfs.inodes node).children[entry]? = some child at isChild
    simp [walk, isSkipped, parentSkipped, isDirectory, isChild, notLink]

/-- Going into an entry and back changes nothing, whatever follows, exactly when the entry is
passed over too or is the directory itself. -/
theorem resolvePath_viaParent_iff :
    (∀ rest, vfs.resolvePath (depth + 1) (viaParent directory entry rest) =
        vfs.resolvePath (depth + 1) (directory ++ '/' :: rest)) ↔
      skipped entry = true ∨ child = node := by
  simp only [vfs.resolvePath_viaParent depth resolved isDirectory isChild notLink noSlash,
    fun rest => vfs.resolvePath_append depth (partsOf_append directory rest), resolved, andThen]
  constructor
  · intro law
    have same := law []
    by_cases isSkipped : skipped entry = true
    · exact .inl isSkipped
    · rw [if_neg isSkipped] at same
      exact .inr (by simpa [walk, skipped] using same)
  · rintro (isSkipped | rfl) rest
    · rw [if_pos isSkipped]
    · rw [ite_self]

end

end Vfs

end Cyllor.Fs
