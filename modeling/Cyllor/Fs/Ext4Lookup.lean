import Cyllor.Fs.VfsPaths

/-!
Contract: lookup of paths on an ext4 image (`Ext4Fs::lookup` of `fs/ext4.rs`), beside
`resolve_path`.

Owns:
- `Ext4Image`, what `read_dir` and `read_symlink` give for each inode number, and `lookup`;
- what both resolutions make of `directory/entry/../rest`;
- the inodes whose entries a lookup searches.
-/

namespace Cyllor.Fs

/-- An image by what is read from it: the entries of a directory with inode number and file
type, and the target of a symbolic link. Errors are texts. -/
structure Ext4Image where
  readDir : Nat → Except String (List (Text × Nat × Nat))
  readSymlink : Nat → Except String Text

def EXT4_ROOT_INO : Nat := 2

namespace Ext4Image

/-- The components that `lookup_from` goes through. -/
def components (path : Text) : List Text :=
  (path.splitOn '/').filter fun part => part ≠ [] ∧ part ≠ ['.']

/-- Where a link of a directory leads: an absolute target is looked up from the root, another
one from the directory. -/
def followLink (image : Ext4Image) (follow : Nat → Text → Except String Nat)
    (directory ino : Nat) : Except String Nat := do
  let target ← image.readSymlink ino
  if target.head? = some '/' then follow EXT4_ROOT_INO (target.dropWhile (· = '/'))
  else follow directory target

/-- The loop of `lookup_from`; `follow` looks the target of a link up from an inode. After a
link the source calls itself at the same depth with the rest of the components joined: that is
the loop on the rest. -/
def walk (image : Ext4Image) (follow : Nat → Text → Except String Nat) :
    List Text → Nat → Except String Nat
  | [], current => .ok current
  | component :: rest, current =>
    if component = ['.', '.'] then image.walk follow rest EXT4_ROOT_INO
    else do
      let entries ← image.readDir current
      match entries.find? (·.1 = component) with
      | none => .error "File not found"
      | some (_, ino, ftype) =>
        if ftype = 7 then
          let next ← image.followLink follow current ino
          image.walk follow rest next
        else image.walk follow rest ino

/-- `lookup_from`, with the number of links that may still be followed, plus one. -/
def lookupFrom (image : Ext4Image) : Nat → Nat → Text → Except String Nat
  | 0, _, _ => .error "Too many symlinks"
  | levels + 1, start, path =>
    if path.head? = some '/' then
      image.walk (image.lookupFrom levels) (components (path.dropWhile (· = '/'))) EXT4_ROOT_INO
    else image.walk (image.lookupFrom levels) (components path) start

/-- `Ext4Fs::lookup`, which follows links to a depth of 8. -/
def lookup (image : Ext4Image) (path : Text) : Except String Nat :=
  image.lookupFrom 9 EXT4_ROOT_INO path

variable (image : Ext4Image)

theorem components_append (first second : Text) :
    components (first ++ '/' :: second) = components first ++ components second := by
  unfold components
  rw [List.splitOn_append_cons_self, List.filter_append]

theorem components_dropWhile (path : Text) :
    components (path.dropWhile (· = '/')) = components path := by
  induction path with
  | nil => rfl
  | cons char path ih =>
    by_cases isSlash : char = '/'
    · rw [List.dropWhile_cons_of_pos (by simpa using isSlash), ih, isSlash]
      exact (components_append [] path).symm
    · rw [List.dropWhile_cons_of_neg (by simpa using isSlash)]

/-- A lookup is a walk from the root over the components of the path. -/
theorem lookup_eq (path : Text) :
    image.lookup path = image.walk (image.lookupFrom 8) (components path) EXT4_ROOT_INO := by
  unfold lookup lookupFrom
  rw [components_dropWhile, ite_self]

theorem walk_append (follow : Nat → Text → Except String Nat) (first second : List Text)
    (current : Nat) :
    image.walk follow (first ++ second) current =
      image.walk follow first current >>= image.walk follow second := by
  induction first generalizing current with
  | nil => rfl
  | cons part parts ih =>
    simp only [List.cons_append, walk]
    split
    · exact ih _
    · cases image.readDir current with
      | error error => rfl
      | ok entries =>
        dsimp only [bind, Except.bind]
        cases entries.find? (·.1 = part) with
        | none => rfl
        | some found =>
          dsimp only
          split
          · cases image.followLink follow current found.2.1 with
            | error error => rfl
            | ok next => exact ih next
          · exact ih _

theorem bind_eq_ok {α β : Type} {first : Except String α} {next : α → Except String β}
    {value : β} :
    first >>= next = .ok value ↔ ∃ middle, first = .ok middle ∧ next middle = .ok value := by
  cases first with
  | error error => exact ⟨nofun, fun ⟨_, isError, _⟩ => nomatch isError⟩
  | ok middle => simp [bind, Except.bind]

variable {image} in
theorem walk_singleton_eq_ok {follow : Nat → Text → Except String Nat} {part : Text}
    {current next : Nat} : image.walk follow [part] current = .ok next ↔
      if part = ['.', '.'] then next = EXT4_ROOT_INO
      else ∃ entries, image.readDir current = .ok entries ∧
        ∃ entry, entries.find? (·.1 = part) = some entry ∧
          (if entry.2.2 = 7 then image.followLink follow current entry.2.1 else .ok entry.2.1) =
            .ok next := by
  simp only [walk]
  split
  · rw [Except.ok.injEq, eq_comm]
  · rw [bind_eq_ok]
    refine exists_congr fun entries => and_congr_right fun _ => ?_
    cases entries.find? (·.1 = part) with
    | none => simp
    | some entry =>
      dsimp only
      split <;> simp [bind_eq_ok, *]

section

variable {directory entry : Text} {node ino ftype : Nat} {entries : List (Text × Nat × Nat)}
  (resolved : image.lookup directory = .ok node) (listed : image.readDir node = .ok entries)
  (isEntry : entries.find? (·.1 = entry) = some (entry, ino, ftype)) (notLink : ftype ≠ 7)
  (noSlash : '/' ∉ entry)

include resolved listed isEntry notLink noSlash

/-- A parent component leads to the root, from wherever the entry before it leads. -/
theorem lookup_viaParent (rest : Text) :
    image.lookup (Vfs.viaParent directory entry rest) = image.lookup rest := by
  obtain ⟨next, entered⟩ :
      ∃ next, image.walk (image.lookupFrom 8) (components entry) node = .ok next := by
    rw [components, List.splitOn_eq_singleton noSlash]
    by_cases passed : entry ≠ [] ∧ entry ≠ ['.']
    · rw [List.filter_cons_of_pos (by simpa using passed), List.filter_nil]
      simp only [walk_singleton_eq_ok]
      split
      · exact ⟨_, rfl⟩
      · exact ⟨ino, entries, listed, _, isEntry, if_neg notLink⟩
    · rw [List.filter_cons_of_neg (by simpa using passed), List.filter_nil]
      exact ⟨node, rfl⟩
  rw [lookup_eq] at resolved
  rw [lookup_eq, lookup_eq, Vfs.viaParent, components_append, components_append,
    components_append, walk_append, resolved]
  change image.walk _ (components entry ++ _) node = _
  rw [walk_append, entered]
  exact image.walk_append _ [['.', '.']] _ next

/-- Going into an entry and back changes nothing, whatever follows, exactly when the directory
is the root. -/
theorem lookup_viaParent_iff :
    (∀ rest, image.lookup (Vfs.viaParent directory entry rest) =
        image.lookup (directory ++ '/' :: rest)) ↔ node = EXT4_ROOT_INO := by
  have direct : ∀ rest, image.lookup (directory ++ '/' :: rest) =
      image.walk (image.lookupFrom 8) (components rest) node := by
    intro rest
    rw [lookup_eq] at resolved
    rw [lookup_eq, components_append, walk_append, resolved]
    rfl
  simp only [image.lookup_viaParent resolved listed isEntry notLink noSlash, direct, lookup_eq]
  constructor
  · intro law
    exact (Except.ok.inj (law [])).symm
  · rintro rfl rest
    rfl

end

end Ext4Image

/-- In both resolutions, going into an entry that is no symbolic link and back by a parent
component is the same as not going, whatever follows: in the tree of inodes exactly when the
entry's name is passed over or names the directory itself, on an image exactly when the
directory is the root. -/
theorem viaParent_law_iff (directory entry : Text) :
    (∀ (vfs : Vfs) (depth node child : Nat),
      vfs.resolvePath (depth + 1) directory = some (.ok node) →
      (vfs.inodes node).itype = .Directory → vfs.child? node entry = some child →
      (vfs.inodes child).itype ≠ .Symlink → '/' ∉ entry →
      ((∀ rest, vfs.resolvePath (depth + 1) (Vfs.viaParent directory entry rest) =
          vfs.resolvePath (depth + 1) (directory ++ '/' :: rest)) ↔
        skipped entry = true ∨ child = node)) ∧
    ∀ (image : Ext4Image) (node ino ftype : Nat)
      (entries : List (Text × Nat × Nat)), image.lookup directory = .ok node →
      image.readDir node = .ok entries →
      entries.find? (·.1 = entry) = some (entry, ino, ftype) → ftype ≠ 7 → '/' ∉ entry →
      ((∀ rest, image.lookup (Vfs.viaParent directory entry rest) =
          image.lookup (directory ++ '/' :: rest)) ↔ node = EXT4_ROOT_INO) :=
  ⟨fun vfs depth _ _ => vfs.resolvePath_viaParent_iff depth,
    fun image _ _ _ _ => image.lookup_viaParent_iff⟩

def usrImage : Ext4Image where
  readDir
    | 2 => .ok [(['u', 's', 'r'], 3, 2)]
    | 3 => .ok [(['b', 'i', 'n'], 4, 2), (['l', 'i', 'b'], 5, 2)]
    | _ => .ok []
  readSymlink _ := .error "not a link"

/-- On the image the law holds at the root; in the tree it fails for `/usr/bin`. -/
theorem viaParent_law_usr :
    (∀ rest, usrImage.lookup (Vfs.viaParent ['/'] ['u', 's', 'r'] rest) =
      usrImage.lookup (['/'] ++ '/' :: rest)) ∧
    ¬ ∀ rest, Vfs.init.resolvePath 1 (Vfs.viaParent "/usr".toList "bin".toList rest) =
      Vfs.init.resolvePath 1 ("/usr".toList ++ '/' :: rest) := by
  constructor
  · exact ((viaParent_law_iff ['/'] ['u', 's', 'r']).2 usrImage 2 3 2 _ rfl rfl rfl (by decide)
      (by decide)).mpr rfl
  · intro law
    have excluded := ((viaParent_law_iff "/usr".toList "bin".toList).1 Vfs.init 0 7 13
      (by decide +kernel) (by decide +kernel) (by decide +kernel) (by decide +kernel)
      (by decide)).mp law
    exact absurd excluded (by decide)

/-- `/usr/bin/../lib` is not `/usr/lib`, in the tree after `vfs::init` and on an image. -/
theorem viaParent_law_fails :
    Vfs.init.resolvePath 1 "/usr/lib".toList = some (.ok 14) ∧
      Vfs.init.resolvePath 1 "/usr/bin/../lib".toList = some (.error .ENOENT) ∧
      usrImage.lookup "/usr/lib".toList = .ok 5 ∧
      usrImage.lookup "/usr/bin/../lib".toList = .error "File not found" := by
  decide +kernel

/-! ### Searched inodes -/

/-- `is_dir`: the type in `i_mode` is `S_IFDIR`. -/
def isDir (iMode : Nat → Nat) (ino : Nat) : Bool := iMode ino &&& 0o170000 = 0o040000

namespace Ext4Image

variable (image : Ext4Image) (node : Nat)

/-- The image with an inode for which `read_dir` fails. -/
def unreadable : Ext4Image :=
  { image with readDir := Function.update image.readDir node (.error "unreadable") }

/-- A lookup has searched an inode when it depends on what `read_dir` gives for it. -/
def Searches (path : Text) : Prop := (image.unreadable node).lookup path ≠ image.lookup path

/-- The inodes in which the components of a link's target are looked up. -/
def targetNodes (nodes : Nat → Text → List Nat) (directory ino : Nat) : List Nat :=
  match image.readSymlink ino with
  | .error _ => []
  | .ok target =>
    if target.head? = some '/' then nodes EXT4_ROOT_INO (target.dropWhile (· = '/'))
    else nodes directory target

/-- The inodes in which components are looked up: for each of them but `..`, the inode to which
those before it lead, and then the inodes for the target if it names a link. -/
def walkNodes (follow : Nat → Text → Except String Nat) (nodes : Nat → Text → List Nat) :
    List Text → Nat → List Nat
  | [], _ => []
  | component :: rest, current =>
    if component = ['.', '.'] then walkNodes follow nodes rest EXT4_ROOT_INO
    else current ::
      match image.readDir current with
      | .error _ => []
      | .ok entries =>
        match entries.find? (·.1 = component) with
        | none => []
        | some (_, ino, ftype) =>
          if ftype = 7 then
            image.targetNodes nodes current ino ++
              match image.followLink follow current ino with
              | .error _ => []
              | .ok next => walkNodes follow nodes rest next
          else walkNodes follow nodes rest ino

def lookupNodes : Nat → Nat → Text → List Nat
  | 0, _, _ => []
  | levels + 1, start, path =>
    image.walkNodes (image.lookupFrom levels) (lookupNodes levels) (components path)
      (if path.head? = some '/' then EXT4_ROOT_INO else start)

theorem lookupFrom_succ (levels start : Nat) (path : Text) :
    image.lookupFrom (levels + 1) start path =
      image.walk (image.lookupFrom levels) (components path)
        (if path.head? = some '/' then EXT4_ROOT_INO else start) := by
  rw [lookupFrom, components_dropWhile]
  split <;> rfl

variable {image node}

/-- A lookup fails when one of the inodes in which it looks components up cannot be read, and
gives the same when the inode is not among them. -/
def Spoils (node : Nat) (nodes : List Nat) (before after : Except String Nat) : Prop :=
  if node ∈ nodes then after = .error "unreadable" else after = before

theorem spoils_nil (node : Nat) (result : Except String Nat) : Spoils node [] result result := by
  rw [Spoils, if_neg List.not_mem_nil]

section

variable {follow follow' : Nat → Text → Except String Nat} {nodes : Nat → Text → List Nat}
  (follows : ∀ start target,
    Spoils node (nodes start target) (follow start target) (follow' start target))

include follows

theorem spoils_followLink (directory ino : Nat) :
    Spoils node (image.targetNodes nodes directory ino) (image.followLink follow directory ino)
      ((image.unreadable node).followLink follow' directory ino) := by
  unfold followLink targetNodes
  change Spoils _ _ _ (image.readSymlink ino >>= _)
  cases image.readSymlink ino with
  | error error => exact spoils_nil _ _
  | ok target =>
    dsimp only [bind, Except.bind]
    split
    · exact follows _ _
    · exact follows _ _

theorem spoils_walk (parts : List Text) (current : Nat) :
    Spoils node (image.walkNodes follow nodes parts current) (image.walk follow parts current)
      ((image.unreadable node).walk follow' parts current) := by
  induction parts generalizing current with
  | nil => exact spoils_nil _ _
  | cons part rest ih =>
    rw [walk, walk, walkNodes]
    split
    · exact ih EXT4_ROOT_INO
    by_cases here : node = current
    · rw [Spoils, if_pos (here ▸ List.mem_cons_self),
        show (image.unreadable node).readDir current = .error "unreadable" from
          here ▸ Function.update_self _ _ _]
      rfl
    rw [show (image.unreadable node).readDir current = image.readDir current from
      Function.update_of_ne (Ne.symm here) _ _]
    -- only the inodes after this one are left to look at
    suffices Spoils node _ _ _ by simpa only [Spoils, List.mem_cons, here, false_or] using this
    cases image.readDir current with
    | error error => exact spoils_nil _ _
    | ok entries =>
      dsimp only [bind, Except.bind]
      cases entries.find? (·.1 = part) with
      | none => exact spoils_nil _ _
      | some entry =>
        dsimp only
        split
        · have target : Spoils node (image.targetNodes nodes current entry.2.1) _ _ :=
            spoils_followLink follows current entry.2.1
          unfold Spoils at target ⊢
          split at target
          next inTarget => rw [target, if_pos (List.mem_append_left _ inTarget)]
          next outside =>
            simp only [target, List.mem_append, outside, false_or]
            cases image.followLink follow current entry.2.1 with
            | error error => exact spoils_nil _ _
            | ok next => exact ih next
        · exact ih entry.2.1

end

theorem spoils_lookupFrom (levels start : Nat) (path : Text) :
    Spoils node (image.lookupNodes levels start path) (image.lookupFrom levels start path)
      ((image.unreadable node).lookupFrom levels start path) := by
  induction levels generalizing start path with
  | zero => exact spoils_nil _ _
  | succ levels ih =>
    rw [lookupFrom_succ, lookupFrom_succ]
    exact spoils_walk ih _ _

theorem searches_iff {path : Text} {ino : Nat} (returned : image.lookup path = .ok ino) :
    image.Searches node path ↔ node ∈ image.lookupNodes 9 EXT4_ROOT_INO path := by
  have spoils : Spoils node _ (image.lookup path) ((image.unreadable node).lookup path) :=
    spoils_lookupFrom 9 EXT4_ROOT_INO path
  rw [Spoils] at spoils
  rw [Searches]
  split at spoils
  next member => simp [spoils, returned, member]
  next outside => simp [spoils, outside]

end Ext4Image

def directoryMode : Nat → Nat := fun ino => if ino ≤ 3 then 0o040755 else 0o100644

/-- An image whose inode 4, a regular file, holds the bytes of a directory entry. -/
def fileAsDirectory : Ext4Image where
  readDir
    | 2 => .ok [(['f'], 4, 1)]
    | 4 => .ok [(['x'], 5, 1)]
    | _ => .ok []
  readSymlink _ := .error "not a link"

end Cyllor.Fs
