import Mathlib.Data.List.DropRight
import Cyllor.Base
import Cyllor.Lib.Call
import Cyllor.Lib.LabelledRun

/-!
Contract: the tree of inodes and the calls that change it (`fs/vfs.rs`, `fs/devfs.rs`,
`fs/procfs.rs`, and the lazy loading of `fs/mod.rs`).

Owns:
- paths and how the calls take them apart;
- inodes, which directories name and which may have several names;
- `resolve_path`, `path_of_inode`, `mkdir`, `unlink`, `rename` and the part of `openat` that
  copies a file of the disk into the tree;
- the tree after `vfs::init`, `devfs::init` and `procfs::init`.

Does not own: the bytes of files, modes, owners and device numbers. `resolve_path` calls itself
for a symbolic link: calls are given the depth to which it may do so, and never return when
that is exceeded.
-/

namespace Cyllor.Fs

open Call hiding pure bind

/-! ### Paths -/

abbrev Text := List Char

/-- `str::rsplit_once` at a slash: what is before the last slash, and what is after it. -/
def rsplitOnce (path : Text) : Option (Text × Text) :=
  if '/' ∈ path then
    some ((path.rdropWhile (· ≠ '/')).dropLast, path.rtakeWhile (· ≠ '/'))
  else none

/-- `rsplit_path`: the parent and the name, without slashes at the end. -/
def rsplitPath (path : Text) : Text × Text :=
  let path := path.rdropWhile (· = '/')
  match rsplitOnce path with
  | some (parent, name) => (if parent = [] then ['/'] else parent, name)
  | none => (['/'], path)

/-- `resolve_path` passes over empty components, `.` and `..`. -/
def skipped (component : Text) : Bool :=
  component = [] ∨ component = ['.'] ∨ component = ['.', '.']

/-! ### Inodes -/

inductive InodeType where
  | File | Directory | CharDevice | BlockDevice | Pipe | Socket | Symlink
deriving DecidableEq, Repr

/-- An inode; of its data only what a symbolic link says is kept. -/
structure Inode where
  itype : InodeType
  data : Text
  children : BTreeMap Text Nat

namespace Inode

def newDir : Inode := ⟨.Directory, [], ∅⟩

def newFile : Inode := ⟨.File, [], ∅⟩

def newChardev : Inode := ⟨.CharDevice, [], ∅⟩

def newSymlink (target : String) : Inode := ⟨.Symlink, target.toList, ∅⟩

end Inode

/-- The inodes by number, with the number of the next one. The root is number 0. -/
structure Vfs where
  inodes : Nat → Inode
  next : Nat

namespace Vfs

def root : Nat := 0

def setChildren (vfs : Vfs) (node : Nat) (children : BTreeMap Text Nat) : Vfs :=
  { vfs with
    inodes := Function.update vfs.inodes node { vfs.inodes node with children := children } }

def insertChild (vfs : Vfs) (parent : Nat) (name : Text) (child : Nat) : Vfs :=
  vfs.setChildren parent ((vfs.inodes parent).children.insert name child)

def removeChild (vfs : Vfs) (parent : Nat) (name : Text) : Vfs :=
  vfs.setChildren parent ((vfs.inodes parent).children.erase name)

def insertNew (vfs : Vfs) (parent : Nat) (name : Text) (inode : Inode) : Vfs :=
  { vfs with
    inodes := Function.update vfs.inodes vfs.next inode
    next := vfs.next + 1 }.insertChild parent name vfs.next

/-! ### Resolution -/

/-- The loop of `resolve_path` over the components. -/
def walk (vfs : Vfs) (follow : Text → Option (Except Errno Nat)) :
    List Text → Nat → Option (Except Errno Nat)
  | [], current => some (.ok current)
  | component :: rest, current =>
    if skipped component then vfs.walk follow rest current
    else if (vfs.inodes current).itype ≠ .Directory then some (.error .ENOTDIR)
    else
      match (vfs.inodes current).children[component]? with
      | none => some (.error .ENOENT)
      | some child =>
        if (vfs.inodes child).itype = .Symlink then
          match follow (vfs.inodes child).data with
          | none => none
          | some (.error error) => some (.error error)
          | some (.ok target) => vfs.walk follow rest target
        else vfs.walk follow rest child

/-- `resolve_path`, which may call itself to the given depth. -/
def resolvePath (vfs : Vfs) : Nat → Text → Option (Except Errno Nat)
  | 0, _ => none
  | depth + 1, path =>
    if path = ['/'] ∨ path = [] then some (.ok root)
    else
      vfs.walk (vfs.resolvePath depth) ((path.dropWhile (· = '/')).splitOn '/') root

/-! ### Searching for an inode -/

/-- The entries of a directory, in order; other inodes have none to search. -/
def entries (vfs : Vfs) (node : Nat) : List (Text × Nat) :=
  if (vfs.inodes node).itype ≠ .Directory then [] else (vfs.inodes node).children.toList

def childPath (path name : Text) : Text :=
  if path = ['/'] then '/' :: name else path ++ '/' :: name

/-- The loop of `path_of_inode`, for a number of rounds; the head of the list is the top of the
stack, and `none` says that the loop goes on. -/
def search (vfs : Vfs) (target : Nat) : Nat → List (Nat × Text) → Option (Option Text)
  | 0, _ => none
  | _ + 1, [] => some none
  | rounds + 1, (node, path) :: stack =>
    if node = target then some (some path)
    else
      vfs.search target rounds
        (((vfs.entries node).map fun entry => (entry.2, childPath path entry.1)).reverse ++ stack)

def pathOfInode (vfs : Vfs) (target : Nat) (rounds : Nat) : Option (Option Text) :=
  if root = target then some (some ['/']) else vfs.search target rounds [(root, ['/'])]

end Vfs

/-! ### Calls -/

abbrev VfsCall (α : Type) := Call Vfs Errno α

def RENAME_NOREPLACE : Nat := 1

namespace Vfs

section Calls

variable (depth : Nat)

/-- `resolve_path`, in a call. -/
def resolve (path : Text) : VfsCall Nat := fun vfs =>
  (vfs.resolvePath depth path).map fun result => (result, vfs)

def mkdir (path : Text) : VfsCall Nat := do
  let name := (rsplitPath path).2
  let parent ← resolve depth (rsplitPath path).1
  let taken ← gets fun vfs => (vfs.inodes parent).children.contains name
  if taken then throw .EEXIST
  else
    modify fun vfs => vfs.insertNew parent name .newDir
    return 0

def unlink (path : Text) : VfsCall Nat := do
  let name := (rsplitPath path).2
  let parent ← resolve depth (rsplitPath path).1
  let found ← gets fun vfs => (vfs.inodes parent).children.contains name
  if found then
    modify fun vfs => vfs.removeChild parent name
    return 0
  else throw .ENOENT

/-- The end of `rename`: a name is taken from one inode and given to another. When the two
differ, a failure comes after the old name is gone. -/
def move (oldParent newParent : Nat) (oldName newName : Text) (noReplace : Bool) :
    VfsCall Nat := do
  let taken ← gets fun vfs => (vfs.inodes newParent).children.contains newName
  if oldParent = newParent then
    if noReplace ∧ taken then throw .EEXIST
    else
      let found ← gets fun vfs => (vfs.inodes oldParent).children[oldName]?
      let moved ← ofOption .ENOENT found
      modify fun vfs => (vfs.removeChild oldParent oldName).insertChild oldParent newName moved
      return 0
  else
    let found ← gets fun vfs => (vfs.inodes oldParent).children[oldName]?
    let moved ← ofOption .ENOENT found
    modify fun vfs => vfs.removeChild oldParent oldName
    if noReplace ∧ taken then throw .EEXIST
    else
      modify fun vfs => vfs.insertChild newParent newName moved
      return 0

def rename (oldPath newPath : Text) (flags : Nat) : VfsCall Nat := do
  if flags &&& (2 ^ 32 - 1 - RENAME_NOREPLACE) ≠ 0 then throw .EINVAL
  else
    let oldName := (rsplitPath oldPath).2
    let newName := (rsplitPath newPath).2
    if oldName = [] ∨ newName = [] then throw .EINVAL
    else
      let oldParent ← resolve depth (rsplitPath oldPath).1
      let newParent ← resolve depth (rsplitPath newPath).1
      move oldParent newParent oldName newName (flags &&& RENAME_NOREPLACE ≠ 0)

/-- One round of `ensure_vfs_parents`: a directory for a component, unless its path resolves. -/
def ensureVfsParent (parent part : Text) : VfsCall PUnit := do
  let current := parent ++ '/' :: part
  let found ← attempt (resolve depth current)
  match found with
  | .ok _ => return ⟨⟩
  | .error _ =>
    let above ← attempt (resolve depth (if parent = [] then ['/'] else parent))
    match above with
    | .ok node => modify fun vfs => vfs.insertNew node part .newDir
    | .error _ => return ⟨⟩

/-- `ensure_vfs_parents`, from the components that it has gone through. -/
def ensureVfsParents (current : Text) : List Text → VfsCall PUnit
  | [] => return ⟨⟩
  | part :: parts => do
      ensureVfsParent depth current part
      ensureVfsParents (current ++ '/' :: part) parts

/-- The components that `ensure_vfs_parents` goes through. -/
def partsOf (path : Text) : List Text := (path.splitOn '/').filter (· ≠ [])

def materializeExt4FileToVfs (path : Text) : VfsCall PUnit := do
  if path.head? ≠ some '/' ∨ path = ['/'] then throw .EINVAL
  else
    ensureVfsParents depth [] (partsOf path)
    let (parentPath, name) ← ofOption .EINVAL (rsplitOnce path)
    let parent ← resolve depth (if parentPath = [] then ['/'] else parentPath)
    modify fun vfs => vfs.insertNew parent name .newFile

/-- The part of `openat` that touches the tree: `onDisk` says whether the disk has a file at the
path. Terminals are opened without it. -/
def openat (path : Text) (onDisk : Bool) : VfsCall PUnit := do
  if path = "/dev/ptmx".toList ∨ "/dev/pts/".toList.isPrefixOf path then return ⟨⟩
  else
    let found ← attempt (resolve depth path)
    match found with
    | .ok _ => return ⟨⟩
    | .error _ =>
      if onDisk then
        let _ ← (attempt (materializeExt4FileToVfs depth path) : VfsCall (Except Errno PUnit))
        let loaded ← attempt (resolve depth path)
        match loaded with
        | .ok _ => return ⟨⟩
        | .error _ => throw .ENOENT
      else throw .ENOENT

end Calls

end Vfs

/-! ### Initial tree -/

namespace Vfs

def populate (vfs : Vfs) (parent : Nat) (entries : List (String × Inode)) : Vfs :=
  entries.foldl (fun vfs entry => vfs.insertNew parent entry.1.toList entry.2) vfs

def populateChild (vfs : Vfs) (parent : Nat) (name : String) (entries : List (String × Inode)) :
    Vfs :=
  match (vfs.inodes parent).children[name.toList]? with
  | some child => vfs.populate child entries
  | none => vfs

def init : Vfs :=
  let vfs : Vfs := ⟨Function.update (fun _ => .newFile) root .newDir, 1⟩
  let vfs := vfs.populate root
    [("dev", .newDir), ("proc", .newDir), ("tmp", .newDir), ("etc", .newDir), ("var", .newDir),
      ("home", .newDir), ("usr", .newDir), ("bin", .newDir), ("sbin", .newDir), ("lib", .newDir),
      ("sys", .newDir), ("run", .newDir)]
  vfs.populateChild root "usr" [("bin", .newDir), ("lib", .newDir), ("share", .newDir)]

def devfsInit (vfs : Vfs) : Vfs :=
  match (vfs.inodes root).children["dev".toList]? with
  | none => vfs
  | some dev =>
    let vfs := vfs.populate dev
      [("null", .newChardev), ("zero", .newChardev), ("urandom", .newChardev),
        ("tty", .newChardev), ("console", .newChardev), ("fb0", .newChardev), ("dri", .newDir)]
    let vfs := vfs.populateChild dev "dri" [("card0", .newChardev), ("renderD128", .newChardev)]
    let vfs := vfs.populate dev [("input", .newDir)]
    let vfs := vfs.populateChild dev "input"
      [("event0", .newChardev), ("event1", .newChardev), ("mice", .newChardev)]
    vfs.populate dev [("ptmx", .newChardev), ("pts", .newDir)]

/-- `build_self_dir`, at boot: no process runs, and descriptors 0 to 2 are devices without an
inode. -/
def buildSelfDir (vfs : Vfs) (selfDir : Nat) : Vfs :=
  let vfs := vfs.populate selfDir
    [("exe", .newSymlink "/usr/bin/init"), ("cmdline", .newFile), ("maps", .newFile),
      ("status", .newFile), ("fd", .newDir)]
  let vfs := vfs.populateChild selfDir "fd"
    [("0", .newSymlink "anon_inode:CharDevice"), ("1", .newSymlink "anon_inode:CharDevice"),
      ("2", .newSymlink "anon_inode:CharDevice")]
  vfs.populate selfDir
    [("stat", .newFile), ("statm", .newFile), ("mounts", .newFile), ("environ", .newFile),
      ("cgroup", .newFile)]

/-- `procfs::init`, which gives the directory of the current process two names. -/
def procfsInit (vfs : Vfs) : Vfs :=
  match (vfs.inodes root).children["proc".toList]? with
  | none => vfs
  | some proc =>
    let selfDir := vfs.next
    let vfs := (vfs.populate proc [("self", .newDir)]).buildSelfDir selfDir
    let vfs := vfs.insertChild proc "1".toList selfDir
    let vfs := vfs.populate proc
      [("meminfo", .newFile), ("cpuinfo", .newFile), ("version", .newFile), ("sys", .newDir)]
    let vfs :=
      match (vfs.inodes proc).children["sys".toList]? with
      | none => vfs
      | some sys =>
        (vfs.populate sys [("kernel", .newDir)]).populateChild sys "kernel"
          [("pid_max", .newFile)]
    vfs.populate proc [("filesystems", .newFile)]

def boot : Vfs := init.devfsInit.procfsInit

end Vfs

/-! ### Runs -/

inductive VfsLabel where
  | mkdir (path : Text)
  | unlink (path : Text)
  | rename (oldPath newPath : Text) (flags : Nat)
  | openat (path : Text) (onDisk : Bool)
deriving DecidableEq, Repr

namespace Vfs

/-- One call, in which `resolve_path` may call itself to the given depth. -/
def step (depth : Nat) (vfs : Vfs) : VfsLabel → Option Vfs
  | .mkdir path => (mkdir depth path vfs).map Prod.snd
  | .unlink path => (unlink depth path vfs).map Prod.snd
  | .rename oldPath newPath flags => (rename depth oldPath newPath flags vfs).map Prod.snd
  | .openat path onDisk => (openat depth path onDisk vfs).map Prod.snd

abbrev run (depth : Nat) : Vfs → List VfsLabel → Option Vfs := LabelledRun.run (step depth)

end Vfs

end Cyllor.Fs
