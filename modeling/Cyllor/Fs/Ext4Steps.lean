import Cyllor.Fs.Ext4Dir
import Cyllor.Fs.Ext4Lookup
import Mathlib.Order.Filter.AtTopBot.Basic

/-!
Contract: that lookups on an ext4 image end (`Ext4Fs::lookup` of `fs/ext4.rs`), whatever the
image holds.

Owns: `lookup_from` and `read_dir` as the source calls and loops, with fuel, and that they return
what `Ext4Image.lookup` says.

Does not own: reading blocks, which is taken to end.
-/

namespace Cyllor.Fs

open Ext4Dir Ext4Image
open Filter (atTop Eventually)

/-- What the blocks of an image hold for each inode number: the data of a directory and the target
of a symbolic link. A panic ends a lookup like an error. -/
structure Ext4Contents where
  blockSize : Nat
  positive : 0 < blockSize
  dirData : Nat → Except String (List UInt8)
  readSymlink : Nat → Except String Text

namespace Ext4Contents

variable (contents : Ext4Contents)

def readDirCall (fuel ino : Nat) : Option (Except String (List Entry)) :=
  match contents.dirData ino with
  | .error error => some (.error error)
  | .ok data => (scan contents.blockSize data fuel 0).map .ok

/-- The call for the target of a link; `none` when it does not return. -/
def followCall (call : Nat → Text → Nat → Option (Except String Nat)) (depth directory ino : Nat) :
    Option (Except String Nat) :=
  match contents.readSymlink ino with
  | .error error => some (.error error)
  | .ok target =>
    if target.head? = some '/' then call EXT4_ROOT_INO (target.dropWhile (· = '/')) (depth + 1)
    else call directory target (depth + 1)

/-- The loop of `lookup_from`. After a link the rest of the components is joined and looked up by
another call, at the same depth. -/
def lookupLoop (fuel : Nat) (call : Nat → Text → Nat → Option (Except String Nat)) (depth : Nat) :
    List Text → Nat → Option (Except String Nat)
  | [], current => some (.ok current)
  | component :: rest, current =>
    if component = ['.', '.'] then lookupLoop fuel call depth rest EXT4_ROOT_INO
    else
      match contents.readDirCall fuel current with
      | none => none
      | some (.error error) => some (.error error)
      | some (.ok entries) =>
        match entries.find? (·.1 = component) with
        | none => some (.error "File not found")
        | some (_, ino, ftype) =>
          if ftype = 7 then
            match contents.followCall call depth current ino with
            | some (.ok next) =>
              if rest = [] then some (.ok next) else call next (['/'].intercalate rest) depth
            | failed => failed
          else lookupLoop fuel call depth rest ino

/-- `lookup_from`, with fuel for each call and for the scans in it. -/
def lookupFrom : (fuel start : Nat) → Text → (depth : Nat) → Option (Except String Nat)
  | 0, _, _, _ => none
  | fuel + 1, start, path, depth =>
    if 8 < depth then some (.error "Too many symlinks")
    else if path.head? = some '/' then
      lookupFrom fuel EXT4_ROOT_INO (path.dropWhile (· = '/')) depth
    else if path = [] then some (.ok start)
    else contents.lookupLoop fuel (lookupFrom fuel) depth (components path) start

/-- What is read from the image once every scan has ended. -/
def image : Ext4Image where
  readDir ino := (contents.dirData ino).map fun data =>
    (scan contents.blockSize data (data.length + 1) 0).getD []
  readSymlink := contents.readSymlink

/-! ### Components of a path -/

/-- The components of a path, and what may be left of them. -/
def Proper (parts : List Text) : Prop := ∀ part ∈ parts, '/' ∉ part ∧ part ≠ [] ∧ part ≠ ['.']

theorem proper_components (path : Text) : Proper (components path) := by
  intro part isPart
  have found := List.mem_filter.mp isPart
  simp only [decide_eq_true_eq] at found
  exact ⟨not_mem_of_mem_splitOn found.1, found.2⟩

theorem components_join {rest : List Text} (proper : Proper rest) (some : rest ≠ []) :
    components (['/'].intercalate rest) = rest := by
  unfold components
  rw [List.splitOn_intercalate _ (fun part isPart => (proper part isPart).1) some]
  apply List.filter_eq_self.mpr
  intro part isPart
  simpa using (proper part isPart).2

theorem head_join {rest : List Text} (proper : Proper rest) :
    (['/'].intercalate rest).head? ≠ some '/' := by
  match rest with
  | [] => decide
  | [] :: _ => exact absurd rfl (proper [] List.mem_cons_self).2.1
  | (char :: part) :: rest =>
    have noSlash := (proper _ List.mem_cons_self).1
    have isHead : (['/'].intercalate ((char :: part) :: rest)).head? = some char := by
      cases rest <;> rfl
    rw [isHead]
    intro same
    exact noSlash (Option.some.inj same ▸ List.mem_cons_self)

theorem head_dropWhile (path : Text) : (path.dropWhile (· = '/')).head? ≠ some '/' := by
  intro same
  have stops := List.head?_dropWhile_not (fun char => decide (char = '/')) path
  rw [same] at stops
  cases stops

/-! ### Enough fuel -/

variable {contents} {levels depth : Nat}

theorem eventually_succ {p : Nat → Prop} (later : ∀ᶠ fuel in atTop, p (fuel + 1)) :
    ∀ᶠ fuel in atTop, p fuel := by
  rw [← Filter.map_add_atTop_eq_nat 1]
  exact later

theorem readDirCall_returns (ino : Nat) :
    ∀ᶠ fuel in atTop, contents.readDirCall fuel ino = some (contents.image.readDir ino) := by
  unfold readDirCall
  show ∀ᶠ fuel in atTop, _ = some ((contents.dirData ino).map _)
  cases contents.dirData ino with
  | error error => exact .of_forall fun fuel => rfl
  | ok data =>
    obtain ⟨entries, returns⟩ : ∃ entries, ∀ extra,
        scan contents.blockSize data (data.length + 1 + extra) 0 = some entries :=
      scan_returns contents.positive (by omega)
    apply Filter.eventually_atTop.mpr
    refine ⟨data.length + 1, fun fuel more => ?_⟩
    obtain ⟨extra, rfl⟩ := Nat.exists_eq_add_of_le more
    dsimp only [Except.map]
    rw [returns extra, show scan _ _ (data.length + 1) 0 = some entries from returns 0]
    rfl

theorem followCall_returns
    (below : ∀ start path, ∀ᶠ fuel in atTop, contents.lookupFrom fuel start path (depth + 1) =
      some (contents.image.lookupFrom levels start path))
    (directory ino : Nat) :
    ∀ᶠ fuel in atTop, contents.followCall (contents.lookupFrom fuel) depth directory ino =
      some (contents.image.followLink (contents.image.lookupFrom levels) directory ino) := by
  unfold followCall followLink
  show ∀ᶠ fuel in atTop, _ = some (contents.readSymlink ino >>= _)
  cases contents.readSymlink ino with
  | error error => exact .of_forall fun fuel => rfl
  | ok target =>
    dsimp only [bind, Except.bind]
    split
    · exact below _ _
    · exact below _ _

theorem lookupFrom_relative (shallow : depth ≤ 8) {path : Text}
    (relative : path.head? ≠ some '/') {start : Nat}
    (loops : ∀ᶠ fuel in atTop,
      contents.lookupLoop fuel (contents.lookupFrom fuel) depth (components path) start =
        some (contents.image.walk (contents.image.lookupFrom levels) (components path) start)) :
    ∀ᶠ fuel in atTop, contents.lookupFrom fuel start path depth =
      some (contents.image.walk (contents.image.lookupFrom levels) (components path) start) := by
  apply eventually_succ
  filter_upwards [loops] with fuel looped
  rw [lookupFrom, if_neg (by omega), if_neg relative]
  split
  next empty => subst empty; rfl
  · exact looped

theorem lookupLoop_returns (shallow : depth ≤ 8)
    (below : ∀ start path, ∀ᶠ fuel in atTop, contents.lookupFrom fuel start path (depth + 1) =
      some (contents.image.lookupFrom levels start path))
    {parts : List Text} (proper : Proper parts) (current : Nat) :
    ∀ᶠ fuel in atTop, contents.lookupLoop fuel (contents.lookupFrom fuel) depth parts current =
      some (contents.image.walk (contents.image.lookupFrom levels) parts current) := by
  induction parts generalizing current with
  | nil => exact .of_forall fun fuel => rfl
  | cons component rest ih =>
    have properRest : Proper rest := fun part isPart => proper part (List.mem_cons_of_mem _ isPart)
    unfold lookupLoop walk
    split
    · exact ih properRest EXT4_ROOT_INO
    · have listed : ∀ᶠ fuel in atTop, contents.readDirCall fuel current = _ :=
        readDirCall_returns current
      refine (listed.and ?_).mono fun fuel both => by
        rw [both.1]
        exact both.2
      cases contents.image.readDir current with
      | error error => exact .of_forall fun fuel => rfl
      | ok entries =>
        dsimp only [bind, Except.bind]
        cases entries.find? (·.1 = component) with
        | none => exact .of_forall fun fuel => rfl
        | some found =>
          dsimp only
          split
          · have followed := followCall_returns below current found.2.1
            cases isNext :
                contents.image.followLink (contents.image.lookupFrom levels) current found.2.1 with
            | error error =>
              filter_upwards [followed] with fuel returned
              rw [returned, isNext]
            | ok next =>
              by_cases empty : rest = []
              · filter_upwards [followed] with fuel returned
                rw [returned, isNext, empty]
                rfl
              · have again := lookupFrom_relative shallow (head_join properRest)
                  ((components_join properRest empty).symm ▸ ih properRest next)
                filter_upwards [followed, again] with fuel returned joined
                rw [returned, isNext]
                dsimp only
                rw [if_neg empty, joined, components_join properRest empty]
          · exact ih properRest found.2.1

theorem lookupFrom_returns (isDepth : depth + levels = 9) (start : Nat) (path : Text) :
    ∀ᶠ fuel in atTop, contents.lookupFrom fuel start path depth =
      some (contents.image.lookupFrom levels start path) := by
  induction levels generalizing depth start path with
  | zero =>
    apply eventually_succ
    apply Eventually.of_forall
    intro fuel
    rw [lookupFrom, if_pos (by omega)]
    rfl
  | succ levels ih =>
    have returns (start : Nat) (path : Text) (relative : path.head? ≠ some '/') :=
      lookupFrom_relative (by omega) relative (lookupLoop_returns (by omega)
        (fun start path => ih (show depth + 1 + levels = 9 by omega) start path)
        (proper_components path) start)
    unfold Ext4Image.lookupFrom
    split
    next absolute =>
      apply eventually_succ
      filter_upwards [returns EXT4_ROOT_INO _ (head_dropWhile path)] with fuel returned
      rw [lookupFrom, if_neg (by omega), if_pos absolute, returned]
    next relative => exact returns start path relative

end Ext4Contents

/-- On any contents of an image a lookup ends, with the result of the walk: the scans of the
directories do, and the calls for the targets of links and for the components after them. -/
theorem lookup_returns (contents : Ext4Contents) (path : Text) :
    ∀ᶠ fuel in atTop, contents.lookupFrom fuel EXT4_ROOT_INO path 0 =
      some (contents.image.lookup path) :=
  Ext4Contents.lookupFrom_returns rfl EXT4_ROOT_INO path

end Cyllor.Fs
