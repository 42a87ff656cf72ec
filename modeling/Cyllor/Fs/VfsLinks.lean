import Cyllor.Fs.VfsBoot

/-!
Contract: `resolve_path` returns.

Owns:
- `Straight`, that no symbolic link has a name on which the target of a link depends, which
  calls keep while `rename` gives no link such a name;
- that resolution then follows at most one link inside another;
- the `rename` that makes a link name itself, and the path that does not resolve after it.

Does not own: cycles of directories, which resolution does not mind: every component of a path
is looked up once.
-/

namespace Cyllor.Fs

namespace Vfs

/-- The components that `resolve_path` looks up for a path. -/
def components (path : Text) : List Text := (path.dropWhile (· = '/')).splitOn '/'

/-- A name that some symbolic link mentions in its target. -/
def Mentioned (vfs : Vfs) (name : Text) : Prop :=
  ∃ link < vfs.next, (vfs.inodes link).itype = .Symlink ∧ name ∈ components (vfs.inodes link).data

instance (vfs : Vfs) (name : Text) : Decidable (vfs.Mentioned name) :=
  inferInstanceAs (Decidable (∃ link < vfs.next, _))

/-- Symbolic links have numbers in use, and names that no link mentions. -/
structure Straight (vfs : Vfs) : Prop where
  used : ∀ {link : Nat}, (vfs.inodes link).itype = .Symlink → link < vfs.next
  unmentioned : ∀ {parent link : Nat} {name : Text}, vfs.child? parent name = some link →
    (vfs.inodes link).itype = .Symlink → ¬ vfs.Mentioned name

section Edits

variable {vfs next : Vfs}

/-- An edit that makes no new link, and whose new names of links are not mentioned. -/
theorem Straight.edit (straight : vfs.Straight) (numbers : vfs.next ≤ next.next)
    (links : ∀ {node : Nat}, (next.inodes node).itype = .Symlink →
      (vfs.inodes node).itype = .Symlink ∧ (next.inodes node).data = (vfs.inodes node).data)
    (names : ∀ {parent link : Nat} {name : Text}, next.child? parent name = some link →
      (vfs.inodes link).itype = .Symlink →
        vfs.child? parent name = some link ∨ ¬ vfs.Mentioned name) : next.Straight where
  used isLink := Nat.lt_of_lt_of_le (straight.used (links isLink).1) numbers
  unmentioned {parent link name} isChild isLink := by
    have unmentioned : ¬ vfs.Mentioned name := by
      rcases names isChild (links isLink).1 with isOld | unmentioned
      · exact straight.unmentioned isOld (links isLink).1
      · exact unmentioned
    intro ⟨other, _, isOther, mentions⟩
    obtain ⟨wasOther, sameData⟩ := links isOther
    rw [sameData] at mentions
    exact unmentioned ⟨other, straight.used wasOther, wasOther, mentions⟩

theorem Straight.removeChild (straight : vfs.Straight) (parent : Nat) (name : Text) :
    (vfs.removeChild parent name).Straight := by
  apply straight.edit
  · exact Nat.le_refl _
  · intro node isLink
    rw [itype_removeChild] at isLink
    exact ⟨isLink, data_removeChild vfs parent node name⟩
  · intro holder link other isChild _
    rw [child?_removeChild] at isChild
    split at isChild
    · cases isChild
    · exact .inl isChild

theorem Straight.insertChild (straight : vfs.Straight) {parent child : Nat} {name : Text}
    (unmentioned : (vfs.inodes child).itype = .Symlink → ¬ vfs.Mentioned name) :
    (vfs.insertChild parent name child).Straight := by
  apply straight.edit
  · exact Nat.le_refl _
  · intro node isLink
    rw [itype_insertChild] at isLink
    exact ⟨isLink, data_insertChild vfs parent node name child⟩
  · intro holder link other isChild isLink
    rw [child?_insertChild] at isChild
    split at isChild
    case isTrue here =>
      obtain rfl := Option.some.inj isChild
      rw [here.2]
      exact .inr (unmentioned isLink)
    case isFalse => exact .inl isChild

theorem Straight.insertNew (straight : vfs.Straight) (parent : Nat) (name : Text) {inode : Inode}
    (plain : inode = .newDir ∨ inode = .newFile) : (vfs.insertNew parent name inode).Straight := by
  have notLink : inode.itype ≠ .Symlink := by
    rcases plain with rfl | rfl
    · exact InodeType.noConfusion
    · exact InodeType.noConfusion
  have childless : inode.children = ∅ := by
    rcases plain with rfl | rfl
    · rfl
    · rfl
  apply straight.edit
  · exact Nat.le_succ _
  · intro node isLink
    rw [itype_insertNew] at isLink
    split at isLink
    case isTrue => exact absurd isLink notLink
    case isFalse isOld =>
      rw [data_insertNew, if_neg isOld]
      exact ⟨isLink, rfl⟩
  · intro holder link other isChild isLink
    rw [child?_insertNew] at isChild
    split at isChild
    · obtain rfl := Option.some.inj isChild
      exact absurd (straight.used isLink) (Nat.lt_irrefl _)
    · split at isChild
      · rw [childless] at isChild
        simp at isChild
      · exact .inl isChild

end Edits

/-! ### Calls -/

/-- When a call keeps links straight: a `rename` of a symbolic link gives it a name that no link
mentions. -/
def Unmentioned (depth : Nat) (vfs : Vfs) : VfsLabel → Prop
  | .rename oldPath newPath _ =>
    ∀ oldParent ∈ vfs.found depth (rsplitPath oldPath).1,
      ∀ moved ∈ vfs.child? oldParent (rsplitPath oldPath).2,
        (vfs.inodes moved).itype = .Symlink → ¬ vfs.Mentioned (rsplitPath newPath).2
  | _ => True

instance (depth : Nat) (vfs : Vfs) (label : VfsLabel) :
    Decidable (Unmentioned depth vfs label) := by
  cases label <;> unfold Unmentioned <;> infer_instance

section Steps

variable {depth : Nat} {vfs next : Vfs}

theorem Straight.grow (straight : vfs.Straight)
    (grown : Relation.ReflTransGen (Grow depth) vfs next) : next.Straight := by
  induction grown with
  | refl => exact straight
  | tail _ step ih =>
    obtain ⟨path, parent, name, inode, -, plain, rfl⟩ := step
    exact ih.insertNew parent name plain

theorem Straight.step (straight : vfs.Straight) {label : VfsLabel}
    (unmentioned : Unmentioned depth vfs label) (stepped : vfs.step depth label = some next) :
    next.Straight := by
  have renamed : ∀ {oldPath newPath : Text} {flags oldParent moved newParent : Nat},
      label = .rename oldPath newPath flags →
      vfs.found depth (rsplitPath oldPath).1 = some oldParent →
      vfs.child? oldParent (rsplitPath oldPath).2 = some moved →
      ((vfs.removeChild oldParent (rsplitPath oldPath).2).insertChild newParent
        (rsplitPath newPath).2 moved).Straight := by
    intro oldPath newPath flags oldParent moved newParent isRename isFound isMoved
    rw [isRename] at unmentioned
    apply (straight.removeChild oldParent _).insertChild
    intro isLink ⟨link, isUsed, isOther, mentions⟩
    rw [itype_removeChild] at isLink isOther
    rw [data_removeChild] at mentions
    exact unmentioned oldParent isFound moved isMoved isLink ⟨link, isUsed, isOther, mentions⟩
  cases change_of_step stepped with
  | same => exact straight
  | mkdir _ => exact straight.insertNew _ _ (.inl rfl)
  | unlink => exact straight.removeChild _ _
  | rename isFound _ isMoved => exact renamed rfl isFound isMoved
  | lose => exact straight.removeChild _ _
  | move isFound _ _ isMoved => exact renamed rfl isFound isMoved
  | openat grown => exact straight.grow grown

theorem straight_boot : boot.Straight := by
  have named : ∀ parent < boot.next, ∀ entry ∈ (boot.inodes parent).children.toList,
      (boot.inodes entry.2).itype = .Symlink → ¬ boot.Mentioned entry.1 := by
    decide +kernel
  constructor
  case used =>
    intro link isLink
    apply Nat.lt_of_not_le
    intro unused
    rw [rising_boot.blank unused] at isLink
    cases isLink
  case unmentioned =>
    intro parent link name isChild isLink
    have rises := rising_boot.rises ⟨name, isChild⟩
    exact named parent (by omega) (name, link)
      (Std.ExtTreeMap.mem_toList_iff_getElem?_eq_some.mpr isChild) isLink

end Steps

/-! ### Resolution -/

section Resolution

variable {vfs : Vfs}

/-- The loop over the components ends if every link that it meets can be followed. -/
theorem walk_isSome {follow : Text → Option (Except Errno Nat)} {parts : List Text}
    (links : ∀ part ∈ parts, ∀ parent link, vfs.child? parent part = some link →
      (vfs.inodes link).itype = .Symlink → (follow (vfs.inodes link).data).isSome)
    (current : Nat) : (vfs.walk follow parts current).isSome := by
  fun_induction vfs.walk follow parts current with
  | case1 | case3 | case4 | case6 => rfl
  | case2 | case7 | case8 =>
    rename_i ih
    exact ih fun later member => links later (List.mem_cons_of_mem _ member)
  | case5 part _ current _ _ child isChild isLink isNone =>
    have followed := links part List.mem_cons_self current child isChild isLink
    rw [isNone] at followed
    cases followed

theorem Straight.target_isSome (straight : vfs.Straight) {link : Nat}
    (isLink : (vfs.inodes link).itype = .Symlink) (depth : Nat) :
    (vfs.resolvePath (depth + 1) (vfs.inodes link).data).isSome := by
  rw [resolvePath]
  split
  · rfl
  · apply walk_isSome
    intro part member parent other isChild isOther
    exact absurd ⟨link, straight.used isLink, isLink, member⟩
      (straight.unmentioned isChild isOther)

theorem Straight.resolvePath_isSome (straight : vfs.Straight) {depth : Nat} (deep : 2 ≤ depth)
    (path : Text) : (vfs.resolvePath depth path).isSome := by
  obtain ⟨depth, rfl⟩ := Nat.exists_eq_add_of_le' deep
  rw [resolvePath]
  split
  · rfl
  · apply walk_isSome
    intro part _ parent link _ isLink
    exact straight.target_isSome isLink depth

end Resolution

/-! ### Runs -/

/-- In every run of calls that give no symbolic link a name that a link mentions, every path
resolves or fails to, and `resolve_path` calls itself at most once for it at a time. -/
theorem resolves_of_run {depth : Nat} {trace : List VfsLabel} {final : Vfs}
    (unmentioned : LabelledRun.Guarded (step depth) (Unmentioned depth) boot trace)
    (reached : boot.run depth trace = some final) :
    ∀ path bound, 2 ≤ bound → (final.resolvePath bound path).isSome := by
  have straight : final.Straight := LabelledRun.invariant_of_guarded Straight
    (fun straight guard stepped => straight.step guard stepped) straight_boot unmentioned reached
  intro path bound deep
  exact straight.resolvePath_isSome deep path

/-- A symbolic link is moved to another directory, under a name that no link mentions. -/
def moveLink : List VfsLabel := [.rename "/proc/self/exe".toList "/tmp/exe".toList 0]

theorem resolves_moveLink :
    ∃ final, boot.run 2 moveLink = some final ∧ final.child? 3 "exe".toList = some 32 ∧
      (final.inodes 32).itype = .Symlink ∧
      ∀ path bound, 2 ≤ bound → (final.resolvePath bound path).isSome := by
  obtain ⟨final, reached, isChild, isLink⟩ : ∃ final, boot.run 2 moveLink = some final ∧
      final.child? 3 "exe".toList = some 32 ∧ (final.inodes 32).itype = .Symlink := by
    decide +kernel
  exact ⟨final, reached, isChild, isLink, resolves_of_run (by decide +kernel) reached⟩

/-- The link to the program is moved to where it points. -/
def moveLinkToTarget : List VfsLabel :=
  [.rename "/proc/self/exe".toList "/usr/bin/init".toList 0]

/-- The link then names itself, and to no depth does its path resolve. -/
theorem link_names_itself :
    ∃ final, boot.run 2 moveLinkToTarget = some final ∧
      ∀ depth, final.resolvePath depth "/usr/bin/init".toList = none := by
  obtain ⟨final, reached, rootType, isUsr, usrType, isBin, binType, isInit, initType, target⟩ :
      ∃ final, boot.run 2 moveLinkToTarget = some final ∧
        (final.inodes 0).itype = .Directory ∧
        (final.inodes 0).children["usr".toList]? = some 7 ∧
        (final.inodes 7).itype = .Directory ∧
        (final.inodes 7).children["bin".toList]? = some 13 ∧
        (final.inodes 13).itype = .Directory ∧
        (final.inodes 13).children["init".toList]? = some 32 ∧
        (final.inodes 32).itype = .Symlink ∧
        (final.inodes 32).data = "/usr/bin/init".toList := by
    decide +kernel
  refine ⟨final, reached, ?_⟩
  intro depth
  have parts : ("/usr/bin/init".toList.dropWhile (· = '/')).splitOn '/' =
      ["usr".toList, "bin".toList, "init".toList] := by decide +kernel
  induction depth with
  | zero => rfl
  | succ depth ih =>
    rw [resolvePath, if_neg (by decide), parts]
    rw [walk, if_neg (by decide), root, rootType, if_neg (by decide), isUsr]
    simp only [usrType, reduceCtorEq, if_false]
    rw [walk, if_neg (by decide), usrType, if_neg (by decide), isBin]
    simp only [binType, reduceCtorEq, if_false]
    rw [walk, if_neg (by decide), binType, if_neg (by decide), isInit]
    simp only [initType, if_true, target, ih]

end Vfs

end Cyllor.Fs
