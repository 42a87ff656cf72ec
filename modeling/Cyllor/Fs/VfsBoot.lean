import Cyllor.Fs.VfsFacts

/-!
Contract: the tree of inodes after `vfs::init`, `devfs::init` and `procfs::init`.

Owns: that inodes are numbered downwards in it, from the root.
-/

namespace Cyllor.Fs

open Inode

open Function (update update_self update_of_ne)

variable {parent floor : Nat}

namespace Vfs

variable {vfs : Vfs}

/-- Every child has a larger number than the inode it is in, and both are in use; numbers that
are not in use stand for empty files. -/
structure Rising (vfs : Vfs) : Prop where
  used : 0 < vfs.next
  rises : ∀ {parent child : Nat}, vfs.Child parent child → parent < child ∧ child < vfs.next
  blank : ∀ {node : Nat}, vfs.next ≤ node → vfs.inodes node = .newFile

theorem Rising.insertChild (rising : vfs.Rising) {child : Nat} (name : Text)
    (rises : parent < child ∧ child < vfs.next) : (vfs.insertChild parent name child).Rising where
  used := rising.used
  rises step := by
    rcases Child.of_insertChild step with isOld | ⟨rfl, rfl⟩
    · exact rising.rises isOld
    · exact rises
  blank {node} unused := by
    change vfs.next ≤ node at unused
    show update vfs.inodes parent _ node = _
    rw [update_of_ne (by omega)]
    exact rising.blank unused

theorem Rising.insertNew (rising : vfs.Rising) (name : Text) {inode : Inode}
    (isParent : parent < vfs.next) (childless : inode.children = ∅) :
    (vfs.insertNew parent name inode).Rising where
  used := Nat.succ_pos _
  rises {first second} step := by
    obtain ⟨other, isChild⟩ := step
    rw [child?_insertNew] at isChild
    show first < second ∧ second < vfs.next + 1
    split at isChild
    case isTrue here =>
      cases isChild
      omega
    case isFalse =>
      split at isChild
      · rw [childless] at isChild
        simp at isChild
      · have rises := rising.rises ⟨other, isChild⟩
        omega
  blank {node} unused := by
    change vfs.next + 1 ≤ node at unused
    show update (update vfs.inodes vfs.next inode) parent _ node = _
    rw [update_of_ne (by omega), update_of_ne (by omega)]
    exact rising.blank (by omega)

/-- A tree that rises and uses at least the numbers below a bound. -/
def RisingFrom (floor : Nat) (vfs : Vfs) : Prop := vfs.Rising ∧ floor ≤ vfs.next

theorem RisingFrom.populate {entries : List (String × Inode)} (rising : vfs.RisingFrom floor)
    (isParent : parent < floor) (childless : ∀ entry ∈ entries, entry.2.children = ∅) :
    (vfs.populate parent entries).RisingFrom floor := by
  induction entries generalizing vfs with
  | nil => exact rising
  | cons entry entries ih =>
    have first := rising.1.insertNew entry.1.toList (Nat.lt_of_lt_of_le isParent rising.2)
      (childless entry List.mem_cons_self)
    exact ih ⟨first, Nat.le_succ_of_le rising.2⟩
      fun later member => childless later (List.mem_cons_of_mem _ member)

theorem RisingFrom.lower {lower : Nat} (rising : vfs.RisingFrom floor) (isLower : lower ≤ floor) :
    vfs.RisingFrom lower :=
  ⟨rising.1, Nat.le_trans isLower rising.2⟩

theorem RisingFrom.populateChild {name : String} {entries : List (String × Inode)}
    (rising : vfs.RisingFrom floor) (childless : ∀ entry ∈ entries, entry.2.children = ∅) :
    (vfs.populateChild parent name entries).RisingFrom floor := by
  unfold Vfs.populateChild
  split
  case h_1 child isChild =>
    have atNext : vfs.RisingFrom vfs.next := ⟨rising.1, Nat.le_refl _⟩
    exact (atNext.populate (rising.1.rises ⟨_, isChild⟩).2 childless).lower rising.2
  case h_2 => exact rising

theorem rising_init : init.RisingFrom 1 := by
  have empty : ({ inodes := update (fun _ => .newFile) root .newDir, next := 1 } :
      Vfs).Rising := by
    refine ⟨Nat.one_pos, ?_, ?_⟩
    case refine_2 =>
      intro node unused
      show update (fun _ => newFile) root .newDir node = .newFile
      have notRoot : node ≠ root := Nat.ne_of_gt unused
      rw [update_of_ne notRoot]
    intro parent child ⟨name, isChild⟩
    change (update (fun _ => newFile) root .newDir parent).children[name]? = _
      at isChild
    by_cases isRoot : parent = root
    · rw [isRoot, update_self] at isChild
      simp [newDir] at isChild
    · rw [update_of_ne isRoot] at isChild
      simp [newFile] at isChild
  unfold Vfs.init
  apply RisingFrom.populateChild
  · apply RisingFrom.populate ⟨empty, Nat.le_refl _⟩ Nat.one_pos
    simp [newDir]
  · simp [newDir]

theorem RisingFrom.devfsInit (rising : vfs.RisingFrom 1) : vfs.devfsInit.RisingFrom 1 := by
  unfold Vfs.devfsInit
  split
  case h_1 => exact rising
  case h_2 dev isDev =>
  have isUsed := (rising.1.rises ⟨_, isDev⟩).2
  have bound : vfs.RisingFrom vfs.next := ⟨rising.1, Nat.le_refl _⟩
  refine RisingFrom.lower ?_ rising.2
  apply RisingFrom.populate _ isUsed
  · simp [newDir, newChardev]
  apply RisingFrom.populateChild
  · apply RisingFrom.populate _ isUsed
    · simp [newDir]
    apply RisingFrom.populateChild
    · apply RisingFrom.populate bound isUsed
      simp [newDir, newChardev]
    · simp [newChardev]
  · simp [newChardev]

theorem RisingFrom.buildSelfDir {selfDir : Nat} (rising : vfs.RisingFrom floor)
    (isSelf : selfDir < floor) : (vfs.buildSelfDir selfDir).RisingFrom floor := by
  show (Vfs.populate (Vfs.populateChild (Vfs.populate vfs selfDir _) selfDir "fd" _) selfDir
    _).RisingFrom floor
  apply RisingFrom.populate _ isSelf
  · simp [newFile]
  apply RisingFrom.populateChild
  · apply RisingFrom.populate rising isSelf
    simp [newDir, newFile, newSymlink]
  · simp [newSymlink]

theorem RisingFrom.procfsInit (rising : vfs.RisingFrom 1) : vfs.procfsInit.RisingFrom 1 := by
  unfold Vfs.procfsInit
  split
  case h_1 => exact rising
  case h_2 proc isProc =>
  have isUsed := (rising.1.rises ⟨_, isProc⟩).2
  have later : proc < vfs.next + 1 := Nat.lt_succ_of_lt isUsed
  have selfDir : (vfs.populate proc [("self", .newDir)]).RisingFrom (vfs.next + 1) :=
    ⟨rising.1.insertNew _ isUsed rfl, Nat.le_refl _⟩
  have built := selfDir.buildSelfDir (Nat.lt_succ_self _)
  -- The second name of the directory: it has a larger number than `/proc`.
  have twice := built.1.insertChild "1".toList ⟨isUsed, built.2⟩
  have twiceFrom : Vfs.RisingFrom (vfs.next + 1) (((vfs.populate proc
      [("self", .newDir)]).buildSelfDir vfs.next).insertChild proc "1".toList vfs.next) :=
    ⟨twice, built.2⟩
  refine RisingFrom.lower ?_ (Nat.le_add_left 1 vfs.next)
  apply RisingFrom.populate _ later
  · simp [newFile]
  have files : Vfs.RisingFrom (vfs.next + 1) ((((vfs.populate proc
      [("self", .newDir)]).buildSelfDir vfs.next).insertChild proc "1".toList vfs.next).populate
        proc [("meminfo", .newFile), ("cpuinfo", .newFile), ("version", .newFile),
          ("sys", .newDir)]) := by
    apply twiceFrom.populate later
    simp [newFile, newDir]
  split
  case h_1 => exact files
  case h_2 sys isSys =>
    have atNext : Vfs.RisingFrom _ _ := ⟨files.1, Nat.le_refl _⟩
    refine RisingFrom.populateChild ?_ ?_
    · apply RisingFrom.lower _ files.2
      apply atNext.populate (files.1.rises ⟨_, isSys⟩).2
      simp [newDir]
    · simp [newFile]

theorem rising_boot : boot.Rising := rising_init.devfsInit.procfsInit.1

end Vfs

end Cyllor.Fs
