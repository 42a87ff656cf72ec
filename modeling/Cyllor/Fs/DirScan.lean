import Cyllor.Fs.Dirents
import Cyllor.Fs.VfsFacts

/-!
Contract: reading a directory that changes between the calls (`sys_getdents64` of
`syscall/fs.rs` with `mkdir`, `unlink` and `rename` of `fs/vfs.rs`).

Owns:
- `Scan`, a directory that is read and the entries it has returned, and its steps;
- that a scan returns every entry once when no change comes before its position and every
  buffer holds the next record;
- a scan that passes over an entry, and one that ends too early.
-/

namespace Cyllor.Fs

inductive DirName where
  | dot
  | dotDot
  | child (name : Text)
deriving DecidableEq, Repr

/-- The names that a call lists, in the order of `dirents`. -/
def Vfs.listing (vfs : Vfs) (node : Nat) : List DirName :=
  .dot :: .dotDot :: (vfs.inodes node).children.keys.map .child

/-- An open directory that is read from its start, and the entries it has returned. -/
structure Scan where
  vfs : Vfs
  node : Nat
  offset : Nat
  returned : List DirName

inductive ScanLabel where
  | getdents (dirp count : Nat)
  | change (label : VfsLabel)

namespace Scan

def file (scan : Scan) : DirFile := ⟨⟨.Directory, 0⟩, some scan.node, scan.offset⟩

def listing (scan : Scan) : List DirName := scan.vfs.listing scan.node

/-- One call. A `getdents` returns the entries from the old offset up to the new one. -/
def step (depth : Nat) (scan : Scan) : ScanLabel → Option Scan
  | .getdents dirp count =>
    match (sysGetdents64 scan.vfs scan.file dirp count).run with
    | none => none
    | some (.error _) => some scan
    | some (.ok (_, _, after)) => some { scan with
        offset := after.offset
        returned := scan.returned ++
          (scan.listing.drop scan.offset).take (after.offset - scan.offset) }
  | .change label => (scan.vfs.step depth label).map fun vfs => { scan with vfs := vfs }

/-- The names of the directory that a call can enter or remove. -/
def touched (depth : Nat) (scan : Scan) : VfsLabel → List Text
  | .mkdir path | .unlink path =>
    if scan.vfs.found depth (rsplitPath path).1 = some scan.node then [(rsplitPath path).2] else []
  | .rename oldPath newPath _ =>
    (if scan.vfs.found depth (rsplitPath oldPath).1 = some scan.node then [(rsplitPath oldPath).2]
      else []) ++
    if scan.vfs.found depth (rsplitPath newPath).1 = some scan.node then [(rsplitPath newPath).2]
    else []
  | .openat _ _ => []

/-- A buffer holds the next record, and `mkdir`, `unlink` and `rename` touch only names of the
directory that come after all names returned. -/
def Spares (depth : Nat) (scan : Scan) : ScanLabel → Prop
  | .getdents _ count => ∀ next ∈ (scan.vfs.dirents scan.node)[scan.offset]?, next.reclen ≤ count
  | .change (.openat _ _) => False
  | .change label => ∀ name ∈ scan.touched depth label,
      ∀ passed ∈ (scan.vfs.inodes scan.node).children.keys.take (scan.offset - 2),
        compare passed name = .lt

instance (depth : Nat) (scan : Scan) : (label : ScanLabel) → Decidable (scan.Spares depth label)
  | .getdents _ _ => inferInstanceAs (Decidable (∀ next ∈ _, _))
  | .change (.openat _ _) => isFalse id
  | .change (.mkdir _) => inferInstanceAs (Decidable (∀ name ∈ _, ∀ passed ∈ _, _))
  | .change (.unlink _) => inferInstanceAs (Decidable (∀ name ∈ _, ∀ passed ∈ _, _))
  | .change (.rename _ _ _) => inferInstanceAs (Decidable (∀ name ∈ _, ∀ passed ∈ _, _))

end Scan

/-! ### The front of a sorted list -/

/-- Two sorted lists that agree except on elements behind the first ones of one of them begin
with the same ones. -/
private theorem take_eq_of_sorted {α : Type} {before : α → α → Prop}
    (irrefl : ∀ first, ¬ before first first)
    (trans : ∀ {first second third}, before first second → before second third →
      before first third)
    {edited : List α} {count : Nat} {old new : List α} (oldSorted : old.Pairwise before)
    (newSorted : new.Pairwise before) (enough : count ≤ old.length)
    (behind : ∀ name ∈ edited, ∀ passed ∈ old.take count, before passed name)
    (same : ∀ other ∉ edited, other ∈ new ↔ other ∈ old) : new.take count = old.take count := by
  induction count generalizing old new with
  | zero => rfl
  | succ count ih =>
    obtain ⟨first, old, rfl⟩ := List.exists_cons_of_length_pos (by omega : 0 < old.length)
    have notEdited : ∀ other, other = first ∨ before other first → other ∉ edited := by
      intro other atMost member
      have passed := behind other member first List.mem_cons_self
      rcases atMost with rfl | less
      · exact irrefl _ passed
      · exact irrefl _ (trans less passed)
    have isNew : first ∈ new := (same first (notEdited first (.inl rfl))).mpr List.mem_cons_self
    obtain ⟨head, new, rfl⟩ := List.exists_cons_of_ne_nil (List.ne_nil_of_mem isNew)
    rw [List.pairwise_cons] at oldSorted newSorted
    -- a smaller head would be in both lists, and `first` is the least of the old one
    have isHead : head = first := by
      rcases List.mem_cons.mp isNew with isFirst | inTail
      · exact isFirst.symm
      · have less := newSorted.1 first inTail
        rcases List.mem_cons.mp ((same head (notEdited head (.inr less))).mp List.mem_cons_self)
          with isFirst | inOld
        · exact isFirst
        · exact absurd (trans less (oldSorted.1 head inOld)) (irrefl head)
    subst isHead
    rw [List.take_succ_cons, List.take_succ_cons]
    congr 1
    refine ih oldSorted.2 newSorted.2 (by simpa using enough) ?_ ?_
    · intro name member passed isPassed
      exact behind name member passed (by simp [isPassed])
    · intro other isOther
      have both := same other isOther
      rw [List.mem_cons, List.mem_cons] at both
      constructor
      · intro inNew
        rcases both.mp (.inr inNew) with rfl | inOld
        · exact absurd (newSorted.1 _ inNew) (irrefl _)
        · exact inOld
      · intro inOld
        rcases both.mpr (.inr inOld) with rfl | inNew
        · exact absurd (oldSorted.1 _ inOld) (irrefl _)
        · exact inNew

/-! ### Steps -/

namespace Scan

variable {depth : Nat} {scan next : Scan}

/-- The entries returned are those before the offset. -/
structure Exact (scan : Scan) : Prop where
  numbered : scan.node < scan.vfs.next
  inside : scan.offset ≤ scan.listing.length
  returned : scan.returned = scan.listing.take scan.offset

theorem length_listing (vfs : Vfs) (node : Nat) :
    (vfs.listing node).length = (vfs.dirents node).length := by
  simp [Vfs.listing, Vfs.dirents]

theorem nodup_listing (vfs : Vfs) (node : Nat) : (vfs.listing node).Nodup := by
  have distinct : ((vfs.inodes node).children.keys.map DirName.child).Nodup :=
    Std.ExtTreeMap.nodup_keys.map fun _ _ same => DirName.child.inj same
  simp [Vfs.listing, distinct]

section Change

variable {label : VfsLabel} {after : Vfs} (change : Vfs.Change depth scan.vfs label after)
  (noOpen : ∀ path onDisk, label ≠ .openat path onDisk)

include change noOpen

theorem next_le_of_change : scan.vfs.next ≤ after.next := by
  cases change with
  | mkdir => exact Nat.le_succ _
  | openat => exact absurd rfl (noOpen _ _)
  | _ => exact Nat.le_refl _

theorem child?_of_change (numbered : scan.node < scan.vfs.next) {other : Text}
    (untouched : other ∉ scan.touched depth label) :
    after.child? scan.node other = scan.vfs.child? scan.node other := by
  cases change with
  | same => rfl
  | mkdir resolved =>
    rw [Vfs.child?_insertNew, if_neg, if_neg (Nat.ne_of_lt numbered)]
    rintro ⟨rfl, rfl⟩
    exact untouched (by simp [touched, resolved])
  | unlink resolved | lose resolved =>
    rw [Vfs.child?_removeChild, if_neg]
    rintro ⟨rfl, rfl⟩
    exact untouched (by simp [touched, resolved])
  | rename oldResolved newResolved _ | move oldResolved newResolved _ _ =>
    rw [Vfs.child?_insertChild, if_neg, Vfs.child?_removeChild, if_neg]
    · rintro ⟨rfl, rfl⟩
      exact untouched (by simp [touched, oldResolved])
    · rintro ⟨rfl, rfl⟩
      exact untouched (by simp [touched, newResolved])
  | openat => exact absurd rfl (noOpen _ _)

end Change

theorem take_listing_eq {vfs after : Vfs} {node offset : Nat}
    (keys : (after.inodes node).children.keys.take (offset - 2) =
      (vfs.inodes node).children.keys.take (offset - 2)) :
    (after.listing node).take offset = (vfs.listing node).take offset := by
  match offset with
  | 0 | 1 => rfl
  | offset + 2 =>
    simp only [Vfs.listing, List.take_succ_cons, ← List.map_take]
    rw [show offset = offset + 2 - 2 from rfl, keys]

theorem Exact.change (exact : scan.Exact) {label : VfsLabel} {after : Vfs}
    (stepped : scan.vfs.step depth label = some after)
    (spares : scan.Spares depth (.change label)) : Exact { scan with vfs := after } := by
  have noOpen : ∀ path onDisk, label ≠ .openat path onDisk := by
    rintro path onDisk rfl
    exact spares
  have behind : ∀ name ∈ scan.touched depth label,
      ∀ passed ∈ (scan.vfs.inodes scan.node).children.keys.take (scan.offset - 2),
        compare passed name = .lt := by
    cases label with
    | openat path onDisk => exact absurd rfl (noOpen path onDisk)
    | mkdir | unlink | rename => exact spares
  have change := Vfs.change_of_step stepped
  have keys := take_eq_of_sorted (fun name => by simp [Std.ReflCmp.compare_self])
    Std.TransCmp.lt_trans Std.ExtTreeMap.ordered_keys
    (Std.ExtTreeMap.ordered_keys (t := (after.inodes scan.node).children))
    (by have inside := exact.inside; simp [listing, Vfs.listing] at inside ⊢; omega) behind
    fun other untouched => by
      have same := child?_of_change change noOpen exact.numbered untouched
      rw [Std.ExtTreeMap.mem_keys, Std.ExtTreeMap.mem_keys,
        Std.ExtTreeMap.mem_iff_isSome_getElem?, Std.ExtTreeMap.mem_iff_isSome_getElem?]
      exact iff_of_eq (congrArg (fun found => Option.isSome found = true) same)
  have front := take_listing_eq keys
  refine ⟨exact.numbered.trans_le (next_le_of_change change noOpen), ?_, ?_⟩
  · have length := congrArg List.length front
    have inside := exact.inside
    simp only [List.length_take] at length
    simp only [listing] at inside ⊢
    omega
  · exact exact.returned.trans front.symm

theorem sysGetdents64_eq (scan : Scan) (dirp count : Nat) :
    (sysGetdents64 scan.vfs scan.file dirp count).run = none ∨
      (∃ error, (sysGetdents64 scan.vfs scan.file dirp count).run = some (.error error)) ∨
      ∃ taken left, (scan.vfs.dirents scan.node).drop scan.offset = taken ++ left ∧
        (∀ next ∈ left.head?, count < (taken.map Dirent.reclen).sum + next.reclen) ∧
        (sysGetdents64 scan.vfs scan.file dirp count).run = some (.ok
          ((taken.map Dirent.reclen).sum, recordsFrom scan.offset taken,
            { scan.file with offset := scan.offset + taken.length })) := by
  by_cases refused : dirp = 0 ∨ count = 0
  · exact .inr (.inl ⟨.EINVAL, if_pos refused⟩)
  · obtain ⟨hasBuffer, positive⟩ := not_or.mp refused
    by_cases own : scan.vfs.OwnChild scan.node
    · exact .inl ((if_neg refused).trans ((if_neg (not_not.mpr rfl)).trans (if_pos own)))
    · obtain ⟨taken, left, isSplit, returned, stopped⟩ :=
        getdents_spec scan.vfs scan.file rfl rfl own hasBuffer positive
      exact .inr (.inr ⟨taken, left, isSplit, stopped, returned⟩)

theorem Exact.getdents (exact : scan.Exact) {dirp count : Nat}
    (stepped : scan.step depth (.getdents dirp count) = some next) : next.Exact := by
  unfold step at stepped
  dsimp only at stepped
  rcases sysGetdents64_eq scan dirp count with
    hangs | ⟨error, failed⟩ | ⟨taken, left, isSplit, -, returned⟩
  · rw [hangs] at stepped
    cases stepped
  · rw [failed] at stepped
    obtain rfl := Option.some.inj stepped
    exact exact
  · rw [returned] at stepped
    obtain rfl := Option.some.inj stepped
    have length := congrArg List.length isSplit
    have inside := exact.inside
    simp only [listing, length_listing, List.length_drop, List.length_append] at length inside
    refine ⟨exact.numbered, ?_, ?_⟩
    · simp only [listing, length_listing]
      omega
    · dsimp only
      rw [exact.returned, Nat.add_sub_cancel_left, ← List.take_add]
      rfl

theorem Exact.step (exact : scan.Exact) {label : ScanLabel} (spares : scan.Spares depth label)
    (stepped : scan.step depth label = some next) : next.Exact := by
  cases label with
  | getdents dirp count => exact exact.getdents stepped
  | change label =>
    obtain ⟨after, changed, rfl⟩ := Option.map_eq_some_iff.mp stepped
    exact exact.change changed spares

theorem Exact.complete (exact : scan.Exact) {dirp count : Nat} {records : List UInt8}
    {after : DirFile} (spares : scan.Spares depth (.getdents dirp count))
    (nothing : (sysGetdents64 scan.vfs scan.file dirp count).run =
      some (.ok (0, records, after))) :
    scan.returned = scan.listing := by
  rcases sysGetdents64_eq scan dirp count with
    hangs | ⟨error, failed⟩ | ⟨taken, left, isSplit, stopped, returned⟩
  · rw [hangs] at nothing
    cases nothing
  · rw [failed] at nothing
    cases nothing
  · rw [returned] at nothing
    have empty : (taken.map Dirent.reclen).sum = 0 :=
      congrArg Prod.fst (Except.ok.inj (Option.some.inj nothing))
    have noneTaken : taken = [] := by
      cases taken with
      | nil => rfl
      | cons entry taken =>
        have bounds := entry.reclen_bounds
        rw [List.map_cons, List.sum_cons] at empty
        omega
    subst noneTaken
    have atEnd : left = [] := by
      cases left with
      | nil => rfl
      | cons entry left =>
        have isNext : (scan.vfs.dirents scan.node)[scan.offset]? = some entry := by
          rw [← List.head?_drop, isSplit]
          rfl
        have fits := spares entry isNext
        have full := stopped entry rfl
        simp only [List.map_nil, List.sum_nil] at full
        omega
    subst atEnd
    rw [exact.returned, List.take_of_length_le]
    rw [listing, length_listing]
    exact List.drop_eq_nil_iff.mp isSplit

/-- In every scan whose buffers hold the next record and whose directory changes only behind
the offset, no entry is returned twice, and when a call returns 0 every entry has been. -/
theorem scan_exact {vfs : Vfs} {node : Nat} (isInode : node < vfs.next) {trace : List ScanLabel}
    (spares : LabelledRun.Guarded (step depth) (Spares depth) ⟨vfs, node, 0, []⟩ trace)
    (reached : LabelledRun.run (step depth) ⟨vfs, node, 0, []⟩ trace = some scan) :
    scan.returned = scan.listing.take scan.offset ∧ scan.returned.Nodup ∧
      ∀ dirp count records after, scan.Spares depth (.getdents dirp count) →
        (sysGetdents64 scan.vfs scan.file dirp count).run = some (.ok (0, records, after)) →
        ∀ entry ∈ scan.listing, scan.returned.count entry = 1 := by
  have exact : scan.Exact := LabelledRun.invariant_of_guarded Exact
    (fun kept => kept.step) ⟨isInode, Nat.zero_le _, rfl⟩ spares reached
  have distinct : scan.returned.Nodup := by
    rw [exact.returned]
    exact (nodup_listing scan.vfs scan.node).sublist (List.take_sublist _ _)
  refine ⟨exact.returned, distinct, ?_⟩
  intro dirp count records after holds nothing entry member
  have complete := exact.complete holds nothing
  exact List.count_eq_one_of_mem distinct (complete ▸ member)

def threeFiles : Vfs :=
  Vfs.populate ⟨Function.update (fun _ => .newFile) Vfs.root .newDir, 1⟩ Vfs.root
    [("a", .newFile), ("b", .newFile), ("c", .newFile)]

/-- A call for three entries, a new directory behind them and a removed file, and two calls
for the rest. -/
def sparingScan : List ScanLabel :=
  [.getdents 4096 72, .change (.mkdir ['/', 'd']), .change (.unlink ['/', 'b']),
    .getdents 4096 24, .getdents 4096 24]

theorem scan_exact_sparingScan :
    ∃ scan, LabelledRun.run (step 2) ⟨threeFiles, 0, 0, []⟩ sparingScan = some scan ∧
      scan.returned.Nodup ∧
      scan.returned = [.dot, .dotDot, .child ['a'], .child ['c'], .child ['d']] := by
  have spares : LabelledRun.Guarded (step 2) (Spares 2) ⟨threeFiles, 0, 0, []⟩ sparingScan := by
    decide +kernel
  have names : (LabelledRun.run (step 2) ⟨threeFiles, 0, 0, []⟩ sparingScan).map Scan.returned =
      some [.dot, .dotDot, .child ['a'], .child ['c'], .child ['d']] := by
    decide +kernel
  obtain ⟨scan, reached, isReturned⟩ := Option.map_eq_some_iff.mp names
  exact ⟨scan, reached, (scan_exact (by decide +kernel) spares reached).2.1, isReturned⟩

/-- The file that was returned last is removed: the one after it is passed over, though it is
there during the whole scan. And a buffer for less than a record ends a scan at once. -/
theorem scan_not_exact :
    (LabelledRun.run (step 2) ⟨threeFiles, 0, 0, []⟩ [.getdents 4096 72,
        .change (.unlink ['/', 'a']), .getdents 4096 72, .getdents 4096 72]).map
        (fun scan => (scan.returned, scan.listing)) =
      some ([.dot, .dotDot, .child ['a'], .child ['c']],
        [.dot, .dotDot, .child ['b'], .child ['c']]) ∧
    (sysGetdents64 threeFiles ⟨⟨.Directory, 0⟩, some 0, 0⟩ 4096 16).run =
      some (.ok (0, [], ⟨⟨.Directory, 0⟩, some 0, 0⟩)) := by
  constructor
  · decide +kernel
  · decide +kernel

end Scan

end Cyllor.Fs
