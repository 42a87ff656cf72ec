import Cyllor.Fs.VfsBoot

/-!
Contract: only directories have children, and every child has a name by which it can be
resolved.

Owns:
- resolution as a walk over the parts of a path, one part at a time;
- `Named`, and `Proper`, when a call keeps it;
- that `ensure_vfs_parents` enters directories in directories;
- the calls that give an inode which is no directory a child, or a child no usable name.
-/

namespace Cyllor.Fs

open Vfs (partsOf)
open Call hiding pure bind

variable {part path current name : Text} {depth parent node : Nat}

/-! ### Parts of a path -/

section Parts

theorem partsOf_append (first second : Text) :
    partsOf (first ++ '/' :: second) = partsOf first ++ partsOf second := by
  unfold partsOf
  rw [List.splitOn_append_cons_self, List.filter_append]

theorem partsOf_part (noSlash : '/' ∉ part) (notEmpty : part ≠ []) :
    partsOf part = [part] := by
  unfold partsOf
  rw [List.splitOn_eq_singleton noSlash]
  simp [notEmpty]

theorem not_mem_of_mem_splitOn (member : part ∈ path.splitOn '/') :
    '/' ∉ part := by
  induction path generalizing part with
  | nil =>
    rw [List.mem_singleton.mp member]
    exact List.not_mem_nil
  | cons char path ih =>
    change part ∈ List.splitOnP (· == '/') (char :: path) at member
    rw [List.splitOnP_cons_eq_if_modifyHead] at member
    split at member
    case isTrue =>
      rcases List.mem_cons.mp member with rfl | later
      · exact List.not_mem_nil
      · exact ih later
    case isFalse notSlash =>
      change part ∈ (path.splitOn '/').modifyHead (List.cons char) at member
      cases parts : path.splitOn '/' with
      | nil =>
        rw [parts] at member
        cases member
      | cons first rest =>
        rw [parts, List.modifyHead_cons] at member
        rcases List.mem_cons.mp member with rfl | later
        · intro slash
          rcases List.mem_cons.mp slash with isChar | inFirst
          · rw [← isChar] at notSlash
            exact notSlash rfl
          · exact ih (parts ▸ List.mem_cons_self) inFirst
        · exact ih (parts ▸ List.mem_cons_of_mem _ later)

theorem plain_of_mem_partsOf (member : part ∈ partsOf path) :
    '/' ∉ part ∧ part ≠ [] := by
  obtain ⟨isPart, notEmpty⟩ := List.mem_filter.mp member
  exact ⟨not_mem_of_mem_splitOn isPart, by simpa using notEmpty⟩

/-- The path that `ensure_vfs_parents` puts together from parts. -/
def joined (parts : List Text) : Text := parts.flatMap fun part => '/' :: part

theorem joined_concat (parts : List Text) (part : Text) :
    joined (parts ++ [part]) = joined parts ++ '/' :: part := by
  unfold joined
  rw [List.flatMap_append, List.flatMap_singleton]

theorem partsOf_joined {parts : List Text} (plain : ∀ part ∈ parts, '/' ∉ part ∧ part ≠ []) :
    partsOf (joined parts) = parts := by
  induction parts using List.reverseRecOn with
  | nil => rfl
  | append_singleton parts part ih =>
    have isPlain := plain part (List.mem_append_right _ (List.mem_singleton_self _))
    rw [joined_concat, partsOf_append, partsOf_part isPlain.1 isPlain.2, ih]
    exact fun other member => plain other (List.mem_append_left _ member)

theorem walk_filter (vfs : Vfs) (follow : Text → Option (Except Errno Nat)) (parts : List Text)
    (current : Nat) :
    vfs.walk follow (parts.filter (· ≠ [])) current = vfs.walk follow parts current := by
  induction parts generalizing current with
  | nil => rfl
  | cons part parts ih =>
    by_cases isEmpty : part = []
    · rw [List.filter_cons_of_neg (by simpa using isEmpty), ih]
      conv_rhs => rw [Vfs.walk]
      rw [if_pos (by rw [isEmpty]; rfl)]
    · rw [List.filter_cons_of_pos (by simpa using isEmpty), Vfs.walk, Vfs.walk]
      simp only [ih]

theorem partsOf_dropWhile (path : Text) : partsOf (path.dropWhile (· = '/')) = partsOf path := by
  induction path with
  | nil => rfl
  | cons char path ih =>
    by_cases isSlash : char = '/'
    · rw [List.dropWhile_cons_of_pos (by simpa using isSlash), ih, isSlash]
      exact (partsOf_append [] path).symm
    · rw [List.dropWhile_cons_of_neg (by simpa using isSlash)]

/-- `resolve_path` is a walk over the parts of the path. -/
theorem resolvePath_eq (vfs : Vfs) (depth : Nat) (path : Text) :
    vfs.resolvePath (depth + 1) path =
      vfs.walk (vfs.resolvePath depth) (partsOf path) Vfs.root := by
  rw [Vfs.resolvePath]
  split
  case isTrue isRoot =>
    rcases isRoot with rfl | rfl
    · rfl
    · rfl
  case isFalse =>
    rw [← walk_filter]
    show vfs.walk _ (partsOf (path.dropWhile (· = '/'))) _ = _
    rw [partsOf_dropWhile]

theorem walk_append (vfs : Vfs) (follow : Text → Option (Except Errno Nat))
    (first second : List Text) (current : Nat) :
    vfs.walk follow (first ++ second) current =
      match vfs.walk follow first current with
      | some (.ok node) => vfs.walk follow second node
      | other => other := by
  fun_induction vfs.walk follow first current with
  | case1 => rfl
  | case2 _ _ _ isSkipped ih =>
    rw [← ih, List.cons_append, Vfs.walk, if_pos isSkipped]
  | case3 | case4 | case5 | case6 => simp [Vfs.walk, *]
  | case7 | case8 =>
    rename_i ih
    rw [← ih]
    simp [Vfs.walk, *]

end Parts

/-! ### More depth, and new entries -/

namespace Vfs

section Resolution

variable {vfs : Vfs}

theorem walk_mono {follow follow' : Text → Option (Except Errno Nat)}
    (more : ∀ path result, follow path = some result → follow' path = some result)
    {parts : List Text} {current : Nat} {result : Except Errno Nat}
    (walked : vfs.walk follow parts current = some result) :
    vfs.walk follow' parts current = some result := by
  fun_induction vfs.walk follow parts current with
  | case1 => exact walked
  | case2 _ _ _ isSkipped ih =>
    rw [walk, if_pos isSkipped]
    exact ih walked
  | case3 | case4 =>
    cases walked
    simp [walk, *]
  | case5 => cases walked
  | case6 _ _ _ _ _ _ _ _ _ followed =>
    cases walked
    simp [walk, more _ _ followed, *]
  | case7 _ _ _ _ _ _ _ _ _ followed ih =>
    rw [← ih walked]
    simp [walk, more _ _ followed, *]
  | case8 _ _ _ _ _ _ _ _ ih =>
    rw [← ih walked]
    simp [walk, *]

theorem resolvePath_succ {result : Except Errno Nat}
    (resolved : vfs.resolvePath depth path = some result) :
    vfs.resolvePath (depth + 1) path = some result := by
  induction depth generalizing path result with
  | zero => cases resolved
  | succ depth ih =>
    rw [resolvePath_eq] at resolved ⊢
    exact walk_mono (fun _ _ => ih) resolved

theorem resolvePath_mono {deeper : Nat} {result : Except Errno Nat}
    (resolved : vfs.resolvePath depth path = some result) (more : depth ≤ deeper) :
    vfs.resolvePath deeper path = some result := by
  induction more with
  | refl => exact resolved
  | step _ ih => exact resolvePath_succ ih

theorem resolvePath_unique {other : Nat} {first second : Except Errno Nat}
    (resolved : vfs.resolvePath depth path = some first)
    (resolvedToo : vfs.resolvePath other path = some second) : first = second := by
  have atFirst := resolvePath_mono resolved (Nat.le_max_left depth other)
  have atSecond := resolvePath_mono resolvedToo (Nat.le_max_right depth other)
  exact Option.some.inj (atFirst.symm.trans atSecond)

end Resolution

end Vfs

/-! ### Names -/

/-- A name that `resolve_path` looks up. -/
def ProperName (name : Text) : Prop := skipped name = false ∧ '/' ∉ name

instance (name : Text) : Decidable (ProperName name) := inferInstanceAs (Decidable (_ ∧ _))

namespace Vfs

/-- Only directories have children, and children have names that are looked up. -/
structure Named (vfs : Vfs) : Prop extends Numbered vfs where
  directory : ∀ {parent child : Nat} {name : Text}, vfs.child? parent name = some child →
    (vfs.inodes parent).itype = .Directory
  proper : ∀ {parent child : Nat} {name : Text}, vfs.child? parent name = some child →
    ProperName name

section Edits

variable {vfs : Vfs}

theorem Named.removeChild (named : vfs.Named) (parent : Nat) (name : Text) :
    (vfs.removeChild parent name).Named := by
  have isOld : ∀ {holder child : Nat} {other : Text},
      (vfs.removeChild parent name).child? holder other = some child →
      vfs.child? holder other = some child := by
    intro holder child other isChild
    rw [child?_removeChild] at isChild
    split at isChild
    · cases isChild
    · exact isChild
  constructor
  case toNumbered => exact named.toNumbered.removeChild parent name
  case directory =>
    intro holder child other isChild
    rw [itype_removeChild]
    exact named.directory (isOld isChild)
  case proper => exact fun isChild => named.proper (isOld isChild)

theorem Named.insertChild (named : vfs.Named) {child : Nat} (isParent : parent < vfs.next)
    (isChild : child < vfs.next) (isDirectory : (vfs.inodes parent).itype = .Directory)
    (isProper : ProperName name) :
    (vfs.insertChild parent name child).Named := by
  constructor
  case toNumbered => exact named.toNumbered.insertChild name isParent isChild
  case directory =>
    intro holder other entry isEntry
    rw [itype_insertChild]
    rw [child?_insertChild] at isEntry
    split at isEntry
    case isTrue here =>
      rw [here.1]
      exact isDirectory
    case isFalse => exact named.directory isEntry
  case proper =>
    intro holder other entry isEntry
    rw [child?_insertChild] at isEntry
    split at isEntry
    case isTrue here =>
      rw [here.2]
      exact isProper
    case isFalse => exact named.proper isEntry

theorem Named.insertNew (named : vfs.Named) {inode : Inode} (isParent : parent < vfs.next)
    (childless : inode.children = ∅) (isDirectory : (vfs.inodes parent).itype = .Directory)
    (isProper : ProperName name) :
    (vfs.insertNew parent name inode).Named := by
  have entryOf : ∀ {holder child : Nat} {other : Text},
      (vfs.insertNew parent name inode).child? holder other = some child →
      holder = parent ∧ other = name ∨
        holder < vfs.next ∧ vfs.child? holder other = some child := by
    intro holder child other isChild
    rw [child?_insertNew] at isChild
    split at isChild
    case isTrue here => exact .inl here
    case isFalse =>
      split at isChild
      · rw [childless] at isChild
        simp at isChild
      · exact .inr ⟨(named.children ⟨other, isChild⟩).1, isChild⟩
  constructor
  case toNumbered => exact named.toNumbered.insertNew name isParent childless
  case directory =>
    intro holder child other isChild
    rw [itype_insertNew]
    rcases entryOf isChild with ⟨rfl, -⟩ | ⟨isUsed, isOld⟩
    · rw [if_neg (Nat.ne_of_lt isParent)]
      exact isDirectory
    · rw [if_neg (Nat.ne_of_lt isUsed)]
      exact named.directory isOld
  case proper =>
    intro holder child other isChild
    rcases entryOf isChild with ⟨-, rfl⟩ | ⟨-, isOld⟩
    · exact isProper
    · exact named.proper isOld

theorem Numbered.lt_of_found (numbered : vfs.Numbered)
    (isFound : vfs.found depth path = some node) : node < vfs.next :=
  numbered.lt_next (reaches_child (reaches_of_found isFound))

end Edits

/-! ### Resolution one part at a time -/

section Concat

variable {vfs : Vfs} {depth : Nat}

theorem resolvePath_concat (path : Text) (noSlash : '/' ∉ part) (notEmpty : part ≠ []) :
    vfs.resolvePath (depth + 1) (path ++ '/' :: part) =
      match vfs.resolvePath (depth + 1) path with
      | some (.ok node) => vfs.walk (vfs.resolvePath depth) [part] node
      | other => other := by
  rw [resolvePath_eq, resolvePath_eq, partsOf_append, partsOf_part noSlash notEmpty, walk_append]

/-- An entry of a directory is resolved by the path of the directory and its name. -/
theorem Named.resolvePath_entry (named : vfs.Named) {child : Nat}
    (resolved : vfs.resolvePath (depth + 1) path = some (.ok node))
    (isChild : vfs.child? node name = some child) :
    vfs.resolvePath (depth + 1) (path ++ '/' :: name) =
      if (vfs.inodes child).itype = .Symlink then vfs.resolvePath depth (vfs.inodes child).data
      else some (.ok child) := by
  obtain ⟨notSkipped, noSlash⟩ := named.proper isChild
  have notEmpty : name ≠ [] := by
    intro isEmpty
    rw [isEmpty] at notSkipped
    cases notSkipped
  rw [resolvePath_concat path noSlash notEmpty, resolved]
  show vfs.walk _ [name] node = _
  rw [walk, if_neg (by rw [notSkipped]; exact Bool.false_ne_true), named.directory isChild,
    if_neg (fun different => different rfl)]
  rw [child?] at isChild
  rw [isChild]
  show (if (vfs.inodes child).itype = .Symlink then _ else _) = _
  split
  · cases vfs.resolvePath depth (vfs.inodes child).data with
    | none => rfl
    | some result =>
      cases result with
      | error error => rfl
      | ok target => rfl
  · rfl

end Concat

end Vfs

/-! ### New entries -/

namespace Vfs

section Inserted

variable {vfs : Vfs} {parent : Nat} {part : Text} {inode : Inode}

/-- What resolved before a new entry resolves the same after it, if the entry took the place of
none or of a link that resolved to nothing. -/
theorem resolvePath_insertNew (numbered : vfs.Numbered)
    (blocked : ∀ child, vfs.child? parent part = some child →
      (vfs.inodes child).itype = .Symlink ∧
        ∀ depth node, vfs.resolvePath depth (vfs.inodes child).data ≠ some (.ok node))
    (resolved : vfs.resolvePath depth path = some (.ok node)) :
    (vfs.insertNew parent part inode).resolvePath depth path = some (.ok node) := by
  induction depth generalizing path node with
  | zero => cases resolved
  | succ depth ih =>
    rw [resolvePath_eq] at resolved ⊢
    generalize partsOf path = parts at resolved
    generalize root = current at resolved
    induction parts generalizing current with
    | nil => exact resolved
    | cons first parts walks =>
      rw [walk] at resolved ⊢
      split at resolved
      case isTrue isSkipped =>
        rw [if_pos isSkipped]
        exact walks current resolved
      case isFalse isPart =>
      rw [if_neg isPart]
      split at resolved
      case isTrue => cases resolved
      case isFalse isDirectory =>
      split at resolved
      case h_1 => cases resolved
      case h_2 child isChild =>
      have inUse := numbered.children ⟨first, isChild⟩
      have elsewhere : ¬ (current = parent ∧ first = part) := by
        rintro ⟨isParent, isFirst⟩
        rw [isParent, isFirst] at isChild
        obtain ⟨isLink, unresolved⟩ := blocked child isChild
        rw [if_pos isLink] at resolved
        split at resolved
        · cases resolved
        · cases resolved
        · rename_i target followed
          exact unresolved _ _ followed
      have sameChild : ((vfs.insertNew parent part inode).inodes current).children[first]? =
          some child := by
        have lookup := child?_insertNew vfs parent current part first inode
        rw [if_neg elsewhere, if_neg (Nat.ne_of_lt inUse.1)] at lookup
        exact lookup.trans isChild
      rw [itype_insertNew, if_neg (Nat.ne_of_lt inUse.1), if_neg isDirectory, sameChild]
      dsimp only
      rw [itype_insertNew, data_insertNew, if_neg (Nat.ne_of_lt inUse.2),
        if_neg (Nat.ne_of_lt inUse.2)]
      split at resolved
      case isFalse notLink =>
        rw [if_neg notLink]
        exact walks child resolved
      case isTrue isLink =>
        rw [if_pos isLink]
        split at resolved
        · cases resolved
        · cases resolved
        · rename_i target followed
          rw [ih followed]
          exact walks target resolved

end Inserted

end Vfs

/-! ### `ensure_vfs_parents` -/

namespace Vfs

section Ensure

variable {depth : Nat} {base vfs : Vfs}

/-- The tree while `ensure_vfs_parents` has gone as far as a path: nothing was entered, or the
path resolves to a directory that is new. -/
structure Ensured (depth : Nat) (base vfs : Vfs) (current : Text) : Prop where
  named : vfs.Named
  fresh : ∀ {node : Nat}, vfs.resolvePath depth current = some (.ok node) →
    vfs = base ∨ (vfs.inodes node).itype = .Directory ∧ (vfs.inodes node).children = ∅

/-- A path resolves to a directory, if to anything. -/
def IsDir (depth : Nat) (vfs : Vfs) (path : Text) : Prop :=
  ∀ node, vfs.resolvePath depth path = some (.ok node) → (vfs.inodes node).itype = .Directory

theorem resolvePath_slash (vfs : Vfs) (depth : Nat) (path : Text) :
    vfs.resolvePath depth (if path = [] then ['/'] else path) = vfs.resolvePath depth path := by
  split
  case isFalse => rfl
  case isTrue isEmpty =>
    rw [isEmpty]
    cases depth with
    | zero => rfl
    | succ depth => rfl

theorem Ensured.isDir (ensured : Ensured depth base vfs current)
    (inBase : IsDir depth base current) : IsDir depth vfs current := by
  intro node resolved
  rcases ensured.fresh resolved with same | ⟨isDirectory, -⟩
  · rw [same] at resolved ⊢
    exact inBase node resolved
  · exact isDirectory

section

variable (ensured : Ensured (depth + 1) base vfs current)

include ensured

/-- The part is found, so the tree stays: it is in the tree that was, or it is a dot in a new
directory. -/
theorem Ensured.found (noSlash : '/' ∉ part) (notEmpty : part ≠ []) :
    Ensured (depth + 1) base vfs (current ++ '/' :: part) where
  named := ensured.named
  fresh {node} resolved := by
    rw [resolvePath_concat current noSlash notEmpty] at resolved
    cases above : vfs.resolvePath (depth + 1) current with
    | none =>
      rw [above] at resolved
      cases resolved
    | some result =>
      rw [above] at resolved
      cases result with
      | error error => cases resolved
      | ok parent =>
        rcases ensured.fresh above with same | ⟨isDirectory, childless⟩
        · exact .inl same
        · change vfs.walk _ [part] parent = _ at resolved
          rw [walk] at resolved
          split at resolved
          · cases resolved
            exact .inr ⟨isDirectory, childless⟩
          · rw [if_neg (fun different => different isDirectory), childless] at resolved
            simp at resolved

theorem Ensured.enter {error : Errno} (isDirectory : (vfs.inodes parent).itype = .Directory)
    (noSlash : '/' ∉ part) (notEmpty : part ≠ [])
    (above : vfs.resolvePath (depth + 1) current = some (.ok parent))
    (missing : vfs.resolvePath (depth + 1) (current ++ '/' :: part) = some (.error error)) :
    Ensured (depth + 1) base (vfs.insertNew parent part .newDir) (current ++ '/' :: part) ∧
      IsDir (depth + 1) (vfs.insertNew parent part .newDir) current := by
  have numbered := ensured.named.toNumbered
  have isUsed := numbered.lt_of_found (found_eq_some.mpr above)
  -- The lookup of the part failed: it has no entry, or one that is a link to nothing.
  rw [resolvePath_concat current noSlash notEmpty, above] at missing
  change vfs.walk _ [part] parent = _ at missing
  have notSkipped : ¬ skipped part = true := by
    intro isSkipped
    rw [walk, if_pos isSkipped] at missing
    cases missing
  have blocked : ∀ child, vfs.child? parent part = some child →
      (vfs.inodes child).itype = .Symlink ∧
        ∀ depth node, vfs.resolvePath depth (vfs.inodes child).data ≠ some (.ok node) := by
    intro child isChild
    rw [child?] at isChild
    rw [walk, if_neg notSkipped, if_neg (fun different => different isDirectory), isChild]
      at missing
    dsimp only at missing
    split at missing
    case isFalse => cases missing
    case isTrue isLink =>
      refine ⟨isLink, ?_⟩
      intro other node resolved
      cases followed : vfs.resolvePath depth (vfs.inodes child).data with
      | none =>
        rw [followed] at missing
        cases missing
      | some result =>
        rw [followed] at missing
        cases result with
        | ok target => cases missing
        | error error => cases resolvePath_unique followed resolved
  have stays : (vfs.insertNew parent part .newDir).resolvePath (depth + 1) current =
      some (.ok parent) := resolvePath_insertNew numbered blocked above
  have entered : (vfs.insertNew parent part .newDir).Named :=
    ensured.named.insertNew isUsed rfl isDirectory ⟨by simpa using notSkipped, noSlash⟩
  constructor
  · refine ⟨entered, ?_⟩
    intro node resolved
    have isChild : (vfs.insertNew parent part .newDir).child? parent part = some vfs.next := by
      rw [child?_insertNew, if_pos ⟨rfl, rfl⟩]
    have isNew : ((vfs.insertNew parent part .newDir).inodes vfs.next).itype = .Directory := by
      rw [itype_insertNew, if_pos rfl]
      rfl
    rw [entered.resolvePath_entry stays isChild, isNew, if_neg (by decide)] at resolved
    cases resolved
    refine .inr ⟨isNew, ?_⟩
    apply Std.ExtTreeMap.ext_getElem?
    intro other
    have lookup := child?_insertNew vfs parent vfs.next part other .newDir
    rw [if_neg (fun here => Nat.ne_of_gt isUsed here.1), if_pos rfl] at lookup
    exact lookup
  · intro node resolved
    cases stays.symm.trans resolved
    rw [itype_insertNew, if_neg (Nat.ne_of_lt isUsed)]
    exact isDirectory

theorem wp_ensureVfsParent (inBase : IsDir (depth + 1) base current) (noSlash : '/' ∉ part)
    (notEmpty : part ≠ []) :
    wp (ensureVfsParent (depth + 1) current part)
      (Call.outcome (fun _ after => Ensured (depth + 1) base after (current ++ '/' :: part) ∧
        IsDir (depth + 1) after current) fun _ _ => False) vfs := by
  have isDir := ensured.isDir inBase
  unfold ensureVfsParent
  rw [wp_bind, wp_attempt, wp_resolve]
  intro result resolved
  cases result with
  | ok node =>
    show wp (pure _) _ vfs
    rw [wp_pure]
    exact ⟨ensured.found noSlash notEmpty, isDir⟩
  | error error =>
    show wp (Call.attempt _ >>= _) _ vfs
    rw [wp_bind, wp_attempt, wp_resolve, resolvePath_slash]
    intro above resolvedAbove
    cases above with
    | ok parent =>
      show wp (Call.modify _) _ vfs
      rw [wp_modify]
      exact ensured.enter (isDir parent resolvedAbove) noSlash notEmpty resolvedAbove resolved
    | error error =>
      show wp (pure _) _ vfs
      rw [wp_pure]
      exact ⟨ensured.found noSlash notEmpty, isDir⟩

end

/-- The whole loop: in the end the path before the last part resolves to a directory. -/
theorem wp_ensureVfsParents {gone parts : List Text}
    (ensured : Ensured (depth + 1) base vfs (joined gone))
    (inBase : ∀ count < (gone ++ parts).length,
      IsDir (depth + 1) base (joined ((gone ++ parts).take count)))
    (plain : ∀ part ∈ parts, '/' ∉ part ∧ part ≠ []) :
    wp (ensureVfsParents (depth + 1) (joined gone) parts)
      (Call.outcome (fun _ after => after.Named ∧ (parts ≠ [] →
        IsDir (depth + 1) after (joined (gone ++ parts).dropLast))) fun _ _ => False) vfs := by
  induction parts generalizing gone vfs with
  | nil =>
    show wp (pure _) _ vfs
    rw [wp_pure]
    exact ⟨ensured.named, fun notEmpty => absurd rfl notEmpty⟩
  | cons part parts ih =>
    obtain ⟨noSlash, notEmpty⟩ := plain part List.mem_cons_self
    have here : IsDir (depth + 1) base (joined gone) := by
      have atGone := inBase gone.length (by simp)
      rwa [List.take_left] at atGone
    show wp (ensureVfsParent (depth + 1) (joined gone) part >>= _) _ vfs
    rw [wp_bind]
    refine wp_mono (wp_ensureVfsParent ensured here noSlash notEmpty) ?_
    intro result after held
    cases result with
    | error error => exact held.elim
    | ok _ =>
      have next : Ensured (depth + 1) base after (joined (gone ++ [part])) := by
        rw [joined_concat]
        exact held.1
      have rest := ih next (by rwa [List.append_assoc])
        fun later member => plain later (List.mem_cons_of_mem _ member)
      rw [joined_concat, List.append_assoc] at rest
      cases parts with
      | nil =>
        show wp (pure _) _ after
        rw [wp_pure]
        refine ⟨next.named, fun _ => ?_⟩
        rw [List.dropLast_concat]
        exact held.2
      | cons second parts =>
        refine wp_mono rest ?_
        intro result last done
        cases result with
        | error error => exact done.elim
        | ok _ => exact ⟨done.1, fun _ => done.2 (List.cons_ne_nil _ _)⟩

end Ensure

end Vfs

/-! ### Calls -/

section Splits

theorem rsplitOnce_eq_some {parent : Text} (split : rsplitOnce path = some (parent, name)) :
    path = parent ++ '/' :: name ∧ '/' ∉ name := by
  unfold rsplitOnce at split
  split at split
  case isFalse => cases split
  case isTrue hasSlash =>
  cases split
  have notEmpty : path.rdropWhile (· ≠ '/') ≠ [] := by
    intro isEmpty
    have all := List.rdropWhile_eq_nil_iff.mp isEmpty '/' hasSlash
    simp at all
  have isSlash : (path.rdropWhile (· ≠ '/')).getLast notEmpty = '/' := by
    have last := List.rdropWhile_last_not (· ≠ '/') path notEmpty
    simpa using last
  have kept := List.dropLast_append_getLast notEmpty
  rw [isSlash] at kept
  constructor
  · calc
      path = path.rdropWhile (· ≠ '/') ++ path.rtakeWhile (· ≠ '/') :=
        (List.rdropWhile_append_rtakeWhile ..).symm
      _ = ((path.rdropWhile (· ≠ '/')).dropLast ++ ['/']) ++ path.rtakeWhile (· ≠ '/') := by
        rw [kept]
      _ = _ := by rw [List.append_assoc, List.singleton_append]
  · intro inName
    have different := List.mem_rtakeWhile_imp inName
    simp at different

theorem not_mem_rsplitPath (path : Text) : '/' ∉ (rsplitPath path).2 := by
  unfold rsplitPath
  dsimp only
  split
  case h_1 parent name split => exact (rsplitOnce_eq_some split).2
  case h_2 noSplit =>
    intro hasSlash
    rw [rsplitOnce, if_pos hasSlash] at noSplit
    cases noSplit

end Splits

namespace Vfs

/-- The name is one that is looked up, and the parent resolves to a directory, if to anything. -/
def ProperEntry (depth : Nat) (vfs : Vfs) (split : Text × Text) : Prop :=
  skipped split.2 = false ∧
    ∀ node ∈ vfs.found depth split.1, (vfs.inodes node).itype = .Directory

instance (depth : Nat) (vfs : Vfs) (split : Text × Text) :
    Decidable (ProperEntry depth vfs split) := inferInstanceAs (Decidable (_ ∧ _))

/-- When a call gives names to inodes that can be looked up, in directories. A file that is
loaded has such a name after the last slash, and every path on the way to it resolves to a
directory, if to anything. -/
def Proper (depth : Nat) (vfs : Vfs) : VfsLabel → Prop
  | .mkdir path => ProperEntry depth vfs (rsplitPath path)
  | .unlink _ => True
  | .rename _ newPath _ => ProperEntry depth vfs (rsplitPath newPath)
  | .openat path onDisk =>
    onDisk = true →
      (∀ split ∈ rsplitOnce path, skipped split.2 = false) ∧
        ∀ count < (partsOf path).length,
          ∀ node ∈ vfs.found depth (joined ((partsOf path).take count)),
            (vfs.inodes node).itype = .Directory

instance (depth : Nat) (vfs : Vfs) (label : VfsLabel) : Decidable (Proper depth vfs label) := by
  delta Proper
  rcases label <;> infer_instance

section Steps

variable {depth : Nat} {vfs next : Vfs}

theorem Named.materialize (named : vfs.Named)
    (lastName : ∀ split ∈ rsplitOnce path, skipped split.2 = false)
    (prefixes : ∀ count < (partsOf path).length,
      IsDir (depth + 1) vfs (joined ((partsOf path).take count))) :
    wp (materializeExt4FileToVfs (depth + 1) path) (fun _ after => after.Named) vfs := by
  unfold materializeExt4FileToVfs
  rw [wp_ite, wp_throw]
  refine ⟨fun _ => named, fun _ => ?_⟩
  rw [wp_bind]
  have start : Ensured (depth + 1) vfs vfs (joined []) := ⟨named, fun _ => .inl rfl⟩
  refine wp_mono (wp_ensureVfsParents start prefixes fun _ => plain_of_mem_partsOf) ?_
  intro result after ensured
  cases result with
  | error error => exact ensured.elim
  | ok _ =>
    show wp (Call.ofOption _ _ >>= _) _ after
    rw [wp_bind_ofOption]
    refine ⟨fun _ => ensured.1, fun (parentPath, name) split => ?_⟩
    obtain ⟨isPath, noSlash⟩ := rsplitOnce_eq_some split
    have notSkipped := lastName _ split
    have notEmpty : name ≠ [] := by
      intro isEmpty
      rw [isEmpty] at notSkipped
      cases notSkipped
    have isParts : partsOf path = partsOf parentPath ++ [name] := by
      rw [isPath, partsOf_append, partsOf_part noSlash notEmpty]
    refine wp_bind_resolve (fun _ => ensured.1) ?_
    intro parent isFound
    rw [wp_modify]
    have resolved := found_eq_some.mp isFound
    rw [resolvePath_slash] at resolved
    apply ensured.1.insertNew (ensured.1.toNumbered.lt_of_found isFound) rfl _
      ⟨notSkipped, noSlash⟩
    apply ensured.2 (by rw [isParts]; exact List.append_ne_nil_of_right_ne_nil _ (by simp))
    rw [List.nil_append, isParts, List.dropLast_concat, resolvePath_eq,
      partsOf_joined fun _ => plain_of_mem_partsOf, ← resolvePath_eq]
    exact resolved

theorem Named.openat (named : vfs.Named) {onDisk : Bool}
    (proper : Proper depth vfs (.openat path onDisk)) :
    wp (openat depth path onDisk) (fun _ after => after.Named) vfs := by
  unfold Vfs.openat
  rw [wp_ite, wp_pure]
  refine ⟨fun _ => named, fun _ => ?_⟩
  cases depth with
  | zero =>
    rw [wp_bind, wp_attempt, wp_resolve]
    intro result resolved
    cases resolved
  | succ depth =>
    rw [wp_bind, wp_attempt, wp_resolve]
    intro result _
    cases result with
    | ok node => exact (wp_pure _).mpr named
    | error error =>
      show wp (if onDisk = true then _ else _) _ vfs
      rw [wp_ite, wp_throw]
      refine ⟨fun isOnDisk => ?_, fun _ => named⟩
      obtain ⟨lastName, prefixes⟩ := proper isOnDisk
      rw [wp_bind, wp_attempt]
      refine wp_mono (named.materialize lastName ?_) ?_
      · intro count isPart node resolved
        exact prefixes count isPart node (found_eq_some.mpr resolved)
      · intro _ after isNamed
        show wp (Call.attempt _ >>= _) _ after
        rw [wp_bind, wp_attempt, wp_resolve]
        intro loaded _
        cases loaded with
        | ok node => exact (wp_pure _).mpr isNamed
        | error error => exact (wp_throw _).mpr isNamed

theorem Named.step (named : vfs.Named) {label : VfsLabel} (proper : Proper depth vfs label)
    (stepped : vfs.step depth label = some next) : next.Named := by
  cases label with
  | openat path onDisk => exact of_wp (named.openat proper) stepped
  | mkdir path =>
    cases change_of_step stepped with
    | same => exact named
    | mkdir isFound =>
      exact named.insertNew (named.toNumbered.lt_of_found isFound) rfl (proper.2 _ isFound)
        ⟨proper.1, not_mem_rsplitPath path⟩
  | unlink path =>
    cases change_of_step stepped with
    | same => exact named
    | unlink => exact named.removeChild _ _
  | rename oldPath newPath flags =>
    have renamed : ∀ {oldParent newParent moved : Nat},
        vfs.found depth (rsplitPath newPath).1 = some newParent →
        vfs.child? oldParent (rsplitPath oldPath).2 = some moved →
        ((vfs.removeChild oldParent (rsplitPath oldPath).2).insertChild newParent
          (rsplitPath newPath).2 moved).Named := by
      intro oldParent newParent moved isFound isMoved
      apply (named.removeChild oldParent _).insertChild
      · exact named.toNumbered.lt_of_found isFound
      · exact (named.children ⟨_, isMoved⟩).2
      · rw [itype_removeChild]
        exact proper.2 _ isFound
      · exact ⟨proper.1, not_mem_rsplitPath newPath⟩
    cases change_of_step stepped with
    | same => exact named
    | rename _ isFound isMoved => exact renamed isFound isMoved
    | lose => exact named.removeChild _ _
    | move _ isFound _ isMoved => exact renamed isFound isMoved

theorem named_boot : boot.Named := by
  have listed : ∀ parent < boot.next, ∀ entry ∈ (boot.inodes parent).children.toList,
      (boot.inodes parent).itype = .Directory ∧ ProperName entry.1 := by
    decide +kernel
  have entryOf : ∀ {parent child : Nat} {name : Text}, boot.child? parent name = some child →
      (boot.inodes parent).itype = .Directory ∧ ProperName name := by
    intro parent child name isChild
    have rises := rising_boot.rises ⟨name, isChild⟩
    exact listed parent (by omega) (name, child)
      (Std.ExtTreeMap.mem_toList_iff_getElem?_eq_some.mpr isChild)
  refine { used := rising_boot.used, children := ?_, directory := fun isChild =>
    (entryOf isChild).1,
           proper := fun isChild => (entryOf isChild).2 }
  intro parent child step
  have rises := rising_boot.rises step
  omega

end Steps

/-! ### Runs -/

/-- In every run of calls that are proper, only directories have children, every child has a
name that is looked up, and a directory's path with the name resolves to the child, or to what
it links to. -/
theorem named_of_run {depth : Nat} {trace : List VfsLabel} {final : Vfs}
    (proper : LabelledRun.Guarded (step depth) (Proper depth) boot trace)
    (reached : boot.run depth trace = some final) :
    (∀ parent name child, final.child? parent name = some child →
      (final.inodes parent).itype = .Directory ∧ name ≠ [] ∧ '/' ∉ name ∧ name ≠ ['.'] ∧
        name ≠ ['.', '.']) ∧
    ∀ bound path node name child, final.resolvePath (bound + 1) path = some (.ok node) →
      final.child? node name = some child →
      final.resolvePath (bound + 1) (path ++ '/' :: name) =
        if (final.inodes child).itype = .Symlink then
          final.resolvePath bound (final.inodes child).data
        else some (.ok child) := by
  have named : final.Named := LabelledRun.invariant_of_guarded Named
    (fun named guard stepped => named.step guard stepped) named_boot proper reached
  constructor
  · intro parent name child isChild
    obtain ⟨notSkipped, noSlash⟩ := named.proper isChild
    have kinds : ¬ (name = [] ∨ name = ['.'] ∨ name = ['.', '.']) := by
      intro isKind
      rw [skipped, decide_eq_true isKind] at notSkipped
      cases notSkipped
    refine ⟨named.directory isChild, fun isEmpty => kinds (.inl isEmpty), noSlash,
      fun isDot => kinds (.inr (.inl isDot)), fun isDots => kinds (.inr (.inr isDots))⟩
  · intro bound path node name child resolved isChild
    exact named.resolvePath_entry resolved isChild

/-- A directory is made and renamed, and a file two directories below it is loaded. -/
def makeAndLoad : List VfsLabel :=
  [.mkdir "/tmp/a".toList, .rename "/tmp/a".toList "/etc/b".toList 0,
    .openat "/etc/b/c/file".toList true]

theorem named_makeAndLoad :
    ∃ final, boot.run 2 makeAndLoad = some final ∧ final.child? 4 "b".toList = some 52 ∧
      final.child? 52 "c".toList = some 53 ∧ final.child? 53 "file".toList = some 55 ∧
      (∀ parent name child, final.child? parent name = some child →
        (final.inodes parent).itype = .Directory ∧ name ≠ [] ∧ '/' ∉ name ∧ name ≠ ['.'] ∧
          name ≠ ['.', '.']) ∧
      ∀ bound path node name child, final.resolvePath (bound + 1) path = some (.ok node) →
        final.child? node name = some child →
        final.resolvePath (bound + 1) (path ++ '/' :: name) =
          if (final.inodes child).itype = .Symlink then
            final.resolvePath bound (final.inodes child).data
          else some (.ok child) := by
  obtain ⟨final, reached, isDirectory, isInner, isFile⟩ :
      ∃ final, boot.run 2 makeAndLoad = some final ∧ final.child? 4 "b".toList = some 52 ∧
        final.child? 52 "c".toList = some 53 ∧ final.child? 53 "file".toList = some 55 := by
    decide +kernel
  exact ⟨final, reached, isDirectory, isInner, isFile, named_of_run (by decide +kernel) reached⟩

/-- A directory is made in a device, in the root under the empty name, and in the root under the
name of the parent. -/
def makeImproper : List VfsLabel :=
  [.mkdir "/dev/null/x".toList, .mkdir "/".toList, .mkdir "/..".toList]

/-- All three calls enter a child, and the paths of none of them resolve to it. -/
theorem improper_entries_made :
    ∃ final, boot.run 2 makeImproper = some final ∧
      (final.inodes 16).itype = .CharDevice ∧ final.child? 16 "x".toList = some 52 ∧
      final.resolvePath 2 "/dev/null/x".toList = some (.error .ENOTDIR) ∧
      final.child? root "".toList = some 53 ∧
      final.resolvePath 2 "/".toList = some (.ok root) ∧
      final.child? root "..".toList = some 54 ∧
      final.resolvePath 2 "/..".toList = some (.ok root) := by
  decide +kernel

end Vfs

end Cyllor.Fs
