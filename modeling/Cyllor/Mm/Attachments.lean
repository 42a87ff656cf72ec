import Cyllor.Mm.ShmTables

/-!
Contract: the counts of shared memory segments against the lists of attachments, when calls
run one at a time.

Owns:
- `Counted`, which ties counts, lists, delete marks and keys together;
- that every call keeps it while segment numbers do not wrap around.
-/

namespace Cyllor.Mm

open Call hiding pure bind

variable {entry : Attachment}

namespace ShmTables

def countOf (shmid : Int) (entries : List Attachment) : Nat :=
  entries.countP fun entry => entry.2.1 = shmid

/-- Each count is the number of attachments, attached segments exist, a marked segment is
attached, keys of unmarked segments are apart, and the next number is new. -/
structure Counted (tables : ShmTables) : Prop where
  counts : ∀ {id : Int} {seg : ShmSegment}, tables.segs[id]? = some seg →
    seg.attachCount = tables.attachments id
  names : ∀ {id : Int}, 0 < tables.attachments id → (tables.segs[id]?).isSome
  kept : ∀ {id : Int} {seg : ShmSegment}, tables.segs[id]? = some seg →
    seg.markedForDelete = true → seg.attachCount ≠ 0
  keys : ∀ {id other : Int} {seg seg' : ShmSegment}, tables.segs[id]? = some seg →
    tables.segs[other]? = some seg' → seg.key = seg'.key → seg.key ≠ 0 →
    seg.markedForDelete = false → seg'.markedForDelete = false → id = other
  ids : ∀ {id : Int} {seg : ShmSegment}, tables.segs[id]? = some seg → id ≤ tables.created
  fits : ATTACHMENT_SIZE * tables.held ≤ KERNEL_HEAP_SIZE

theorem counted_boot : Counted boot where
  counts found := by simp [boot] at found
  names attached := by cases attached
  kept found := by simp [boot] at found
  keys found := by simp [boot] at found
  ids found := by simp [boot] at found
  fits := Nat.zero_le _

section Lists

variable {tables : ShmTables}

theorem attachments_setEntries (tables : ShmTables) (pid : Nat) (entries : List Attachment)
    (shmid : Int) :
    (tables.setEntries pid entries).attachments shmid + countOf shmid (tables.entriesOf pid) =
      tables.attachments shmid + countOf shmid entries :=
  tables.sumOver_setEntries (countOf shmid) rfl pid entries

theorem held_setEntries (tables : ShmTables) (pid : Nat) (entries : List Attachment) :
    (tables.setEntries pid entries).held + (tables.entriesOf pid).length =
      tables.held + entries.length :=
  tables.sumOver_setEntries List.length rfl pid entries

theorem attachments_le_held (tables : ShmTables) (shmid : Int) :
    tables.attachments shmid ≤ tables.held :=
  MapSum.sumOver_le_sumOver _ _ fun _ _ => List.countP_le_length

theorem attachments_pos {pid : Nat} {entries : List Attachment}
    (listed : tables.attach[pid]? = some entries) (member : entry ∈ entries) :
    0 < tables.attachments entry.2.1 := by
  have here := MapSum.weightAt_le_sumOver
    (fun _ entries => countOf entry.2.1 entries) tables.attach pid
  have positive : 0 < countOf entry.2.1 entries :=
    List.countP_pos_iff.mpr ⟨entry, member, decide_eq_true rfl⟩
  unfold MapSum.weightAt at here
  rw [listed] at here
  exact Nat.lt_of_lt_of_le positive here

end Lists

section Calls

variable {tables : ShmTables} {pid : Nat}

section

variable (counted : Counted tables)

include counted

theorem Counted.edit {after : ShmTables}
    (edited : ∀ {id : Int} {seg' : ShmSegment}, after.segs[id]? = some seg' →
      ∃ seg, tables.segs[id]? = some seg ∧ seg'.key = seg.key ∧
        (seg'.markedForDelete = false → seg.markedForDelete = false) ∧
        seg'.attachCount = after.attachments id ∧
        (seg'.markedForDelete = true → seg'.attachCount ≠ 0))
    (names : ∀ {id : Int}, 0 < after.attachments id → (after.segs[id]?).isSome)
    (created : after.created = tables.created)
    (fits : ATTACHMENT_SIZE * after.held ≤ KERNEL_HEAP_SIZE) : Counted after where
  counts found := by
    obtain ⟨-, -, -, -, isCount, -⟩ := edited found
    exact isCount
  names := names
  kept found := by
    obtain ⟨-, -, -, -, -, kept⟩ := edited found
    exact kept
  keys first second sameKey hasKey unmarked₁ unmarked₂ := by
    obtain ⟨old₁, isOld₁, key₁, mark₁, -⟩ := edited first
    obtain ⟨old₂, isOld₂, key₂, mark₂, -⟩ := edited second
    rw [key₁, key₂] at sameKey
    rw [key₁] at hasKey
    exact counted.keys isOld₁ isOld₂ sameKey hasKey (mark₁ unmarked₁) (mark₂ unmarked₂)
  ids found := by
    obtain ⟨seg, isOld, -⟩ := edited found
    rw [created]
    exact counted.ids isOld
  fits := fits

theorem Counted.keepAttached_eq : keepAttached tables.segs = tables.segs := by
  apply Std.ExtTreeMap.ext_getElem?
  intro id
  apply Option.ext
  intro seg
  rw [getElem?_keepAttached_eq_some]
  exact and_iff_left_of_imp counted.kept

/-- Some attachments of a thread go, with as many lowered counts, and what is then marked
and unattached is swept. -/
theorem Counted.release {left : List Attachment} {removed : List Int}
    (parts : ∀ id, countOf id left + removed.count id = countOf id (tables.entriesOf pid))
    (fewer : left.length ≤ (tables.entriesOf pid).length) :
    Counted (((tables.setEntries pid left).discount removed).sweep) := by
  have lowered : ∀ id, (tables.setEntries pid left).attachments id + removed.count id =
      tables.attachments id := by
    intro id
    have changed := attachments_setEntries tables pid left id
    have part := parts id
    omega
  apply counted.edit
  · intro id seg' found
    obtain ⟨isSeg, kept⟩ := getElem?_keepAttached_eq_some.mp found
    obtain ⟨seg, isOld, rfl⟩ := Option.map_eq_some_iff.mp ((getElem?_detachAll ..).symm.trans isSeg)
    refine ⟨seg, isOld, rfl, fun unmarked => unmarked, ?_, kept⟩
    show seg.attachCount - removed.count id = (tables.setEntries pid left).attachments id
    rw [counted.counts isOld]
    have change := lowered id
    omega
  · intro id attached
    change 0 < (tables.setEntries pid left).attachments id at attached
    have change := lowered id
    have before : 0 < tables.attachments id := by omega
    obtain ⟨seg, isOld⟩ := Option.isSome_iff_exists.mp (counted.names before)
    have stays : seg.attachCount - removed.count id ≠ 0 := by
      rw [counted.counts isOld]
      omega
    have lookup := getElem?_detachAll tables.segs removed id
    rw [isOld, Option.map_some] at lookup
    exact Option.isSome_iff_exists.mpr
      ⟨_, getElem?_keepAttached_eq_some.mpr ⟨lookup, fun _ => stays⟩⟩
  · rfl
  · have changed := held_setEntries tables pid left
    have fits := counted.fits
    show ATTACHMENT_SIZE * (tables.setEntries pid left).held ≤ KERNEL_HEAP_SIZE
    unfold ATTACHMENT_SIZE at fits ⊢
    omega

theorem Counted.attach {shmid : Int} {seg : ShmSegment} {after : ShmTables}
    (found : tables.attachable shmid = some seg) (isShmid : entry.2.1 = shmid)
    (entered : (tables.countAttach shmid).pushEntry pid entry = some after) : Counted after := by
  obtain ⟨isSeg, -⟩ := Option.filter_eq_some_iff.mp found
  unfold pushEntry at entered
  split at entered
  case isFalse => cases entered
  case isTrue room =>
  obtain rfl := Option.some.inj entered
  show Counted ((tables.countAttach shmid).setEntries pid (tables.entriesOf pid ++ [entry]))
  change ATTACHMENT_SIZE * (tables.held + 1) ≤ KERNEL_HEAP_SIZE at room
  have raised : ∀ id, ((tables.countAttach shmid).setEntries pid
      (tables.entriesOf pid ++ [entry])).attachments id =
      tables.attachments id + if shmid = id then 1 else 0 := by
    intro id
    have changed := attachments_setEntries (tables.countAttach shmid) pid
      (tables.entriesOf pid ++ [entry]) id
    have counted : countOf id (tables.entriesOf pid ++ [entry]) =
        countOf id (tables.entriesOf pid) + if shmid = id then 1 else 0 := by
      unfold countOf
      rw [List.countP_append, List.countP_singleton, isShmid]
      simp only [decide_eq_true_eq]
    rw [counted] at changed
    change _ + countOf id (tables.entriesOf pid) = tables.attachments id + _ at changed
    omega
  have lookup (id : Int) := getElem?_modify_eq tables.segs shmid id fun seg =>
    { seg with attachCount := min (seg.attachCount + 1) u64Max }
  apply counted.edit
  · intro id seg' found'
    have isNew := (lookup id).symm.trans found'
    rw [raised]
    split at isNew
    case isTrue isId =>
      obtain ⟨old, isOld, rfl⟩ := Option.map_eq_some_iff.mp isNew
      have isCount : min (old.attachCount + 1) u64Max = tables.attachments id + 1 := by
        have below := attachments_le_held tables id
        rw [counted.counts isOld]
        unfold u64Max
        unfold ATTACHMENT_SIZE KERNEL_HEAP_SIZE at room
        omega
      refine ⟨old, isOld, rfl, fun unmarked => unmarked, ?_, fun _ => ?_⟩
      · rw [if_pos isId]
        exact isCount
      · exact isCount.trans_ne (Nat.succ_ne_zero _)
    case isFalse notId =>
      rw [if_neg notId]
      exact ⟨seg', isNew, rfl, fun unmarked => unmarked, counted.counts isNew,
        counted.kept isNew⟩
  · intro id attached
    rw [raised] at attached
    show ((tables.segs.modify shmid _)[id]?).isSome
    rw [lookup]
    split
    next isId =>
      rw [← isId, isSeg]
      rfl
    next notId =>
      rw [if_neg notId] at attached
      exact counted.names attached
  · rfl
  · have changed := held_setEntries (tables.countAttach shmid) pid
      (tables.entriesOf pid ++ [entry])
    rw [List.length_append, List.length_singleton] at changed
    change _ + (tables.entriesOf pid).length = tables.held + _ at changed
    show ATTACHMENT_SIZE * ((tables.countAttach shmid).setEntries pid
      (tables.entriesOf pid ++ [entry])).held ≤ KERNEL_HEAP_SIZE
    unfold ATTACHMENT_SIZE at room ⊢
    omega

theorem Counted.mark {shmid : Int} {after : ShmTables} (marked : tables.mark shmid = some after) :
    Counted after := by
  obtain ⟨seg, isSeg, rfl⟩ := Option.map_eq_some_iff.mp marked
  apply counted.edit
  · intro id seg' found
    obtain ⟨isNew, kept⟩ := getElem?_keepAttached_eq_some.mp found
    rw [getElem?_modify_eq] at isNew
    split at isNew
    · obtain ⟨old, isOld, rfl⟩ := Option.map_eq_some_iff.mp isNew
      have isCount := counted.counts isOld
      exact ⟨old, isOld, rfl, nofun, isCount, kept⟩
    · exact ⟨seg', isNew, rfl, fun unmarked => unmarked, counted.counts isNew, kept⟩
  · intro id attached
    obtain ⟨old, isOld⟩ := Option.isSome_iff_exists.mp (counted.names attached)
    have isAttached : old.attachCount ≠ 0 := by
      rw [counted.counts isOld]
      exact Nat.ne_of_gt attached
    apply Option.isSome_iff_exists.mpr
    refine ⟨if shmid = id then { old with markedForDelete := true } else old,
      getElem?_keepAttached_eq_some.mpr ⟨?_, fun _ => ?_⟩⟩
    · rw [getElem?_modify_eq, isOld]
      split <;> rfl
    · split <;> exact isAttached
  · rfl
  · exact counted.fits

/-- A new segment, of a key that no unmarked segment has, under a number that has not
wrapped around. -/
theorem Counted.create {key : Int} {size buffer : Nat} (few : tables.created + 1 < 2 ^ 31)
    (newKey : key ≠ 0 → ∀ {id : Int} {seg : ShmSegment}, tables.segs[id]? = some seg →
      seg.markedForDelete = false → seg.key ≠ key) :
    Counted (tables.create key size buffer) := by
  have isNext : tables.nextShmid = tables.created + 1 := by
    unfold nextShmid
    rw [Int.bmod_eq_of_le (by omega) (by omega)]
    omega
  have absent : tables.segs[tables.nextShmid]? = none := by
    apply Option.eq_none_iff_forall_ne_some.mpr
    intro seg found
    have below := counted.ids found
    omega
  have unattached : tables.attachments tables.nextShmid = 0 := by
    apply Nat.eq_zero_of_not_pos
    intro attached
    have isSome := counted.names attached
    rw [absent] at isSome
    cases isSome
  have lookup : ∀ {id : Int} {seg : ShmSegment},
      (tables.segs.insert tables.nextShmid ⟨key, size, buffer, 0, false⟩)[id]? = some seg →
      (id = tables.nextShmid ∧ seg = ⟨key, size, buffer, 0, false⟩) ∨
        tables.segs[id]? = some seg := by
    intro id seg found
    rw [Std.ExtTreeMap.getElem?_insert] at found
    by_cases isId : tables.nextShmid = id
    · rw [if_pos (by simpa using isId)] at found
      exact .inl ⟨isId.symm, (Option.some.inj found).symm⟩
    · rw [if_neg (by simpa using isId)] at found
      exact .inr found
  constructor
  case counts =>
    intro id seg found
    rcases lookup found with ⟨isId, rfl⟩ | isOld
    · rw [isId]
      exact unattached.symm
    · exact counted.counts isOld
  case names =>
    intro id attached
    have isSome := counted.names attached
    show ((tables.segs.insert tables.nextShmid _)[id]?).isSome
    rw [Std.ExtTreeMap.getElem?_insert]
    split
    · rfl
    · exact isSome
  case kept =>
    intro id seg found marked
    rcases lookup found with ⟨-, rfl⟩ | isOld
    · cases marked
    · exact counted.kept isOld marked
  case keys =>
    intro id other seg₁ seg₂ first second sameKey hasKey unmarked₁ unmarked₂
    rcases lookup first with ⟨isId₁, rfl⟩ | isOld₁
    · rcases lookup second with ⟨isId₂, -⟩ | isOld₂
      · rw [isId₁, isId₂]
      · exact absurd sameKey.symm (newKey hasKey isOld₂ unmarked₂)
    · rcases lookup second with ⟨-, rfl⟩ | isOld₂
      · rw [sameKey] at hasKey
        exact absurd sameKey (newKey hasKey isOld₁ unmarked₁)
      · exact counted.keys isOld₁ isOld₂ sameKey hasKey unmarked₁ unmarked₂
  case ids =>
    intro id seg found
    show id ≤ ((tables.created + 1 : Nat) : Int)
    rcases lookup found with ⟨isId, -⟩ | isOld
    · omega
    · have below := counted.ids isOld
      omega
  case fits => exact counted.fits

end

end Calls

end ShmTables

/-! ### Every call -/

namespace ShmTables

section Steps

variable {tables : ShmTables}

theorem key_ne_of_segmentWithKey {segs : BTreeMap Int ShmSegment} {key : Int}
    (missing : segmentWithKey segs key = none) {id : Int} {seg : ShmSegment}
    (found : segs[id]? = some seg) (unmarked : seg.markedForDelete = false) : seg.key ≠ key := by
  intro isKey
  have member := Std.ExtTreeMap.mem_toList_iff_getElem?_eq_some.mpr found
  have skipped := List.findSome?_eq_none_iff.mp missing (id, seg) member
  simp [isKey, unmarked] at skipped

theorem countOf_split (passes : Attachment → Bool) (entries : List Attachment) (id : Int) :
    countOf id (entries.filter fun entry => !passes entry) +
        ((entries.filter passes).map fun entry => entry.2.1).count id = countOf id entries := by
  unfold countOf
  rw [List.count, List.countP_map]
  induction entries with
  | nil => rfl
  | cons entry entries ih =>
    by_cases taken : passes entry
    · simp only [List.filter_cons, taken, Bool.not_true, List.countP_cons, if_true]
      simp only [Function.comp_apply, beq_iff_eq, decide_eq_true_eq] at ih ⊢
      simp only [Bool.false_eq_true, if_false]
      omega
    · simp only [List.filter_cons, taken, Bool.not_false, List.countP_cons, if_true]
      simp only [decide_eq_true_eq] at ih ⊢
      simp only [Bool.false_eq_true, if_false]
      omega

theorem countOf_eraseP {entries : List Attachment} {shmaddr : Nat}
    (found : entries.find? (fun entry => entry.1 = shmaddr) = some entry) (id : Int) :
    countOf id (entries.eraseP fun entry => entry.1 = shmaddr) + [entry.2.1].count id =
      countOf id entries := by
  induction entries with
  | nil => cases found
  | cons first entries ih =>
    by_cases isHere : first.1 = shmaddr
    · rw [List.find?_cons_of_pos (by simpa using isHere)] at found
      cases found
      rw [List.eraseP_cons_of_pos (by simpa using isHere)]
      simp [countOf, List.countP_cons, List.count_singleton]
    · rw [List.find?_cons_of_neg (by simpa using isHere)] at found
      rw [List.eraseP_cons_of_neg (by simpa using isHere)]
      have rest := ih found
      unfold countOf at rest ⊢
      rw [List.countP_cons, List.countP_cons]
      omega

theorem Counted.releaseSome (counted : Counted tables) {pid : Nat} {left : List Attachment}
    {removed : List Int}
    (parts : ∀ id, countOf id left + removed.count id = countOf id (tables.entriesOf pid))
    (fewer : left.length ≤ (tables.entriesOf pid).length) :
    Counted (if removed.isEmpty then tables.setEntries pid left
      else ((tables.setEntries pid left).discount removed).sweep) := by
  have released := counted.release parts fewer
  split
  · rename_i isEmpty
    rw [List.isEmpty_iff.mp isEmpty] at released
    have same : ((tables.setEntries pid left).discount []).sweep = tables.setEntries pid left := by
      show { tables.setEntries pid left with segs := keepAttached tables.segs } = _
      rw [counted.keepAttached_eq]
      rfl
    rwa [same] at released
  · exact released

theorem wp_enterEntry {pid : Nat} {post : Except Errno Unit → ShmTables → Prop}
    (holds : ∀ after, tables.pushEntry pid entry = some after → post (.ok ()) after) :
    wp (enterEntry pid entry) post tables := by
  intro result after returned
  obtain ⟨entered, isEntered, isOutcome⟩ := Option.map_eq_some_iff.mp returned
  cases isOutcome
  exact holds after isEntered

/-- Segment numbers only advance, and counts are kept while they have not wrapped around. -/
def Advances (tables after : ShmTables) : Prop :=
  tables.created ≤ after.created ∧ (after.created < 2 ^ 31 → Counted tables → Counted after)

theorem advances_refl (tables : ShmTables) : Advances tables tables :=
  ⟨Nat.le_refl _, fun _ counted => counted⟩

theorem advances_shmget (tables : ShmTables) (key : Int) (size shmflg buffer : Nat) :
    wp (shmget key size shmflg buffer) (fun _ after => Advances tables after) tables := by
  unfold shmget
  rw [wp_ite, wp_throw, wp_bind_gets]
  refine ⟨fun _ => advances_refl tables, fun _ => ?_⟩
  cases existing : (if key ≠ IPC_PRIVATE then segmentWithKey tables.segs key else none) with
  | some id =>
    simp only [wp_ite, wp_throw, wp_pure]
    exact ⟨fun _ => advances_refl tables, fun _ => advances_refl tables⟩
  | none =>
    simp only [wp_ite, wp_bind, wp_gets, wp_modify, wp_pure,
      wp_ofOption]
    refine ⟨fun _ => ⟨fun _ => wp_hang, fun _ => ⟨Nat.le_succ _, fun few counted => ?_⟩⟩,
      fun _ => ⟨fun _ => advances_refl tables, fun _ _ => advances_refl tables⟩⟩
    apply counted.create few
    intro hasKey id seg found unmarked
    rw [if_pos (show key ≠ IPC_PRIVATE from hasKey)] at existing
    exact key_ne_of_segmentWithKey existing found unmarked

theorem advances_shmat (tables : ShmTables) (pid : Nat) (shmid : Int) (mapAddr : Nat) :
    wp (shmat pid shmid mapAddr) (fun _ after => Advances tables after) tables := by
  simp only [shmat, wp_bind, wp_gets, wp_ofOption, wp_modify, wp_pure]
  refine ⟨fun _ => advances_refl tables, fun seg found => wp_enterEntry ?_⟩
  intro after entered
  refine ⟨?_, fun _ counted => counted.attach found rfl entered⟩
  unfold pushEntry at entered
  split at entered
  · rw [← Option.some.inj entered]
    exact Nat.le_refl _
  · cases entered

theorem advances_shmdt (tables : ShmTables) (pid shmaddr : Nat) :
    wp (shmdt pid shmaddr) (fun _ after => Advances tables after) tables := by
  simp only [shmdt, wp_ite, wp_throw, wp_bind, wp_gets, wp_ofOption,
    wp_modify, wp_pure]
  refine ⟨fun _ => advances_refl tables, fun _ => ⟨fun _ => advances_refl tables,
    fun taken found => ?_⟩⟩
  obtain ⟨entry, isEntry, rfl⟩ := Option.map_eq_some_iff.mp found
  refine ⟨Nat.le_refl _, fun _ counted => ?_⟩
  exact counted.release (fun id => countOf_eraseP isEntry id) (List.length_eraseP_le)

theorem advances_shmctlRmid (tables : ShmTables) (shmid : Int) :
    wp (shmctlRmid shmid) (fun _ after => Advances tables after) tables := by
  simp only [shmctlRmid, wp_bind, wp_gets, wp_ofOption, wp_modify,
    wp_pure]
  refine ⟨fun _ => advances_refl tables, fun after marked =>
    ⟨?_, fun _ counted => counted.mark marked⟩⟩
  obtain ⟨-, -, rfl⟩ := Option.map_eq_some_iff.mp marked
  exact Nat.le_refl _

theorem Counted.detachMappingsInRange (counted : Counted tables) (pid addr len : Nat) :
    Counted (tables.detachMappingsInRange pid addr len) := by
  unfold ShmTables.detachMappingsInRange
  split
  · exact counted
  · exact counted.releaseSome (fun id => countOf_split (inside addr len) _ id)
      (List.length_filter_le _ _)

theorem Counted.cleanupProcessAttachments (counted : Counted tables) (pid : Nat) :
    Counted (tables.cleanupProcessAttachments pid) := by
  apply counted.releaseSome
  · intro id
    show 0 + ((tables.entriesOf pid).map fun entry => entry.2.1).count id = _
    rw [Nat.zero_add, List.count, List.countP_map]
    rfl
  · exact Nat.zero_le _

theorem advances_step {label : ShmLabel} {next : ShmTables}
    (stepped : tables.step label = some next) : Advances tables next := by
  cases label with
  | shmget key size shmflg buffer =>
    exact of_wp (advances_shmget tables key size shmflg buffer) stepped
  | shmat pid shmid mapAddr => exact of_wp (advances_shmat tables pid shmid mapAddr) stepped
  | shmdt pid shmaddr => exact of_wp (advances_shmdt tables pid shmaddr) stepped
  | shmctlRmid shmid => exact of_wp (advances_shmctlRmid tables shmid) stepped
  | detachMappingsInRange pid addr len =>
    obtain rfl := Option.some.inj stepped
    refine ⟨?_, fun _ counted => counted.detachMappingsInRange pid addr len⟩
    unfold ShmTables.detachMappingsInRange
    split
    · exact Nat.le_refl _
    · dsimp only
      split <;> exact Nat.le_refl _
  | cleanupProcessAttachments pid =>
    obtain rfl := Option.some.inj stepped
    refine ⟨?_, fun _ counted => counted.cleanupProcessAttachments pid⟩
    unfold ShmTables.cleanupProcessAttachments
    dsimp only
    split <;> exact Nat.le_refl _

end Steps

end ShmTables

namespace ShmTables

/-- In every run of the shared memory calls, one at a time and with fewer than `2 ^ 31`
segments created: the count of each segment is the number of attachments to it, over all
threads; every attachment names a segment that exists; no segment is marked and unattached;
and a key other than `IPC_PRIVATE` has at most one unmarked segment. -/
theorem attachments_counted_of_run {trace : List ShmLabel} {final : ShmTables}
    (few : final.created < 2 ^ 31) (reached : boot.run trace = some final) :
    (∀ (id : Int) (seg : ShmSegment), final.segs[id]? = some seg →
        seg.attachCount = final.attachments id) ∧
      (∀ (pid : Nat) (entries : List Attachment) (entry : Attachment),
        final.attach[pid]? = some entries → entry ∈ entries →
          (final.segs[entry.2.1]?).isSome) ∧
      (∀ (id : Int) (seg : ShmSegment), final.segs[id]? = some seg →
        ¬ (seg.markedForDelete = true ∧ seg.attachCount = 0)) ∧
      ∀ (id other : Int) (seg seg' : ShmSegment), final.segs[id]? = some seg →
        final.segs[other]? = some seg' → seg.key = seg'.key → seg.key ≠ IPC_PRIVATE →
        seg.markedForDelete = false → seg'.markedForDelete = false → id = other := by
  have counted : final.created < 2 ^ 31 → Counted final :=
    LabelledRun.invariant_of_run (fun tables => tables.created < 2 ^ 31 → Counted tables)
      (fun before stepped few => (advances_step stepped).2 few
        (before (Nat.lt_of_le_of_lt (advances_step stepped).1 few)))
      (fun _ => counted_boot) reached
  refine ⟨fun id seg found => (counted few).counts found, ?_, ?_, ?_⟩
  · intro pid entries entry listed member
    exact (counted few).names (attachments_pos listed member)
  · intro id seg found ⟨marked, unattached⟩
    exact (counted few).kept found marked unattached
  · intro id other seg seg' first second sameKey hasKey unmarked unmarked'
    exact (counted few).keys first second sameKey hasKey unmarked unmarked'

def attachTwice : List ShmLabel :=
  [.shmget 7 4096 0o1000 0, .shmat 1 1 0x10000, .shmat 2 1 0x20000, .shmctlRmid 1,
    .shmdt 1 0x10000]

theorem attachments_counted_attachTwice :
    ∃ final, boot.run attachTwice = some final ∧ (final.segs[(1 : Int)]?).isSome ∧
      final.attachments 1 = 1 ∧
      ∀ (id : Int) (seg : ShmSegment), final.segs[id]? = some seg →
        seg.attachCount = final.attachments id := by
  obtain ⟨final, reached, few, isThere, isOne⟩ : ∃ final, boot.run attachTwice = some final ∧
      final.created < 2 ^ 31 ∧ (final.segs[(1 : Int)]?).isSome ∧ final.attachments 1 = 1 := by
    decide +kernel
  exact ⟨final, reached, isThere, isOne, (attachments_counted_of_run few reached).1⟩

end ShmTables

end Cyllor.Mm
