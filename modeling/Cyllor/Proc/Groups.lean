import Cyllor.Proc.System

/-!
Contract: thread groups in every reachable process table.

Owns: `Grouped`, that the thread list of a leader has exactly the threads of its group; that
every call keeps it; and that the exit of a thread group leaves no entry of the group.
-/

namespace Cyllor.Proc

open Cyllor.Mm (CLONE_THREAD)

variable {nextPid key pid flags tgid caller value : Nat} {after : Table} {process entry : Process}

variable {state next : State} {table : Table}

/-- The list of a leader has the threads of its group, each once. -/
def ListsGroup (table : Table) (leader : Process) : Prop :=
  leader.threads.Nodup ∧ ∀ tid : Nat, tid ∈ leader.threads ↔
    ∃ process, table[tid]? = some process ∧ process.tgid = leader.pid

/-- Entries lie under their own numbers, which were given out; the leader of a group leads
it, and its list is the group. -/
structure Grouped (table : Table) (nextPid : Nat) : Prop where
  keyed : ∀ {key : Nat} {process : Process}, table[key]? = some process → process.pid = key
  below : ∀ {key : Nat} {process : Process}, table[key]? = some process →
    key < nextPid ∧ process.tgid < nextPid
  leads : ∀ {key : Nat} {process leader : Process}, table[key]? = some process →
    table[process.tgid]? = some leader → leader.tgid = leader.pid
  lists : ∀ {key : Nat} {leader : Process}, table[key]? = some leader →
    leader.tgid = leader.pid → ListsGroup table leader

theorem grouped_empty (nextPid : Nat) : Grouped ∅ nextPid := by
  constructor <;> simp

theorem Grouped.mono {later : Nat} (grouped : Grouped table nextPid) (le : nextPid ≤ later) :
    Grouped table later where
  keyed := grouped.keyed
  below found := ⟨(grouped.below found).1.trans_le le, (grouped.below found).2.trans_le le⟩
  leads := grouped.leads
  lists := grouped.lists

/-! ### Entries that stay where they are -/

/-- The part of an entry that thread groups depend on. -/
def Process.membership (process : Process) : Nat × Nat × List Nat :=
  (process.pid, process.tgid, process.threads)

/-- The entries are in the same thread groups. -/
def SameGroups (before after : Table) : Prop :=
  ∀ key : Nat, (after[key]?).map Process.membership = (before[key]?).map Process.membership

theorem SameGroups.exists_before {before : Table} (same : SameGroups before after)
    (found : after[key]? = some process) :
    ∃ old, before[key]? = some old ∧ old.pid = process.pid ∧ old.tgid = process.tgid ∧
      old.threads = process.threads := by
  have sameKey := same key
  rw [found, Option.map_some] at sameKey
  obtain ⟨old, foundOld, sameMembership⟩ := Option.map_eq_some_iff.mp sameKey.symm
  simp only [Process.membership, Prod.mk.injEq] at sameMembership
  exact ⟨old, foundOld, sameMembership⟩

theorem SameGroups.symm {before : Table} (same : SameGroups before after) :
    SameGroups after before := fun key => (same key).symm

theorem Grouped.of_sameGroups (grouped : Grouped table nextPid) (same : SameGroups table after) :
    Grouped after nextPid where
  keyed found := by
    obtain ⟨old, foundOld, samePid, -, -⟩ := same.exists_before found
    rw [← samePid]
    exact grouped.keyed foundOld
  below found := by
    obtain ⟨old, foundOld, -, sameTgid, -⟩ := same.exists_before found
    rw [← sameTgid]
    exact grouped.below foundOld
  leads found foundLeader := by
    obtain ⟨old, foundOld, -, sameTgid, -⟩ := same.exists_before found
    obtain ⟨oldLeader, foundOldLeader, leaderPid, leaderTgid, -⟩ := same.exists_before foundLeader
    rw [← leaderPid, ← leaderTgid]
    rw [← sameTgid] at foundOldLeader
    exact grouped.leads foundOld foundOldLeader
  lists found isLeader := by
    obtain ⟨old, foundOld, samePid, sameTgid, sameThreads⟩ := same.exists_before found
    rw [← samePid, ← sameTgid] at isLeader
    obtain ⟨nodup, listed⟩ := grouped.lists foundOld isLeader
    rw [ListsGroup, ← sameThreads, ← samePid]
    refine ⟨nodup, fun tid => (listed tid).trans ?_⟩
    constructor
    · rintro ⟨process, foundMember, inGroup⟩
      obtain ⟨now, foundNow, -, nowTgid, -⟩ := same.symm.exists_before foundMember
      exact ⟨now, foundNow, nowTgid.trans inGroup⟩
    · rintro ⟨process, foundMember, inGroup⟩
      obtain ⟨before, foundBefore, -, beforeTgid, -⟩ := same.exists_before foundMember
      exact ⟨before, foundBefore, beforeTgid.trans inGroup⟩

theorem sameGroups_insert {changed : Process} (found : table[pid]? = some process)
    (same : changed.membership = process.membership) :
    SameGroups table (table.insert pid changed) := by
  intro key
  rw [Std.ExtTreeMap.getElem?_insert]
  by_cases isKey : pid = key
  · subst isKey
    simp [found, same]
  · simp [isKey]

theorem membership_of_apply {changed : Process} {call : CredCall}
    (applied : call.apply process = .ok changed) :
    changed.membership = process.membership := by
  rw [CredCall.apply_ok applied]
  rfl

/-! ### New entries -/

/-- An entry under a new number: alone in its own group, or a thread of a group whose leader,
if it has an entry, leads it. -/
structure Joins (table : Table) (nextPid : Nat) (entry : Process) (flags : Nat) : Prop where
  isNew : entry.pid = nextPid
  alone : entry.threads = [nextPid]
  own : ¬ flags &&& CLONE_THREAD ≠ 0 → entry.tgid = nextPid
  older : flags &&& CLONE_THREAD ≠ 0 → entry.tgid < nextPid
  leads : flags &&& CLONE_THREAD ≠ 0 → ∀ leader, table[entry.tgid]? = some leader →
    leader.tgid = leader.pid

/-- What is found after an insertion: the new entry, or an old one, with the new thread in
its list if it leads the group. -/
theorem Joins.found (joins : Joins table nextPid entry flags)
    (found : (insertClone table entry flags)[key]? = some process) :
    (key = nextPid ∧ process = entry) ∨
      ∃ old, table[key]? = some old ∧ key ≠ nextPid ∧ old.pid = process.pid ∧
        old.tgid = process.tgid ∧ process.threads =
          if flags &&& CLONE_THREAD ≠ 0 ∧ key = entry.tgid then old.threads ++ [nextPid]
          else old.threads := by
  rw [getElem?_insertClone, joins.isNew] at found
  by_cases isNew : nextPid = key
  · rw [if_pos isNew, Option.map_some, if_neg, Option.some_inj] at found
    · exact .inl ⟨isNew.symm, found.symm⟩
    · rintro ⟨thread, isLeader⟩
      have older := joins.older thread
      omega
  · rw [if_neg isNew] at found
    obtain ⟨old, foundOld, rfl⟩ := Option.map_eq_some_iff.mp found
    refine .inr ⟨old, foundOld, Ne.symm isNew, ?_⟩
    split
    · exact ⟨rfl, rfl, rfl⟩
    · exact ⟨rfl, rfl, rfl⟩

theorem Joins.exists_member {tid : Nat} (joins : Joins table nextPid entry flags)
    (grouped : Grouped table nextPid) :
    (∃ process, (insertClone table entry flags)[tid]? = some process ∧ process.tgid = tgid) ↔
      (tid = nextPid ∧ entry.tgid = tgid) ∨
        ∃ process, table[tid]? = some process ∧ process.tgid = tgid := by
  constructor
  · rintro ⟨process, found, inGroup⟩
    rcases joins.found found with ⟨isNew, rfl⟩ | ⟨old, foundOld, -, -, sameTgid, -⟩
    · exact .inl ⟨isNew, inGroup⟩
    · exact .inr ⟨old, foundOld, sameTgid.trans inGroup⟩
  · rintro (⟨rfl, inGroup⟩ | ⟨process, found, inGroup⟩)
    · refine ⟨_, ?_, inGroup⟩
      rw [getElem?_insertClone, joins.isNew, if_pos rfl, Option.map_some, if_neg]
      rintro ⟨thread, isLeader⟩
      have older := joins.older thread
      omega
    · have older : nextPid ≠ tid := by
        have below := (grouped.below found).1
        omega
      have foundNow := getElem?_insertClone table entry flags tid
      rw [joins.isNew, if_neg older, found, Option.map_some] at foundNow
      refine ⟨_, foundNow, ?_⟩
      split
      · exact inGroup
      · exact inGroup

theorem Joins.lists {leader : Process} (joins : Joins table nextPid entry flags)
    (grouped : Grouped table nextPid)
    (found : (insertClone table entry flags)[key]? = some leader)
    (isLeader : leader.tgid = leader.pid) :
    ListsGroup (insertClone table entry flags) leader := by
  rcases joins.found found with ⟨rfl, rfl⟩ | ⟨old, foundOld, notNew, samePid, sameTgid, sameThreads⟩
  · rw [joins.isNew] at isLeader
    rw [ListsGroup, joins.alone, joins.isNew]
    refine ⟨List.nodup_singleton _, fun tid => ?_⟩
    rw [joins.exists_member grouped, List.mem_singleton]
    constructor
    · exact fun isNew => .inl ⟨isNew, isLeader⟩
    · rintro (⟨isNew, -⟩ | ⟨process, foundMember, inGroup⟩)
      · exact isNew
      · have below := (grouped.below foundMember).2
        omega
  · rw [← samePid, ← sameTgid] at isLeader
    obtain ⟨nodup, listed⟩ := grouped.lists foundOld isLeader
    have isKey := grouped.keyed foundOld
    rw [ListsGroup, sameThreads, ← samePid]
    by_cases grows : flags &&& CLONE_THREAD ≠ 0 ∧ key = entry.tgid
    · rw [if_pos grows]
      refine ⟨List.nodup_append.mpr ⟨nodup, List.nodup_singleton _, ?_⟩, fun tid => ?_⟩
      · intro tid inList other isNew same
        rw [List.mem_singleton] at isNew
        obtain ⟨process, foundMember, -⟩ := (listed tid).mp inList
        have below := (grouped.below foundMember).1
        omega
      · rw [joins.exists_member grouped, List.mem_append, List.mem_singleton, listed tid, or_comm,
          isKey]
        exact or_congr_left (and_iff_left grows.2.symm).symm
    · rw [if_neg grows]
      refine ⟨nodup, fun tid => ?_⟩
      rw [joins.exists_member grouped, listed tid]
      refine (or_iff_right ?_).symm
      rintro ⟨-, inGroup⟩
      apply grows
      by_cases thread : flags &&& CLONE_THREAD ≠ 0
      · exact ⟨thread, (inGroup.trans isKey).symm⟩
      · have own := joins.own thread
        omega

theorem Joins.grouped (joins : Joins table nextPid entry flags) (grouped : Grouped table nextPid) :
    Grouped (insertClone table entry flags) (nextPid + 1) where
  keyed found := by
    rcases joins.found found with ⟨rfl, rfl⟩ | ⟨old, foundOld, -, samePid, -, -⟩
    · exact joins.isNew
    · exact samePid ▸ grouped.keyed foundOld
  below found := by
    rcases joins.found found with ⟨rfl, rfl⟩ | ⟨old, foundOld, -, -, sameTgid, -⟩
    · refine ⟨Nat.lt_succ_self _, ?_⟩
      by_cases thread : flags &&& CLONE_THREAD ≠ 0
      · exact (joins.older thread).trans (Nat.lt_succ_self _)
      · rw [joins.own thread]
        exact Nat.lt_succ_self _
    · obtain ⟨key, tgid⟩ := grouped.below foundOld
      rw [← sameTgid]
      exact ⟨key.trans (Nat.lt_succ_self _), tgid.trans (Nat.lt_succ_self _)⟩
  leads found foundLeader := by
    rcases joins.found foundLeader with ⟨isNew, rfl⟩ | ⟨oldLeader, foundOldLeader, -, leaderPid,
      leaderTgid, -⟩
    · rcases joins.found found with ⟨-, rfl⟩ | ⟨old, foundOld, -, -, sameTgid, -⟩
      · exact isNew.trans joins.isNew.symm
      · have below := (grouped.below foundOld).2
        omega
    · rw [← leaderPid, ← leaderTgid]
      rcases joins.found found with ⟨-, rfl⟩ | ⟨old, foundOld, -, -, sameTgid, -⟩
      · by_cases thread : flags &&& CLONE_THREAD ≠ 0
        · exact joins.leads thread oldLeader foundOldLeader
        · have below := (grouped.below foundOldLeader).1
          have own := joins.own thread
          omega
      · rw [← sameTgid] at foundOldLeader
        exact grouped.leads foundOld foundOldLeader
  lists found isLeader := joins.lists grouped found isLeader

/-- `spawn_user_process` inserts its entry like a clone that is not a thread. -/
theorem insert_eq_insertClone (entry : Process) :
    table.insert entry.pid entry = insertClone table entry 0 := by
  unfold insertClone
  rw [if_neg (by decide)]

theorem joins_spawnEntry (table : Table) (nextPid ppid : Nat) :
    Joins table nextPid (spawnEntry table nextPid ppid) 0 where
  isNew := rfl
  alone := rfl
  own _ := rfl
  older thread := absurd (by decide) thread
  leads thread := absurd (by decide) thread

theorem joins_cloneEntry (grouped : Grouped table nextPid) (isThread : caller < nextPid) :
    Joins table nextPid (cloneEntry (parentEntry table caller) caller nextPid flags) flags where
  isNew := rfl
  alone := rfl
  own notThread := if_neg notThread
  older thread := by
    rw [cloneEntry, parentEntry]
    simp only [if_pos thread]
    split
    · rename_i parent found
      exact (grouped.below found).2
    · exact isThread
  leads thread leader foundLeader := by
    rw [cloneEntry, parentEntry] at foundLeader
    simp only [if_pos thread] at foundLeader
    split at foundLeader
    · rename_i parent found
      exact grouped.leads found foundLeader
    · rename_i absent
      cases absent.symm.trans foundLeader

/-! ### Exits -/

theorem exitInfo_of_found (found : table[key]? = some process) :
    exitInfo table key = (process.ppid, process.tgid) := by
  rw [exitInfo, found]

/-- What is found after an exit: an old entry of another process, without the thread in its
list if it leads the group. -/
theorem found_of_dropEntry (found : (dropEntry table pid)[key]? = some process) :
    key ≠ pid ∧ ∃ old, table[key]? = some old ∧ old.pid = process.pid ∧ old.tgid = process.tgid ∧
      old.ppid = process.ppid ∧
      process.threads = if key = (exitInfo table pid).2 then
        old.threads.filter (fun other => other ≠ pid) else old.threads := by
  rw [getElem?_dropEntry] at found
  by_cases isKey : pid = key
  · rw [if_pos isKey] at found
    cases found
  · rw [if_neg isKey] at found
    obtain ⟨old, foundOld, rfl⟩ := Option.map_eq_some_iff.mp found
    refine ⟨Ne.symm isKey, old, foundOld, ?_⟩
    split
    · exact ⟨rfl, rfl, rfl, rfl⟩
    · exact ⟨rfl, rfl, rfl, rfl⟩

theorem exists_member_dropEntry {tid : Nat} :
    (∃ process, (dropEntry table pid)[tid]? = some process ∧ process.tgid = tgid) ↔
      tid ≠ pid ∧ ∃ process, table[tid]? = some process ∧ process.tgid = tgid := by
  constructor
  · rintro ⟨process, found, inGroup⟩
    obtain ⟨other, old, foundOld, -, sameTgid, -⟩ := found_of_dropEntry found
    exact ⟨other, old, foundOld, sameTgid.trans inGroup⟩
  · rintro ⟨other, process, found, inGroup⟩
    have foundNow := getElem?_dropEntry table pid tid
    rw [if_neg (Ne.symm other), found, Option.map_some] at foundNow
    refine ⟨_, foundNow, ?_⟩
    split
    · exact inGroup
    · exact inGroup

theorem Grouped.dropEntry (grouped : Grouped table nextPid) (pid : Nat) :
    Grouped (dropEntry table pid) nextPid where
  keyed found := by
    obtain ⟨-, old, foundOld, samePid, -⟩ := found_of_dropEntry found
    exact samePid ▸ grouped.keyed foundOld
  below found := by
    obtain ⟨-, old, foundOld, -, sameTgid, -⟩ := found_of_dropEntry found
    exact sameTgid ▸ grouped.below foundOld
  leads found foundLeader := by
    obtain ⟨-, old, foundOld, -, sameTgid, -⟩ := found_of_dropEntry found
    obtain ⟨-, oldLeader, foundOldLeader, leaderPid, leaderTgid, -⟩ :=
      found_of_dropEntry foundLeader
    rw [← sameTgid] at foundOldLeader
    rw [← leaderPid, ← leaderTgid]
    exact grouped.leads foundOld foundOldLeader
  lists found isLeader := by
    obtain ⟨other, old, foundOld, samePid, sameTgid, -, threads⟩ := found_of_dropEntry found
    rw [← samePid, ← sameTgid] at isLeader
    obtain ⟨nodup, listed⟩ := grouped.lists foundOld isLeader
    rw [ListsGroup, threads, ← samePid]
    split
    · refine ⟨nodup.filter _, fun tid => ?_⟩
      rw [exists_member_dropEntry, List.mem_filter, listed tid, and_comm, decide_eq_true_eq]
    · rename_i notLeader
      refine ⟨nodup, fun tid => ?_⟩
      rw [exists_member_dropEntry, listed tid]
      refine (and_iff_right_of_imp ?_).symm
      -- the thread that exits is in no other list
      rintro ⟨process, foundMember, inGroup⟩ rfl
      apply notLeader
      rw [exitInfo_of_found foundMember, inGroup, grouped.keyed foundOld]

theorem found_of_exits {pids : List Nat} {code : Int}
    (found : (pids.foldl (fun state pid => noteProcessExit state pid code) state).table[key]? =
      some process) :
    key ∉ pids ∧ ∃ old, state.table[key]? = some old ∧ old.tgid = process.tgid := by
  induction pids generalizing state with
  | nil => exact ⟨List.not_mem_nil, process, found, rfl⟩
  | cons pid rest ih =>
    obtain ⟨notLater, middle, foundMiddle, sameTgid⟩ := ih found
    obtain ⟨notNow, old, foundOld, -, sameTgidBefore, -⟩ := found_of_dropEntry foundMiddle
    refine ⟨?_, old, foundOld, sameTgidBefore.trans sameTgid⟩
    rw [List.mem_cons, not_or]
    exact ⟨notNow, notLater⟩

theorem Grouped.exits (pids : List Nat) (code : Int) (grouped : Grouped state.table nextPid) :
    Grouped (pids.foldl (fun state pid => noteProcessExit state pid code) state).table nextPid := by
  induction pids generalizing state with
  | nil => exact grouped
  | cons pid rest ih => exact ih (grouped.dropEntry pid)

theorem nextPid_exits (pids : List Nat) (code : Int) :
    (pids.foldl (fun state pid => noteProcessExit state pid code) state).nextPid =
      state.nextPid := by
  induction pids generalizing state with
  | nil => rfl
  | cons pid rest ih => exact ih

theorem Grouped.group_gone {code : Int} (grouped : Grouped state.table nextPid)
    (found : (noteThreadGroupExit state tgid code).table[key]? = some process) :
    process.tgid ≠ tgid := by
  intro inGroup
  obtain ⟨notMember, old, foundOld, sameTgid⟩ := found_of_exits found
  apply notMember
  rw [mem_members]
  exact ⟨key, old, foundOld, sameTgid.trans inGroup, grouped.keyed foundOld⟩

/-! ### Runs -/

theorem sameGroups_setsid (done : sysSetsid table pid = .ok (value, after)) :
    SameGroups table after := by
  obtain ⟨process, found, -, rfl⟩ := sysSetsid_ok done
  exact sameGroups_insert found rfl

theorem sameGroups_setpgid {pid pgid : Int}
    (done : sysSetpgid table caller pid pgid = .ok (value, after)) : SameGroups table after := by
  obtain ⟨callerProc, target, process, newPgid, -, found, -, -, rfl⟩ := sysSetpgid_ok done
  exact sameGroups_insert found rfl

theorem sameGroups_cred {call : CredCall} (done : sysCred table caller call = .ok (value, after)) :
    SameGroups table after := by
  obtain ⟨process, changed, found, applied, rfl⟩ := sysCred_ok done
  exact sameGroups_insert found (membership_of_apply applied)

theorem Grouped.onTable {outcome : Except Errno (Nat × Table)}
    (grouped : Grouped state.table state.nextPid)
    (same : ∀ value after, outcome = .ok (value, after) → SameGroups state.table after) :
    Grouped (state.onTable outcome).2.table (state.onTable outcome).2.nextPid := by
  cases outcome with
  | error error => exact grouped
  | ok outcome => exact grouped.of_sameGroups (same outcome.1 outcome.2 rfl)

/-- Every call keeps thread groups and the lists of their leaders together. -/
theorem Grouped.step {label : Label} (grouped : Grouped state.table state.nextPid)
    (stepped : state.step label = some next) : Grouped next.table next.nextPid := by
  obtain ⟨⟨result, after⟩, performed, rfl⟩ := Option.map_eq_some_iff.mp stepped
  cases label with
  | allocPid =>
    cases performed
    exact grouped.mono (Nat.le_succ _)
  | spawn caller =>
    rw [State.perform] at performed
    split at performed
    · cases performed
      have inserted := (joins_spawnEntry state.table state.nextPid caller).grouped grouped
      rw [← insert_eq_insertClone] at inserted
      exact inserted
    · cases performed
  | clone caller flags ptid =>
    rw [State.perform] at performed
    split at performed
    · rename_i isThread
      split at performed
      · cases performed
        exact grouped
      · cases performed
        exact (joins_cloneEntry grouped isThread).grouped grouped
    · cases performed
  | exit pid code =>
    cases performed
    exact grouped.dropEntry pid
  | exitGroup tgid code =>
    cases performed
    show Grouped (noteThreadGroupExit state tgid code).table
      (noteThreadGroupExit state tgid code).nextPid
    rw [noteThreadGroupExit, nextPid_exits]
    exact grouped.exits _ code
  | setsid caller =>
    rw [← congrArg Prod.snd (Option.some.inj performed)]
    exact grouped.onTable fun value after => sameGroups_setsid
  | setpgid caller pid pgid =>
    rw [← congrArg Prod.snd (Option.some.inj performed)]
    exact grouped.onTable fun value after => sameGroups_setpgid
  | cred caller call =>
    rw [← congrArg Prod.snd (Option.some.inj performed)]
    exact grouped.onTable fun value after => sameGroups_cred

/-- In every reachable process table, keys are process numbers, the list of a leader has
exactly the threads of its group, each once, and the exit of a group leaves none of them. -/
theorem threads_listed_of_run {nextPid : Nat} {trace : List Label} {final : State}
    (reached : (State.boot nextPid).run trace = some final) :
    (∀ (key : Nat) (process : Process), final.table[key]? = some process → process.pid = key) ∧
      (∀ (key : Nat) (leader : Process), final.table[key]? = some leader →
        leader.pid = leader.tgid → leader.threads.Nodup ∧
          ∀ tid : Nat, tid ∈ leader.threads ↔
            ∃ process, final.table[tid]? = some process ∧ process.tgid = leader.pid) ∧
      ∀ (tgid : Nat) (code : Int) (key : Nat) (process : Process),
        (noteThreadGroupExit final tgid code).table[key]? = some process → process.tgid ≠ tgid := by
  have grouped : Grouped final.table final.nextPid :=
    LabelledRun.invariant_of_run (fun state => Grouped state.table state.nextPid)
      (fun grouped stepped => grouped.step stepped) (grouped_empty nextPid) reached
  refine ⟨fun key process found => grouped.keyed found, fun key leader found isLeader => ?_,
    fun tgid code key process found => grouped.group_gone found⟩
  exact grouped.lists found isLeader.symm

theorem threads_listed_twoThreads :
    ∃ final, (State.boot 1).run [.spawn 0, .clone 1 0x10900 0] = some final ∧
      (∀ (key : Nat) (process : Process), final.table[key]? = some process → process.pid = key) ∧
      (∀ leader, final.table[1]? = some leader → leader.pid = leader.tgid →
        leader.threads.Nodup ∧ ∀ tid : Nat, tid ∈ leader.threads ↔
          ∃ process, final.table[tid]? = some process ∧ process.tgid = leader.pid) := by
  have runs : ((State.boot 1).run [.spawn 0, .clone 1 0x10900 0]).isSome = true := by
    decide +kernel
  obtain ⟨final, reached⟩ := Option.isSome_iff_exists.mp runs
  have holds := threads_listed_of_run reached
  exact ⟨final, reached, holds.1, fun leader => holds.2.1 1 leader⟩

end Cyllor.Proc
