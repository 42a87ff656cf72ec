import Cyllor.Ipc.Signal

/-!
Contract: whom the sending of a signal kills (`ipc/signal.rs`).

Owns:
- `Struck`, what a sending call does to the process table and to the marks of the threads;
- `Reaches`, which threads each way of sending reaches;
- when the process of a thread that handles, ignores or blocks a signal survives its sending.
-/

namespace Cyllor.Signal

variable {hit : Nat → Prop}

open Cyllor.Proc (Table Process isFatalSignal members dropEntry noteProcessExit
  noteThreadGroupExit exitInfo)

/-! ### Groups -/

def Keyed (table : Table) : Prop :=
  ∀ (key : Nat) (process : Process), table[key]? = some process → process.pid = key

def groupOf (table : Table) (pid : Nat) : Option Nat := (table[pid]?).map Process.tgid

theorem groupOf_dropEntry (table : Table) (pid key : Nat) :
    groupOf (dropEntry table pid) key = if pid = key then none else groupOf table key := by
  rw [groupOf, Proc.getElem?_dropEntry]
  split
  · rfl
  · rw [groupOf, Option.map_map]
    congr 1
    funext process
    simp only [Function.comp_apply]
    split <;> rfl

theorem Keyed.dropEntry {table : Table} (keyed : Keyed table) (pid : Nat) :
    Keyed (dropEntry table pid) := by
  intro key process found
  rw [Proc.getElem?_dropEntry] at found
  split at found
  · cases found
  · obtain ⟨before, wasThere, rfl⟩ := Option.map_eq_some_iff.mp found
    rw [← keyed key before wasThere]
    split <;> rfl

theorem Keyed.mem_members {table : Table} (keyed : Keyed table) {tgid pid : Nat} :
    pid ∈ members table tgid ↔ groupOf table pid = some tgid := by
  rw [Proc.mem_members, groupOf, Option.map_eq_some_iff]
  constructor
  · rintro ⟨key, process, found, inGroup, rfl⟩
    rw [keyed key process found]
    exact ⟨process, found, inGroup⟩
  · rintro ⟨process, found, inGroup⟩
    exact ⟨pid, process, found, inGroup, keyed pid process found⟩

theorem groupOf_noteExits (pids : List Nat) (code : Int) (procs : Proc.State)
    (keyed : Keyed procs.table) :
    let after := pids.foldl (fun state pid => noteProcessExit state pid code) procs
    Keyed after.table ∧ ∀ key,
      groupOf after.table key = if key ∈ pids then none else groupOf procs.table key := by
  induction pids generalizing procs with
  | nil => exact ⟨keyed, fun key => by simp⟩
  | cons pid pids ih =>
    have stillKeyed : Keyed (noteProcessExit procs pid code).table := keyed.dropEntry pid
    obtain ⟨keyedAfter, groups⟩ := ih _ stillKeyed
    refine ⟨keyedAfter, fun key => (groups key).trans ?_⟩
    have dropped : groupOf (noteProcessExit procs pid code).table key =
        if pid = key then none else groupOf procs.table key := groupOf_dropEntry _ _ _
    rw [dropped]
    by_cases isFirst : pid = key
    · simp [isFirst]
    · simp [isFirst, Ne.symm isFirst]

/-! ### What sending does -/

/-- The threads that were hit have lost their entry and are marked dead, and the others have
neither. -/
structure Struck (hit : Nat → Prop) (before after : Shared) : Prop where
  keyed : Keyed after.procs.table
  gone : ∀ key, hit key → groupOf after.procs.table key = none
  spared : ∀ key, ¬ hit key → groupOf after.procs.table key = groupOf before.procs.table key
  dead : ∀ key, after.dead key = true ↔ before.dead key = true ∨ hit key

theorem Struck.of_iff {other : Nat → Prop} {before after : Shared}
    (struck : Struck hit before after) (same : ∀ key, hit key ↔ other key) :
    Struck other before after := by
  obtain rfl : hit = other := funext fun key => propext (same key)
  exact struck

theorem struck_nobody {before : Shared} (keyed : Keyed before.procs.table)
    (tables : SignalTables) : Struck (fun _ => False) before { before with tables := tables } where
  keyed := keyed
  gone _ := False.elim
  spared _ _ := rfl
  dead _ := by simp

theorem Struck.trans {first second : Nat → Prop} {before middle after : Shared}
    (early : Struck first before middle) (late : Struck second middle after) :
    Struck (fun key => first key ∨ second key) before after where
  keyed := late.keyed
  gone key hit := by
    by_cases again : second key
    · exact late.gone key again
    · rw [late.spared key again, early.gone key (hit.resolve_right again)]
  spared key missed := by
    rw [late.spared key (fun hit => missed (.inr hit)),
      early.spared key (fun hit => missed (.inl hit))]
  dead key := by
    rw [late.dead key, early.dead key, or_assoc]

/-- What sending does once the threads are known. -/
def Shared.kill (shared : Shared) (pids : List Nat) (sig : Int) : Shared :=
  let queued := shared.queueSignals pids sig
  if isFatalSignal sig then
    Shared.markThreadsDead { queued with
      procs := pids.foldl (fun state pid => noteProcessExit state pid (128 + sig)) shared.procs }
      pids
  else queued

/-- The call returns, and the threads that `hit` says were hit. -/
def Strikes {α : Type} (call : SendCall α) (hit : Nat → Prop) (shared : Shared) : Prop :=
  ∃ result after, call shared = some (result, after) ∧ Struck hit shared after

section Effects

variable {shared : Shared} {sig : Int} {α β : Type} {call : SendCall α}

theorem Strikes.of_iff {other : Nat → Prop}
    (strikes : Strikes call hit shared) (same : ∀ key, hit key ↔ other key) :
    Strikes call other shared := by
  obtain ⟨result, after, returned, struck⟩ := strikes
  exact ⟨result, after, returned, struck.of_iff same⟩

theorem strikes_nobody {result : Except Errno α} (keyed : Keyed shared.procs.table)
    (returned : call shared = some (result, shared)) :
    Strikes call (fun _ => False) shared :=
  ⟨result, shared, returned, struck_nobody keyed shared.tables⟩

theorem Strikes.andReturn (strikes : Strikes call hit shared) (value : β) :
    Strikes (do let _ ← call; return value) hit shared := by
  obtain ⟨result, after, returned, struck⟩ := strikes
  cases result with
  | error error =>
    exact ⟨.error error, after, by simp [Bind.bind, Call.bind, returned], struck⟩
  | ok _ =>
    exact ⟨.ok value, after, by
      simp [Bind.bind, Call.bind, returned, Pure.pure, Call.pure], struck⟩

theorem Strikes.attempted (strikes : Strikes call hit shared) (value : β) :
    ∃ after, (do
      let _ ← (Call.attempt call : SendCall (Except Errno α))
      return value : SendCall β) shared = some (.ok value, after) ∧ Struck hit shared after := by
  obtain ⟨result, after, returned, struck⟩ := strikes
  exact ⟨after, by
    simp [Bind.bind, Call.bind, Call.attempt, returned, Pure.pure, Call.pure], struck⟩

section

variable (keyed : Keyed shared.procs.table)

include keyed

theorem struck_kill (pids : List Nat) (sig : Int) :
    Struck (fun key => isFatalSignal sig = true ∧ key ∈ pids) shared (shared.kill pids sig) := by
  obtain ⟨keyedAfter, groups⟩ := groupOf_noteExits pids (128 + sig) shared.procs keyed
  unfold Shared.kill
  split
  case isTrue fatal =>
    exact ⟨keyedAfter, fun key hit => (groups key).trans (if_pos hit.2),
      fun key missed => (groups key).trans (if_neg fun member => missed ⟨fatal, member⟩),
      fun key => by simp [Shared.markThreadsDead, Shared.queueSignals, fatal, or_comm]⟩
  case isFalse harmless =>
    exact (struck_nobody keyed _).of_iff fun key => ⟨False.elim, fun hit => harmless hit.1⟩

theorem strikes_killThreadGroup (tgid : Nat) (sig : Int) :
    Strikes (killThreadGroup tgid sig) (fun key => isFatalSignal sig = true ∧
      groupOf shared.procs.table key = some tgid) shared := by
  simp only [← keyed.mem_members]
  by_cases nobody : (members shared.procs.table tgid).isEmpty = true
  · have returned : killThreadGroup tgid sig shared = some (.error .ESRCH, shared) := by
      simp [killThreadGroup, Bind.bind, Call.bind, Call.gets, Call.throw, nobody]
    exact (strikes_nobody keyed returned).of_iff fun key => by simp [List.isEmpty_iff.mp nobody]
  · refine ⟨.ok (), _, ?_, struck_kill keyed _ sig⟩
    by_cases fatal : isFatalSignal sig = true <;>
      simp [killThreadGroup, Bind.bind, Call.bind, Call.gets, nobody, fatal, Call.modify,
        Pure.pure, Call.pure, Shared.queueSignals, Shared.kill, noteThreadGroupExit]

theorem strikes_killSingleThread (tid : Nat) (sig : Int)
    (found : (groupOf shared.procs.table tid).isSome) :
    Strikes (killSingleThread tid sig) (fun key => isFatalSignal sig = true ∧ key = tid)
      shared := by
  have present : (shared.procs.table[tid]?).isNone = false := by
    rw [groupOf, Option.isSome_map] at found
    simp [Option.isNone_eq_false_iff, found]
  refine ⟨.ok (), _, ?_, (struck_kill keyed [tid] sig).of_iff fun key => by simp⟩
  by_cases fatal : isFatalSignal sig = true <;>
    simp [killSingleThread, Bind.bind, Call.bind, Call.gets, present, fatal, Call.modify,
      Pure.pure, Call.pure, Shared.queueSignals, Shared.kill]

/-- Groups that are killed one after another do not get in each other's way. -/
theorem strikes_killEach (tgids : List Nat) (sig : Int) :
    Strikes (killEach tgids sig) (fun key => isFatalSignal sig = true ∧
      ∃ tgid ∈ tgids, groupOf shared.procs.table key = some tgid) shared := by
  induction tgids generalizing shared with
  | nil => exact (strikes_nobody keyed rfl).of_iff (by simp)
  | cons tgid tgids ih =>
    obtain ⟨middle, killed, early⟩ := (strikes_killThreadGroup keyed tgid sig).attempted ()
    obtain ⟨result, after, returned, late⟩ := ih early.keyed
    have whole : killEach (tgid :: tgids) sig shared = some (result, after) := by
      rw [killEach, Call.forEach, Call.bind, killed]
      exact returned
    refine ⟨result, after, whole, (early.trans late).of_iff fun key => ?_⟩
    -- a later group still has all its threads: only those of the first one are gone
    by_cases first : isFatalSignal sig = true ∧ groupOf shared.procs.table key = some tgid
    · simp [first]
    · rw [early.spared key first]
      constructor
      · rintro (hit | ⟨fatal, other, listed, inOther⟩)
        · exact absurd hit first
        · exact ⟨fatal, other, List.mem_cons_of_mem _ listed, inOther⟩
      · rintro ⟨fatal, other, listed, inOther⟩
        refine .inr ⟨fatal, other, (List.mem_cons.mp listed).resolve_left ?_, inOther⟩
        rintro rfl
        exact first ⟨fatal, inOther⟩

theorem strikes_killProcessGroup (pgid : Nat) (sig : Int) :
    Strikes (killProcessGroup pgid sig) (fun key => isFatalSignal sig = true ∧
      ∃ tgid ∈ leaders shared.procs.table pgid, groupOf shared.procs.table key = some tgid)
      shared := by
  by_cases nobody : (leaders shared.procs.table pgid).isEmpty = true
  · have returned : killProcessGroup pgid sig shared = some (.error .ESRCH, shared) := by
      simp [killProcessGroup, Bind.bind, Call.bind, Call.gets, Call.throw, nobody]
    refine (strikes_nobody keyed returned).of_iff fun key => ?_
    simp [List.isEmpty_iff.mp nobody]
  · obtain ⟨result, after, returned, struck⟩ :=
      strikes_killEach keyed (leaders shared.procs.table pgid) sig
    exact ⟨result, after, by
      simp [killProcessGroup, Bind.bind, Call.bind, Call.gets, nobody, returned], struck⟩

end

/-- The thread is in a thread group whose leader is in the process group. -/
def InProcessGroup (table : Table) (pgrp : Int) (target : Nat) : Prop :=
  0 < pgrp ∧ ∃ tgid ∈ leaders table pgrp.toNat, groupOf table target = some tgid

theorem strikes_deliverSignalToPgrp (keyed : Keyed shared.procs.table) (pgrp sig : Int)
    (valid : validSignal sig = true) :
    Strikes (deliverSignalToPgrp pgrp sig) (fun key => isFatalSignal sig = true ∧
      InProcessGroup shared.procs.table pgrp key) shared := by
  rw [deliverSignalToPgrp]
  by_cases nobody : pgrp ≤ 0
  · rw [if_pos (.inl nobody)]
    refine (strikes_nobody keyed rfl).of_iff fun key => ⟨False.elim, fun hit => ?_⟩
    have positive := hit.2.1
    omega
  · rw [if_neg (by simp [nobody, valid])]
    obtain ⟨after, returned, struck⟩ :=
      (strikes_killProcessGroup keyed pgrp.toNat sig).attempted ()
    refine ⟨_, after, returned, struck.of_iff fun key => ?_⟩
    have positive : 0 < pgrp := by omega
    simp [InProcessGroup, positive]

end Effects

/-! ### Ways of sending -/

/-- Who sends: a thread by `kill` or `tgkill`, or the terminal. -/
inductive Sender where
  | kill (caller : Nat) (pid : Int)
  | tgkill (tgid tid : Int)
  | terminal (pgrp : Int)
deriving DecidableEq, Repr

namespace Sender

def send (sig : Int) : Sender → SendCall Nat
  | .kill caller pid => doKill caller pid sig
  | .tgkill tgid tid => doTgkill tgid tid sig
  | .terminal pgrp => do
      deliverSignalToPgrp pgrp sig
      return 0

/-- The thread is among those that the sender queues the signal for. -/
def Reaches (table : Table) (sig : Int) (target : Nat) : Sender → Prop
  | .kill caller pid =>
    validSignal sig = true ∧ sig ≠ 0 ∧
      if 0 < pid then groupOf table target = some pid.toNat
      else if pid = 0 then InProcessGroup table (asI32 (callerPgrp table caller)) target
      else if pid = -1 then ∃ tgid, groupOf table target = some tgid ∧ tgid ≠ 0
      else pid ≠ I32_MIN ∧ InProcessGroup table (-pid) target
  | .tgkill tgid tid =>
    validSignal sig = true ∧ sig ≠ 0 ∧ 0 < tgid ∧ 0 < tid ∧
      ∃ process, table[tid.toNat]? = some process ∧ process.tgid = tgid.toNat ∧
        if process.pid = process.tgid then groupOf table target = some tgid.toNat
        else target = tid.toNat
  | .terminal pgrp => validSignal sig = true ∧ InProcessGroup table pgrp target

end Sender

theorem mem_asSet {numbers : List Nat} {number : Nat} :
    number ∈ asSet numbers ↔ number ∈ numbers := by
  have grows : ∀ set : BTreeMap Nat Unit,
      number ∈ numbers.foldl (fun set number => set.insert number ()) set ↔
        number ∈ set ∨ number ∈ numbers := by
    induction numbers with
    | nil => simp
    | cons first rest ih =>
      intro set
      rw [List.foldl_cons, ih, Std.ExtTreeMap.mem_insert, List.mem_cons,
        Std.LawfulEqCmp.compare_eq_iff_eq]
      constructor
      · rintro ((rfl | inSet) | inRest) <;> simp [*]
      · rintro (inSet | rfl | inRest) <;> simp [*]
  rw [asSet, Std.ExtTreeMap.mem_keys, grows]
  simp

/-- The call strikes, or it never returns and there is nobody to hit. -/
def Settles {α : Type} (call : SendCall α) (hit : Nat → Prop) (shared : Shared) : Prop :=
  (call shared = none ∧ ∀ key, ¬ hit key) ∨ Strikes call hit shared

section Senders

variable {shared : Shared} {α β : Type} {pid : Int} {rest : Int → SendCall α}

theorem Settles.gets {read : Shared → α} {rest : α → SendCall β}
    (settles : Settles (rest (read shared)) hit shared) :
    Settles (Call.gets read >>= rest) hit shared := settles

theorem Settles.negated (small : pid ≠ I32_MIN)
    (settles : Settles (rest (-pid)) hit shared) :
    Settles (negated pid >>= rest) hit shared := by
  rw [Signal.negated, if_neg small]
  exact settles

theorem negated_hangs (least : pid = I32_MIN) :
    (negated pid >>= rest) shared = none := by
  rw [Signal.negated, if_pos least]
  rfl

section

variable (keyed : Keyed shared.procs.table)

include keyed

theorem settles_throw (error : Errno) (nobody : ∀ key, ¬ hit key) :
    Settles (Call.throw error : SendCall α) hit shared :=
  .inr ((strikes_nobody keyed rfl).of_iff fun key => ⟨False.elim, nobody key⟩)

theorem settles_probe (caller : Nat) (pid : Int) :
    Settles (probe caller pid) (fun _ => False) shared := by
  have quiet : ∀ pgid, Strikes (killProcessGroup pgid 0) (fun _ => False) shared := fun pgid =>
    (strikes_killProcessGroup keyed pgid 0).of_iff fun key => by simp [isFatalSignal]
  unfold probe
  split
  · apply Settles.gets
    split
    · exact settles_throw keyed _ fun _ => id
    · exact .inr (strikes_nobody keyed rfl)
  split
  · exact Settles.gets (.inr ((quiet _).andReturn 0))
  split
  · by_cases overflows : pid = I32_MIN
    · exact .inl ⟨negated_hangs overflows, fun _ => id⟩
    · exact Settles.negated overflows (.inr ((quiet _).andReturn 0))
  · exact .inr (strikes_nobody keyed rfl)

theorem settles_doKill (caller : Nat) (pid sig : Int) :
    Settles (doKill caller pid sig) (fun key => isFatalSignal sig = true ∧
      (Sender.kill caller pid).Reaches shared.procs.table sig key) shared := by
  unfold doKill
  split
  case isTrue invalid => exact settles_throw keyed _ fun key hit => invalid hit.2.1
  case isFalse valid =>
  rw [not_not] at valid
  split
  case isTrue asks =>
    rcases settles_probe keyed caller pid with ⟨hangs, -⟩ | strikes
    · exact .inl ⟨hangs, fun key hit => hit.2.2.1 asks⟩
    · exact .inr (strikes.of_iff fun key => ⟨False.elim, fun hit => hit.2.2.1 asks⟩)
  case isFalse asks =>
  simp only [Sender.Reaches, valid, asks, ne_eq, not_false_eq_true, true_and]
  split
  · exact .inr ((strikes_killThreadGroup keyed pid.toNat sig).andReturn 0)
  split
  · exact Settles.gets (.inr ((strikes_deliverSignalToPgrp keyed _ sig valid).andReturn 0))
  split
  · let tgids := asSet ((shared.procs.table.toList.map fun entry => entry.2.tgid).filter
      fun tgid => tgid ≠ 0)
    have listed : ∀ key tgid, groupOf shared.procs.table key = some tgid →
        (tgid ∈ tgids ↔ tgid ≠ 0) := by
      intro key tgid inGroup
      obtain ⟨process, found, rfl⟩ := Option.map_eq_some_iff.mp inGroup
      have member := Std.ExtTreeMap.mem_toList_iff_getElem?_eq_some.mpr found
      rw [mem_asSet, List.mem_filter, decide_eq_true_eq]
      exact and_iff_right (List.mem_map.mpr ⟨_, member, rfl⟩)
    have strikes := (strikes_killEach keyed tgids sig).andReturn 0
    refine Settles.gets (.inr (strikes.of_iff fun key => and_congr_right fun _ => ?_))
    constructor
    · rintro ⟨tgid, member, inGroup⟩
      exact ⟨tgid, inGroup, (listed key tgid inGroup).mp member⟩
    · rintro ⟨tgid, inGroup, nonzero⟩
      exact ⟨tgid, (listed key tgid inGroup).mpr nonzero, inGroup⟩
  · by_cases overflows : pid = I32_MIN
    · exact .inl ⟨negated_hangs overflows, fun key hit => hit.2.1 overflows⟩
    · have strikes := (strikes_deliverSignalToPgrp keyed (-pid) sig valid).andReturn 0
      refine Settles.negated overflows (.inr (strikes.of_iff fun key => ?_))
      rw [and_iff_right overflows]

theorem settles_doTgkill (tgid tid sig : Int) :
    Settles (doTgkill tgid tid sig) (fun key => isFatalSignal sig = true ∧
      (Sender.tgkill tgid tid).Reaches shared.procs.table sig key) shared := by
  unfold doTgkill
  split
  case isTrue refused =>
    apply settles_throw keyed
    intro key hit
    obtain ⟨-, valid, -, positive, positiveTid, -⟩ := hit
    rcases refused with invalid | notPositive | notPositive
    · exact invalid valid
    · omega
    · omega
  case isFalse accepted =>
  rw [not_or, not_or, not_not, not_le, not_le] at accepted
  apply Settles.gets
  cases found : shared.procs.table[tid.toNat]? with
  | none =>
    apply settles_throw keyed
    intro key hit
    obtain ⟨-, -, -, -, -, process, isFound, -⟩ := hit
    cases found.symm.trans isFound
  | some process =>
    simp only [Sender.Reaches, accepted, found, Option.some.injEq, exists_eq_left', true_and]
    split
    case isTrue other => exact settles_throw keyed _ fun key hit => other hit.2.2.1
    case isFalse member =>
    rw [not_not] at member
    split
    case isTrue asks =>
      exact .inr ((strikes_nobody keyed rfl).of_iff fun key =>
        ⟨False.elim, fun hit => hit.2.1 asks⟩)
    case isFalse asks =>
    simp only [member, asks, ne_eq, not_false_eq_true, true_and]
    split
    · exact .inr ((strikes_killThreadGroup keyed tgid.toNat sig).andReturn 0)
    · have present : (groupOf shared.procs.table tid.toNat).isSome := by simp [groupOf, found]
      exact .inr ((strikes_killSingleThread keyed tid.toNat sig present).andReturn 0)

/-- Every way of sending hits exactly the threads it reaches, if the signal is fatal. -/
theorem Sender.settles (sender : Sender) (sig : Int) :
    Settles (sender.send sig) (fun key => isFatalSignal sig = true ∧
      sender.Reaches shared.procs.table sig key) shared := by
  cases sender with
  | kill caller pid => exact settles_doKill keyed caller pid sig
  | tgkill tgid tid => exact settles_doTgkill keyed tgid tid sig
  | terminal pgrp =>
    by_cases valid : validSignal sig = true
    · refine .inr (((strikes_deliverSignalToPgrp keyed pgrp sig valid).andReturn 0).of_iff
        fun key => ?_)
      simp [Sender.Reaches, valid]
    · refine .inr ⟨.ok 0, shared, ?_, (struck_nobody keyed shared.tables).of_iff
        fun key => ⟨False.elim, fun hit => valid hit.2.1⟩⟩
      simp [Sender.send, deliverSignalToPgrp, valid, Bind.bind, Call.bind, Pure.pure, Call.pure]

end

end Senders

/-! ### Survival -/

/-- The thread handles, ignores or blocks the signal. -/
def Exempt (tables : SignalTables) (target : Nat) (sig : Int) : Prop :=
  (tables.actionOf target sig).handler ≠ 0 ∨ tables.blockedOf target &&& signalBit sig ≠ 0

/-- Every thread of the target's group keeps its entry, and none is marked dead. -/
def Survives (target : Nat) (before after : Shared) : Prop :=
  ∀ tid, groupOf before.procs.table tid = groupOf before.procs.table target →
    groupOf after.procs.table tid = groupOf before.procs.table tid ∧
      (after.dead tid = true → before.dead tid = true)

/-- The first process, which handles signal 2 and blocks signal 15. -/
def guardedProcess : Shared where
  tables :=
    { SignalTables.boot with
      actions := (∅ : BTreeMap Nat (BTreeMap Int KernelSigAction)).insert 1
        ((∅ : BTreeMap Int KernelSigAction).insert 2 ⟨0x401000⟩)
      blocked := (∅ : BTreeMap Nat Sigset).insert 1 (signalBit 15) }
  procs := ⟨(∅ : Table).insert 1 (Proc.spawnEntry ∅ 1 0), ∅, 2⟩
  dead _ := false

theorem keyed_guardedProcess : Keyed guardedProcess.procs.table := by
  intro key process found
  have single : guardedProcess.procs.table = (∅ : Table).insert 1 (Proc.spawnEntry ∅ 1 0) := rfl
  rw [single, Std.ExtTreeMap.getElem?_insert] at found
  split at found
  · next isKey =>
      obtain rfl := Std.LawfulEqCmp.eq_of_compare isKey
      obtain rfl := Option.some.inj found
      rfl
  · simp at found

/-- The process of a thread that handles, ignores or blocks a signal survives its sending,
exactly when the signal is not one of the fatal ones or the sender reaches no thread of that
process. -/
theorem exempt_survives_iff {shared : Shared} {target : Nat} (keyed : Keyed shared.procs.table)
    (present : (groupOf shared.procs.table target).isSome) (sender : Sender) (sig : Int) :
    (Exempt shared.tables target sig →
      Call.wp (sender.send sig) (fun _ after => Survives target shared after) shared) ↔
    (Exempt shared.tables target sig → isFatalSignal sig = true →
      ∀ tid, groupOf shared.procs.table tid = groupOf shared.procs.table target →
        ¬ sender.Reaches shared.procs.table sig tid) := by
  refine imp_congr_right fun _ => ⟨fun survives fatal tid inGroup reached => ?_, fun missed => ?_⟩
  · rcases sender.settles keyed sig with ⟨-, nobody⟩ | ⟨result, after, returned, struck⟩
    · exact nobody tid ⟨fatal, reached⟩
    · have kept := (survives result after returned tid inGroup).1
      rw [struck.gone tid ⟨fatal, reached⟩, inGroup] at kept
      rw [← kept] at present
      cases present
  · intro result after returned tid inGroup
    have spared := fun hit : isFatalSignal sig = true ∧ sender.Reaches shared.procs.table sig tid =>
      missed hit.1 tid inGroup hit.2
    rcases sender.settles keyed sig with ⟨hangs, -⟩ | ⟨result', after', returned', struck⟩
    · rw [hangs] at returned
      cases returned
    · obtain ⟨rfl, rfl⟩ := Prod.mk.inj (Option.some.inj (returned.symm.trans returned'))
      exact ⟨struck.spared tid spared,
        fun isDead => ((struck.dead tid).mp isDead).resolve_right spared⟩

theorem exempt_survives_otherGroup :
    Exempt guardedProcess.tables 1 2 ∧
      Call.wp ((Sender.kill 1 7).send 2) (fun _ after => Survives 1 guardedProcess after)
        guardedProcess := by
  have exempt : Exempt guardedProcess.tables 1 2 := .inl (by decide +kernel)
  have group : groupOf guardedProcess.procs.table 1 = some 1 := by decide +kernel
  refine ⟨exempt, (exempt_survives_iff keyed_guardedProcess (by decide +kernel)
    (Sender.kill 1 7) 2).mpr (fun _ _ tid inGroup reached => ?_) exempt⟩
  have other : groupOf guardedProcess.procs.table tid = some 7 := reached.2.2
  rw [inGroup, group] at other
  cases other

/-- Signal 2 of the terminal kills a process that handles it, and signal 15 of `kill` one that
blocks it. -/
theorem guarded_process_killed :
    Exempt guardedProcess.tables 1 2 ∧ Exempt guardedProcess.tables 1 15 ∧
    (∃ after, (Sender.terminal 1).send 2 guardedProcess = some (.ok 0, after) ∧
      after.procs.table[1]? = none ∧ after.dead 1 = true) ∧
    ∃ after, (Sender.kill 1 1).send 15 guardedProcess = some (.ok 0, after) ∧
      after.procs.table[1]? = none ∧ after.dead 1 = true := by
  exact ⟨.inl (by decide +kernel), .inr (by decide +kernel), by decide +kernel, by decide +kernel⟩

end Cyllor.Signal
