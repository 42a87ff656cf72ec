import Cyllor.Proc.System

/-!
Contract: process groups lie within sessions, over runs without exits.

Owns: `Sessions`, the invariant on the groups and sessions of processes; that the calls keep
it when `sys_setsid` is called by a process whose number is not a group of others; and a run
in which a group spans two sessions.
-/

namespace Cyllor.Proc

open Cyllor.Mm (CLONE_THREAD)

variable {caller value : Nat}

/-! ### Groups and sessions as a partial function -/

def sessionsOf (table : Table) (key : Nat) : Option (Nat × Nat) :=
  (table[key]?).map fun process => (process.pgid, process.sid)

/-- Processes of one group are in one session; it is the session of the process that gave
the group its number, or has the number of the group if no entry has it. -/
structure Sessions (look : Nat → Option (Nat × Nat)) (nextPid : Nat) : Prop where
  below : ∀ {key group session}, look key = some (group, session) →
    key < nextPid ∧ group < nextPid
  same : ∀ {key other group session session'}, look key = some (group, session) →
    look other = some (group, session') → session = session'
  leads : ∀ {key group session group' session'}, look key = some (group, session) →
    look group = some (group', session') → session' = session
  outside : ∀ {key group session}, look key = some (group, session) → look group = none →
    session = group

variable {look : Nat → Option (Nat × Nat)} {nextPid : Nat}

theorem sessions_empty (nextPid : Nat) : Sessions (sessionsOf ∅) nextPid := by
  constructor <;> simp [sessionsOf]

theorem Sessions.mono {later : Nat} (sessions : Sessions look nextPid) (le : nextPid ≤ later) :
    Sessions look later where
  below found := ⟨(sessions.below found).1.trans_le le, (sessions.below found).2.trans_le le⟩
  same := sessions.same
  leads := sessions.leads
  outside := sessions.outside

section

variable {pid group session later : Nat}

private theorem update_eq_some {key group' session' : Nat}
    (found : Function.update look pid (some (group, session)) key = some (group', session')) :
    (key = pid ∧ group' = group ∧ session' = session) ∨
      (key ≠ pid ∧ look key = some (group', session')) := by
  rw [Function.update_apply] at found
  split at found
  case isTrue isPid =>
    cases found
    exact .inl ⟨isPid, rfl, rfl⟩
  case isFalse other => exact .inr ⟨other, found⟩

variable (sessions : Sessions look nextPid) (le : nextPid ≤ later) (pidBelow : pid < later)
  (led : ∀ key session', key ≠ pid → look key = some (pid, session') → session' = session)

include sessions le pidBelow led

/-- A process gets a group and a session: the processes of that group, and those of the
group with the number of the process, are in this session. -/
theorem Sessions.update (groupBelow : group < later)
    (joins : ∀ key session', key ≠ pid → look key = some (group, session') → session' = session)
    (leader : group ≠ pid → ∀ group' session', look group = some (group', session') →
      session' = session)
    (noLeader : group ≠ pid → look group = none → session = group) :
    Sessions (Function.update look pid (some (group, session))) later where
  below {key group' session'} found := by
    rcases update_eq_some found with ⟨rfl, rfl, rfl⟩ | ⟨_, old⟩
    · exact ⟨pidBelow, groupBelow⟩
    · exact ⟨(sessions.below old).1.trans_le le, (sessions.below old).2.trans_le le⟩
  same {key other group' session' session''} found foundOther := by
    rcases update_eq_some found with ⟨rfl, rfl, rfl⟩ | ⟨notPid, old⟩
    · rcases update_eq_some foundOther with ⟨-, -, rfl⟩ | ⟨otherPid, oldOther⟩
      · rfl
      · exact (joins other _ otherPid oldOther).symm
    · rcases update_eq_some foundOther with ⟨-, rfl, rfl⟩ | ⟨_, oldOther⟩
      · exact joins key _ notPid old
      · exact sessions.same old oldOther
  leads {key group' session' group'' session''} found foundLeader := by
    rcases update_eq_some found with ⟨rfl, rfl, rfl⟩ | ⟨notPid, old⟩
    · rcases update_eq_some foundLeader with ⟨-, -, rfl⟩ | ⟨other, oldLeader⟩
      · rfl
      · exact leader other _ _ oldLeader
    · rcases update_eq_some foundLeader with ⟨rfl, -, rfl⟩ | ⟨_, oldLeader⟩
      · exact (led key _ notPid old).symm
      · exact sessions.leads old oldLeader
  outside {key group' session'} found absent := by
    have other : group' ≠ pid := by
      rintro rfl
      rw [Function.update_self] at absent
      cases absent
    rw [Function.update_of_ne other] at absent
    rcases update_eq_some found with ⟨-, rfl, rfl⟩ | ⟨_, old⟩
    · exact noLeader other absent
    · exact sessions.outside old absent

theorem Sessions.join {member : Nat} (found : look member = some (group, session)) :
    Sessions (Function.update look pid (some (group, session))) later := by
  apply sessions.update le pidBelow led ((sessions.below found).2.trans_le le)
  · exact fun key session' _ foundKey => sessions.same foundKey found
  · exact fun _ group' session' foundLeader => sessions.leads found foundLeader
  · exact fun _ absent => sessions.outside found absent

theorem Sessions.lead : Sessions (Function.update look pid (some (pid, session))) later := by
  apply sessions.update le pidBelow led pidBelow led
  · exact fun own => absurd rfl own
  · exact fun own => absurd rfl own

end

/-! ### The calls -/

variable {table : Table} {state next : State}

theorem sessionsOf_of_found {key : Nat} {process : Process} (found : table[key]? = some process) :
    sessionsOf table key = some (process.pgid, process.sid) := by
  rw [sessionsOf, found, Option.map_some]

theorem sessionsOf_insert (pid : Nat) (process : Process) :
    sessionsOf (table.insert pid process) =
      Function.update (sessionsOf table) pid (some (process.pgid, process.sid)) := by
  funext key
  rw [sessionsOf, Std.ExtTreeMap.getElem?_insert]
  by_cases isPid : key = pid
  · subst isPid
    simp
  · rw [Function.update_of_ne isPid]
    simp [Ne.symm isPid, sessionsOf]

theorem sessionsOf_insertClone (entry : Process) (flags : Nat) :
    sessionsOf (insertClone table entry flags) =
      Function.update (sessionsOf table) entry.pid (some (entry.pgid, entry.sid)) := by
  funext key
  rw [sessionsOf, getElem?_insertClone, Option.map_map]
  have sameView : (fun process : Process => (process.pgid, process.sid)) ∘ (fun process =>
      if flags &&& CLONE_THREAD ≠ 0 ∧ key = entry.tgid then process.addThread entry.pid
      else process) = fun process => (process.pgid, process.sid) := by
    funext process
    show (Process.pgid (ite _ _ _), Process.sid (ite _ _ _)) = _
    split <;> rfl
  rw [sameView]
  by_cases isPid : key = entry.pid
  · subst isPid
    simp
  · rw [Function.update_of_ne isPid, if_neg (Ne.symm isPid)]
    rfl

theorem Sessions.spawn (sessions : Sessions (sessionsOf table) nextPid) (ppid : Nat) :
    Sessions (sessionsOf (table.insert nextPid (spawnEntry table nextPid ppid))) (nextPid + 1) := by
  rw [sessionsOf_insert]
  apply sessions.lead (Nat.le_succ _) (Nat.lt_succ_self _)
  intro key session _ found
  exact absurd (sessions.below found).2 (lt_irrefl nextPid)

/-- The group and session that a child gets: those of the caller's entry, or both the number
of a caller without an entry. -/
theorem parentEntry_cases (caller : Nat) :
    (∃ parent, table[caller]? = some parent ∧ parentEntry table caller = parent) ∨
      (table[caller]? = none ∧ (parentEntry table caller).pgid = caller ∧
        (parentEntry table caller).sid = caller) := by
  rw [parentEntry]
  split
  · rename_i parent found
    exact .inl ⟨parent, found, rfl⟩
  · rename_i absent
    exact .inr ⟨absent, rfl, rfl⟩

section

variable (sessions : Sessions (sessionsOf table) nextPid)

include sessions

theorem Sessions.clone {flags : Nat} (isThread : caller < nextPid) :
    Sessions (sessionsOf (insertClone table
      (cloneEntry (parentEntry table caller) caller nextPid flags) flags)) (nextPid + 1) := by
  rw [sessionsOf_insertClone]
  have new : ∀ key session', key ≠ nextPid → sessionsOf table key = some (nextPid, session') →
      session' = (parentEntry table caller).sid := by
    intro key session' _ found
    exact absurd (sessions.below found).2 (lt_irrefl nextPid)
  rcases parentEntry_cases caller with ⟨parent, found, isParent⟩ | ⟨absent, isGroup, isSession⟩
  · rw [isParent] at new ⊢
    have parentLook := sessionsOf_of_found found
    exact sessions.join (Nat.le_succ _) (Nat.lt_succ_self _) new parentLook
  · have absentLook : sessionsOf table caller = none := by
      rw [sessionsOf, absent, Option.map_none]
    show Sessions (Function.update _ _ (some ((parentEntry table caller).pgid,
      (parentEntry table caller).sid))) _
    rw [isSession] at new ⊢
    rw [isGroup]
    apply sessions.update (Nat.le_succ _) (Nat.lt_succ_self _) new
      (isThread.trans (Nat.lt_succ_self _))
    · intro key session' _ foundMember
      exact sessions.outside foundMember absentLook
    · intro _ group' session' foundLeader
      cases absentLook.symm.trans foundLeader
    · exact fun _ _ => rfl

theorem Sessions.setsid {pid : Nat} {after : Table}
    (alone : ∀ (key : Nat) (process : Process), table[key]? = some process → key ≠ pid →
      process.pgid ≠ pid)
    (done : sysSetsid table pid = .ok (value, after)) : Sessions (sessionsOf after) nextPid := by
  obtain ⟨proc, found, -, rfl⟩ := sysSetsid_ok done
  rw [sessionsOf_insert]
  apply sessions.lead le_rfl (sessions.below (sessionsOf_of_found found)).1
  intro key session' other member
  obtain ⟨process, foundMember, isMember⟩ := Option.map_eq_some_iff.mp member
  cases isMember
  exact absurd rfl (alone key process foundMember other)

theorem Sessions.setpgid {pid pgid : Int} {after : Table}
    (done : sysSetpgid table caller pid pgid = .ok (value, after)) :
    Sessions (sessionsOf after) nextPid := by
  obtain ⟨callerProc, target, proc, newPgid, -, found, sameSession, group, rfl⟩ :=
    sysSetpgid_ok done
  have targetLook := sessionsOf_of_found found
  have led : ∀ key session', key ≠ target → sessionsOf table key = some (target, session') →
      session' = proc.sid := by
    intro key session' _ member
    exact (sessions.leads member targetLook).symm
  rw [sessionsOf_insert]
  rcases group with rfl | ⟨key, member, foundMember, isGroup, memberSession⟩
  · exact sessions.lead le_rfl (sessions.below targetLook).1 led
  · have memberLook := sessionsOf_of_found foundMember
    rw [isGroup, memberSession, ← sameSession] at memberLook
    exact sessions.join le_rfl (sessions.below targetLook).1 led memberLook

end

/-! ### Runs -/

/-- The calls that make processes and move them between groups and sessions. -/
def Label.isExit : Label → Bool
  | .exit _ _ => true
  | .exitGroup _ _ => true
  | _ => false

/-- `sys_setsid` is called by a process whose number is not the group of another one. -/
def LeadsNoOthers (state : State) : Label → Prop
  | .setsid caller => ∀ (key : Nat) (process : Process), state.table[key]? = some process →
      key ≠ caller → process.pgid ≠ caller
  | _ => True

theorem leadsNoOthers_setsid_iff :
    (∀ entry ∈ state.table.toList, entry.1 ≠ caller → entry.2.pgid ≠ caller) ↔
      LeadsNoOthers state (.setsid caller) := by
  constructor
  · intro listed key process found other
    exact listed (key, process) (Std.ExtTreeMap.mem_toList_iff_getElem?_eq_some.mpr found) other
  · intro leads entry listed other
    exact leads entry.1 entry.2 (Std.ExtTreeMap.mem_toList_iff_getElem?_eq_some.mp listed) other

instance (state : State) (label : Label) : Decidable (LeadsNoOthers state label) :=
  match label with
  | .setsid _ => decidable_of_iff _ leadsNoOthers_setsid_iff
  | .allocPid => isTrue trivial
  | .spawn _ => isTrue trivial
  | .clone _ _ _ => isTrue trivial
  | .exit _ _ => isTrue trivial
  | .exitGroup _ _ => isTrue trivial
  | .setpgid _ _ _ => isTrue trivial
  | .cred _ _ => isTrue trivial

theorem sessionsOf_cred {call : CredCall} {after : Table}
    (done : sysCred table caller call = .ok (value, after)) :
    sessionsOf after = sessionsOf table := by
  obtain ⟨p, changed, found, applied, rfl⟩ := sysCred_ok done
  rw [sessionsOf_insert, CredCall.apply_ok applied, ← sessionsOf_of_found found,
    Function.update_eq_self]

theorem Sessions.onTable {outcome : Except Errno (Nat × Table)}
    (sessions : Sessions (sessionsOf state.table) state.nextPid)
    (kept : ∀ value after, outcome = .ok (value, after) →
      Sessions (sessionsOf after) state.nextPid) :
    Sessions (sessionsOf (state.onTable outcome).2.table) (state.onTable outcome).2.nextPid := by
  cases outcome with
  | error error => exact sessions
  | ok outcome => exact kept outcome.1 outcome.2 rfl

theorem Sessions.step {label : Label} (sessions : Sessions (sessionsOf state.table) state.nextPid)
    (noExit : label.isExit = false) (leads : LeadsNoOthers state label)
    (stepped : state.step label = some next) :
    Sessions (sessionsOf next.table) next.nextPid := by
  obtain ⟨⟨result, after⟩, performed, rfl⟩ := Option.map_eq_some_iff.mp stepped
  cases label with
  | allocPid =>
    cases performed
    exact sessions.mono (Nat.le_succ _)
  | spawn caller =>
    rw [State.perform] at performed
    split at performed
    · cases performed
      exact sessions.spawn caller
    · cases performed
  | clone caller flags ptid =>
    rw [State.perform] at performed
    split at performed
    · rename_i isThread
      split at performed
      · cases performed
        exact sessions
      · cases performed
        exact sessions.clone isThread
    · cases performed
  | exit pid code => cases noExit
  | exitGroup tgid code => cases noExit
  | setsid caller =>
    rw [← congrArg Prod.snd (Option.some.inj performed)]
    exact sessions.onTable fun value after done => sessions.setsid leads done
  | setpgid caller pid pgid =>
    rw [← congrArg Prod.snd (Option.some.inj performed)]
    exact sessions.onTable fun value after done => sessions.setpgid done
  | cred caller call =>
    rw [← congrArg Prod.snd (Option.some.inj performed)]
    apply sessions.onTable
    intro value after done
    rw [sessionsOf_cred done]
    exact sessions

/-- In every run without exits in which only processes call `sys_setsid` whose number is not
the group of another process, the processes of a group are in one session. -/
theorem group_in_session_of_run {nextPid : Nat} {trace : List Label} {final : State}
    (noExit : ∀ label ∈ trace, label.isExit = false)
    (leads : LabelledRun.Guarded State.step LeadsNoOthers (State.boot nextPid) trace)
    (reached : (State.boot nextPid).run trace = some final) :
    ∀ (key other : Nat) (process member : Process), final.table[key]? = some process →
      final.table[other]? = some member → process.pgid = member.pgid →
        process.sid = member.sid := by
  have sessions : Sessions (sessionsOf final.table) final.nextPid :=
    LabelledRun.invariant_of_guarded
      (fun state => Sessions (sessionsOf state.table) state.nextPid)
      (fun sessions guard stepped => sessions.step guard.1 guard.2 stepped)
      (sessions_empty nextPid) (leads.and_forall noExit) reached
  intro key other process member found foundOther sameGroup
  have look := sessionsOf_of_found found
  rw [sameGroup] at look
  exact sessions.same look (sessionsOf_of_found foundOther)

def forkThenSetsid : List Label := [.spawn 0, .clone 1 0 0, .setsid 2]

theorem group_in_session_forkThenSetsid :
    ∃ final, (State.boot 1).run forkThenSetsid = some final ∧
      ∀ (key other : Nat) (process member : Process), final.table[key]? = some process →
        final.table[other]? = some member → process.pgid = member.pgid →
          process.sid = member.sid := by
  have runs : ((State.boot 1).run forkThenSetsid).isSome = true := by decide +kernel
  obtain ⟨final, reached⟩ := Option.isSome_iff_exists.mp runs
  exact ⟨final, reached, group_in_session_of_run (by decide) (by decide +kernel) reached⟩

/-- A process makes a group, has a child there, goes back to the group it came from and
starts a session: the child is in the group of the new session's leader, but in the old
session. -/
theorem group_spans_sessions :
    ∃ final, (State.boot 1).run [.spawn 0, .clone 1 0 0, .setpgid 2 0 0, .clone 2 0 0,
        .setpgid 2 0 1, .setsid 2] = some final ∧
      (final.table[2]?).map (fun process => (process.pgid, process.sid)) = some (2, 2) ∧
      (final.table[3]?).map (fun process => (process.pgid, process.sid)) = some (2, 1) := by
  decide +kernel

end Cyllor.Proc
