import Cyllor.Proc.System

/-!
Contract: what an unprivileged process can do to its credentials.

Owns: that a call on credentials by a process with a nonzero effective user takes every id
from those the process had, if `sys_setgid` is called with a nonzero effective group; that
this holds over whole runs; and that a refused call changes nothing.
-/

namespace Cyllor.Proc

def Process.HasUid (p : Process) (id : UInt32) : Prop := id = p.uid ∨ id = p.euid ∨ id = p.suid

def Process.HasGid (p : Process) (id : UInt32) : Prop := id = p.gid ∨ id = p.egid ∨ id = p.sgid

/-- All ids are ids that the process had. -/
structure Within (before after : Process) : Prop where
  uid : before.HasUid after.uid
  euid : before.HasUid after.euid
  suid : before.HasUid after.suid
  gid : before.HasGid after.gid
  egid : before.HasGid after.egid
  sgid : before.HasGid after.sgid

theorem within_refl (p : Process) : Within p p where
  uid := .inl rfl
  euid := .inr (.inl rfl)
  suid := .inr (.inr rfl)
  gid := .inl rfl
  egid := .inr (.inl rfl)
  sgid := .inr (.inr rfl)

theorem Within.hasUid {before after : Process} (within : Within before after) {id : UInt32}
    (has : after.HasUid id) : before.HasUid id := by
  rcases has with rfl | rfl | rfl
  · exact within.uid
  · exact within.euid
  · exact within.suid

theorem Within.hasGid {before after : Process} (within : Within before after) {id : UInt32}
    (has : after.HasGid id) : before.HasGid id := by
  rcases has with rfl | rfl | rfl
  · exact within.gid
  · exact within.egid
  · exact within.sgid

theorem Within.trans {first second third : Process} (early : Within first second)
    (late : Within second third) : Within first third where
  uid := early.hasUid late.uid
  euid := early.hasUid late.euid
  suid := early.hasUid late.suid
  gid := early.hasGid late.gid
  egid := early.hasGid late.egid
  sgid := early.hasGid late.sgid

/-! ### One call -/

theorem chooseId_ok {real effective saved current id : UInt32} {argument : Int32}
    (isCurrent : current = real ∨ current = effective ∨ current = saved)
    (chosen : chooseId false real effective saved current argument = .ok id) :
    id = real ∨ id = effective ∨ id = saved := by
  unfold chooseId at chosen
  split at chosen
  · dsimp only at chosen
    split at chosen
    · cases chosen
    · rename_i allowed
      cases chosen
      by_contra excluded
      rw [not_or, not_or] at excluded
      exact allowed ⟨rfl, excluded⟩
  · cases chosen
    exact isCurrent

theorem within_of_apply {p changed : Process} {call : CredCall} (unprivileged : p.euid ≠ 0)
    (groups : ∀ gid, call = .setgid gid → p.egid ≠ 0) (applied : call.apply p = .ok changed) :
    Within p changed := by
  have kept := within_refl p
  have notRoot : (p.euid == 0) = false := beq_eq_false_iff_ne.mpr unprivileged
  cases call with
  | setuid uid =>
    simp only [CredCall.apply, sysSetuid] at applied
    split at applied
    · cases applied
    · rename_i allowed
      cases applied
      have has : p.HasUid uid := by
        by_cases isReal : uid = p.uid
        · exact .inl isReal
        · by_cases isEffective : uid = p.euid
          · exact .inr (.inl isEffective)
          · exact absurd ⟨unprivileged, isReal, isEffective⟩ allowed
      exact ⟨has, has, has, kept.gid, kept.egid, kept.sgid⟩
  | setgid gid =>
    simp only [CredCall.apply, sysSetgid] at applied
    split at applied
    · cases applied
    · rename_i allowed
      cases applied
      have has : p.HasGid gid := by
        by_cases isReal : gid = p.gid
        · exact .inl isReal
        · by_cases isEffective : gid = p.egid
          · exact .inr (.inl isEffective)
          · exact absurd ⟨groups gid rfl, isReal, isEffective⟩ allowed
      exact ⟨kept.uid, kept.euid, kept.suid, has, has, has⟩
  | setresuid ruid euid suid =>
    simp only [CredCall.apply, sysSetresuid, notRoot] at applied
    obtain ⟨nr, realChosen, rest⟩ := exists_of_bind_ok applied
    obtain ⟨ne, effectiveChosen, rest⟩ := exists_of_bind_ok rest
    obtain ⟨ns, savedChosen, rest⟩ := exists_of_bind_ok rest
    cases rest
    exact ⟨chooseId_ok kept.uid realChosen, chooseId_ok kept.euid effectiveChosen,
      chooseId_ok kept.suid savedChosen, kept.gid, kept.egid, kept.sgid⟩
  | setresgid rgid egid sgid =>
    simp only [CredCall.apply, sysSetresgid, notRoot] at applied
    obtain ⟨nr, realChosen, rest⟩ := exists_of_bind_ok applied
    obtain ⟨ne, effectiveChosen, rest⟩ := exists_of_bind_ok rest
    obtain ⟨ns, savedChosen, rest⟩ := exists_of_bind_ok rest
    cases rest
    exact ⟨kept.uid, kept.euid, kept.suid, chooseId_ok kept.gid realChosen,
      chooseId_ok kept.egid effectiveChosen, chooseId_ok kept.sgid savedChosen⟩

/-! ### Runs -/

/-- A call of the process on credentials finds a nonzero effective user. -/
def Unprivileged (pid : Nat) (state : State) : Label → Prop
  | .cred caller _ => caller = pid → ∀ p, state.table[pid]? = some p → p.euid ≠ 0
  | _ => True

/-- `sys_setgid` of the process finds a nonzero effective group. -/
def GroupUnprivileged (pid : Nat) (state : State) : Label → Prop
  | .cred caller (.setgid _) => caller = pid → ∀ p, state.table[pid]? = some p → p.egid ≠ 0
  | _ => True

def Label.isCred : Label → Bool
  | .cred _ _ => true
  | _ => false

variable {state next : State} {pid : Nat}

theorem GroupUnprivileged.egid {p : Process} {call : CredCall}
    (groups : GroupUnprivileged pid state (.cred pid call)) (found : state.table[pid]? = some p) :
    ∀ gid, call = .setgid gid → p.egid ≠ 0 := by
  rintro gid rfl
  exact groups rfl p found

theorem within_of_step {p : Process} {label : Label} (isCred : label.isCred = true)
    (unprivileged : Unprivileged pid state label) (groups : GroupUnprivileged pid state label)
    (found : state.table[pid]? = some p) (stepped : state.step label = some next) :
    ∃ q, next.table[pid]? = some q ∧ Within p q := by
  obtain ⟨⟨result, after⟩, performed, rfl⟩ := Option.map_eq_some_iff.mp stepped
  cases label with
  | cred caller call =>
    have isAfter : (state.onTable (sysCred state.table caller call)).2 = after :=
      congrArg Prod.snd (Option.some.inj performed)
    show ∃ q, after.table[pid]? = some q ∧ Within p q
    rw [← isAfter]
    cases done : sysCred state.table caller call with
    | error error => exact ⟨p, found, within_refl p⟩
    | ok outcome =>
      obtain ⟨before, changed, foundCaller, applied, isTable⟩ := sysCred_ok done
      show ∃ q, outcome.2[pid]? = some q ∧ Within p q
      rw [isTable]
      by_cases isCaller : caller = pid
      · subst isCaller
        obtain rfl := Option.some.inj (foundCaller.symm.trans found)
        refine ⟨changed, Std.ExtTreeMap.getElem?_insert_self, ?_⟩
        exact within_of_apply (unprivileged rfl before found) (groups.egid found) applied
      · refine ⟨p, ?_, within_refl p⟩
        rw [Std.ExtTreeMap.getElem?_insert, if_neg (by simpa using isCaller)]
        exact found
  | _ => cases isCred

/-- A process without privilege keeps to its user and group ids over every sequence of calls
on credentials, if it calls `sys_setgid` only with a nonzero effective group; and a call that
is refused changes nothing. -/
theorem ids_kept_of_run {start final : State} {p : Process} {trace : List Label}
    (creds : ∀ label ∈ trace, label.isCred = true) (found : start.table[pid]? = some p)
    (unprivileged : LabelledRun.Guarded State.step (Unprivileged pid) start trace)
    (groups : LabelledRun.Guarded State.step (GroupUnprivileged pid) start trace)
    (reached : start.run trace = some final) :
    (∃ q, final.table[pid]? = some q ∧
      (p.HasUid q.uid ∧ p.HasUid q.euid ∧ p.HasUid q.suid) ∧
        p.HasGid q.gid ∧ p.HasGid q.egid ∧ p.HasGid q.sgid) ∧
      ∀ state next caller call, State.perform state (.cred caller call) =
        some (.error .EPERM, next) → next = state := by
  constructor
  · obtain ⟨q, foundNow, within⟩ := LabelledRun.invariant_of_guarded
      (fun state => ∃ q, state.table[pid]? = some q ∧ Within p q)
      (by
        rintro state next label ⟨q, foundNow, within⟩ ⟨isCred, unprivileged, groups⟩ stepped
        obtain ⟨r, foundNext, within'⟩ :=
          within_of_step isCred unprivileged groups foundNow stepped
        exact ⟨r, foundNext, within.trans within'⟩)
      ⟨p, found, within_refl p⟩ ((unprivileged.and groups).and_forall creds) reached
    exact ⟨q, foundNow, ⟨within.uid, within.euid, within.suid⟩, within.gid, within.egid,
      within.sgid⟩
  · intro state next caller call performed
    have outcome := Option.some.inj performed
    cases done : sysCred state.table caller call with
    | error error =>
      rw [done] at outcome
      exact (congrArg Prod.snd outcome).symm
    | ok value =>
      rw [done] at outcome
      cases congrArg Prod.fst outcome

def userProcess : Process where
  pid := 1
  tgid := 1
  pgid := 1
  sid := 1
  ppid := 0
  uid := 1000
  gid := 100
  euid := 1000
  egid := 100
  suid := 1000
  sgid := 100
  noNewPrivs := false
  threads := [1]

theorem ids_kept_setgid : ∃ final,
    State.run ⟨(∅ : Table).insert 1 userProcess, ∅, 2⟩ [.cred 1 (.setgid 100)] = some final ∧
      ∃ q, final.table[1]? = some q ∧
        (userProcess.HasUid q.uid ∧ userProcess.HasUid q.euid ∧ userProcess.HasUid q.suid) ∧
          userProcess.HasGid q.gid ∧ userProcess.HasGid q.egid ∧ userProcess.HasGid q.sgid := by
  have runs : (State.run ⟨(∅ : Table).insert 1 userProcess, ∅, 2⟩
      [.cred 1 (.setgid 100)]).isSome = true := by decide +kernel
  obtain ⟨final, reached⟩ := Option.isSome_iff_exists.mp runs
  have found : ((∅ : Table).insert 1 userProcess)[1]? = some userProcess :=
    Std.ExtTreeMap.getElem?_insert_self
  have start : ∀ p, ((∅ : Table).insert 1 userProcess)[1]? = some p → p = userProcess :=
    fun p isP => Option.some.inj (isP.symm.trans found)
  refine ⟨final, reached, (ids_kept_of_run (by decide) found ?_ ?_ reached).1⟩
  · refine ⟨fun _ p isP => ?_, ?_⟩
    · rw [start p isP]
      decide
    · split <;> trivial
  · refine ⟨fun _ p isP => ?_, ?_⟩
    · rw [start p isP]
      decide
    · split <;> trivial

/-- A process that gave up the user id of root but kept the group of root takes any group. -/
theorem setgid_without_privilege :
    ∃ start final p q, (State.boot 1).run [.spawn 0, .cred 1 (.setresuid 1000 1000 1000)] =
        some start ∧
      start.table[1]? = some p ∧ p.euid = 1000 ∧ (p.gid, p.egid, p.sgid) = (0, 0, 0) ∧
      start.run [.cred 1 (.setgid 5)] = some final ∧ final.table[1]? = some q ∧
      (q.gid, q.egid, q.sgid) = (5, 5, 5) := by
  obtain ⟨start, reached, p, found, isEuid, groups, rest⟩ :
      ∃ start, (State.boot 1).run [.spawn 0, .cred 1 (.setresuid 1000 1000 1000)] = some start ∧
        ∃ p, start.table[1]? = some p ∧ p.euid = 1000 ∧ (p.gid, p.egid, p.sgid) = (0, 0, 0) ∧
          ∃ final, start.run [.cred 1 (.setgid 5)] = some final ∧
            ∃ q, final.table[1]? = some q ∧ (q.gid, q.egid, q.sgid) = (5, 5, 5) := by
    decide +kernel
  obtain ⟨final, reachedFinal, q, isMember⟩ := rest
  exact ⟨start, final, p, q, reached, found, isEuid, groups, reachedFinal, isMember⟩

end Cyllor.Proc
