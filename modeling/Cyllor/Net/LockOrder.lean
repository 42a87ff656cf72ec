import Cyllor.Net.LockFacts
import Cyllor.Net.System

/-!
Contract: `close`, `dup3`, `do_sendmsg` and `do_recvmsg` do not wait for each other
in a circle, as long as the descriptor table and the passed descriptors are not
locked by different processors at the same time.

Owns: the order in which these calls nest their locks, with its one exception, the
condition on acquisitions, and the result over all runs.

Closing the last descriptor of a socket locks `FD_TABLE` and then `SOCKET_RIGHTS`;
passing or taking descriptors locks `SOCKET_RIGHTS` and then `FD_TABLE`.
-/

namespace Cyllor.Net.Locked

open Cyllor.Fs LockProgram LockState

/-- Position of a lock in the order of nesting. -/
def Lock.rank : Lock → Nat
  | .fdTable => 0
  | .file _ => 1
  | .socketAlias => 2
  | .socketState => 3
  | .socketPending => 4
  | .socketRx => 5
  | .socketRights => 6
  | .ownerUnixPath => 7
  | .unixPathOwner => 8
  | .epollTable => 9

/-- The rule that locks are nested in order, except that `FD_TABLE` may be acquired
with just `SOCKET_RIGHTS` held. -/
def InOrder (held : List Lock) (lock : Lock) : Prop :=
  (∀ taken ∈ held, taken.rank < lock.rank) ∨ held = [.socketRights] ∧ lock = .fdTable

/-- The calls that close a descriptor or move a message. -/
def Entry.ClosesOrMessages : Entry → Prop
  | .close _ | .dup3 _ _ _ | .sendmsg _ _ | .recvmsg _ _ _ => True
  | _ => False

instance (entry : Entry) : Decidable entry.ClosesOrMessages := by
  cases entry <;> unfold Entry.ClosesOrMessages <;> infer_instance

theorem balanced_call_inOrder {entry : Entry} (inScope : entry.ClosesOrMessages) :
    Balanced (fun _ _ => True) InOrder [] entry.call := by
  have free : ∀ lock, InOrder [] lock := fun _ => .inl nofun
  have inTable : ∀ lock, lock ≠ .fdTable → InOrder [.fdTable] lock := fun lock other => by
    cases lock <;> simp_all [InOrder, Lock.rank]
  have paths : InOrder [.ownerUnixPath, .fdTable] .unixPathOwner := .inl (by decide)
  have table : InOrder [.socketRights] .fdTable := .inr ⟨rfl, rfl⟩
  cases entry with
  | close fd => exact balanced_close free inTable paths fd
  | dup3 oldfd newfd flags => exact balanced_dup3Fd free inTable paths oldfd newfd flags
  | sendmsg fd message => exact balanced_doSendmsg free table fd message
  | recvmsg fd message rounds => exact balanced_doRecvmsg free table fd message rounds
  | _ => exact inScope.elim

namespace Machine

variable {cpus : Nat}

/-- Only calls that close a descriptor or move a message are entered. -/
def ClosesOrMessages : Label cpus → Prop
  | .start _ entry => entry.ClosesOrMessages
  | .advance _ => True

instance (label : Label cpus) : Decidable (ClosesOrMessages label) := by
  cases label <;> unfold ClosesOrMessages <;> infer_instance

/-- A processor does not acquire `FD_TABLE` while another holds `SOCKET_RIGHTS`, nor
`SOCKET_RIGHTS` while another holds `FD_TABLE`. -/
def KeepsApart (machine : Machine cpus) : Label cpus → Prop
  | .start _ _ => True
  | .advance cpu =>
    (machine.wants cpu = some .fdTable →
      ∀ other, other ≠ cpu → .socketRights ∉ machine.held other) ∧
    (machine.wants cpu = some .socketRights →
      ∀ other, other ≠ cpu → .fdTable ∉ machine.held other)

instance (machine : Machine cpus) (label : Label cpus) :
    Decidable (machine.KeepsApart label) := by
  cases label <;> unfold KeepsApart <;> infer_instance

/-- `FD_TABLE` and `SOCKET_RIGHTS` are not held by different processors. -/
def Apart (machine : Machine cpus) : Prop :=
  ∀ first second, .fdTable ∈ machine.held first → .socketRights ∈ machine.held second →
    first = second

theorem Apart.step {machine next : Machine cpus} {label : Label cpus} (apart : machine.Apart)
    (keeps : machine.KeepsApart label) (stepped : machine.step label = some next) :
    next.Apart := by
  intro first second table rights
  by_contra different
  rcases mem_held_of_step stepped table with tableBefore | ⟨acquires, wantsTable⟩
  · rcases mem_held_of_step stepped rights with rightsBefore | ⟨acquires, wantsRights⟩
    · exact different (apart first second tableBefore rightsBefore)
    · subst acquires
      exact keeps.2 wantsRights first different tableBefore
  · subst acquires
    rcases mem_held_of_step stepped rights with rightsBefore | ⟨acquires, _⟩
    · exact keeps.1 wantsTable second (Ne.symm different) rightsBefore
    · exact different (LockLabel.advance.inj acquires)

/-- A processor that waits for another wants a lock beyond all that it holds. -/
private theorem rank_lt_of_waits {machine : Machine cpus}
    (obedient : machine.Obedient (fun _ _ => True) InOrder) (apart : machine.Apart)
    {first second : Fin cpus} (different : first ≠ second) {lock taken : Lock}
    (wanted : machine.wants first = some lock) (holds : lock ∈ machine.held second)
    (keeps : taken ∈ machine.held first) : taken.rank < lock.rank := by
  rcases obedient.allowed_of_wants wanted with ordered | ⟨onlyRights, rfl⟩
  · exact ordered taken keeps
  · have rights : Lock.socketRights ∈ machine.held first := by simp [onlyRights]
    exact absurd (apart second first holds rights).symm different

/-- In every run of these calls, from any tables and on any number of processors, in
which `FD_TABLE` and `SOCKET_RIGHTS` are not acquired while another processor holds
the other one, no two processors wait for each other. -/
theorem not_circular_wait_of_run (world : World) {trace : List (Label cpus)}
    {final : Machine cpus} (inScope : ∀ label ∈ trace, ClosesOrMessages label)
    (guarded : LabelledRun.Guarded Machine.step KeepsApart (idle world) trace)
    (reached : Machine.run (idle world) trace = some final) {first second : Fin cpus}
    (different : first ≠ second) :
    ¬(final.WaitsFor first second ∧ final.WaitsFor second first) := by
  let Inv (machine : Machine cpus) : Prop :=
    machine.Obedient (fun _ _ => True) InOrder ∧ machine.Apart
  have initial : Inv (idle world) :=
    ⟨obedient_idle world, fun _ _ none => absurd none List.not_mem_nil⟩
  have invariant : Inv final := by
    refine LabelledRun.invariant_of_guarded Inv (fun holds meets stepped => ?_) initial
      (guarded.and_forall inScope) reached
    refine ⟨holds.1.step (fun _ entry starts => ?_) (fun _ _ => trivial) stepped,
      holds.2.step meets.2 stepped⟩
    subst starts
    exact balanced_code (balanced_call_inOrder meets.1)
  obtain ⟨obedient, apart⟩ := invariant
  rintro ⟨⟨lock, wanted, holds⟩, ⟨other, wantedBack, holdsBack⟩⟩
  have up := rank_lt_of_waits obedient apart different wanted holds holdsBack
  have down := rank_lt_of_waits obedient apart (Ne.symm different) wantedBack holdsBack holds
  exact absurd up (Nat.not_lt.mpr down.le)

/-- After boot a process has created the socket pair 3 and 4. -/
def createPair : List Event := [Event.byRoot [] (.socketpair AF_UNIX 1 0 4096)]

/-- The tables that the socket pair leaves. -/
def withPair : World := ⟨(Tables.run .boot createPair).getD .boot, ∅⟩

def passFour : Entry := .sendmsg 4 (.ok ⟨[], .ok [[4]]⟩)

/-- The second processor is in `sendmsg` but has not locked the passed descriptors
when the first closes the other end. -/
def closeDuringSend : List (Label 2) :=
  enter 1 passFour 12 ++ enter 0 (.close 3) 45 ++ List.replicate 14 (.advance 1)

theorem not_circular_wait_closeDuringSend :
    ∃ final, Machine.run (idle withPair) closeDuringSend = some final ∧
      ¬(final.WaitsFor 0 1 ∧ final.WaitsFor 1 0) := by
  obtain ⟨final, reached⟩ := Option.isSome_iff_exists.mp (show
    (Machine.run (idle withPair) closeDuringSend).isSome by decide +kernel)
  exact ⟨final, reached,
    not_circular_wait_of_run withPair (by decide) (by decide +kernel) reached (by decide)⟩

/-- From boot and a socket pair, one processor closes one end while another passes a
descriptor through the other: the first holds `FD_TABLE` and wants `SOCKET_RIGHTS`,
the second holds `SOCKET_RIGHTS` and wants `FD_TABLE`. -/
theorem close_and_sendmsg_wait_for_each_other :
    ∃ (tables : Tables) (trace : List (Label 2)) (final : Machine 2),
      Tables.run .boot createPair = some tables ∧
        (∀ label ∈ trace, ClosesOrMessages label) ∧
        Machine.run (idle ⟨tables, ∅⟩) trace = some final ∧
        final.WaitsFor 0 1 ∧ final.WaitsFor 1 0 := by
  let trace : List (Label 2) := enter 1 passFour 14 ++ enter 0 (.close 3) 29
  obtain ⟨tables, created, final, reached⟩ : ∃ tables, Tables.run .boot createPair = some tables ∧
      ∃ final, Machine.run (idle ⟨tables, ∅⟩) trace = some final ∧
        final.WaitsFor 0 1 ∧ final.WaitsFor 1 0 := by
    decide +kernel
  exact ⟨tables, trace, final, created, by decide, reached⟩

end Machine

end Cyllor.Net.Locked
