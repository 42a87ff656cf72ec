import Cyllor.Net.LockFacts

/-!
Contract: no call acquires a mutex that it already holds, as long as three reads
find the usual case.

Owns: the three conditions, the rule that a lock is not held when it is acquired,
and the result over all runs of any number of processors.

A poll of a socket locks the file object and then asks `socket_poll_mask`, which
locks the same object again. An `AF_INET` connect without a listener records its
error with the socket states locked. An accept whose client has left the queue
cleans up with the queues locked.
-/

namespace Cyllor.Net.Locked

open Cyllor.Fs LockProgram

/-- What a read must find for the call not to acquire a mutex it holds: a polled file
is no socket, a connect finds a listener, an accept finds its client still in the
queue. -/
def AvoidsRelock : Site → World → Prop
  | .plain, _ => True
  | .polledType file, world => (world.tables.objects file).ftype ≠ .Socket
  | .listenerLookup port ip, world => (listenerAt world.tables port ip).isSome
  | .pendingRecheck listenerOwner clientOwner, world =>
    (world.tables.socketPending[listenerOwner]?).any (clientOwner ∉ ·) = false

instance (site : Site) (world : World) : Decidable (AvoidsRelock site world) := by
  cases site <;> unfold AvoidsRelock <;> infer_instance

/-- The rule that a lock is not held when it is acquired. -/
def NotHeld (held : List Lock) (lock : Lock) : Prop := lock ∉ held

theorem balanced_call_notHeld (entry : Entry) :
    Balanced AvoidsRelock NotHeld [] entry.call := by
  have free : ∀ lock, NotHeld [] lock := fun _ => List.not_mem_nil
  have inTable : ∀ lock, lock ≠ .fdTable → NotHeld [.fdTable] lock := fun lock other => by
    simpa [NotHeld] using other
  have paths : NotHeld [.ownerUnixPath, .fdTable] .unixPathOwner := by simp [NotHeld]
  have table : NotHeld [.socketRights] .fdTable := by simp [NotHeld]
  have notSocket : ∀ file world, AvoidsRelock (.polledType file) world →
      (world.tables.objects file).ftype ≠ .Socket := fun _ _ expected => expected
  cases entry with
  | socket caller domain sockType protocol => exact balanced_doSocket free _ _ _ _
  | bind fd address =>
    exact balanced_doBind free (by simp [NotHeld]) (by simp [NotHeld]) fd address
  | listen fd backlog => exact balanced_doListen free (by simp [NotHeld]) fd backlog
  | accept4 caller fd addr addrlen flags rounds reported =>
    exact balanced_doAccept4 free (fun _ _ _ expected => expected) _ _ _ _ _ _ _
  | connect fd address =>
    exact balanced_doConnect free (fun _ _ _ expected => expected) fd address
  | ppoll fds rounds written => exact balanced_sysPpoll notSocket free fds rounds written
  | epollPwait epfd events maxevents timeout rounds written =>
    exact balanced_epollPwait notSocket free _ _ _ _ _ _
  | close fd => exact balanced_close free inTable paths fd
  | dup oldfd => exact balanced_dupFd free inTable oldfd
  | dup3 oldfd newfd flags => exact balanced_dup3Fd free inTable paths oldfd newfd flags
  | sendmsg fd message => exact balanced_doSendmsg free table fd message
  | recvmsg fd message rounds => exact balanced_doRecvmsg free table fd message rounds

/-- In every run, from any tables and on any number of processors, whose polls find no
socket, whose connects find a listener and whose accepts find their client still in
the queue, no processor is ever about to acquire a mutex that it holds. -/
theorem not_relocks_of_run {cpus : Nat} (world : World) {trace : List (Label cpus)}
    {final : Machine cpus}
    (guarded : LabelledRun.Guarded Machine.step (LockState.MeetsAt AvoidsRelock)
      (LockState.idle world) trace)
    (reached : Machine.run (LockState.idle world) trace = some final) (cpu : Fin cpus) :
    ¬final.Relocks cpu := by
  have obedient : final.Obedient AvoidsRelock NotHeld := by
    refine LabelledRun.invariant_of_guarded _ (fun obedient meets stepped => ?_)
      (LockState.obedient_idle world) guarded reached
    exact obedient.step (fun _ entry _ => balanced_code (balanced_call_notHeld entry)) meets stepped
  rintro ⟨lock, wanted, holds⟩
  exact obedient.allowed_of_wants wanted holds

def root : Caller := ⟨⟨fun _ => none, fun _ => true⟩, 1, 0, 0, 0, 0⟩

/-- One processor creates a socket and polls the console, and while it holds the
console's lock a second one has closed the socket. -/
def pollConsole : List (Label 2) :=
  enter 0 (.socket root AF_UNIX 1 0) 18 ++
    enter 0 (.ppoll (.ok [(0, POLLIN)]) [fun _ => true] (.ok ())) 5 ++ enter 1 (.close 3) 45

theorem not_relocks_pollConsole :
    ∃ final, Machine.run (LockState.idle ⟨.boot, ∅⟩) pollConsole = some final ∧
      ∀ cpu, ¬final.Relocks cpu := by
  obtain ⟨final, reached⟩ := Option.isSome_iff_exists.mp (show
    (Machine.run (LockState.idle ⟨.boot, ∅⟩) pollConsole).isSome by decide +kernel)
  exact ⟨final, reached, not_relocks_of_run _ (by decide +kernel) reached⟩

/-- From boot, a processor creates a socket and polls it: it holds the lock of the file
object and is about to acquire it again. -/
theorem poll_relocks_socket :
    ∃ (trace : List (Label 1)) (final : Machine 1),
      Machine.run (LockState.idle ⟨.boot, ∅⟩) trace = some final ∧
        final.wants 0 = some (.file 3) ∧ Lock.file 3 ∈ final.held 0 := by
  let trace : List (Label 1) := enter 0 (.socket root AF_UNIX 1 0) 18 ++
    enter 0 (.ppoll (.ok [(3, POLLIN)]) [fun _ => false] (.ok ())) 8
  exact ⟨trace, by decide +kernel⟩

end Cyllor.Net.Locked
