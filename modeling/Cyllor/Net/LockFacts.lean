import Cyllor.Net.Locked

/-!
Contract: what a rule of acquisition must allow for each call to obey it.

Owns: one fact for each program of `Cyllor.Net.Locked`, for any rule. A program
that acquires one lock asks that this lock is allowed; a program that acquires
several, and not the descriptor table, asks that all locks but that one are.
-/

namespace Cyllor.Net.Locked

open Cyllor.Fs LockProgram

variable {expects : Site → World → Prop} {allowed : List Lock → Lock → Prop} {held : List Lock}
  {α : Type}

theorem balanced_look (read : Tables → α) : Balanced expects allowed held (look read) :=
  balanced_readAt _ _

theorem balanced_change (update : Tables → Tables) :
    Balanced expects allowed held (change update) :=
  balanced_updateAt _ _ _

theorem balanced_given (outcome : Except Errno α) :
    Balanced expects allowed held (given outcome) :=
  balanced_done _

theorem balanced_code {entry : Entry} (calls : Balanced expects allowed held entry.call) :
    Balanced expects allowed held entry.code :=
  calls.bind fun _ => balanced_pure _

theorem balanced_holding_change {lock : Lock} (update : Tables → Tables)
    (permitted : allowed held lock) :
    Balanced expects allowed held (holding lock (change update)) :=
  .holding permitted (balanced_change update)

theorem balanced_holding_look {lock : Lock} (read : Tables → α) (permitted : allowed held lock) :
    Balanced expects allowed held (holding lock (look read)) :=
  .holding permitted (balanced_look read)

/-! ### Descriptors -/

theorem balanced_getFile (fd : Int) (table : allowed held .fdTable) :
    Balanced expects allowed held (getFile fd) :=
  .holding table <| (balanced_look _).bind fun _ => balanced_ofOption _ _

theorem balanced_allocFd (file : FileId) (table : allowed held .fdTable) :
    Balanced expects allowed held (allocFd file) := by
  refine .holding table <| (balanced_look _).bind fun free => ?_
  refine (balanced_ofOption _ free).bind fun fd => ?_
  exact (balanced_change _).bind fun _ => balanced_pure fd

theorem balanced_fileIsSocket (file : FileId) (permitted : allowed held (.file file)) :
    Balanced expects allowed held (fileIsSocket file) :=
  balanced_holding_look _ permitted

theorem balanced_whenSocket {file : FileId} {action : LockedCall Unit}
    (permitted : allowed held (.file file)) (acts : Balanced expects allowed held action) :
    Balanced expects allowed held (whenSocket file action) :=
  (balanced_fileIsSocket file permitted).bind fun _ => .ite acts (balanced_pure _)

/-! ### Sockets -/

theorem balanced_ensureSocketFd (fd : Int) (permits : ∀ lock, allowed held lock) :
    Balanced expects allowed held (ensureSocketFd fd) := by
  refine .ite (balanced_throw _) <| (balanced_getFile fd (permits _)).bind fun file => ?_
  refine (balanced_fileIsSocket file (permits _)).bind fun _ => ?_
  exact .ite (balanced_pure _) (balanced_throw _)

theorem balanced_ownerOf (fd : Int) (permitted : allowed held .socketAlias) :
    Balanced expects allowed held (ownerOf fd) :=
  balanced_holding_look _ permitted

theorem balanced_setSocketError (fd error : Int) (aliases : allowed held .socketAlias)
    (states : allowed held .socketState) :
    Balanced expects allowed held (setSocketError fd error) :=
  (balanced_ownerOf fd aliases).bind fun _ => balanced_holding_change _ states

theorem balanced_failSocket (fd : Int) (error : Errno) (aliases : allowed held .socketAlias)
    (states : allowed held .socketState) :
    Balanced expects allowed held (failSocket fd error : LockedCall α) :=
  (balanced_setSocketError fd _ aliases states).bind fun _ => balanced_throw error

theorem balanced_isNonblockingFd (fd : Int) (permits : ∀ lock, allowed held lock) :
    Balanced expects allowed held (isNonblockingFd fd) := by
  refine .ite (balanced_pure _) <| (balanced_getFile fd (permits _)).attempt.bind ?_
  rintro (error | file)
  · exact balanced_pure _
  · exact balanced_holding_look _ (permits _)

theorem balanced_stateOf (owner : Int) (states : allowed held .socketState) :
    Balanced expects allowed held (stateOf owner) :=
  .holding states <| (balanced_look _).bind fun _ => balanced_ofOption _ _

theorem balanced_changeState (owner : Int) (update : SocketState → SocketState)
    (states : allowed held .socketState) :
    Balanced expects allowed held (changeState owner update) := by
  refine .holding states <| (balanced_look _).bind fun found => ?_
  exact (balanced_ofOption _ found).bind fun _ => balanced_change _

theorem balanced_allocSocketFd (caller : Caller) (domain sockType protocol : Int)
    (permits : ∀ lock, allowed held lock) :
    Balanced expects allowed held (allocSocketFd caller domain sockType protocol) := by
  refine (balanced_updateAt _ _ _).bind fun file => ?_
  refine (balanced_allocFd file (permits _)).bind fun fd => ?_
  refine (balanced_holding_change _ (permits _)).bind fun _ => ?_
  refine (balanced_holding_change _ (permits _)).bind fun _ => ?_
  refine (balanced_holding_change _ (permits _)).bind fun _ => ?_
  exact (balanced_holding_change _ (permits _)).bind fun _ => balanced_pure fd

/-! ### Giving up and sharing a socket

These run with the descriptor table locked. -/

section Inside

variable (permits : ∀ lock, lock ≠ .fdTable → allowed held lock)
  (paths : allowed (.ownerUnixPath :: held) .unixPathOwner)

include permits paths

theorem balanced_forgetPath (owner : Int) : Balanced expects allowed held (forgetPath owner) := by
  refine .holding (permits _ nofun) <| (balanced_look _).bind fun removed => ?_
  refine (balanced_change _).bind fun _ => ?_
  cases removed with
  | none => exact balanced_pure _
  | some path => exact balanced_holding_change _ paths

theorem balanced_forgetOwner (owner : Int) :
    Balanced expects allowed held (forgetOwner owner) := by
  refine (balanced_holding_change _ (permits .socketState nofun)).bind fun _ => ?_
  refine (balanced_holding_change _ (permits .socketPending nofun)).bind fun _ => ?_
  refine (balanced_holding_change _ (permits .socketRx nofun)).bind fun _ => ?_
  refine (balanced_holding_change _ (permits .socketRights nofun)).bind fun _ => ?_
  refine (balanced_forgetPath permits paths owner).bind fun _ => ?_
  refine (balanced_holding_change _ (permits .socketState nofun)).bind fun _ => ?_
  exact balanced_holding_change _ (permits .socketPending nofun)

theorem balanced_cleanupSocketFd (fd : Int) :
    Balanced expects allowed held (cleanupSocketFd fd) := by
  refine (balanced_ownerOf fd (permits _ nofun)).bind fun owner => ?_
  refine (balanced_holding_change _ (permits .socketAlias nofun)).bind fun _ => ?_
  refine (balanced_holding_look _ (permits .socketAlias nofun)).bind fun _ => ?_
  exact .ite (balanced_pure _) (balanced_forgetOwner permits paths owner)

theorem balanced_releaseSocket (fd : Nat) :
    Balanced expects allowed held (releaseSocket fd) := by
  refine (balanced_look _).bind fun target => ?_
  cases target with
  | none => exact balanced_pure _
  | some file =>
    exact balanced_whenSocket (permits _ nofun) (balanced_cleanupSocketFd permits paths fd)

end Inside

theorem balanced_cloneSocketFd (oldfd newfd : Int) (aliases : allowed held .socketAlias) :
    Balanced expects allowed held (cloneSocketFd oldfd newfd) :=
  (balanced_ownerOf oldfd aliases).bind fun _ => balanced_holding_change _ aliases

/-! ### Calls that close and duplicate -/

section Descriptors

variable (free : ∀ lock, allowed [] lock)
  (inTable : ∀ lock, lock ≠ .fdTable → allowed [.fdTable] lock)
  (paths : allowed [.ownerUnixPath, .fdTable] .unixPathOwner)

include free

theorem balanced_forgetEpoll (fd : Nat) : Balanced expects allowed [] (forgetEpoll fd) := by
  refine (balanced_getFile fd (free _)).attempt.bind ?_
  rintro (error | file)
  · exact balanced_pure _
  · refine (balanced_holding_look _ (free _)).bind fun _ => ?_
    exact .ite (.holding (free _) (balanced_updateAt _ _ _)) (balanced_pure _)

include inTable

theorem balanced_dupFd (oldfd : Nat) : Balanced expects allowed [] (dupFd oldfd) := by
  refine .holding (free _) <| (balanced_look _).bind fun found => ?_
  refine (balanced_ofOption _ found).bind fun file => (balanced_look _).bind fun slot => ?_
  refine (balanced_ofOption _ slot).bind fun fd => ?_
  have shares : Balanced expects allowed [.fdTable] (cloneSocketFd oldfd fd) :=
    balanced_cloneSocketFd oldfd fd (inTable .socketAlias nofun)
  refine (balanced_whenSocket (inTable _ nofun) shares).bind fun _ => ?_
  exact (balanced_change _).bind fun _ => balanced_pure fd

include paths

theorem balanced_close (fd : Nat) : Balanced expects allowed [] (Locked.close fd) := by
  refine (balanced_forgetEpoll free fd).bind fun _ => ?_
  refine .holding (free _) <| (balanced_look _).bind fun found => ?_
  refine (balanced_ofOption _ found).bind fun file => ?_
  have cleans : Balanced expects allowed [.fdTable] (cleanupSocketFd fd) :=
    balanced_cleanupSocketFd inTable paths fd
  refine (balanced_whenSocket (inTable _ nofun) cleans).bind fun _ => ?_
  exact (balanced_change _).bind fun _ => balanced_pure 0

theorem balanced_dup3Fd (oldfd newfd flags : Nat) :
    Balanced expects allowed [] (dup3Fd oldfd newfd flags) := by
  refine .ite (balanced_throw _) <| .ite (balanced_throw _) ?_
  refine (balanced_getFile oldfd (free _)).bind fun file => ?_
  refine .holding (free _) <| .ite (balanced_throw _) ?_
  refine (balanced_releaseSocket inTable paths newfd).bind fun _ => ?_
  have shares : Balanced expects allowed [.fdTable] (cloneSocketFd oldfd newfd) :=
    balanced_cloneSocketFd oldfd newfd (inTable .socketAlias nofun)
  refine (balanced_whenSocket (inTable _ nofun) shares).bind fun _ => ?_
  exact (balanced_change _).bind fun _ => balanced_pure newfd

end Descriptors

/-! ### Calls that poll -/

/-- The descriptor table is not locked at a poll, and the polled file is no socket, so
that only the file is locked. -/
theorem balanced_readyMask (notSocket : ∀ file world,
      expects (.polledType file) world → (world.tables.objects file).ftype ≠ .Socket)
    (permits : ∀ lock, allowed held lock) (missing : Nat) (socketBits : Nat → Nat) (always : Nat)
    (hasInput : FileId → Bool) (fd : Int) (interest : Nat) :
    Balanced expects allowed held
      (readyMask missing socketBits always hasInput fd interest) := by
  refine (balanced_getFile fd (permits _)).attempt.bind ?_
  rintro (error | file)
  · exact balanced_pure _
  · refine .holding (permits _) <| balanced_readAt_bind fun world expected => ?_
    refine .bind ?_ fun _ => balanced_pure _
    have other := notSocket file world expected
    cases ftype : (world.tables.objects file).ftype with
    | Socket => exact absurd ftype other
    | _ => exact balanced_pure _

section Polling

variable (notSocket : ∀ file world,
    expects (.polledType file) world → (world.tables.objects file).ftype ≠ .Socket)
  (free : ∀ lock, allowed [] lock)

include notSocket free

theorem balanced_countReady (hasInput : FileId → Bool) (fds : List (Int × Nat)) :
    Balanced expects allowed [] (countReady hasInput fds) := by
  induction fds with
  | nil => exact balanced_pure _
  | cons polled rest ih =>
    refine .ite ih ?_
    refine (balanced_readyMask notSocket free _ _ _ _ _ _).bind fun _ => ?_
    exact ih.bind fun _ => balanced_pure _

theorem balanced_sysPpoll (fds : Except Errno (List (Int × Nat)))
    (rounds : List (FileId → Bool)) (written : Except Errno Unit) :
    Balanced expects allowed [] (sysPpoll fds rounds written) := by
  refine (balanced_given fds).bind fun fds => .ite (balanced_pure _) ?_
  induction rounds with
  | nil => exact (balanced_given written).bind fun _ => balanced_pure _
  | cons hasInput rounds ih =>
    refine (balanced_countReady notSocket free hasInput fds).bind fun _ => ?_
    exact .ite ((balanced_given written).bind fun _ => balanced_pure _) ih

theorem balanced_collectReady (hasInput : FileId → Bool) (watches : List (Int × EpollWatch))
    (room : Nat) : Balanced expects allowed [] (collectReady hasInput watches room) := by
  induction watches generalizing room with
  | nil => exact balanced_pure _
  | cons watched rest ih =>
    refine (balanced_readyMask notSocket free _ _ _ _ _ _).bind fun _ => ?_
    refine .ite (ih room) <| .ite (balanced_pure _) ?_
    exact (ih (room - 1)).bind fun _ => balanced_pure _

theorem balanced_epollPwait (epfd : Int) (events : Nat) (maxevents timeout : Int)
    (rounds : List (FileId → Bool)) (written : Except Errno Unit) :
    Balanced expects allowed [] (epollPwait epfd events maxevents timeout rounds written) := by
  refine .ite (balanced_throw _) <| .ite (balanced_throw _) ?_
  refine (balanced_getFile epfd (free _)).bind fun file => ?_
  refine (balanced_holding_look _ (free _)).bind fun _ => .ite (balanced_throw _) ?_
  induction rounds with
  | nil => exact balanced_pure _
  | cons hasInput rounds ih =>
    refine (Balanced.holding (free _) (balanced_readAt _ _)).bind fun snapshot => ?_
    refine (balanced_collectReady notSocket free hasInput snapshot _).bind fun _ => ?_
    exact .ite ((balanced_given written).bind fun _ => balanced_pure _) ih

end Polling

/-! ### Calls that name and connect sockets -/

section Naming

variable (free : ∀ lock, allowed [] lock)

include free

theorem balanced_bind_owner (fd : Int) {rest : Int → LockedCall α}
    (next : ∀ owner, Balanced expects allowed [] (rest owner)) :
    Balanced expects allowed [] (do ensureSocketFd fd; let owner ← ownerOf fd; rest owner) :=
  (balanced_ensureSocketFd fd free).bind fun _ => (balanced_ownerOf fd (free _)).bind next

theorem balanced_doSocket (caller : Caller) (domain sockType protocol : Int) :
    Balanced expects allowed [] (doSocket caller domain sockType protocol) :=
  .ite (balanced_throw _) (balanced_allocSocketFd caller domain sockType protocol free)

theorem balanced_doBind (aliases : allowed [.unixPathOwner] .socketAlias)
    (states : allowed [.unixPathOwner] .socketState) (fd : Int) (address : UserAddress) :
    Balanced expects allowed [] (doBind fd address) := by
  refine balanced_bind_owner free fd fun owner => ?_
  refine (balanced_stateOf owner (free _)).bind fun socket => .ite ?_ ?_
  · refine (balanced_given address.path).bind fun path => ?_
    refine .bind ?_ fun _ => ?_
    · refine .holding (free _) <| (balanced_look _).bind fun _ => ?_
      exact .ite (balanced_failSocket fd _ aliases states) (balanced_pure _)
    · refine (balanced_holding_change _ (free _)).bind fun _ => ?_
      refine (balanced_holding_change _ (free _)).bind fun _ => ?_
      exact (balanced_changeState owner _ (free _)).bind fun _ => balanced_pure _
  · refine (balanced_given address.inet).bind fun _ => ?_
    refine (balanced_holding_look _ (free _)).bind fun _ => ?_
    refine .ite (balanced_failSocket fd _ (free _) (free _)) ?_
    exact (balanced_changeState owner _ (free _)).bind fun _ => balanced_pure _

theorem balanced_doListen (pending : allowed [.socketState] .socketPending) (fd backlog : Int) :
    Balanced expects allowed [] (doListen fd backlog) := by
  refine balanced_bind_owner free fd fun owner => ?_
  refine .holding (free _) <| (balanced_look _).bind fun found => ?_
  refine (balanced_ofOption _ found).bind fun _ => .ite (balanced_throw _) ?_
  refine (balanced_change _).bind fun _ => ?_
  exact (balanced_holding_change _ pending).bind fun _ => balanced_pure _

theorem balanced_connectTo (fd owner listenerOwner : Int) (backlog : Nat)
    (connected : SocketState → SocketState) :
    Balanced expects allowed [] (connectTo fd owner listenerOwner backlog connected) := by
  refine .bind ?_ fun queue => ?_
  · refine .holding (free _) <| (balanced_look _).bind fun _ => ?_
    exact (balanced_change _).bind fun _ => balanced_pure _
  · refine .ite (balanced_pure _) <| .ite (balanced_failSocket fd _ (free _) (free _)) ?_
    exact (balanced_changeState owner _ (free _)).bind fun _ => balanced_pure _

/-- A lookup that finds a listener leaves no error to record under the lock. -/
theorem balanced_doConnect (found : ∀ port ip world,
      expects (.listenerLookup port ip) world → (listenerAt world.tables port ip).isSome)
    (fd : Int) (address : UserAddress) :
    Balanced expects allowed [] (doConnect fd address) := by
  refine balanced_bind_owner free fd fun owner => ?_
  refine (balanced_stateOf owner (free _)).bind fun socket => ?_
  refine (balanced_holding_look _ (free _)).bind fun _ => ?_
  refine .ite (balanced_failSocket fd _ (free _) (free _)) <| .ite ?_ ?_
  · refine (balanced_given address.path).bind fun path => ?_
    refine (balanced_holding_look _ (free _)).bind fun listening => ?_
    refine (balanced_ofOption _ listening).bind fun listenerOwner => ?_
    refine .ite (balanced_failSocket fd _ (free _) (free _)) ?_
    refine (balanced_stateOf listenerOwner (free _)).bind fun listener => ?_
    exact .ite (balanced_failSocket fd _ (free _) (free _)) (balanced_connectTo free _ _ _ _ _)
  · refine (balanced_given address.inet).bind fun ⟨port, ip⟩ => ?_
    refine .bind ?_ fun listenerOwner => ?_
    · refine .holding (free _) <| balanced_readAt_bind fun world expected => ?_
      obtain ⟨listenerOwner, present⟩ := Option.isSome_iff_exists.mp (found port ip world expected)
      rw [present]
      exact balanced_pure _
    · refine .ite (balanced_failSocket fd _ (free _) (free _)) ?_
      refine (balanced_holding_look _ (free _)).bind fun _ => ?_
      exact balanced_connectTo free _ _ _ _ _

theorem balanced_awaitClient (fd listenerOwner : Int) (nonblock : Bool) (rounds : Nat) :
    Balanced expects allowed [] (awaitClient fd listenerOwner nonblock rounds) := by
  induction rounds with
  | zero => exact balanced_stuck
  | succ rounds ih =>
    refine .bind ?_ fun first => ?_
    · refine .holding (free _) <| (balanced_look _).bind fun found => ?_
      exact (balanced_ofOption _ found).bind fun _ => balanced_pure _
    · cases first with
      | some clientOwner => exact balanced_pure _
      | none => exact .ite (balanced_failSocket fd _ (free _) (free _)) ih

theorem balanced_markNonblocking (fd flags : Nat) :
    Balanced expects allowed [] (markNonblocking fd flags) := by
  refine .ite ((balanced_getFile fd (free _)).attempt.bind ?_) (balanced_pure _)
  rintro (error | file)
  · exact balanced_pure _
  · exact balanced_holding_change _ (free _)

section

variable
  (waiting : ∀ listenerOwner clientOwner world, expects (.pendingRecheck listenerOwner clientOwner)
    world → (world.tables.socketPending[listenerOwner]?).any (clientOwner ∉ ·) = false)

include waiting

/-- A client that is still in the queue leaves nothing to clean up under the lock. -/
theorem balanced_dequeueClient (listenerOwner clientOwner : Int) (acceptedFd : Nat) :
    Balanced expects allowed [] (dequeueClient listenerOwner clientOwner acceptedFd) := by
  refine .holding (free _) <| balanced_readAt_bind fun world expected => ?_
  rw [waiting listenerOwner clientOwner world expected, if_neg Bool.false_ne_true]
  exact balanced_change _

theorem balanced_doAccept4 (caller : Caller) (fd : Int) (addr addrlen flags rounds : Nat)
    (reported : Except Errno Unit) :
    Balanced expects allowed [] (doAccept4 caller fd addr addrlen flags rounds reported) := by
  refine balanced_bind_owner free fd fun listenerOwner => ?_
  refine (balanced_stateOf listenerOwner (free _)).bind fun listener => ?_
  refine .ite (balanced_throw _) <| (balanced_isNonblockingFd fd free).bind fun _ => ?_
  refine (balanced_awaitClient free fd listenerOwner _ rounds).bind fun clientOwner => ?_
  refine (balanced_allocSocketFd caller _ _ _ free).bind fun acceptedFd => ?_
  refine (balanced_markNonblocking free acceptedFd flags).bind fun _ => ?_
  refine (balanced_ownerOf acceptedFd (free _)).bind fun acceptedOwner => ?_
  refine (balanced_dequeueClient free waiting _ _ acceptedFd).bind fun _ => ?_
  refine .bind ?_ fun _ => .bind ?_ fun _ => ?_
  · refine .holding (free _) <| (balanced_look _).bind fun found => ?_
    exact (balanced_ofOption _ found).bind fun _ => balanced_change _
  · refine .ite ?_ (balanced_pure _)
    exact (balanced_stateOf clientOwner (free _)).bind fun _ => balanced_given reported
  · exact (balanced_setSocketError fd 0 (free _) (free _)).bind fun _ => balanced_pure _

end

end Naming

/-! ### Calls that move messages -/

section Messages

variable (free : ∀ lock, allowed [] lock) (table : allowed [.socketRights] .fdTable)

include free

theorem balanced_awaitBytes (fd owner : Int) (rounds : Nat) :
    Balanced expects allowed [] (awaitBytes fd owner rounds) := by
  induction rounds with
  | zero => exact balanced_stuck
  | succ rounds ih =>
    refine (Balanced.holding (free _) (balanced_updateAt _ _ _)).bind fun queue => ?_
    refine .ite (balanced_pure _) <| (balanced_isNonblockingFd fd free).bind fun _ => ?_
    exact .ite (balanced_failSocket fd _ (free _) (free _)) ih

include table

theorem balanced_queueRights (peer : Int) (fds : List Int) :
    Balanced expects allowed [] (queueRights peer fds) := by
  refine .holding (free _) <| (balanced_change _).bind fun _ => balanced_forEach (fun fd => ?_) fds
  refine .ite ((balanced_getFile fd table).attempt.bind ?_) (balanced_pure _)
  rintro (error | file)
  · exact balanced_pure _
  · exact balanced_change _

theorem balanced_takeRights (owner : Int) (controllen : Nat) (written : Except Errno Unit) :
    Balanced expects allowed [] (takeRights owner controllen written) := by
  refine .holding (free _) <| (balanced_change _).bind fun _ => ?_
  refine (balanced_look _).bind fun pending => ?_
  refine .ite (.bind ?_ fun _ => ?_) (balanced_pure _)
  · refine balanced_forEach (fun file => ?_) _
    exact (balanced_allocFd file table).attempt.bind fun _ => balanced_pure _
  · exact (balanced_given written).bind fun _ => balanced_change _

theorem balanced_doSendmsg (fd : Int) (message : Except Errno SentMessage) :
    Balanced expects allowed [] (doSendmsg fd message) := by
  refine balanced_bind_owner free fd fun owner => ?_
  refine (balanced_stateOf owner (free _)).bind fun socket => ?_
  refine .ite (balanced_failSocket fd _ (free _) (free _)) ?_
  refine (balanced_given message).bind fun message => ?_
  refine .bind (.ite (balanced_holding_change _ (free _)) (balanced_pure _)) fun _ => ?_
  refine (balanced_given message.rights).bind fun rights => ?_
  refine (balanced_forEach (balanced_queueRights free table _) rights).bind fun _ => ?_
  exact (balanced_setSocketError fd 0 (free _) (free _)).bind fun _ => balanced_pure _

theorem balanced_receiveRights (owner : Int) (message : ReceivedMessage) :
    Balanced expects allowed [] (receiveRights owner message) := by
  unfold receiveRights
  cases message.control with
  | none => exact balanced_pure _
  | some controllen => exact balanced_takeRights free table owner controllen _

theorem balanced_doRecvmsg (fd : Int) (message : Except Errno ReceivedMessage) (rounds : Nat) :
    Balanced expects allowed [] (doRecvmsg fd message rounds) := by
  refine balanced_bind_owner free fd fun owner => ?_
  refine (balanced_given message).bind fun message => ?_
  refine (balanced_awaitBytes free fd owner rounds).bind fun _ => ?_
  refine (balanced_given message.scattered).bind fun copied => ?_
  refine (balanced_receiveRights free table owner message).bind fun _ => ?_
  refine (balanced_given message.headerWritten).bind fun _ => ?_
  exact (balanced_setSocketError fd 0 (free _) (free _)).bind fun _ => balanced_pure _

end Messages

end Cyllor.Net.Locked
