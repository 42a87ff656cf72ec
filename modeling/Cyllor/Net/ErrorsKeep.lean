import Cyllor.Net.System

/-!
Contract: what a failed call that opens descriptors leaves behind (`pipe2` of
`fs/mod.rs`, `do_socketpair` and `do_accept4` of `net/mod.rs`).

Owns:
- `SameTables`, that descriptors and socket tables are as before;
- for each of the three calls the exact condition on its arguments and on the
  state before under which an error changes nothing.
-/

namespace Cyllor.Net

open Cyllor.Fs Cyllor.Syscall Tables
open Call hiding pure bind

structure SameTables (before after : Tables) : Prop where
  fds : after.fds = before.fds
  socketState : after.socketState = before.socketState
  socketPending : after.socketPending = before.socketPending
  socketRx : after.socketRx = before.socketRx
  socketAlias : after.socketAlias = before.socketAlias
  unixPathOwner : after.unixPathOwner = before.unixPathOwner
  ownerUnixPath : after.ownerUnixPath = before.ownerUnixPath
  socketRights : after.socketRights = before.socketRights

/-- If the call returns an error, descriptors and socket tables are as before. -/
def ErrorsKeep {α : Type} (call : NetCall α) (tables : Tables) : Prop :=
  ∀ error after, call tables = some (.error error, after) → SameTables tables after

/-- What is asked of an outcome: an error leaves the tables as they were at the start. -/
def keptOnError {α : Type} (start : Tables) : Except Errno α → Tables → Prop
  | .ok _, _ => True
  | .error _, after => SameTables start after

section Rules

variable {α : Type} {start tables : Tables}

theorem errorsKeep_iff (call : NetCall α) :
    ErrorsKeep call tables ↔ wp call (keptOnError tables) tables := by
  constructor
  · intro keeps result after returned
    cases result with
    | ok value => trivial
    | error error => exact keeps error after returned
  · intro holds error after returned
    exact holds (.error error) after returned

theorem SameTables.refl (tables : Tables) : SameTables tables tables :=
  ⟨rfl, rfl, rfl, rfl, rfl, rfl, rfl, rfl⟩

theorem isSome_install {fds : FdTable} {fd key : Nat} {file : FileId} {cloexec : Bool}
    (opened : key = fd ∨ (fds.files key).isSome) :
    ((fds.install fd file cloexec).files key).isSome := by
  simp only [FdTable.install, Function.update_apply]
  split
  case isTrue => rfl
  case isFalse other => exact opened.resolve_left other

/-- Once a descriptor is opened, an error does not leave the tables as they were. -/
theorem not_sameTables_of_opened {fd : Nat} (free : start.fds.files fd = none)
    (opened : (tables.fds.files fd).isSome) : ¬ SameTables start tables := by
  intro same
  rw [same.fds, free] at opened
  cases opened

/-- A copy after which errors count, on tables that have changed, must not fail. -/
theorem wp_onUser_iff {call : UserCall α}
    (changed : ∀ user, ¬ SameTables start { tables with user := user }) :
    wp (onUser call) (keptOnError start) tables ↔ ¬ UserCall.Fails call tables.user := by
  rw [onUser, wp_zoom]
  constructor
  · rintro holds ⟨error, after, failed⟩
    exact changed after (holds (.error error) after failed)
  · intro succeeds result after returned
    cases result with
    | ok value => trivial
    | error error => exact absurd ⟨error, after, returned⟩ succeeds

theorem wp_bind_onUser_iff {β : Type} {call : UserCall α} {rest : α → NetCall β}
    (changed : ∀ user, ¬ SameTables start { tables with user := user })
    (returns : ∀ value after, wp (rest value) (keptOnError start) after) :
    wp (onUser call >>= rest) (keptOnError start) tables ↔
      ¬ UserCall.Fails call tables.user := by
  rw [← wp_onUser_iff changed, wp_bind]
  constructor
  · intro holds result after returned
    cases result with
    | ok value => trivial
    | error error => exact holds (.error error) after returned
  · intro holds result after returned
    cases result with
    | ok value => exact returns value after
    | error error => exact holds (.error error) after returned

end Rules

section Calls

variable {tables : Tables}

theorem nextFds_two (fds : FdTable) :
    nextFds fds 2 =
      match fds.lowestFree 3 with
      | none => []
      | some first =>
        match (fds.install first 0 false).lowestFree 3 with
        | none => [first]
        | some second => [first, second] := by
  rw [nextFds]
  cases fds.lowestFree 3 with
  | none => rfl
  | some first =>
    dsimp only
    rw [nextFds]
    cases (fds.install first 0 false).lowestFree 3 <;> rfl

/-! The allocations, once it is known whether there is a free descriptor. -/

section Allocation

variable {α : Type} {rest : Nat → NetCall α} {post : Except Errno α → Tables → Prop}

theorem wp_bind_newFile {rest : FileId → NetCall α} (object : FileObject) :
    wp (newFile object >>= rest) post tables ↔
      wp (rest tables.nextFile) post
        { tables with
          objects := Function.update tables.objects tables.nextFile object
          nextFile := tables.nextFile + 1 } := by
  rw [wp_bind, wp_newFile]

theorem wp_bind_allocFd_none (full : tables.fds.lowestFree 3 = none) (file : FileId) :
    wp (allocFd file >>= rest) post tables ↔ post (.error .EMFILE) tables := by
  rw [allocFd, wp_bind, wp_allocFdFromCloexec]
  simp [full]

theorem wp_bind_allocFd_some {fd : Nat} (free : tables.fds.lowestFree 3 = some fd)
    (file : FileId) :
    wp (allocFd file >>= rest) post tables ↔
      wp (rest fd) post { tables with fds := tables.fds.install fd file false } := by
  rw [allocFd, wp_bind, wp_allocFdFromCloexec]
  simp [free]

theorem wp_bind_allocSocketFd_none (full : tables.fds.lowestFree 3 = none) (caller : Caller)
    (domain sockType protocol : Int) :
    wp (allocSocketFd caller domain sockType protocol >>= rest) post tables ↔
      post (.error .EMFILE)
        { tables with
          objects := Function.update tables.objects tables.nextFile ⟨.Socket, 0⟩
          nextFile := tables.nextFile + 1 } := by
  rw [wp_bind, wp_allocSocketFd]
  simp [full]

theorem wp_bind_allocSocketFd_some {fd : Nat} (free : tables.fds.lowestFree 3 = some fd)
    (caller : Caller) (domain sockType protocol : Int) :
    wp (allocSocketFd caller domain sockType protocol >>= rest) post tables ↔
      wp (rest fd) post
        (tables.withNewSocket fd (freshSocket caller domain sockType protocol)) := by
  rw [wp_bind, wp_allocSocketFd]
  simp [free]

end Allocation

theorem wp_bind_storeUser {α : Type} {start : Tables} {rest : Unit → NetCall α} (addr : Nat)
    (bytes : List UInt8) (returns : ∀ after, wp (rest ()) (keptOnError start) after) :
    wp (onUser (storeUser addr bytes) >>= rest) (keptOnError start) tables := by
  rw [wp_bind, onUser, wp_zoom]
  refine wp_mono (not_fails_storeUser addr bytes tables.user) ?_
  rintro _ after rfl
  exact returns _

/-- `pipe2` fails without a trace unless there is exactly one free descriptor. -/
theorem errorsKeep_pipe2 (tables : Tables) (pipefd : Nat) :
    ErrorsKeep (pipe2 pipefd) tables ↔ (nextFds tables.fds 2).length ≠ 1 := by
  rw [errorsKeep_iff, nextFds_two, pipe2, wp_bind_newFile, wp_bind_newFile]
  cases first : tables.fds.lowestFree 3 with
  | none =>
    rw [wp_bind_allocFd_none (by exact first)]
    exact iff_of_true ⟨rfl, rfl, rfl, rfl, rfl, rfl, rfl, rfl⟩ (by simp)
  | some rfd =>
    rw [wp_bind_allocFd_some (by exact first)]
    have free := (FdTable.lowestFree_eq_some first).2
    have stored := FdTable.lowestFree_install tables.fds 3 rfd tables.nextFile 0 false false
    cases second : (tables.fds.install rfd 0 false).lowestFree 3 with
    | none =>
      rw [wp_bind_allocFd_none (by exact stored.trans second)]
      exact iff_of_false (not_sameTables_of_opened free (isSome_install (.inl rfl)))
        (by simp [second])
    | some wfd =>
      rw [wp_bind_allocFd_some (by exact stored.trans second)]
      refine iff_of_true ?_ (by simp [second])
      exact wp_bind_storeUser _ _ fun _ => wp_bind_storeUser _ _ fun _ =>
        (wp_pure _).mpr trivial

/-- When an error of `do_socketpair` changes nothing: its arguments are refused, there is no
free descriptor, or there are two and the copy of their numbers does not fail. -/
def PairSafe (tables : Tables) (domain : Int) (sv : Nat) : Prop :=
  domain = AF_UNIX → sv ≠ 0 →
    match nextFds tables.fds 2 with
    | [] => True
    | [_] => False
    | fd0 :: fd1 :: _ =>
      ¬ UserCall.Fails (copyToUser sv (leBytes 4 fd0 ++ leBytes 4 fd1)) tables.user

theorem errorsKeep_doSocketpair (tables : Tables) (caller : Caller)
    (domain sockType protocol : Int) (sv : Nat) :
    ErrorsKeep (doSocketpair caller domain sockType protocol sv) tables ↔
      PairSafe tables domain sv := by
  rw [errorsKeep_iff, PairSafe, doSocketpair]
  split
  case isTrue isOther =>
    rw [wp_throw]
    exact iff_of_true (.refl tables) fun isUnix => absurd isUnix isOther
  case isFalse isUnix =>
  split
  case isTrue isNull =>
    rw [wp_throw]
    exact iff_of_true (.refl tables) fun _ notNull => absurd isNull notNull
  case isFalse notNull =>
  rw [nextFds_two, forall_prop_of_true (not_not.mp isUnix), forall_prop_of_true notNull]
  cases first : tables.fds.lowestFree 3 with
  | none =>
    rw [wp_bind_allocSocketFd_none first]
    exact iff_of_true ⟨rfl, rfl, rfl, rfl, rfl, rfl, rfl, rfl⟩ trivial
  | some fd0 =>
    rw [wp_bind_allocSocketFd_some first]
    have free := (FdTable.lowestFree_eq_some first).2
    have stored := FdTable.lowestFree_install tables.fds 3 fd0 tables.nextFile 0 false false
    cases second : (tables.fds.install fd0 0 false).lowestFree 3 with
    | none =>
      rw [wp_bind_allocSocketFd_none (by exact stored.trans second)]
      simp only [second]
      exact iff_of_false (not_sameTables_of_opened free (isSome_install (.inl rfl))) id
    | some fd1 =>
      rw [wp_bind_allocSocketFd_some (by exact stored.trans second), wp_bind_gets,
        wp_bind_gets, wp_bind_modify]
      simp only [second]
      rw [wp_bind_onUser_iff]
      · rfl
      · exact fun user =>
          not_sameTables_of_opened free (isSome_install (.inr (isSome_install (.inl rfl))))
      · exact fun _ _ => (wp_pure _).mpr trivial

/-! ### `do_accept4` -/

/-- When an error of `do_accept4` after a descriptor was opened changes nothing: never, so the
client must have a socket state and its address must be written, if asked for. A client with
the number of the new socket is that socket, and has the listener's address. -/
def JoinSafe (tables : Tables) (addr addrlen : Nat) (listener : SocketState)
    (clientOwner : Int) (acceptedFd : Nat) : Prop :=
  match if clientOwner = acceptedFd then some listener else tables.socketState[clientOwner]? with
  | none => False
  | some named => addr ≠ 0 → addrlen ≠ 0 →
      ¬ UserCall.Fails (writeSockaddrIn addr addrlen named.localPort named.localAddr) tables.user

/-- When an error of `do_accept4` changes nothing. An empty queue is reported in the last error
of the listener, which must be that error already. -/
def AcceptSafe (tables : Tables) (fd : Int) (addr addrlen flags : Nat) : Prop :=
  (∃ number file, fd = (number : Nat) ∧ tables.OpenSocket number file) →
    ∀ listener, tables.socketState[tables.ownerOf fd]? = some listener →
      listener.listening = true →
        ∀ queue, tables.socketPending[tables.ownerOf fd]? = some queue →
          match queue with
          | [] =>
            (tables.isNonblockingFd fd || decide (flags &&& SOCK_NONBLOCK ≠ 0)) = true →
              listener.lastError = Errno.EAGAIN.code
          | clientOwner :: _ =>
            ∀ acceptedFd, tables.fds.lowestFree 3 = some acceptedFd →
              JoinSafe tables addr addrlen listener clientOwner acceptedFd

/-- Recording an error changes nothing when it was the last error already. -/
theorem sameTables_setSocketError {fd : Int} {listener : SocketState} {error : Int}
    (stated : tables.socketState[tables.ownerOf fd]? = some listener) :
    SameTables tables (tables.setSocketError fd error) ↔ listener.lastError = error := by
  have changed : (tables.setSocketError fd error).socketState[tables.ownerOf fd]? =
      some { listener with lastError := error } := by
    simp [setSocketError, updateState, stated]
  constructor
  · intro same
    rw [same.socketState, stated] at changed
    exact congrArg SocketState.lastError (Option.some.inj changed)
  · rintro rfl
    refine ⟨rfl, ?_, rfl, rfl, rfl, rfl, rfl, rfl⟩
    ext1 key
    by_cases same : tables.ownerOf fd = key
    · subst same
      rw [changed, stated]
    · simp [setSocketError, updateState, Std.ExtTreeMap.getElem?_modify, same]

theorem fails_reportClient {addr addrlen : Nat} {client : SocketState} {memory : UserMemory} :
    UserCall.Fails (reportClient addr addrlen (some client)) memory ↔
      addr ≠ 0 ∧ addrlen ≠ 0 ∧
        UserCall.Fails (writeSockaddrIn addr addrlen client.localPort client.localAddr) memory := by
  rw [reportClient]
  split
  case isTrue asked => exact ⟨fun fails => ⟨asked.1, asked.2, fails⟩, fun fails => fails.2.2⟩
  case isFalse asked =>
    constructor
    · rintro ⟨error, after, returned⟩
      cases returned
    · rintro ⟨notNull, notZero, _⟩
      exact absurd ⟨notNull, notZero⟩ asked

theorem exists_objects_markNonblocking (tables : Tables) (fd flags : Nat) :
    ∃ objects, tables.markNonblocking fd flags = { tables with objects := objects } := by
  unfold markNonblocking
  split
  · split
    · exact ⟨_, rfl⟩
    · exact ⟨tables.objects, rfl⟩
  · exact ⟨tables.objects, rfl⟩

/-- The tables once `do_accept4` has opened its descriptor, as far as the rest of it reads
them. -/
structure Opened (tables : Tables) (acceptedFd : Nat) (opened : Tables) : Prop where
  free : tables.fds.files acceptedFd = none
  user : opened.user = tables.user
  isOpen : (opened.fds.files acceptedFd).isSome
  ownerOf : opened.ownerOf acceptedFd = acceptedFd
  pending : ∀ {owner : Int} {queue : List Int}, tables.socketPending[owner]? = some queue →
    opened.socketPending[owner]? = some queue
  accepted : (opened.socketState[(acceptedFd : Int)]?).isSome
  state : ∀ {owner : Int}, owner ≠ acceptedFd →
    opened.socketState[owner]? = tables.socketState[owner]?

theorem opened_withNewSocket {acceptedFd : Nat}
    (free : tables.fds.lowestFree 3 = some acceptedFd) (socket : SocketState) (flags : Nat) :
    Opened tables acceptedFd
      ((tables.withNewSocket acceptedFd socket).markNonblocking acceptedFd flags) := by
  obtain ⟨objects, isMarked⟩ :=
    exists_objects_markNonblocking (tables.withNewSocket acceptedFd socket) acceptedFd flags
  rw [isMarked]
  refine ⟨(FdTable.lowestFree_eq_some free).2, rfl, isSome_install (.inl rfl), ?_, ?_, ?_, ?_⟩
  · simp [ownerOf, withNewSocket, addSocket]
  · intro owner queue queued
    have isKey : owner ∈ tables.socketPending := by
      rw [Std.ExtTreeMap.mem_iff_isSome_getElem?, queued]
      rfl
    simp only [withNewSocket, addSocket, Std.ExtTreeMap.getElem?_insertIfNew]
    rw [if_neg, queued]
    rintro ⟨same, absent⟩
    exact absent (Std.LawfulEqOrd.eq_of_compare same ▸ isKey)
  · simp [withNewSocket, addSocket]
  · intro owner differs
    simp [withNewSocket, addSocket, Std.ExtTreeMap.getElem?_insert, differs.symm]

theorem wp_report {start after : Tables}
    (changed : ∀ user, ¬ SameTables start { after with user := user })
    (sameUser : after.user = start.user) (fd : Int) (addr addrlen acceptedFd : Nat)
    (joined : SocketState) :
    wp (do
        onUser (reportClient addr addrlen (some joined))
        Call.modify fun tables => tables.setSocketError fd 0
        return acceptedFd : NetCall Nat) (keptOnError start) after ↔
      (addr ≠ 0 → addrlen ≠ 0 → ¬ UserCall.Fails
        (writeSockaddrIn addr addrlen joined.localPort joined.localAddr) start.user) := by
  rw [← sameUser, wp_bind_onUser_iff changed, fails_reportClient, not_and, not_and]
  intro _ last
  rw [wp_bind_modify, wp_pure]
  trivial

theorem errorsKeep_acceptClient (tables : Tables) (caller : Caller) (fd : Int)
    (addr addrlen flags : Nat) {listenerOwner clientOwner : Int} {listener : SocketState}
    {rest : List Int} (queued : tables.socketPending[listenerOwner]? = some (clientOwner :: rest)) :
    ErrorsKeep (acceptClient caller fd addr addrlen flags listenerOwner listener clientOwner)
        tables ↔
      ∀ acceptedFd, tables.fds.lowestFree 3 = some acceptedFd →
        JoinSafe tables addr addrlen listener clientOwner acceptedFd := by
  rw [errorsKeep_iff, acceptClient]
  cases free : tables.fds.lowestFree 3 with
  | none =>
    rw [wp_bind_allocSocketFd_none free]
    exact iff_of_true ⟨rfl, rfl, rfl, rfl, rfl, rfl, rfl, rfl⟩ fun _ found => by cases found
  | some acceptedFd =>
  have isOpened := opened_withNewSocket free
    (freshSocket caller listener.domain listener.sockType listener.protocol) flags
  rw [wp_bind_allocSocketFd_some free, wp_bind_modify]
  generalize markNonblocking _ acceptedFd flags = opened at isOpened
  have changed (after : Tables) (same : after.fds = opened.fds) : ¬ SameTables tables after :=
    not_sameTables_of_opened isOpened.free (same ▸ isOpened.isOpen)
  rw [wp_bind_gets, wp_bind_gets, isOpened.ownerOf, isOpened.pending queued]
  simp only [Option.any_some, List.mem_cons, true_or, not_true_eq_false, decide_false,
    Bool.false_eq_true, if_false]
  rw [wp_bind_modify, wp_bind_gets, wp_bind_ofOption]
  have only : (∀ other, some acceptedFd = some other →
      JoinSafe tables addr addrlen listener clientOwner other) ↔
      JoinSafe tables addr addrlen listener clientOwner acceptedFd :=
    ⟨fun safe => safe acceptedFd rfl, fun safe other found => Option.some.inj found ▸ safe⟩
  rw [only, JoinSafe]
  dsimp only
  by_cases same : clientOwner = acceptedFd
  case pos =>
    obtain ⟨fresh, isFresh⟩ := Option.isSome_iff_exists.mp isOpened.accepted
    rw [← same] at isFresh
    rw [if_pos same, isFresh]
    simp only [Option.some.injEq, reduceCtorEq, false_implies, true_and, forall_eq']
    rw [wp_bind_modify, wp_bind_gets, ← same]
    simp only [updateState, Std.ExtTreeMap.getElem?_modify, Std.ReflCmp.compare_self,
      if_true, isFresh, Option.map_some]
    rw [wp_report (fun user => changed _ (by rfl)) (by exact isOpened.user)]
    rfl
  case neg =>
    rw [if_neg same, isOpened.state same]
    cases found : tables.socketState[clientOwner]? with
    | none =>
      refine iff_of_false ?_ id
      rintro ⟨fails, _⟩
      exact changed _ (by rfl) (fails rfl)
    | some client =>
      have isClient := (isOpened.state same).trans found
      have elsewhere : ¬ compare (acceptedFd : Int) clientOwner = .eq := fun isSame =>
        same (Std.LawfulEqOrd.eq_of_compare isSame).symm
      simp only [Option.some.injEq, reduceCtorEq, false_implies, true_and, forall_eq']
      rw [wp_bind_modify, wp_bind_gets]
      simp only [updateState, Std.ExtTreeMap.getElem?_modify, elsewhere, if_false,
        Std.ReflCmp.compare_self, if_true, isClient, Option.map_some]
      rw [wp_report (fun user => changed _ (by rfl)) (by exact isOpened.user)]
      rfl

theorem wp_bind_ensureSocketFd_iff {α : Type} {rest : Unit → NetCall α} (fd : Int) :
    wp (ensureSocketFd fd >>= rest) (keptOnError tables) tables ↔
      ((∃ number file, fd = (number : Nat) ∧ tables.OpenSocket number file) →
        wp (rest ()) (keptOnError tables) tables) := by
  constructor
  · rintro holds ⟨number, file, rfl, opened, isSocket⟩
    simp only [wp_bind, ensureSocketFd, wp_getFile, wp_gets, wp_ite] at holds
    exact (wp_pure _).mp ((holds.2 file opened).1 isSocket)
  · intro holds
    rw [wp_bind]
    refine wp_ensureSocketFd (fun _ => .refl tables) fun number file isNumber opened isSocket => ?_
    exact holds ⟨number, file, isNumber, opened, isSocket⟩

theorem errorsKeep_doAccept4 (tables : Tables) (caller : Caller) (fd : Int)
    (addr addrlen flags : Nat) :
    ErrorsKeep (doAccept4 caller fd addr addrlen flags) tables ↔
      AcceptSafe tables fd addr addrlen flags := by
  rw [errorsKeep_iff, AcceptSafe, doAccept4, wp_bind_ensureSocketFd_iff]
  refine imp_congr_right fun _ => ?_
  rw [wp_bind, wp_socketOf]
  refine (and_iff_right fun _ => SameTables.refl tables).trans ?_
  refine forall_congr' fun listener => imp_congr_right fun stated => ?_
  dsimp only
  cases listening : listener.listening with
  | false =>
    rw [if_pos (by rfl), wp_throw]
    exact iff_of_true (.refl tables) fun isListening => by cases isListening
  | true =>
    rw [if_neg (by simp), forall_prop_of_true rfl, wp_bind_gets, wp_bind_ofOption]
    refine (and_iff_right fun _ => SameTables.refl tables).trans ?_
    refine forall_congr' fun queue => imp_congr_right fun queued => ?_
    cases queue with
    | nil =>
      dsimp only
      rw [wp_bind_gets, wp_ite, failSocket, wp_bind_modify, wp_throw]
      have kept := @sameTables_setSocketError tables fd listener Errno.EAGAIN.code stated
      constructor
      · intro holds nonblocking
        exact kept.mp (holds.1 nonblocking)
      · intro safe
        exact ⟨fun nonblocking => kept.mpr (safe nonblocking), fun _ => wp_hang⟩
    | cons clientOwner rest =>
      dsimp only
      rw [← errorsKeep_iff, errorsKeep_acceptClient tables caller fd addr addrlen flags queued]

/-- When a failed call leaves descriptors and socket tables as they were: `pipe2` unless exactly
one descriptor is free, `do_socketpair` and `do_accept4` as `PairSafe` and `AcceptSafe` say. -/
theorem errors_keep_iff (tables : Tables) (caller : Caller) :
    (∀ pipefd, ErrorsKeep (pipe2 pipefd) tables ↔ (nextFds tables.fds 2).length ≠ 1) ∧
    (∀ domain sockType protocol sv,
      ErrorsKeep (doSocketpair caller domain sockType protocol sv) tables ↔
        PairSafe tables domain sv) ∧
    ∀ fd addr addrlen flags, ErrorsKeep (doAccept4 caller fd addr addrlen flags) tables ↔
      AcceptSafe tables fd addr addrlen flags :=
  ⟨errorsKeep_pipe2 tables, errorsKeep_doSocketpair tables caller,
    errorsKeep_doAccept4 tables caller⟩

/-- Every descriptor but one is open. -/
def oneLeft : Tables :=
  { boot with
    fds :=
      { files := fun fd => if fd = 1023 then none else some 0
        cloexec := fun _ => false } }

/-- A client waits in the queue of the listening socket 3. -/
def connectClient : List Event :=
  [.byRoot [] (.socket AF_UNIX 1 0), .byRoot [(4096, [1, 0, 97, 0])] (.bind 3 4096 4),
    .byRoot [] (.listen 3 1), .byRoot [] (.socket AF_UNIX 1 0),
    .byRoot [(4096, [1, 0, 97, 0])] (.connect 4 4096 4)]

/-- A failed `pipe2` keeps the last descriptor, a failed `socketpair` two sockets, and a failed
`accept4` a socket while the client is gone from the queue. -/
theorem failed_calls_keep_descriptors :
    (∃ after, pipe2 4096 oneLeft = some (.error .EMFILE, after) ∧
      oneLeft.fds.get? 1023 = none ∧ after.fds.get? 1023 = some 3) ∧
    (∃ after, doSocketpair (Event.byRoot [] (.close 0)).caller AF_UNIX 1 0 4096 boot =
        some (.error .EFAULT, after) ∧
      boot.fds.get? 3 = none ∧ after.fds.get? 3 = some 3 ∧ after.fds.get? 4 = some 4 ∧
      (after.socketState[(3 : Int)]?).isSome) ∧
    ∃ before after, run boot connectClient = some before ∧
      before.perform (.byRoot [] (.accept4 3 4096 8192 0)) = some (.error .EFAULT, after) ∧
      QueueMap.queueAt before.socketPending 3 = [4] ∧
      QueueMap.queueAt after.socketPending 3 = [] ∧
      before.fds.get? 5 = none ∧ after.fds.get? 5 = some 5 := by
  simp only [exists_and_left]
  decide +kernel

end Calls

end Cyllor.Net
