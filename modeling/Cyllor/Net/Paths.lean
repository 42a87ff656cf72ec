import Cyllor.Net.System

/-!
Contract: the names of `AF_UNIX` sockets (`net/mod.rs`: `UNIX_PATH_OWNER`,
`OWNER_UNIX_PATH`).

Owns:
- `PathsSound`, that the two tables are inverse to each other and name sockets
  that are there;
- the condition on `bind` under which runs of all socket calls keep it, and the
  condition on new sockets under which the sockets named are also bound;
- the run in which a socket is bound twice and closed.
-/

namespace Cyllor.Net

open Cyllor.Fs Cyllor.Syscall
open Call hiding pure bind
open Function (update update_self update_of_ne)

namespace Tables

/-- The two tables of names are inverse to each other, and every owner named has a socket
state; a bound one, if that is asked for. -/
structure PathsSound (asked : Prop) (tables : Tables) : Prop where
  inverse : ∀ {path owner}, tables.unixPathOwner path = some owner ↔
    tables.ownerUnixPath owner = some path
  stated : ∀ {owner path}, tables.ownerUnixPath owner = some path →
    ∃ socket : SocketState, tables.socketState[owner]? = some socket ∧ (asked → socket.bound = true)

/-- The names stay, and so do the sockets, those that are bound as bound ones. -/
structure KeepsPaths (before after : Tables) : Prop where
  unixPathOwner : after.unixPathOwner = before.unixPathOwner
  ownerUnixPath : after.ownerUnixPath = before.ownerUnixPath
  state : ∀ {owner : Int} {socket : SocketState}, before.socketState[owner]? = some socket →
    ∃ later : SocketState, after.socketState[owner]? = some later ∧
      (socket.bound = true → later.bound = true)

instance : IsPreorder Tables KeepsPaths where
  refl tables := ⟨rfl, rfl, fun stated => ⟨_, stated, id⟩⟩
  trans first second third toSecond toThird := by
    refine ⟨toThird.unixPathOwner.trans toSecond.unixPathOwner,
      toThird.ownerUnixPath.trans toSecond.ownerUnixPath, ?_⟩
    intro owner socket stated
    obtain ⟨later, laterStated, stillBound⟩ := toSecond.state stated
    obtain ⟨last, lastStated, finallyBound⟩ := toThird.state laterStated
    exact ⟨last, lastStated, fun isBound => finallyBound (stillBound isBound)⟩

section Keeps

variable {asked : Prop} {tables before after : Tables}

theorem KeepsPaths.refl (tables : Tables) : KeepsPaths tables tables := Std.Refl.refl tables

theorem KeepsPaths.trans {middle : Tables} (first : KeepsPaths before middle)
    (second : KeepsPaths middle after) : KeepsPaths before after := IsTrans.trans _ _ _ first second

theorem KeepsPaths.of_eq (unixPathOwner : after.unixPathOwner = before.unixPathOwner)
    (ownerUnixPath : after.ownerUnixPath = before.ownerUnixPath)
    (socketState : after.socketState = before.socketState) : KeepsPaths before after :=
  ⟨unixPathOwner, ownerUnixPath, fun stated => ⟨_, socketState ▸ stated, id⟩⟩

theorem KeepsPaths.updateState (tables : Tables) (owner : Int) {change : SocketState → SocketState}
    (keeps : ∀ socket, socket.bound = true → (change socket).bound = true) :
    KeepsPaths tables (tables.updateState owner change) := by
  refine ⟨rfl, rfl, ?_⟩
  intro other socket stated
  simp only [Tables.updateState, Std.ExtTreeMap.getElem?_modify]
  split
  case isTrue same =>
    obtain rfl : owner = other := Std.LawfulEqOrd.eq_of_compare same
    exact ⟨change socket, by rw [stated]; rfl, keeps socket⟩
  case isFalse => exact ⟨socket, stated, id⟩

theorem KeepsPaths.setSocketError (tables : Tables) (fd error : Int) :
    KeepsPaths tables (tables.setSocketError fd error) := .updateState _ _ fun _ => id

theorem KeepsPaths.sound (kept : KeepsPaths before after) (sound : PathsSound asked before) :
    PathsSound asked after := by
  constructor
  · intro path owner
    rw [kept.unixPathOwner, kept.ownerUnixPath]
    exact sound.inverse
  · intro owner path isNamed
    rw [kept.ownerUnixPath] at isNamed
    obtain ⟨socket, stated, isBound⟩ := sound.stated isNamed
    obtain ⟨later, laterStated, stillBound⟩ := kept.state stated
    exact ⟨later, laterStated, fun isAsked => stillBound (isBound isAsked)⟩

end Keeps

end Tables

/-! ### Calls that name no socket -/

section Quiet

open Tables

theorem keepsPaths_onUser {α : Type} (call : UserCall α) : (onUser call).Keeps KeepsPaths :=
  keeps_onUser call fun _ _ => .of_eq rfl rfl rfl

theorem keepsPaths_setSocketError (fd error : Int) :
    (Call.modify fun tables => tables.setSocketError fd error : NetCall PUnit).Keeps KeepsPaths :=
  keeps_modify fun tables => .setSocketError tables fd error

theorem keepsPaths_failSocket {α : Type} (fd : Int) (error : Errno) :
    (failSocket fd error : NetCall α).Keeps KeepsPaths :=
  (keepsPaths_setSocketError fd error.code).bind fun _ => keeps_throw _

theorem keepsPaths_doListen (fd backlog : Int) : (doListen fd backlog).Keeps KeepsPaths := by
  refine (keeps_ensureSocketFd fd).bind fun _ => (keeps_socketOf fd).bind fun pair => ?_
  refine (keeps_throw _).ite ?_
  exact (keeps_modify fun _ => .updateState _ _ fun _ => id).bind fun _ =>
    (keeps_modify fun _ => .of_eq rfl rfl rfl).bind fun _ => keeps_pure _

theorem keepsPaths_connectTo (fd owner listenerOwner : Int) (backlog : Nat)
    {connected : SocketState → SocketState}
    (keeps : ∀ socket, socket.bound = true → (connected socket).bound = true) :
    (connectTo fd owner listenerOwner backlog connected).Keeps KeepsPaths := by
  refine (keeps_gets _).bind fun queue => Keeps.ite ?_ (Keeps.ite ?_ ?_)
  · exact (keeps_modify fun _ => .of_eq rfl rfl rfl).bind fun _ => keeps_pure _
  · exact (keeps_modify fun _ => .of_eq rfl rfl rfl).bind fun _ => keepsPaths_failSocket fd _
  · exact (keeps_modify fun _ => .of_eq rfl rfl rfl).bind fun _ =>
      (keeps_modify fun _ => .updateState _ _ keeps).bind fun _ => keeps_pure _

theorem keepsPaths_doConnect (fd : Int) (addr addrlen : Nat) :
    (doConnect fd addr addrlen).Keeps KeepsPaths := by
  refine (keeps_ensureSocketFd fd).bind fun _ => (keeps_socketOf fd).bind fun pair => ?_
  refine (keepsPaths_failSocket fd _).ite (Keeps.ite ?_ ?_)
  · refine (keepsPaths_onUser _).bind fun path => (keeps_gets _).bind fun found =>
      (keeps_ofOption _ _).bind fun listenerOwner => (keepsPaths_failSocket fd _).ite ?_
    refine (keeps_gets _).bind fun state => (keeps_ofOption _ _).bind fun listener => ?_
    exact (keepsPaths_failSocket fd _).ite (keepsPaths_connectTo _ _ _ _ fun _ => id)
  · refine (keepsPaths_onUser _).bind fun address => (keeps_gets _).bind fun found => ?_
    cases found with
    | none => exact keeps_hang
    | some listenerOwner =>
      exact (keepsPaths_failSocket fd _).ite
        ((keeps_gets _).bind fun backlog => keepsPaths_connectTo _ _ _ _ fun _ _ => rfl)

theorem keepsPaths_sendPeer (fd : Int) : (sendPeer fd).Keeps KeepsPaths :=
  (keeps_ensureSocketFd fd).bind fun _ => (keeps_socketOf fd).bind fun _ =>
    (keepsPaths_failSocket fd _).ite (keeps_pure _)

theorem keepsPaths_queueBytes (owner : Int) (bytes : List UInt8) :
    (Call.modify fun tables => tables.queueBytes owner bytes : NetCall PUnit).Keeps KeepsPaths := by
  refine keeps_modify fun tables => ?_
  unfold queueBytes
  split <;> exact .of_eq rfl rfl rfl

theorem keepsPaths_doSendto (fd : Int) (buf len : Nat) : (doSendto fd buf len).Keeps KeepsPaths :=
  (keepsPaths_sendPeer fd).bind fun _ => (keepsPaths_onUser _).bind fun _ =>
    (keepsPaths_queueBytes _ _).bind fun _ => (keepsPaths_setSocketError fd 0).bind fun _ =>
      keeps_pure _

theorem keepsPaths_doSendmsg (fd : Int) (msg : Nat) : (doSendmsg fd msg).Keeps KeepsPaths := by
  refine (keepsPaths_sendPeer fd).bind fun peer => (keepsPaths_onUser _).bind fun header =>
    (keepsPaths_onUser _).bind fun iovs => (keepsPaths_queueBytes _ _).bind fun _ =>
      Keeps.bind ?_ fun _ => (keepsPaths_setSocketError fd 0).bind fun _ => keeps_pure _
  refine Keeps.ite ((keepsPaths_onUser _).bind fun cmsg => ?_) (keeps_pure _)
  cases passedFds cmsg cmsg.length 0 with
  | none => exact keeps_hang
  | some fds =>
    refine keeps_modify fun tables => ?_
    unfold queueRights
    split <;> exact .of_eq rfl rfl rfl

theorem keepsPaths_awaitBytes (fd owner : Int) : (awaitBytes fd owner).Keeps KeepsPaths :=
  (keeps_modify fun _ => .of_eq rfl rfl rfl).bind fun _ => (keeps_gets _).bind fun _ =>
    Keeps.ite
      ((keeps_gets _).bind fun _ => (keepsPaths_failSocket fd _).ite keeps_hang)
      (keeps_pure _)

theorem keepsPaths_doRecvfrom (fd : Int) (buf len flags srcAddr addrlen : Nat) :
    (doRecvfrom fd buf len flags srcAddr addrlen).Keeps KeepsPaths := by
  refine (keeps_ensureSocketFd fd).bind fun _ => (keeps_gets _).bind fun owner =>
    (keepsPaths_awaitBytes fd owner).bind fun queue => ?_
  refine (keeps_modify fun tables => ?_).bind fun _ => (keepsPaths_onUser _).bind fun _ =>
    (keeps_gets _).bind fun _ => (keepsPaths_onUser _).bind fun _ =>
      (keepsPaths_setSocketError fd 0).bind fun _ => keeps_pure _
  split <;> exact .of_eq rfl rfl rfl

theorem keepsPaths_installReceived (files : List FileId) :
    (installReceived files).Keeps KeepsPaths := by
  induction files with
  | nil => exact keeps_pure _
  | cons file files ih =>
    refine (keeps_gets _).bind fun free => (keeps_modify fun tables => ?_).bind fun _ =>
      ih.bind fun _ => keeps_pure _
    cases free <;> exact .of_eq rfl rfl rfl

theorem keepsPaths_doRecvmsg (fd : Int) (msg : Nat) : (doRecvmsg fd msg).Keeps KeepsPaths := by
  refine (keeps_ensureSocketFd fd).bind fun _ => (keeps_gets _).bind fun owner =>
    (keepsPaths_onUser _).bind fun header => (keepsPaths_awaitBytes fd owner).bind fun out =>
      (keeps_modify fun _ => .of_eq rfl rfl rfl).bind fun _ =>
        (keepsPaths_onUser _).bind fun copied => Keeps.bind ?_ fun used =>
          (keepsPaths_onUser _).bind fun _ => (keepsPaths_setSocketError fd 0).bind fun _ =>
            keeps_pure _
  refine Keeps.ite ((keeps_gets _).bind fun pending => ?_) (keeps_pure _)
  refine Keeps.ite (keeps_pure _) ?_
  exact (keepsPaths_installReceived _).bind fun _ => (keepsPaths_onUser _).bind fun _ =>
    (keeps_modify fun _ => .of_eq rfl rfl rfl).bind fun _ => keeps_pure _

theorem keepsPaths_fcntlSetfl (fd flags : Nat) : (fcntlSetfl fd flags).Keeps KeepsPaths :=
  (keeps_getFile fd).bind fun _ => (keeps_modify fun _ => .of_eq rfl rfl rfl).bind fun _ =>
    keeps_pure _

theorem keepsPaths_allocFdFromCloexec (start : Nat) (file : FileId) (cloexec : Bool) :
    (allocFdFromCloexec start file cloexec).Keeps KeepsPaths :=
  (keeps_gets _).bind fun _ => (keeps_ofOption _ _).bind fun _ =>
    (keeps_modify fun _ => .of_eq rfl rfl rfl).bind fun _ => keeps_pure _

theorem keepsPaths_openFile (object : FileObject) : (openFile object).Keeps KeepsPaths :=
  keeps_hang.ite
    (((keeps_gets _).bind fun _ => (keeps_modify fun _ => .of_eq rfl rfl rfl).bind fun _ =>
      keeps_pure _).bind fun _ => keepsPaths_allocFdFromCloexec _ _ _)

theorem keepsPaths_shareSocket (tables : Tables) (file : FileId) (oldfd newfd : Int) :
    KeepsPaths tables (tables.shareSocket file oldfd newfd) := by
  unfold shareSocket
  split <;> exact .of_eq rfl rfl rfl

theorem keepsPaths_dupFd (oldfd : Nat) : (dupFd oldfd).Keeps KeepsPaths :=
  (keeps_getFile oldfd).bind fun file => (keeps_gets _).bind fun _ =>
    (keeps_ofOption _ _).bind fun fd =>
      (keeps_modify fun tables => keepsPaths_shareSocket tables file oldfd fd).bind fun _ =>
        (keeps_modify fun _ => .of_eq rfl rfl rfl).bind fun _ => keeps_pure _

theorem keepsPaths_fcntlDupfd (fd start : Nat) (cloexec : Bool) :
    (fcntlDupfd fd start cloexec).Keeps KeepsPaths :=
  (keeps_getFile fd).bind fun file => (keepsPaths_allocFdFromCloexec _ _ _).bind fun newfd =>
    (keeps_modify fun tables => keepsPaths_shareSocket tables file fd newfd).bind fun _ =>
      keeps_pure _

end Quiet

/-! ### The conditions on calls -/

namespace Tables

/-- A socket that has a name is bound to no other one. -/
def BindsOnce (tables : Tables) (event : Event) : Prop :=
  match event.label with
  | .bind fd addr addrlen =>
    ∀ path ∈ UserCall.value? (readSockaddrUnPath addr addrlen) event.caller.memory,
      ∀ former ∈ tables.ownerUnixPath (tables.ownerOf fd), former = path
  | _ => True

/-- No name is kept for an owner with one of the numbers that the next `count` allocations
return. -/
def NumbersUnnamed (tables : Tables) (count : Nat) : Prop :=
  ∀ fd ∈ nextFds tables.fds count, tables.ownerUnixPath fd = none

/-- A call creates sockets only at numbers without a name. -/
def CreatesUnnamed (tables : Tables) (event : Event) : Prop :=
  match event.label with
  | .socket _ _ _ => tables.NumbersUnnamed 1
  | .accept4 _ _ _ _ => tables.NumbersUnnamed 1
  | .socketpair _ _ _ _ => tables.NumbersUnnamed 2
  | _ => True

instance (tables : Tables) (event : Event) : Decidable (tables.BindsOnce event) := by
  unfold BindsOnce
  cases event.label <;> infer_instance

instance (tables : Tables) (count : Nat) : Decidable (tables.NumbersUnnamed count) :=
  inferInstanceAs (Decidable (∀ fd ∈ nextFds tables.fds count, _))

instance (tables : Tables) (event : Event) : Decidable (tables.CreatesUnnamed event) := by
  unfold CreatesUnnamed
  cases event.label <;> infer_instance

section Changes

variable {asked : Prop} {tables : Tables}

theorem NumbersUnnamed.head {count : Nat} (unnamed : tables.NumbersUnnamed (count + 1)) {fd : Nat}
    (free : tables.fds.lowestFree 3 = some fd) : tables.ownerUnixPath fd = none :=
  unnamed fd (by simp [nextFds, free])

theorem NumbersUnnamed.tail {count : Nat} (unnamed : tables.NumbersUnnamed (count + 2)) {fd : Nat}
    (free : tables.fds.lowestFree 3 = some fd) (socket : SocketState) :
    (tables.withNewSocket fd socket).NumbersUnnamed 1 := by
  intro second member
  simp only [nextFds] at member
  split at member
  · cases member
  · next other otherFree =>
      obtain rfl := List.mem_singleton.mp member
      rw [show (tables.withNewSocket fd socket).fds = tables.fds.install fd tables.nextFile false
        from rfl, FdTable.lowestFree_install _ _ _ _ 0 _ false] at otherFree
      exact unnamed second (by simp [nextFds, free, otherFree])

theorem PathsSound.withNewSocket (sound : PathsSound asked tables) {fd : Nat}
    (unnamed : asked → tables.ownerUnixPath fd = none) (socket : SocketState) :
    PathsSound asked (tables.withNewSocket fd socket) := by
  refine ⟨sound.inverse, ?_⟩
  intro owner path isNamed
  simp only [Tables.withNewSocket, addSocket, Std.ExtTreeMap.getElem?_insert]
  split
  case isTrue same =>
    obtain rfl : (fd : Int) = owner := Std.LawfulEqOrd.eq_of_compare same
    refine ⟨socket, rfl, fun isAsked => ?_⟩
    have noName := unnamed isAsked
    rw [show tables.ownerUnixPath fd = some path from isNamed] at noName
    cases noName
  case isFalse => exact sound.stated isNamed

/-- Closing the last alias of an owner takes its name out of both tables. -/
theorem PathsSound.cleanupSocketFd (sound : PathsSound asked tables) (fd : Int) :
    PathsSound asked (tables.cleanupSocketFd fd) := by
  unfold Tables.cleanupSocketFd
  dsimp only
  split
  case isTrue => exact ⟨sound.inverse, sound.stated⟩
  case isFalse =>
  generalize tables.ownerOf fd = owner
  constructor
  · intro path other
    dsimp only
    by_cases same : other = owner
    · subst same
      rw [update_self]
      constructor
      · intro isOwner
        cases isNamed : tables.ownerUnixPath other with
        | none =>
          rw [isNamed] at isOwner
          rw [sound.inverse.mp isOwner] at isNamed
          cases isNamed
        | some name =>
          rw [isNamed] at isOwner
          dsimp only at isOwner
          by_cases isName : path = name
          · rw [isName, update_self] at isOwner
            cases isOwner
          · rw [update_of_ne isName] at isOwner
            rw [sound.inverse.mp isOwner] at isNamed
            exact absurd (Option.some.inj isNamed) isName
      · rintro ⟨⟩
    · rw [update_of_ne same, ← sound.inverse]
      cases isNamed : tables.ownerUnixPath owner with
      | none => rfl
      | some name =>
        dsimp only
        by_cases isName : path = name
        · subst isName
          rw [update_self, sound.inverse.mpr isNamed]
          constructor
          · rintro ⟨⟩
          · intro isOwner
            exact absurd (Option.some.inj isOwner).symm same
        · rw [update_of_ne isName]
  · intro other path isNamed
    dsimp only at isNamed ⊢
    have differs : other ≠ owner := by
      rintro rfl
      rw [update_self] at isNamed
      cases isNamed
    rw [update_of_ne differs] at isNamed
    obtain ⟨socket, stated, isBound⟩ := sound.stated isNamed
    simp only [Std.ExtTreeMap.getElem?_map, Std.ExtTreeMap.getElem?_erase]
    rw [if_neg fun same => differs (Std.LawfulEqOrd.eq_of_compare same).symm, stated]
    refine ⟨_, rfl, fun isAsked => ?_⟩
    dsimp only
    split <;> exact isBound isAsked

/-- Binding a socket to a path that no other socket has, when it has no other path. -/
theorem PathsSound.bind (sound : PathsSound asked tables) {owner : Int} {path : List UInt8}
    {socket : SocketState} (stated : tables.socketState[owner]? = some socket)
    (notTaken : ((tables.unixPathOwner path).any (· ≠ owner)) = false)
    (once : ∀ former ∈ tables.ownerUnixPath owner, former = path)
    {change : SocketState → SocketState} (binds : ∀ socket, (change socket).bound = true) :
    PathsSound asked (Tables.updateState
      { tables with
        unixPathOwner := update tables.unixPathOwner path (some owner)
        ownerUnixPath := update tables.ownerUnixPath owner (some path) } owner change) := by
  constructor
  · intro other others
    show update tables.unixPathOwner path (some owner) other = some others ↔
      update tables.ownerUnixPath owner (some path) others = some other
    by_cases isPath : other = path
    · subst isPath
      rw [update_self]
      by_cases isOwner : others = owner
      · subst isOwner
        rw [update_self]
        exact ⟨fun _ => rfl, fun _ => rfl⟩
      · rw [update_of_ne isOwner, ← sound.inverse]
        constructor
        · intro same
          exact absurd (Option.some.inj same).symm isOwner
        · intro isTaken
          rw [isTaken] at notTaken
          simp [isOwner] at notTaken
    · rw [update_of_ne isPath]
      by_cases isOwner : others = owner
      · subst isOwner
        rw [update_self, sound.inverse]
        constructor
        · intro isNamed
          exact absurd (once other isNamed) isPath
        · intro same
          exact absurd (Option.some.inj same).symm isPath
      · rw [update_of_ne isOwner]
        exact sound.inverse
  · intro other name isNamed
    simp only [Tables.updateState, Std.ExtTreeMap.getElem?_modify]
    split
    case isTrue same =>
      obtain rfl : owner = other := Std.LawfulEqOrd.eq_of_compare same
      exact ⟨change socket, by rw [stated]; rfl, fun _ => binds socket⟩
    case isFalse differs =>
      have isOther : other ≠ owner := by
        rintro rfl
        exact differs Std.ReflCmp.compare_self
      apply sound.stated
      rw [← isNamed]
      exact (update_of_ne isOther ..).symm

end Changes

end Tables

/-! ### Calls -/

section Calls

open Tables

variable {asked : Prop} {tables : Tables}

private theorem wp_of_keepsPaths {α : Type} {call : NetCall α} (keeps : call.Keeps KeepsPaths)
    (sound : PathsSound asked tables) : wp call (fun _ after => PathsSound asked after) tables :=
  wp_mono (keeps tables) fun _ _ kept => kept.sound sound

theorem pathsSound_newFile (sound : PathsSound asked tables) (object : FileObject) :
    PathsSound asked { tables with
      objects := update tables.objects tables.nextFile object
      nextFile := tables.nextFile + 1 } :=
  ⟨sound.inverse, sound.stated⟩

theorem pathsSound_doSocket (sound : PathsSound asked tables)
    (unnamed : asked → tables.NumbersUnnamed 1) (caller : Caller) (domain sockType protocol : Int) :
    wp (doSocket caller domain sockType protocol) (fun _ after => PathsSound asked after)
      tables := by
  rw [doSocket, wp_ite, wp_throw, wp_allocSocketFd]
  refine ⟨fun _ => sound, fun _ => ⟨fun _ => pathsSound_newFile sound _, fun fd free => ?_⟩⟩
  exact sound.withNewSocket (fun isAsked => (unnamed isAsked).head free) _

theorem pathsSound_doSocketpair (sound : PathsSound asked tables)
    (unnamed : asked → tables.NumbersUnnamed 2) (caller : Caller) (domain sockType protocol : Int)
    (sv : Nat) :
    wp (doSocketpair caller domain sockType protocol sv)
      (fun _ after => PathsSound asked after) tables := by
  rw [doSocketpair, wp_ite, wp_throw]
  refine ⟨fun _ => sound, fun _ => ?_⟩
  rw [wp_ite, wp_throw]
  refine ⟨fun _ => sound, fun _ => ?_⟩
  rw [wp_bind, wp_allocSocketFd]
  refine ⟨fun _ => pathsSound_newFile sound _, fun fd0 free => ?_⟩
  have first := sound.withNewSocket (fun isAsked => (unnamed isAsked).head free)
    (freshSocket caller domain sockType protocol)
  have unnamedNext := fun isAsked =>
    (unnamed isAsked).tail free (freshSocket caller domain sockType protocol)
  dsimp only
  rw [wp_bind, wp_allocSocketFd]
  refine ⟨fun _ => pathsSound_newFile first _, fun fd1 otherFree => ?_⟩
  refine wp_of_keepsPaths ?_
    (first.withNewSocket (fun isAsked => (unnamedNext isAsked).head otherFree) _)
  exact (keeps_gets _).bind fun o0 => (keeps_gets _).bind fun o1 =>
    (keeps_modify fun _ => (KeepsPaths.updateState _ _ fun _ _ => rfl).trans
      (.updateState _ _ fun _ _ => rfl)).bind fun _ =>
      (keepsPaths_onUser _).bind fun _ => keeps_pure _

theorem keepsPaths_markNonblocking (tables : Tables) (fd flags : Nat) :
    KeepsPaths tables (tables.markNonblocking fd flags) := by
  unfold markNonblocking
  split
  · split <;> exact .of_eq rfl rfl rfl
  · exact .refl _

theorem keepsPaths_accepted (tables : Tables) (acceptedOwner clientOwner : Int)
    (listener client : SocketState) :
    KeepsPaths tables ((tables.updateState acceptedOwner
      (acceptedFrom listener client clientOwner)).updateState clientOwner
        (acceptedBy listener acceptedOwner)) := by
  have accepted : KeepsPaths tables (tables.updateState acceptedOwner
      (acceptedFrom listener client clientOwner)) := .updateState _ _ fun _ _ => rfl
  exact accepted.trans (.updateState _ _ fun _ isBound => isBound)

section

variable (sound : PathsSound asked tables)

include sound

theorem pathsSound_doAccept4 (unnamed : asked → tables.NumbersUnnamed 1) (caller : Caller)
    (fd : Int) (addr addrlen flags : Nat) :
    wp (doAccept4 caller fd addr addrlen flags) (fun _ after => PathsSound asked after)
      tables := by
  rw [doAccept4, wp_bind]
  refine wp_ensureSocketFd (fun _ => sound) fun _ _ _ _ _ => ?_
  dsimp only
  rw [wp_bind, wp_socketOf]
  refine ⟨fun _ => sound, fun listener _ => ?_⟩
  dsimp only
  rw [wp_ite, wp_throw]
  refine ⟨fun _ => sound, fun _ => ?_⟩
  rw [wp_bind_gets, wp_bind_ofOption]
  refine ⟨fun _ => sound, fun queue _ => ?_⟩
  cases queue with
  | nil =>
    refine wp_of_keepsPaths ?_ sound
    exact (keeps_gets _).bind fun _ => (keepsPaths_failSocket fd _).ite keeps_hang
  | cons clientOwner rest =>
    dsimp only
    rw [acceptClient, wp_bind, wp_allocSocketFd]
    refine ⟨fun _ => pathsSound_newFile sound _, fun acceptedFd free => ?_⟩
    refine wp_of_keepsPaths ?_
      (sound.withNewSocket (fun isAsked => (unnamed isAsked).head free) _)
    refine (keeps_modify fun tables => keepsPaths_markNonblocking tables _ _).bind fun _ =>
      (keeps_gets _).bind fun _ => (keeps_gets _).bind fun _ =>
        Keeps.ite keeps_hang ?_
    exact (keeps_modify fun _ => .of_eq rfl rfl rfl).bind fun _ =>
      (keeps_gets _).bind fun _ => (keeps_ofOption _ _).bind fun _ =>
        (keeps_modify fun _ => keepsPaths_accepted _ _ _ _ _).bind fun _ =>
          (keeps_gets _).bind fun _ => (keepsPaths_onUser _).bind fun _ =>
            (keepsPaths_setSocketError fd 0).bind fun _ => keeps_pure _

theorem pathsSound_doBind {fd : Int} {addr addrlen : Nat}
    (once : ∀ path ∈ UserCall.value? (readSockaddrUnPath addr addrlen) tables.user,
      ∀ former ∈ tables.ownerUnixPath (tables.ownerOf fd), former = path) :
    wp (doBind fd addr addrlen) (fun _ after => PathsSound asked after) tables := by
  rw [doBind, wp_bind]
  refine wp_ensureSocketFd (fun _ => sound) fun _ _ _ _ _ => ?_
  dsimp only
  rw [wp_bind, wp_socketOf]
  refine ⟨fun _ => sound, fun socket stated => ?_⟩
  dsimp only
  rw [wp_ite]
  constructor
  · intro _
    rw [wp_bind, onUser, wp_zoom]
    intro result user returned
    have moved : KeepsPaths tables { tables with user := user } := .of_eq rfl rfl rfl
    cases result with
    | error error => exact moved.sound sound
    | ok path =>
      dsimp only
      rw [wp_bind_gets, wp_ite]
      refine ⟨fun _ => wp_of_keepsPaths (keepsPaths_failSocket fd _) (moved.sound sound), ?_⟩
      intro notTaken
      rw [wp_bind_modify, wp_bind_modify, wp_pure]
      have isPath : path ∈ UserCall.value? (readSockaddrUnPath addr addrlen) tables.user := by
        rw [UserCall.value?, returned]
        rfl
      have soundThere := moved.sound sound
      exact soundThere.bind stated (by simpa using notTaken) (once path isPath) fun _ => rfl
  · intro _
    refine wp_of_keepsPaths ?_ sound
    refine (keepsPaths_onUser _).bind fun address => (keeps_gets _).bind fun inUse => ?_
    refine (keepsPaths_failSocket fd _).ite ?_
    exact (keeps_modify fun _ => .updateState _ _ fun _ _ => rfl).bind fun _ =>
      keeps_pure _

theorem pathsSound_releaseSocket (fd : Nat) : PathsSound asked (tables.releaseSocket fd) := by
  unfold Tables.releaseSocket
  split
  · split
    · exact sound.cleanupSocketFd fd
    · exact sound
  · exact sound

theorem pathsSound_closeFd (fd : Nat) :
    wp (closeFd fd) (fun _ after => PathsSound asked after) tables := by
  simp only [closeFd, wp_bind, wp_getFile, wp_modify, wp_pure]
  refine ⟨fun _ => sound, fun _ _ => ?_⟩
  have released := pathsSound_releaseSocket sound fd
  exact ⟨released.inverse, released.stated⟩

theorem pathsSound_dup3Fd (oldfd newfd flags : Nat) :
    wp (dup3Fd oldfd newfd flags) (fun _ after => PathsSound asked after) tables := by
  simp only [dup3Fd, wp_ite, wp_throw]
  refine ⟨fun _ => sound, fun _ => ⟨fun _ => sound, fun _ => ?_⟩⟩
  simp only [wp_bind, wp_getFile, wp_ite, wp_throw, wp_modify, wp_pure]
  refine ⟨fun _ => sound, fun file _ => ⟨fun _ => sound, fun _ => ?_⟩⟩
  have shared := (keepsPaths_shareSocket _ file oldfd newfd).sound
    (pathsSound_releaseSocket sound newfd)
  exact ⟨shared.inverse, shared.stated⟩

theorem pathsSound_step {next : Tables} {event : Event} (once : tables.BindsOnce event)
    (unnamed : asked → tables.CreatesUnnamed event) (stepped : tables.step event = some next) :
    PathsSound asked next := by
  have quiet : KeepsPaths tables (tables.entered event) := .of_eq rfl rfl rfl
  have entered : PathsSound asked (tables.entered event) := quiet.sound sound
  refine of_wp ?_ stepped
  obtain ⟨caller, label⟩ := event
  cases label with
  | socket => exact wp_bind_pure (pathsSound_doSocket entered unnamed _ _ _ _)
  | socketpair => exact wp_bind_pure (pathsSound_doSocketpair entered unnamed _ _ _ _ _)
  | bind fd addr addrlen => exact wp_bind_pure (pathsSound_doBind entered once)
  | listen => exact wp_bind_pure (wp_of_keepsPaths (keepsPaths_doListen _ _) entered)
  | accept4 => exact wp_bind_pure (pathsSound_doAccept4 entered unnamed _ _ _ _ _)
  | connect => exact wp_bind_pure (wp_of_keepsPaths (keepsPaths_doConnect _ _ _) entered)
  | sendto => exact wp_bind_pure (wp_of_keepsPaths (keepsPaths_doSendto _ _ _) entered)
  | sendmsg => exact wp_bind_pure (wp_of_keepsPaths (keepsPaths_doSendmsg _ _) entered)
  | recvfrom =>
    exact wp_bind_pure (wp_of_keepsPaths (keepsPaths_doRecvfrom _ _ _ _ _ _) entered)
  | recvmsg => exact wp_bind_pure (wp_of_keepsPaths (keepsPaths_doRecvmsg _ _) entered)
  | close fd => exact wp_bind_pure (pathsSound_closeFd entered fd)
  | dup => exact wp_bind_pure (wp_of_keepsPaths (keepsPaths_dupFd _) entered)
  | dup3 => exact wp_bind_pure (pathsSound_dup3Fd entered _ _ _)
  | dupfd => exact wp_bind_pure (wp_of_keepsPaths (keepsPaths_fcntlDupfd _ _ _) entered)
  | setfl => exact wp_bind_pure (wp_of_keepsPaths (keepsPaths_fcntlSetfl _ _) entered)
  | openFile => exact wp_bind_pure (wp_of_keepsPaths (keepsPaths_openFile _) entered)

end

theorem pathsSound_boot : PathsSound asked boot where
  inverse := by
    intro path owner
    constructor
    · rintro ⟨⟩
    · rintro ⟨⟩
  stated isNamed := by cases isNamed

end Calls

/-! ### Runs -/

namespace Tables

/-- In every run in which no socket is bound to a second path, the two tables of names are
inverse to each other and every owner named has a socket state. If in addition sockets are
created only at numbers without a name, a path resolves exactly when a bound socket has it. -/
theorem paths_of_run {final : Tables} {trace : List Event}
    (once : LabelledRun.Guarded step BindsOnce boot trace) (reached : run boot trace = some final) :
    (∀ path owner, final.unixPathOwner path = some owner ↔
      final.ownerUnixPath owner = some path) ∧
    (∀ owner, (final.ownerUnixPath owner).isSome → (final.socketState[owner]?).isSome) ∧
    (LabelledRun.Guarded step CreatesUnnamed boot trace → ∀ path,
      (final.unixPathOwner path).isSome ↔ ∃ owner socket, final.socketState[owner]? = some socket ∧
        socket.bound = true ∧ final.ownerUnixPath owner = some path) := by
  have sound : PathsSound False final := LabelledRun.invariant_of_guarded (PathsSound False)
    (fun sound guard stepped => pathsSound_step sound guard False.elim stepped) pathsSound_boot
    once reached
  refine ⟨fun _ _ => sound.inverse, ?_, ?_⟩
  · intro owner isNamed
    obtain ⟨path, isPath⟩ := Option.isSome_iff_exists.mp isNamed
    obtain ⟨socket, stated, _⟩ := sound.stated isPath
    exact Option.isSome_of_eq_some stated
  · intro unnamed path
    have boundToo : PathsSound True final := LabelledRun.invariant_of_guarded (PathsSound True)
      (fun sound guard stepped => pathsSound_step sound guard.1 (fun _ => guard.2) stepped)
      pathsSound_boot (once.and unnamed) reached
    constructor
    · intro resolves
      obtain ⟨owner, isOwner⟩ := Option.isSome_iff_exists.mp resolves
      obtain ⟨socket, stated, isBound⟩ := boundToo.stated (boundToo.inverse.mp isOwner)
      exact ⟨owner, socket, stated, isBound trivial, boundToo.inverse.mp isOwner⟩
    · rintro ⟨owner, socket, _, _, isNamed⟩
      exact Option.isSome_of_eq_some (boundToo.inverse.mpr isNamed)

def unixAddress (letter : UInt8) : List UInt8 := [1, 0, letter, 0]

/-- Two sockets are bound; one is duplicated and listens, the other connects to it and is
closed. -/
def bindAndClose : List Event :=
  [.byRoot [] (.socket AF_UNIX 1 0), .byRoot [] (.socket AF_UNIX 1 0),
    .byRoot [(4096, unixAddress 97)] (.bind 3 4096 4),
    .byRoot [(4096, unixAddress 98)] (.bind 4 4096 4), .byRoot [] (.dup 3),
    .byRoot [] (.listen 3 1), .byRoot [(4096, unixAddress 97)] (.connect 4 4096 4),
    .byRoot [] (.accept4 3 0 0 0), .byRoot [] (.close 4)]

theorem paths_bindAndClose :
    ∃ final, run boot bindAndClose = some final ∧ final.unixPathOwner [97] = some 3 ∧
      final.unixPathOwner [98] = none ∧
      (∀ path owner, final.unixPathOwner path = some owner ↔
        final.ownerUnixPath owner = some path) ∧
      (∀ owner, (final.ownerUnixPath owner).isSome → (final.socketState[owner]?).isSome) ∧
      ∀ path, (final.unixPathOwner path).isSome ↔
        ∃ owner socket, final.socketState[owner]? = some socket ∧ socket.bound = true ∧
          final.ownerUnixPath owner = some path := by
  obtain ⟨final, reached, isBound, isClosed⟩ : ∃ final, run boot bindAndClose = some final ∧
      final.unixPathOwner [97] = some 3 ∧ final.unixPathOwner [98] = none := by
    decide +kernel
  have unnamed : LabelledRun.Guarded step CreatesUnnamed boot bindAndClose := by decide +kernel
  obtain ⟨inverse, stated, resolves⟩ := paths_of_run (by decide +kernel) reached
  exact ⟨final, reached, isBound, isClosed, inverse, stated, resolves unnamed⟩

/-- A socket is bound to two paths and closed; another is created and gets its number. -/
def bindTwiceAndClose : List Event :=
  [.byRoot [] (.socket AF_UNIX 1 0), .byRoot [(4096, unixAddress 97)] (.bind 3 4096 4),
    .byRoot [(4096, unixAddress 98)] (.bind 3 4096 4), .byRoot [] (.close 3)]

/-- The first path still names the owner, which has neither a name nor a state, and then names
the new socket that gets the number, which was never bound. -/
theorem path_of_closed_socket_resolves :
    ∃ closed later, run boot bindTwiceAndClose = some closed ∧
      closed.unixPathOwner [97] = some 3 ∧ closed.ownerUnixPath 3 = none ∧
      (closed.socketState[(3 : Int)]?).isNone ∧
      closed.step (.byRoot [] (.socket AF_UNIX 1 0)) = some later ∧
      later.unixPathOwner [97] = some 3 ∧
      (later.socketState[(3 : Int)]?).any (fun socket => !socket.bound) := by
  simp only [exists_and_left]
  decide +kernel

end Tables

end Cyllor.Net
