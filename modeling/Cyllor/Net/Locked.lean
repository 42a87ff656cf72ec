import Cyllor.Lib.LockProgram
import Cyllor.Net.Message

/-!
Contract: the calls on descriptors and sockets with the locks they take
(`fs/fdtable.rs`, `fs/mod.rs`, `net/mod.rs`, `syscall/io.rs`).

Owns: the locks, and every call as a program that acquires and releases them
where the guards of the source live. A guard named in a `let` is held to the end
of its block, also on an early return; a guard in a condition is dropped before
the branch; the guard of an `if let` is held in the branch.

What a call reads from user memory, and whether its writes there succeed, are
inputs of the call, because user memory may change at any time. So is which
files other than sockets have input in a round of a poll.

Does not own: locks that only one table of another subsystem is behind (the
buffer of a pipe, a terminal, the process table).
-/

namespace Cyllor.Net.Locked

open Cyllor.Fs LockProgram

inductive Lock where
  | fdTable
  | file (id : FileId)
  | socketState
  | socketPending
  | socketRx
  | socketAlias
  | unixPathOwner
  | ownerUnixPath
  | socketRights
  | epollTable
deriving DecidableEq, Repr

structure EpollWatch where
  events : Nat
  data : Nat
deriving DecidableEq, Repr

/-- The tables behind the locks. -/
structure World where
  tables : Tables
  epolls : BTreeMap Int (BTreeMap Int EpollWatch)

/-- The accesses after which a call decides whether to take a lock again. -/
inductive Site where
  | plain
  | polledType (file : FileId)
  | listenerLookup (port ip : Nat)
  | pendingRecheck (listenerOwner clientOwner : Int)
deriving DecidableEq, Repr

abbrev LockedCall (α : Type) := LockProgram World Lock Site Errno α

def look {α : Type} (read : Tables → α) : LockedCall α :=
  readAt .plain fun world => read world.tables

def change (update : Tables → Tables) : LockedCall Unit :=
  updateAt .plain (fun _ => ()) fun world => { world with tables := update world.tables }

/-- An outcome that does not depend on the tables. -/
def given {α : Type} (outcome : Except Errno α) : LockedCall α := done outcome

/-! ### Descriptors -/

def getFile (fd : Int) : LockedCall FileId :=
  holding .fdTable do
    let found ← look fun tables => if 0 ≤ fd then tables.fds.get? fd.toNat else none
    ofOption .EBADF found

def allocFd (file : FileId) : LockedCall Nat :=
  holding .fdTable do
    let free ← look fun tables => tables.fds.lowestFree 3
    let fd ← ofOption .EMFILE free
    change fun tables => { tables with fds := tables.fds.install fd file false }
    return fd

def newFile (object : FileObject) : LockedCall FileId :=
  updateAt .plain (fun world => world.tables.nextFile) fun world =>
    { world with
      tables :=
        { world.tables with
          objects := Function.update world.tables.objects world.tables.nextFile object
          nextFile := world.tables.nextFile + 1 } }

/-- `file.lock().ftype == FileType::Socket`. -/
def fileIsSocket (file : FileId) : LockedCall Bool :=
  holding (.file file) (look fun tables => tables.isSocket file)

/-- Act on a file that is a socket. The file is no longer locked then. -/
def whenSocket (file : FileId) (action : LockedCall Unit) : LockedCall Unit := do
  if ← fileIsSocket file then action

/-! ### Sockets -/

def ensureSocketFd (fd : Int) : LockedCall Unit := do
  if fd < 0 then throw .EBADF
  else
    let file ← getFile fd
    let isSocket ← fileIsSocket file
    if isSocket then return () else throw .ENOTSOCK

def ownerOf (fd : Int) : LockedCall Int :=
  holding .socketAlias (look fun tables => tables.ownerOf fd)

def setSocketError (fd error : Int) : LockedCall Unit := do
  let owner ← ownerOf fd
  holding .socketState (change fun tables =>
    tables.updateState owner fun socket => { socket with lastError := error })

/-- Record an error on the socket and return it. -/
def failSocket {α : Type} (fd : Int) (error : Errno) : LockedCall α := do
  setSocketError fd error.code
  throw error

def isNonblockingFd (fd : Int) : LockedCall Bool := do
  if fd < 0 then return true
  else
    match ← (getFile fd).attempt with
    | .ok file =>
      holding (.file file) (look fun tables => (tables.objects file).flags &&& O_NONBLOCK ≠ 0)
    | .error _ => return true

def stateOf (owner : Int) : LockedCall SocketState :=
  holding .socketState do
    let found ← look fun tables => tables.socketState[owner]?
    ofOption .EBADF found

/-- `states.get_mut(&owner).ok_or(EBADF)?` and the changes made through it. -/
def changeState (owner : Int) (update : SocketState → SocketState) : LockedCall Unit :=
  holding .socketState do
    let found ← look fun tables => tables.socketState[owner]?
    let _ ← ofOption .EBADF found
    change fun tables => tables.updateState owner update

def allocSocketFd (caller : Caller) (domain sockType protocol : Int) : LockedCall Nat := do
  let file ← newFile ⟨.Socket, 0⟩
  let fd ← allocFd file
  holding .socketAlias (change fun tables =>
    { tables with socketAlias := tables.socketAlias.insert fd fd })
  holding .socketState (change fun tables =>
    { tables with
      socketState :=
        tables.socketState.insert fd (freshSocket caller domain sockType protocol) })
  holding .socketPending (change fun tables =>
    { tables with socketPending := tables.socketPending.insertIfNew fd [] })
  holding .socketRx (change fun tables =>
    { tables with socketRx := tables.socketRx.insertIfNew fd [] })
  return fd

/-- The path part of `cleanup_socket_fd`; `OWNER_UNIX_PATH` is locked throughout. -/
def forgetPath (owner : Int) : LockedCall Unit :=
  holding .ownerUnixPath do
    let removed ← look fun tables => tables.ownerUnixPath owner
    change fun tables =>
      { tables with ownerUnixPath := Function.update tables.ownerUnixPath owner none }
    match removed with
    | some path =>
      holding .unixPathOwner (change fun tables =>
        { tables with unixPathOwner := Function.update tables.unixPathOwner path none })
    | none => return ()

/-- The last part of `cleanup_socket_fd`, for an owner without aliases. -/
def forgetOwner (owner : Int) : LockedCall Unit := do
  holding .socketState (change fun tables =>
    { tables with socketState := tables.socketState.erase owner })
  holding .socketPending (change fun tables =>
    { tables with socketPending := tables.socketPending.erase owner })
  holding .socketRx (change fun tables =>
    { tables with socketRx := tables.socketRx.erase owner })
  holding .socketRights (change fun tables =>
    { tables with socketRights := tables.socketRights.erase owner })
  forgetPath owner
  holding .socketState (change fun tables =>
    { tables with
      socketState := tables.socketState.map fun _ socket =>
        if socket.peerOwner = owner then { socket with peerOwner := -1, connected := false }
        else socket })
  holding .socketPending (change fun tables =>
    { tables with socketPending := QueueMap.retainAll tables.socketPending (· ≠ owner) })

def cleanupSocketFd (fd : Int) : LockedCall Unit := do
  let owner ← ownerOf fd
  holding .socketAlias (change fun tables =>
    { tables with socketAlias := tables.socketAlias.erase fd })
  let hasAlias ← holding .socketAlias (look fun tables => tables.hasAlias owner)
  if hasAlias then return () else forgetOwner owner

def cloneSocketFd (oldfd newfd : Int) : LockedCall Unit := do
  let owner ← ownerOf oldfd
  holding .socketAlias (change fun tables =>
    { tables with socketAlias := tables.socketAlias.insert newfd owner })

/-! ### Closing and duplicating -/

def closeFd (fd : Nat) : LockedCall Nat :=
  holding .fdTable do
    let found ← look fun tables => tables.fds.get? fd
    let file ← ofOption .EBADF found
    whenSocket file (cleanupSocketFd fd)
    change fun tables => { tables with fds := tables.fds.clear fd }
    return 0

/-- The first part of `close`: a closed epoll descriptor is forgotten everywhere. -/
def forgetEpoll (fd : Nat) : LockedCall Unit := do
  match ← (getFile fd).attempt with
  | .ok file =>
    let ftype ← holding (.file file) (look fun tables => (tables.objects file).ftype)
    if ftype = .Epoll then
      holding .epollTable (updateAt .plain (fun _ => ()) fun world =>
        { world with
          epolls := (world.epolls.erase fd).map fun _ watches => watches.erase fd })
  | .error _ => return ()

def close (fd : Nat) : LockedCall Nat := do
  forgetEpoll fd
  closeFd fd

def dupFd (oldfd : Nat) : LockedCall Nat :=
  holding .fdTable do
    let found ← look fun tables => tables.fds.get? oldfd
    let file ← ofOption .EBADF found
    let free ← look fun tables => tables.fds.lowestFree 3
    let fd ← ofOption .EMFILE free
    whenSocket file (cloneSocketFd oldfd fd)
    change fun tables => { tables with fds := tables.fds.install fd file false }
    return fd

/-- Give up the socket that a descriptor holds, if it holds one. -/
def releaseSocket (fd : Nat) : LockedCall Unit := do
  match ← look fun tables => tables.fds.files fd with
  | some target => whenSocket target (cleanupSocketFd fd)
  | none => return ()

def dup3Fd (oldfd newfd flags : Nat) : LockedCall Nat := do
  if oldfd = newfd then throw .EINVAL
  else if flags ≠ 0 then throw .EINVAL
  else
    let file ← getFile oldfd
    holding .fdTable do
      if MAX_FDS ≤ newfd then throw .EBADF
      else
        releaseSocket newfd
        whenSocket file (cloneSocketFd oldfd newfd)
        change fun tables => { tables with fds := tables.fds.install newfd file false }
        return newfd

/-! ### Polling -/

def socketPollMask (fd : Int) : LockedCall Nat := do
  match ← (ensureSocketFd fd).attempt with
  | .error _ => return POLLERR ||| POLLHUP
  | .ok _ =>
    let owner ← ownerOf fd
    let received ← holding .socketRx (look fun tables =>
      !(QueueMap.queueAt tables.socketRx owner).isEmpty)
    let pending ← holding .socketPending (look fun tables =>
      !(QueueMap.queueAt tables.socketPending owner).isEmpty)
    let hangup ← holding .socketState (look fun tables =>
      (tables.socketState[owner]?).any fun socket =>
        !socket.listening && socket.peerOwner < 0 && !socket.connected)
    return POLLOUT ||| (if received || pending then POLLIN else 0) |||
      (if hangup then POLLHUP else 0)

/-- The readiness of a file by its type. -/
def readyBits (socketBits : Nat → Nat) (fd : Int) (hasInput : Bool) : FileType → LockedCall Nat
  | .Regular | .Directory | .CharDevice | .MemFd | .PidFd => pure (POLLIN ||| POLLOUT)
  | .Pipe | .EventFd | .PtyMaster | .PtySlave =>
    pure ((if hasInput then POLLIN else 0) ||| POLLOUT)
  | .TimerFd | .SignalFd => pure (if hasInput then POLLIN else 0)
  | .Socket => do return socketBits (← socketPollMask fd)
  | .Epoll => pure 0

/-- What `fd_ready_mask` and `ready_mask_for_fd` have in common: the file is locked
while its type is looked at and its readiness is asked for. -/
def readyMask (missing : Nat) (socketBits : Nat → Nat) (always : Nat)
    (hasInput : FileId → Bool) (fd : Int) (interest : Nat) : LockedCall Nat := do
  match ← (getFile fd).attempt with
  | .error _ => return missing
  | .ok file =>
    holding (.file file) do
      let ftype ← readAt (.polledType file) fun world => (world.tables.objects file).ftype
      let ready ← readyBits socketBits fd (hasInput file) ftype
      return ready &&& (interest ||| always)

def fdReadyMask : (FileId → Bool) → Int → Nat → LockedCall Nat :=
  readyMask POLLNVAL id (POLLERR ||| POLLHUP ||| POLLNVAL)

def readyMaskForFd : (FileId → Bool) → Int → Nat → LockedCall Nat :=
  readyMask POLLHUP (· &&& (POLLIN ||| POLLOUT ||| POLLERR ||| POLLHUP)) (POLLERR ||| POLLHUP)

/-- One round of `sys_ppoll`: the number of descriptors that are ready. -/
def countReady (hasInput : FileId → Bool) : List (Int × Nat) → LockedCall Nat
  | [] => pure 0
  | (fd, events) :: rest => do
      if fd < 0 then countReady hasInput rest
      else
        let mask ← fdReadyMask hasInput fd events
        let count ← countReady hasInput rest
        return if mask = 0 then count else count + 1

/-- The rounds of `sys_ppoll` until something is ready or the time is up. -/
def pollRounds (fds : List (Int × Nat)) (written : Except Errno Unit) :
    List (FileId → Bool) → LockedCall Nat
  | [] => do
      given written
      return 0
  | hasInput :: rounds => do
      let count ← countReady hasInput fds
      if 0 < count then
        given written
        return count
      else pollRounds fds written rounds

def sysPpoll (fds : Except Errno (List (Int × Nat))) (rounds : List (FileId → Bool))
    (written : Except Errno Unit) : LockedCall Nat := do
  let fds ← given fds
  if fds.isEmpty then return 0 else pollRounds fds written rounds

/-- One round of `epoll_pwait`: the number of records collected, at most
`room`. -/
def collectReady (hasInput : FileId → Bool) :
    List (Int × EpollWatch) → (room : Nat) → LockedCall Nat
  | [], _ => pure 0
  | (fd, watch) :: rest, room => do
      let mask ← readyMaskForFd hasInput fd watch.events
      if mask = 0 then collectReady hasInput rest room
      else if room ≤ 1 then return 1
      else
        let count ← collectReady hasInput rest (room - 1)
        return count + 1

/-- The rounds of `epoll_pwait` until something is ready or the time is up. -/
def epollRounds (epfd : Int) (maxevents : Nat) (written : Except Errno Unit) :
    List (FileId → Bool) → LockedCall Nat
  | [] => pure 0
  | hasInput :: rounds => do
      let snapshot ← holding .epollTable (readAt .plain fun world =>
        (world.epolls[epfd]?).elim [] fun watches => watches.toList)
      let count ← collectReady hasInput snapshot maxevents
      if 0 < count then
        given written
        return count
      else epollRounds epfd maxevents written rounds

def epollPwait (epfd : Int) (events : Nat) (maxevents timeout : Int)
    (rounds : List (FileId → Bool)) (written : Except Errno Unit) : LockedCall Nat := do
  if epfd < 0 ∨ maxevents ≤ 0 ∨ events = 0 then throw .EINVAL
  else if timeout < -1 then throw .EINVAL
  else
    let file ← getFile epfd
    let ftype ← holding (.file file) (look fun tables => (tables.objects file).ftype)
    if ftype ≠ .Epoll then throw .EINVAL
    else epollRounds epfd maxevents.toNat written rounds

/-! ### Naming, listening and connecting -/

def doSocket (caller : Caller) (domain sockType protocol : Int) : LockedCall Nat := do
  if domain ≠ AF_INET ∧ domain ≠ AF_UNIX then throw .EAFNOSUPPORT
  else allocSocketFd caller domain sockType protocol

/-- What `read_sockaddr_un_path` and `read_sockaddr_in` return. -/
structure UserAddress where
  path : Except Errno (List UInt8)
  inet : Except Errno (Nat × Nat)

def doBind (fd : Int) (address : UserAddress) : LockedCall Nat := do
  ensureSocketFd fd
  let owner ← ownerOf fd
  let socket ← stateOf owner
  if socket.domain = AF_UNIX then
    let path ← given address.path
    holding .unixPathOwner do
      let taken ← look fun tables => (tables.unixPathOwner path).any (· ≠ owner)
      -- set_socket_error is called with UNIX_PATH_OWNER locked
      if taken then failSocket fd .EADDRINUSE
    holding .unixPathOwner (change fun tables =>
      { tables with unixPathOwner := Function.update tables.unixPathOwner path (some owner) })
    holding .ownerUnixPath (change fun tables =>
      { tables with ownerUnixPath := Function.update tables.ownerUnixPath owner (some path) })
    changeState owner fun socket => { socket with bound := true, lastError := 0 }
    return 0
  else
    let (port, ip) ← given address.inet
    let inUse ← holding .socketState (look fun tables =>
      tables.socketState.toList.any fun entry =>
        entry.1 ≠ owner && entry.2.bound && matchesAddress entry.2 port ip)
    if inUse then failSocket fd .EADDRINUSE
    else
      changeState owner fun socket =>
        { socket with bound := true, localPort := port, localAddr := ip, lastError := 0 }
      return 0

def doListen (fd backlog : Int) : LockedCall Nat := do
  ensureSocketFd fd
  let owner ← ownerOf fd
  holding .socketState do
    let found ← look fun tables => tables.socketState[owner]?
    let socket ← ofOption .EBADF found
    if !socket.bound then throw .EINVAL
    else
      change fun tables => tables.updateState owner fun socket =>
        { socket with listening := true, backlog := (max backlog 1).toNat, lastError := 0 }
      holding .socketPending (change fun tables =>
        { tables with socketPending := tables.socketPending.insertIfNew owner [] })
      return 0

/-- Queue a client, unless it is queued already or the backlog is full; the queue as
it was before. -/
def enqueueClient (owner listenerOwner : Int) (backlog : Nat) : LockedCall (List Int) :=
  holding .socketPending do
    let queue ← look fun tables => QueueMap.queueAt tables.socketPending listenerOwner
    change fun tables =>
      { tables with
        socketPending :=
          if owner ∈ queue ∨ backlog ≤ queue.length then
            tables.socketPending.insertIfNew listenerOwner []
          else QueueMap.push tables.socketPending listenerOwner owner }
    return queue

/-- `do_connect` once the listener is known. -/
def connectTo (fd owner listenerOwner : Int) (backlog : Nat)
    (connected : SocketState → SocketState) : LockedCall Nat := do
  let queue ← enqueueClient owner listenerOwner backlog
  if owner ∈ queue then return 0
  else if backlog ≤ queue.length then failSocket fd .EAGAIN
  else
    changeState owner connected
    return 0

def doConnect (fd : Int) (address : UserAddress) : LockedCall Nat := do
  ensureSocketFd fd
  let owner ← ownerOf fd
  let socket ← stateOf owner
  let connected ← holding .socketState (look fun tables =>
    (tables.socketState[owner]?).any SocketState.connected)
  if connected then failSocket fd .EISCONN
  else if socket.domain = AF_UNIX then
    let path ← given address.path
    let found ← holding .unixPathOwner (look fun tables => tables.unixPathOwner path)
    let listenerOwner ← ofOption .ECONNREFUSED found
    if listenerOwner = owner then failSocket fd .EINVAL
    else
      let listener ← stateOf listenerOwner
      if !listener.listening then failSocket fd .ECONNREFUSED
      else connectTo fd owner listenerOwner (max listener.backlog 1) connectedUnix
  else
    let (port, ip) ← given address.inet
    let listenerOwner ← holding .socketState do
      let found ← readAt (.listenerLookup port ip) fun world => listenerAt world.tables port ip
      match found with
      | some listenerOwner => return listenerOwner
      -- set_socket_error is called with SOCKET_STATE locked
      | none => failSocket fd .ECONNREFUSED
    if listenerOwner = owner then failSocket fd .EINVAL
    else
      let backlog ← holding .socketState (look fun tables =>
        (tables.socketState[listenerOwner]?.map SocketState.backlog).getD 1)
      connectTo fd owner listenerOwner backlog (connectedInet owner port ip)

/-- The loop of `do_accept4`: the first client in the queue. A thread that is still
waiting after the last of the rounds never returns here. -/
def awaitClient (fd listenerOwner : Int) (nonblock : Bool) : (rounds : Nat) → LockedCall Int
  | 0 => stuck
  | rounds + 1 => do
      let first ← holding .socketPending do
        let found ← look fun tables => tables.socketPending[listenerOwner]?
        let queue ← ofOption .EBADF found
        return queue.head?
      match first with
      | some clientOwner => return clientOwner
      | none =>
        if nonblock then failSocket fd .EAGAIN
        else awaitClient fd listenerOwner nonblock rounds

/-- `SOCK_NONBLOCK` of `do_accept4`. -/
def markNonblocking (fd flags : Nat) : LockedCall Unit := do
  if flags &&& SOCK_NONBLOCK ≠ 0 then
    match ← (getFile fd).attempt with
    | .ok file =>
      holding (.file file) (change fun tables =>
        let object := tables.objects file
        { tables with
          objects := Function.update tables.objects file
            { object with flags := object.flags ||| O_NONBLOCK } })
    | .error _ => return ()

/-- The second look of `do_accept4` at the queue: take the client out, or give up the
new descriptor if the client is gone. -/
def dequeueClient (listenerOwner clientOwner : Int) (acceptedFd : Nat) : LockedCall Unit :=
  holding .socketPending do
    let gone ← readAt (.pendingRecheck listenerOwner clientOwner) fun world =>
      (world.tables.socketPending[listenerOwner]?).any (clientOwner ∉ ·)
    if gone then
      -- cleanup_socket_fd is called with SOCKET_PENDING locked
      cleanupSocketFd acceptedFd
      throw .EAGAIN
    else
      change fun tables =>
        { tables with
          socketPending := tables.socketPending.modify listenerOwner (·.erase clientOwner) }

/-- Connect the two ends of an accepted connection. -/
def joinEnds (listener : SocketState) (acceptedOwner clientOwner : Int) : LockedCall Unit :=
  holding .socketState do
    let found ← look fun tables => tables.socketState[clientOwner]?
    let client ← ofOption .EBADF found
    change fun tables =>
      (tables.updateState acceptedOwner (acceptedFrom listener client clientOwner)).updateState
        clientOwner (acceptedBy listener acceptedOwner)

/-- The last part of `do_accept4`: write the client's address, when asked for. -/
def reportClient (addr addrlen : Nat) (clientOwner : Int) (reported : Except Errno Unit) :
    LockedCall Unit := do
  if addr ≠ 0 ∧ addrlen ≠ 0 then
    let _ ← stateOf clientOwner
    given reported

/-- `do_accept4`; `reported` is the outcome of writing the client's address. -/
def doAccept4 (caller : Caller) (fd : Int) (addr addrlen flags rounds : Nat)
    (reported : Except Errno Unit) : LockedCall Nat := do
  ensureSocketFd fd
  let listenerOwner ← ownerOf fd
  let listener ← stateOf listenerOwner
  if !listener.listening then throw .EINVAL
  else
    let nonblocking ← isNonblockingFd fd
    let nonblock := nonblocking || flags &&& SOCK_NONBLOCK ≠ 0
    let clientOwner ← awaitClient fd listenerOwner nonblock rounds
    let acceptedFd ← allocSocketFd caller listener.domain listener.sockType listener.protocol
    markNonblocking acceptedFd flags
    let acceptedOwner ← ownerOf acceptedFd
    dequeueClient listenerOwner clientOwner acceptedFd
    joinEnds listener acceptedOwner clientOwner
    reportClient addr addrlen clientOwner reported
    setSocketError fd 0
    return acceptedFd

/-! ### Messages -/

/-- What `do_sendmsg` reads from user memory: the bytes, and for each control
message of type `SCM_RIGHTS` that holds a descriptor its descriptors. -/
structure SentMessage where
  payload : List UInt8
  rights : Except Errno (List (List Int))

/-- Queue the files behind the descriptors of one control message; `SOCKET_RIGHTS` is
locked while the descriptors are looked up. -/
def queueRights (peer : Int) (fds : List Int) : LockedCall Unit :=
  holding .socketRights do
    change fun tables => { tables with socketRights := tables.socketRights.insertIfNew peer [] }
    forEach (fun fd => do
      if 0 ≤ fd then
        match ← (getFile fd).attempt with
        | .ok file =>
          change fun tables =>
            { tables with socketRights := QueueMap.push tables.socketRights peer file }
        | .error _ => pure ()) fds

/-- Append bytes to the receive queue of a socket. -/
def queueBytes (peer : Int) (payload : List UInt8) : LockedCall Unit := do
  if !payload.isEmpty then
    holding .socketRx (change fun tables => tables.queueBytes peer payload)

def doSendmsg (fd : Int) (message : Except Errno SentMessage) : LockedCall Nat := do
  ensureSocketFd fd
  let owner ← ownerOf fd
  let socket ← stateOf owner
  if !socket.connected || socket.peerOwner < 0 then failSocket fd .ENOTCONN
  else
    let message ← given message
    queueBytes socket.peerOwner message.payload
    let rights ← given message.rights
    forEach (queueRights socket.peerOwner) rights
    setSocketError fd 0
    return message.payload.length

/-- The loop of `do_recvmsg`: the whole receive queue once it holds something. -/
def awaitBytes (fd owner : Int) : (rounds : Nat) → LockedCall (List UInt8)
  | 0 => stuck
  | rounds + 1 => do
      let queue ← holding .socketRx (updateAt .plain
        (fun world => QueueMap.queueAt world.tables.socketRx owner)
        fun world => { world with tables := world.tables.leaveBytes owner [] })
      if !queue.isEmpty then return queue
      else if ← isNonblockingFd fd then failSocket fd .EAGAIN
      else awaitBytes fd owner rounds

/-- What `do_recvmsg` finds in user memory: the length of the control buffer, if it
has one of at least 16 bytes, and the outcomes of its writes. -/
structure ReceivedMessage where
  scattered : Except Errno Nat
  control : Option Nat
  controlWritten : Except Errno Unit
  headerWritten : Except Errno Unit

/-- Take the files that wait for a socket; `SOCKET_RIGHTS` is locked while descriptors
are allocated. -/
def takeRights (owner : Int) (controllen : Nat) (written : Except Errno Unit) :
    LockedCall Unit :=
  holding .socketRights do
    change fun tables => { tables with socketRights := tables.socketRights.insertIfNew owner [] }
    let pending ← look fun tables => QueueMap.queueAt tables.socketRights owner
    let take := rightsTaken controllen pending
    if 0 < take then
      forEach (fun file => do let _ ← (allocFd file).attempt) (pending.take take)
      given written
      change fun tables =>
        { tables with socketRights := tables.socketRights.insert owner (pending.drop take) }

/-- The control part of `do_recvmsg`, for a message that has one. -/
def receiveRights (owner : Int) (message : ReceivedMessage) : LockedCall Unit :=
  match message.control with
  | some controllen => takeRights owner controllen message.controlWritten
  | none => return ()

def doRecvmsg (fd : Int) (message : Except Errno ReceivedMessage) (rounds : Nat) :
    LockedCall Nat := do
  ensureSocketFd fd
  let owner ← ownerOf fd
  let message ← given message
  let _ ← awaitBytes fd owner rounds
  let copied ← given message.scattered
  receiveRights owner message
  given message.headerWritten
  setSocketError fd 0
  return copied

/-! ### The calls -/

inductive Entry where
  | socket (caller : Caller) (domain sockType protocol : Int)
  | bind (fd : Int) (address : UserAddress)
  | listen (fd backlog : Int)
  | accept4 (caller : Caller) (fd : Int) (addr addrlen flags rounds : Nat)
      (reported : Except Errno Unit)
  | connect (fd : Int) (address : UserAddress)
  | ppoll (fds : Except Errno (List (Int × Nat))) (rounds : List (FileId → Bool))
      (written : Except Errno Unit)
  | epollPwait (epfd : Int) (events : Nat) (maxevents timeout : Int)
      (rounds : List (FileId → Bool)) (written : Except Errno Unit)
  | close (fd : Nat)
  | dup (oldfd : Nat)
  | dup3 (oldfd newfd flags : Nat)
  | sendmsg (fd : Int) (message : Except Errno SentMessage)
  | recvmsg (fd : Int) (message : Except Errno ReceivedMessage) (rounds : Nat)

def Entry.call : Entry → LockedCall Nat
  | .socket caller domain sockType protocol => doSocket caller domain sockType protocol
  | .bind fd address => doBind fd address
  | .listen fd backlog => doListen fd backlog
  | .accept4 caller fd addr addrlen flags rounds reported =>
    doAccept4 caller fd addr addrlen flags rounds reported
  | .connect fd address => doConnect fd address
  | .ppoll fds rounds written => sysPpoll fds rounds written
  | .epollPwait epfd events maxevents timeout rounds written =>
    Locked.epollPwait epfd events maxevents timeout rounds written
  | .close fd => Locked.close fd
  | .dup oldfd => dupFd oldfd
  | .dup3 oldfd newfd flags => dup3Fd oldfd newfd flags
  | .sendmsg fd message => doSendmsg fd message
  | .recvmsg fd message rounds => doRecvmsg fd message rounds

/-- A call whose result goes back to user code. -/
def Entry.code (entry : Entry) : LockedCall Unit := do
  let _ ← entry.call
  return ()

abbrev Machine (cpus : Nat) := LockState World Lock Site Errno (Fin cpus)

/-- A processor enters a call, or takes one step of the call it is in. -/
abbrev Label (cpus : Nat) := LockLabel (Fin cpus) Entry

abbrev Machine.step {cpus : Nat} (machine : Machine cpus) (label : Label cpus) :
    Option (Machine cpus) :=
  LockState.step Entry.code machine label

abbrev Machine.run {cpus : Nat} : Machine cpus → List (Label cpus) → Option (Machine cpus) :=
  LabelledRun.run Machine.step

/-- A processor enters a call and takes a number of steps in it. -/
def enter {cpus : Nat} (cpu : Fin cpus) (entry : Entry) (steps : Nat) : List (Label cpus) :=
  .start cpu entry :: List.replicate steps (.advance cpu)

end Cyllor.Net.Locked
