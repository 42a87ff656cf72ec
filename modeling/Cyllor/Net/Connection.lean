import Cyllor.Net.Socket

/-!
Contract: the calls that create, name and connect sockets (`net/mod.rs`:
`do_socket`, `do_bind`, `do_listen`, `do_accept4`, `do_connect`,
`do_socketpair`).

Owns: these calls with their address parsing, checks and table updates.
-/

namespace Cyllor.Net

open Cyllor.Fs Cyllor.Syscall
open Call hiding pure bind

/-! ### Addresses in user memory -/

/-- `read_sockaddr_in`: port and address. -/
def readSockaddrIn (addr addrlen : Nat) : UserCall (Nat × Nat) := do
  if addr = 0 ∨ addrlen < 8 then throw .EINVAL
  else
    let raw ← copyFromUser addr 16
    if (u16Le raw 0 : Int) ≠ AF_INET then throw .EAFNOSUPPORT
    else return (u16Be raw 2, u32Be raw 4)

/-- `read_sockaddr_un_path`: an abstract path keeps its leading NUL and its full
length, any other ends at its first NUL. -/
def readSockaddrUnPath (addr addrlen : Nat) : UserCall (List UInt8) := do
  if addr = 0 ∨ addrlen < 3 then throw .EINVAL
  else
    let raw ← copyFromUser addr addrlen
    if (u16Le raw 0 : Int) ≠ AF_UNIX then throw .EAFNOSUPPORT
    else
      let path := raw.drop 2
      let name := path.takeWhile (· ≠ 0)
      if path.isEmpty then throw .EINVAL
      else if path.head? = some 0 then return path
      else if name.isEmpty then throw .EINVAL
      else return name

def writeSockaddrIn (addr addrlenPtr port ip : Nat) : UserCall Unit := do
  if addrlenPtr = 0 then throw .EFAULT
  else
    let raw ← copyFromUser addrlenPtr 4
    let userLen := u32Le raw 0
    let sa := leBytes 2 AF_INET.toNat ++ beBytes 2 port ++ beBytes 4 ip ++ List.replicate 8 0
    -- min(user_len, 16) bytes, none when the address is null
    copyToUser addr (if addr = 0 then [] else sa.take userLen)
    copyToUser addrlenPtr (leBytes 4 sa.length)

/-! ### Creating sockets -/

def freshSocket (caller : Caller) (domain sockType protocol : Int) : SocketState :=
  { domain := domain
    sockType := sockType
    protocol := protocol
    peerOwner := -1
    creatorPid := caller.pid
    creatorUid := if caller.euid ≠ 0 then caller.euid else caller.uid
    creatorGid := if caller.egid ≠ 0 then caller.egid else caller.gid }

/-- Enter a new socket into the socket tables, keyed by its descriptor. -/
def Tables.addSocket (tables : Tables) (fd : Int) (socket : SocketState) : Tables :=
  { tables with
    socketAlias := tables.socketAlias.insert fd fd
    socketState := tables.socketState.insert fd socket
    socketPending := tables.socketPending.insertIfNew fd []
    socketRx := tables.socketRx.insertIfNew fd [] }

def allocSocketFd (caller : Caller) (domain sockType protocol : Int) : NetCall Nat := do
  let file ← newFile ⟨.Socket, 0⟩
  let fd ← allocFd file
  modify fun tables => tables.addSocket fd (freshSocket caller domain sockType protocol)
  return fd

def doSocket (caller : Caller) (domain sockType protocol : Int) : NetCall Nat := do
  if domain ≠ AF_INET ∧ domain ≠ AF_UNIX then throw .EAFNOSUPPORT
  else allocSocketFd caller domain sockType protocol

def pairedWith (peer : Int) (socket : SocketState) : SocketState :=
  { socket with connected := true, bound := true, peerOwner := peer }

def doSocketpair (caller : Caller) (domain sockType protocol : Int) (sv : Nat) : NetCall Nat := do
  if domain ≠ AF_UNIX then throw .EAFNOSUPPORT
  else if sv = 0 then throw .EFAULT
  else
    let fd0 ← allocSocketFd caller domain sockType protocol
    let fd1 ← allocSocketFd caller domain sockType protocol
    let o0 ← gets fun tables => tables.ownerOf fd0
    let o1 ← gets fun tables => tables.ownerOf fd1
    modify fun tables => (tables.updateState o0 (pairedWith o1)).updateState o1 (pairedWith o0)
    onUser (copyToUser sv (leBytes 4 fd0 ++ leBytes 4 fd1))
    return 0

/-! ### Naming and listening -/

/-- An address in use by a bound socket: the same port and address, where 0
stands for any address. -/
def matchesAddress (socket : SocketState) (port ip : Nat) : Bool :=
  socket.localPort = port ∧ (socket.localAddr = ip ∨ socket.localAddr = 0 ∨ ip = 0)

def doBind (fd : Int) (addr addrlen : Nat) : NetCall Nat := do
  ensureSocketFd fd
  let (owner, socket) ← socketOf fd
  if socket.domain = AF_UNIX then
    let path ← onUser (readSockaddrUnPath addr addrlen)
    let taken ← gets fun tables => (tables.unixPathOwner path).any (· ≠ owner)
    if taken then failSocket fd .EADDRINUSE
    else
      modify fun tables =>
        { tables with
          unixPathOwner := Function.update tables.unixPathOwner path (some owner)
          ownerUnixPath := Function.update tables.ownerUnixPath owner (some path) }
      modify fun tables => tables.updateState owner fun socket =>
        { socket with bound := true, lastError := 0 }
      return 0
  else
    let (port, ip) ← onUser (readSockaddrIn addr addrlen)
    let inUse ← gets fun tables => tables.socketState.toList.any fun entry =>
      entry.1 ≠ owner && entry.2.bound && matchesAddress entry.2 port ip
    if inUse then failSocket fd .EADDRINUSE
    else
      modify fun tables => tables.updateState owner fun socket =>
        { socket with bound := true, localPort := port, localAddr := ip, lastError := 0 }
      return 0

def doListen (fd : Int) (backlog : Int) : NetCall Nat := do
  ensureSocketFd fd
  let (owner, socket) ← socketOf fd
  if !socket.bound then throw .EINVAL
  else
    modify fun tables => tables.updateState owner fun socket =>
      { socket with listening := true, backlog := (max backlog 1).toNat, lastError := 0 }
    modify fun tables =>
      { tables with socketPending := tables.socketPending.insertIfNew owner [] }
    return 0

/-! ### Connecting -/

/-- `do_connect` once the listener is known: queue the client, unless it is queued
already or the backlog is full, and mark it connected. -/
def connectTo (fd owner listenerOwner : Int) (backlog : Nat)
    (connected : SocketState → SocketState) : NetCall Nat := do
  let queue ← gets fun tables => QueueMap.queueAt tables.socketPending listenerOwner
  if owner ∈ queue then
    -- entry(listener).or_default() before the early return
    modify fun tables =>
      { tables with socketPending := tables.socketPending.insertIfNew listenerOwner [] }
    return 0
  else if backlog ≤ queue.length then
    modify fun tables =>
      { tables with socketPending := tables.socketPending.insertIfNew listenerOwner [] }
    failSocket fd .EAGAIN
  else
    modify fun tables =>
      { tables with socketPending := QueueMap.push tables.socketPending listenerOwner owner }
    modify fun tables => tables.updateState owner connected
    return 0

/-- The client state after an `AF_UNIX` connect. -/
def connectedUnix (socket : SocketState) : SocketState :=
  { socket with connected := true, lastError := 0 }

/-- The client state after an `AF_INET` connect: an unbound client gets a port
derived from its owner number. -/
def connectedInet (owner : Int) (port ip : Nat) (socket : SocketState) : SocketState :=
  { socket with
    connected := true
    peerPort := port
    peerAddr := ip
    bound := true
    localPort :=
      if socket.bound then socket.localPort
      else min (49152 + (owner.toNat % 2 ^ 16 &&& 0x0fff)) (2 ^ 16 - 1)
    localAddr := if socket.bound then socket.localAddr else 0
    lastError := 0 }

/-- The first listening socket, in owner order, at an `AF_INET` address. The
domain of the listener is not looked at. -/
def listenerAt (tables : Tables) (port ip : Nat) : Option Int :=
  tables.socketState.toList.findSome? fun entry =>
    if entry.2.listening && entry.2.bound && matchesAddress entry.2 port ip then some entry.1
    else none

def doConnect (fd : Int) (addr addrlen : Nat) : NetCall Nat := do
  ensureSocketFd fd
  let (owner, socket) ← socketOf fd
  if socket.connected then failSocket fd .EISCONN
  else if socket.domain = AF_UNIX then
    let path ← onUser (readSockaddrUnPath addr addrlen)
    let found ← gets fun tables => tables.unixPathOwner path
    let listenerOwner ← ofOption .ECONNREFUSED found
    if listenerOwner = owner then failSocket fd .EINVAL
    else
      let state ← gets fun tables => tables.socketState[listenerOwner]?
      let listener ← ofOption .EBADF state
      if !listener.listening then failSocket fd .ECONNREFUSED
      else connectTo fd owner listenerOwner (max listener.backlog 1) connectedUnix
  else
    let (port, ip) ← onUser (readSockaddrIn addr addrlen)
    let found ← gets fun tables => listenerAt tables port ip
    match found with
    -- set_socket_error is called with SOCKET_STATE locked
    | none => hang
    | some listenerOwner =>
      if listenerOwner = owner then failSocket fd .EINVAL
      else
        let backlog ← gets fun tables =>
          (tables.socketState[listenerOwner]?.map SocketState.backlog).getD 1
        connectTo fd owner listenerOwner backlog (connectedInet owner port ip)

/-- The accepted end of a connection. -/
def acceptedFrom (listener client : SocketState) (clientOwner : Int) (socket : SocketState) :
    SocketState :=
  { socket with
    bound := true
    connected := true
    localAddr := listener.localAddr
    localPort := listener.localPort
    peerAddr := client.localAddr
    peerPort := client.localPort
    peerOwner := clientOwner }

/-- The client end of an accepted connection. -/
def acceptedBy (listener : SocketState) (acceptedOwner : Int) (socket : SocketState) :
    SocketState :=
  { socket with
    connected := true
    peerAddr := listener.localAddr
    peerPort := listener.localPort
    peerOwner := acceptedOwner }

/-- `SOCK_NONBLOCK` of `do_accept4`: make the object behind the new descriptor
non-blocking. -/
def Tables.markNonblocking (tables : Tables) (fd flags : Nat) : Tables :=
  if flags &&& SOCK_NONBLOCK ≠ 0 then
    match tables.fds.get? fd with
    | some file =>
      let object := tables.objects file
      { tables with
        objects := Function.update tables.objects file
          { object with flags := object.flags ||| O_NONBLOCK } }
    | none => tables
  else tables

/-- The last part of `do_accept4`: write the client's address, when asked for. -/
def reportClient (addr addrlen : Nat) (joined : Option SocketState) : UserCall Unit := do
  if addr ≠ 0 ∧ addrlen ≠ 0 then
    let client ← ofOption .EBADF joined
    writeSockaddrIn addr addrlen client.localPort client.localAddr
  else return ()

/-- `do_accept4` once a client is known. -/
def acceptClient (caller : Caller) (fd : Int) (addr addrlen flags : Nat) (listenerOwner : Int)
    (listener : SocketState) (clientOwner : Int) : NetCall Nat := do
  let acceptedFd ← allocSocketFd caller listener.domain listener.sockType listener.protocol
  modify fun tables => tables.markNonblocking acceptedFd flags
  let acceptedOwner ← gets fun tables => tables.ownerOf acceptedFd
  let gone ← gets fun tables =>
    (tables.socketPending[listenerOwner]?).any (clientOwner ∉ ·)
  -- cleanup_socket_fd is called with SOCKET_PENDING locked
  if gone then hang
  else
    modify fun tables =>
      { tables with
        socketPending := tables.socketPending.modify listenerOwner (·.erase clientOwner) }
    let found ← gets fun tables => tables.socketState[clientOwner]?
    let client ← ofOption .EBADF found
    modify fun tables =>
      (tables.updateState acceptedOwner (acceptedFrom listener client clientOwner)).updateState
        clientOwner (acceptedBy listener acceptedOwner)
    let joined ← gets fun tables => tables.socketState[clientOwner]?
    onUser (reportClient addr addrlen joined)
    modify fun tables => tables.setSocketError fd 0
    return acceptedFd

def doAccept4 (caller : Caller) (fd : Int) (addr addrlen flags : Nat) : NetCall Nat := do
  ensureSocketFd fd
  let (listenerOwner, listener) ← socketOf fd
  if !listener.listening then throw .EINVAL
  else
    let found ← gets fun tables => tables.socketPending[listenerOwner]?
    let queue ← ofOption .EBADF found
    match queue with
    | [] => do
        let nonblocking ← gets fun tables => tables.isNonblockingFd fd
        if nonblocking || flags &&& SOCK_NONBLOCK ≠ 0 then failSocket fd .EAGAIN else hang
    | clientOwner :: _ =>
      acceptClient caller fd addr addrlen flags listenerOwner listener clientOwner

end Cyllor.Net
