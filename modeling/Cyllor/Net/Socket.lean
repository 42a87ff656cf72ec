import Cyllor.Fs.FdTable
import Cyllor.Lib.QueueMap
import Cyllor.Syscall.UserMemory

/-!
Contract: the socket tables, and the calls that duplicate and close descriptors
(`net/mod.rs`, `fs/fdtable.rs`, `F_DUPFD` of `fs/mod.rs`).

Owns:
- `Tables`, the descriptor table together with the socket tables;
- the calls on descriptors, as far as they touch sockets.

A call runs to its end as one step. A call that waits for another thread, or
that would lock a mutex it already holds, does not return here.
-/

namespace Cyllor.Net

open Cyllor.Fs Cyllor.Syscall
open Call hiding pure bind

structure SocketState where
  domain : Int := 0
  sockType : Int := 0
  protocol : Int := 0
  bound : Bool := false
  connected : Bool := false
  listening : Bool := false
  backlog : Nat := 0
  localAddr : Nat := 0
  localPort : Nat := 0
  peerAddr : Nat := 0
  peerPort : Nat := 0
  peerOwner : Int := 0
  lastError : Int := 0
  creatorPid : Nat := 0
  creatorUid : Nat := 0
  creatorGid : Nat := 0
deriving DecidableEq, Repr

def AF_UNIX : Int := 1
def AF_INET : Int := 2
def O_NONBLOCK : Nat := 0o4000
def SOCK_NONBLOCK : Nat := 0x800

structure Caller where
  memory : UserMemory
  pid : Nat
  uid : Nat
  gid : Nat
  euid : Nat
  egid : Nat

/-- The descriptor table, the file objects, the socket tables and the memory of
the calling thread. A socket is keyed by its owner, the number of the descriptor
it was created on. -/
structure Tables where
  user : UserMemory
  fds : FdTable
  objects : FileId → FileObject
  nextFile : FileId
  socketState : BTreeMap Int SocketState
  socketPending : QueueMap Int Int
  socketRx : QueueMap Int UInt8
  socketAlias : BTreeMap Int Int
  unixPathOwner : List UInt8 → Option Int
  ownerUnixPath : Int → Option (List UInt8)
  socketRights : QueueMap Int FileId

abbrev NetCall (α : Type) := Call Tables Errno α

namespace Tables

def boot : Tables where
  user := ⟨fun _ => none, fun _ => false⟩
  fds := FdTable.init
  objects _ := ⟨.PtySlave, 0⟩
  nextFile := 3
  socketState := ∅
  socketPending := ∅
  socketRx := ∅
  socketAlias := ∅
  unixPathOwner _ := none
  ownerUnixPath _ := none
  socketRights := ∅

def isSocket (tables : Tables) (file : FileId) : Bool := (tables.objects file).ftype = .Socket

def ownerOf (tables : Tables) (fd : Int) : Int := (tables.socketAlias[fd]?).getD fd

def updateState (tables : Tables) (owner : Int) (change : SocketState → SocketState) : Tables :=
  { tables with socketState := tables.socketState.modify owner change }

def setSocketError (tables : Tables) (fd error : Int) : Tables :=
  tables.updateState (tables.ownerOf fd) fun socket => { socket with lastError := error }

def isNonblockingFd (tables : Tables) (fd : Int) : Bool :=
  if fd < 0 then true
  else
    match tables.fds.get? fd.toNat with
    | some file => (tables.objects file).flags &&& O_NONBLOCK ≠ 0
    | none => true

/-- `has_alias` of `cleanup_socket_fd`: some descriptor is an alias of the owner. -/
def hasAlias (tables : Tables) (owner : Int) : Bool :=
  tables.socketAlias.toList.any fun entry => entry.2 = owner

/-- `cleanup_socket_fd`: drop the alias and, with the last alias of an owner,
everything keyed by or pointing to that owner. -/
def cleanupSocketFd (tables : Tables) (fd : Int) : Tables :=
  let owner := tables.ownerOf fd
  let unaliased := { tables with socketAlias := tables.socketAlias.erase fd }
  if unaliased.hasAlias owner then unaliased
  else
    { unaliased with
      socketState := (unaliased.socketState.erase owner).map fun _ socket =>
        if socket.peerOwner = owner then { socket with peerOwner := -1, connected := false }
        else socket
      socketPending := QueueMap.retainAll (unaliased.socketPending.erase owner) (· ≠ owner)
      socketRx := unaliased.socketRx.erase owner
      socketRights := unaliased.socketRights.erase owner
      ownerUnixPath := Function.update unaliased.ownerUnixPath owner none
      unixPathOwner :=
        match unaliased.ownerUnixPath owner with
        | some path => Function.update unaliased.unixPathOwner path none
        | none => unaliased.unixPathOwner }

def cloneSocketFd (tables : Tables) (oldfd newfd : Int) : Tables :=
  { tables with socketAlias := tables.socketAlias.insert newfd (tables.ownerOf oldfd) }

/-- Make a new descriptor an alias, if the file it gets is a socket. -/
def shareSocket (tables : Tables) (file : FileId) (oldfd newfd : Int) : Tables :=
  if tables.isSocket file then tables.cloneSocketFd oldfd newfd else tables

/-- Give up the socket that a descriptor holds, if it holds one. -/
def releaseSocket (tables : Tables) (fd : Nat) : Tables :=
  match tables.fds.files fd with
  | some target => if tables.isSocket target then tables.cleanupSocketFd fd else tables
  | none => tables

end Tables

def onUser {α : Type} (call : UserCall α) : NetCall α :=
  zoom Tables.user (fun user tables => { tables with user := user }) call

/-! ### Descriptors -/

/-- `get_file`, for a descriptor passed as `i32` or `u32`. -/
def getFile (fd : Int) : NetCall FileId := do
  let found ← gets fun tables => if 0 ≤ fd then tables.fds.get? fd.toNat else none
  ofOption .EBADF found

def allocFdFromCloexec (start : Nat) (file : FileId) (cloexec : Bool) : NetCall Nat := do
  let free ← gets fun tables => tables.fds.lowestFree start
  let fd ← ofOption .EMFILE free
  modify fun tables => { tables with fds := tables.fds.install fd file cloexec }
  return fd

def allocFd (file : FileId) : NetCall Nat := allocFdFromCloexec 3 file false

def newFile (object : FileObject) : NetCall FileId := do
  let file ← gets fun tables => tables.nextFile
  modify fun tables =>
    { tables with
      objects := Function.update tables.objects file object
      nextFile := file + 1 }
  return file

def ensureSocketFd (fd : Int) : NetCall Unit := do
  let file ← getFile fd
  let isSocket ← gets fun tables => tables.isSocket file
  if isSocket then return () else throw .ENOTSOCK

def socketOf (fd : Int) : NetCall (Int × SocketState) := do
  let owner ← gets fun tables => tables.ownerOf fd
  let found ← gets fun tables => tables.socketState[owner]?
  let socket ← ofOption .EBADF found
  return (owner, socket)

/-- Record an error on the socket and return it. -/
def failSocket {α : Type} (fd : Int) (error : Errno) : NetCall α := do
  modify fun tables => tables.setSocketError fd error.code
  throw error

def closeFd (fd : Nat) : NetCall Nat := do
  let _ ← getFile fd
  modify fun tables => tables.releaseSocket fd
  modify fun tables => { tables with fds := tables.fds.clear fd }
  return 0

def dupFd (oldfd : Nat) : NetCall Nat := do
  let file ← getFile oldfd
  let free ← gets fun tables => tables.fds.lowestFree 3
  let fd ← ofOption .EMFILE free
  modify fun tables => tables.shareSocket file oldfd fd
  modify fun tables => { tables with fds := tables.fds.install fd file false }
  return fd

def dup3Fd (oldfd newfd flags : Nat) : NetCall Nat := do
  if oldfd = newfd then throw .EINVAL
  else if flags ≠ 0 then throw .EINVAL
  else
    let file ← getFile oldfd
    if MAX_FDS ≤ newfd then throw .EBADF
    else
      modify fun tables => tables.releaseSocket newfd
      modify fun tables => tables.shareSocket file oldfd newfd
      modify fun tables => { tables with fds := tables.fds.install newfd file false }
      return newfd

/-- `fcntl` with `F_DUPFD` or, for `cloexec`, `F_DUPFD_CLOEXEC`. -/
def fcntlDupfd (fd start : Nat) (cloexec : Bool) : NetCall Nat := do
  let file ← getFile fd
  let newfd ← allocFdFromCloexec (max start 3) file cloexec
  modify fun tables => tables.shareSocket file fd newfd
  return newfd

/-- `fcntl` with `F_SETFL`. -/
def fcntlSetfl (fd flags : Nat) : NetCall Nat := do
  let file ← getFile fd
  modify fun tables =>
    { tables with
      objects := Function.update tables.objects file
        { tables.objects file with flags := flags % 2 ^ 32 } }
  return 0

/-- Any call that opens a descriptor of another type. -/
def openFile (object : FileObject) : NetCall Nat := do
  if object.ftype = .Socket then hang
  else
    let file ← newFile object
    allocFd file

/-- `pipe2`, which ignores its flags. -/
def pipe2 (pipefd : Nat) : NetCall Nat := do
  let readFile ← newFile ⟨.Pipe, 0⟩
  let writeFile ← newFile ⟨.Pipe, 1⟩
  let rfd ← allocFd readFile
  let wfd ← allocFd writeFile
  onUser (storeUser pipefd (leBytes 4 rfd))
  onUser (storeUser (pipefd + 4) (leBytes 4 wfd))
  return 0

end Cyllor.Net
