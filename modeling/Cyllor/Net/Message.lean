import Cyllor.Net.Connection

/-!
Contract: the calls that move data and descriptors between connected sockets
(`net/mod.rs`: `do_sendto`, `do_sendmsg`, `do_recvfrom`, `do_recvmsg`).

Owns: these calls with their message headers, scatter and gather lists and
control messages. A send returns the bytes it accepted and a receive the bytes it
returned; the system call's result is their number.
-/

namespace Cyllor.Net

open Cyllor.Fs Cyllor.Syscall
open Call hiding pure bind

def SOL_SOCKET : Nat := 1
def SCM_RIGHTS : Nat := 1
def MSG_PEEK : Nat := 0x2
def MSG_CTRUNC : Nat := 0x8

/-! ### Message headers and buffers -/

/-- The fields of a message header that the calls read. -/
structure Msghdr where
  iov : Nat
  iovlen : Nat
  control : Nat
  controllen : Nat
deriving DecidableEq, Repr

def readMsghdr (msghdr : Nat) : UserCall Msghdr := do
  if msghdr = 0 then throw .EFAULT
  else
    let raw ← copyFromUser msghdr 56
    return ⟨u64Le raw 16, u64Le raw 24, u64Le raw 32, u64Le raw 40⟩

def readIovec (iov entry : Nat) : UserCall (Nat × Nat) := do
  -- msg_iov + i * 16 panics on overflow
  if 2 ^ 64 ≤ iov + entry * 16 then hang
  else
    let raw ← copyFromUser (iov + entry * 16) 16
    return (u64Le raw 0, u64Le raw 8)

/-- `collect_iovecs` for `remaining` entries from `entry` on, with `total` bytes
collected so far. -/
def collectIovecsFrom (iov maxTotal : Nat) :
    (remaining entry total : Nat) → UserCall (List (List UInt8))
  | 0, _, _ => pure []
  | remaining + 1, entry, total => do
      let (base, len) ← readIovec iov entry
      if len = 0 then
        let rest ← collectIovecsFrom iov maxTotal remaining (entry + 1) total
        return [] :: rest
      else
        let take := min len (maxTotal - total)
        let buf ← copyFromUser base take
        if maxTotal ≤ total + take then return [buf]
        else
          let rest ← collectIovecsFrom iov maxTotal remaining (entry + 1) (total + take)
          return buf :: rest

def collectIovecs (iov iovlen maxTotal : Nat) : UserCall (List (List UInt8)) :=
  collectIovecsFrom iov maxTotal (min iovlen 128) 0 0

/-- `scatter_to_iovecs` for `remaining` entries from `entry` on, with `data` left
to copy. -/
def scatterToIovecsFrom (iov : Nat) : (remaining entry : Nat) → List UInt8 → UserCall Nat
  | 0, _, _ => pure 0
  | remaining + 1, entry, data => do
      if data.isEmpty then return 0
      else
        let (base, len) ← readIovec iov entry
        if len = 0 then scatterToIovecsFrom iov remaining (entry + 1) data
        else
          copyToUser base (data.take len)
          let copied ← scatterToIovecsFrom iov remaining (entry + 1) (data.drop len)
          return min len data.length + copied

/-- `scatter_to_iovecs`: the number of bytes copied. -/
def scatterToIovecs (iov iovlen : Nat) (data : List UInt8) : UserCall Nat :=
  scatterToIovecsFrom iov (min iovlen 128) 0 data

/-! ### Control messages -/

def cmsgAlign (len : Nat) : Nat := (len + 7) / 8 * 8

def i32Le (bytes : List UInt8) (offset : Nat) : Int :=
  let value := u32Le bytes offset
  if value < 2 ^ 31 then value else value - 2 ^ 32

/-- The descriptor numbers in the data of one `SCM_RIGHTS` message. -/
def rightsIn (data : List UInt8) : List Int :=
  (List.range (data.length / 4)).map fun i => i32Le data (i * 4)

/-- The descriptor numbers that the control buffer passes, in order; `none` when an
offset overflows. Every round moves on by at least 16 bytes, so `fuel` rounds
cover a buffer of that length. -/
def passedFds (cmsg : List UInt8) : (fuel off : Nat) → Option (List Int)
  | 0, _ => some []
  | fuel + 1, off =>
    if cmsg.length < off + 16 then some []
    else
      let cmsgLen := u64Le cmsg off
      if cmsgLen < 16 then some []
      else if 2 ^ 64 ≤ off + cmsgLen then none
      else if cmsg.length < off + cmsgLen then some []
      else
        let fds :=
          if u32Le cmsg (off + 8) = SOL_SOCKET ∧ u32Le cmsg (off + 12) = SCM_RIGHTS then
            rightsIn ((cmsg.drop (off + 16)).take (cmsgLen - 16))
          else []
        (passedFds cmsg fuel (off + cmsgAlign cmsgLen)).map (fds ++ ·)

/-- Queue the files behind the passed descriptors, those that are open, for
`peer`. -/
def Tables.queueRights (tables : Tables) (peer : Int) (fds : List Int) : Tables :=
  if fds.isEmpty then tables
  else
    let files := fds.filterMap fun fd => if 0 ≤ fd then tables.fds.get? fd.toNat else none
    { tables with
      socketRights := tables.socketRights.insert peer
        (QueueMap.queueAt tables.socketRights peer ++ files) }

/-- The control part of `do_sendmsg`. -/
def sendRights (header : Msghdr) (peer : Int) : NetCall Unit := do
  if header.control ≠ 0 ∧ 16 ≤ header.controllen then
    let cmsg ← onUser (copyFromUser header.control header.controllen)
    match passedFds cmsg cmsg.length 0 with
    | none => hang
    | some fds => modify fun tables => tables.queueRights peer fds
  else return ()

/-- Install received files at free descriptors; -1 stands for a file that found
none. The new descriptors get no socket alias. -/
def installReceived : List FileId → NetCall (List Int)
  | [] => pure []
  | file :: files => do
      let free ← gets fun tables => tables.fds.lowestFree 3
      modify fun tables =>
        match free with
        | some fd => { tables with fds := tables.fds.install fd file false }
        | none => tables
      let rest ← installReceived files
      return (match free with | some fd => (fd : Int) | none => -1) :: rest

def i32Bytes (value : Int) : List UInt8 := leBytes 4 (value % 2 ^ 32).toNat

/-- The number of files that a control buffer of `controllen` bytes has room for. -/
def rightsTaken (controllen : Nat) (pending : List FileId) : Nat :=
  min ((controllen - 16) / 4) pending.length

/-- The control part of `do_recvmsg`: the control length used and the message
flags. -/
def receiveRights (header : Msghdr) (owner : Int) : NetCall (Nat × Nat) := do
  if header.control ≠ 0 ∧ 16 ≤ header.controllen then
    let pending ← gets fun tables => QueueMap.queueAt tables.socketRights owner
    let take := rightsTaken header.controllen pending
    if take = 0 then return (0, if pending.isEmpty then 0 else MSG_CTRUNC)
    else
      let fds ← installReceived (pending.take take)
      let cmsgLen := 16 + take * 4
      onUser (copyToUser header.control
        (leBytes 8 cmsgLen ++ leBytes 4 SOL_SOCKET ++ leBytes 4 SCM_RIGHTS ++
          fds.flatMap i32Bytes))
      modify fun tables =>
        { tables with socketRights := tables.socketRights.insert owner (pending.drop take) }
      return (cmsgLen, if take < pending.length then MSG_CTRUNC else 0)
  else return (0, 0)

/-! ### Sending -/

/-- Append bytes to the receive queue of a socket. -/
def Tables.queueBytes (tables : Tables) (owner : Int) (bytes : List UInt8) : Tables :=
  if bytes.isEmpty then tables
  else
    { tables with
      socketRx := tables.socketRx.insert owner (QueueMap.queueAt tables.socketRx owner ++ bytes) }

/-- The peer of the socket behind a descriptor, for a send. -/
def sendPeer (fd : Int) : NetCall Int := do
  ensureSocketFd fd
  let (_, socket) ← socketOf fd
  if !socket.connected || socket.peerOwner < 0 then failSocket fd .ENOTCONN
  else return socket.peerOwner

def doSendto (fd : Int) (buf len : Nat) : NetCall (List UInt8) := do
  let peer ← sendPeer fd
  let temp ← onUser (copyFromUser buf (min len 65536))
  modify fun tables => tables.queueBytes peer temp
  modify fun tables => tables.setSocketError fd 0
  return temp

def doSendmsg (fd : Int) (msg : Nat) : NetCall (List UInt8) := do
  let peer ← sendPeer fd
  let header ← onUser (readMsghdr msg)
  let iovs ← onUser (collectIovecs header.iov header.iovlen (1 <<< 20))
  modify fun tables => tables.queueBytes peer iovs.flatten
  sendRights header peer
  modify fun tables => tables.setSocketError fd 0
  return iovs.flatten

/-! ### Receiving -/

/-- The receive queue of a socket, once it is not empty. -/
def awaitBytes (fd owner : Int) : NetCall (List UInt8) := do
  modify fun tables => { tables with socketRx := tables.socketRx.insertIfNew owner [] }
  let queue ← gets fun tables => QueueMap.queueAt tables.socketRx owner
  if queue.isEmpty then
    let nonblocking ← gets fun tables => tables.isNonblockingFd fd
    if nonblocking then failSocket fd .EAGAIN else hang
  else return queue

def Tables.leaveBytes (tables : Tables) (owner : Int) (bytes : List UInt8) : Tables :=
  { tables with socketRx := tables.socketRx.insert owner bytes }

/-- The last part of `do_recvfrom`: write the peer's address, when asked for. -/
def reportSource (srcAddr addrlen : Nat) (state : Option SocketState) : UserCall Unit := do
  if srcAddr ≠ 0 ∧ addrlen ≠ 0 then
    let socket ← ofOption .EBADF state
    if socket.connected then writeSockaddrIn srcAddr addrlen socket.peerPort socket.peerAddr
    else return ()
  else return ()

def doRecvfrom (fd : Int) (buf len flags srcAddr addrlen : Nat) : NetCall (List UInt8) := do
  ensureSocketFd fd
  let owner ← gets fun tables => tables.ownerOf fd
  let queue ← awaitBytes fd owner
  let out := queue.take len
  modify fun tables =>
    if flags &&& MSG_PEEK = 0 then tables.leaveBytes owner (queue.drop len) else tables
  onUser (copyToUser buf out)
  let state ← gets fun tables => tables.socketState[owner]?
  onUser (reportSource srcAddr addrlen state)
  modify fun tables => tables.setSocketError fd 0
  return out

/-- The last part of `do_recvmsg`: rewrite the message header. -/
def rewriteMsghdr (msg usedControl msgFlags : Nat) : UserCall Unit := do
  let raw ← copyFromUser msg 56
  copyToUser msg (raw.take 8 ++ leBytes 4 0 ++ (raw.drop 12).take 28 ++ leBytes 8 usedControl ++
    leBytes 4 msgFlags ++ raw.drop 52)

/-- `do_recvmsg`. The queue is emptied whether or not the message takes all of
it. -/
def doRecvmsg (fd : Int) (msg : Nat) : NetCall (List UInt8) := do
  ensureSocketFd fd
  let owner ← gets fun tables => tables.ownerOf fd
  let header ← onUser (readMsghdr msg)
  let out ← awaitBytes fd owner
  modify fun tables => tables.leaveBytes owner []
  let copied ← onUser (scatterToIovecs header.iov header.iovlen out)
  let (usedControl, msgFlags) ← receiveRights header owner
  onUser (rewriteMsghdr msg usedControl msgFlags)
  modify fun tables => tables.setSocketError fd 0
  return out.take copied

end Cyllor.Net
