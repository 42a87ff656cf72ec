import Cyllor.Lib.LabelledRun
import Cyllor.Net.Message

/-!
Contract: the socket layer as a system that takes one call after another.

Owns: the calls as labels, and the step of the tables under a call. Between two
calls user code may change its memory, so every call brings the memory its caller
sees. Also one rule for each part that the calls are built from, and frame rules.
-/

namespace Cyllor.Net

open Cyllor.Fs Cyllor.Syscall

inductive Label where
  | socket (domain sockType protocol : Int)
  | socketpair (domain sockType protocol : Int) (sv : Nat)
  | bind (fd : Int) (addr addrlen : Nat)
  | listen (fd : Int) (backlog : Int)
  | accept4 (fd : Int) (addr addrlen flags : Nat)
  | connect (fd : Int) (addr addrlen : Nat)
  | sendto (fd : Int) (buf len : Nat)
  | sendmsg (fd : Int) (msg : Nat)
  | recvfrom (fd : Int) (buf len flags srcAddr addrlen : Nat)
  | recvmsg (fd : Int) (msg : Nat)
  | close (fd : Nat)
  | dup (oldfd : Nat)
  | dup3 (oldfd newfd flags : Nat)
  | dupfd (fd start : Nat) (cloexec : Bool)
  | setfl (fd flags : Nat)
  | openFile (object : FileObject)
deriving DecidableEq, Repr

/-- What a call returns: a number, or the bytes that a data call moved. -/
inductive Reply where
  | value (number : Nat)
  | bytes (data : List UInt8)
deriving DecidableEq, Repr

structure Event where
  caller : Caller
  label : Label

/-- A call by the superuser, with the given bytes mapped at the given addresses and
room for pages elsewhere. -/
def Event.byRoot (mapped : List (Nat × List UInt8)) (label : Label) : Event where
  caller :=
    { memory :=
        { byte := fun addr => mapped.findSome? fun (base, bytes) =>
            if base ≤ addr then bytes[addr - base]? else none
          room := fun _ => true }
      pid := 1
      uid := 0
      gid := 0
      euid := 0
      egid := 0 }
  label := label

def Event.call (event : Event) : NetCall Reply :=
  let caller := event.caller
  match event.label with
  | .socket domain sockType protocol => do
      return .value (← doSocket caller domain sockType protocol)
  | .socketpair domain sockType protocol sv => do
      return .value (← doSocketpair caller domain sockType protocol sv)
  | .bind fd addr addrlen => do return .value (← doBind fd addr addrlen)
  | .listen fd backlog => do return .value (← doListen fd backlog)
  | .accept4 fd addr addrlen flags => do
      return .value (← doAccept4 caller fd addr addrlen flags)
  | .connect fd addr addrlen => do return .value (← doConnect fd addr addrlen)
  | .sendto fd buf len => do return .bytes (← doSendto fd buf len)
  | .sendmsg fd msg => do return .bytes (← doSendmsg fd msg)
  | .recvfrom fd buf len flags srcAddr addrlen => do
      return .bytes (← doRecvfrom fd buf len flags srcAddr addrlen)
  | .recvmsg fd msg => do return .bytes (← doRecvmsg fd msg)
  | .close fd => do return .value (← closeFd fd)
  | .dup oldfd => do return .value (← dupFd oldfd)
  | .dup3 oldfd newfd flags => do return .value (← dup3Fd oldfd newfd flags)
  | .dupfd fd start cloexec => do return .value (← fcntlDupfd fd start cloexec)
  | .setfl fd flags => do return .value (← fcntlSetfl fd flags)
  | .openFile object => do return .value (← openFile object)

namespace Tables

/-- The tables as the caller enters the kernel. -/
def entered (tables : Tables) (event : Event) : Tables :=
  { tables with user := event.caller.memory }

/-- A whole call, with what it returns. -/
def perform (tables : Tables) (event : Event) : Option (Except Errno Reply × Tables) :=
  event.call (tables.entered event)

def step (tables : Tables) (event : Event) : Option Tables :=
  (tables.perform event).map Prod.snd

abbrev run : Tables → List Event → Option Tables := LabelledRun.run step

end Tables

/-! ### Postconditions and frames -/

open Call hiding pure bind

/-- The descriptors that the next allocations from a table return. -/
def nextFds (fds : FdTable) : (count : Nat) → List Nat
  | 0 => []
  | count + 1 =>
    match fds.lowestFree 3 with
    | none => []
    | some fd => fd :: nextFds (fds.install fd 0 false) count

/-- The descriptor is open and refers to a socket. -/
def Tables.OpenSocket (tables : Tables) (fd : Nat) (file : FileId) : Prop :=
  tables.fds.get? fd = some file ∧ tables.isSocket file = true

/-! ### Postconditions of the descriptor calls -/

section Primitives

variable {tables : Tables}

@[simp] theorem wp_getFile {fd : Nat} {post : Except Errno FileId → Tables → Prop} :
    wp (getFile fd) post tables ↔
      (tables.fds.get? fd = none → post (.error .EBADF) tables) ∧
        ∀ file, tables.fds.get? fd = some file → post (.ok file) tables := by
  simp [getFile]

theorem wp_ensureSocketFd {fd : Int} {post : Except Errno Unit → Tables → Prop}
    (fails : ∀ error, post (.error error) tables)
    (passes : ∀ number : Nat, ∀ file, fd = number → tables.fds.get? number = some file →
      tables.isSocket file = true → post (.ok ()) tables) :
    wp (ensureSocketFd fd) post tables := by
  simp only [ensureSocketFd, getFile, wp_bind, wp_gets, wp_ofOption, wp_ite,
    wp_pure, wp_throw]
  refine ⟨fun _ => fails _, fun file found => ⟨fun socket => ?_, fun _ => fails _⟩⟩
  split at found
  · next nonneg => exact passes fd.toNat file (Int.toNat_of_nonneg nonneg).symm found socket
  · cases found

@[simp] theorem wp_socketOf {fd : Int} {post : Except Errno (Int × SocketState) → Tables → Prop} :
    wp (socketOf fd) post tables ↔
      (tables.socketState[tables.ownerOf fd]? = none → post (.error .EBADF) tables) ∧
        ∀ socket, tables.socketState[tables.ownerOf fd]? = some socket →
          post (.ok (tables.ownerOf fd, socket)) tables := by
  simp [socketOf]

@[simp] theorem wp_allocFdFromCloexec {start : Nat} {file : FileId} {cloexec : Bool}
    {post : Except Errno Nat → Tables → Prop} :
    wp (allocFdFromCloexec start file cloexec) post tables ↔
      (tables.fds.lowestFree start = none → post (.error .EMFILE) tables) ∧
        ∀ fd, tables.fds.lowestFree start = some fd →
          post (.ok fd) { tables with fds := tables.fds.install fd file cloexec } := by
  simp [allocFdFromCloexec]

@[simp] theorem wp_newFile {object : FileObject} {post : Except Errno FileId → Tables → Prop} :
    wp (newFile object) post tables ↔
      post (.ok tables.nextFile)
        { tables with
          objects := Function.update tables.objects tables.nextFile object
          nextFile := tables.nextFile + 1 } := by
  simp [newFile]

/-- The tables after `alloc_socket_fd` found a descriptor. -/
def Tables.withNewSocket (tables : Tables) (fd : Nat) (socket : SocketState) : Tables :=
  Tables.addSocket
    { tables with
      objects := Function.update tables.objects tables.nextFile ⟨.Socket, 0⟩
      nextFile := tables.nextFile + 1
      fds := tables.fds.install fd tables.nextFile false }
    fd socket

@[simp] theorem wp_allocSocketFd {caller : Caller} {domain sockType protocol : Int}
    {post : Except Errno Nat → Tables → Prop} :
    wp (allocSocketFd caller domain sockType protocol) post tables ↔
      (tables.fds.lowestFree 3 = none →
        post (.error .EMFILE)
          { tables with
            objects := Function.update tables.objects tables.nextFile ⟨.Socket, 0⟩
            nextFile := tables.nextFile + 1 }) ∧
        ∀ fd, tables.fds.lowestFree 3 = some fd →
          post (.ok fd)
            (tables.withNewSocket fd (freshSocket caller domain sockType protocol)) := by
  simp [allocSocketFd, allocFd, Tables.withNewSocket]

end Primitives

/-! ### Frames -/

section Frame

variable {relation : Tables → Tables → Prop} [IsPreorder Tables relation]

theorem keeps_getFile (fd : Int) : (getFile fd).Keeps relation :=
  (keeps_gets _).bind fun _ => keeps_ofOption _ _

theorem keeps_ensureSocketFd (fd : Int) : (ensureSocketFd fd).Keeps relation :=
  (keeps_getFile fd).bind fun _ => (keeps_gets _).bind fun _ =>
    (keeps_pure _).ite (keeps_throw _)

theorem keeps_socketOf (fd : Int) : (socketOf fd).Keeps relation :=
  (keeps_gets _).bind fun _ => (keeps_gets _).bind fun _ =>
    (keeps_ofOption _ _).bind fun _ => keeps_pure _

omit [IsPreorder Tables relation] in
theorem keeps_onUser {α : Type} (call : UserCall α)
    (ignored : ∀ tables user, relation tables { tables with user := user }) :
    (onUser call).Keeps relation :=
  keeps_zoom (fun user tables => ignored tables user) call

end Frame

end Cyllor.Net
