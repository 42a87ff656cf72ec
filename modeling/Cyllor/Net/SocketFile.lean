import Cyllor.Net.System
import Cyllor.Syscall.UserMemory

/-!
Contract: `write` and `read` at a socket against `sendto` and `recvfrom` (`sys_write` and
`sys_read` of `syscall/fs.rs`, `FileObject::write` and `FileObject::read` of `fs/vfs.rs`).

Owns: what the file calls do at a socket, and when they agree with the socket calls.
-/

namespace Cyllor.Net

open Cyllor.Fs Cyllor.Syscall QueueMap
open Call hiding pure bind

/-- `fd_write` at a socket: the file object takes the bytes and drops them. -/
def fdWrite (fd : Nat) (bytes : List UInt8) : NetCall Nat := do
  let _ ← getFile fd
  return bytes.length

/-- `sys_read` at a socket: the file object has nothing to read. -/
def sysRead (fd : Nat) : NetCall Nat := do
  let _ ← getFile fd
  return 0

namespace Tables

/-- The descriptor is open, and its socket is connected to a peer. -/
structure Connected (tables : Tables) (fd : Nat) (socket : SocketState) : Prop where
  isOpen : ∃ file, tables.OpenSocket fd file
  stated : tables.socketState[tables.ownerOf fd]? = some socket
  connected : socket.connected = true
  peer : 0 ≤ socket.peerOwner

/-- The number of bytes that a socket call returns, and the tables after it. -/
def counted (outcome : Option (Except Errno (List UInt8) × Tables)) :
    Option (Except Errno Nat × Tables) :=
  outcome.map fun (result, after) => (result.map List.length, after)

/-- `write` is `sendto` of the same buffer, up to a short transfer. -/
def WriteAgrees (tables : Tables) (fd buf count : Nat) : Prop :=
  ∃ sent ≤ count, (0 < count → 0 < sent) ∧
    sysWrite tables.user (fdWrite fd) buf count tables = counted (doSendto fd buf sent tables)

/-- `read` is `recvfrom` with the same buffer, up to a short transfer. -/
def ReadAgrees (tables : Tables) (fd buf count : Nat) : Prop :=
  ∃ asked ≤ count, (0 < count → 0 < asked) ∧
    sysRead fd tables = counted (doRecvfrom fd buf asked 0 0 0 tables)

variable {tables : Tables} {fd : Nat} {socket : SocketState}

theorem sysRead_eq (isOpen : ∃ file, tables.OpenSocket fd file) :
    sysRead fd tables = some (.ok 0, tables) := by
  obtain ⟨file, found, -⟩ := isOpen
  simp [sysRead, getFile, Bind.bind, Call.bind, gets, ofOption, found, Call.pure, Pure.pure]

/-- A receive that returns has found bytes, returns the first of them and clears the error. -/
theorem wp_doRecvfrom (stated : tables.socketState[tables.ownerOf fd]? = some socket)
    (buf asked : Nat) :
    wp (doRecvfrom fd buf asked 0 0 0) (fun result after => ∀ out, result = .ok out →
      queueAt tables.socketRx (tables.ownerOf fd) ≠ [] ∧
        out = (queueAt tables.socketRx (tables.ownerOf fd)).take asked ∧
        after.socketState[tables.ownerOf fd]? = some { socket with lastError := 0 }) tables := by
  have sameQueue : queueAt (tables.socketRx.insertIfNew (tables.ownerOf fd) [])
      (tables.ownerOf fd) = queueAt tables.socketRx (tables.ownerOf fd) := by
    rw [queueAt, queueAt, Std.ExtTreeMap.getElem?_insertIfNew]
    cases found : tables.socketRx[tables.ownerOf fd]? <;>
      simp [Std.ExtTreeMap.mem_iff_isSome_getElem?, found]
  rw [doRecvfrom, wp_bind]
  refine wp_ensureSocketFd (by rintro _ _ ⟨⟩) fun _ _ _ _ _ => ?_
  dsimp only
  rw [wp_bind_gets, wp_bind, awaitBytes, wp_bind_modify, wp_bind_gets, wp_ite]
  constructor
  · intro _
    rw [wp_bind_gets, wp_ite, failSocket, wp_bind_modify, wp_throw]
    exact ⟨by rintro _ _ ⟨⟩, fun _ => wp_hang⟩
  · intro nonempty
    rw [sameQueue] at nonempty
    rw [wp_pure, sameQueue]
    dsimp only
    rw [wp_bind_modify, wp_bind, onUser, wp_zoom]
    intro copied user _
    cases copied with
    | error error => rintro _ ⟨⟩
    | ok _ =>
      dsimp only
      rw [wp_bind_gets, wp_bind, onUser, wp_zoom, reportSource, if_neg (by simp), wp_pure]
      dsimp only
      rw [wp_bind_modify, wp_pure]
      rintro _ ⟨⟩
      refine ⟨by simpa using nonempty, rfl, ?_⟩
      show (tables.socketState.modify (tables.ownerOf fd) _)[tables.ownerOf fd]? = _
      rw [Std.ExtTreeMap.getElem?_modify_self, stated]
      rfl

theorem insert_stored {Value : Type} {map : BTreeMap Int Value} {key : Int} {value : Value}
    (found : map[key]? = some value) (other : Value) :
    map.insert key value = map ∧ map.insertIfNew key other = map := by
  have listed : key ∈ map := by rw [Std.ExtTreeMap.mem_iff_isSome_getElem?, found]; rfl
  constructor
  · apply Std.ExtTreeMap.ext_getElem?
    intro at_
    rw [Std.ExtTreeMap.getElem?_insert]
    split
    case isTrue same => rw [← Std.LawfulEqOrd.eq_of_compare same, found]
    case isFalse => rfl
  · apply Std.ExtTreeMap.ext_getElem?
    intro at_
    rw [Std.ExtTreeMap.getElem?_insertIfNew, if_neg fun isNew => isNew.2 listed]

theorem setSocketError_zero (stated : tables.socketState[tables.ownerOf fd]? = some socket)
    (noError : socket.lastError = 0) : tables.setSocketError fd 0 = tables := by
  have same : tables.socketState.modify (tables.ownerOf fd)
      (fun socket => { socket with lastError := 0 }) = tables.socketState := by
    apply Std.ExtTreeMap.ext_getElem?
    intro other
    rw [Std.ExtTreeMap.getElem?_modify]
    split
    case isTrue isOwner =>
      rw [← Std.LawfulEqOrd.eq_of_compare isOwner, stated, Option.map_some, ← noError]
    case isFalse => rfl
  rw [setSocketError, updateState, same]

theorem sendto_nothing (connected : tables.Connected fd socket) (noError : socket.lastError = 0)
    (buf : Nat) : doSendto fd buf 0 tables = some (.ok [], tables) := by
  obtain ⟨⟨file, found, isSocket⟩, stated, isConnected, peer⟩ := connected
  simp [doSendto, sendPeer, ensureSocketFd, getFile, socketOf, copyFromUser, queueBytes,
    onUser, zoom, Call.modify, Bind.bind, Call.bind, gets, ofOption, Call.pure, Pure.pure, found,
    isSocket, stated, isConnected, Int.not_lt.mpr peer, setSocketError_zero stated noError]

theorem recvfrom_nothing (connected : tables.Connected fd socket) (noError : socket.lastError = 0)
    (queued : queueAt tables.socketRx (tables.ownerOf fd) ≠ []) (buf : Nat) :
    doRecvfrom fd buf 0 0 0 0 tables = some (.ok [], tables) := by
  obtain ⟨⟨file, found, isSocket⟩, stated, -⟩ := connected
  obtain ⟨queue, isQueue⟩ : ∃ queue, tables.socketRx[tables.ownerOf fd]? = some queue := by
    by_contra absent
    rw [← Option.isSome_iff_exists, Option.not_isSome_iff_eq_none] at absent
    rw [queueAt, absent] at queued
    exact queued rfl
  have isQueued : queueAt tables.socketRx (tables.ownerOf fd) = queue := by
    rw [queueAt, isQueue]
    rfl
  obtain ⟨stays, isThere⟩ := insert_stored isQueue []
  rw [isQueued] at queued
  simp [doRecvfrom, ensureSocketFd, getFile, awaitBytes, leaveBytes, copyToUser, reportSource,
    onUser, zoom, Call.modify, Bind.bind, Call.bind, gets, ofOption, Call.pure, Pure.pure, found,
    isSocket, isQueued, queued, stays, isThere, setSocketError_zero stated noError]

/-- At a connected socket the file calls do what the socket calls do exactly if they are asked
for no byte, no error is recorded, and bytes are queued. -/
theorem file_calls_agree_iff {buf count : Nat} (connected : tables.Connected fd socket) :
    tables.WriteAgrees fd buf count ∧ tables.ReadAgrees fd buf count ↔
      count = 0 ∧ socket.lastError = 0 ∧
        queueAt tables.socketRx (tables.ownerOf fd) ≠ [] := by
  have reads := sysRead_eq connected.isOpen
  constructor
  · rintro ⟨-, asked, within, some, same⟩
    rw [reads] at same
    obtain ⟨⟨result, after⟩, returned, isCounted⟩ := Option.map_eq_some_iff.mp same.symm
    obtain ⟨isNothing, rfl⟩ := Prod.mk.inj isCounted
    cases result with
    | error error => cases isNothing
    | ok out =>
      obtain ⟨queued, isOut, cleared⟩ := wp_doRecvfrom connected.stated buf asked _ _ returned _ rfl
      rw [connected.stated] at cleared
      have empty : out.length = 0 := Except.ok.inj isNothing
      have none : asked = 0 := by
        rw [isOut, List.length_take] at empty
        have := List.length_pos_iff.mpr queued
        omega
      exact ⟨by omega, congrArg SocketState.lastError (Option.some.inj cleared), queued⟩
  · rintro ⟨rfl, noError, queued⟩
    constructor
    · refine ⟨0, Nat.le_refl 0, id, ?_⟩
      rw [sendto_nothing connected noError]
      rfl
    · refine ⟨0, Nat.le_refl 0, id, ?_⟩
      rw [reads, recvfrom_nothing connected noError queued]
      rfl

/-- Two sockets that are connected to each other, with a byte queued for the first. -/
def socketPair : Tables where
  user := ⟨fun addr => if addr < PAGE_SIZE then some 7 else none, fun _ => false⟩
  fds := (FdTable.init.install 3 3 false).install 4 4 false
  objects file := if file = 3 ∨ file = 4 then ⟨.Socket, 0⟩ else ⟨.PtySlave, 0⟩
  nextFile := 5
  socketState := (Std.ExtTreeMap.empty.insert 3
    { domain := AF_UNIX, connected := true, peerOwner := 4 }).insert 4
      { domain := AF_UNIX, connected := true, peerOwner := 3 }
  socketPending := ∅
  socketRx := Std.ExtTreeMap.empty.insert 3 [1]
  socketAlias := ∅
  unixPathOwner _ := none
  ownerUnixPath _ := none
  socketRights := ∅

theorem file_calls_agree_iff_pair :
    socketPair.WriteAgrees 3 0 0 ∧ socketPair.ReadAgrees 3 0 0 ↔
      0 = 0 ∧ (0 : Int) = 0 ∧ queueAt socketPair.socketRx (socketPair.ownerOf 3) ≠ [] :=
  file_calls_agree_iff
    (show socketPair.Connected 3 { domain := AF_UNIX, connected := true, peerOwner := 4 } from
      ⟨⟨3, rfl, rfl⟩, rfl, rfl, by decide⟩)

/-- A written byte is reported and reaches no queue, and a read reports the end of the file
while a byte is queued. -/
theorem file_calls_lose_bytes :
    sysWrite socketPair.user (fdWrite 3) 0 1 socketPair = some (.ok 1, socketPair) ∧
      queueAt socketPair.socketRx 4 = [] ∧
      (∃ after, doSendto 3 0 1 socketPair = some (.ok [7], after) ∧
        queueAt after.socketRx 4 = [7]) ∧
      sysRead 3 socketPair = some (.ok 0, socketPair) ∧
      ∃ after, doRecvfrom 3 0 1 0 0 0 socketPair = some (.ok [1], after) :=
  ⟨rfl, rfl, ⟨_, rfl, rfl⟩, rfl, _, rfl⟩

end Tables

end Cyllor.Net
