import Cyllor.Fs.FdTable
import Cyllor.Syscall.UserMemory

/-!
Contract: reading files that hold no data of their own, and their readiness
(`FileObject::read` of `fs/vfs.rs`, `fd_ready_mask` of `syscall/io.rs`,
`ready_mask_for_fd` of `fs/mod.rs`).

Owns:
- `SpecialFile`, an object of a special type with the data that its constructor gives it;
- `Devices`, what such objects read from;
- reads with `O_NONBLOCK`, the two readiness masks, and when they agree.

A read returns the bytes for the caller's buffer. Without `O_NONBLOCK` the code repeats the
round that is modelled here until it does not end with `EAGAIN`.
-/

namespace Cyllor.Fs

open Cyllor.Syscall (leBytes)

structure TimerFdState where
  nextDeadline : Nat
  intervalTicks : Nat
  pendingExpirations : Nat
deriving DecidableEq, Repr

/-- `writeEnds` counts the open descriptors of a pipe's write end; no code looks at it. -/
inductive SpecialFile where
  | Pipe (buffer : List UInt8) (writeEnds : Nat)
  | EventFd (value : Nat)
  | TimerFd (timer : TimerFdState)
  | SignalFd (mask : BitVec 64)
  | PtyMaster (id : Nat)
  | PtySlave (id : Nat)
  | CharDevice (device : Option (Nat × Nat))
deriving DecidableEq, Repr

structure PtyQueues where
  masterRx : List UInt8
  slaveRx : List UInt8
deriving DecidableEq, Repr

/-- What special files read from. The pending signals are those of the caller. -/
structure Devices where
  counter : Nat
  ticks : Nat
  pending : BitVec 64
  consolePty : Nat
  ptys : Nat → Option PtyQueues
  kbdQueue : List (Vector UInt8 24)
  mouseQueue : List (Vector UInt8 24)
  eventQueue : List (Vector UInt8 24)
  drmEvents : List (Vector UInt8 32)

/-! ### Reads -/

namespace TimerFdState

/-- The expirations that the counter has passed become pending. -/
def catchUp (timer : TimerFdState) (now : Nat) : TimerFdState :=
  if timer.nextDeadline ≠ 0 ∧ timer.nextDeadline ≤ now then
    if timer.intervalTicks = 0 then
      { timer with
        pendingExpirations := saturatingAdd timer.pendingExpirations 1
        nextDeadline := 0 }
    else
      let periods := (now - timer.nextDeadline) / timer.intervalTicks + 1
      { timer with
        pendingExpirations := saturatingAdd timer.pendingExpirations periods
        nextDeadline :=
          saturatingAdd timer.nextDeadline (saturatingMul periods timer.intervalTicks) }
  else timer

/-- A round of `read`: the expirations that it returns. -/
def read (timer : TimerFdState) (now : Nat) : Except Errno Nat × TimerFdState :=
  let caught := timer.catchUp now
  if 0 < caught.pendingExpirations then
    (.ok caught.pendingExpirations, { caught with pendingExpirations := 0 })
  else (.error .EAGAIN, caught)

/-- What both masks ask of a timer. -/
def due (timer : TimerFdState) (now : Nat) : Bool :=
  decide (0 < timer.pendingExpirations ∨ timer.nextDeadline ≠ 0 ∧ timer.nextDeadline ≤ now)

end TimerFdState

def signalfdReady (pending mask : BitVec 64) : Bool := pending &&& mask ≠ 0#64

/-- `signalfd_consume`: the lowest pending signal of the mask, and what stays pending. -/
def signalfdConsume (pending mask : BitVec 64) : Option (Nat × BitVec 64) :=
  ((List.range 64).find? fun bit => (pending &&& mask).getLsbD bit).map fun bit =>
    (bit + 1, pending &&& ~~~(1#64 <<< bit))

/-- `drain_queue` and `drm::read_events`: as many whole records as the count has room for. -/
def takeRecords {size : Nat} (queue : List (Vector UInt8 size)) (count : Nat) :
    List UInt8 × List (Vector UInt8 size) :=
  ((queue.take (count / size)).flatMap Vector.toList, queue.drop (count / size))

/-- The bytes of `/dev/urandom`. -/
def urandom : (count seed : Nat) → List UInt8
  | 0, _ => []
  | count + 1, seed =>
    let next := (seed * 6364136223846793005 + 1442695040888963407) % 2 ^ 64
    UInt8.ofNat (next >>> 33) :: urandom count next

namespace Devices

/-- A read from one of the queues of a terminal. -/
def readRx (rx : PtyQueues → List UInt8) (leave : PtyQueues → List UInt8 → PtyQueues)
    (devices : Devices) (id count : Nat) : Except Errno (List UInt8) × Devices :=
  match devices.ptys id with
  | none => (.error .EAGAIN, devices)
  | some pty =>
    if (rx pty).isEmpty then (.error .EAGAIN, devices)
    else (.ok ((rx pty).take count), { devices with
      ptys := Function.update devices.ptys id (some (leave pty ((rx pty).drop count))) })

def readMaster : Devices → Nat → Nat → Except Errno (List UInt8) × Devices :=
  readRx PtyQueues.masterRx fun pty left => { pty with masterRx := left }

def readSlave : Devices → Nat → Nat → Except Errno (List UInt8) × Devices :=
  readRx PtyQueues.slaveRx fun pty left => { pty with slaveRx := left }

/-- What both masks ask of a terminal. -/
def rxReady (rx : PtyQueues → List UInt8) (devices : Devices) (id : Nat) : Bool :=
  decide (id ≠ 2 ^ 32 - 1) && (devices.ptys id).any fun pty => !(rx pty).isEmpty

/-- `read_events_for_minor`. -/
def readEvents (devices : Devices) (minor count : Nat) : List UInt8 × Devices :=
  match minor with
  | 64 =>
    let (bytes, left) := takeRecords devices.kbdQueue count
    (bytes, { devices with kbdQueue := left })
  | 65 =>
    let (bytes, left) := takeRecords devices.mouseQueue count
    (bytes, { devices with mouseQueue := left })
  | _ =>
    let (bytes, left) := takeRecords devices.eventQueue count
    (bytes, { devices with eventQueue := left })

/-- A read from a character device, by its numbers. -/
def readDevice (devices : Devices) (count : Nat) :
    Option (Nat × Nat) → Except Errno (List UInt8) × Devices
  | some (1, 3) => (.ok [], devices)
  | some (1, 5) => (.ok (List.replicate count 0), devices)
  | some (1, 9) => (.ok (urandom count devices.ticks), devices)
  | some (13, minor) =>
    if 64 ≤ minor ∧ minor ≤ 127 then
      let (bytes, left) := devices.readEvents minor count
      (.ok bytes, left)
    else (.ok [], devices)
  | some (226, _) =>
    let (bytes, left) := takeRecords devices.drmEvents count
    (.ok bytes, { devices with drmEvents := left })
  | some (5, _) => devices.readSlave devices.consolePty count
  | _ => (.ok [], devices)

end Devices

namespace SpecialFile

/-- A round of `FileObject::read`. -/
def read (file : SpecialFile) (devices : Devices) (count : Nat) :
    Except Errno (List UInt8) × SpecialFile × Devices :=
  match file with
  | .Pipe buffer writeEnds =>
    (.ok (buffer.take count), .Pipe (buffer.drop count) writeEnds, devices)
  | .EventFd value =>
    if count < 8 then (.error .EINVAL, file, devices)
    else (.ok (leBytes 8 value), .EventFd 0, devices)
  | .TimerFd timer =>
    if count < 8 then (.error .EINVAL, file, devices)
    else
      let (result, left) := timer.read devices.counter
      (result.map (leBytes 8), .TimerFd left, devices)
  | .SignalFd mask =>
    if count < 128 then (.error .EINVAL, file, devices)
    else
      match signalfdConsume devices.pending mask with
      | some (sig, pending) =>
        (.ok (leBytes 4 sig ++ List.replicate 124 0), file, { devices with pending })
      | none => (.error .EAGAIN, file, devices)
  | .PtyMaster id =>
    let (result, left) := devices.readMaster id count
    (result, file, left)
  | .PtySlave id =>
    let (result, left) := devices.readSlave id count
    (result, file, left)
  | .CharDevice device =>
    let (result, left) := devices.readDevice count device
    (result, file, left)

/-! ### Readiness -/

/-- The bits by the type of the file, which both masks find in the same way. -/
def readyBits (file : SpecialFile) (devices : Devices) : Nat :=
  match file with
  | .CharDevice _ => POLLIN ||| POLLOUT
  | .Pipe buffer _ => (if buffer.isEmpty then 0 else POLLIN) ||| POLLOUT
  | .EventFd value => (if 0 < value then POLLIN else 0) ||| POLLOUT
  | .TimerFd timer => if timer.due devices.counter then POLLIN else 0
  | .SignalFd mask => if signalfdReady devices.pending mask then POLLIN else 0
  | .PtyMaster id =>
    (if devices.rxReady PtyQueues.masterRx id then POLLIN else 0) ||| POLLOUT
  | .PtySlave id =>
    (if devices.rxReady PtyQueues.slaveRx id then POLLIN else 0) ||| POLLOUT

def fdReadyMask (file : SpecialFile) (devices : Devices) (interest : Nat) : Nat :=
  file.readyBits devices &&& (interest ||| (POLLERR ||| POLLHUP ||| POLLNVAL))

/-- `ready_mask_for_fd`; the `EPOLL` bits have the values of the `POLL` bits. -/
def readyMaskForFd (file : SpecialFile) (devices : Devices) (interest : Nat) : Nat :=
  file.readyBits devices &&& (interest ||| (POLLERR ||| POLLHUP))

/-! ### Agreement of the masks with reads -/

end SpecialFile

/-- The queue that `read_events_for_minor` takes from. -/
def Devices.inputQueue (devices : Devices) : Nat → List (Vector UInt8 24)
  | 64 => devices.kbdQueue
  | 65 => devices.mouseQueue
  | _ => devices.eventQueue

/-- A device that reads from a queue has something in it. -/
def Devices.Queued (devices : Devices) : Option (Nat × Nat) → Prop
  | some (13, minor) => 64 ≤ minor ∧ minor ≤ 127 → devices.inputQueue minor ≠ []
  | some (226, _) => devices.drmEvents ≠ []
  | some (5, _) => ∃ pty, devices.ptys devices.consolePty = some pty ∧ pty.slaveRx ≠ []
  | _ => True

namespace SpecialFile

/-- No data will come any more: a pipe without a write end, or a device without a queue. -/
def AtEnd : SpecialFile → Prop
  | .Pipe _ writeEnds => writeEnds = 0
  | .CharDevice (some (13, minor)) => ¬(64 ≤ minor ∧ minor ≤ 127)
  | .CharDevice (some (226, _)) => False
  | .CharDevice (some (5, _)) => False
  | .CharDevice _ => True
  | _ => False

/-- The bytes that a read has to ask for. -/
def leastCount : SpecialFile → Nat
  | .EventFd _ => 8
  | .TimerFd _ => 8
  | .SignalFd _ => 128
  | .CharDevice (some (13, _)) => 24
  | .CharDevice (some (226, _)) => 32
  | _ => 1

/-- A read returns data or the end of the file. -/
def ReadsNow (file : SpecialFile) (devices : Devices) (count : Nat) : Prop :=
  ∃ bytes, (file.read devices count).1 = .ok bytes ∧ (bytes ≠ [] ∨ file.AtEnd)

/-- The states in which the masks say what a read does. -/
def Agrees (file : SpecialFile) (devices : Devices) : Prop :=
  match file with
  | .Pipe buffer writeEnds => buffer ≠ [] ∨ 0 < writeEnds
  | .EventFd value => 0 < value
  | .TimerFd _ => True
  | .SignalFd _ => True
  | .PtyMaster id => id = 2 ^ 32 - 1 → ∀ pty, devices.ptys id = some pty → pty.masterRx = []
  | .PtySlave id => id = 2 ^ 32 - 1 → ∀ pty, devices.ptys id = some pty → pty.slaveRx = []
  | .CharDevice device => devices.Queued device

end SpecialFile

theorem and_pollin_ne_zero_iff (bits : Nat) : bits &&& POLLIN ≠ 0 ↔ bits.testBit 0 = true := by
  rw [POLLIN, Nat.and_one_is_mod, Nat.testBit_zero, decide_eq_true_iff]
  omega

theorem testBit_mask {bits interest always : Nat} (asked : interest &&& POLLIN ≠ 0) :
    (bits &&& (interest ||| always)).testBit 0 = bits.testBit 0 := by
  rw [and_pollin_ne_zero_iff] at asked
  rw [Nat.testBit_and, Nat.testBit_or, asked, Bool.true_or, Bool.and_true]

theorem saturatingAdd_succ_pos (left right : Nat) : 0 < saturatingAdd left (right + 1) :=
  lt_min (by omega) (by decide)

theorem TimerFdState.due_iff_read (timer : TimerFdState) (now : Nat) :
    timer.due now = true ↔ ∃ count, (timer.read now).1 = .ok count := by
  have caught : 0 < (timer.catchUp now).pendingExpirations ↔ timer.due now = true := by
    rw [due, decide_eq_true_iff, catchUp]
    split
    case isTrue passed =>
      split
      · exact ⟨fun _ => .inr passed, fun _ => saturatingAdd_succ_pos _ 0⟩
      · exact ⟨fun _ => .inr passed, fun _ => saturatingAdd_succ_pos _ _⟩
    case isFalse waits => exact ⟨.inl, fun found => found.resolve_right waits⟩
  rw [← caught, read]
  split
  case isTrue found => exact ⟨fun _ => ⟨_, rfl⟩, fun _ => found⟩
  case isFalse none => exact ⟨fun found => absurd found none, fun ⟨_, same⟩ => nomatch same⟩

theorem signalfdReady_iff_consume (pending mask : BitVec 64) :
    signalfdReady pending mask = true ↔ ∃ taken, signalfdConsume pending mask = some taken := by
  rw [signalfdReady, decide_eq_true_iff, signalfdConsume, ← Option.isSome_iff_exists,
    Option.isSome_map, List.find?_isSome]
  refine ⟨fun some => ?_, fun ⟨bit, _, set⟩ zero => ?_⟩
  · by_contra none
    push Not at none
    refine some (BitVec.eq_of_getLsbD_eq fun bit below => ?_)
    rw [BitVec.getLsbD_zero]
    exact Bool.eq_false_iff.mpr (none bit (List.mem_range.mpr below))
  · rw [zero, BitVec.getLsbD_zero] at set
    cases set

theorem takeRecords_ne_nil_iff {size : Nat} (positive : 0 < size)
    (queue : List (Vector UInt8 size)) {count : Nat} (enough : size ≤ count) :
    (takeRecords queue count).1 ≠ [] ↔ queue ≠ [] := by
  have some : 0 < count / size := Nat.div_pos enough positive
  cases queue with
  | nil => simp [takeRecords]
  | cons record rest =>
    obtain ⟨taken, isTaken⟩ := Nat.exists_eq_succ_of_ne_zero some.ne'
    have bytes : record.toList ≠ [] := by
      intro empty
      have := record.length_toList
      rw [empty] at this
      exact positive.ne this
    simp [takeRecords, isTaken, bytes]

theorem Devices.readEvents_fst (devices : Devices) (minor count : Nat) :
    (devices.readEvents minor count).1 = (takeRecords (devices.inputQueue minor) count).1 := by
  unfold readEvents inputQueue
  split <;> rfl

theorem Devices.readRx_data_iff (rx : PtyQueues → List UInt8)
    (leave : PtyQueues → List UInt8 → PtyQueues) (devices : Devices) (id : Nat) {count : Nat}
    (positive : 1 ≤ count) :
    (∃ bytes, (devices.readRx rx leave id count).1 = .ok bytes ∧ bytes ≠ []) ↔
      ∃ pty, devices.ptys id = some pty ∧ rx pty ≠ [] := by
  rw [readRx]
  cases found : devices.ptys id with
  | none => simp
  | some pty =>
    cases queue : rx pty with
    | nil => simp [queue]
    | cons byte rest => simp [queue, Nat.ne_of_gt positive]

theorem Devices.rxReady_iff (rx : PtyQueues → List UInt8) (devices : Devices) (id : Nat) :
    devices.rxReady rx id = true ↔
      id ≠ 2 ^ 32 - 1 ∧ ∃ pty, devices.ptys id = some pty ∧ rx pty ≠ [] := by
  rw [rxReady, Bool.and_eq_true, decide_eq_true_iff, Option.any_eq_true]
  simp

/-- A terminal: the mask misses data only at the number that stands for no terminal. -/
theorem Devices.rxReady_iff_data (rx : PtyQueues → List UInt8) (devices : Devices) (id : Nat) :
    (devices.rxReady rx id = true ↔ ∃ pty, devices.ptys id = some pty ∧ rx pty ≠ []) ↔
      (id = 2 ^ 32 - 1 → ∀ pty, devices.ptys id = some pty → rx pty = []) := by
  rw [rxReady_iff]
  constructor
  · intro agrees isMax pty found
    by_contra some
    exact (agrees.mpr ⟨pty, found, some⟩).1 isMax
  · intro none
    refine ⟨fun ready => ready.2, fun some => ⟨fun isMax => ?_, some⟩⟩
    obtain ⟨pty, found, bytes⟩ := some
    exact bytes (none isMax pty found)

theorem Devices.readDevice_iff (devices : Devices) (device : Option (Nat × Nat)) {count : Nat}
    (adequate : (SpecialFile.CharDevice device).leastCount ≤ count) :
    (SpecialFile.CharDevice device).ReadsNow devices count ↔ devices.Queued device := by
  unfold SpecialFile.ReadsNow SpecialFile.AtEnd Queued
  simp only [SpecialFile.read, readDevice]
  split
  case h_4 minor =>
    by_cases input : 64 ≤ minor ∧ minor ≤ 127
    · have some := takeRecords_ne_nil_iff (by omega) (devices.inputQueue minor) adequate
      simp only [input, and_self, if_true, readEvents_fst, Except.ok.injEq, exists_eq_left',
        not_true_eq_false, or_false, true_imp_iff, some]
    · simp [input]
  case h_5 =>
    have some := takeRecords_ne_nil_iff (by omega) devices.drmEvents adequate
    simp only [or_false, Except.ok.injEq, exists_eq_left', some]
  case h_6 =>
    simp only [or_false]
    exact readRx_data_iff _ _ devices _ adequate
  all_goals simp

namespace SpecialFile

theorem testBit_readyBits (file : SpecialFile) (devices : Devices) {count : Nat}
    (adequate : file.leastCount ≤ count) :
    ((file.readyBits devices).testBit 0 = true ↔ file.ReadsNow devices count) ↔
      file.Agrees devices := by
  cases file with
  | Pipe buffer writeEnds =>
    have positive : count ≠ 0 := Nat.ne_of_gt adequate
    cases buffer with
    | nil => simp [readyBits, ReadsNow, read, AtEnd, Agrees, POLLOUT, Nat.pos_iff_ne_zero]
    | cons byte rest =>
      simp [readyBits, ReadsNow, read, Agrees, POLLIN, POLLOUT, positive]
  | EventFd value =>
    have enough : ¬count < 8 := Nat.not_lt.mpr adequate
    have reads : (EventFd value).ReadsNow devices count :=
      ⟨leBytes 8 value, by rw [read, if_neg enough], .inl (by simp [leBytes])⟩
    rcases Nat.eq_zero_or_pos value with rfl | positive
    · simp [readyBits, Agrees, POLLOUT, reads]
    · simp [readyBits, Agrees, POLLIN, POLLOUT, reads, positive]
  | TimerFd timer =>
    have enough : ¬count < 8 := Nat.not_lt.mpr adequate
    have reads : (TimerFd timer).ReadsNow devices count ↔ timer.due devices.counter = true := by
      rw [timer.due_iff_read]
      cases result : (timer.read devices.counter).1 with
      | error error => simp [ReadsNow, read, enough, result, Except.map]
      | ok total => simp [ReadsNow, read, enough, result, Except.map, leBytes]
    rw [reads]
    cases due : timer.due devices.counter <;> simp [readyBits, Agrees, due, POLLIN]
  | SignalFd mask =>
    have enough : ¬count < 128 := Nat.not_lt.mpr adequate
    have reads : (SignalFd mask).ReadsNow devices count ↔
        signalfdReady devices.pending mask = true := by
      rw [signalfdReady_iff_consume]
      cases result : signalfdConsume devices.pending mask with
      | none => simp [ReadsNow, read, enough, result]
      | some taken => simp [ReadsNow, read, enough, result, leBytes]
    rw [reads]
    cases ready : signalfdReady devices.pending mask <;> simp [readyBits, Agrees, ready, POLLIN]
  | PtyMaster id =>
    have reads : (PtyMaster id).ReadsNow devices count ↔
        ∃ pty, devices.ptys id = some pty ∧ pty.masterRx ≠ [] := by
      rw [← Devices.readRx_data_iff _ (fun pty left => { pty with masterRx := left }) _ _ adequate]
      simp [ReadsNow, read, AtEnd, Devices.readMaster]
    rw [Agrees, ← Devices.rxReady_iff_data, reads]
    cases ready : devices.rxReady PtyQueues.masterRx id <;>
      simp [readyBits, ready, POLLIN, POLLOUT]
  | PtySlave id =>
    have reads : (PtySlave id).ReadsNow devices count ↔
        ∃ pty, devices.ptys id = some pty ∧ pty.slaveRx ≠ [] := by
      rw [← Devices.readRx_data_iff _ (fun pty left => { pty with slaveRx := left }) _ _ adequate]
      simp [ReadsNow, read, AtEnd, Devices.readSlave]
    rw [Agrees, ← Devices.rxReady_iff_data, reads]
    cases ready : devices.rxReady PtyQueues.slaveRx id <;>
      simp [readyBits, ready, POLLIN, POLLOUT]
  | CharDevice device =>
    rw [Devices.readDevice_iff devices device adequate, Agrees]
    simp [readyBits, POLLIN, POLLOUT]

/-- Both masks report input exactly when a read would return data or the end of the file, in
the states without a mask that is wrong: an empty pipe without writers, an `eventfd` at zero,
and a device with an empty queue. -/
theorem masks_agree_iff (file : SpecialFile) (devices : Devices) {interest count : Nat}
    (asked : interest &&& POLLIN ≠ 0) (adequate : file.leastCount ≤ count) :
    ((file.fdReadyMask devices interest &&& POLLIN ≠ 0 ↔ file.ReadsNow devices count) ∧
        (file.readyMaskForFd devices interest &&& POLLIN ≠ 0 ↔ file.ReadsNow devices count)) ↔
      file.Agrees devices := by
  simp only [and_pollin_ne_zero_iff, fdReadyMask, readyMaskForFd, testBit_mask asked]
  rw [and_self, testBit_readyBits file devices adequate]

/-- Nothing is pending, queued or running. -/
def idleDevices : Devices := ⟨0, 0, 0, 0, fun _ => none, [], [], [], []⟩

theorem masks_agree_iff_pipe :
    (((Pipe [7] 1).fdReadyMask idleDevices POLLIN &&& POLLIN ≠ 0 ↔
          (Pipe [7] 1).ReadsNow idleDevices 1) ∧
        ((Pipe [7] 1).readyMaskForFd idleDevices POLLIN &&& POLLIN ≠ 0 ↔
          (Pipe [7] 1).ReadsNow idleDevices 1)) ↔
      (Pipe [7] 1).Agrees idleDevices :=
  masks_agree_iff (Pipe [7] 1) idleDevices (by decide) (by decide)

/-- A read of an `eventfd` at zero returns eight bytes, and the masks report no input. -/
theorem masks_miss_eventfd :
    (EventFd 0).read idleDevices 8 = (.ok [0, 0, 0, 0, 0, 0, 0, 0], .EventFd 0, idleDevices) ∧
      (EventFd 0).fdReadyMask idleDevices POLLIN &&& POLLIN = 0 ∧
      (EventFd 0).readyMaskForFd idleDevices POLLIN &&& POLLIN = 0 :=
  ⟨rfl, by decide, by decide⟩

end SpecialFile

end Cyllor.Fs
