import Cyllor.Lib.QueueMap
import Cyllor.Sched.Thread

/-!
Contract: the parts of `ipc/futex.rs` that touch no scheduler state.

Owns:
- the argument checks of `do_futex`, up to the first shared section of each
  operation;
- the sections under `FUTEX_WAITERS` and `FUTEX_TOKENS`;
- the result of a wait.
-/

namespace Cyllor.Ipc

open Cyllor.Sched (Pid)

def FUTEX_WAIT : BitVec 32 := 0
def FUTEX_WAKE : BitVec 32 := 1
def FUTEX_REQUEUE : BitVec 32 := 3
def FUTEX_CMP_REQUEUE : BitVec 32 := 4
def FUTEX_WAIT_BITSET : BitVec 32 := 9
def FUTEX_WAKE_BITSET : BitVec 32 := 10
def FUTEX_CMD_MASK : BitVec 32 := 0x7f

abbrev FutexWaiters := QueueMap Nat Pid

abbrev FutexTokens := BTreeMap Pid Nat

structure FutexArgs where
  uaddr : Nat
  futexOp : BitVec 32
  val : Nat
  timeout : Nat
  uaddr2 : Nat
  val3 : Nat
deriving DecidableEq, Repr

/-- What `do_futex` reads of its surroundings: the word at `uaddr` and the
timespec at `timeout` (`none` for a fault), and the counter frequency. -/
structure FutexView where
  word : Option Nat
  timespec : Option (Nat × Nat)
  counterFreq : Nat
deriving DecidableEq, Repr

def readTimeoutTicks (timeoutPtr : Nat) (view : FutexView) : Except Errno Nat :=
  if timeoutPtr = 0 then .ok 0
  else
    match view.timespec with
    | none => .error .EFAULT
    | some (secs, nsecs) =>
      .ok (saturatingAdd (saturatingMul secs view.counterFreq)
        (saturatingMul nsecs view.counterFreq / 1000000000))

def toSchedTicks (counterTicks counterFreq : Nat) : Nat :=
  let counterHz := max counterFreq 1
  saturatingAdd (saturatingMul counterTicks 100) (counterHz - 1) / counterHz

/-- A FUTEX_WAIT call that passed its checks. -/
structure FutexWait where
  uaddr : Nat
  val : Nat
  timeout : Nat
  timeoutTicks : Nat
  tid : Pid
deriving DecidableEq, Repr

/-- How `do_futex` continues after its argument checks. -/
inductive FutexEntry where
  | finished (result : SyscallResult)
  | wait (call : FutexWait)
  | wake (uaddr count : Nat)
  | requeue (uaddr uaddr2 nrWake nrRequeue : Nat)

/-- The checks of FUTEX_WAIT and FUTEX_WAIT_BITSET. -/
def futexWaitEntry (op : BitVec 32) (args : FutexArgs) (view : FutexView) (tid : Pid) :
    FutexEntry :=
  if op = FUTEX_WAIT_BITSET ∧ args.val3 = 0 then .finished (.error .EINVAL)
  else
    match view.word with
    | none => .finished (.error .EFAULT)
    | some current =>
      if current ≠ args.val then .finished (.error .EAGAIN)
      else
        match readTimeoutTicks args.timeout view with
        | .error errno => .finished (.error errno)
        | .ok counterTicks =>
          let timeoutTicks :=
            if args.timeout ≠ 0 then toSchedTicks counterTicks view.counterFreq else 0
          if args.timeout ≠ 0 ∧ timeoutTicks = 0 then .finished (.error .ETIMEDOUT)
          else .wait ⟨args.uaddr, args.val, args.timeout, timeoutTicks, tid⟩

/-- The checks of FUTEX_WAKE and FUTEX_WAKE_BITSET. -/
def futexWakeEntry (op : BitVec 32) (args : FutexArgs) : FutexEntry :=
  if op = FUTEX_WAKE_BITSET ∧ args.val3 = 0 then .finished (.error .EINVAL)
  else if args.val = 0 then .finished (.ok 0)
  else .wake args.uaddr args.val

/-- The checks of FUTEX_REQUEUE and FUTEX_CMP_REQUEUE; `timeout` carries the
number of waiters to move. -/
def futexRequeueEntry (op : BitVec 32) (args : FutexArgs) (view : FutexView) : FutexEntry :=
  if args.uaddr2 = 0 then .finished (.error .EINVAL)
  else if op = FUTEX_CMP_REQUEUE then
    match view.word with
    | none => .finished (.error .EFAULT)
    | some current =>
      if current ≠ args.val3 then .finished (.error .EAGAIN)
      else .requeue args.uaddr args.uaddr2 args.val args.timeout
  else .requeue args.uaddr args.uaddr2 args.val args.timeout

/-- `do_futex` up to its first shared section. -/
def doFutex (args : FutexArgs) (view : FutexView) (tid : Pid) : FutexEntry :=
  if args.uaddr = 0 then .finished (.error .EINVAL)
  else
    let op := args.futexOp &&& FUTEX_CMD_MASK
    if op = FUTEX_WAIT ∨ op = FUTEX_WAIT_BITSET then futexWaitEntry op args view tid
    else if op = FUTEX_WAKE ∨ op = FUTEX_WAKE_BITSET then futexWakeEntry op args
    else if op = FUTEX_REQUEUE ∨ op = FUTEX_CMP_REQUEUE then futexRequeueEntry op args view
    else .finished (.error .EINVAL)

private theorem futexWaitEntry_cases (op : BitVec 32) (args : FutexArgs) (view : FutexView)
    (tid : Pid) : (∃ result, futexWaitEntry op args view tid = .finished result) ∨
      ∃ call, futexWaitEntry op args view tid = .wait call ∧ call.tid = tid := by
  unfold futexWaitEntry
  split
  · exact .inl ⟨_, rfl⟩
  · split
    · exact .inl ⟨_, rfl⟩
    · split
      · exact .inl ⟨_, rfl⟩
      · split
        · exact .inl ⟨_, rfl⟩
        · dsimp only
          generalize (if args.timeout ≠ 0 then _ else 0) = timeoutTicks
          split
          · exact .inl ⟨_, rfl⟩
          · exact .inr ⟨_, rfl, rfl⟩

private theorem futexWakeEntry_cases (op : BitVec 32) (args : FutexArgs) :
    (∃ result, futexWakeEntry op args = .finished result) ∨
      futexWakeEntry op args = .wake args.uaddr args.val := by
  unfold futexWakeEntry
  split
  · exact .inl ⟨_, rfl⟩
  · split
    · exact .inl ⟨_, rfl⟩
    · exact .inr rfl

private theorem futexRequeueEntry_cases (op : BitVec 32) (args : FutexArgs) (view : FutexView) :
    (∃ result, futexRequeueEntry op args view = .finished result) ∨
      futexRequeueEntry op args view =
        .requeue args.uaddr args.uaddr2 args.val args.timeout := by
  unfold futexRequeueEntry
  split
  · exact .inl ⟨_, rfl⟩
  · split
    · split
      · exact .inl ⟨_, rfl⟩
      · split
        · exact .inl ⟨_, rfl⟩
        · exact .inr rfl
    · exact .inr rfl

/-- How `do_futex` continues: it returns, waits under the tid it was given, wakes,
or, for the two requeue operations only, requeues. -/
theorem doFutex_cases (args : FutexArgs) (view : FutexView) (tid : Pid) :
    (∃ result, doFutex args view tid = .finished result) ∨
      (∃ call, doFutex args view tid = .wait call ∧ call.tid = tid) ∨
      doFutex args view tid = .wake args.uaddr args.val ∨
      ((args.futexOp &&& FUTEX_CMD_MASK = FUTEX_REQUEUE ∨
          args.futexOp &&& FUTEX_CMD_MASK = FUTEX_CMP_REQUEUE) ∧
        doFutex args view tid = .requeue args.uaddr args.uaddr2 args.val args.timeout) := by
  unfold doFutex
  split
  · exact .inl ⟨_, rfl⟩
  · dsimp only
    split
    · rcases futexWaitEntry_cases (args.futexOp &&& FUTEX_CMD_MASK) args view tid with
        finished | waiting
      · exact .inl finished
      · exact .inr (.inl waiting)
    · split
      · rcases futexWakeEntry_cases (args.futexOp &&& FUTEX_CMD_MASK) args with finished | waking
        · exact .inl finished
        · exact .inr (.inr (.inl waking))
      · split
        case isTrue requeues =>
          rcases futexRequeueEntry_cases (args.futexOp &&& FUTEX_CMD_MASK) args view with
            finished | moving
          · exact .inl finished
          · exact .inr (.inr (.inr ⟨requeues, moving⟩))
        case isFalse => exact .inl ⟨_, rfl⟩

/-! ### Sections under `FUTEX_WAITERS` -/

/-- A waiter leaves the queue of the address it waited on. -/
def unqueueWaiter (waiters : FutexWaiters) (uaddr : Nat) (tid : Pid) : FutexWaiters :=
  match waiters[uaddr]? with
  | none => waiters
  | some queue => QueueMap.store waiters uaddr (queue.filter (· ≠ tid))

/-- FUTEX_WAKE takes up to `count` waiters from the front. -/
def popWaiters (waiters : FutexWaiters) (uaddr count : Nat) : List Pid × FutexWaiters :=
  match waiters[uaddr]? with
  | none => ([], waiters)
  | some queue => (queue.take count, QueueMap.store waiters uaddr (queue.drop count))

/-- FUTEX_REQUEUE takes up to `nrWake` waiters and moves up to `nrRequeue` more
to the back of another queue. -/
def requeueWaiters (waiters : FutexWaiters) (uaddr uaddr2 nrWake nrRequeue : Nat) :
    List Pid × FutexWaiters :=
  let source := QueueMap.queueAt waiters uaddr
  let picked := source.take nrWake
  let moved := (source.drop nrWake).take nrRequeue
  let left := QueueMap.store waiters uaddr ((source.drop nrWake).drop nrRequeue)
  (picked,
    if moved = [] then left
    else left.insert uaddr2 (QueueMap.queueAt left uaddr2 ++ moved))

open QueueMap in
theorem queueAt_unqueueWaiter (waiters : FutexWaiters) (uaddr : Nat) (tid : Pid) (other : Nat) :
    queueAt (unqueueWaiter waiters uaddr tid) other =
      if other = uaddr then (queueAt waiters uaddr).filter (· ≠ tid)
      else queueAt waiters other := by
  unfold unqueueWaiter
  cases found : waiters[uaddr]? with
  | none =>
    by_cases same : other = uaddr
    · subst same
      simp [queueAt, found]
    · simp [same]
  | some queue =>
    have stored : queueAt waiters uaddr = queue := by simp [queueAt, found]
    rw [queueAt_store, stored]

open QueueMap in
theorem popWaiters_fst (waiters : FutexWaiters) (uaddr count : Nat) :
    (popWaiters waiters uaddr count).1 = (queueAt waiters uaddr).take count := by
  cases found : waiters[uaddr]? <;> simp [popWaiters, queueAt, found]

open QueueMap in
theorem queueAt_popWaiters (waiters : FutexWaiters) (uaddr count other : Nat) :
    queueAt (popWaiters waiters uaddr count).2 other =
      if other = uaddr then (queueAt waiters uaddr).drop count else queueAt waiters other := by
  unfold popWaiters
  cases found : waiters[uaddr]? with
  | none =>
    by_cases same : other = uaddr
    · subst same
      simp [queueAt, found]
    · simp [same]
  | some queue =>
    have stored : queueAt waiters uaddr = queue := by simp [queueAt, found]
    rw [queueAt_store, stored]

open QueueMap in
/-- The queues after FUTEX_REQUEUE, also when both addresses are the same. -/
theorem queueAt_requeueWaiters (waiters : FutexWaiters)
    (uaddr uaddr2 nrWake nrRequeue other : Nat) :
    queueAt (requeueWaiters waiters uaddr uaddr2 nrWake nrRequeue).2 other =
      (if other = uaddr then ((queueAt waiters uaddr).drop nrWake).drop nrRequeue
        else queueAt waiters other) ++
      (if other = uaddr2 then ((queueAt waiters uaddr).drop nrWake).take nrRequeue else []) := by
  unfold requeueWaiters
  simp only
  split
  case isTrue nothing =>
    rw [queueAt_store, nothing]
    simp
  case isFalse =>
    rw [queueAt_insert]
    by_cases target : other = uaddr2
    · subst target
      simp [queueAt_store]
    · simp [target, queueAt_store]

/-! ### Sections under `FUTEX_TOKENS` -/

/-- One more wake token, saturating in `u32`. -/
def addToken (tokens : FutexTokens) (tid : Pid) : FutexTokens :=
  tokens.insert tid (min ((tokens[tid]?).getD 0 + 1) (2 ^ 32 - 1))

/-- Consume a wake token if there is one. -/
def takeToken (tokens : FutexTokens) (tid : Pid) : Bool × FutexTokens :=
  match tokens[tid]? with
  | none => (false, tokens)
  | some count => if count > 0 then (true, tokens.insert tid (count - 1)) else (false, tokens)

/-- The result of a wait once it has looked for its token; `word` is the user
word read again, `none` for a fault. -/
def waitResult (call : FutexWait) (wasWoken : Bool) (word : Option Nat) : SyscallResult :=
  if wasWoken then .ok 0
  else
    match word with
    | none => .error .EFAULT
    | some current =>
      if current ≠ call.val then .ok 0
      else if call.timeout ≠ 0 then .error .ETIMEDOUT
      else .ok 0

end Cyllor.Ipc
