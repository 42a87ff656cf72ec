import Cyllor.Ipc.Futex
import Cyllor.Lib.MapSum

/-!
Contract: what FUTEX_WAKE, FUTEX_REQUEUE and FUTEX_CMP_REQUEUE do to the queues of waiters
(`ipc/futex.rs`).

Owns:
- the pop loops and the two sections under `FUTEX_WAITERS` as the source runs them, and that
  they are the sections of `Cyllor.Ipc.Futex`;
- `Requeued`, which waiters leave, which move and which stay, for any map of queues;
- the result of a whole call.
-/

namespace Cyllor.Ipc

open Cyllor.Sched (Pid)
open QueueMap

/-! ### The loops -/

/-- Pop from the front until `left` waiters were picked or none is left. -/
def popLoop : (left : Nat) → (queue picked : List Pid) → List Pid × List Pid
  | 0, queue, picked => (picked, queue)
  | _ + 1, [], picked => (picked, [])
  | left + 1, tid :: queue, picked => popLoop left queue (picked ++ [tid])

theorem popLoop_eq (left : Nat) (queue picked : List Pid) :
    popLoop left queue picked = (picked ++ queue.take left, queue.drop left) := by
  induction left generalizing queue picked with
  | zero => simp [popLoop]
  | succ left ih =>
    cases queue with
    | nil => simp [popLoop]
    | cons tid queue => simp [popLoop, ih]

/-- Store the queue that a loop left, or remove its entry if it is empty. -/
def storeBack (waiters : FutexWaiters) (uaddr : Nat) (queue : List Pid) : FutexWaiters :=
  let waiters := waiters.insert uaddr queue
  if queue.isEmpty then waiters.erase uaddr else waiters

theorem storeBack_eq (waiters : FutexWaiters) (uaddr : Nat) (queue : List Pid) :
    storeBack waiters uaddr queue = store waiters uaddr queue := by
  rw [storeBack, store]
  by_cases empty : queue.isEmpty = true
  · rw [if_pos empty, if_pos empty]
    apply Std.ExtTreeMap.ext_getElem?
    intro other
    rw [MapSum.getElem?_erase_eq, MapSum.getElem?_erase_eq]
    by_cases same : uaddr = other
    · rw [if_pos same, if_pos same]
    · rw [if_neg same, if_neg same]
      simp [Std.ExtTreeMap.getElem?_insert, same]
  · rw [if_neg empty, if_neg empty]

/-- The section of FUTEX_WAKE. -/
def wakeSection (waiters : FutexWaiters) (uaddr count : Nat) : List Pid × FutexWaiters :=
  match waiters[uaddr]? with
  | none => ([], waiters)
  | some queue =>
    let (picked, queue) := popLoop count queue []
    (picked, storeBack waiters uaddr queue)

/-- The section of FUTEX_REQUEUE: the queue of `uaddr` is entered if it is missing, two loops
pop from it, and what the second one popped is pushed to the queue of `uaddr2`. -/
def requeueSection (waiters : FutexWaiters) (uaddr uaddr2 nrWake nrRequeue : Nat) :
    List Pid × FutexWaiters :=
  let waiters := waiters.insertIfNew uaddr []
  let (picked, source) := popLoop nrWake (queueAt waiters uaddr) []
  let (moved, source) := popLoop nrRequeue source []
  let waiters := storeBack waiters uaddr source
  (picked, if moved.isEmpty then waiters
    else moved.foldl (fun waiters tid => push waiters uaddr2 tid) waiters)

section

variable (waiters : FutexWaiters)

include waiters

theorem wakeSection_eq (uaddr count : Nat) :
    wakeSection waiters uaddr count = popWaiters waiters uaddr count := by
  rw [wakeSection, popWaiters]
  cases waiters[uaddr]? with
  | none => rfl
  | some queue => simp only [popLoop_eq, List.nil_append, storeBack_eq]

theorem insert_insert (uaddr : Nat) (first second : List Pid) :
    (waiters.insert uaddr first).insert uaddr second = waiters.insert uaddr second := by
  apply Std.ExtTreeMap.ext_getElem?
  intro other
  by_cases same : uaddr = other
  · simp [same]
  · simp [Std.ExtTreeMap.getElem?_insert, same]

theorem foldl_push_eq (uaddr : Nat) {moved : List Pid} (nonempty : moved ≠ []) :
    moved.foldl (fun waiters tid => push waiters uaddr tid) waiters =
      waiters.insert uaddr (queueAt waiters uaddr ++ moved) := by
  induction moved generalizing waiters with
  | nil => exact absurd rfl nonempty
  | cons tid moved ih =>
    rw [List.foldl_cons]
    by_cases last : moved = []
    · subst last
      rfl
    · rw [ih _ last, queueAt_push, if_pos rfl, push, insert_insert,
        List.append_assoc, List.singleton_append]

/-- Storing a queue does not depend on whether the key was entered before. -/
theorem store_insertIfNew (uaddr : Nat) (queue : List Pid) :
    store (waiters.insertIfNew uaddr []) uaddr queue = store waiters uaddr queue := by
  have others : ∀ other, uaddr ≠ other →
      (waiters.insertIfNew uaddr [])[other]? = waiters[other]? := by
    intro other different
    simp [Std.ExtTreeMap.getElem?_insertIfNew, different]
  rw [store, store]
  split_ifs
  · apply Std.ExtTreeMap.ext_getElem?
    intro other
    rw [MapSum.getElem?_erase_eq, MapSum.getElem?_erase_eq]
    by_cases same : uaddr = other
    · rw [if_pos same, if_pos same]
    · rw [if_neg same, if_neg same, others other same]
  · apply Std.ExtTreeMap.ext_getElem?
    intro other
    by_cases same : uaddr = other
    · simp [same]
    · simp only [Std.ExtTreeMap.getElem?_insert, Std.LawfulEqCmp.compare_eq_iff_eq, if_neg same]
      exact others other same

theorem requeueSection_eq (uaddr uaddr2 nrWake nrRequeue : Nat) :
    requeueSection waiters uaddr uaddr2 nrWake nrRequeue =
      requeueWaiters waiters uaddr uaddr2 nrWake nrRequeue := by
  rw [requeueSection, requeueWaiters]
  simp only [popLoop_eq, List.nil_append, storeBack_eq, store_insertIfNew,
    queueAt_insertIfNew_nil, List.isEmpty_iff]
  split_ifs with nothing
  · rfl
  · rw [foldl_push_eq _ _ nothing]

end

/-! ### What a call does to the queues -/

def waitingCount (waiters : FutexWaiters) (tid : Pid) : Nat :=
  MapSum.sumOver (fun _ queue => queue.count tid) waiters

/-- The first `count` waiters of `uaddr` have left the queues and the next `moves` are at the
back of `uaddr2`; everything else is as it was. -/
structure Requeued (waiters next : FutexWaiters) (uaddr uaddr2 count moves : Nat) : Prop where
  queues : ∀ other, queueAt next other =
    (if other = uaddr then (queueAt waiters uaddr).drop (count + moves)
      else queueAt waiters other) ++
    (if other = uaddr2 then ((queueAt waiters uaddr).drop count).take moves else [])
  others : ∀ other, other ≠ uaddr → other ≠ uaddr2 → next[other]? = waiters[other]?
  tids : ∀ tid, waitingCount waiters tid =
    waitingCount next tid + ((queueAt waiters uaddr).take count).count tid

theorem weightAt_eq_count (waiters : FutexWaiters) (tid : Pid) (uaddr : Nat) :
    MapSum.weightAt (fun _ queue => queue.count tid) waiters uaddr =
      (queueAt waiters uaddr).count tid := by
  rw [MapSum.weightAt, queueAt]
  cases waiters[uaddr]? with
  | none => rfl
  | some queue => rfl

theorem waitingCount_change {waiters next : FutexWaiters} {uaddr : Nat} (tid : Pid)
    (others : ∀ other, uaddr ≠ other → next[other]? = waiters[other]?) :
    waitingCount next tid + (queueAt waiters uaddr).count tid =
      waitingCount waiters tid + (queueAt next uaddr).count tid := by
  have changed := MapSum.sumOver_change (fun _ queue => List.count tid queue) waiters uaddr others
  rw [weightAt_eq_count, weightAt_eq_count] at changed
  exact changed

theorem getElem?_store_of_ne (waiters : FutexWaiters) {uaddr other : Nat} (queue : List Pid)
    (different : uaddr ≠ other) : (store waiters uaddr queue)[other]? = waiters[other]? := by
  rw [store]
  split_ifs
  · rw [MapSum.getElem?_erase_eq, if_neg different]
  · simp [Std.ExtTreeMap.getElem?_insert, different]

theorem store_ne_nil (waiters : FutexWaiters) (uaddr : Nat) (queue : List Pid) :
    (store waiters uaddr queue)[uaddr]? ≠ some [] := by
  rw [store]
  split_ifs with empty
  · simp
  · simp only [Std.ExtTreeMap.getElem?_insert_self, ne_eq, Option.some.injEq]
    exact fun isNil => empty (List.isEmpty_iff.mpr isNil)

theorem count_take_add_drop (queue : List Pid) (count : Nat) (tid : Pid) :
    (queue.take count).count tid + (queue.drop count).count tid = queue.count tid := by
  rw [← List.count_append, List.take_append_drop]

theorem requeued_popWaiters (waiters : FutexWaiters) (uaddr count : Nat) :
    Requeued waiters (popWaiters waiters uaddr count).2 uaddr uaddr count 0 := by
  have others : ∀ other, uaddr ≠ other →
      (popWaiters waiters uaddr count).2[other]? = waiters[other]? := by
    intro other different
    rw [popWaiters]
    cases waiters[uaddr]? with
    | none => rfl
    | some queue => exact getElem?_store_of_ne waiters _ different
  refine ⟨fun other => ?_, fun other different _ => others other different.symm, fun tid => ?_⟩
  · rw [queueAt_popWaiters]
    simp
  · have changed := waitingCount_change tid others
    rw [queueAt_popWaiters, if_pos rfl] at changed
    have split := count_take_add_drop (queueAt waiters uaddr) count tid
    omega

theorem requeued_requeueWaiters (waiters : FutexWaiters) (uaddr uaddr2 nrWake nrRequeue : Nat) :
    Requeued waiters (requeueWaiters waiters uaddr uaddr2 nrWake nrRequeue).2 uaddr uaddr2 nrWake
      nrRequeue := by
  have queues := queueAt_requeueWaiters waiters uaddr uaddr2 nrWake nrRequeue
  -- The source queue is stored first; then the moved waiters go to the other queue.
  set rest := ((queueAt waiters uaddr).drop nrWake).drop nrRequeue with isRest
  set moved := ((queueAt waiters uaddr).drop nrWake).take nrRequeue with isMoved
  set left := store waiters uaddr rest with isLeft
  have isNext : (requeueWaiters waiters uaddr uaddr2 nrWake nrRequeue).2 =
      if moved = [] then left else left.insert uaddr2 (queueAt left uaddr2 ++ moved) := rfl
  have othersNext : ∀ other, uaddr2 ≠ other →
      (requeueWaiters waiters uaddr uaddr2 nrWake nrRequeue).2[other]? = left[other]? := by
    intro other different
    rw [isNext]
    split_ifs
    · rfl
    · simp [Std.ExtTreeMap.getElem?_insert, different]
  have othersLeft : ∀ other, uaddr ≠ other → left[other]? = waiters[other]? :=
    fun other different => getElem?_store_of_ne waiters rest different
  have target : queueAt (requeueWaiters waiters uaddr uaddr2 nrWake nrRequeue).2 uaddr2 =
      queueAt left uaddr2 ++ moved := by
    rw [queues, if_pos rfl, isLeft, queueAt_store]
  refine ⟨fun other => ?_, fun other notSource notTarget => ?_, fun tid => ?_⟩
  · rw [queues, isRest, List.drop_drop]
  · rw [othersNext other notTarget.symm, othersLeft other notSource.symm]
  · have stored := waitingCount_change tid othersLeft
    have pushed := waitingCount_change tid othersNext
    rw [target, List.count_append] at pushed
    rw [isLeft, queueAt_store, if_pos rfl, ← isLeft] at stored
    have splitWoken := count_take_add_drop (queueAt waiters uaddr) nrWake tid
    have splitMoved := count_take_add_drop ((queueAt waiters uaddr).drop nrWake) nrRequeue tid
    rw [← isRest, ← isMoved] at splitMoved
    omega

theorem requeueWaiters_ne_nil (waiters : FutexWaiters) (uaddr uaddr2 nrWake nrRequeue : Nat) :
    (requeueWaiters waiters uaddr uaddr2 nrWake nrRequeue).2[uaddr]? ≠ some [] := by
  rw [requeueWaiters]
  dsimp only
  split_ifs with nothing
  · exact store_ne_nil waiters uaddr _
  · by_cases same : uaddr2 = uaddr
    · subst same
      rw [Std.ExtTreeMap.getElem?_insert_self]
      simp only [ne_eq, Option.some.injEq, List.append_eq_nil_iff]
      exact fun both => nothing both.2
    · simp only [Std.ExtTreeMap.getElem?_insert, Std.LawfulEqCmp.compare_eq_iff_eq, if_neg same]
      exact store_ne_nil waiters uaddr _

theorem popWaiters_ne_nil (waiters : FutexWaiters) (uaddr count : Nat) :
    (popWaiters waiters uaddr count).2[uaddr]? ≠ some [] := by
  rw [popWaiters]
  cases found : waiters[uaddr]? with
  | none =>
    dsimp only
    rw [found]
    exact fun isSome => by cases isSome
  | some queue => exact store_ne_nil waiters uaddr _

/-! ### Whole calls -/

/-- A call that does not wait: its result, the waiters that it goes on to wake, and the queues. -/
def futexServe (args : FutexArgs) (view : FutexView) (tid : Pid) (waiters : FutexWaiters) :
    Option (SyscallResult × List Pid × FutexWaiters) :=
  match doFutex args view tid with
  | .finished result => some (result, [], waiters)
  | .wait _ => none
  | .wake uaddr count =>
    let (picked, waiters) := wakeSection waiters uaddr count
    some (.ok picked.length, picked, waiters)
  | .requeue uaddr uaddr2 nrWake nrRequeue =>
    let (picked, waiters) := requeueSection waiters uaddr uaddr2 nrWake nrRequeue
    some (.ok picked.length, picked, waiters)

def FutexArgs.op (args : FutexArgs) : BitVec 32 := args.futexOp &&& FUTEX_CMD_MASK

theorem requeued_zero (waiters : FutexWaiters) (uaddr : Nat) :
    Requeued waiters waiters uaddr uaddr 0 0 := by
  refine ⟨fun other => ?_, fun _ _ _ => rfl, fun tid => ?_⟩
  · by_cases same : other = uaddr
    · simp [same]
    · simp [same]
  · simp

theorem doFutex_wake {args : FutexArgs} {view : FutexView} {tid : Pid} (valid : args.uaddr ≠ 0)
    (isWake : args.op = FUTEX_WAKE) :
    doFutex args view tid =
      if args.val = 0 then .finished (.ok 0) else .wake args.uaddr args.val := by
  have notBitset : ¬ (FUTEX_WAKE = FUTEX_WAKE_BITSET ∧ args.val3 = 0) := fun both =>
    absurd both.1 (by decide)
  rw [doFutex, if_neg valid]
  dsimp only
  rw [show args.futexOp &&& FUTEX_CMD_MASK = FUTEX_WAKE from isWake, if_neg (by decide),
    if_pos (by decide), futexWakeEntry, if_neg notBitset]

theorem doFutex_requeue {args : FutexArgs} {view : FutexView} {tid : Pid} (valid : args.uaddr ≠ 0)
    (valid2 : args.uaddr2 ≠ 0)
    (isRequeue : args.op = FUTEX_REQUEUE ∨
      args.op = FUTEX_CMP_REQUEUE ∧ view.word = some args.val3) :
    doFutex args view tid = .requeue args.uaddr args.uaddr2 args.val args.timeout := by
  rw [doFutex, if_neg valid]
  dsimp only
  obtain isOp | ⟨isOp, isWord⟩ := isRequeue
  · rw [show args.futexOp &&& FUTEX_CMD_MASK = FUTEX_REQUEUE from isOp, if_neg (by decide),
      if_neg (by decide), if_pos (by decide), futexRequeueEntry, if_neg valid2,
      if_neg (by decide)]
  · rw [show args.futexOp &&& FUTEX_CMD_MASK = FUTEX_CMP_REQUEUE from isOp, if_neg (by decide),
      if_neg (by decide), if_pos (by decide), futexRequeueEntry, if_neg valid2, if_pos rfl, isWord]
    exact if_neg fun differs => differs rfl

/-- FUTEX_WAKE with a valid address wakes the first `val` waiters, and FUTEX_REQUEUE or a
FUTEX_CMP_REQUEUE that finds its value also moves the next `timeout` ones, for any map of queues
and also within one queue. -/
theorem futexServe_requeues (waiters : FutexWaiters) (args : FutexArgs) (view : FutexView)
    (tid : Pid) (valid : args.uaddr ≠ 0) :
    (args.op = FUTEX_WAKE → ∃ next,
      futexServe args view tid waiters =
        some (.ok (min args.val (queueAt waiters args.uaddr).length),
          (queueAt waiters args.uaddr).take args.val, next) ∧
      Requeued waiters next args.uaddr args.uaddr args.val 0 ∧
      (args.val = 0 → next = waiters) ∧ (args.val ≠ 0 → next[args.uaddr]? ≠ some [])) ∧
    (args.op = FUTEX_REQUEUE ∨ args.op = FUTEX_CMP_REQUEUE ∧ view.word = some args.val3 →
      args.uaddr2 ≠ 0 → ∃ next,
      futexServe args view tid waiters =
        some (.ok (min args.val (queueAt waiters args.uaddr).length),
          (queueAt waiters args.uaddr).take args.val, next) ∧
      Requeued waiters next args.uaddr args.uaddr2 args.val args.timeout ∧
      next[args.uaddr]? ≠ some []) := by
  refine ⟨fun isWake => ?_, fun isRequeue valid2 => ?_⟩
  · rw [futexServe, doFutex_wake valid isWake]
    by_cases nothing : args.val = 0
    · rw [if_pos nothing, nothing]
      refine ⟨waiters, by simp, requeued_zero waiters args.uaddr, fun _ => rfl, ?_⟩
      exact fun isPositive => absurd rfl isPositive
    · rw [if_neg nothing]
      dsimp only
      rw [wakeSection_eq, popWaiters_fst, List.length_take]
      exact ⟨_, rfl, requeued_popWaiters waiters args.uaddr args.val,
        fun isZero => absurd isZero nothing, fun _ => popWaiters_ne_nil waiters _ _⟩
  · rw [futexServe, doFutex_requeue valid valid2 isRequeue]
    dsimp only
    rw [requeueSection_eq]
    refine ⟨_, ?_, requeued_requeueWaiters waiters _ _ _ _, requeueWaiters_ne_nil waiters _ _ _ _⟩
    rw [show (requeueWaiters waiters args.uaddr args.uaddr2 args.val args.timeout).1 =
      (queueAt waiters args.uaddr).take args.val from rfl, List.length_take]

/-- Three threads wait at one address, and one of them is woken and one is moved to the back of
the same queue. -/
theorem futexServe_requeues_oneQueue :
    ∃ next, futexServe ⟨4096, FUTEX_REQUEUE, 1, 1, 4096, 0⟩ ⟨none, none, 1⟩ 9
        ((∅ : FutexWaiters).insert 4096 [5, 6, 7]) = some (.ok 1, [5], next) ∧
      queueAt next 4096 = [7, 6] := by
  have serves := (futexServe_requeues ((∅ : FutexWaiters).insert 4096 [5, 6, 7])
    ⟨4096, FUTEX_REQUEUE, 1, 1, 4096, 0⟩ ⟨none, none, 1⟩ 9 (by decide)).2
    (.inl (by decide)) (by decide)
  have isQueue : queueAt ((∅ : FutexWaiters).insert 4096 [5, 6, 7]) 4096 = [5, 6, 7] := by
    simp [queueAt]
  obtain ⟨next, isCall, requeued, _⟩ := serves
  have queue := requeued.queues 4096
  rw [isQueue] at isCall queue
  exact ⟨next, isCall, queue⟩

/-- FUTEX_WAKE at address 0 is refused, whatever the queues are, and FUTEX_WAKE of no waiter
leaves a queue that is empty in the map. -/
theorem futexServe_refuses_null :
    futexServe ⟨0, FUTEX_WAKE, 1, 0, 0, 0⟩ ⟨none, none, 1⟩ 9 ∅ = some (.error .EINVAL, [], ∅) ∧
    ∃ next, futexServe ⟨4096, FUTEX_WAKE, 0, 0, 0, 0⟩ ⟨none, none, 1⟩ 9
        ((∅ : FutexWaiters).insert 4096 []) = some (.ok 0, [], next) ∧ next[4096]? = some [] := by
  refine ⟨rfl, _, rfl, ?_⟩
  simp

end Cyllor.Ipc
