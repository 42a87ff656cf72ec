import Cyllor.Fs.SpecialFile

/-!
Contract: setting timers, and the expirations that reads count (`timespec_to_ticks`,
`ticks_to_timespec` and `timerfd_settime` of `fs/mod.rs`, `FileObject::read` of `fs/vfs.rs`).

Owns:
- `timerfd_settime` from the descriptor's file on;
- `expirations`, the schedule that a timer keeps, and that reads and polls follow it;
- where rounding and the marker for an unarmed timer break the schedule;
- how far the two conversions between ticks and nanoseconds are from each other.

Does not own: the copies between the two time structures and the caller's memory.
-/

namespace Cyllor.Fs

variable {now interval deadline time : Nat}

/-! ### Setting a timer -/

/-- `struct itimerspec`: the interval and the first value, in seconds and nanoseconds. -/
structure Itimerspec where
  intSec : Nat
  intNsec : Nat
  valSec : Nat
  valNsec : Nat
deriving DecidableEq, Repr

def TFD_TIMER_ABSTIME : Nat := 1

def timespecToTicks (counterFreq sec nsec : Nat) : Except Errno Nat :=
  if 1000000000 ≤ nsec then .error .EINVAL
  else
    let freq := max counterFreq 1
    .ok (saturatingAdd (saturatingMul sec freq) (saturatingMul nsec freq / 1000000000))

def ticksToTimespec (counterFreq ticks : Nat) : Nat × Nat :=
  let freq := max counterFreq 1
  (ticks / freq, saturatingMul (ticks % freq) 1000000000 / freq)

namespace TimerFdState

/-- The time that `timerfd_settime` reports of the timer before. -/
def remaining (timer : TimerFdState) (counterFreq now : Nat) : Itimerspec :=
  let (valSec, valNsec) := ticksToTimespec counterFreq (timer.nextDeadline - now)
  let (intSec, intNsec) := ticksToTimespec counterFreq timer.intervalTicks
  ⟨intSec, intNsec, valSec, valNsec⟩

/-- The timer that `timerfd_settime` leaves. -/
def set (absolute : Bool) (now value interval : Nat) : TimerFdState :=
  if value = 0 then ⟨0, interval, 0⟩
  else if absolute then
    if value ≤ now then
      let periods := (now - value) / interval + 1
      ⟨if 0 < interval then saturatingAdd value (saturatingMul periods interval) else value,
        interval, 1⟩
    else ⟨value, interval, 0⟩
  else ⟨saturatingAdd now value, interval, 0⟩

end TimerFdState

def timerfdSettime (counterFreq now flags : Nat) (spec : Itimerspec) (file : SpecialFile) :
    Except Errno Itimerspec × SpecialFile :=
  if flags ≠ 0 ∧ flags ≠ TFD_TIMER_ABSTIME then (.error .EINVAL, file)
  else
    match file with
    | .TimerFd timer =>
      match timespecToTicks counterFreq spec.intSec spec.intNsec,
          timespecToTicks counterFreq spec.valSec spec.valNsec with
      | .error error, _ => (.error error, file)
      | .ok _, .error error => (.error error, file)
      | .ok interval, .ok value =>
        (.ok (timer.remaining counterFreq now),
          .TimerFd (.set (flags = TFD_TIMER_ABSTIME) now value interval))
    | _ => (.error .EBADF, file)

/-! ### Runs -/

inductive TimerEvent where
  | read
  | poll
deriving DecidableEq, Repr

namespace TimerFdState

/-- The sum of the counts that the reads of a row of events return, and the timer after them.
A poll changes nothing. -/
def serve (timer : TimerFdState) : List (Nat × TimerEvent) → Nat × TimerFdState
  | [] => (0, timer)
  | (_, .poll) :: events => timer.serve events
  | (now, .read) :: events =>
    let rest := (timer.read now).2.serve events
    ((match (timer.read now).1 with | .ok count => count | .error _ => 0) + rest.1, rest.2)

end TimerFdState

open TimerFdState hiding read set

/-- How often a timer has expired by `now`: at `first`, and every `interval` after it. -/
def expirations (first interval now : Nat) : Nat :=
  if now < first then 0 else if interval = 0 then 1 else (now - first) / interval + 1

theorem expirations_mono (first interval : Nat) {later : Nat} (le : now ≤ later) :
    expirations first interval now ≤ expirations first interval later := by
  unfold expirations
  split_ifs
  · exact Nat.le_refl 0
  · exact Nat.zero_le _
  · exact Nat.zero_le _
  · omega
  · exact Nat.le_refl 1
  · omega
  · exact Nat.succ_le_succ (Nat.div_le_div_right (Nat.sub_le_sub_right le first))

/-- While its deadline is not reached, a timer without pending expirations has nothing to
read. -/
theorem TimerFdState.read_waits (waits : ¬(deadline ≠ 0 ∧ deadline ≤ time)) :
    TimerFdState.read ⟨deadline, interval, 0⟩ time =
      (.error .EAGAIN, ⟨deadline, interval, 0⟩) := by
  simp [TimerFdState.read, catchUp, waits]

/-- From its deadline on, a timer counts by the schedule. -/
theorem TimerFdState.catchUp_eq {pending : Nat} (armed : deadline ≠ 0)
    (fits : pending + expirations deadline interval time ≤ u64Max) :
    catchUp ⟨deadline, interval, pending⟩ time =
      ⟨if expirations deadline interval time = 0 then deadline
        else if interval = 0 then 0
        else saturatingAdd deadline (saturatingMul (expirations deadline interval time) interval),
        interval, pending + expirations deadline interval time⟩ := by
  unfold expirations at fits ⊢
  by_cases early : time < deadline
  · have waits : ¬(deadline ≠ 0 ∧ deadline ≤ time) := fun passed => by omega
    simp only [catchUp, if_neg waits, if_pos early, if_true, Nat.add_zero]
  · have passed : deadline ≠ 0 ∧ deadline ≤ time := ⟨armed, Nat.le_of_not_lt early⟩
    rw [if_neg early] at fits ⊢
    by_cases once : interval = 0
    · rw [if_pos once] at fits
      simp [catchUp, passed, once, saturatingAdd, min_eq_left fits]
    · rw [if_neg once] at fits
      simp [catchUp, passed, once, saturatingAdd, min_eq_left fits]

theorem expirations_add {first total : Nat} (single : interval = 0 → total = 0)
    (le : total ≤ expirations first interval now) :
    total + expirations (first + total * interval) interval now =
      expirations first interval now := by
  rcases Nat.eq_zero_or_pos total with rfl | some
  · rw [Nat.zero_mul, Nat.add_zero, Nat.zero_add]
  have repeats : interval ≠ 0 := fun once => some.ne' (single once)
  have passed : ¬ now < first := by
    intro early
    rw [expirations, if_pos early] at le
    omega
  unfold expirations at le ⊢
  rw [if_neg passed, if_neg repeats] at le ⊢
  split
  next early =>
    have := Nat.div_lt_of_lt_mul (show now - first < interval * total by rw [Nat.mul_comm]; omega)
    omega
  next _ =>
    have before : interval * total ≤ now - first := by
      rw [Nat.mul_comm]
      omega
    rw [Nat.sub_add_eq, Nat.mul_comm, Nat.sub_mul_div]
    have := Nat.div_le_div_right (c := interval) before
    rw [Nat.mul_div_cancel_left _ (Nat.pos_of_ne_zero repeats)] at this
    omega

/-- The timer after reads returned `total` expirations: a repeated one waits for the next of
its deadlines, and a single one for its only deadline, or for none. -/
structure Counts (first interval total : Nat) (timer : TimerFdState) : Prop where
  interval_eq : timer.intervalTicks = interval
  pending_eq : timer.pendingExpirations = 0
  deadline_eq : timer.nextDeadline =
    if interval = 0 ∧ 0 < total then 0 else first + total * interval
  single : interval = 0 → total ≤ 1

namespace Counts

variable {first interval total now : Nat} {timer : TimerFdState}

section

variable (counts : Counts first interval total timer)

include counts

/-- A read returns what has expired since, or finds nothing and leaves the timer alone. -/
theorem read (positive : 0 < first) (le : total ≤ expirations first interval now)
    (fits : first + expirations first interval now * interval ≤ u64Max) :
    (timer.read now).1 = (if total = expirations first interval now then .error .EAGAIN
        else .ok (expirations first interval now - total)) ∧
      Counts first interval (expirations first interval now) (timer.read now).2 := by
  obtain ⟨deadline, interval, _⟩ := timer
  obtain ⟨rfl, rfl, isDeadline, single⟩ := counts
  dsimp only at *
  obtain ⟨left, isCount⟩ := Nat.exists_eq_add_of_le le
  have atMost (once : interval = 0) : total + left ≤ 1 := by
    rw [← isCount, expirations, if_pos once]
    split_ifs <;> decide
  rw [isCount] at fits ⊢
  by_cases counted : interval = 0 ∧ 0 < total
  · -- a single timer that was counted
    rw [if_pos counted] at isDeadline
    have once := atMost counted.1
    have none : left = 0 := by omega
    rw [isDeadline, read_waits (by simp), none, Nat.add_zero, if_pos rfl]
    exact ⟨rfl, rfl, rfl, (if_pos counted).symm, single⟩
  · rw [if_neg counted] at isDeadline
    have rest := expirations_add (fun once => by omega : interval = 0 → total = 0) le
    rw [← isDeadline, isCount, Nat.add_left_cancel_iff] at rest
    have few : left ≤ u64Max := by
      rcases Nat.eq_zero_or_pos interval with once | repeats
      · have := atMost once
        simp only [u64Max]
        omega
      · have := Nat.le_mul_of_pos_right (total + left) repeats
        omega
    rw [TimerFdState.read, catchUp_eq (by omega) (by omega), rest, Nat.zero_add]
    cases left with
    | zero => exact ⟨by simp, rfl, rfl, isDeadline.trans (if_neg counted).symm, single⟩
    | succ left =>
      rw [if_pos left.succ_pos, if_neg left.succ_ne_zero,
        if_neg (show total ≠ total + (left + 1) by omega), Nat.add_sub_cancel_left]
      refine ⟨rfl, rfl, rfl, ?_, atMost⟩
      by_cases once : interval = 0
      · simp [once]
      · rw [Nat.add_mul, ← Nat.add_assoc, ← isDeadline] at fits
        rw [if_neg once, if_neg fun counted => once counted.1, saturatingMul,
          min_eq_left (by omega), saturatingAdd, min_eq_left fits, isDeadline, Nat.add_assoc,
          ← Nat.add_mul]

theorem serve (positive : 0 < first) (events : List (Nat × TimerEvent))
    (ordered : (events.map Prod.fst).Pairwise (· ≤ ·))
    (before : ∀ time ∈ events.map Prod.fst, total ≤ expirations first interval time ∧ time ≤ now)
    (le : total ≤ expirations first interval now)
    (fits : first + expirations first interval now * interval ≤ u64Max) :
    Counts first interval (total + (timer.serve events).1) (timer.serve events).2 ∧
      total + (timer.serve events).1 ≤ expirations first interval now := by
  induction events generalizing total timer with
  | nil => exact ⟨counts, le⟩
  | cons event events ih =>
    obtain ⟨time, event⟩ := event
    rw [List.map_cons, List.pairwise_cons] at ordered
    have later := fun other member => before other (List.mem_cons_of_mem _ member)
    cases event with
    | poll => exact ih counts ordered.2 later le
    | read =>
      obtain ⟨atTime, inTime⟩ := before time (List.mem_cons_self ..)
      have grown := expirations_mono first interval inTime
      have room : first + expirations first interval time * interval ≤ u64Max :=
        (Nat.add_le_add_left (Nat.mul_le_mul_right interval grown) first).trans fits
      obtain ⟨result, counted⟩ := counts.read positive atTime room
      obtain ⟨final, bound⟩ := ih counted ordered.2
        (fun other member => ⟨expirations_mono first interval (ordered.1 other member),
          (later other member).2⟩) grown
      have sum : total + (timer.serve ((time, .read) :: events)).1 =
          expirations first interval time + ((timer.read time).2.serve events).1 := by
        rw [serve, result]
        split_ifs with same
        · dsimp only
          omega
        · dsimp only
          rw [← Nat.add_assoc, Nat.add_sub_of_le atTime]
      rw [sum]
      exact ⟨final, bound⟩

end

end Counts

theorem TimerFdState.set_relative (now value interval : Nat) :
    TimerFdState.set (decide (0 = TFD_TIMER_ABSTIME)) now value interval =
      ⟨if value = 0 then 0 else saturatingAdd now value, interval, 0⟩ := by
  by_cases zero : value = 0
  · simp [TimerFdState.set, zero]
  · simp [TimerFdState.set, zero, TFD_TIMER_ABSTIME]

theorem timerfdSettime_eq (timer : TimerFdState) (counterFreq now flags : Nat) {spec : Itimerspec}
    {value : Nat} (known : flags = 0 ∨ flags = TFD_TIMER_ABSTIME)
    (isValue : timespecToTicks counterFreq spec.valSec spec.valNsec = .ok value)
    (isInterval : timespecToTicks counterFreq spec.intSec spec.intNsec = .ok interval) :
    timerfdSettime counterFreq now flags spec (.TimerFd timer) =
      (.ok (timer.remaining counterFreq now),
        .TimerFd (.set (flags = TFD_TIMER_ABSTIME) now value interval)) := by
  rw [timerfdSettime, if_neg (by tauto), isValue, isInterval]

theorem polled_timerFd_iff (timer : TimerFdState) {devices : Devices} {interest : Nat}
    (asked : interest &&& POLLIN ≠ 0) :
    ((SpecialFile.TimerFd timer).fdReadyMask devices interest &&& POLLIN ≠ 0 ↔
        ∃ count, (timer.read devices.counter).1 = .ok count) ∧
      ((SpecialFile.TimerFd timer).readyMaskForFd devices interest &&& POLLIN ≠ 0 ↔
        ∃ count, (timer.read devices.counter).1 = .ok count) := by
  rw [← timer.due_iff_read]
  simp only [and_pollin_ne_zero_iff, SpecialFile.fdReadyMask, SpecialFile.readyMaskForFd,
    testBit_mask asked, SpecialFile.readyBits, and_self]
  cases timer.due devices.counter <;> simp [POLLIN]

/-- After `timerfd_settime` without `TFD_TIMER_ABSTIME`, reads and polls follow the schedule:
what reads returned by `now` is no more than what has expired, a read at `now` returns the
rest or `EAGAIN`, and the timer polls readable while something is left. -/
theorem timerfd_follows_schedule (timer : TimerFdState) {counterFreq start now : Nat}
    {spec : Itimerspec} {value interval : Nat}
    (isValue : timespecToTicks counterFreq spec.valSec spec.valNsec = .ok value)
    (isInterval : timespecToTicks counterFreq spec.intSec spec.intNsec = .ok interval)
    (positive : 0 < value) (events : List (Nat × TimerEvent))
    (ordered : (start :: (events.map Prod.fst ++ [now])).Pairwise (· ≤ ·))
    (fits : start + value + expirations (start + value) interval now * interval ≤ u64Max) :
    ∃ armed, timerfdSettime counterFreq start 0 spec (.TimerFd timer) =
        (.ok (timer.remaining counterFreq start), .TimerFd armed) ∧
      (armed.serve events).1 ≤ expirations (start + value) interval now ∧
      ((armed.serve events).2.read now).1 =
        (if (armed.serve events).1 = expirations (start + value) interval now then .error .EAGAIN
          else .ok (expirations (start + value) interval now - (armed.serve events).1)) ∧
      ∀ devices interest, devices.counter = now → interest &&& POLLIN ≠ 0 →
        ((SpecialFile.TimerFd (armed.serve events).2).fdReadyMask devices interest &&& POLLIN ≠ 0 ↔
          (armed.serve events).1 < expirations (start + value) interval now) ∧
        ((SpecialFile.TimerFd (armed.serve events).2).readyMaskForFd devices interest &&&
            POLLIN ≠ 0 ↔
          (armed.serve events).1 < expirations (start + value) interval now) := by
  refine ⟨_, timerfdSettime_eq timer counterFreq start 0 (.inl rfl) isValue isInterval, ?_⟩
  rw [set_relative, if_neg positive.ne', saturatingAdd, min_eq_left (by omega)]
  have counts : Counts (start + value) interval 0 ⟨start + value, interval, 0⟩ :=
    ⟨rfl, rfl, by simp, fun _ => Nat.zero_le 1⟩
  rw [List.pairwise_cons, List.pairwise_append] at ordered
  obtain ⟨-, inOrder, -, atEnd⟩ := ordered
  obtain ⟨served, bound⟩ := counts.serve (by omega) events inOrder
    (fun time member => ⟨Nat.zero_le _, atEnd time member now (List.mem_singleton_self now)⟩)
    (Nat.zero_le _) fits
  rw [Nat.zero_add] at served bound
  obtain ⟨result, -⟩ := served.read (by omega) bound fits
  refine ⟨bound, result, fun devices interest isNow asked => ?_⟩
  have left : (∃ count, ((serve ⟨start + value, interval, 0⟩ events).2.read
      devices.counter).1 = .ok count) ↔
      (serve ⟨start + value, interval, 0⟩ events).1 <
        expirations (start + value) interval now := by
    rw [isNow, result]
    split_ifs with same
    · simp [same]
    · exact ⟨fun _ => lt_of_le_of_ne bound same, fun _ => ⟨_, rfl⟩⟩
  rw [← left]
  exact polled_timerFd_iff _ asked

/-- A timer of one second and an interval of one second at 10 ticks a second, set at 5 and read
at 16 and 38. -/
theorem timerfd_follows_schedule_twice :
    ∃ armed, timerfdSettime 10 5 0 ⟨1, 0, 1, 0⟩ (.TimerFd ⟨0, 0, 0⟩) =
        (.ok (remaining ⟨0, 0, 0⟩ 10 5), .TimerFd armed) ∧
      (armed.serve [(16, .read)]).1 ≤ expirations (5 + 10) 10 38 ∧
      ((armed.serve [(16, .read)]).2.read 38).1 =
        (if (armed.serve [(16, .read)]).1 = expirations (5 + 10) 10 38 then .error .EAGAIN
          else .ok (expirations (5 + 10) 10 38 - (armed.serve [(16, .read)]).1)) ∧
      ∀ devices interest, devices.counter = 38 → interest &&& POLLIN ≠ 0 →
        ((SpecialFile.TimerFd (armed.serve [(16, .read)]).2).fdReadyMask devices interest &&&
            POLLIN ≠ 0 ↔ (armed.serve [(16, .read)]).1 < expirations (5 + 10) 10 38) ∧
        ((SpecialFile.TimerFd (armed.serve [(16, .read)]).2).readyMaskForFd devices interest &&&
            POLLIN ≠ 0 ↔ (armed.serve [(16, .read)]).1 < expirations (5 + 10) 10 38) :=
  timerfd_follows_schedule ⟨0, 0, 0⟩ rfl rfl (by decide) [(16, .read)] (by decide) (by decide)

/-! ### Absolute times -/

theorem expirations_le (interval : Nat) {first : Nat} (positive : 0 < first) :
    expirations first interval time ≤ time := by
  have part := Nat.div_le_self (time - first) interval
  unfold expirations
  split_ifs <;> omega

/-- What a read at `time` returns after `timerfd_settime` to an absolute time. -/
def readAfterArming (counterFreq armedAt time : Nat) (spec : Itimerspec)
    (timer : TimerFdState) : Except Errno Nat :=
  match (timerfdSettime counterFreq armedAt TFD_TIMER_ABSTIME spec (.TimerFd timer)).2 with
  | .TimerFd armed => (armed.read time).1
  | _ => .error .EBADF

/-- Where `timerfd_settime` puts the next deadline of a timer that has expired already. -/
def nextAfter (deadline interval now : Nat) : Nat :=
  if 0 < interval then min (deadline + ((now - deadline) / interval + 1) * interval) u64Max
  else deadline

section Absolute

variable {counterFreq : Nat} {spec : Itimerspec} {deadline interval time : Nat}

section

variable (timer : TimerFdState)
  (isValue : timespecToTicks counterFreq spec.valSec spec.valNsec = .ok deadline)
  (isInterval : timespecToTicks counterFreq spec.intSec spec.intNsec = .ok interval)

include isValue isInterval

theorem readAfterArming_early {early : Nat} (before : early < deadline) (passed : deadline ≤ time)
    (word : time ≤ u64Max) :
    readAfterArming counterFreq early time spec timer =
      .ok (expirations deadline interval time) := by
  have isSet : TimerFdState.set (decide (TFD_TIMER_ABSTIME = TFD_TIMER_ABSTIME)) early deadline
      interval = ⟨deadline, interval, 0⟩ := by
    rw [TimerFdState.set, if_neg (by omega), if_pos (by decide), if_neg (by omega)]
  have some : 0 < expirations deadline interval time := by
    rw [expirations, if_neg (by omega)]
    split_ifs
    · exact Nat.one_pos
    · exact Nat.succ_pos _
  rw [readAfterArming, timerfdSettime_eq timer counterFreq early _ (.inr rfl) isValue isInterval,
    isSet]
  dsimp only
  have fits : expirations deadline interval time ≤ u64Max :=
    (expirations_le interval (by omega)).trans word
  rw [TimerFdState.read, catchUp_eq (by omega) (by omega), Nat.zero_add, if_pos some]

/-- A timer that is armed late starts from one expiration, however many have passed. -/
theorem readAfterArming_late (positive : 0 < deadline) (late : deadline ≤ now) (word : now ≤ u64Max)
    (fits : expirations (nextAfter deadline interval now) interval time < u64Max) :
    readAfterArming counterFreq now time spec timer =
      .ok (1 + expirations (nextAfter deadline interval now) interval time) := by
  have isSet : TimerFdState.set (decide (TFD_TIMER_ABSTIME = TFD_TIMER_ABSTIME)) now deadline
      interval = ⟨nextAfter deadline interval now, interval, 1⟩ := by
    rw [TimerFdState.set, if_neg positive.ne', if_pos (by decide), if_pos late, nextAfter]
    dsimp only
    split_ifs
    · simp only [saturatingAdd, saturatingMul]
      congr 1
      omega
    · rfl
  have armed : nextAfter deadline interval now ≠ 0 := by
    unfold nextAfter
    split_ifs <;> omega
  rw [readAfterArming, timerfdSettime_eq timer counterFreq now _ (.inr rfl) isValue isInterval,
    isSet]
  dsimp only
  rw [TimerFdState.read, catchUp_eq armed (by omega),
    if_pos (Nat.lt_add_right _ Nat.one_pos)]

end

theorem expirations_nextAfter_lt (positive : 0 < deadline) (word : time ≤ u64Max) :
    expirations (nextAfter deadline interval now) interval time < u64Max := by
  have part := Nat.div_le_self (time - nextAfter deadline interval now) interval
  have two : 0 < interval → 2 ≤ nextAfter deadline interval now := by
    intro repeats
    have := Nat.le_mul_of_pos_left interval (Nat.succ_pos ((now - deadline) / interval))
    rw [nextAfter, if_pos repeats]
    simp only [u64Max, Nat.succ_eq_add_one] at this ⊢
    omega
  unfold expirations
  simp only [u64Max] at word ⊢
  split_ifs <;> omega

theorem counts_nextAfter_iff (late : deadline ≤ now) (word : now ≤ u64Max) :
    (∀ time, now ≤ time → time ≤ u64Max →
        1 + expirations (nextAfter deadline interval now) interval time =
          expirations deadline interval time) ↔
      0 < interval ∧ (now < deadline + interval ∧ deadline + interval ≤ u64Max ∨
        now = u64Max ∧ (now - deadline) / interval = 1) := by
  rcases Nat.eq_zero_or_pos interval with rfl | repeats
  · refine ⟨fun same => ?_, fun ⟨zero, _⟩ => absurd zero (Nat.lt_irrefl 0)⟩
    have := same now (Nat.le_refl now) word
    simp [nextAfter, expirations, Nat.not_lt.mpr late] at this
  have atTime : ∀ time, deadline ≤ time →
      expirations deadline interval time = (time - deadline) / interval + 1 := fun time passed => by
    rw [expirations, if_neg (Nat.not_lt.mpr passed), if_neg repeats.ne']
  have isNext : nextAfter deadline interval now =
      min (deadline + ((now - deadline) / interval + 1) * interval) u64Max := if_pos repeats
  have beyond : now < deadline + ((now - deadline) / interval + 1) * interval := by
    have := Nat.lt_mul_div_succ (now - deadline) repeats
    rw [Nat.mul_comm] at this
    omega
  constructor
  · intro same
    refine ⟨repeats, ?_⟩
    have atNow := same now (Nat.le_refl now) word
    have atEnd := same u64Max word (Nat.le_refl _)
    rw [atTime now late] at atNow
    rw [atTime u64Max (late.trans word)] at atEnd
    by_cases last : now = u64Max
    · refine .inr ⟨last, ?_⟩
      rw [isNext, min_eq_right (by omega), expirations, if_neg (by omega), if_neg repeats.ne',
        last, Nat.sub_self, Nat.zero_div] at atNow
      rw [last]
      omega
    · have waits : now < nextAfter deadline interval now := by omega
      rw [expirations, if_pos waits] at atNow
      have first : (now - deadline) / interval = 0 := by omega
      have soon : now - deadline < interval := (Nat.div_eq_zero_iff_lt repeats).mp first
      refine .inl ⟨by omega, ?_⟩
      by_contra wraps
      -- the deadline stays at the last value of the counter, where it counts once more
      rw [isNext, first, Nat.zero_add, Nat.one_mul, min_eq_right (by omega), expirations,
        if_neg (Nat.lt_irrefl _), if_neg repeats.ne', Nat.sub_self, Nat.zero_div,
        Nat.div_eq_of_lt (by omega)] at atEnd
      omega
  · rintro ⟨-, ⟨soon, fits⟩ | ⟨last, second⟩⟩ time onward word
    · have first : (now - deadline) / interval = 0 := Nat.div_eq_of_lt (by omega)
      rw [isNext, first, Nat.zero_add, Nat.one_mul, min_eq_left fits, atTime time (by omega),
        expirations]
      by_cases early : time < deadline + interval
      · rw [if_pos early, Nat.div_eq_of_lt (by omega)]
      · rw [if_neg early, if_neg repeats.ne', Nat.sub_add_eq,
          ← Nat.div_eq_sub_div repeats (by omega)]
        omega
    · have isLast : time = u64Max := by omega
      rw [isNext, min_eq_right (by omega), atTime time (by omega), expirations, isLast, ← last,
        second, if_neg (Nat.lt_irrefl _), if_neg repeats.ne', Nat.sub_self, Nat.zero_div]

/-- A timer that is armed at an absolute time in the past counts like one that was armed in
time exactly if it repeats and less than an interval has passed (and, at the last value of the
counter, exactly one). -/
theorem late_arming_counts_iff (timer : TimerFdState)
    (isValue : timespecToTicks counterFreq spec.valSec spec.valNsec = .ok deadline)
    (isInterval : timespecToTicks counterFreq spec.intSec spec.intNsec = .ok interval)
    {now : Nat} (positive : 0 < deadline) (late : deadline ≤ now) (word : now ≤ u64Max) :
    (∀ time, now ≤ time → time ≤ u64Max →
        (∀ early < deadline, readAfterArming counterFreq now time spec timer =
          readAfterArming counterFreq early time spec timer) ∧
        readAfterArming counterFreq now time spec timer =
          .ok (expirations deadline interval time)) ↔
      0 < interval ∧ (now < deadline + interval ∧ deadline + interval ≤ u64Max ∨
        now = u64Max ∧ (now - deadline) / interval = 1) := by
  rw [← counts_nextAfter_iff late word]
  refine forall_congr' fun time => forall_congr' fun onward => forall_congr' fun wordTime => ?_
  rw [readAfterArming_late timer isValue isInterval positive late word
    (expirations_nextAfter_lt positive wordTime)]
  constructor
  · intro same
    exact Except.ok.inj same.2
  · intro same
    rw [same]
    refine ⟨fun early before => ?_, rfl⟩
    rw [readAfterArming_early timer isValue isInterval before (late.trans onward) wordTime]

end Absolute

theorem late_arming_counts_iff_repeated :
    (∀ time, 12 ≤ time → time ≤ u64Max →
        (∀ early < 10, readAfterArming 1 12 time ⟨5, 0, 10, 0⟩ ⟨0, 0, 0⟩ =
          readAfterArming 1 early time ⟨5, 0, 10, 0⟩ ⟨0, 0, 0⟩) ∧
        readAfterArming 1 12 time ⟨5, 0, 10, 0⟩ ⟨0, 0, 0⟩ = .ok (expirations 10 5 time)) ↔
      0 < 5 ∧ (12 < 10 + 5 ∧ 10 + 5 ≤ u64Max ∨ 12 = u64Max ∧ (12 - 10) / 5 = 1) :=
  late_arming_counts_iff ⟨0, 0, 0⟩ rfl rfl (by decide) (by decide) (by decide)

/-- A single timer that is armed late is counted twice, and a repeated one loses the periods
that passed before it was armed. -/
theorem late_arming_miscounts :
    readAfterArming 1 12 12 ⟨0, 0, 10, 0⟩ ⟨0, 0, 0⟩ = .ok 2 ∧
      readAfterArming 1 9 12 ⟨0, 0, 10, 0⟩ ⟨0, 0, 0⟩ = .ok 1 ∧
      readAfterArming 1 20 20 ⟨5, 0, 10, 0⟩ ⟨0, 0, 0⟩ = .ok 1 ∧
      readAfterArming 1 9 20 ⟨5, 0, 10, 0⟩ ⟨0, 0, 0⟩ = .ok 3 := by
  decide

/-! ### Relative times -/

theorem TimerFdState.serve_waits (events : List (Nat × TimerEvent))
    (waits : ∀ time ∈ events.map Prod.fst, ¬(deadline ≠ 0 ∧ deadline ≤ time)) :
    serve ⟨deadline, interval, 0⟩ events = (0, ⟨deadline, interval, 0⟩) := by
  induction events with
  | nil => rfl
  | cons event events ih =>
    obtain ⟨time, event⟩ := event
    have rest := ih fun other member => waits other (List.mem_cons_of_mem _ member)
    cases event with
    | poll => exact rest
    | read =>
      rw [serve, read_waits (waits time (List.mem_cons_self ..))]
      simp only [rest]

theorem TimerFdState.passed_of_serve {start count : Nat} {events : List (Nat × TimerEvent)}
    (ordered : (start :: (events.map Prod.fst ++ [time])).Pairwise (· ≤ ·))
    (reads : ((serve ⟨deadline, interval, 0⟩ events).2.read time).1 = .ok count) :
    deadline ≠ 0 ∧ deadline ≤ time := by
  by_contra waits
  rw [List.pairwise_cons, List.pairwise_append] at ordered
  have upTo : ∀ other ∈ events.map Prod.fst, other ≤ time := fun other member =>
    ordered.2.2.2 other member time (List.mem_singleton_self time)
  rw [serve_waits events fun other member passed =>
    waits ⟨passed.1, passed.2.trans (upTo other member)⟩, read_waits waits] at reads
  cases reads

theorem timespecToTicks_of_valid (counterFreq sec : Nat) {nsec : Nat} (valid : nsec < 1000000000) :
    timespecToTicks counterFreq sec nsec =
      .ok (min (min (sec * max counterFreq 1) u64Max +
        min (nsec * max counterFreq 1) u64Max / 1000000000) u64Max) := by
  rw [timespecToTicks, if_neg (Nat.not_le.mpr valid)]
  rfl

/-- A timer that is set without `TFD_TIMER_ABSTIME` is armed and never early exactly if its
value is a whole number of ticks and the counter reaches the deadline. -/
theorem relative_timer_exact_iff (timer : TimerFdState) {counterFreq start : Nat}
    {spec : Itimerspec} {interval : Nat} (frequency : 1 ≤ counterFreq)
    (valid : spec.valNsec < 1000000000) (nonzero : 0 < spec.valSec + spec.valNsec)
    (isInterval : timespecToTicks counterFreq spec.intSec spec.intNsec = .ok interval)
    (word : start ≤ u64Max) :
    ∃ armed, timerfdSettime counterFreq start 0 spec (.TimerFd timer) =
        (.ok (timer.remaining counterFreq start), .TimerFd armed) ∧
      ((∃ time ≤ u64Max, start ≤ time ∧ ∃ count, (armed.read time).1 = .ok count) ∧
          (∀ events time count, (start :: (events.map Prod.fst ++ [time])).Pairwise (· ≤ ·) →
            ((armed.serve events).2.read time).1 = .ok count →
            (spec.valSec * 1000000000 + spec.valNsec) * counterFreq ≤ (time - start) * 1000000000) ↔
        spec.valNsec * counterFreq ≤ u64Max ∧ spec.valNsec * counterFreq % 1000000000 = 0 ∧
          start + spec.valSec * counterFreq + spec.valNsec * counterFreq / 1000000000 ≤
            u64Max) := by
  -- the ticks of the seconds and, times 10 ^ 9, those of the nanoseconds
  obtain ⟨whole, isWhole⟩ : ∃ whole, whole = spec.valSec * counterFreq := ⟨_, rfl⟩
  obtain ⟨part, isPart⟩ : ∃ part, part = spec.valNsec * counterFreq := ⟨_, rfl⟩
  have some : 0 < whole + part := by
    rw [isWhole, isPart, ← Nat.add_mul]
    exact Nat.mul_pos nonzero frequency
  have asked : (spec.valSec * 1000000000 + spec.valNsec) * counterFreq =
      whole * 1000000000 + part := by
    rw [isWhole, isPart]
    ring
  have isValue := timespecToTicks_of_valid counterFreq spec.valSec valid
  rw [max_eq_left frequency, ← isWhole, ← isPart] at isValue
  rw [asked, ← isWhole, ← isPart]
  refine ⟨_, timerfdSettime_eq timer counterFreq start 0 (.inl rfl) isValue isInterval, ?_⟩
  generalize isTicks : min (min whole u64Max + min part u64Max / 1000000000) u64Max = ticks
  rw [set_relative, saturatingAdd]
  generalize isDeadline : (if ticks = 0 then 0 else min (start + ticks) u64Max) = deadline
  have reads : deadline ≠ 0 →
      ∃ count, (TimerFdState.read ⟨deadline, interval, 0⟩ deadline).1 = .ok count := fun armed =>
    (due_iff_read _ _).mp (decide_eq_true (.inr ⟨armed, Nat.le_refl deadline⟩))
  have inTime : deadline ≠ 0 → ticks ≠ 0 ∧ deadline = min (start + ticks) u64Max := by
    intro armed
    split_ifs at isDeadline with unarmed
    · exact absurd isDeadline.symm armed
    · exact ⟨unarmed, isDeadline.symm⟩
  constructor
  · rintro ⟨⟨time, -, -, count, isRead⟩, never⟩
    have armed : deadline ≠ 0 := by
      intro unarmed
      rw [read_waits fun passed => passed.1 unarmed] at isRead
      cases isRead
    obtain ⟨found, isFound⟩ := reads armed
    obtain ⟨-, isMin⟩ := inTime armed
    have early := never [] deadline found (List.pairwise_pair.mpr (by omega)) isFound
    simp only [u64Max] at *
    omega
  · rintro ⟨fitsPart, wholeTicks, fits⟩
    have armed : ticks ≠ 0 := by
      simp only [u64Max] at *
      omega
    rw [if_neg armed] at isDeadline
    have isSum : deadline = start + whole + part / 1000000000 := by
      simp only [u64Max] at *
      omega
    refine ⟨⟨deadline, by omega, by omega, reads (by omega)⟩,
      fun events time count ordered isRead => ?_⟩
    have passed := (passed_of_serve ordered isRead).2
    omega

theorem relative_timer_exact_iff_second :
    ∃ armed, timerfdSettime 10 5 0 ⟨0, 0, 1, 0⟩ (.TimerFd ⟨0, 0, 0⟩) =
        (.ok (remaining ⟨0, 0, 0⟩ 10 5), .TimerFd armed) ∧
      ((∃ time ≤ u64Max, 5 ≤ time ∧ ∃ count, (armed.read time).1 = .ok count) ∧
          (∀ events time count, (5 :: (events.map Prod.fst ++ [time])).Pairwise (· ≤ ·) →
            ((armed.serve events).2.read time).1 = .ok count →
            (1 * 1000000000 + 0) * 10 ≤ (time - 5) * 1000000000) ↔
        0 * 10 ≤ u64Max ∧ 0 * 10 % 1000000000 = 0 ∧ 5 + 1 * 10 + 0 * 10 / 1000000000 ≤ u64Max) :=
  relative_timer_exact_iff ⟨0, 0, 0⟩ (by decide) (by decide) (by decide) rfl (by decide)

/-- At 10 ticks a second a value below a tick leaves the timer unarmed, and a value of one and a
half ticks lets a read succeed after one tick. -/
theorem relative_timer_inexact :
    timerfdSettime 10 5 0 ⟨0, 0, 0, 50000000⟩ (.TimerFd ⟨0, 0, 0⟩) =
        (.ok ⟨0, 0, 0, 0⟩, .TimerFd ⟨0, 0, 0⟩) ∧
      timerfdSettime 10 5 0 ⟨0, 0, 0, 150000000⟩ (.TimerFd ⟨0, 0, 0⟩) =
        (.ok ⟨0, 0, 0, 0⟩, .TimerFd ⟨6, 0, 0⟩) ∧
      (TimerFdState.read ⟨6, 0, 0⟩ 6).1 = .ok 1 ∧
      (6 - 5) * 1000000000 < (0 * 1000000000 + 150000000) * 10 := by
  decide

/-! ### Ticks and nanoseconds -/

/-- The nanoseconds of a rest below one second, as ticks again. -/
theorem rest_roundTrip {freq rest nsec : Nat} (below : rest < freq) (atMost : freq ≤ 1000000000)
    (isNsec : nsec = rest * 1000000000 / freq) :
    nsec < 1000000000 ∧ nsec * freq ≤ rest * 1000000000 ∧
      rest * 1000000000 < nsec * freq + freq ∧
      (nsec * freq / 1000000000 = rest ∨
        nsec * freq / 1000000000 + 1 = rest ∧ ¬ freq ∣ rest * 1000000000) := by
  have positive : 0 < freq := by omega
  have floor := Nat.div_add_mod' (rest * 1000000000) freq
  have less := Nat.mod_lt (rest * 1000000000) positive
  rw [← isNsec] at floor
  refine ⟨?_, by omega, by omega, ?_⟩
  · rw [isNsec]
    exact Nat.div_lt_of_lt_mul (Nat.mul_lt_mul_of_pos_right below (by decide))
  · rw [Nat.dvd_iff_mod_eq_zero]
    omega

/-- Ticks are converted to the nanoseconds below them, and back to themselves or, when they are
no whole number of nanoseconds, to one tick less; the conversion to ticks keeps the order of
valid times. -/
theorem timespec_conversions :
    (∀ counterFreq ticks, 1 ≤ counterFreq → counterFreq ≤ 1000000000 → ticks ≤ u64Max →
      ∃ sec nsec back, ticksToTimespec counterFreq ticks = (sec, nsec) ∧ nsec < 1000000000 ∧
        (sec * 1000000000 + nsec) * counterFreq ≤ ticks * 1000000000 ∧
        ticks * 1000000000 < (sec * 1000000000 + nsec + 1) * counterFreq ∧
        timespecToTicks counterFreq sec nsec = .ok back ∧
        (back = ticks ∨ back + 1 = ticks ∧ ¬ counterFreq ∣ ticks * 1000000000)) ∧
    ∀ counterFreq < 2 ^ 32, ∀ sec nsec sec' nsec', nsec < 1000000000 → nsec' < 1000000000 →
      sec < sec' ∨ sec = sec' ∧ nsec ≤ nsec' →
      ∃ ticks ticks', timespecToTicks counterFreq sec nsec = .ok ticks ∧
        timespecToTicks counterFreq sec' nsec' = .ok ticks' ∧ ticks ≤ ticks' := by
  constructor
  · intro freq ticks positive atMost word
    have below := Nat.mod_lt ticks positive
    have unsaturated : saturatingMul (ticks % freq) 1000000000 = ticks % freq * 1000000000 :=
      Nat.min_eq_left (by simp only [u64Max]; omega)
    obtain ⟨nsec, isNsec⟩ : ∃ nsec, nsec = ticks % freq * 1000000000 / freq := ⟨_, rfl⟩
    obtain ⟨valid, lower, upper, returns⟩ := rest_roundTrip below atMost isNsec
    have same : freq ∣ ticks * 1000000000 ↔ freq ∣ ticks % freq * 1000000000 := by
      rw [Nat.dvd_iff_mod_eq_zero, Nat.dvd_iff_mod_eq_zero, Nat.mod_mul_mod]
    have split := Nat.div_add_mod' ticks freq
    have whole : ticks / freq * 1000000000 * freq = ticks / freq * freq * 1000000000 := by ring
    refine ⟨ticks / freq, nsec, _, ?_, valid, ?_, ?_, timespecToTicks_of_valid freq _ valid, ?_⟩
    · rw [ticksToTimespec, max_eq_left positive, unsaturated, isNsec]
    · rw [Nat.add_mul]
      omega
    · calc ticks * 1000000000
          = ticks / freq * freq * 1000000000 + ticks % freq * 1000000000 := by
            rw [← Nat.add_mul, split]
        _ < ticks / freq * freq * 1000000000 + (nsec * freq + freq) :=
            Nat.add_lt_add_left upper _
        _ = (ticks / freq * 1000000000 + nsec + 1) * freq := by ring
    · rw [max_eq_left positive, same, Nat.min_eq_left (by omega : ticks / freq * freq ≤ u64Max),
        Nat.min_eq_left (by simp only [u64Max]; omega : nsec * freq ≤ u64Max),
        Nat.min_eq_left (by omega)]
      omega
  · intro counterFreq small sec nsec sec' nsec' valid valid' ordered
    refine ⟨_, _, timespecToTicks_of_valid counterFreq sec valid,
      timespecToTicks_of_valid counterFreq sec' valid', ?_⟩
    have bound : max counterFreq 1 < 2 ^ 32 := by omega
    generalize max counterFreq 1 = freq at *
    have part : nsec * freq ≤ 999999999 * freq := Nat.mul_le_mul_right freq (by omega)
    rcases ordered with earlier | ⟨rfl, before⟩
    · have later : (sec + 1) * freq ≤ sec' * freq := Nat.mul_le_mul_right freq earlier
      rw [Nat.add_mul] at later
      simp only [u64Max]
      omega
    · have parts := Nat.mul_le_mul_right freq before
      simp only [u64Max]
      omega

/-- At three ticks a second, one tick is 333333333 ns, which are no whole tick. -/
theorem timespec_conversions_third : ∃ sec nsec back, ticksToTimespec 3 1 = (sec, nsec) ∧
    timespecToTicks 3 sec nsec = .ok back ∧ (back = 1 ∨ back + 1 = 1 ∧ ¬ 3 ∣ 1 * 1000000000) := by
  obtain ⟨sec, nsec, back, isTime, -, -, -, returns, close⟩ :=
    timespec_conversions.1 3 1 (by decide) (by decide) (by decide)
  exact ⟨sec, nsec, back, isTime, returns, close⟩

end Cyllor.Fs
