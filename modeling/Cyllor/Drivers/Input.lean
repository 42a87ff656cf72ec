import Cyllor.Lib.LabelledRun
import Mathlib.Logic.Function.Basic

/-!
Contract: the queues of input events (`drivers/input.rs`).

Owns: what each call appends to a queue, and that readers see whole frames while there is room.
-/

namespace Cyllor.Drivers.Input

def EV_SYN : UInt16 := 0
def EV_KEY : UInt16 := 1
def EV_REL : UInt16 := 2
def EV_ABS : UInt16 := 3

structure InputEvent where
  timeSec : Nat
  timeUsec : Nat
  evType : UInt16
  code : UInt16
  value : Int32
deriving DecidableEq, Repr

inductive Queue where
  | kbd
  | mouse
  | event
deriving DecidableEq, Repr

/-- The event and the `EV_SYN` that ends its frame carry the time of one reading of the clock. -/
def eventAt (ticks : Nat) : UInt16 → UInt16 → Int32 → InputEvent :=
  InputEvent.mk (ticks / 100) (ticks % 100 * 10000)

/-- One stretch of a call under a queue's lock: it appends a frame and trims the queue beyond the
limit, or reads. -/
inductive Section where
  | push (queue : Queue) (limit : Nat) (frame : List InputEvent) (le : limit ≤ 512 := by decide)
  | drainQueue (queue : Queue) (maxBytes : Nat)

inductive Call where
  | pushKey (ticks : Nat) (keycode : UInt16) (pressed : Bool)
  | pushMouseRel (ticks : Nat) (dx dy : Int32)
  | pushVirtioEvent (ticks ticks2 : Nat) (evType code : UInt16) (value : UInt32)
  | readEventsForMinor (minor : UInt32) (maxBytes : Nat)

def Call.sections : Call → List Section
  | .pushKey ticks keycode pressed =>
    let frame := [eventAt ticks EV_KEY keycode (if pressed then 1 else 0), eventAt ticks EV_SYN 0 0]
    [.push .kbd 256 frame, .push .event 256 frame]
  | .pushMouseRel ticks dx dy =>
    let frame := (if dx = 0 then [] else [eventAt ticks EV_REL 0 dx]) ++
      (if dy = 0 then [] else [eventAt ticks EV_REL 1 dy]) ++ [eventAt ticks EV_SYN 0 0]
    [.push .mouse 256 frame, .push .event 256 frame]
  | .pushVirtioEvent ticks ticks2 evType code value =>
    let frame (ticks : Nat) := [eventAt ticks evType code value.toInt32, eventAt ticks EV_SYN 0 0]
    let queue := if evType = EV_KEY then .kbd
      else if evType = EV_REL ∨ evType = EV_ABS then .mouse else .event
    if evType = EV_SYN then []
    -- An event of another type goes to the combined queue twice.
    else [.push queue 512 (frame ticks), .push .event 512 (frame ticks2)]
  | .readEventsForMinor minor maxBytes =>
    let queue := if minor = 64 then .kbd else if minor = 65 then .mouse else .event
    [.drainQueue queue maxBytes]

/-- The queues, with the frames pushed to each so far and the events readers obtained from it. -/
structure Queues where
  held : Queue → List InputEvent := fun _ => []
  pushed : Queue → List (List InputEvent) := fun _ => []
  obtained : Queue → List InputEvent := fun _ => []

def Queues.step (queues : Queues) : Section → Option Queues
  | .push queue limit frame _ =>
    let grown := queues.held queue ++ frame
    some { queues with
      held := Function.update queues.held queue (if limit < grown.length then grown.tail else grown)
      pushed := Function.update queues.pushed queue (queues.pushed queue ++ [frame]) }
  | .drainQueue queue maxBytes =>
    let events := queues.held queue
    let count := min (maxBytes / 24) events.length
    some { queues with
      held := Function.update queues.held queue (events.drop count)
      obtained :=
        Function.update queues.obtained queue (queues.obtained queue ++ events.take count) }

/-- A push finds room for its whole frame; a read needs nothing. -/
def Queues.HasRoom (queues : Queues) : Section → Prop
  | .push queue limit frame _ => (queues.held queue).length + frame.length ≤ limit
  | .drainQueue _ _ => True

/-- The queue is within its bound, and what was obtained from it and what it holds are, in this
order, the frames pushed to it. -/
def Queues.Framed (queues : Queues) (queue : Queue) : Prop :=
  (queues.held queue).length ≤ 512 ∧
    queues.obtained queue ++ queues.held queue = (queues.pushed queue).flatten

theorem Queues.Framed.step {queues next : Queues} {label : Section}
    (framed : ∀ queue, queues.Framed queue) (room : queues.HasRoom label)
    (stepped : queues.step label = some next) (queue : Queue) : next.Framed queue := by
  cases label with
  | push grown limit frame le =>
    cases stepped
    by_cases same : queue = grown
    · subst same
      have fits : (queues.held queue ++ frame).length ≤ limit := by
        rw [List.length_append]
        exact room
      simp only [Framed, Function.update_self, if_neg (Nat.not_lt.mpr fits),
        List.flatten_append, List.flatten_singleton, ← (framed queue).2, List.append_assoc]
      exact ⟨Nat.le_trans fits le, trivial⟩
    · simpa only [Framed, Function.update_of_ne same] using framed queue
  | drainQueue read maxBytes =>
    cases stepped
    by_cases same : queue = read
    · subst same
      have bounded := (framed queue).1
      simp only [Framed, Function.update_self, List.append_assoc, List.take_append_drop,
        (framed queue).2, List.length_drop, and_true]
      omega
    · simpa only [Framed, Function.update_of_ne same] using framed queue

/-- As long as every push finds room, each queue stays within 512 events and its readers obtain
the frames pushed to it, whole and in order. -/
theorem framed_of_room (calls : List Call) (final : Queues)
    (room : LabelledRun.Guarded Queues.step Queues.HasRoom {} (calls.flatMap Call.sections))
    (reached : LabelledRun.run Queues.step {} (calls.flatMap Call.sections) = some final)
    (queue : Queue) : final.Framed queue :=
  LabelledRun.invariant_of_guarded (fun queues : Queues => ∀ queue, queues.Framed queue)
    (fun framed => Queues.Framed.step framed) (fun _ => ⟨Nat.zero_le _, rfl⟩) room reached queue

theorem framed_of_room_key : ∃ final : Queues, final.obtained .kbd ≠ [] ∧ final.Framed .kbd :=
  ⟨_, by decide, framed_of_room [.pushKey 0 30 true, .readEventsForMinor 64 48] _
    ⟨Nat.le_of_ble_eq_true rfl, Nat.le_of_ble_eq_true rfl, trivial, trivial⟩ rfl _⟩

/-- Of 129 keys without a reader the first loses its key event, so that the first event read is the
`EV_SYN` of its frame; after 385 keys the queue is longer than 512. -/
theorem overflow_splits_frame :
    (LabelledRun.run Queues.step {} ((List.replicate 129 (Call.pushKey 0 30 true) ++
      [Call.readEventsForMinor 64 24]).flatMap Call.sections)).map (·.obtained .kbd) =
        some [eventAt 0 EV_SYN 0 0] ∧
    (LabelledRun.run Queues.step {} ((List.replicate 385 (Call.pushKey 0 30 true)).flatMap
      Call.sections)).map (fun queues => (queues.held .kbd).length) = some 513 := by
  decide +kernel

end Cyllor.Drivers.Input
