import Cyllor.Net.System

/-!
Contract: a pipe from its creation on (`create_pipe` of `fs/pipe.rs`, `FileObject::read` and
`FileObject::write` of `fs/vfs.rs` at a pipe, and the calls on descriptors).

Owns:
- a pipe in the tables of descriptors and sockets: reads and writes through the descriptors of
  either end, between any calls that duplicate, pass, receive and close descriptors;
- that the bytes read are the first of the bytes written, and when a read of no byte is the
  end of the file.
-/

namespace Cyllor.Fs

open Cyllor.Net LabelledRun

/-- The tables, the file objects of the two ends, the buffer that both hold, and all the bytes
that were written and read so far. The descriptors belong to all processes. -/
structure PipeState where
  tables : Tables
  readEnd : FileId
  writeEnd : FileId
  buffer : List UInt8
  written : List UInt8
  taken : List UInt8

inductive PipeEvent where
  | call (event : Event)
  | read (fd count : Nat)
  | write (fd : Nat) (bytes : List UInt8)

namespace PipeState

/-- `pipe2`; its two file objects are the next ones. -/
def createPipe (tables : Tables) (pipefd : Nat) : Option PipeState :=
  match pipe2 pipefd tables with
  | some (.ok _, created) => some ⟨created, tables.nextFile, tables.nextFile + 1, [], [], []⟩
  | _ => none

/-- The descriptor is one of the pipe; the code does not ask of which end. -/
def Holds (pipe : PipeState) (fd : Nat) : Prop :=
  pipe.tables.fds.get? fd = some pipe.readEnd ∨ pipe.tables.fds.get? fd = some pipe.writeEnd

instance (pipe : PipeState) (fd : Nat) : Decidable (pipe.Holds fd) :=
  inferInstanceAs (Decidable (_ ∨ _))

/-- Some descriptor refers to the write end, or a message with it waits to be received. No code
looks at this. -/
def WriteEndOpen (pipe : PipeState) : Prop :=
  (∃ fd, pipe.tables.fds.get? fd = some pipe.writeEnd) ∨
    QueueMap.Listed pipe.tables.socketRights pipe.writeEnd

/-- The bytes that a read returns. -/
def reply (pipe : PipeState) (count : Nat) : List UInt8 := pipe.buffer.take count

def step (pipe : PipeState) : PipeEvent → Option PipeState
  | .call event => (pipe.tables.step event).map fun tables => { pipe with tables }
  | .read fd count =>
    if pipe.Holds fd then
      some { pipe with
        buffer := pipe.buffer.drop count
        taken := pipe.taken ++ pipe.reply count }
    else none
  | .write fd bytes =>
    if pipe.Holds fd then
      some { pipe with buffer := pipe.buffer ++ bytes, written := pipe.written ++ bytes }
    else none

/-- What was written is what was read and what the buffer holds. -/
def Conserves (pipe : PipeState) : Prop := pipe.written = pipe.taken ++ pipe.buffer

theorem conserves_createPipe {tables : Tables} {pipefd : Nat} {pipe : PipeState}
    (created : createPipe tables pipefd = some pipe) : pipe.Conserves := by
  unfold createPipe at created
  split at created
  · cases created
    rfl
  · cases created

theorem conserves_step {pipe next : PipeState} {event : PipeEvent} (kept : pipe.Conserves)
    (stepped : pipe.step event = some next) : next.Conserves := by
  unfold Conserves at kept ⊢
  cases event with
  | call event =>
    obtain ⟨tables, -, rfl⟩ := Option.map_eq_some_iff.mp stepped
    exact kept
  | read fd count =>
    obtain ⟨-, ⟨⟩⟩ := Option.ite_none_right_eq_some.mp stepped
    simp [kept, reply]
  | write fd bytes =>
    obtain ⟨-, ⟨⟩⟩ := Option.ite_none_right_eq_some.mp stepped
    simp [kept]

/-- The buffer is empty when as many bytes were read as were written. -/
theorem buffer_eq_nil_iff {pipe : PipeState} (kept : pipe.Conserves) :
    pipe.buffer = [] ↔ ¬ pipe.taken.length < pipe.written.length := by
  rw [Conserves] at kept
  rw [kept, List.length_append, ← List.length_eq_zero_iff]
  omega

/-- In every run what was read is a prefix of what was written. A read that asks for bytes gets
none only at an empty buffer without an open write end, exactly when more bytes were written than
read before it or no write end is open. -/
theorem pipe_of_run {tables : Tables} {pipefd : Nat} {start final : PipeState}
    {trace : List PipeEvent} (created : createPipe tables pipefd = some start)
    (reached : run step start trace = some final) :
    final.taken <+: final.written ∧
      ∀ before fd count after pipe, trace = before ++ .read fd count :: after →
        run step start before = some pipe → 0 < count →
          ((pipe.reply count = [] → pipe.buffer = [] ∧ ¬ pipe.WriteEndOpen) ↔
            (pipe.taken.length < pipe.written.length ∨ ¬ pipe.WriteEndOpen)) := by
  have keeps : ∀ {trace pipe}, run step start trace = some pipe → pipe.Conserves :=
    invariant_of_run Conserves conserves_step (conserves_createPipe created)
  constructor
  · rw [show final.written = _ from keeps reached]
    exact List.prefix_append _ _
  · rintro before fd count after pipe - atRead positive
    have nothing : pipe.reply count = [] ↔ pipe.buffer = [] := by
      rw [reply, List.take_eq_nil_iff]
      exact or_iff_right (Nat.ne_of_gt positive)
    rw [nothing, buffer_eq_nil_iff (keeps atRead)]
    tauto

/-- Tables at boot, with the eight bytes mapped in which a caller wants the descriptors. -/
def pipeBoot : Tables := Tables.boot.entered (.byRoot [(4096, List.replicate 8 0)] (.close 0))

/-- The write end is written, duplicated and closed twice; the last read meets the end. -/
def sharedWriteEnd : List PipeEvent :=
  [.write 4 [1, 2], .read 3 1, .call (.byRoot [] (.dup 4)), .call (.byRoot [] (.close 4)),
    .call (.byRoot [] (.close 5)), .read 3 5, .read 3 5]

theorem pipe_of_run_closed :
    ∃ start final, createPipe pipeBoot 4096 = some start ∧
      run step start sharedWriteEnd = some final ∧ final.taken = [1, 2] ∧
      final.taken <+: final.written ∧
      ∀ before fd count after pipe, sharedWriteEnd = before ++ .read fd count :: after →
        run step start before = some pipe → 0 < count →
          ((pipe.reply count = [] → pipe.buffer = [] ∧ ¬ pipe.WriteEndOpen) ↔
            (pipe.taken.length < pipe.written.length ∨ ¬ pipe.WriteEndOpen)) := by
  let start := (createPipe pipeBoot 4096).get (by decide +kernel)
  let final := (run step start sharedWriteEnd).get (by decide +kernel)
  have created : createPipe pipeBoot 4096 = some start := (Option.some_get _).symm
  have reached : run step start sharedWriteEnd = some final := (Option.some_get _).symm
  exact ⟨start, final, created, reached, by decide +kernel, pipe_of_run created reached⟩

/-- A read of a new pipe returns no byte, although its write end is open and a byte follows. -/
theorem read_of_new_pipe_ends :
    ∃ start pipe later, createPipe pipeBoot 4096 = some start ∧ start.WriteEndOpen ∧
      start.reply 1 = [] ∧ start.step (.read 3 1) = some pipe ∧
      pipe.step (.write 4 [7]) = some later ∧ later.reply 1 = [7] := by
  let start := (createPipe pipeBoot 4096).get (by decide +kernel)
  let pipe := (start.step (.read 3 1)).get rfl
  exact ⟨start, pipe, (pipe.step (.write 4 [7])).get rfl, rfl, .inl ⟨4, rfl⟩, rfl, rfl, rfl, rfl⟩

end PipeState

end Cyllor.Fs
