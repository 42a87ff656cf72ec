import Cyllor.Base

/-!
Contract: the descriptor table (`fs/fdtable.rs`).

Owns: open file objects by identity, the table from descriptors to objects, and
the search for the lowest free descriptor.

Does not own: what closing or duplicating a descriptor does to other tables
(`Cyllor.Net.Socket`), and the file data behind an object.
-/

namespace Cyllor.Fs

inductive FileType where
  | Regular | Directory | CharDevice | Pipe | Epoll | EventFd | TimerFd | SignalFd | MemFd | PidFd
  | Socket | PtyMaster | PtySlave
deriving DecidableEq, Repr

/-- An open file object, as far as descriptor and socket calls read it. -/
structure FileObject where
  ftype : FileType
  flags : Nat
deriving DecidableEq, Repr

/-- Identity of a file object: two descriptors share an object exactly when they
hold the same id. -/
abbrev FileId := Nat

def MAX_FDS : Nat := 1024

structure FdTable where
  files : Nat → Option FileId
  cloexec : Nat → Bool

namespace FdTable

/-- `ensure_init`: descriptors 0, 1 and 2 are the console. -/
def init : FdTable where
  files fd := if fd < 3 then some fd else none
  cloexec _ := false

def install (table : FdTable) (fd : Nat) (file : FileId) (cloexec : Bool) : FdTable where
  files := Function.update table.files fd (some file)
  cloexec := Function.update table.cloexec fd cloexec

def clear (table : FdTable) (fd : Nat) : FdTable where
  files := Function.update table.files fd none
  cloexec := Function.update table.cloexec fd false

/-- The object at a descriptor; descriptors beyond the table hold none. -/
def get? (table : FdTable) (fd : Nat) : Option FileId :=
  if fd < MAX_FDS then table.files fd else none

/-- The lowest free descriptor from `start` on. -/
def lowestFree (table : FdTable) (start : Nat) : Option Nat :=
  let begin := min start MAX_FDS
  (List.range' begin (MAX_FDS - begin)).find? fun fd => (table.files fd).isNone

theorem lowestFree_eq_some {table : FdTable} {start fd : Nat}
    (found : table.lowestFree start = some fd) : fd < MAX_FDS ∧ table.files fd = none := by
  have inRange := List.mem_of_find?_eq_some found
  have free := List.find?_some found
  simp only [List.mem_range'_1, Option.isNone_iff_eq_none] at inRange free
  exact ⟨by omega, free⟩

theorem lowestFree_install (table : FdTable) (start fd : Nat) (file other : FileId)
    (cloexec otherCloexec : Bool) :
    (table.install fd file cloexec).lowestFree start =
      (table.install fd other otherCloexec).lowestFree start := by
  have sameFree : (fun slot => ((table.install fd file cloexec).files slot).isNone) =
      fun slot => ((table.install fd other otherCloexec).files slot).isNone := by
    funext slot
    by_cases same : slot = fd
    · simp [install, same]
    · simp [install, same]
  simp only [lowestFree, sameFree]

end FdTable

end Cyllor.Fs
