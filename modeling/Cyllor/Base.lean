import Mathlib.Data.List.MinMax
import Mathlib.Tactic

/-!
Contract: vocabulary shared by every part of the kernel model.

Owns: machine limits, the error numbers and readiness bits the modelled system calls
return, and the ordered map that stands for the kernel's `BTreeMap` tables.
-/

namespace Cyllor

/-- `u64::MAX` (`usize` is 64 bits wide on both architectures). -/
def u64Max : Nat := 2 ^ 64 - 1

def saturatingAdd (left right : Nat) : Nat := min (left + right) u64Max

def saturatingMul (left right : Nat) : Nat := min (left * right) u64Max

def PAGE_SIZE : Nat := 4096

inductive Errno where
  | EPERM | ENOENT | ESRCH | EINTR | EIO | ENXIO | EBADF | ECHILD | EAGAIN | ENOMEM | EACCES
  | EFAULT | EEXIST | ENOTDIR | EISDIR | EINVAL | ENFILE | EMFILE | ENOTTY | ENOSPC | EPIPE
  | ERANGE | ENOSYS | ENOTEMPTY | ENOTSOCK | EOPNOTSUPP | EAFNOSUPPORT | EADDRINUSE | EISCONN
  | ENOTCONN | ETIMEDOUT | ECONNREFUSED
deriving DecidableEq, Repr

def Errno.code : Errno → Int
  | .EPERM => 1 | .ENOENT => 2 | .ESRCH => 3 | .EINTR => 4 | Errno.EIO => 5 | Errno.ENXIO => 6
  | .EBADF => 9 | .ECHILD => 10 | .EAGAIN => 11 | .ENOMEM => 12 | .EACCES => 13
  | .EFAULT => 14 | .EEXIST => 17 | .ENOTDIR => 20 | .EISDIR => 21 | .EINVAL => 22
  | .ENFILE => 23 | .EMFILE => 24 | .ENOTTY => 25 | .ENOSPC => 28 | .EPIPE => 32
  | .ERANGE => 34 | .ENOSYS => 38 | .ENOTEMPTY => 39 | .ENOTSOCK => 88 | .EOPNOTSUPP => 95
  | .EAFNOSUPPORT => 97 | .EADDRINUSE => 98 | .EISCONN => 106 | .ENOTCONN => 107
  | .ETIMEDOUT => 110 | .ECONNREFUSED => 111

/-- `SyscallResult`: a count, an address or a descriptor, or an error number. -/
abbrev SyscallResult := Except Errno Nat

def POLLIN : Nat := 0x0001
def POLLOUT : Nat := 0x0004
def POLLERR : Nat := 0x0008
def POLLHUP : Nat := 0x0010
def POLLNVAL : Nat := 0x0020

/-- The kernel's ordered tables. Lookup, insertion and removal are those of the
standard ordered map, and `toList` enumerates in key order, as `iter()` does. -/
abbrev BTreeMap (Key Value : Type) [Ord Key] := Std.ExtTreeMap Key Value compare

/-! Concrete runs name one or two parties by numbers. -/

instance neZeroOne : NeZero 1 := ⟨by decide⟩

instance neZeroTwo : NeZero 2 := ⟨by decide⟩

end Cyllor
