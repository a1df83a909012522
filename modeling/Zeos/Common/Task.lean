import Mathlib.Algebra.GroupWithZero.Nat
import Mathlib.Algebra.Group.Int.Defs

/-!
# What the PCBs and system calls of the kernels have in common

The process states of `sched.h`, the error numbers of `errno.h` and the arithmetic
of the C type `int`. The PCBs themselves differ from kernel to kernel.
-/

namespace Zeos

/-- `enum state_t` -/
inductive StateT
  /-- `ST_RUN` -/
  | stRun
  /-- `ST_READY` -/
  | stReady
  /-- `ST_BLOCKED` -/
  | stBlocked
deriving DecidableEq

/-! ### Error numbers -/

/-- `ESRCH` -/
def ESRCH : Int := 3

/-- `ECHILD` -/
def ECHILD : Int := 10

/-- `EAGAIN` -/
def EAGAIN : Int := 11

/-- `ENOMEM` -/
def ENOMEM : Int := 12

/-- `EFAULT` -/
def EFAULT : Int := 14

/-- `EINVAL` -/
def EINVAL : Int := 22

/-- `ENOSYS` -/
def ENOSYS : Int := 38

/-- The value a system call returns: its result, or the error number negated. -/
def retval : Except Int Int → Int
  | .ok v => v
  | .error e => -e

/-! ### Integers -/

/-- The value of a C `int`. -/
def wrapInt (x : Int) : Int := x.bmod (2 ^ 32)

/-- A value in the range of `int` is its own. -/
theorem wrapInt_of_lt {x : Int} (h1 : -2 ^ 31 ≤ x) (h2 : x < 2 ^ 31) : wrapInt x = x := by
  rw [wrapInt, Int.bmod_def]
  split <;> omega

end Zeos
