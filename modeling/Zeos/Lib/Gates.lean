import Zeos.Lib.Saves

/-!
# Interrupt tables

The processor finds the handler of an interrupt in a table of gates. A gate has the address
of the handler in two halves, the segment in which it runs, and flags: whether there is a
handler at all, whether interrupts are disabled on the way to it, and which programs may go
there with an instruction. A device or an exception may always (`X86.IdtTable.gate`).

Some exceptions leave an error code on the stack, on top of what an interrupt does
(`X86.Ring.exception`): the handler finds it there, and above it the address of the
instruction that has failed (`X86.pushed_exception`).
-/

namespace X86

open ByteMem

/-! ### Gates -/

/-- **A gate**, of eight bytes. -/
structure GateDescriptor where
  /-- The low half of the address of the handler. -/
  lowOffset : BitVec 16
  /-- The segment of the handler. -/
  segmentSelector : BitVec 16
  /-- The flags. -/
  flags : BitVec 16
  /-- The high half of the address. -/
  highOffset : BitVec 16
deriving DecidableEq

namespace GateDescriptor

variable (g : GateDescriptor)

/-- The size of a gate. -/
def size : Nat := 8

/-- The address of the handler. -/
def offset : Word := g.highOffset ++ g.lowOffset

/-- The segment of the handler. -/
def selector : Word := g.segmentSelector.setWidth 32

/-- There is a handler. -/
def present : Bool := g.flags.getLsbD 15

/-- The highest privilege level that may use the gate with an instruction. -/
def dpl : Nat := g.flags.toNat / 2 ^ 13 % 4

/-- The gate is for a handler of 32 bits that runs with interrupts disabled. -/
def isInterrupt : Bool := g.flags.toNat / 2 ^ 8 % 32 == 14

variable {g}

/-- **The two halves of an address** make up the address. -/
theorem offset_eq {a : Word} (hlow : g.lowOffset = a.setWidth 16)
    (hhigh : g.highOffset = (a >>> 16).setWidth 16) : g.offset = a := by
  apply BitVec.eq_of_toNat_eq
  have h := a.isLt
  rw [offset, hlow, hhigh, BitVec.toNat_append]
  simp only [BitVec.toNat_setWidth, BitVec.toNat_ushiftRight, Nat.shiftRight_eq_div_pow,
    Nat.shiftLeft_eq]
  rw [Nat.mul_comm, ← Nat.two_pow_add_eq_or_of_lt (Nat.mod_lt _ (by decide))]
  omega

end GateDescriptor

/-! ### Tables -/

/-- What raises an interrupt. -/
inductive Raised
  /-- a device, or an exception -/
  | processor
  /-- the instruction `int`, on a privilege level -/
  | program (level : Nat)
deriving DecidableEq

/-- **A table of gates**, with the limit that the processor knows. -/
structure IdtTable where
  /-- The gates. -/
  gates : Nat → GateDescriptor
  /-- The offset of the last byte. -/
  limit : BitVec 16

/-- The gate that an interrupt goes through, if the processor lets it. -/
def IdtTable.gate (t : IdtTable) (r : Raised) (v : Nat) : Option GateDescriptor :=
  let g := t.gates v
  let allowed : Bool := match r with
    | .processor => true
    | .program level => level ≤ g.dpl
  if v * GateDescriptor.size + 7 ≤ t.limit.toNat ∧ g.present ∧ g.isInterrupt ∧ allowed then some g
  else none

/-! ### Exceptions -/

/-- An exception that leaves an error code, with a handler that runs with interrupts
disabled. -/
def Ring.exception (g : Ring) (ss esp0 cs eip error : Word) (u : Machine) : Machine :=
  (g.interrupt ss esp0 cs eip u).push error

section Exception

variable (g : Ring) (ss esp0 cs eip error : Word) (u : Machine)

/-- **The error code is on top of the stack**, and above it what an interrupt saves. -/
theorem pushed_exception :
    Pushed u.mem (g.stack esp0 u) (error :: g.frame u) (g.exception ss esp0 cs eip error u) :=
  (pushed_interrupt g ss esp0 cs eip u).1.push error (by have := g.length_frame u; omega)

/-- The handler begins, with interrupts disabled. -/
theorem exception_eip : (g.exception ss esp0 cs eip error u).eip = eip ∧
    (g.exception ss esp0 cs eip error u).eflags &&& interruptFlag = 0 := by
  have hflags : (u.eflags &&& ~~~interruptFlag) &&& interruptFlag = 0 := by
    rw [BitVec.and_assoc, BitVec.not_and_self]
    exact BitVec.and_zero
  cases g <;> exact ⟨rfl, hflags⟩

/-- What an interrupt saves begins with the instruction that was to be executed next. -/
theorem Ring.frame_eq_cons : ∃ ws, g.frame u = u.eip :: ws ∧ ws.length ≤ 4 := by
  cases g <;> exact ⟨_, rfl, by simp⟩

end Exception

end X86
