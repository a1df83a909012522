import Zeos.Common.Entry

/-!
# System calls of the kernel under `zeos/`

The table of service routines and the handlers' look-up in it (`entry.S`,
`sys_call_table.S`). The handlers refuse a number that is negative, or not smaller than
`MAX_SYSCALL`, so that the numbers they look up are the indices of the table.

The two gates agree (`Zeos.Base.entries_agree`): both call the same entry of the table,
with the same six arguments on top of the stack, and both lead back to the program with
the result in `EAX`. They differ in where they lead: `int 0x80` to the instruction after
it, with every other register as it was, `sysenter` to the address that the program has
left at `4(%EBP)`, on the stack that `EBP` points to.
-/

namespace Zeos.Base

open ByteMem X86

/-! ### The table -/

/-- The service routines. -/
inductive Service
  /-- `sys_ni_syscall` -/
  | niSyscall
  /-- `sys_write` -/
  | write
  /-- `sys_gettime` -/
  | gettime
  /-- `sys_getpid` -/
  | getpid
deriving DecidableEq

/-- `sys_call_table` -/
def sysCallTable : List Service :=
  [.niSyscall, .niSyscall, .niSyscall, .niSyscall, .write, .niSyscall, .niSyscall, .niSyscall,
    .niSyscall, .niSyscall, .gettime, .niSyscall, .niSyscall, .niSyscall, .niSyscall, .niSyscall,
    .niSyscall, .niSyscall, .niSyscall, .niSyscall, .getpid]

/-- `MAX_SYSCALL` -/
def maxSyscall : Nat := sysCallTable.length

/-- The addresses of the handlers and of what they call. -/
abbrev Handlers := Zeos.Handlers Service

/-! ### The handlers -/

/-- The index at which the handlers read the table, if they do: both compare the number
with zero (`jl`), and with `MAX_SYSCALL` (`jge`). -/
def calledIndex (eax : Word) : Option Nat :=
  let n := eax.toInt
  if n < 0 ∨ (maxSyscall : Int) ≤ n then none else some n.toNat

section Syscall

variable (g : Gate) (hd : Handlers) (code : Code hd) (esp0 : Word) (u : Machine)

/-- A system call up to the first instruction of the service routine, or to `fin`. -/
def enter : Machine :=
  hd.call sysCallTable g (calledIndex (u.reg .eax)) (exec g.head (g.entered hd esp0 u))

/-- The machine when the service routine, if there is one, has returned. -/
def served : Machine := code.serve (calledIndex (u.reg .eax)) (enter g hd esp0 u)

/-- **A system call**, from the instruction that makes it to the one after it. -/
def syscall : Option Machine := g.leave hd (served g hd code esp0 u)

end Syscall

/-- The word at `4(%EBP)`, as `syscall_handler_sysenter` reads it: four words are on the
stack of the kernel by then. -/
def returnAddress (hd : Handlers) (esp0 : Word) (u : Machine) : Word :=
  load32 (exec sysenterFrame (Gate.sysenter.entered hd esp0 u)).mem (u.reg .ebp + 4)

/-! ### The two gates -/

/-- **The two gates agree**, the kernel being entered on the stack `esp0 g`. -/
structure EntriesAgree (hd : Handlers) (code : Code hd) (esp0 : Gate → Word) (u : UserProgram) :
    Prop where
  /-- The numbers that are looked up are the indices of the table. -/
  inTable : ∀ n, calledIndex (u.reg .eax) = some n ↔ (u.reg .eax).toInt = n ∧ n < maxSyscall
  /-- Both gates call the same entry of the table, with the same arguments. -/
  calls : ∀ n, calledIndex (u.reg .eax) = some n → ∃ s, sysCallTable[n]? = some s ∧ ∀ g,
    (enter g hd (esp0 g) u.toMachine).eip = hd.service s ∧
    Words (enter g hd (esp0 g) u.toMachine).mem
      ((enter g hd (esp0 g) u.toMachine).reg .esp + 4)
      [u.reg .edx, u.reg .ecx, u.reg .ebx, u.reg .esi, u.reg .edi, u.reg .ebp]
  /-- Neither calls anything for another number, which is an error. -/
  refuses : calledIndex (u.reg .eax) = none → ∀ g,
    served g hd code (esp0 g) u.toMachine = enter g hd (esp0 g) u.toMachine ∧
    (served g hd code (esp0 g) u.toMachine).eip = hd.fin g ∧
    (served g hd code (esp0 g) u.toMachine).reg .eax = BitVec.ofInt 32 (-ENOSYS)
  /-- `int 0x80` leads to the instruction after it, and changes `EAX` only. -/
  int80 : ∃ m, syscall .int80 hd code (esp0 .int80) u.toMachine = some m ∧ m.eip = u.eip ∧
    m.reg .eax = (served .int80 hd code (esp0 .int80) u.toMachine).reg .eax ∧
    (∀ r, r ≠ .eax → m.reg r = u.reg r) ∧ m.seg = u.seg ∧ m.eflags = u.eflags
  /-- `sysenter` leads to the address at `4(%EBP)`, with the stack at `EBP`. -/
  sysenter : ∃ m, syscall .sysenter hd code (esp0 .sysenter) u.toMachine = some m ∧
    m.eip = returnAddress hd (esp0 .sysenter) u.toMachine ∧ m.reg .esp = u.reg .ebp ∧
    m.reg .eax = (served .sysenter hd code (esp0 .sysenter) u.toMachine).reg .eax ∧
    (∀ r ∈ calleeSaved, m.reg r = u.reg r) ∧ m.seg = u.seg
  /-- That is the address the program has put there, unless it is one of the four
  words that the handler has pushed. -/
  stored : (∀ x, (x - (u.reg .ebp + 4)).toNat < 4 → 16 ≤ (x - (esp0 .sysenter - 16)).toNat) →
    returnAddress hd (esp0 .sysenter) u.toMachine = load32 u.mem (u.reg .ebp + 4)

section Agree

variable {hd : Handlers} {code : Code hd} {esp0 : Word} {u : Machine} {n : Nat}

theorem calledIndex_eq_some_iff {eax : Word} :
    calledIndex eax = some n ↔ eax.toInt = n ∧ n < maxSyscall := by
  rw [calledIndex]
  split
  · next h => exact ⟨fun h' => absurd h' (by simp), fun h' => by omega⟩
  · next h =>
    rw [Option.some.injEq]
    omega

/-- The call of an entry of the table. -/
theorem enter_of_some (g : Gate) (hd : Handlers) (esp0 : Word) {s : Service}
    (h : calledIndex (u.reg .eax) = some n) (hs : sysCallTable[n]? = some s) :
    (enter g hd esp0 u).eip = hd.service s ∧
      Words (enter g hd esp0 u).mem ((enter g hd esp0 u).reg .esp + 4) (arguments u) := by
  obtain ⟨hp, heip⟩ := call_some (pushed_head g hd esp0 u).1 hs
  rw [enter, h]
  exact ⟨heip, words_arguments hp⟩

/-- A number that is not looked up. -/
theorem served_of_none (g : Gate) (code : Code hd) (esp0 : Word)
    (h : calledIndex (u.reg .eax) = none) :
    served g hd code esp0 u = enter g hd esp0 u ∧ (served g hd code esp0 u).eip = hd.fin g ∧
      (served g hd code esp0 u).reg .eax = BitVec.ofInt 32 (-ENOSYS) := by
  obtain ⟨-, heip, heax⟩ := @call_none _ _ _ sysCallTable _ _ _ _ (pushed_head g hd esp0 u).1
  have hserved : served g hd code esp0 u = enter g hd esp0 u := by
    rw [served, h]
    rfl
  rw [hserved]
  refine ⟨rfl, ?_, ?_⟩
  · rw [enter, h]
    exact heip
  · rw [enter, h]
    exact heax

/-- Every system call leads back to the program. -/
theorem syscall_returns (g : Gate) (code : Code hd) (esp0 : Word) (u : Machine) :
    ∃ m, syscall g hd code esp0 u = some m ∧
      BackToUser g u (g.hwContext hd esp0 u) ((served g hd code esp0 u).reg .eax) m ∧
      (g = .int80 → m.eflags = u.eflags) :=
  leave_serve code (fun _ hn => (calledIndex_eq_some_iff.mp hn).2) (pushed_head g hd esp0 u).1

/-- The handler reads what the program has stored, if it is not below its stack. -/
theorem returnAddress_of_apart
    (h : ∀ x, (x - (u.reg .ebp + 4)).toNat < 4 → 16 ≤ (x - (esp0 - 16)).toNat) :
    returnAddress hd esp0 u = load32 u.mem (u.reg .ebp + 4) := by
  obtain ⟨hp, -⟩ := pushed_sysenterFrame hd esp0 u
  exact load32_congr fun x hx => hp.below x (h x hx)

end Agree

/-- **The entries through `int 0x80` and through `sysenter` agree**, for every program,
every number in `EAX`, and every service routine that leaves its arguments alone. -/
theorem entries_agree (hd : Handlers) (code : Code hd) (esp0 : Gate → Word) (u : UserProgram) :
    EntriesAgree hd code esp0 u where
  inTable := fun _ => calledIndex_eq_some_iff
  calls := fun n hn => by
    have hlt : n < sysCallTable.length := (calledIndex_eq_some_iff.mp hn).2
    exact ⟨_, List.getElem?_eq_getElem hlt,
      fun g => enter_of_some g hd (esp0 g) hn (List.getElem?_eq_getElem hlt)⟩
  refuses := fun h g => served_of_none g code (esp0 g) h
  int80 := by
    obtain ⟨m, hm, hb, hfl⟩ := syscall_returns .int80 code (esp0 .int80) u.toMachine
    refine ⟨m, hm, hb.eip, ?_, fun r hr => ?_, hb.seg_preserved, hfl rfl⟩
    · rw [hb.reg]
      rfl
    · rw [hb.reg]
      cases r <;> first | rfl | exact absurd rfl hr
  sysenter := by
    obtain ⟨m, hm, hb, -⟩ := syscall_returns .sysenter code (esp0 .sysenter) u.toMachine
    refine ⟨m, hm, hb.eip, ?_, ?_, hb.reg_preserved, hb.seg_preserved⟩
    · rw [hb.reg]
      rfl
    · rw [hb.reg]
      rfl
  stored := returnAddress_of_apart

end Zeos.Base
