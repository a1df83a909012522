import Zeos.Common.Entry
import Zeos.E1E2.Kernel

/-!
# System calls of the E1_E2 kernel

The table of service routines, and the handlers' look-up in it (`entry.S`,
`sys_call_table.S`). The handlers refuse a number that is negative or *greater* than
`MAX_SYSCALL`, which is the number of the entries: one number too many gets through,
and the word after the table is called. The handlers of the kernel under `zeos/` refuse
it (`jge` in the place of `jg`).

`Zeos.E1E2.DispatchClosed` is what a handler should do with any number whatsoever, and
`Zeos.E1E2.dispatchClosed_iff` says with which numbers it does so: with all of them but
the one.
-/

namespace Zeos.E1E2

open ByteMem X86

/-! ### The table -/

/-- The service routines. -/
inductive Service
  /-- `sys_ni_syscall` -/
  | niSyscall
  /-- `sys_exit` -/
  | exit
  /-- `sys_fork` -/
  | fork
  /-- `sys_write` -/
  | write
  /-- `sys_gettime` -/
  | gettime
  /-- `sys_block` -/
  | block
  /-- `sys_unblock` -/
  | unblock
  /-- `sys_getpid` -/
  | getpid
deriving DecidableEq

/-- `sys_call_table` -/
def sysCallTable : List Service :=
  [.niSyscall, .exit, .fork, .niSyscall, .write, .niSyscall, .niSyscall, .niSyscall, .niSyscall,
    .niSyscall, .gettime, .niSyscall, .block, .unblock, .niSyscall, .niSyscall, .niSyscall,
    .niSyscall, .niSyscall, .niSyscall, .getpid]

/-- `MAX_SYSCALL` -/
def maxSyscall : Nat := sysCallTable.length

/-- The addresses of the handlers and of what they call. -/
abbrev Handlers := Zeos.Handlers Service

/-! ### The handlers -/

/-- The stack pointer the processor enters the kernel with. -/
def kernelEsp (g : Gate) (k : Kernel) : Word :=
  match g with
  | .int80 => k.tssEsp0
  | .sysenter => k.msrEsp

/-- The handler's check of the number and its call of the service routine. -/
def callService (g : Gate) (hd : Handlers) (m : Machine) : Machine :=
  let n := (m.reg .eax).toInt
  if n < 0 ∨ (maxSyscall : Int) < n then
    { m.setReg .eax (BitVec.ofInt 32 (-ENOSYS)) with eip := hd.fin g }
  else step m (.call (hd.entry sysCallTable n.toNat) (hd.afterCall g))

/-- **A system call**, up to the first instruction of the service routine. -/
def enter (g : Gate) (hd : Handlers) (esp0 : Word) (u : Machine) : Machine :=
  callService g hd (X86.exec g.head (g.entered hd esp0 u))

/-! ### What is called -/

/-- The index at which the handlers read the table, if they do. -/
def calledIndex (eax : Word) : Option Nat :=
  let n := eax.toInt
  if n < 0 ∨ (maxSyscall : Int) < n then none else some n.toNat

theorem callService_eq (g : Gate) (hd : Handlers) (m : Machine) :
    callService g hd m = hd.call sysCallTable g (calledIndex (m.reg .eax)) m := by
  rw [callService, calledIndex]
  split <;> rfl

theorem calledIndex_eq_some_iff {eax : Word} {n : Nat} :
    calledIndex eax = some n ↔ eax.toInt = n ∧ n ≤ maxSyscall := by
  rw [calledIndex]
  split
  · next h => exact ⟨fun h' => absurd h' (by simp), fun h' => by omega⟩
  · next h =>
    rw [Option.some.injEq]
    omega

theorem enter_eq (g : Gate) (hd : Handlers) (esp0 : Word) (u : Machine) :
    enter g hd esp0 u = hd.call sysCallTable g (calledIndex (u.reg .eax))
      (X86.exec g.head (g.entered hd esp0 u)) := by
  rw [enter, callService_eq, (pushed_head g hd esp0 u).2]

/-- **The way in.** A system call with the number of a service leads to its first
instruction, with the return address and the context on the stack of the kernel. -/
theorem pushed_enter {u : Machine} (g : Gate) (hd : Handlers) (esp0 : Word) {n : Nat}
    {s : Service} (hn : (u.reg .eax).toInt = n) (hs : sysCallTable[n]? = some s) :
    Pushed u.mem esp0 (hd.afterCall g :: g.context hd esp0 u (u.reg .eax)) (enter g hd esp0 u) ∧
      (enter g hd esp0 u).eip = hd.service s := by
  have hlt : n < sysCallTable.length := (List.getElem?_eq_some_iff.mp hs).1
  rw [enter_eq, calledIndex_eq_some_iff.mpr ⟨hn, hlt.le⟩]
  exact call_some (pushed_head g hd esp0 u).1 hs

/-- The machine when the service routine, if there is one, has returned. -/
def served (g : Gate) (hd : Handlers) (code : Code hd) (esp0 : Word) (u : Machine) : Machine :=
  code.serve (calledIndex (u.reg .eax)) (enter g hd esp0 u)

/-- **A system call**, from the instruction that makes it to the one after it. -/
def syscall (g : Gate) (hd : Handlers) (code : Code hd) (esp0 : Word) (u : Machine) :
    Option Machine :=
  g.leave hd (served g hd code esp0 u)

/-- **The dispatch of a system call is closed.** -/
structure DispatchClosed (g : Gate) (hd : Handlers) (code : Code hd) (esp0 : Word)
    (u : UserProgram) : Prop where
  /-- The table is read inside its bounds only. -/
  inside : ∀ n, calledIndex (u.reg .eax) = some n → n < maxSyscall
  /-- What is called is the entry of the table. -/
  calls : ∀ n, calledIndex (u.reg .eax) = some n → (u.reg .eax).toInt = n ∧
    ∃ s, sysCallTable[n]? = some s ∧ (enter g hd esp0 u.toMachine).eip = hd.service s
  /-- Every number that is not the index of an entry is an error, and nothing is
  called. -/
  refuses : ¬(0 ≤ (u.reg .eax).toInt ∧ (u.reg .eax).toInt < maxSyscall) →
    calledIndex (u.reg .eax) = none ∧
      (served g hd code esp0 u.toMachine).reg .eax = BitVec.ofInt 32 (-ENOSYS)
  /-- The program gets the result, and its registers back. -/
  returns : ∃ m, syscall g hd code esp0 u.toMachine = some m ∧
    m.reg .eax = (served g hd code esp0 u.toMachine).reg .eax ∧
    (∀ r ∈ calleeSaved, m.reg r = u.reg r) ∧ m.seg = u.seg

section Dispatch

variable {g : Gate} {hd : Handlers} {code : Code hd} {esp0 : Word} {u : UserProgram} {n : Nat}

/-- The program gets the result and its registers, when the table has been read inside
its bounds. -/
theorem syscall_returns (h : ∀ n, calledIndex (u.reg .eax) = some n → n < maxSyscall) :
    ∃ m, syscall g hd code esp0 u.toMachine = some m ∧
      m.reg .eax = (served g hd code esp0 u.toMachine).reg .eax ∧
      (∀ r ∈ calleeSaved, m.reg r = u.reg r) ∧ m.seg = u.seg := by
  obtain ⟨m, hm, hb, -⟩ := leave_serve code h (pushed_head g hd esp0 u.toMachine).1
  rw [← enter_eq] at hm hb
  refine ⟨m, hm, ?_, hb.reg_preserved, hb.seg_preserved⟩
  rw [hb.reg]
  rfl

/-- The number is refused. -/
theorem dispatchClosed_of_none (h : calledIndex (u.reg .eax) = none) :
    DispatchClosed g hd code esp0 u where
  inside := fun n hn => absurd (h.symm.trans hn) (by simp)
  calls := fun n hn => absurd (h.symm.trans hn) (by simp)
  refuses := fun _ => by
    obtain ⟨-, -, heax⟩ := @call_none _ _ _ sysCallTable _ _ _ _
      (pushed_head g hd esp0 u.toMachine).1
    refine ⟨h, ?_⟩
    rw [served, enter_eq, h]
    exact heax
  returns := syscall_returns fun n hn => absurd (h.symm.trans hn) (by simp)

/-- The number is the index of an entry of the table. -/
theorem dispatchClosed_of_lt (h : calledIndex (u.reg .eax) = some n) (hn : n < maxSyscall) :
    DispatchClosed g hd code esp0 u := by
  have heax : (u.reg .eax).toInt = n := (calledIndex_eq_some_iff.mp h).1
  have hinside : ∀ k, calledIndex (u.reg .eax) = some k → k < maxSyscall := by
    intro k hk
    obtain rfl := Option.some.inj (h.symm.trans hk)
    exact hn
  refine ⟨hinside, fun k hk => ?_, fun hout => by omega, syscall_returns hinside⟩
  obtain rfl := Option.some.inj (h.symm.trans hk)
  obtain ⟨s, hs⟩ : ∃ s, sysCallTable[n]? = some s := ⟨_, List.getElem?_eq_getElem hn⟩
  exact ⟨heax, s, hs, (pushed_enter g hd esp0 heax hs).2⟩

/-- **The dispatch is closed for every number but one.** With `MAX_SYSCALL` itself the
handlers read the word after the table and call it. -/
theorem dispatchClosed_iff (g : Gate) (hd : Handlers) (code : Code hd) (esp0 : Word)
    (u : UserProgram) :
    DispatchClosed g hd code esp0 u ↔ u.reg .eax ≠ BitVec.ofNat 32 maxSyscall := by
  have hmax : (BitVec.ofNat 32 maxSyscall).toInt = maxSyscall := by decide
  refine ⟨fun h heq => ?_, fun hne => ?_⟩
  -- `jg` lets the number of the entries through
  · have hcalled : calledIndex (u.reg .eax) = some maxSyscall :=
      calledIndex_eq_some_iff.mpr ⟨by rw [heq, hmax], le_refl _⟩
    exact lt_irrefl _ (h.inside _ hcalled)
  · cases hc : calledIndex (u.reg .eax) with
    | none => exact dispatchClosed_of_none hc
    | some n =>
      obtain ⟨hn, hle⟩ := calledIndex_eq_some_iff.mp hc
      refine dispatchClosed_of_lt hc (lt_of_le_of_ne hle fun h => hne ?_)
      subst h
      exact BitVec.eq_of_toInt_eq (hn.trans hmax.symm)

end Dispatch

/-- Possible addresses of the handlers. -/
def sampleHandlers : Handlers where
  systemCallHandler := 0x11000
  syscallHandlerSysenter := 0x11100
  service := fun s => if s = .fork then 0x12000 else 0x13000
  pastTable := 0
  afterCall := fun g => if g = .int80 then 0x11040 else 0x11140
  fin := fun g => if g = .int80 then 0x11050 else 0x11150

/-- Service routines that return at once. -/
def sampleCode : Code sampleHandlers where
  run := fun _ m => step m .ret
  service := fun _ => routine_ret

/-- A program about to make the system call `MAX_SYSCALL`. -/
def pastTableCall : UserProgram where
  reg := fun r => if r = .eax then 21 else if r = .esp then 0x11c000 else 7
  seg := fun s => if s = .cs then userCS else userDS
  eip := 0x114020
  eflags := 0x202
  mem := fun _ => 0
  cs := rfl
  ss := rfl

/-- **The word after the table is called.** The table has the entries `0` to `20`;
with `21` in `EAX` both handlers call what follows it. -/
theorem dispatch_past_table :
    (calledIndex (pastTableCall.reg .eax) = some 21 ∧ sysCallTable[21]? = none) ∧
      ¬DispatchClosed .int80 sampleHandlers sampleCode 0x20000 pastTableCall ∧
      ¬DispatchClosed .sysenter sampleHandlers sampleCode 0x20000 pastTableCall := by
  have hcalled : calledIndex (pastTableCall.reg .eax) = some 21 := by decide
  have hout : ¬21 < maxSyscall := by decide
  exact ⟨⟨hcalled, by decide⟩, fun h => hout (h.inside 21 hcalled),
    fun h => hout (h.inside 21 hcalled)⟩

end Zeos.E1E2
