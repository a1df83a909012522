import Zeos.Lib.Saves
import Zeos.Common.Entry

/-!
# The interrupt handlers

`clock_handler` and `keyboard_handler` of `entry.S`, in the kernels that have the two gates
for system calls. They save the registers with the macro of the handlers of system calls,
acknowledge the interrupt, call the routine in C, restore the registers, and return with
`iret`. Neither stores anything at `0x18(%esp)`: what the acknowledgement leaves in `%al`,
and the routine in `EAX`, is lost.

So an interrupt is transparent (`Zeos.interrupt_transparent`), to a program in user mode and
to the code of the kernel that waits for interrupts (`cpu_idle`), on whose stack the handler
works. Of the routines only the calling convention is known. A routine may switch to another
task on the way: it returns when the task that was interrupted is chosen again.
-/

namespace Zeos

open ByteMem X86

/-- The interrupts that have a handler. -/
inductive Irq
  /-- the clock -/
  | clock
  /-- the keyboard -/
  | keyboard
deriving DecidableEq

/-- The addresses of the handlers and of what they call. -/
structure Isr where
  /-- The address of `clock_handler`, or of `keyboard_handler`. -/
  handler : Irq → Word
  /-- The address of `clock_routine`, or of `keyboard_routine`. -/
  routine : Irq → Word
  /-- The address of the instruction after the call of the routine. -/
  afterRoutine : Irq → Word

/-- The registers that `SAVE_ALL` and `RESTORE_ALL` are about. -/
def savedRegs : List AnyReg :=
  [.gen .edx, .gen .ecx, .gen .ebx, .gen .esi, .gen .edi, .gen .ebp, .gen .eax, .sel .ds, .sel .es,
    .sel .fs, .sel .gs]

section Handlers

variable (l : Isr) (code : Word → Machine → Machine) (g : Ring) (esp0 : Word) (u : Machine)

/-- What the handlers do between `SAVE_ALL` and `RESTORE_ALL`. -/
def Isr.acts (i : Irq) : List Act := [.eoi, .call (l.routine i) (l.afterRoutine i)]

/-- What the handlers have in common. -/
def interruptHandler (i : Irq) : Option Machine :=
  ((l.acts i).foldlM (fun m (act : Act) => act.run code m)
      (exec saveAll (g.interrupt kernelDS esp0 kernelCS (l.handler i) u))).map fun m =>
    g.iret (exec restoreAll m)

/-- `clock_handler` -/
def clockHandler : Option Machine := interruptHandler l code g esp0 u .clock

/-- `keyboard_handler` -/
def keyboardHandler : Option Machine := interruptHandler l code g esp0 u .keyboard

/-- The two macros push and pop the same registers, in opposite orders. -/
theorem interruptHandler_eq (i : Irq) : interruptHandler l code g esp0 u i =
    handle code g kernelDS esp0 kernelCS (l.handler i) kernelDS savedRegs (l.acts i) u := rfl

end Handlers

/-- The number of words above its return address that a routine leaves alone: those of the
context, and one more. -/
def routineWords : Nat := 17

/-- The bytes are not among those that a handler pushes, on the stack `top`, before its
routine takes over. -/
def OffStack (top : Word) (keep : Word → Prop) : Prop :=
  ∀ x, keep x → 4 * routineWords + 8 ≤
    (x - (top - BitVec.ofNat 32 (4 * routineWords + 8))).toNat

theorem complete_savedRegs : Complete savedRegs := by
  intro t
  cases t with
  | gen r => cases r <;> simp [savedRegs]
  | sel s => cases s <;> simp [savedRegs]

/-- **Interrupts are transparent.** Whatever the routine does, within the calling convention,
the code that has been interrupted goes on where it was, with all its registers, its segments,
its flags, and the memory that the routine leaves alone. -/
theorem interrupt_transparent (l : Isr) (code : Word → Machine → Machine) (keep : Word → Prop)
    (g : Ring) (esp0 : Word) (u : Machine)
    (hclock : Returns routineWords keep (code (l.routine .clock)))
    (hkeyboard : Returns routineWords keep (code (l.routine .keyboard)))
    (hkeep : OffStack (g.stack esp0 u) keep) :
    (∃ m, clockHandler l code g esp0 u = some m ∧ Resumed keep u m) ∧
      ∃ m, keyboardHandler l code g esp0 u = some m ∧ Resumed keep u m := by
  have hirq : ∀ i, ∃ m, interruptHandler l code g esp0 u i = some m ∧ Resumed keep u m := by
    intro i
    rw [interruptHandler_eq]
    refine handle_interrupt (n := routineWords) complete_savedRegs ?_ ?_ (by decide) (by decide)
      hkeep
    · intro act hact t ht
      simp only [Isr.acts, List.mem_cons, List.not_mem_nil, or_false] at hact
      rcases hact with rfl | rfl
      · exact absurd ht (by simp [Act.target])
      · obtain rfl := Option.some.inj ht
        cases i with
        | clock => exact hclock
        | keyboard => exact hkeyboard
    · intro act hact
      simp only [Isr.acts, List.mem_cons, List.not_mem_nil, or_false] at hact
      rcases hact with rfl | rfl <;> simp
  exact ⟨hirq .clock, hirq .keyboard⟩

/-- Possible addresses of the handlers. -/
def sampleIsr : Isr where
  handler := fun i => if i = .clock then 0x11200 else 0x11300
  routine := fun i => if i = .clock then 0x14000 else 0x15000
  afterRoutine := fun i => if i = .clock then 0x11230 else 0x11330

/-- A routine that counts its calls in `EAX`, and returns. -/
def sampleRoutine (m : Machine) : Machine := step (m.setReg .eax (m.reg .eax + 1)) .ret

theorem returns_sampleRoutine (n : Nat) (keep : Word → Prop) : Returns n keep sampleRoutine where
  eip := fun m => by
    simp [sampleRoutine, step, Machine.pop, Machine.setReg_reg_of_ne]
  esp := fun m => by
    simp [sampleRoutine, step, Machine.pop, Machine.setReg_reg_of_ne]
  ss := fun _ => rfl
  mem := fun _ _ _ => rfl
  kept := fun _ _ _ => rfl

/-- A program in user mode. -/
def interruptedProgram : Machine where
  reg := fun r => if r = .esp then 0x11bf00 else 7
  seg := fun s => if s = .cs then userCS else userDS
  eip := 0x114020
  eflags := 0x202
  mem := fun _ => 0

/-- The program is interrupted by the clock, and by the keyboard. -/
theorem interrupt_transparent_sample :
    (∃ m, clockHandler sampleIsr (fun _ => sampleRoutine) .user 0x20000 interruptedProgram =
        some m ∧ Resumed (fun x => x = 0x11bf00) interruptedProgram m) ∧
      ∃ m, keyboardHandler sampleIsr (fun _ => sampleRoutine) .user 0x20000 interruptedProgram =
        some m ∧ Resumed (fun x => x = 0x11bf00) interruptedProgram m :=
  interrupt_transparent sampleIsr (fun _ => sampleRoutine) _ .user 0x20000 interruptedProgram
    (returns_sampleRoutine _ _) (returns_sampleRoutine _ _) fun x hx => by
      rw [hx]
      decide

end Zeos
