import Zeos.Lib.X86
import Zeos.Common.Mm

/-!
# The context switch

`task_switch` and `switch_stack` are assembly routines with the same text in
every kernel, and `inner_task_switch` is the C function between them. A switch
builds one frame on the stack of the outgoing task – the registers the C compiler
expects to survive a call, the argument, the return address into `task_switch`
and the frame pointer – stores the address of that frame in the PCB, and then
tears down the corresponding frame of the incoming task, on *its* stack.

The kernel memory is flat here: the task array lies at the address the linker
gave it, one page for each PCB and the kernel stack above it
(`Zeos.TaskArea`). The number of pages is a parameter: in the kernels with a task
array it is `NR_TASKS`, and where a PCB may lie in any frame the array is all of
physical memory. The code around the routines enters through
`Zeos.SwitchCtx`: where the stack pointer was and what the registers and the
kernel stack held when `sched_next_rr` called `task_switch`, and what the
compiled body of `inner_task_switch` leaves in the registers it may use.

What a switch does is said in `Zeos.Common.Resume`.
-/

namespace Zeos

open ByteMem X86

/-! ### Where things are -/

/-- The number of bytes at the start of a task's page that hold its PCB, rounded
up: the kernel stack never reaches below. -/
def pcbBytes : Nat := 64

/-- The addresses the linker and the compiler chose, for an array of `N` pages, one
for each task. -/
structure TaskArea (N : Nat := nrTasks) where
  /-- The address of `task[0]`. -/
  base : Word
  /-- The offset, in a PCB, of the field that holds the saved stack pointer. -/
  espField : Word
  /-- The address of the instruction after `call inner_task_switch`. -/
  afterInner : Word
  /-- The address of `task_switch`. -/
  taskSwitch : Word
  /-- The address of `inner_task_switch`. -/
  innerTaskSwitch : Word
  /-- The address of `switch_stack`. -/
  switchStack : Word
  /-- The address of the instruction after `call switch_stack`. -/
  afterSwitch : Word
  /-- The task array does not wrap around. -/
  base_le : base.toNat + N * 4096 ≤ 2 ^ 32
  /-- The saved stack pointer is a field of the PCB. -/
  espField_le : espField.toNat + 4 ≤ pcbBytes

namespace TaskArea

variable {N : Nat} (ar : TaskArea N)

/-- The address of a task's PCB, which is that of its page. -/
def pcb (t : Fin N) : Word := ar.base + BitVec.ofNat 32 (4096 * t)

/-- The address of `task[t].stack[i]`. -/
def stack (t : Fin N) (i : Nat) : Word := ar.pcb t + BitVec.ofNat 32 (4 * i)

/-- The address of the field with the saved stack pointer. -/
def espAddr (t : Fin N) : Word := ar.pcb t + ar.espField

/-- The address belongs to the kernel stack of the task. -/
def OnStack (t : Fin N) (x : Word) : Prop :=
  pcbBytes ≤ (x - ar.pcb t).toNat ∧ (x - ar.pcb t).toNat < 4096

instance (t : Fin N) : DecidablePred (ar.OnStack t) := fun _ => inferInstanceAs (Decidable (_ ∧ _))

/-- The memory when the kernel stack of a task holds the given contents: what the
task's own kernel code has done to it since the task was last looked at. -/
def fill (t : Fin N) (contents m : Mem) : Mem := fun x => if ar.OnStack t x then contents x else m x

end TaskArea

/-- The state of the processor, and the kernel stack of the running task, when
`sched_next_rr` is about to push the argument of `task_switch`; and what the
compiled `inner_task_switch` does with registers and stack. All of it is up to
the compiler and to how the kernel was entered, within the bounds of the stack. -/
structure SwitchCtx where
  /-- The stack pointer, as an index into the kernel stack. -/
  sp : Nat
  /-- `EBP` -/
  ebp : Word
  /-- `EBX` -/
  ebx : Word
  /-- `ESI` -/
  esi : Word
  /-- `EDI` -/
  edi : Word
  /-- The address `task_switch` returns to. -/
  ret : Word
  /-- The contents of the kernel stack. -/
  contents : Mem
  /-- The words `inner_task_switch` keeps below its frame pointer. -/
  spill : List Word
  /-- What `inner_task_switch` leaves in the other registers. -/
  clobber : Reg → Word
  /-- The kernel stack has room left. -/
  room : 64 ≤ sp
  /-- The stack pointer is on the kernel stack. -/
  sp_le : sp ≤ 1024
  /-- The frame of `inner_task_switch` is small. -/
  spill_le : spill.length ≤ 16

namespace SwitchCtx

variable {N : Nat} (c : SwitchCtx) (ar : TaskArea N)

/-- The machine as `sched_next_rr` of task `t` has it: registers and kernel stack
are the context's, all other memory is as it was. -/
def enter (t : Fin N) (m : Machine) : Machine :=
  { m with
    reg := fun r => match r with
      | .esp => ar.stack t c.sp
      | .ebp => c.ebp
      | .ebx => c.ebx
      | .esi => c.esi
      | .edi => c.edi
      | r => m.reg r
    mem := ar.fill t c.contents m.mem }

/-- The frame pointer of `inner_task_switch`: nine words below the stack
pointer. -/
def framePtr (t : Fin N) : Word := ar.stack t c.sp - 36

/-- What a switched-out task leaves on its stack, from the frame pointer up. -/
def frame (t new : Fin N) : List Word :=
  [ar.stack t c.sp - 12, ar.afterInner, ar.pcb new, c.ebx, c.edi, c.esi, c.ebp, c.ret]

end SwitchCtx

/-! ### The routines -/

section Routines

variable {N : Nat} (ar : TaskArea N)

/-- `task_switch`, up to the call of `inner_task_switch`. -/
def taskSwitchEntry : List Instr :=
  [.pushR .ebp, .movR .esp .ebp, .pushR .esi, .pushR .edi, .pushR .ebx, .pushM 8 .ebp,
    .call ar.innerTaskSwitch ar.afterInner]

/-- `task_switch`, after the call of `inner_task_switch`. -/
def taskSwitchExit : List Instr :=
  [.addI 4 .esp, .popR .ebx, .popR .edi, .popR .esi, .popR .ebp, .ret]

/-- `switch_stack` -/
def switchStackCode : List Instr :=
  [.load 4 .esp .eax, .store .ebp 0 .eax, .load 8 .esp .esp, .popR .ebp, .ret]

/-- The compiled body of `inner_task_switch` up to its call of `switch_stack`: the
frame is set up, the body uses what registers and stack it needs. -/
def innerBody (c : SwitchCtx) (m : Machine) : Machine :=
  let m := exec [.pushR .ebp, .movR .esp .ebp] m
  let m := { m with reg := fun r => if r = .esp ∨ r = .ebp then m.reg r else c.clobber r }
  c.spill.foldl Machine.push m

/-- `switch_stack(&current()->register_esp, new->task.register_esp)`: both
arguments are evaluated before the call, so the saved stack pointer of the new
task is the one its PCB holds *before* the old task's is stored. -/
def callSwitchStack (cur new : Fin N) (m : Machine) : Machine :=
  let newEsp := load32 m.mem (ar.espAddr new)
  exec switchStackCode
    (exec [.pushI newEsp, .pushI (ar.espAddr cur), .call ar.switchStack ar.afterSwitch] m)

/-- The call of `task_switch` in `sched_next_rr`, down to the `ret` of
`switch_stack`. -/
def switchStacks (c : SwitchCtx) (cur new : Fin N) (m : Machine) : Machine :=
  let m := c.enter ar cur m
  let m := exec [.pushI (ar.pcb new), .call ar.taskSwitch c.ret] m
  let m := exec (taskSwitchEntry ar) m
  callSwitchStack ar cur new (innerBody c m)

/-- `task_switch(new)`, called by `cur`: the `ret` of `switch_stack` leads back
into `task_switch`, unless the new task has never run before. -/
def taskSwitch (c : SwitchCtx) (cur new : Fin N) (m : Machine) : Machine :=
  let m := switchStacks ar c cur new m
  if m.eip = ar.afterInner then exec taskSwitchExit m else m

end Routines

end Zeos
