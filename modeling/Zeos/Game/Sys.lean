import Zeos.Lib.Transition
import Zeos.Game.Sched

/-!
# The system calls and interrupts of the GAME kernel

`sys.c`, the service routines of `interrupt.c` and the handlers of `entry.S` that
call them, assembled into the transition system the kernel is: one step for each
interrupt and each system call (`Zeos.Game.Op`), with whatever the hardware, the
compiler and the user program contribute to it as part of the label. The idle task
executes `cpu_idle`, an endless loop in kernel mode, so system calls are made by
the other tasks only (`Zeos.Game.Enabled`).
-/

namespace Zeos.Game

open ByteMem CircList Paging Loop X86

/-- The kernel stack of the calling task while `sys_fork` runs: its frame pointer,
and what the stack holds. -/
structure ForkCtx where
  /-- The frame pointer of `sys_fork`, as an index into the kernel stack. -/
  fp : Nat
  /-- The contents of the kernel stack. -/
  contents : Mem
  /-- The frame is on the kernel stack. -/
  room : 64 ≤ fp
  /-- The return address of `sys_fork` is on the kernel stack. -/
  fp_le : fp ≤ 1022

namespace Kernel

variable (img : Image) (k : Kernel)

/-! ### `sys_fork` -/

/-- `copy_data(current(), uchild, sizeof(union task_union))`: the PCB with its
list anchor, and the kernel stack. -/
def copyTaskUnion (parent child : Task) : Kernel :=
  { k with
    task := Function.update k.task child (k.task parent)
    links := Function.update k.links (.task child) (k.links (.task parent))
    cpu := { k.cpu with
      mem := copyFlat (img.area.pcb parent) (img.area.pcb child) 4096 k.cpu.mem } }

/-- Give back the first `pag` data pages of a child that could not be completed. -/
def forkRollback (processPT : Task) (pag : Nat) (mm : Mm) : Mm :=
  forLoop pag (fun i mm =>
    let page := userLayout.pagLogInitData + i
    (mm.freeFrame (mm.getFrame processPT page)).delSsPag processPT page) mm

/-- The loop of `sys_fork` that allocates the data pages of the child, `n` of them
from page `pag` on: whether all of them could be had. -/
def forkAlloc (processPT : Task) : Nat → Nat → Mm → Bool × Mm
  | 0, _, mm => (true, mm)
  | n + 1, pag, mm =>
    let (newPhPag, mm) := mm.allocFrame
    if newPhPag ≠ -1 then
      forkAlloc processPT n (pag + 1)
        (mm.setSsPag processPT (userLayout.pagLogInitData + pag) newPhPag)
    else (false, forkRollback processPT pag mm)

/-- The loops of `sys_fork` that share the system and code pages of the parent. -/
def forkShare (processPT parentPT : Task) (mm : Mm) : Mm :=
  let mm := forLoop numPagKernel
    (fun pag mm => mm.setSsPag processPT pag (mm.getFrame parentPT pag)) mm
  forLoop numPagCode (fun pag mm =>
    let page := userLayout.pagLogInitCode + pag
    mm.setSsPag processPT page (mm.getFrame parentPT page)) mm

/-- The loop of `sys_fork` that copies the data pages of the parent, through a
temporary mapping above them. -/
def forkCopy (processPT parentPT : Task) (mm : Mm) : Mm :=
  forLoop numPagData (fun i mm =>
    let pag := numPagKernel + numPagCode + i
    mm.copyThrough parentPT pag (pag + numPagData) (mm.getFrame processPT pag)) mm

/-- The stack of the child: below the return address of `sys_fork` it finds
`ret_from_fork` and the frame pointer of the caller. -/
def forkStack (c : ForkCtx) (uchild : Task) : Kernel :=
  let registerEbp := img.area.stack uchild c.fp
  let tempEbp := load32 k.cpu.mem registerEbp
  let k := k.setRegisterEsp img uchild (registerEbp - 4)
  let k := { k with cpu := { k.cpu with mem := store32 k.cpu.mem registerEbp img.retFromFork } }
  { k with cpu := { k.cpu with mem := store32 k.cpu.mem (registerEbp - 4) tempEbp } }

/-- The PCB of a child whose address space is complete: identity, stack,
statistics and place on the ready queue. -/
def forkFinish (c : ForkCtx) (uchild : Task) : Kernel :=
  let k := { k with globalPID := wrapInt (k.globalPID + 1) }
  let k := k.modifyTask uchild fun s => { s with PID := k.globalPID, state := .stReady }
  let k := k.forkStack img c uchild
  let k := k.initStats uchild
  let k := k.setState uchild .stReady
  { k with
    links := listAddTail k.links (.task uchild) .readyqueue
    entered := Function.update k.entered uchild .systemCallHandler }

/-- The kernel stack of the running task as `sys_fork` finds it. -/
def forkEnter (c : ForkCtx) : Kernel :=
  { k with cpu := { k.cpu with mem := img.area.fill k.current c.contents k.cpu.mem } }

/-- `sys_fork`: the PID of the child, or an error number. -/
def sysFork (c : ForkCtx) : Except Int Int × Kernel :=
  if listEmpty k.links .freequeue then (.error ENOMEM, k)
  else
    let k := k.forkEnter img c
    let lhcurrent := listFirst k.links .freequeue
    let uchild := listHeadToTaskStruct lhcurrent
    let k := { k with links := listDel k.links .null lhcurrent }
    let k := (k.copyTaskUnion img k.current uchild).allocateDIR uchild
    let processPT := k.getPT uchild
    match forkAlloc processPT numPagData 0 k.mm with
    | (false, mm) =>
      (.error EAGAIN, { k with mm := mm, links := listAddTail k.links lhcurrent .freequeue })
    | (true, mm) =>
      let parentPT := k.getPT k.current
      let mm := forkCopy processPT parentPT (forkShare processPT parentPT mm)
      let k := { k with mm := mm.setCr3 (k.getDIR k.current) }
      let k := k.forkFinish img c uchild
      (.ok (k.task uchild).PID, k)

/-! ### The other system calls -/

/-- The loop of `sys_exit`: the data frames of the process are given back. -/
def exitFree (processPT : Task) (mm : Mm) : Mm :=
  forLoop numPagData (fun i mm =>
    let page := userLayout.pagLogInitData + i
    (mm.freeFrame (mm.getFrame processPT page)).delSsPag processPT page) mm

/-- `sys_exit` -/
def sysExit (c : SwitchCtx) : Kernel :=
  let k := { k with mm := exitFree (k.getPT k.current) k.mm }
  let k := { k with links := listAddTail k.links (.task k.current) .freequeue }
  let k := k.modifyTask k.current fun s => { s with PID := -1 }
  k.schedNextRr img c

/-- `sys_yield` -/
def sysYield (c : SwitchCtx) : Kernel := k.forceTaskSwitch img c

/-- `copy_to_user` of an object of the kernel, given byte by byte. -/
def copyToUser (src : Nat → Byte) (dest : Word) (size : Nat) : Kernel :=
  let pt := k.mm.pagusrTable k.mm.activeTable
  let mmu := copyData (fun o mmu => (src o, mmu))
    (fun o => Mmu.storeByte pt (dest + BitVec.ofNat 32 o).toNat) size k.mm.mmu
  { k with mm := { k.mm with mmu := mmu } }

/-- `sys_get_stats` -/
def sysGetStats (pid : Int) (st : Word) : Int × Kernel :=
  if !accessOk accessBounds .verifyWrite st (BitVec.ofNat 32 sizeofStats) then (-EFAULT, k)
  else if pid < 0 then (-EINVAL, k)
  else
    match (List.finRange nrTasks).find? fun i => (k.task i).PID = pid with
    | some i =>
      let k := k.modifyTask i fun s =>
        { s with pStats :=
            { s.pStats with remainingTicks := BitVec.ofInt 32 k.remainingQuantum } }
      (0, k.copyToUser (k.task i).pStats.byte st sizeofStats)
    | none => (-ESRCH, k)

/-- `sys_pollEvent` -/
def sysPollEvent (keyboard : Word) : Int × Kernel :=
  if !accessOk accessBounds .verifyWrite keyboard 128 then (-EFAULT, k)
  else (0, k.copyToUser k.keyboard.keyboardBuffer keyboard 128)

/-! ### Entering and leaving the kernel -/

/-- The running task enters the kernel. -/
def enter (how : Entered) : Kernel :=
  { k with entered := Function.update k.entered k.current how }

/-- The running task leaves the kernel: the end of the handler it entered
through. -/
def leave : Kernel :=
  match k.entered k.current with
  | .clockHandler => k.systemToUser
  | .keyboardHandler => k.systemToUser
  | .systemCallHandler => k
  | .cpuIdle => k

/-- `clock_routine` -/
def clockRoutine (c : SwitchCtx) : Kernel :=
  let k := { k with zeosTicks := wrapInt (k.zeosTicks + 1) }
  let k := { k with keyboard := k.keyboard.consume img.afterCharMap }
  k.schedule img c

/-- `clock_handler` -/
def clockHandler (c : SwitchCtx) : Kernel :=
  (((k.enter .clockHandler).userToSystem).clockRoutine img c).leave

/-- `keyboard_handler`, the byte being the one on port `0x60`. -/
def keyboardHandler (port : Byte) : Kernel :=
  let k := (k.enter .keyboardHandler).userToSystem
  { k with keyboard := k.keyboard.keyboardRoutine port }.leave

end Kernel

/-! ### The transition system -/

/-- What can happen to the kernel. -/
inductive Op
  /-- A clock interrupt. -/
  | clock (c : SwitchCtx)
  /-- A keyboard interrupt. -/
  | keyboard (port : Byte)
  /-- The system call `fork`. -/
  | fork (c : ForkCtx)
  /-- The system call `exit`. -/
  | exit (c : SwitchCtx)
  /-- The system call `yield`. -/
  | yield (c : SwitchCtx)
  /-- The system call `get_stats`. -/
  | getStats (pid : Int) (st : Word)
  /-- The system call `pollEvent`. -/
  | pollEvent (keyboard : Word)
  /-- An access of the user program to one of its pages, which may fill the
  translation cache. -/
  | touch (page : Nat)

/-- Whether the running task can do something now: the idle task makes no system
call and has no user pages. -/
def Enabled (k : Kernel) : Op → Prop
  | .clock _ => True
  | .keyboard _ => True
  | .touch page => k.current ≠ k.idleTask ∧ userLayout.pagLogInitCode ≤ page ∧
      page < userLayout.pagLogInitData + numPagData
  | _ => k.current ≠ k.idleTask

/-- The kernel after an operation. -/
def exec (img : Image) (k : Kernel) : Op → Kernel
  | .clock c => k.clockHandler img c
  | .keyboard port => k.keyboardHandler port
  | .fork c => ((k.enter .systemCallHandler).sysFork img c).2.leave
  | .exit c => ((k.enter .systemCallHandler).sysExit img c).leave
  | .yield c => ((k.enter .systemCallHandler).sysYield img c).leave
  | .getStats pid st => ((k.enter .systemCallHandler).sysGetStats pid st).2.leave
  | .pollEvent keyboard => ((k.enter .systemCallHandler).sysPollEvent keyboard).2.leave
  | .touch page =>
    let pt := k.mm.pagusrTable k.mm.activeTable
    { k with mm := { k.mm with mmu := k.mm.mmu.touch pt page } }

/-- One step of the kernel. -/
def Step (img : Image) (k : Kernel) (op : Op) (k' : Kernel) : Prop :=
  Enabled k op ∧ k' = exec img k op

/-- The kernel as it is loaded: the statically initialised variables have their
values, no access has faulted yet, and nothing else is known. -/
structure Loaded (k : Kernel) : Prop where
  /-- `int global_PID=1000;` -/
  globalPID : k.globalPID = 1000
  /-- The machine is running. -/
  fault : k.mm.mmu.fault = false

/-- **The reachable states**: any sequence of steps after `main` has booted the
loaded image. -/
def Reachable (img : Image) (k : Kernel) : Prop :=
  ∃ k₀, Loaded k₀ ∧ Transition.Reachable (Step img) (k₀.boot img) k

end Zeos.Game
