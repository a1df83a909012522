import Zeos.E1E2.Kernel

/-!
# The scheduler of the E1_E2 kernel

`sched.c`: the round robin policy and the initialisation of the queues, of the
idle task and of the first process. The clock interrupt does not call `schedule`
in this kernel; `sys_block` does, and `sys_exit` calls `sched_next_rr`.

A function that takes the first node of a queue for a PCB returns nothing when it
is not the anchor of one: what it then reads and writes is memory the kernel state
does not describe.
-/

namespace Zeos.E1E2

open ByteMem CircList X86

namespace Kernel

variable (img : Image) (c : SwitchCtx) (k : Kernel)

/-! ### Round robin -/

/-- `get_quantum` -/
def getQuantum (t : Task) : Int := (k.task t).quantum

/-- `set_quantum` -/
def setQuantum (t : Task) (newQuantum : Int) : Kernel :=
  k.modifyTask t fun s => { s with quantum := newQuantum }

/-- `update_sched_data_rr` -/
def updateSchedDataRr : Kernel := { k with queueTicks := wrapInt (k.queueTicks - 1) }

/-- `needs_sched_rr` -/
def needsSchedRr : Bool × Kernel :=
  if k.queueTicks ≤ 0 then
    let k := { k with queueTicks := k.getQuantum k.current }
    (!listEmpty k.links .readyqueue, k)
  else if (k.task k.current).state = .stBlocked then (true, k)
  else (false, k)

/-- The first lines of `update_process_state_rr`: a task that is not running is
taken off its queue. -/
def leaveQueue (t : Task) : Kernel :=
  if (k.task t).state ≠ .stRun then { k with links := listDel k.links .null (.list t) } else k

/-- `update_process_state_rr`, the destination queue being `NULL` or a queue. -/
def updateProcessStateRr (t : Task) (dstQueue : Option Node) : Kernel :=
  let k := k.leaveQueue t
  match dstQueue with
  | some q =>
    let k := { k with links := listAddTail k.links (.list t) q }
    if q = .readyqueue then k.setState t .stReady else k.setState t .stBlocked
  | none => k.setState t .stRun

/-- `inner_task_switch` and the assembly around it: the stack pointers the
processor enters the kernel with, the address space, and the stacks are
exchanged. -/
def taskSwitch (new : Task) : Kernel :=
  { k with
    tssEsp0 := img.area.stack new 1024
    msrEsp := img.area.stack new 1024
    mm := k.mm.setCr3 (k.getDIR new)
    cpu := Zeos.taskSwitch img.area c k.current new k.cpu
    current := new }

/-- The end of `sched_next_rr`: the chosen task gets its quantum and the
processor. -/
def dispatch (nextTask : Task) : Kernel :=
  let k := { k with queueTicks := k.getQuantum nextTask }
  k.taskSwitch img c nextTask

/-- `sched_next_rr` -/
def schedNextRr : Option Kernel :=
  if listEmpty k.links .readyqueue then some (k.dispatch img c k.idleTask)
  else
    match listHeadToTaskStruct (listFirst k.links .readyqueue) with
    | some nextTask => some ((k.updateProcessStateRr nextTask none).dispatch img c nextTask)
    | none => none

/-- `schedule` -/
def schedule : Option Kernel :=
  let (needed, k) := k.updateSchedDataRr.needsSchedRr
  if needed then (k.updateProcessStateRr k.current (some .readyqueue)).schedNextRr img c
  else some k

/-! ### Initialisation -/

/-- One round of the loop of `init_sched`. -/
def enqueueFree (t : Task) : Kernel := { k with links := listAdd k.links (.list t) .freequeue }

/-- The first part of `init_sched`: the queues are empty. -/
def initQueues : Kernel :=
  let k := { k with links := initListHead k.links .freequeue }
  let k := { k with links := initListHead k.links .readyqueue }
  { k with links := initListHead k.links .blocked }

/-- `init_sched` -/
def initSched : Kernel :=
  { (List.finRange nrTasks).foldl enqueueFree k.initQueues with queueTicks := defaultQuantum }

/-- What `init_idle` does to the PCB it has taken. -/
def initIdleAt (t : Task) : Kernel :=
  let k := k.modifyTask t fun s => { s with PID := 0 }
  let k := k.setQuantum t defaultQuantum
  let k := k.modifyTask t fun s => { s with pendingUnblocks := 0, state := .stReady }
  let k := { k with links := initListHead k.links (.kids t) }
  let k := k.allocateDIR t
  let k := k.setStack img t 1022 0
  let k := k.setStack img t 1023 img.cpuIdle
  let k := k.setKernelEsp img t (img.area.stack t 1022)
  { k with idleTask := t }

/-- What `init_task1` does to the PCB it has taken. The first process is running
when `main` enters user mode. -/
def initTask1At (t : Task) : Kernel :=
  let k := k.modifyTask t fun s => { s with PID := 1 }
  let k := k.setQuantum t defaultQuantum
  let k := k.modifyTask t fun s => { s with pendingUnblocks := 0, state := .stRun }
  let k := { k with links := initListHead k.links (.kids t) }
  let k := k.allocateDIR t
  let k := { k with mm := k.mm.setUserPages userLayout (k.getPT t) }
  { k with
    tssEsp0 := img.area.stack t 1024
    msrEsp := img.area.stack t 1024
    mm := k.mm.setCr3 (k.getDIR t)
    current := t }

/-- Take the first PCB off the free queue and go on with it. -/
def withFree (f : Task → Kernel → Kernel) : Option Kernel :=
  let firstFree := listFirst k.links .freequeue
  match listHeadToTaskStruct firstFree with
  | some t => some (f t { k with links := listDel k.links .null firstFree })
  | none => none

/-- `init_idle` -/
def initIdle : Option Kernel := k.withFree fun t k => k.initIdleAt img t

/-- `init_task1` -/
def initTask1 : Option Kernel := k.withFree fun t k => k.initTask1At img t

/-- `init_table_pages`: the kernel pages of every page table. -/
def initTablePages : Kernel :=
  { k with mm := { k.mm with pagusrTable := fun j i =>
      if i < totalPages then Mm.initEntry i else k.mm.pagusrTable j i } }

/-- `init_mm` -/
def initMm : Kernel :=
  let k := k.initTablePages
  let k := { k with mm := k.mm.initFrames.initDirPages }
  let k := k.allocateDIR 0
  { k with mm := (k.mm.setCr3 (k.getDIR 0)).setPeFlag }

/-- `monoprocess_init_addr_space`: user pages for the first slot of the task
array, which no process will run in. -/
def monoprocessInitAddrSpace : Kernel :=
  let k := { k with mm := k.mm.setUserPages userLayout (k.getPT 0) }
  { k with mm := k.mm.setCr3 (k.getDIR 0) }

/-- `main`, from the initialisation of memory to the first process. -/
def boot : Option Kernel := do
  let k := k.initMm.monoprocessInitAddrSpace.initSched
  let k ← k.initIdle img
  k.initTask1 img

end Kernel

end Zeos.E1E2
