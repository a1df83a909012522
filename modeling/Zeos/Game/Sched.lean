import Zeos.Game.Kernel

/-!
# The scheduler of the GAME kernel

`sched.c`: the round robin policy, the context switch as the scheduler calls it,
and the initialisation of the queues, of the idle task and of the first process.
-/

namespace Zeos.Game

open ByteMem CircList X86

namespace Kernel

variable (img : Image) (c : SwitchCtx) (k : Kernel)

/-! ### Round robin -/

/-- `get_quantum` -/
def getQuantum (t : Task) : Int := (k.task t).totalQuantum

/-- `update_sched_data_rr` -/
def updateSchedDataRr : Kernel := { k with remainingQuantum := wrapInt (k.remainingQuantum - 1) }

/-- `needs_sched_rr` -/
def needsSchedRr : Bool × Kernel :=
  if k.remainingQuantum = 0 ∧ ¬listEmpty k.links .readyqueue then (true, k)
  else if k.remainingQuantum = 0 then
    (false, { k with remainingQuantum := k.getQuantum k.current })
  else (false, k)

/-- The first line of `update_process_state_rr`: a task that is not running is
taken off its queue. -/
def leaveQueue (t : Task) : Kernel :=
  if (k.task t).state ≠ .stRun then { k with links := listDel k.links .null (.task t) } else k

/-- `update_process_state_rr`, the destination queue being `NULL` or a queue. -/
def updateProcessStateRr (t : Task) (dstQueue : Option Node) : Kernel :=
  let k := k.leaveQueue t
  match dstQueue with
  | some q =>
    let k := { k with links := listAddTail k.links (.task t) q }
    if q ≠ .readyqueue then k.setState t .stBlocked
    else (k.updateStats .system t).setState t .stReady
  | none => k.setState t .stRun

/-- `inner_task_switch` and the assembly around it: the stack pointers the
processor enters the kernel with, the address space, and the stacks are
exchanged. -/
def taskSwitch (new : Task) : Kernel :=
  { k with
    tssEsp0 := img.area.stack new 1024
    msrEsp := img.area.stack new 1024
    mm := k.mm.setCr3 (k.getDIR new)
    cpu := Zeos.taskSwitch img.area c k.current new k.cpu
    current := new }

/-- The choice `sched_next_rr` makes: the first task of the ready queue, taken off
it, or the idle task. -/
def pickNext : Task × Kernel :=
  if listEmpty k.links .readyqueue then (k.idleTask, k)
  else
    let e := listFirst k.links .readyqueue
    (listHeadToTaskStruct e, { k with links := listDel k.links .null e })

/-- What `sched_next_rr` records about the task it has chosen. -/
def dispatch (t : Task) : Kernel :=
  let k := k.setState t .stRun
  let k := { k with remainingQuantum := k.getQuantum t }
  let k := k.updateStats .system k.current
  let k := k.updateStats .ready t
  k.modifyTask t fun s =>
    { s with pStats := { s.pStats with totalTrans := s.pStats.totalTrans + 1 } }

/-- `sched_next_rr` -/
def schedNextRr : Kernel :=
  let (t, k) := k.pickNext
  (k.dispatch t).taskSwitch img c t

/-- `schedule` -/
def schedule : Kernel :=
  let (needed, k) := k.updateSchedDataRr.needsSchedRr
  if needed then (k.updateProcessStateRr k.current (some .readyqueue)).schedNextRr img c
  else k

/-- `force_task_switch` -/
def forceTaskSwitch : Kernel :=
  (k.updateProcessStateRr k.current (some .readyqueue)).schedNextRr img c

/-! ### Initialisation -/

/-- One round of the loop of `init_freequeue`. -/
def enqueueFree (t : Task) : Kernel :=
  let k := k.modifyTask t fun s => { s with PID := -1 }
  { k with links := listAddTail k.links (.task t) .freequeue }

/-- `init_freequeue` -/
def initFreequeue : Kernel :=
  (List.finRange nrTasks).foldl enqueueFree { k with links := initListHead k.links .freequeue }

/-- `init_sched` -/
def initSched : Kernel :=
  let k := k.initFreequeue
  { k with links := initListHead k.links .readyqueue }

/-- The first PCB of the free queue, taken off it. -/
def takeFree : Task × Kernel :=
  let l := listFirst k.links .freequeue
  (listHeadToTaskStruct l, { k with links := listDel k.links .null l })

/-- Store a word in the kernel stack of a task. -/
def setStack (t : Task) (i : Nat) (w : Word) : Kernel :=
  { k with cpu := { k.cpu with mem := store32 k.cpu.mem (img.area.stack t i) w } }

/-- `t->register_esp = w` -/
def setRegisterEsp (t : Task) (w : Word) : Kernel :=
  { k with cpu := { k.cpu with mem := store32 k.cpu.mem (img.area.espAddr t) w } }

/-- `t->register_esp` -/
def registerEsp (t : Task) : Word := load32 k.cpu.mem (img.area.espAddr t)

/-- `init_idle` -/
def initIdle : Kernel :=
  let (c, k) := k.takeFree
  let k := k.modifyTask c fun s => { s with PID := 0, totalQuantum := defaultQuantum }
  let k := k.initStats c
  let k := k.allocateDIR c
  let k := k.setStack img c 1023 img.cpuIdle
  let k := k.setStack img c 1022 0
  let k := k.setRegisterEsp img c (img.area.stack c 1022)
  { k with idleTask := c, entered := Function.update k.entered c .cpuIdle }

/-- `init_task1`: the first process is running when it returns. -/
def initTask1 : Kernel :=
  let (c, k) := k.takeFree
  let k := k.modifyTask c fun s =>
    { s with PID := 1, totalQuantum := defaultQuantum, state := .stRun }
  let k := { k with remainingQuantum := (k.task c).totalQuantum }
  let k := k.initStats c
  let k := k.allocateDIR c
  let k := { k with mm := k.mm.setUserPages userLayout (k.getPT c) }
  { k with
    tssEsp0 := img.area.stack c 1024
    msrEsp := img.area.stack c 1024
    mm := k.mm.setCr3 (k.getDIR c)
    current := c }

/-- `init_table_pages`: the kernel pages of every page table, with the two pages
around the task array left out. -/
def initTablePages : Kernel :=
  let entry (i : Nat) : Paging.Entry :=
    if i = img.lowGuard ∨ i = img.highGuard then
      { Mm.initEntry i with present := false }
    else Mm.initEntry i
  { k with mm := { k.mm with pagusrTable := fun j i =>
      if i < totalPages then entry i else k.mm.pagusrTable j i } }

/-- `init_mm` -/
def initMm : Kernel :=
  let k := k.initTablePages img
  let k := { k with mm := k.mm.initFrames.initDirPages }
  let k := k.allocateDIR 0
  { k with mm := (k.mm.setCr3 (k.getDIR 0)).setPeFlag }

/-- `main`, from the initialisation of memory to the first process. -/
def boot : Kernel :=
  let k := ((k.initMm img).initSched.initIdle img).initTask1 img
  { k with keyboard := k.keyboard.keyboardInit }

end Kernel

end Zeos.Game
