import Zeos.Common.List
import Zeos.Common.Switch
import Zeos.Common.Task

/-!
# The state of the E1_E2 kernel

What the scheduler and the process system calls of the E1_E2 kernel read or write.
A PCB has two pairs of links here: `list`, by which it is put on a queue, and
`kids`, the head of the list of its children – which is threaded through the
`list` anchors of the children, the very anchors the queues use. Both lie in the
heap of links; the other fields are a record (`Zeos.E1E2.TaskStruct`), except
`kernel_esp`, which the assembly code writes and which lives in kernel memory.

Since the links of a PCB are not always what the code takes them for, a pointer
to a node need not be the anchor of a PCB when the code believes so:
`list_head_to_task_struct` is partial (`Zeos.E1E2.listHeadToTaskStruct`).
-/

namespace Zeos.E1E2

open ByteMem CircList Paging X86

/-! ### PCBs -/

/-- `struct task_struct`, without its links and its saved stack pointer. -/
structure TaskStruct where
  /-- The process identifier. -/
  PID : Int
  /-- The page directory, as an index into `dir_pages`. -/
  dirPagesBaseAddr : Task
  /-- The parent process, or `NULL`. -/
  parent : Option Task
  /-- The state of the process. -/
  state : StateT
  /-- The quantum of the process. -/
  quantum : Int
  /-- The number of pending unblocks. -/
  pendingUnblocks : Int

/-- The nodes of the kernel's lists: the three queue heads, and in every PCB the
anchor and the head of the list of children. -/
inductive Node
  /-- `NULL` -/
  | null
  /-- `&freequeue` -/
  | freequeue
  /-- `&readyqueue` -/
  | readyqueue
  /-- `&blocked` -/
  | blocked
  /-- `&task[t].task.list` -/
  | list (t : Task)
  /-- `&task[t].task.kids` -/
  | kids (t : Task)
deriving DecidableEq

/-- `list_head_to_task_struct`: the PCB around an anchor. Applied to any other
node it points into memory that is no PCB. -/
def listHeadToTaskStruct : Node → Option Task
  | .list t => some t
  | _ => none

/-! ### Constants -/

/-- The user pages: data and stack from the first megabyte on, code after them. -/
def userLayout : UserLayout := { pagLogInitCode := 276, pagLogInitData := 256 }

theorem pagLogInitCode_eq : userLayout.pagLogInitCode = 276 := rfl

theorem pagLogInitData_eq : userLayout.pagLogInitData = 256 := rfl

/-- `TOTAL_SPACE`: the first page above the user pages, where a fork maps the
frames of the child. -/
def totalSpace : Nat := numPagKernel + numPagCode + numPagData

/-- `DEFAULT_QUANTUM` -/
def defaultQuantum : Int := 100

/-- **The linked kernel image**: where the linker put the task array and the
routines that end up as return addresses. -/
structure Image where
  /-- The task array and the context switch. -/
  area : TaskArea
  /-- The address of `ret_from_fork`. -/
  retFromFork : Word
  /-- The address of `cpu_idle`. -/
  cpuIdle : Word
  /-- `kernel_esp` is the eleventh word of a PCB. -/
  espField_eq : area.espField = 40
  /-- Different routines have different addresses. -/
  retFromFork_ne : retFromFork ≠ area.afterInner

/-! ### The kernel -/

/-- The state of the kernel. -/
structure Kernel where
  /-- The PCBs. -/
  task : Task → TaskStruct
  /-- The list anchors and heads. -/
  links : Heap Node
  /-- `idle_task` -/
  idleTask : Task
  /-- `current()`: the task whose kernel stack is in use. -/
  current : Task
  /-- `queue_ticks` -/
  queueTicks : Int
  /-- `PID_counter` -/
  pidCounter : Int
  /-- `zeos_ticks` -/
  zeosTicks : Int
  /-- Memory management. -/
  mm : Mm
  /-- The processor, with the memory of the task array. -/
  cpu : Machine
  /-- `tss.esp0` -/
  tssEsp0 : Word
  /-- The model specific register `0x175`. -/
  msrEsp : Word

namespace Kernel

variable (img : Image) (k : Kernel)

/-- Change the PCB of a task. -/
def modifyTask (t : Task) (f : TaskStruct → TaskStruct) : Kernel :=
  { k with task := Function.update k.task t (f (k.task t)) }

/-- `t->state = st` -/
def setState (t : Task) (st : StateT) : Kernel := k.modifyTask t fun s => { s with state := st }

/-- `get_DIR` -/
def getDIR (t : Task) : Task := (k.task t).dirPagesBaseAddr

/-- `get_PT` -/
def getPT (t : Task) : Task := (k.mm.dirPages (k.getDIR t)).table

/-- `allocate_DIR`: the directory at the PCB's own position. -/
def allocateDIR (t : Task) : Kernel := k.modifyTask t fun s => { s with dirPagesBaseAddr := t }

/-- Store a word in the kernel stack of a task. -/
def setStack (t : Task) (i : Nat) (w : Word) : Kernel :=
  { k with cpu := { k.cpu with mem := store32 k.cpu.mem (img.area.stack t i) w } }

/-- `t->kernel_esp = w` -/
def setKernelEsp (t : Task) (w : Word) : Kernel :=
  { k with cpu := { k.cpu with mem := store32 k.cpu.mem (img.area.espAddr t) w } }

end Kernel

/-! ### Reading fields back -/

section Fields

variable {k : Kernel} {t x : Task} {f : TaskStruct → TaskStruct}

theorem modifyTask_self : (k.modifyTask t f).task t = f (k.task t) := by
  simp [Kernel.modifyTask]

theorem modifyTask_of_ne (h : x ≠ t) : (k.modifyTask t f).task x = k.task x := by
  simp [Kernel.modifyTask, h]

/-- A field that an update does not touch reads the same in every PCB. -/
theorem modifyTask_field {β : Type} (g : TaskStruct → β) (h : ∀ s, g (f s) = g s) :
    g ((k.modifyTask t f).task x) = g (k.task x) := by
  by_cases hx : x = t
  · subst hx
    rw [modifyTask_self, h]
  · rw [modifyTask_of_ne hx]

/-- A change of state leaves the other fields alone. -/
theorem setState_field {β : Type} (g : TaskStruct → β) {st : StateT}
    (h : ∀ s st, g { s with state := st } = g s) : g ((k.setState t st).task x) = g (k.task x) :=
  modifyTask_field g fun s => h s st

@[simp] theorem modifyTask_links : (k.modifyTask t f).links = k.links := rfl

@[simp] theorem modifyTask_mm : (k.modifyTask t f).mm = k.mm := rfl

@[simp] theorem modifyTask_cpu : (k.modifyTask t f).cpu = k.cpu := rfl

end Fields

end Zeos.E1E2
