import Zeos.Common.List
import Zeos.Common.Switch
import Zeos.Common.Task
import Zeos.Game.Keyboard

/-!
# The state of the GAME kernel

Everything the scheduler and the process system calls of the GAME kernel read or
write: the PCBs, the two queues threaded through them, memory management, the
processor with the kernel stacks, and the time-stamp counter, of which nothing is
assumed – `get_ticks` returns the next value of an arbitrary sequence.

A PCB shares its page with the kernel stack of its task. The fields the C code
names are a record (`Zeos.Game.TaskStruct`), except the list anchor, which lives
in the heap of links, and `register_esp`, which the assembly code writes and which
therefore lives in kernel memory with the stack.
-/

namespace Zeos.Game

open ByteMem CircList Paging X86

/-! ### PCBs -/

/-- `struct stats` -/
structure Stats where
  /-- Ticks spent in user mode. -/
  userTicks : Word
  /-- Ticks spent in system mode. -/
  systemTicks : Word
  /-- Ticks spent blocked. -/
  blockedTicks : Word
  /-- Ticks spent ready. -/
  readyTicks : Word
  /-- The tick of the last update. -/
  elapsedTotalTicks : Word
  /-- The number of times the process has got the processor. -/
  totalTrans : Word
  /-- The ticks left of its quantum, as of the last report. -/
  remainingTicks : Word
deriving DecidableEq

/-- `sizeof(struct stats)` -/
def sizeofStats : Nat := 28

/-- The words of a `struct stats`, in the order they lie in memory. -/
def Stats.words (s : Stats) : List Word :=
  [s.userTicks, s.systemTicks, s.blockedTicks, s.readyTicks, s.elapsedTotalTicks, s.totalTrans,
    s.remainingTicks]

/-- The byte at an offset of a `struct stats`. -/
def Stats.byte (s : Stats) (o : Nat) : Byte := byteOf (s.words.getD (o / 4) 0) (o % 4)

/-- A counter of `struct stats` that `update_stats` is applied to. -/
inductive Counter
  /-- `user_ticks` -/
  | user
  /-- `system_ticks` -/
  | system
  /-- `ready_ticks` -/
  | ready
deriving DecidableEq

/-- `*v += d` for one of the counters. -/
def Stats.add (s : Stats) (v : Counter) (d : Word) : Stats :=
  match v with
  | .user => { s with userTicks := s.userTicks + d }
  | .system => { s with systemTicks := s.systemTicks + d }
  | .ready => { s with readyTicks := s.readyTicks + d }

/-- `struct task_struct`, without its list anchor and its saved stack pointer. -/
structure TaskStruct where
  /-- The process identifier. -/
  PID : Int
  /-- The page directory, as an index into `dir_pages`. -/
  dirPagesBaseAddr : Task
  /-- The state of the process. -/
  state : StateT
  /-- The quantum of the process. -/
  totalQuantum : Int
  /-- The statistics of the process. -/
  pStats : Stats

/-- The nodes of the kernel's lists: the two queue heads and the anchor of every
PCB. -/
inductive Node
  /-- `NULL` -/
  | null
  /-- `&freequeue` -/
  | freequeue
  /-- `&readyqueue` -/
  | readyqueue
  /-- `&task[t].task.list` -/
  | task (t : Task)
deriving DecidableEq

/-- How a task entered the kernel, hence what is left to be done when it is
resumed: the return addresses on its kernel stack. -/
inductive Entered
  /-- Through `clock_handler`. -/
  | clockHandler
  /-- Through `keyboard_handler`. -/
  | keyboardHandler
  /-- Through `system_call_handler`. -/
  | systemCallHandler
  /-- Not at all: it starts in `cpu_idle`. -/
  | cpuIdle
deriving DecidableEq

/-! ### Constants -/

/-- The user pages: code from the first megabyte on, data and stack after it. -/
def userLayout : UserLayout := { pagLogInitCode := 256, pagLogInitData := 264 }

theorem pagLogInitCode_eq : userLayout.pagLogInitCode = 256 := rfl

theorem pagLogInitData_eq : userLayout.pagLogInitData = 264 := rfl

/-- `DEFAULT_QUANTUM` -/
def defaultQuantum : Int := 10

/-- The bounds of `access_ok`. -/
def accessBounds : AccessBounds := { write := (264, 284), read := (256, 284) }

/-- **The linked kernel image**: where the linker put the task array and the
routines that end up as return addresses. -/
structure Image where
  /-- The task array and the context switch. -/
  area : TaskArea
  /-- The address of `ret_from_fork`. -/
  retFromFork : Word
  /-- The address of `cpu_idle`. -/
  cpuIdle : Word
  /-- What lies behind `char_map`. -/
  afterCharMap : Nat → Byte
  /-- `register_esp` is the fifth word of a PCB. -/
  espField_eq : area.espField = 16
  /-- The task array is aligned to pages. -/
  aligned : area.base.toNat % 4096 = 0
  /-- The kernel image starts at `0x10000`, and the task array is not its first
  page. -/
  base_ge : 17 ≤ area.base.toNat / 4096
  /-- The task array and its guard pages lie in the kernel pages. -/
  base_lt : area.base.toNat / 4096 + 10 < numPagKernel
  /-- Different routines have different addresses. -/
  retFromFork_ne : retFromFork ≠ area.afterInner
  /-- Different routines have different addresses. -/
  cpuIdle_ne : cpuIdle ≠ area.afterInner

/-- `PH_PAGE((DWord)(&protected_tasks[0]))`: the guard page below the task array. -/
def Image.lowGuard (img : Image) : Nat := img.area.base.toNat / 4096 - 1

/-- `PH_PAGE((DWord)(&protected_tasks[11]))`: the guard page above the task
array. -/
def Image.highGuard (img : Image) : Nat := img.area.base.toNat / 4096 + 10

/-! ### The kernel -/

/-- The state of the kernel. -/
structure Kernel where
  /-- The PCBs. -/
  task : Task → TaskStruct
  /-- The list anchors and heads. -/
  links : Heap Node
  /-- `idle_task` -/
  idleTask : Task
  /-- `current()`: the task whose kernel stack is in use. -/
  current : Task
  /-- `remaining_quantum` -/
  remainingQuantum : Int
  /-- `global_PID` -/
  globalPID : Int
  /-- `zeos_ticks` -/
  zeosTicks : Int
  /-- Memory management. -/
  mm : Mm
  /-- The processor, with the memory of the task array. -/
  cpu : Machine
  /-- `tss.esp0` -/
  tssEsp0 : Word
  /-- The model specific register `0x175`. -/
  msrEsp : Word
  /-- What the successive calls of `get_ticks` return. -/
  tsc : Nat → Word
  /-- How often `get_ticks` has been called. -/
  now : Nat
  /-- How each task has entered the kernel. -/
  entered : Task → Entered
  /-- The keyboard. -/
  keyboard : Keyboard

namespace Kernel

variable (k : Kernel)

/-- Change the PCB of a task. -/
def modifyTask (t : Task) (f : TaskStruct → TaskStruct) : Kernel :=
  { k with task := Function.update k.task t (f (k.task t)) }

/-- `t->state = st` -/
def setState (t : Task) (st : StateT) : Kernel := k.modifyTask t fun s => { s with state := st }

/-- `get_ticks` -/
def getTicks : Word × Kernel := (k.tsc k.now, { k with now := k.now + 1 })

/-- `update_stats`, on a counter and the `elapsed_total_ticks` of one task. -/
def updateStats (v : Counter) (t : Task) : Kernel :=
  let (currentTicks, k) := k.getTicks
  k.modifyTask t fun s =>
    let d := currentTicks - s.pStats.elapsedTotalTicks
    { s with pStats := { s.pStats.add v d with elapsedTotalTicks := currentTicks } }

/-- `init_stats` -/
def initStats (t : Task) : Kernel :=
  let (elapsed, k) := k.getTicks
  let (remaining, k) := k.getTicks
  k.modifyTask t fun s =>
    { s with pStats :=
        { userTicks := 0, systemTicks := 0, blockedTicks := 0, readyTicks := 0,
          elapsedTotalTicks := elapsed, totalTrans := 0, remainingTicks := remaining } }

/-- `get_DIR` -/
def getDIR (t : Task) : Task := (k.task t).dirPagesBaseAddr

/-- `get_PT` -/
def getPT (t : Task) : Task := (k.mm.dirPages (k.getDIR t)).table

/-- `allocate_DIR`: the directory at the PCB's own position. -/
def allocateDIR (t : Task) : Kernel := k.modifyTask t fun s => { s with dirPagesBaseAddr := t }

/-- `list_head_to_task_struct`: the page an anchor lies in. It is applied to the
anchors of PCBs only. -/
def listHeadToTaskStruct : Node → Task
  | .task t => t
  | _ => 0

/-- `user_to_system` -/
def userToSystem : Kernel := k.updateStats .user k.current

/-- `system_to_user` -/
def systemToUser : Kernel := k.updateStats .system k.current

end Kernel

/-! ### Reading fields back -/

section Fields

variable {k : Kernel} {t x : Task} {f : TaskStruct → TaskStruct}

theorem modifyTask_self : (k.modifyTask t f).task t = f (k.task t) := by
  simp [Kernel.modifyTask]

theorem modifyTask_of_ne (h : x ≠ t) : (k.modifyTask t f).task x = k.task x := by
  simp [Kernel.modifyTask, h]

/-- A field that an update does not touch reads the same in every PCB. -/
theorem modifyTask_field {β : Type} (g : TaskStruct → β) (h : ∀ s, g (f s) = g s) :
    g ((k.modifyTask t f).task x) = g (k.task x) := by
  by_cases hx : x = t
  · subst hx
    rw [modifyTask_self, h]
  · rw [modifyTask_of_ne hx]

@[simp] theorem modifyTask_links : (k.modifyTask t f).links = k.links := rfl

@[simp] theorem modifyTask_mm : (k.modifyTask t f).mm = k.mm := rfl

@[simp] theorem modifyTask_cpu : (k.modifyTask t f).cpu = k.cpu := rfl

@[simp] theorem setState_links {st : StateT} : (k.setState t st).links = k.links := rfl

theorem setState_PID {st : StateT} : ((k.setState t st).task x).PID = (k.task x).PID :=
  modifyTask_field TaskStruct.PID fun _ => rfl

theorem setState_dir {st : StateT} :
    ((k.setState t st).task x).dirPagesBaseAddr = (k.task x).dirPagesBaseAddr :=
  modifyTask_field TaskStruct.dirPagesBaseAddr fun _ => rfl

theorem setState_totalQuantum {st : StateT} :
    ((k.setState t st).task x).totalQuantum = (k.task x).totalQuantum :=
  modifyTask_field TaskStruct.totalQuantum fun _ => rfl

theorem setState_state_self {st : StateT} : ((k.setState t st).task t).state = st := by
  rw [Kernel.setState, modifyTask_self]

theorem setState_state_of_ne {st : StateT} (h : x ≠ t) :
    ((k.setState t st).task x).state = (k.task x).state := by
  rw [Kernel.setState, modifyTask_of_ne h]

end Fields

end Zeos.Game
