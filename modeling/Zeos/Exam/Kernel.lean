import Zeos.Game.Sys

/-!
# The kernel of the first exam exercise

A copy of the GAME kernel in which every PCB has a pipe: a page for the data, and a
list of the processes that wait to write. The exercise asks for two more system calls;
its `init_task1` sets up the pipe of the first process. Everything else is the code of
the GAME kernel, without the game's keyboard, so what follows is what differs: the new
field of a PCB, and the functions that set it or copy it.
-/

namespace Zeos.Exam

open ByteMem CircList Paging X86

/-! ### The state -/

/-- The nodes of the kernel's lists. -/
inductive Node
  /-- The head of a queue, or the anchor of a PCB. -/
  | queue (n : Game.Node)
  /-- `&task[t].task.pipeinfo.writers` -/
  | writers (t : Task)
deriving DecidableEq

/-- `struct pipe` -/
structure Pipe where
  /-- The physical frame that stores the data. -/
  frame : Int
  /-- The number of bytes in the page. -/
  numbytes : Int
  /-- The active writer. -/
  readingFrom : Option Task
  /-- The head of the list of pending writers. -/
  writers : Link Node

/-- The state of the kernel. -/
structure Kernel where
  /-- What the kernel shares with the GAME kernel. -/
  game : Game.Kernel
  /-- The field `pipeinfo` of the PCBs. -/
  pipeinfo : Task → Pipe

namespace Kernel

variable (img : Game.Image) (k : Kernel)

/-- The list anchors and heads, the lists of writers included. -/
def links : Heap Node
  | .queue n => { next := .queue (k.game.links n).next, prev := .queue (k.game.links n).prev }
  | .writers t => (k.pipeinfo t).writers

/-! ### Initialisation -/

/-- `initializeData`: a frame, and an empty list of writers. -/
def initializeData (p : Task) : Kernel :=
  let (frame, mm) := k.game.mm.allocFrame
  { game := { k.game with mm := mm }
    pipeinfo := Function.update k.pipeinfo p
      { frame := frame
        numbytes := 0
        readingFrom := none
        writers := { next := .writers p, prev := .writers p } } }

/-- `init_task1`: the first process is running when it returns. -/
def initTask1 : Kernel :=
  let (c, g) := k.game.takeFree
  let g := g.modifyTask c fun s =>
    { s with PID := 1, totalQuantum := Game.defaultQuantum, state := .stRun }
  let g := { g with remainingQuantum := (g.task c).totalQuantum }
  let k := { k with game := g.initStats c }.initializeData c
  let g := k.game.allocateDIR c
  let g := { g with mm := g.mm.setUserPages Game.userLayout (g.getPT c) }
  { k with game :=
      { g with
        tssEsp0 := img.area.stack c 1024
        msrEsp := img.area.stack c 1024
        mm := g.mm.setCr3 (g.getDIR c)
        current := c } }

/-- `main`, from the initialisation of memory to the first process. -/
def boot : Kernel :=
  { k with game := (k.game.initMm img).initSched.initIdle img }.initTask1 img

/-! ### System calls and interrupts -/

/-- `copy_data(current(), uchild, sizeof(union task_union))` in `sys_fork`, as far as it
copies the pipe of the parent: there is a child if there is a free PCB. -/
def copyPipe : Task → Pipe :=
  if listEmpty k.game.links .freequeue then k.pipeinfo
  else
    let uchild := Game.Kernel.listHeadToTaskStruct (listFirst k.game.links .freequeue)
    Function.update k.pipeinfo uchild (k.pipeinfo k.game.current)

/-- `sys_fork` -/
def sysFork (c : Game.ForkCtx) : Except Int Int × Kernel :=
  let s := k.game.sysFork img c
  (s.1, { game := s.2, pipeinfo := k.copyPipe })

/-- `sys_exit` -/
def sysExit (c : SwitchCtx) : Kernel := { k with game := k.game.sysExit img c }

/-- `sys_yield` -/
def sysYield (c : SwitchCtx) : Kernel := { k with game := k.game.sysYield img c }

/-- `clock_routine`, which serves no keyboard. -/
def clockRoutine (c : SwitchCtx) : Kernel :=
  let g := { k.game with zeosTicks := wrapInt (k.game.zeosTicks + 1) }
  { k with game := g.schedule img c }

/-- The running task enters the kernel. -/
def enter (how : Game.Entered) : Kernel := { k with game := k.game.enter how }

/-- The running task leaves the kernel. -/
def leave : Kernel := { k with game := k.game.leave }

/-- `user_to_system` -/
def userToSystem : Kernel := { k with game := k.game.userToSystem }

/-- `clock_handler` -/
def clockHandler (c : SwitchCtx) : Kernel :=
  (((k.enter .clockHandler).userToSystem).clockRoutine img c).leave

end Kernel

/-! ### The transition system -/

/-- What can happen to the kernel. -/
inductive Op
  /-- A clock interrupt. -/
  | clock (c : SwitchCtx)
  /-- The system call `fork`. -/
  | fork (c : Game.ForkCtx)
  /-- The system call `exit`. -/
  | exit (c : SwitchCtx)
  /-- The system call `yield`. -/
  | yield (c : SwitchCtx)

/-- Whether the running task can do something now: the idle task makes no system
call. -/
def Enabled (k : Kernel) : Op → Prop
  | .clock _ => True
  | _ => k.game.current ≠ k.game.idleTask

/-- The kernel after an operation. -/
def exec (img : Game.Image) (k : Kernel) : Op → Kernel
  | .clock c => k.clockHandler img c
  | .fork c => ((k.enter .systemCallHandler).sysFork img c).2.leave
  | .exit c => ((k.enter .systemCallHandler).sysExit img c).leave
  | .yield c => ((k.enter .systemCallHandler).sysYield img c).leave

/-- One step of the kernel. -/
def Step (img : Game.Image) (k : Kernel) (op : Op) (k' : Kernel) : Prop :=
  Enabled k op ∧ k' = exec img k op

end Zeos.Exam
