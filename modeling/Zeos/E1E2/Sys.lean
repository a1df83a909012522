import Zeos.Lib.Transition
import Zeos.E1E2.Sched

/-!
# The system calls of the E1_E2 kernel

`sys.c` and the clock interrupt, assembled into the transition system the kernel
is (`Zeos.E1E2.Step`). Two of the calls walk along links, with nothing but the
links to end the walk, so a call need not return: the walks take a number of
rounds, a step is a call that returns after some number of them, and a call that
loops for ever, faults, or takes memory for a PCB that is none is no step at all.

* `sys_exit` hands the children of the process on to the idle task in a loop that
  unlinks each child *before* it reads its link, so it goes on from `NULL` and
  never comes back to the head.
* `sys_unblock` follows the links of the children – the same links by which the
  children are on a queue.
-/

namespace Zeos.E1E2

open ByteMem CircList Paging Loop X86

namespace Kernel

variable (img : Image) (k : Kernel)

/-! ### `init_child_address_space` -/

/-- The loop that allocates the frames of the child: whether all of them could be
had, the frames, and the bytemap – with the frames given back again if not. -/
def allocNewFrames : Nat → List Int → Mm → Bool × List Int × Mm
  | 0, newFrames, mm => (true, newFrames, mm)
  | n + 1, newFrames, mm =>
    let (frame, mm) := mm.allocFrame
    if frame < 0 then
      (false, newFrames, newFrames.foldl (fun mm f => mm.freeFrame f.toNat) mm)
    else allocNewFrames n (newFrames ++ [frame]) mm

/-- The loops that fill the page table of the child: the kernel and code pages of
the parent are shared, the data pages are the new frames. -/
def mapChild (childPT parentPT : Task) (newFrames : List Int) (mm : Mm) : Mm :=
  let mm := forLoop numPagKernel
    (fun frame mm => mm.setSsPag childPT (0 + frame) (mm.getFrame parentPT (0 + frame))) mm
  let mm := forLoop numPagCode (fun frame mm =>
    let page := userLayout.pagLogInitCode + frame
    mm.setSsPag childPT page (mm.getFrame parentPT page)) mm
  forLoop numPagData (fun frame mm =>
    mm.setSsPag childPT (userLayout.pagLogInitData + frame) (newFrames.getD frame 0)) mm

/-- The loop that copies the data pages of the parent, through temporary mappings
above its user pages. -/
def copyToChild (parentPT : Task) (newFrames : List Int) (mm : Mm) : Mm :=
  forLoop numPagData (fun frame mm =>
    mm.copyThrough parentPT (userLayout.pagLogInitData + frame) (totalSpace + frame)
      (newFrames.getD frame 0)) mm

/-- `init_child_address_space` -/
def initChildAddressSpace (child : Task) : Int × Kernel :=
  match allocNewFrames numPagData [] k.mm with
  | (false, _, mm) =>
    (-EAGAIN, { k with mm := mm, links := listAddTail k.links (.list child) .freequeue })
  | (true, newFrames, mm) =>
    let childPT := k.getPT child
    let parentPT := k.getPT k.current
    let mm := copyToChild parentPT newFrames (mapChild childPT parentPT newFrames mm)
    (0, { k with mm := mm.setCr3 (k.getDIR k.current) })

/-! ### `sys_fork` -/

/-- The kernel stack of the running task as `sys_fork` finds it. -/
def forkEnter (contents : Mem) : Kernel :=
  { k with cpu := { k.cpu with mem := img.area.fill k.current contents k.cpu.mem } }

/-- `copy_data(current(), child_union, PAGE_SIZE)`: the PCB with its links, and the
kernel stack. -/
def copyTaskUnion (parent child : Task) : Kernel :=
  let links := Function.update k.links (.list child) (k.links (.list parent))
  { k with
    task := Function.update k.task child (k.task parent)
    links := Function.update links (.kids child) (k.links (.kids parent))
    cpu := { k.cpu with
      mem := copyFlat (img.area.pcb parent) (img.area.pcb child) pageBytes k.cpu.mem } }

/-- The stack of the child: below the return address of `sys_fork` it finds
`ret_from_fork` and a frame pointer of `0`. -/
def forkStack (child : Task) : Kernel :=
  let k := k.setStack img child (1024 - 19) 0
  let k := k.setStack img child (1024 - 18) img.retFromFork
  k.setKernelEsp img child (img.area.stack child (1024 - 19))

/-- The end of `sys_fork`, the address space of the child being complete: identity
and fields of the child, its place in the list of children, its stack, and its
place on the ready queue. -/
def forkFinish (child : Task) : Kernel :=
  let k := k.modifyTask child fun s => { s with PID := k.pidCounter, parent := some k.current }
  let k := { k with pidCounter := wrapInt (k.pidCounter + 1) }
  let k := k.modifyTask child fun s =>
    { s with quantum := defaultQuantum, state := .stReady, pendingUnblocks := 0 }
  let k := { k with links := initListHead k.links (.kids child) }
  let k := { k with links := listAddTail k.links (.list child) (.kids k.current) }
  let k := k.forkStack img child
  { k with links := listAddTail k.links (.list child) .readyqueue }

/-- `sys_fork`, the first free PCB being that of `child`. -/
def forkChild (contents : Mem) (child : Task) : Except Int Int × Kernel :=
  let k := k.forkEnter img contents
  let k := { k with links := listDel k.links .null (.list child) }
  let k := (k.copyTaskUnion img k.current child).allocateDIR child
  let (res, k) := k.initChildAddressSpace child
  if res < 0 then (.error (-res), k) else (.ok k.pidCounter, k.forkFinish img child)

/-- `sys_fork`: the PID of the child, or an error number. -/
def sysFork (contents : Mem) : Option (Except Int Int × Kernel) :=
  if listEmpty k.links .freequeue then some (.error ENOMEM, k)
  else (listHeadToTaskStruct (listFirst k.links .freequeue)).map (k.forkChild img contents)

/-! ### `sys_exit` -/

/-- The loop of `sys_exit` over the children, from the node `pos` on. -/
def adoptKids : Nat → Node → Kernel → Option Kernel
  | 0, _, _ => none
  | fuel + 1, pos, k =>
    if pos = .kids k.current then some k
    else
      let k := { k with links := listAddTail k.links pos (.kids k.idleTask) }
      let k := match listHeadToTaskStruct pos with
        | some child => k.modifyTask child fun s => { s with parent := some k.idleTask }
        | none => k
      let k := { k with links := listDel k.links .null pos }
      adoptKids fuel (k.links pos).next k

/-- The loop of `sys_exit` over the data pages: their frames are given back. -/
def exitFree (processPT : Task) (mm : Mm) : Mm :=
  forLoop numPagData (fun i mm =>
    let page := userLayout.pagLogInitData + i
    (mm.freeFrame (mm.getFrame processPT page)).delSsPag processPT page) mm

/-- The end of `sys_exit`: the frames are given back, the PCB is free, and another
task runs. -/
def exitFinish (c : SwitchCtx) : Option Kernel :=
  let k := { k with mm := exitFree (k.getPT k.current) k.mm }
  let k := { k with links := listAddTail k.links (.list k.current) .freequeue }
  k.schedNextRr img c

/-- `sys_exit` -/
def sysExit (c : SwitchCtx) (fuel : Nat) : Option Kernel :=
  let currentKids := listFirst k.links (.kids k.current)
  if (k.task k.current).PID = 1 then some k
  else if currentKids ≠ .null then
    (adoptKids fuel currentKids k).bind fun k => k.exitFinish img c
  else k.exitFinish img c

/-! ### `sys_block` and `sys_unblock` -/

/-- `sys_block` -/
def sysBlock (c : SwitchCtx) : Option Kernel :=
  if (k.task k.current).pendingUnblocks = 0 then
    let k := k.setState k.current .stBlocked
    let k := { k with links := listAddTail k.links (.list k.current) .blocked }
    k.schedule img c
  else
    some (k.modifyTask k.current fun s =>
      { s with pendingUnblocks := wrapInt (s.pendingUnblocks - 1) })

/-- The walk of `sys_unblock` along the children of the running task, from the node
`pos` on: the child with the given PID, or that there is none. Of a node that is
no anchor of a PCB the word that would be its PID is `stray`; a walk that takes it
for the PID in question, or that comes to `NULL`, is given up. -/
def findKid (pid : Int) (stray : Node → Int) : Nat → Node → Option (Option Task)
  | 0, _ => none
  | fuel + 1, pos =>
    if pos = .kids k.current then some none
    else
      match pos with
      | .null => none
      | .list t =>
        if (k.task t).PID = pid then some (some t)
        else findKid pid stray fuel (k.links pos).next
      | _ =>
        if stray pos = pid then none
        else findKid pid stray fuel (k.links pos).next

/-- What `sys_unblock` does once it has found the PCB. -/
def unblockKid (t : Task) : Kernel :=
  if (k.task t).state = .stBlocked then
    let k := k.setState t .stReady
    let k := { k with links := listDel k.links .null (.list t) }
    { k with links := listAddTail k.links (.list t) .readyqueue }
  else
    k.modifyTask k.current fun s => { s with pendingUnblocks := wrapInt (s.pendingUnblocks + 1) }

/-- `sys_unblock` -/
def sysUnblock (pid : Int) (stray : Node → Int) (fuel : Nat) : Option (Int × Kernel) :=
  match k.findKid pid stray fuel (k.links (.kids k.current)).next with
  | none => none
  | some none => some (-ECHILD, k)
  | some (some t) => some (0, k.unblockKid t)

end Kernel

/-! ### The transition system -/

/-- What can happen to the kernel. -/
inductive Op
  /-- A clock interrupt. -/
  | clock
  /-- The system call `fork`, with the contents of the kernel stack. -/
  | fork (contents : Mem)
  /-- The system call `exit`. -/
  | exit (c : SwitchCtx)
  /-- The system call `block`. -/
  | block (c : SwitchCtx)
  /-- The system call `unblock`, with what stray reads find. -/
  | unblock (pid : Int) (stray : Node → Int)
  /-- An access of the user program to one of its pages, which may fill the
  translation cache. -/
  | touch (page : Nat)

/-- Whether the running task can do something now: the idle task makes no system
call and has no user pages. -/
def Enabled (k : Kernel) : Op → Prop
  | .clock => True
  | .touch page => k.current ≠ k.idleTask ∧ userLayout.pagLogInitData ≤ page ∧
      page < userLayout.pagLogInitCode + numPagCode
  | _ => k.current ≠ k.idleTask

/-- The kernel after an operation, if it ends within the given number of rounds. -/
def exec (img : Image) (fuel : Nat) (k : Kernel) : Op → Option Kernel
  | .clock => some { k with zeosTicks := wrapInt (k.zeosTicks + 1) }
  | .fork contents => (k.sysFork img contents).map Prod.snd
  | .exit c => k.sysExit img c fuel
  | .block c => k.sysBlock img c
  | .unblock pid stray => (k.sysUnblock pid stray fuel).map Prod.snd
  | .touch page =>
    let pt := k.mm.pagusrTable k.mm.activeTable
    some { k with mm := { k.mm with mmu := k.mm.mmu.touch pt page } }

/-- One step of the kernel: an operation that ends. -/
def Step (img : Image) (k : Kernel) (op : Op) (k' : Kernel) : Prop :=
  Enabled k op ∧ ∃ fuel, exec img fuel k op = some k'

/-- The step is a `fork` that gives the PCB to a new process. -/
def Takes (t : Task) (x : Kernel × Op) : Prop :=
  match x.2 with
  | .fork _ => listEmpty x.1.links .freequeue = false ∧ listFirst x.1.links .freequeue = .list t
  | _ => False

/-- The kernel as it is loaded: the statically initialised variable has its value,
the task array is zero as far as anything depends on it, and no access has faulted
yet. -/
structure Loaded (k : Kernel) : Prop where
  /-- `int PID_counter = 2;` -/
  pidCounter : k.pidCounter = 2
  /-- The PCBs have no parent. -/
  parent : ∀ t, (k.task t).parent = none
  /-- The PCBs have no pending unblocks. -/
  pendingUnblocks : ∀ t, (k.task t).pendingUnblocks = 0
  /-- The machine is running. -/
  fault : k.mm.mmu.fault = false

end Zeos.E1E2
