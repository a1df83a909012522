import Zeos.Lib.PageWalk
import Zeos.Lib.X86
import Zeos.Common.Switch
import Zeos.Common.Task

/-!
# The kernel under `zeos/`

Memory management and the creation of the first two processes (`mm.c`, `sched.c`,
`system.c`). There is no task array here: a PCB, and every directory and page table, is
a frame that `alloc_frame` has found, and is accessed at the address of the frame. Paging
is off while all this happens, so that addresses are physical.

A directory has two entries in use. The first one is for the four megabytes of the
kernel, the second one for the user pages. The page table of the kernel maps every page
it maps to the frame of the same number; `init_task1` puts the frames it has allocated
for itself there.

The variables of the kernel, other than what lies in frames, are fields of a record
(`Zeos.Base.Kernel`). What is printed is left out.
-/

namespace Zeos.Base

open ByteMem Paging PageWalk Loop X86

/-! ### Constants -/

/-- `KERNEL_START` -/
def kernelStart : Nat := 0x10000

/-- `L_USER_START` -/
def lUserStart : Nat := 0x400000

/-- The frame of the GDT. -/
def gdtFrame : Nat := 0x90

/-- The frame of the screen. -/
def screenFrame : Nat := 0xb8

/-- A frame of physical memory, and the PCB that may lie in it. -/
abbrev Frame := Fin (2 ^ 20)

/-- **The linked kernel image.** -/
structure Image where
  /-- The routines of the context switch; a PCB may lie in any frame. -/
  area : TaskArea (2 ^ 20)
  /-- The address of `cpu_idle`. -/
  cpuIdle : Word
  /-- `INITIAL_ESP` -/
  initialEsp : Word
  /-- The address of `readyqueue`. -/
  readyqueue : Word
  /-- PCBs are accessed at the addresses of their frames. -/
  base_eq : area.base = 0
  /-- `kernel_esp` is the sixth word of a PCB. -/
  espField_eq : area.espField = 20
  /-- Different routines have different addresses. -/
  cpuIdle_ne : cpuIdle ≠ area.afterInner

/-! ### State -/

/-- The state of the kernel. -/
structure Kernel where
  /-- The processor, and physical memory. -/
  cpu : Machine
  /-- `phys_mem` -/
  physMem : Nat → FrameState
  /-- `first_kernel` -/
  firstKernel : Nat
  /-- `last_kernel` -/
  lastKernel : Nat
  /-- `init_task`, or `NULL` -/
  initTask : Word
  /-- `idle_task`, or `NULL` -/
  idleTask : Word
  /-- `tss.esp0` -/
  tssEsp0 : Word
  /-- The model specific register `0x175`. -/
  msrEsp : Word
  /-- The control register with the paging bit. -/
  cr0 : Word
  /-- The control register with the address of the directory. -/
  cr3 : Word

/-- `frame << 12` -/
def frameAddr (frame : Int) : Word := BitVec.ofInt 32 (frame * 4096)

/-- `&PT[page]` -/
def entryAddr (pt : Word) (page : Int) : Word := pt + BitVec.ofInt 32 (4 * page)

/-- `bits.pbase_addr = frame`: the field has twenty bits. -/
def pbaseAddr (frame : Int) : Nat := (frame % 2 ^ 20).toNat

namespace Kernel

variable (k : Kernel)

/-- Physical memory. -/
abbrev mem : Mem := k.cpu.mem

/-- Store a word in memory. -/
def store (a w : Word) : Kernel := { k with cpu := { k.cpu with mem := store32 k.mem a w } }

/-! ### Memory management -/

/-- `*p_sys_size` -/
def sysSize : Nat := (load32 k.mem (BitVec.ofNat 32 kernelStart)).toNat

/-- `*p_usr_size` -/
def usrSize : Nat := (load32 k.mem (BitVec.ofNat 32 (kernelStart + 4))).toNat

/-- `init_frames` -/
def initFrames : Kernel :=
  let phys : Nat → FrameState := fun i => if i < totalPages then .freeFrame else k.physMem i
  let phys := fun i => if k.firstKernel ≤ i ∧ i < k.lastKernel then .usedFrame else phys i
  { k with physMem :=
      Function.update (Function.update phys gdtFrame .usedFrame) screenFrame .usedFrame }

/-- `init_mm`: the sum of the sizes is the one of two `unsigned int`. -/
def initMm : Kernel :=
  { k with
    firstKernel := kernelStart / 4096
    lastKernel := (kernelStart + k.sysSize + k.usrSize) % 2 ^ 32 / 4096 + 1 }.initFrames

/-- The frames that `alloc_frame` can return, in the order in which it would. -/
def allocatable : List Nat :=
  (List.range' k.lastKernel (totalPages - k.lastKernel)).filter fun i => k.physMem i = .freeFrame

/-- `alloc_frame`: the first free frame after the kernel, marked as used, or `-1`. -/
def allocFrame : Int × Kernel :=
  match (List.range' k.lastKernel (totalPages - k.lastKernel)).find? fun i =>
      k.physMem i = .freeFrame with
  | some i => (i, { k with physMem := Function.update k.physMem i .usedFrame })
  | none => (-1, k)

/-- `free_frame` -/
def freeFrame (frame : Nat) : Kernel :=
  if frame < totalPages then
    { k with physMem := Function.update k.physMem frame .freeFrame }
  else k

/-- `clear_page_table` -/
def clearPageTable (pt : Word) : Kernel :=
  forLoop totalPages (fun i k => k.store (entryAddr pt i) 0) k

/-- `set_ss_pag` -/
def setSsPag (pt : Word) (page frame : Int) (user : Bool) : Kernel :=
  k.store (entryAddr pt page)
    (encode { base := pbaseAddr frame, present := true, rw := true, user := user })

/-- `set_kernel_pages` -/
def setKernelPages (pt : Word) : Kernel :=
  let k := forLoop (k.lastKernel - k.firstKernel)
    (fun i k' => k'.setSsPag pt (k.firstKernel + i : Nat) (k.firstKernel + i : Nat) false) k
  let k := k.setSsPag pt gdtFrame gdtFrame false
  k.setSsPag pt screenFrame screenFrame false

/-- One round of the loops of `set_user_pages`: a frame is allocated, and mapped with or
without write access. -/
def setUserPage (pt : Word) (rw : Bool) (page : Nat) : Kernel :=
  let (newPhPag, k) := k.allocFrame
  k.store (entryAddr pt page)
    (encode { base := pbaseAddr newPhPag, present := true, rw := rw, user := true })

/-- `set_user_pages`: the code comes after the data, and is not writable. -/
def setUserPages (pt : Word) : Kernel :=
  let k := forLoop numPagCode (fun pag k => k.setUserPage pt false (numPagData + pag)) k
  forLoop numPagData (fun pag k => k.setUserPage pt true pag) k

/-- `set_pe_flag` -/
def setPeFlag : Kernel := { k with cr0 := k.cr0 ||| 0x80000000 }

/-! ### Processes -/

/-- `INIT_LIST_HEAD` -/
def initListHead (l : Word) : Kernel := (k.store l l).store (l + 4) l

/-- The value of a state in memory. -/
def stateWord : StateT → Word
  | .stRun => 0
  | .stReady => 1
  | .stBlocked => 2

/-- `task->dir_pages_baseAddr`, which is also `get_DIR` -/
def getDIR (task : Word) : Word := load32 k.mem (task + 4)

/-- `get_PT`: the frame that the first entry of the directory names. -/
def getPT (task : Word) : Word := frameAddr (decode (load32 k.mem (k.getDIR task))).base

/-- The fields of a PCB that both processes get: `PID`, the directory, the state, and an
empty list. -/
def initTaskStruct (task : Word) (pid : Word) (dir : Word) (state : StateT) : Kernel :=
  (((k.store task pid).store (task + 4) dir).store (task + 16) (stateWord state)).initListHead
    (task + 8)

/-- `init_idle` -/
def initIdle (img : Image) : Kernel :=
  let (dirFrame, k) := k.allocFrame
  let (pcbFrame, k) := k.allocFrame
  let dir := frameAddr dirFrame
  let task := frameAddr pcbFrame
  let initSpt := k.getPT k.initTask
  let k := k.clearPageTable dir
  let k := k.store dir (load32 k.mem (k.getDIR k.initTask))
  let k := k.setSsPag initSpt dirFrame dirFrame false
  let k := k.setSsPag initSpt pcbFrame pcbFrame false
  let k := k.initTaskStruct task 0 dir .stReady
  let k := k.store (task + BitVec.ofNat 32 (4 * 1022)) 0
  let k := k.store (task + BitVec.ofNat 32 (4 * 1023)) img.cpuIdle
  let k := k.store (task + 20) (task + BitVec.ofNat 32 (4 * 1022))
  { k with idleTask := task }

/-- `KERNEL_ESP` -/
def kernelEsp (task : Word) : Word := task + 4096

/-- `init_task1` -/
def initTask1 : Kernel :=
  let (dirFrame, k) := k.allocFrame
  let (sptFrame, k) := k.allocFrame
  let (uptFrame, k) := k.allocFrame
  let (pcbFrame, k) := k.allocFrame
  let dir := frameAddr dirFrame
  let spt := frameAddr sptFrame
  let upt := frameAddr uptFrame
  let task := frameAddr pcbFrame
  let k := ((k.clearPageTable dir).clearPageTable spt).clearPageTable upt
  let k := (k.setKernelPages spt).setUserPages upt
  let k := k.setSsPag spt dirFrame dirFrame false
  let k := k.setSsPag spt sptFrame sptFrame false
  let k := k.setSsPag spt uptFrame uptFrame false
  let k := k.setSsPag spt pcbFrame pcbFrame false
  let k := k.store (entryAddr dir 0)
    (encode { base := pbaseAddr sptFrame, present := true, rw := true, user := false })
  let k := k.store (entryAddr dir 1)
    (encode { base := pbaseAddr uptFrame, present := true, rw := true, user := true })
  let k := k.initTaskStruct task 1 dir .stRun
  { k with tssEsp0 := kernelEsp task, msrEsp := kernelEsp task, cr3 := dir, initTask := task }

/-! ### Boot -/

/-- `init_sched` -/
def initSched (img : Image) : Kernel := k.initListHead img.readyqueue

/-- The copy of the user image to the addresses of the user pages. -/
def copyUserImage : Kernel :=
  let start := BitVec.ofNat 32 (kernelStart + k.sysSize)
  { k with cpu :=
      { k.cpu with mem := copyFlat start (BitVec.ofNat 32 lUserStart) k.usrSize k.mem } }

/-- `main`, up to `return_gate`. -/
def main (img : Image) : Kernel :=
  let k := { k with tssEsp0 := img.initialEsp, msrEsp := img.initialEsp }
  let k := k.initMm
  let k := k.initSched img
  let k := k.initIdle img
  let k := k.initTask1
  k.copyUserImage

end Kernel

end Zeos.Base
