import Zeos.Game.Quiet

/-!
# The GAME kernel after boot

`main` initialises memory, puts every PCB on the free queue, takes the first one
for the idle task and the second one for the first process, and starts the latter.
The statements below say what the state is that every run starts from, field by
field: the queues (`Zeos.Game.isRing_boot`), the PCBs, memory management
(`Zeos.Game.boot_mm`) and the forged stack of the idle task
(`Zeos.Game.boot_cpu_mem`).
-/

namespace Zeos.Game

open ByteMem CircList X86

variable {k : Kernel} {img : Image} {t : Task}

/-! ### `init_freequeue` -/

/-- What putting a PCB on the free queue leaves alone, the whole loop does. -/
theorem foldl_enqueueFree {β : Type*} (g : Kernel → β) (hg : ∀ k t, g (k.enqueueFree t) = g k)
    (l : List Task) (k : Kernel) : g (l.foldl Kernel.enqueueFree k) = g k := by
  induction l generalizing k with
  | nil => rfl
  | cons x l ih => exact (ih _).trans (hg k x)

/-- The loop appends the anchors of its PCBs to the free queue. -/
theorem isRing_foldl_enqueueFree (acc l : List Task)
    (hr : IsRing k.links .freequeue (acc.map .task)) (hnd : (acc ++ l).Nodup) :
    IsRing (l.foldl Kernel.enqueueFree k).links .freequeue ((acc ++ l).map .task) := by
  induction l generalizing k acc with
  | nil => simpa using hr
  | cons x l ih =>
    have hx : x ∉ acc := fun hm => (List.nodup_append.mp hnd).2.2 x hm x (by simp) rfl
    have hr' : IsRing (k.enqueueFree x).links .freequeue ((acc ++ [x]).map .task) := by
      have := isRing_listAddTail (n := Node.task x) hr (by simpa using hx)
      simpa [Kernel.enqueueFree] using this
    have := ih (acc ++ [x]) hr' (by simpa using hnd)
    simpa using this

/-- The loop marks its PCBs as unused. -/
theorem foldl_enqueueFree_PID (l : List Task) (k : Kernel) (h : t ∈ l ∨ (k.task t).PID = -1) :
    ((l.foldl Kernel.enqueueFree k).task t).PID = -1 := by
  induction l generalizing k with
  | nil => simpa using h
  | cons x l ih =>
    refine ih _ ?_
    by_cases hx : t = x
    · subst hx
      right
      simp [Kernel.enqueueFree, Kernel.modifyTask]
    · rcases h with h | h
      · exact Or.inl ((List.mem_cons.mp h).resolve_left hx)
      · right
        simpa [Kernel.enqueueFree, Kernel.modifyTask, hx] using h

/-- The free queue after `init_sched` holds all PCBs in order. -/
theorem isRing_initSched_free :
    IsRing k.initSched.links .freequeue ((List.finRange nrTasks).map .task) := by
  have hr : IsRing k.initFreequeue.links .freequeue ((List.finRange nrTasks).map .task) :=
    isRing_foldl_enqueueFree [] (List.finRange nrTasks) isRing_initListHead
      (List.nodup_finRange nrTasks)
  refine hr.congr fun y hy => initListHead_of_ne ?_
  rintro rfl
  simp at hy

theorem isRing_initSched_ready : IsRing k.initSched.links .readyqueue [] := isRing_initListHead

theorem initFreequeue_PID : (k.initFreequeue.task t).PID = -1 := by
  unfold Kernel.initFreequeue
  exact foldl_enqueueFree_PID _ _ (Or.inl (List.mem_finRange t))

theorem initSched_PID : (k.initSched.task t).PID = -1 := by
  have h : k.initSched.task = k.initFreequeue.task := rfl
  rw [h, initFreequeue_PID]

theorem initSched_mm : k.initSched.mm = k.mm :=
  foldl_enqueueFree Kernel.mm (fun _ _ => rfl) _ _

theorem initSched_cpu : k.initSched.cpu = k.cpu :=
  foldl_enqueueFree Kernel.cpu (fun _ _ => rfl) _ _

theorem initSched_globalPID : k.initSched.globalPID = k.globalPID :=
  foldl_enqueueFree Kernel.globalPID (fun _ _ => rfl) _ _

/-! ### `init_idle` and `init_task1` -/

/-- The first PCB of the free queue is taken off it. -/
theorem takeFree_eq {ts : List Task} (hr : IsRing k.links .freequeue ((t :: ts).map .task)) :
    k.takeFree = (t, { k with links := listDel k.links .null (.task t) }) := by
  rw [List.map_cons] at hr
  rw [Kernel.takeFree, listFirst_eq hr]
  rfl

/-- `init_idle`, the first free PCB being `t`. -/
def initIdleAt (img : Image) (t : Task) (k : Kernel) : Kernel :=
  let k := { k with links := listDel k.links .null (.task t) }
  let k := k.modifyTask t fun s => { s with PID := 0, totalQuantum := defaultQuantum }
  let k := k.initStats t
  let k := k.allocateDIR t
  let k := k.setStack img t 1023 img.cpuIdle
  let k := k.setStack img t 1022 0
  let k := k.setRegisterEsp img t (img.area.stack t 1022)
  { k with idleTask := t, entered := Function.update k.entered t .cpuIdle }

/-- `init_task1`, the first free PCB being `t`. -/
def initTask1At (img : Image) (t : Task) (k : Kernel) : Kernel :=
  let k := { k with links := listDel k.links .null (.task t) }
  let k := k.modifyTask t fun s =>
    { s with PID := 1, totalQuantum := defaultQuantum, state := .stRun }
  let k := { k with remainingQuantum := (k.task t).totalQuantum }
  let k := k.initStats t
  let k := k.allocateDIR t
  let k := { k with mm := k.mm.setUserPages userLayout (k.getPT t) }
  { k with
    tssEsp0 := img.area.stack t 1024
    msrEsp := img.area.stack t 1024
    mm := k.mm.setCr3 (k.getDIR t)
    current := t }

theorem initIdle_eq {ts : List Task} (hr : IsRing k.links .freequeue ((t :: ts).map .task)) :
    k.initIdle img = initIdleAt img t k := by
  rw [Kernel.initIdle, takeFree_eq hr]
  rfl

theorem initTask1_eq {ts : List Task} (hr : IsRing k.links .freequeue ((t :: ts).map .task)) :
    k.initTask1 img = initTask1At img t k := by
  rw [Kernel.initTask1, takeFree_eq hr]
  rfl

theorem initIdleAt_self (img : Image) : ((initIdleAt img t k).task t).PID = 0 ∧
    ((initIdleAt img t k).task t).dirPagesBaseAddr = t := by
  simp [initIdleAt, Kernel.modifyTask, Kernel.allocateDIR, Kernel.initStats, Kernel.getTicks,
    Kernel.setStack, Kernel.setRegisterEsp]

theorem initIdleAt_of_ne {x : Task} (hx : x ≠ t) : (initIdleAt img t k).task x = k.task x := by
  simp [initIdleAt, Kernel.modifyTask, Kernel.allocateDIR, Kernel.initStats, Kernel.getTicks,
    Kernel.setStack, Kernel.setRegisterEsp, hx]

theorem initTask1At_self (img : Image) : ((initTask1At img t k).task t).PID = 1 ∧
    ((initTask1At img t k).task t).dirPagesBaseAddr = t ∧
    ((initTask1At img t k).task t).state = .stRun := by
  simp [initTask1At, Kernel.modifyTask, Kernel.allocateDIR, Kernel.initStats, Kernel.getTicks]

theorem initTask1At_of_ne {x : Task} (hx : x ≠ t) : (initTask1At img t k).task x = k.task x := by
  simp [initTask1At, Kernel.modifyTask, Kernel.allocateDIR, Kernel.initStats, Kernel.getTicks,
    hx]

theorem initTask1At_mm (img : Image) :
    (initTask1At img t k).mm = (k.mm.setUserPages userLayout (k.mm.dirPages t).table).setCr3 t := by
  simp [initTask1At, Kernel.modifyTask, Kernel.allocateDIR, Kernel.initStats, Kernel.getTicks,
    Kernel.getPT, Kernel.getDIR]

/-- The kernel after `init_sched`. -/
def scheduled (img : Image) (k₀ : Kernel) : Kernel := (k₀.initMm img).initSched

theorem isRing_scheduled :
    IsRing (scheduled img k).links .freequeue ((0 :: (List.finRange nrTasks).tail).map .task) :=
  isRing_initSched_free

theorem isRing_idle :
    IsRing (initIdleAt img 0 (scheduled img k)).links .freequeue
      ((1 :: (List.finRange nrTasks).tail.tail).map .task) := by
  have := @isRing_scheduled k img
  rw [List.map_cons] at this
  exact isRing_listDel_first this

/-- **The boot sequence**, with the PCBs it takes. -/
theorem boot_eq : k.boot img =
    { initTask1At img 1 (initIdleAt img 0 (scheduled img k)) with
      keyboard := (initTask1At img 1 (initIdleAt img 0 (scheduled img k))).keyboard.keyboardInit
        } := by
  have h1 : (scheduled img k).initIdle img = initIdleAt img 0 (scheduled img k) :=
    initIdle_eq isRing_scheduled
  have h2 : (initIdleAt img 0 (scheduled img k)).initTask1 img =
      initTask1At img 1 (initIdleAt img 0 (scheduled img k)) := initTask1_eq isRing_idle
  rw [Kernel.boot]
  change (let k := ((scheduled img k).initIdle img).initTask1 img
    { k with keyboard := k.keyboard.keyboardInit }) = _
  rw [h1, h2]

/-! ### The booted kernel -/

theorem boot_current : (k.boot img).current = 1 := by
  rw [boot_eq]
  rfl

theorem boot_idleTask : (k.boot img).idleTask = 0 := by
  rw [boot_eq]
  rfl

theorem boot_globalPID : (k.boot img).globalPID = k.globalPID := by
  rw [boot_eq]
  exact initSched_globalPID

/-- The PIDs after boot. -/
theorem boot_PID : ((k.boot img).task t).PID = if t = 1 then 1 else if t = 0 then 0 else -1 := by
  rw [boot_eq]
  by_cases h1 : t = 1
  · subst h1
    exact (initTask1At_self img).1
  · rw [if_neg h1, initTask1At_of_ne h1]
    by_cases h0 : t = 0
    · subst h0
      exact (initIdleAt_self img).1
    · rw [if_neg h0, initIdleAt_of_ne h0]
      exact initSched_PID

/-- The directories of the idle task and of the first process are their own. -/
theorem boot_dir (ht : t = 0 ∨ t = 1) : ((k.boot img).task t).dirPagesBaseAddr = t := by
  rw [boot_eq]
  rcases ht with rfl | rfl
  · rw [initTask1At_of_ne (by decide)]
    exact (initIdleAt_self img).2
  · exact (initTask1At_self img).2.1

theorem boot_state : ((k.boot img).task 1).state = .stRun := by
  rw [boot_eq]
  exact (initTask1At_self img).2.2

/-- **The queues after boot.** -/
theorem isRing_boot :
    IsRing (k.boot img).links .freequeue (([2, 3, 4, 5, 6, 7, 8, 9] : List Task).map .task) ∧
      IsRing (k.boot img).links .readyqueue (([] : List Task).map .task) := by
  have hfree := @isRing_idle k img
  have hs := @isRing_scheduled k img
  have hready : IsRing (initIdleAt img 0 (scheduled img k)).links .readyqueue
      (([] : List Task).map .task) :=
    isRing_listDel_other (e := Node.task 0) isRing_initSched_ready hs (by simp)
      (queues_disjoint' (by simp))
  have htail : (List.finRange nrTasks).tail.tail = [2, 3, 4, 5, 6, 7, 8, 9] := by decide
  rw [htail] at hfree
  have hlinks : (k.boot img).links =
      listDel (initIdleAt img 0 (scheduled img k)).links .null (.task 1) := by
    rw [boot_eq]
    rfl
  rw [hlinks]
  exact ⟨isRing_listDel_first hfree, isRing_listDel_other hready hfree (by simp)
    (queues_disjoint' (by simp))⟩

/-- Memory management after `init_mm`. -/
def bootMm (img : Image) (k₀ : Kernel) : Mm := (k₀.initMm img).mm

/-- **Memory management after boot**: the first process has got its pages, and its
directory is loaded. -/
theorem boot_mm : (k.boot img).mm = ((bootMm img k).setUserPages userLayout 1).setCr3 1 := by
  have hmm : (scheduled img k).mm = bootMm img k := initSched_mm
  have hdir : ((initIdleAt img 0 (scheduled img k)).mm.dirPages 1).table = 1 := by
    change ((scheduled img k).mm.dirPages 1).table = 1
    rw [hmm]
    rfl
  rw [boot_eq, ← hmm]
  refine (initTask1At_mm img).trans ?_
  rw [hdir]
  rfl

/-- **The stack of the idle task after boot**: the only memory the boot sequence
writes in the task array. -/
theorem boot_cpu_mem : (k.boot img).cpu.mem =
    store32 (store32 (store32 k.cpu.mem (img.area.stack 0 1023) img.cpuIdle)
      (img.area.stack 0 1022) 0) (img.area.espAddr 0) (img.area.stack 0 1022) := by
  have hcpu : (scheduled img k).cpu = k.cpu := initSched_cpu
  rw [boot_eq, ← hcpu]
  rfl

/-! ### A machine to run the kernel on -/

/-- A possible layout of the kernel image: the task array in page 32. -/
def sampleImage : Image where
  area :=
    { base := 0x20000, espField := 16, afterInner := 0x10100, taskSwitch := 0x10200,
      innerTaskSwitch := 0x10300, switchStack := 0x10400, afterSwitch := 0x10500,
      base_le := by decide, espField_le := by decide }
  retFromFork := 0x10600
  cpuIdle := 0x10700
  afterCharMap := fun _ => 0
  espField_eq := rfl
  aligned := by decide
  base_ge := by decide
  base_lt := by decide
  retFromFork_ne := by decide
  cpuIdle_ne := by decide

/-- A machine with the kernel just loaded: everything is zero but the variable
that is statically initialised. -/
def powerOn : Kernel where
  task := fun _ =>
    { PID := 0, dirPagesBaseAddr := 0, state := .stRun, totalQuantum := 0,
      pStats :=
        { userTicks := 0, systemTicks := 0, blockedTicks := 0, readyTicks := 0,
          elapsedTotalTicks := 0, totalTrans := 0, remainingTicks := 0 } }
  links := fun _ => { next := .null, prev := .null }
  idleTask := 0
  current := 0
  remainingQuantum := 0
  globalPID := 1000
  zeosTicks := 0
  mm :=
    { physMem := fun _ => .freeFrame
      dirPages := fun _ => { table := 0, present := false, rw := false, user := false }
      pagusrTable := fun _ _ => Paging.Entry.zero
      mmu := { mem := fun _ _ => 0, tlb := fun _ => none, fault := false }
      cr3 := 0
      paging := false }
  cpu := { reg := fun _ => 0, seg := fun _ => 0, eip := 0, eflags := 0, mem := fun _ => 0 }
  tssEsp0 := 0
  msrEsp := 0
  tsc := fun n => BitVec.ofNat 32 n
  now := 0
  entered := fun _ => .systemCallHandler
  keyboard :=
    { kBuffer := { events := fun _ => { pressed := false, scancode := 0 }, head := 0, tail := 0 }
      keyboardBuffer := fun _ => 0
      console := [] }

theorem loaded_powerOn : Loaded powerOn := ⟨rfl, rfl⟩

/-- A possible state of the stack when `sys_fork` is called. -/
def sampleFork : ForkCtx where
  fp := 1005
  contents := fun _ => 0
  room := by decide
  fp_le := by decide

/-- A possible state of processor and stack when `task_switch` is called. -/
def sampleSwitch : SwitchCtx where
  sp := 1000
  ebp := 0x21fb0
  ebx := 1
  esi := 2
  edi := 3
  ret := 0x10800
  contents := fun _ => 0
  spill := []
  clobber := fun _ => 0
  room := by decide
  sp_le := by decide
  spill_le := by decide

/-- The booted machine can fork. -/
theorem step_fork : Step sampleImage (powerOn.boot sampleImage) (.fork sampleFork)
    (exec sampleImage (powerOn.boot sampleImage) (.fork sampleFork)) := by
  refine ⟨?_, rfl⟩
  change (powerOn.boot sampleImage).current ≠ (powerOn.boot sampleImage).idleTask
  rw [boot_current, boot_idleTask]
  decide

theorem reachable_fork :
    Reachable sampleImage (exec sampleImage (powerOn.boot sampleImage) (.fork sampleFork)) :=
  ⟨powerOn, loaded_powerOn, Transition.Reachable.refl.next step_fork⟩

end Zeos.Game
