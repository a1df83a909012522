import Zeos.Common.Space
import Zeos.E1E2.Sys

/-!
# The E1_E2 kernel after boot

`main` gives the first slot of the task array user pages that no process will ever
use, puts every PCB in front of the free queue, takes the last slot for the idle
task and the one before it for the first process, and starts the latter.
`Zeos.E1E2.boot_eq` says that all this succeeds; the statements after it say what
the state is that every run starts from.
-/

namespace Zeos.E1E2

open ByteMem CircList Paging X86

/-! ### Quiet queues -/

/-- **Nobody is ready, nobody is blocked**, the PCBs on the free queue are the given
ones, and the tasks `ps` have no children. -/
structure Quiescent (σ : Heap Node) (free ps : List Task) : Prop where
  /-- The free queue. -/
  free : IsRing σ .freequeue (free.map .list)
  /-- The ready queue is empty. -/
  ready : IsRing σ .readyqueue []
  /-- The queue of blocked processes is empty. -/
  blocked : IsRing σ .blocked []
  /-- There are no children. -/
  kids : ∀ t ∈ ps, IsRing σ (.kids t) []

section Quiescent

variable {σ σ' : Heap Node} {free ps : List Task} {t : Task}

/-- A head is not on the free queue. -/
theorem notMem_free {g : Node} (hf : g ≠ .freequeue) (hl : ∀ t, g ≠ .list t) :
    g ∉ Node.freequeue :: free.map .list := by
  simp only [List.mem_cons, List.mem_map, not_or, not_exists, not_and]
  exact ⟨hf, fun x _ he => hl x he.symm⟩

/-- Editing the free queue leaves the other lists alone. -/
theorem quiescent_edit {free' : List Task} (h : Quiescent σ free ps)
    (hfree : IsRing σ' .freequeue (free'.map .list))
    (heq : ∀ g, g ≠ .freequeue → (∀ t, g ≠ .list t) → σ' g = σ g) : Quiescent σ' free' ps where
  free := hfree
  ready := h.ready.congr fun y hy => by
    obtain rfl := List.mem_singleton.mp hy
    exact heq _ (by simp) (by simp)
  blocked := h.blocked.congr fun y hy => by
    obtain rfl := List.mem_singleton.mp hy
    exact heq _ (by simp) (by simp)
  kids := fun t ht => (h.kids t ht).congr fun y hy => by
    obtain rfl := List.mem_singleton.mp hy
    exact heq _ (by simp) (by simp)

/-- A PCB put in front of the free queue. -/
theorem quiescent_listAdd (h : Quiescent σ free ps) (ht : t ∉ free) :
    Quiescent (listAdd σ (.list t) .freequeue) (t :: free) ps :=
  quiescent_edit h (isRing_listAdd h.free (by simpa using ht)) fun g hg hl =>
    listAdd_of_notMem h.free (hl t) (notMem_free hg hl)

/-- The first PCB taken off the free queue. -/
theorem quiescent_listDel (h : Quiescent σ (t :: free) ps) :
    Quiescent (listDel σ .null (.list t)) free ps := by
  have hr := h.free
  rw [List.map_cons] at hr
  refine quiescent_edit h (isRing_listDel_first hr) fun g hg hl =>
    listDel_of_notMem h.free (by simp) (notMem_free hg hl)

/-- A list of children is initialised. -/
theorem quiescent_kids (h : Quiescent σ free ps) :
    Quiescent (initListHead σ (.kids t)) free (t :: ps) where
  free := h.free.congr fun y hy => initListHead_of_ne (by
    rintro rfl
    exact notMem_free (by simp) (by simp) hy)
  ready := h.ready.congr fun y hy => initListHead_of_ne (by
    rintro rfl
    simp at hy)
  blocked := h.blocked.congr fun y hy => initListHead_of_ne (by
    rintro rfl
    simp at hy)
  kids := by
    intro x hx
    by_cases hxt : x = t
    · subst hxt
      exact isRing_initListHead
    · refine (h.kids x ((List.mem_cons.mp hx).resolve_left hxt)).congr fun y hy =>
        initListHead_of_ne ?_
      rintro rfl
      exact hxt (Node.kids.inj (List.mem_singleton.mp hy)).symm

end Quiescent

variable {k : Kernel} {img : Image} {t : Task}

/-! ### `init_sched` -/

/-- What putting a PCB on the free queue leaves alone, the whole loop does. -/
theorem foldl_enqueueFree {β : Type*} (g : Kernel → β) (hg : ∀ k t, g (k.enqueueFree t) = g k)
    (l : List Task) (k : Kernel) : g (l.foldl Kernel.enqueueFree k) = g k := by
  induction l generalizing k with
  | nil => rfl
  | cons x l ih => exact (ih _).trans (hg k x)

/-- The loop puts the anchors of its PCBs in front of the free queue. -/
theorem quiescent_foldl_enqueueFree (l : List Task) {acc : List Task}
    (h : Quiescent k.links acc []) (hnd : (l.reverse ++ acc).Nodup) :
    Quiescent (l.foldl Kernel.enqueueFree k).links (l.reverse ++ acc) [] := by
  induction l generalizing k acc with
  | nil => exact h
  | cons x l ih =>
    rw [List.reverse_cons, List.append_assoc, List.singleton_append] at hnd ⊢
    have hx : x ∉ acc := (List.nodup_cons.mp (List.nodup_append.mp hnd).2.1).1
    exact ih (quiescent_listAdd h hx) hnd

/-- The queues when their heads are initialised. -/
theorem quiescent_initQueues : Quiescent k.initQueues.links [] [] where
  free := by
    refine (isRing_initListHead (σ := k.links) (h := Node.freequeue)).congr fun y hy => ?_
    obtain rfl := List.mem_singleton.mp hy
    rw [Kernel.initQueues]
    simp only
    rw [initListHead_of_ne (by simp), initListHead_of_ne (by simp)]
  ready := by
    refine (isRing_initListHead (σ := initListHead k.links .freequeue)
      (h := Node.readyqueue)).congr fun y hy => ?_
    obtain rfl := List.mem_singleton.mp hy
    rw [Kernel.initQueues]
    simp only
    rw [initListHead_of_ne (by simp)]
  blocked := isRing_initListHead
  kids := by simp

/-- The queues after `init_sched`: the free queue holds all PCBs, the last one
first. -/
theorem quiescent_initSched :
    Quiescent k.initSched.links (List.finRange nrTasks).reverse [] := by
  have h := quiescent_foldl_enqueueFree (List.finRange nrTasks) (quiescent_initQueues (k := k))
    (by rw [List.append_nil, List.nodup_reverse]; exact List.nodup_finRange nrTasks)
  rw [List.append_nil] at h
  exact h

/-- What putting PCBs on the free queue leaves alone, `init_sched` does. -/
theorem initSched_eq {β : Type*} (g : Kernel → β) (hg : ∀ k t, g (k.enqueueFree t) = g k)
    (hq : ∀ k, g { k with queueTicks := defaultQuantum } = g k) :
    g k.initSched = g k.initQueues := by
  rw [Kernel.initSched, hq]
  exact foldl_enqueueFree g hg (List.finRange nrTasks) k.initQueues

theorem initSched_task : k.initSched.task = k.task :=
  initSched_eq Kernel.task (fun _ _ => rfl) fun _ => rfl

theorem initSched_mm : k.initSched.mm = k.mm :=
  initSched_eq Kernel.mm (fun _ _ => rfl) fun _ => rfl

theorem initSched_pidCounter : k.initSched.pidCounter = k.pidCounter :=
  initSched_eq Kernel.pidCounter (fun _ _ => rfl) fun _ => rfl

/-! ### The boot sequence -/

/-- The kernel after `init_sched`. -/
def scheduled (k₀ : Kernel) : Kernel := k₀.initMm.monoprocessInitAddrSpace.initSched

/-- The kernel after `init_idle`. -/
def idled (img : Image) (k₀ : Kernel) : Kernel :=
  { scheduled k₀ with links := listDel (scheduled k₀).links .null (.list 9) }.initIdleAt img 9

/-- The kernel when the first process starts. -/
def booted (img : Image) (k₀ : Kernel) : Kernel :=
  { idled img k₀ with links := listDel (idled img k₀).links .null (.list 8) }.initTask1At img 8

/-- Taking the first free PCB. -/
theorem withFree_eq {f : Task → Kernel → Kernel} {free ps : List Task}
    (h : Quiescent k.links (t :: free) ps) :
    k.withFree f = some (f t { k with links := listDel k.links .null (.list t) }) := by
  have hr := h.free
  rw [List.map_cons] at hr
  rw [Kernel.withFree, listFirst_eq hr]
  rfl

theorem quiescent_scheduled :
    Quiescent (scheduled k).links (9 :: 8 :: [7, 6, 5, 4, 3, 2, 1, 0]) [] := by
  have h : (List.finRange nrTasks).reverse = 9 :: 8 :: [7, 6, 5, 4, 3, 2, 1, 0] := by decide
  rw [← h]
  exact quiescent_initSched

theorem quiescent_idled : Quiescent (idled img k).links (8 :: [7, 6, 5, 4, 3, 2, 1, 0]) [9] :=
  quiescent_kids (quiescent_listDel quiescent_scheduled)

/-- **The queues after boot.** -/
theorem quiescent_booted :
    Quiescent (booted img k).links [7, 6, 5, 4, 3, 2, 1, 0] [8, 9] :=
  quiescent_kids (quiescent_listDel quiescent_idled)

/-- **The boot sequence succeeds.** -/
theorem boot_eq : k.boot img = some (booted img k) := by
  have h1 : (scheduled k).initIdle img = some (idled img k) := withFree_eq quiescent_scheduled
  have h2 : (idled img k).initTask1 img = some (booted img k) := withFree_eq quiescent_idled
  change ((scheduled k).initIdle img).bind (fun k => k.initTask1 img) = _
  rw [h1]
  exact h2

/-! ### The booted kernel -/

theorem booted_pidCounter : (booted img k).pidCounter = k.pidCounter := by
  change (scheduled k).pidCounter = _
  exact initSched_pidCounter

theorem initIdleAt_self : (k.initIdleAt img t).task t =
    { PID := 0, dirPagesBaseAddr := t, parent := (k.task t).parent, state := .stReady,
      quantum := defaultQuantum, pendingUnblocks := 0 } := by
  simp [Kernel.initIdleAt, Kernel.modifyTask, Kernel.setQuantum, Kernel.allocateDIR,
    Kernel.setStack, Kernel.setKernelEsp]

theorem initIdleAt_of_ne {x : Task} (h : x ≠ t) : (k.initIdleAt img t).task x = k.task x := by
  simp [Kernel.initIdleAt, Kernel.modifyTask, Kernel.setQuantum, Kernel.allocateDIR,
    Kernel.setStack, Kernel.setKernelEsp, h]

theorem initTask1At_self : (k.initTask1At img t).task t =
    { PID := 1, dirPagesBaseAddr := t, parent := (k.task t).parent, state := .stRun,
      quantum := defaultQuantum, pendingUnblocks := 0 } := by
  simp [Kernel.initTask1At, Kernel.modifyTask, Kernel.setQuantum, Kernel.allocateDIR]

theorem initTask1At_of_ne {x : Task} (h : x ≠ t) : (k.initTask1At img t).task x = k.task x := by
  simp [Kernel.initTask1At, Kernel.modifyTask, Kernel.setQuantum, Kernel.allocateDIR, h]

theorem scheduled_task : (scheduled k).task = (k.allocateDIR 0).task := initSched_task

/-- `init_idle` writes one PCB. -/
theorem idled_of_ne (h : t ≠ 9) : (idled img k).task t = (scheduled k).task t :=
  @initIdleAt_of_ne { scheduled k with links := listDel (scheduled k).links .null (.list 9) } img
    9 t h

theorem idled_self : (idled img k).task 9 =
    { PID := 0, dirPagesBaseAddr := 9, parent := ((scheduled k).task 9).parent, state := .stReady,
      quantum := defaultQuantum, pendingUnblocks := 0 } :=
  @initIdleAt_self { scheduled k with links := listDel (scheduled k).links .null (.list 9) } img 9

/-- `init_task1` writes one PCB. -/
theorem booted_of_ne (h : t ≠ 8) : (booted img k).task t = (idled img k).task t :=
  @initTask1At_of_ne { idled img k with links := listDel (idled img k).links .null (.list 8) } img 8
    t h

/-- The PCB of the first process. -/
theorem booted_task_first : (booted img k).task 8 =
    { PID := 1, dirPagesBaseAddr := 8, parent := (k.task 8).parent, state := .stRun,
      quantum := defaultQuantum, pendingUnblocks := 0 } := by
  have h : (idled img k).task 8 = k.task 8 := by
    rw [idled_of_ne (by decide), scheduled_task, Kernel.allocateDIR, modifyTask_of_ne (by decide)]
  rw [← h]
  exact @initTask1At_self { idled img k with
    links := listDel (idled img k).links .null (.list 8) } img 8

/-- The PCB of the idle task. -/
theorem booted_task_idle : (booted img k).task 9 =
    { PID := 0, dirPagesBaseAddr := 9, parent := (k.task 9).parent, state := .stReady,
      quantum := defaultQuantum, pendingUnblocks := 0 } := by
  have h : (scheduled k).task 9 = k.task 9 := by
    rw [scheduled_task, Kernel.allocateDIR, modifyTask_of_ne (by decide)]
  rw [booted_of_ne (by decide), idled_self, h]

/-- The other PCBs are as they were loaded. -/
theorem booted_task_other (h8 : t ≠ 8) (h9 : t ≠ 9) :
    (booted img k).task t = (k.allocateDIR 0).task t := by
  rw [booted_of_ne h8, idled_of_ne h9, scheduled_task]

/-- Boot sets no parent. -/
theorem booted_parent : ((booted img k).task t).parent = (k.task t).parent := by
  by_cases h8 : t = 8
  · subst h8
    rw [booted_task_first]
  · by_cases h9 : t = 9
    · subst h9
      rw [booted_task_idle]
    · rw [booted_task_other h8 h9]
      exact modifyTask_field TaskStruct.parent fun _ => rfl

/-- Boot leaves no unblock pending. -/
theorem booted_pendingUnblocks (h : ∀ t, (k.task t).pendingUnblocks = 0) :
    ((booted img k).task t).pendingUnblocks = 0 := by
  by_cases h8 : t = 8
  · subst h8
    rw [booted_task_first]
  · by_cases h9 : t = 9
    · subst h9
      rw [booted_task_idle]
    · rw [booted_task_other h8 h9, ← h t]
      exact modifyTask_field TaskStruct.pendingUnblocks fun _ => rfl

/-! ### Memory management -/

/-- Memory management after `init_mm`. -/
def bootMm (k₀ : Kernel) : Mm := k₀.initMm.mm

/-- Memory management after `monoprocess_init_addr_space`. -/
def monoMm (k₀ : Kernel) : Mm := ((bootMm k₀).setUserPages userLayout 0).setCr3 0

theorem initMm_getDIR : k.initMm.getDIR 0 = 0 := by
  simp [Kernel.initMm, Kernel.getDIR, Kernel.allocateDIR, Kernel.modifyTask]

theorem monoprocess_mm : k.initMm.monoprocessInitAddrSpace.mm = monoMm k := by
  have h1 : k.initMm.getPT 0 = 0 := by
    rw [Kernel.getPT, initMm_getDIR]
    rfl
  have h2 : { k.initMm with mm := k.initMm.mm.setUserPages userLayout (k.initMm.getPT 0) }.getDIR 0
      = 0 := initMm_getDIR
  simp only [Kernel.monoprocessInitAddrSpace, h1]
  rw [h1] at h2
  rw [h2]
  rfl

/-- `set_user_pages` writes no directory. -/
theorem setUserPages_dirPages {mm : Mm} {ul : UserLayout} {pt : Task} :
    (mm.setUserPages ul pt).dirPages = mm.dirPages := by
  have halloc : ∀ m : Mm, m.allocFrame.2.dirPages = m.dirPages := by
    intro m
    unfold Mm.allocFrame
    split <;> rfl
  refine Loop.forLoop_induction (I := fun _ (m : Mm) => m.dirPages = mm.dirPages) ?_ ?_
  · refine Loop.forLoop_induction (I := fun _ (m : Mm) => m.dirPages = mm.dirPages) rfl ?_
    exact fun i m _ hm => (halloc m).trans hm
  · exact fun i m _ hm => (halloc m).trans hm

theorem monoMm_dirPages : (monoMm k).dirPages t =
    { table := t, present := true, rw := true, user := true } := by
  change ((bootMm k).setUserPages userLayout 0).dirPages t = _
  rw [setUserPages_dirPages]
  rfl

/-- **Memory management after boot**: the first process has got its pages, and its
directory is loaded. -/
theorem booted_mm : (booted img k).mm = ((monoMm k).setUserPages userLayout 8).setCr3 8 := by
  have hmm : (scheduled k).mm = monoMm k := initSched_mm.trans monoprocess_mm
  have hdir : (((scheduled k).mm.dirPages 8).table : Task) = 8 := by rw [hmm, monoMm_dirPages]
  have h : (booted img k).mm =
      ((scheduled k).mm.setUserPages userLayout ((scheduled k).mm.dirPages 8).table).setCr3 8 := by
    simp [booted, Kernel.initTask1At, Kernel.modifyTask, Kernel.setQuantum, Kernel.allocateDIR,
      Kernel.getPT, Kernel.getDIR, idled, Kernel.initIdleAt, Kernel.setStack, Kernel.setKernelEsp]
  rw [h, hdir, hmm]

theorem booted_dirPages : ((booted img k).mm.dirPages t).table = t := by
  rw [booted_mm]
  change (((monoMm k).setUserPages userLayout 8).dirPages t).table = t
  rw [setUserPages_dirPages, monoMm_dirPages]

theorem freeSlots_bootMm : freeSlots (bootMm k).physMem = slots := by
  refine List.filter_eq_self.mpr fun f hf => ?_
  obtain ⟨h1, h2, -⟩ := mem_slots.mp hf
  simp [bootMm, Kernel.initMm, Kernel.initTablePages, Kernel.allocateDIR, Mm.initFrames,
    Mm.initDirPages, Mm.setCr3, Mm.setPeFlag, Nat.not_lt.mpr h1, h2]

theorem freeSlots_monoMm : freeSlots (monoMm k).physMem = slots.drop (numPagCode + numPagData) := by
  have h := freeSlots_setUserPages (bootMm k) userLayout 0
    (by rw [freeSlots_bootMm, length_slots]; decide)
  rw [freeSlots_bootMm] at h
  exact h

/-- The free frames after boot. -/
theorem freeSlots_booted : freeSlots (booted img k).mm.physMem =
    slots.drop (2 * (numPagCode + numPagData)) := by
  have h := freeSlots_setUserPages (monoMm k) userLayout 8
    (by rw [freeSlots_monoMm, List.length_drop, length_slots]; decide)
  rw [freeSlots_monoMm, List.drop_drop] at h
  rw [booted_mm]
  exact h

/-- The page tables of the slots no process has used yet. -/
theorem bootMm_table {p : Nat} (h : p < totalPages) :
    (bootMm k).pagusrTable t p = Mm.initEntry p := by
  simp [bootMm, Kernel.initMm, Kernel.initTablePages, Kernel.allocateDIR, Mm.initFrames,
    Mm.initDirPages, Mm.setCr3, Mm.setPeFlag, h]

/-- The frames the first process gets: its code, and its data. -/
def firstCode : List Nat := (List.range numPagCode).map fun i => 312 + 2 * i

/-- The frames the first process gets: its code, and its data. -/
def firstData : List Nat := (List.range numPagData).map fun i => 328 + 2 * i

/-- **The page table of the first process.** -/
theorem booted_table : (booted img k).mm.pagusrTable 8 =
    overlay userLayout.pagLogInitData numPagData (fun i => ssEntry (firstData.getD i 0 : Nat))
      (overlay userLayout.pagLogInitCode numPagCode (fun i => codeMk (firstCode.getD i 0 : Nat))
        ((bootMm k).pagusrTable 8)) := by
  have hcode : (slots.drop (numPagCode + numPagData)).take numPagCode = firstCode := by decide
  have hdata : ((slots.drop (numPagCode + numPagData)).drop numPagCode).take numPagData =
      firstData := by decide
  have hmono : (monoMm k).pagusrTable 8 = (bootMm k).pagusrTable 8 := by
    change ((bootMm k).setUserPages userLayout 0).pagusrTable 8 = _
    rw [setUserPages_grant _ _ _ (by rw [freeSlots_bootMm, length_slots]; decide)]
    simp only [Mm.grant]
    rw [setTable_of_ne (by decide), setTable_of_ne (by decide)]
  have h := setUserPages_grant (monoMm k) userLayout 8
    (by rw [freeSlots_monoMm, List.length_drop, length_slots]; decide)
  rw [freeSlots_monoMm, hcode, hdata] at h
  rw [booted_mm]
  change ((monoMm k).setUserPages userLayout 8).pagusrTable 8 = _
  rw [h]
  simp only [Mm.grant, setTable_self, hmono]
  rfl

/-- The data pages of the first process. -/
theorem booted_data {i : Nat} (hi : i < numPagData) :
    (booted img k).mm.pagusrTable 8 (userLayout.pagLogInitData + i) =
      ssEntry ((328 + 2 * i : Nat) : Int) := by
  rw [booted_table, overlay_at hi, firstData, getD_map_range hi]

/-- The code pages of the first process. -/
theorem booted_code {i : Nat} (hi : i < numPagCode) :
    (booted img k).mm.pagusrTable 8 (userLayout.pagLogInitCode + i) =
      codeMk ((312 + 2 * i : Nat) : Int) := by
  have h1 := pagLogInitCode_eq
  have h2 := pagLogInitData_eq
  rw [booted_table, overlay_of_notMem (by unfold numPagData; omega), overlay_at hi, firstCode,
    getD_map_range hi]

/-- All other pages of the first process are as `init_table_pages` left them. -/
theorem booted_other {p : Nat} (hp : p < totalPages)
    (h : p < userLayout.pagLogInitData ∨ userLayout.pagLogInitCode + numPagCode ≤ p) :
    (booted img k).mm.pagusrTable 8 p = Mm.initEntry p := by
  have h1 := pagLogInitCode_eq
  have h2 := pagLogInitData_eq
  have h3 : numPagData = 20 := rfl
  rw [booted_table, overlay_of_notMem (by omega), overlay_of_notMem (by omega), bootMm_table hp]

/-! ### A machine to run the kernel on -/

/-- A possible layout of the kernel image: the task array in page 64. -/
def sampleImage : Image where
  area :=
    { base := 0x40000, espField := 40, afterInner := 0x20100, taskSwitch := 0x20200,
      innerTaskSwitch := 0x20300, switchStack := 0x20400, afterSwitch := 0x20500,
      base_le := by decide, espField_le := by decide }
  retFromFork := 0x20600
  cpuIdle := 0x20700
  espField_eq := rfl
  retFromFork_ne := by decide

/-- A machine with the kernel just loaded: everything is zero but the variable
that is statically initialised. -/
def powerOn : Kernel where
  task := fun _ =>
    { PID := 0, dirPagesBaseAddr := 0, parent := none, state := .stRun, quantum := 0,
      pendingUnblocks := 0 }
  links := fun _ => { next := .null, prev := .null }
  idleTask := 0
  current := 0
  queueTicks := 0
  pidCounter := 2
  zeosTicks := 0
  mm :=
    { physMem := fun _ => .freeFrame
      dirPages := fun _ => { table := 0, present := false, rw := false, user := false }
      pagusrTable := fun _ _ => Entry.zero
      mmu := { mem := fun _ _ => 0, tlb := fun _ => none, fault := false }
      cr3 := 0
      paging := false }
  cpu := { reg := fun _ => 0, seg := fun _ => 0, eip := 0, eflags := 0, mem := fun _ => 0 }
  tssEsp0 := 0
  msrEsp := 0

/-- A possible state of processor and stack when `task_switch` is called. -/
def sampleSwitch : SwitchCtx where
  sp := 990
  ebp := 0x48fb0
  ebx := 1
  esi := 2
  edi := 3
  ret := 0x20800
  contents := fun _ => 0
  spill := [0]
  clobber := fun _ => 0
  room := by decide
  sp_le := by decide
  spill_le := by decide

theorem loaded_powerOn : Loaded powerOn := ⟨rfl, fun _ => rfl, fun _ => rfl, rfl⟩

end Zeos.E1E2
