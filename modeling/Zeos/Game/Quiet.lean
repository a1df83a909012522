import Zeos.Game.Sys

/-!
# Bookkeeping that nothing depends on

Much of what the kernel executes between two scheduling decisions only touches the
statistics of PCBs, the tick count, the keyboard and the record of how a task
entered the kernel. `Zeos.Game.Quiet k k'` says that two states agree on
everything else, and the functions of this kind are shown quiet once, here; every
invariant of the development is then stated on the part of the state that quiet
changes preserve.
-/

namespace Zeos.Game

open ByteMem CircList Paging X86

/-! ### Nodes and tasks -/

section Nodes

variable {t : Task} {l l' : List Task}

@[simp] theorem task_mem_map : Node.task t ∈ l.map Node.task ↔ t ∈ l := by
  simp

/-- The two queues share no node when they share no task. -/
theorem queues_disjoint (hd : ∀ t ∈ l, t ∉ l') :
    ∀ y ∈ Node.freequeue :: l.map Node.task, y ∉ Node.readyqueue :: l'.map Node.task := by
  simp only [List.mem_cons, List.mem_map]
  rintro y (rfl | ⟨t, ht, rfl⟩) <;> simp only [reduceCtorEq, false_or, not_exists, not_and]
  · exact fun _ _ h => by simp at h
  · exact fun x hx h => hd t ht (Node.task.inj h ▸ hx)

/-- The two queues share no node when they share no task. -/
theorem queues_disjoint' (hd : ∀ t ∈ l, t ∉ l') :
    ∀ y ∈ Node.readyqueue :: l'.map Node.task, y ∉ Node.freequeue :: l.map Node.task :=
  fun y hy hy' => queues_disjoint hd y hy' hy

end Nodes

/-! ### Quiet changes -/

/-- The two states differ in statistics, time, keyboard and entry records at
most. -/
structure Quiet (k k' : Kernel) : Prop where
  /-- The queues are the same. -/
  links : k'.links = k.links
  /-- The running task is the same. -/
  current : k'.current = k.current
  /-- The idle task is the same. -/
  idleTask : k'.idleTask = k.idleTask
  /-- The rest of the quantum is the same. -/
  remainingQuantum : k'.remainingQuantum = k.remainingQuantum
  /-- The next PID is the same. -/
  globalPID : k'.globalPID = k.globalPID
  /-- Memory management is the same. -/
  mm : k'.mm = k.mm
  /-- The processor is the same. -/
  cpu : k'.cpu = k.cpu
  /-- The PIDs are the same. -/
  PID : ∀ t, (k'.task t).PID = (k.task t).PID
  /-- The directories are the same. -/
  dir : ∀ t, (k'.task t).dirPagesBaseAddr = (k.task t).dirPagesBaseAddr
  /-- The states are the same. -/
  state : ∀ t, (k'.task t).state = (k.task t).state
  /-- The quanta are the same. -/
  totalQuantum : ∀ t, (k'.task t).totalQuantum = (k.task t).totalQuantum

variable {k k' k'' : Kernel} {t : Task} {img : Image}

theorem Quiet.refl (k : Kernel) : Quiet k k :=
  ⟨rfl, rfl, rfl, rfl, rfl, rfl, rfl, fun _ => rfl, fun _ => rfl, fun _ => rfl, fun _ => rfl⟩

theorem Quiet.trans (h : Quiet k k') (h' : Quiet k' k'') : Quiet k k'' where
  links := h'.links.trans h.links
  current := h'.current.trans h.current
  idleTask := h'.idleTask.trans h.idleTask
  remainingQuantum := h'.remainingQuantum.trans h.remainingQuantum
  globalPID := h'.globalPID.trans h.globalPID
  mm := h'.mm.trans h.mm
  cpu := h'.cpu.trans h.cpu
  PID := fun t => (h'.PID t).trans (h.PID t)
  dir := fun t => (h'.dir t).trans (h.dir t)
  state := fun t => (h'.state t).trans (h.state t)
  totalQuantum := fun t => (h'.totalQuantum t).trans (h.totalQuantum t)

/-- Writing the statistics of a PCB is quiet. -/
theorem quiet_modifyTask {f : TaskStruct → TaskStruct} (t : Task)
    (hf : ∀ s, ∃ p, f s = { s with pStats := p }) : Quiet k (k.modifyTask t f) where
  links := rfl
  current := rfl
  idleTask := rfl
  remainingQuantum := rfl
  globalPID := rfl
  mm := rfl
  cpu := rfl
  PID := fun _ => modifyTask_field TaskStruct.PID fun s => by
    obtain ⟨p, hp⟩ := hf s
    rw [hp]
  dir := fun _ => modifyTask_field TaskStruct.dirPagesBaseAddr fun s => by
    obtain ⟨p, hp⟩ := hf s
    rw [hp]
  state := fun _ => modifyTask_field TaskStruct.state fun s => by
    obtain ⟨p, hp⟩ := hf s
    rw [hp]
  totalQuantum := fun _ => modifyTask_field TaskStruct.totalQuantum fun s => by
    obtain ⟨p, hp⟩ := hf s
    rw [hp]

/-- Reading the time-stamp counter is quiet. -/
theorem quiet_getTicks : Quiet k k.getTicks.2 :=
  ⟨rfl, rfl, rfl, rfl, rfl, rfl, rfl, fun _ => rfl, fun _ => rfl, fun _ => rfl, fun _ => rfl⟩

theorem quiet_updateStats (v : Counter) (t : Task) : Quiet k (k.updateStats v t) :=
  quiet_getTicks.trans (quiet_modifyTask t fun _ => ⟨_, rfl⟩)

theorem quiet_enter (how : Entered) : Quiet k (k.enter how) :=
  ⟨rfl, rfl, rfl, rfl, rfl, rfl, rfl, fun _ => rfl, fun _ => rfl, fun _ => rfl, fun _ => rfl⟩

theorem quiet_leave : Quiet k k.leave := by
  unfold Kernel.leave
  cases k.entered k.current with
  | clockHandler => exact quiet_updateStats _ _
  | keyboardHandler => exact quiet_updateStats _ _
  | systemCallHandler => exact Quiet.refl k
  | cpuIdle => exact Quiet.refl k

/-- Counting a tick and serving the keyboard is quiet. -/
theorem quiet_device (z : Int) (kb : Keyboard) :
    Quiet k { k with zeosTicks := z, keyboard := kb } :=
  ⟨rfl, rfl, rfl, rfl, rfl, rfl, rfl, fun _ => rfl, fun _ => rfl, fun _ => rfl, fun _ => rfl⟩

theorem quiet_keyboardHandler (port : Byte) : Quiet k (k.keyboardHandler port) :=
  ((((quiet_enter _).trans (quiet_updateStats _ _)).trans
    (quiet_device _ _)).trans quiet_leave)

/-! ### The parts of `sys_get_stats` -/

/-- The PCB once `sys_get_stats` has found it: `remaining_ticks` is set. -/
def reported (k : Kernel) (t : Task) : Kernel :=
  k.modifyTask t fun s =>
    { s with pStats := { s.pStats with remainingTicks := BitVec.ofInt 32 k.remainingQuantum } }

theorem quiet_reported (t : Task) : Quiet k (reported k t) :=
  quiet_modifyTask t fun _ => ⟨_, rfl⟩

/-- `sys_get_stats` changes nothing, or reports one task. -/
theorem sysGetStats_cases (pid : Int) (st : Word) : (k.sysGetStats pid st).2 = k ∨
    ∃ t, (k.sysGetStats pid st).2 =
      (reported k t).copyToUser ((reported k t).task t).pStats.byte st sizeofStats := by
  unfold Kernel.sysGetStats
  split
  · exact Or.inl rfl
  · split
    · exact Or.inl rfl
    · split
      · exact Or.inr ⟨_, rfl⟩
      · exact Or.inl rfl

/-- `sys_pollEvent` changes nothing, or the memory of the caller. -/
theorem sysPollEvent_cases (keyboard : Word) : (k.sysPollEvent keyboard).2 = k ∨
    (k.sysPollEvent keyboard).2 = k.copyToUser k.keyboard.keyboardBuffer keyboard 128 := by
  unfold Kernel.sysPollEvent
  split
  · exact Or.inl rfl
  · exact Or.inr rfl

/-! ### The parts of a dispatch -/

/-- The state of a dispatch without its statistics: the task is marked as running
and the quantum is its own. -/
def chosen (k : Kernel) (t : Task) : Kernel :=
  { k.setState t .stRun with remainingQuantum := (k.task t).totalQuantum }

/-- `sched_next_rr` records its choice, and statistics. -/
theorem quiet_dispatch (t : Task) : Quiet (chosen k t) (k.dispatch t) := by
  have hq : (k.setState t .stRun).getQuantum t = (k.task t).totalQuantum := by
    rw [Kernel.getQuantum, Kernel.setState, modifyTask_self]
  have h1 : Quiet (chosen k t)
      { k.setState t .stRun with remainingQuantum := (k.setState t .stRun).getQuantum t } := by
    rw [hq]
    exact Quiet.refl _
  exact ((h1.trans (quiet_updateStats _ _)).trans (quiet_updateStats _ _)).trans
    (quiet_modifyTask t fun _ => ⟨_, rfl⟩)

/-- A running task that goes to the ready queue, without the statistics. -/
def requeued (k : Kernel) : Kernel :=
  { k with links := listAddTail k.links (.task k.current) .readyqueue }.setState k.current .stReady

/-- The state in which `sys_exit` calls `sched_next_rr`. -/
def exited (k : Kernel) : Kernel :=
  { k with
    mm := Kernel.exitFree (k.getPT k.current) k.mm
    links := listAddTail k.links (.task k.current) .freequeue }.modifyTask k.current
      fun s => { s with PID := -1 }

theorem sysExit_eq (c : SwitchCtx) : k.sysExit img c = (exited k).schedNextRr img c := rfl

theorem exited_mm : (exited k).mm = Kernel.exitFree (k.getPT k.current) k.mm := rfl

theorem exited_PID_self : ((exited k).task k.current).PID = -1 := by
  rw [exited, modifyTask_self]

theorem exited_PID_of_ne (h : t ≠ k.current) : ((exited k).task t).PID = (k.task t).PID := by
  rw [exited, modifyTask_of_ne h]

theorem exited_dir :
    ((exited k).task t).dirPagesBaseAddr = (k.task t).dirPagesBaseAddr :=
  modifyTask_field TaskStruct.dirPagesBaseAddr fun _ => rfl

theorem exited_state : ((exited k).task t).state = (k.task t).state :=
  modifyTask_field TaskStruct.state fun _ => rfl

/-! ### The parts of `sys_fork` -/

/-- A child that has its PCB, a copy of the parent's, and its directory. -/
def forkBegun (img : Image) (c : ForkCtx) (k : Kernel) (child : Task) : Kernel :=
  ({ k.forkEnter img c with links := listDel k.links .null (.task child) }.copyTaskUnion img
    k.current child).allocateDIR child

/-- A child whose address space is complete. -/
def forkMapped (img : Image) (c : ForkCtx) (k : Kernel) (child : Task) (mm : Mm) : Kernel :=
  let k := forkBegun img c k child
  { k with mm := (Kernel.forkCopy (k.getPT child) (k.getPT k.current)
      (Kernel.forkShare (k.getPT child) (k.getPT k.current) mm)).setCr3 (k.getDIR k.current) }

/-- A child that is given up. -/
def forkAbandoned (img : Image) (c : ForkCtx) (k : Kernel) (child : Task) (mm : Mm) : Kernel :=
  let k := forkBegun img c k child
  { k with mm := mm, links := listAddTail k.links (.task child) .freequeue }

/-- `sys_fork` without a free PCB. -/
theorem sysFork_of_empty (c : ForkCtx) (h : listEmpty k.links .freequeue = true) :
    k.sysFork img c = (.error ENOMEM, k) := by
  rw [Kernel.sysFork, if_pos h]

/-- **`sys_fork` with a free PCB**, the first one of the free queue being
`child`. -/
theorem sysFork_of_first {child : Task} (c : ForkCtx)
    (h : listEmpty k.links .freequeue = false)
    (hf : listFirst k.links .freequeue = .task child) :
    k.sysFork img c =
      match Kernel.forkAlloc ((forkBegun img c k child).getPT child) numPagData 0 k.mm with
      | (false, mm) => (.error EAGAIN, forkAbandoned img c k child mm)
      | (true, mm) =>
        let k' := (forkMapped img c k child mm).forkFinish img c child
        (.ok (k'.task child).PID, k') := by
  have hf' : listFirst (k.forkEnter img c).links .freequeue = .task child := hf
  rw [Kernel.sysFork, if_neg (by simp [h])]
  simp only [hf']
  rfl

theorem forkBegun_self (c : ForkCtx) (child : Task) :
    (forkBegun img c k child).task child =
      { k.task k.current with dirPagesBaseAddr := child } := by
  rw [forkBegun, Kernel.allocateDIR, modifyTask_self]
  simp [Kernel.copyTaskUnion, Kernel.forkEnter]

theorem forkBegun_getPT_self (c : ForkCtx) (child : Task) :
    (forkBegun img c k child).getPT child = (k.mm.dirPages child).table := by
  rw [Kernel.getPT, Kernel.getDIR, forkBegun_self]
  rfl

theorem forkBegun_of_ne (c : ForkCtx) {child : Task} (h : t ≠ child) :
    (forkBegun img c k child).task t = k.task t := by
  rw [forkBegun, Kernel.allocateDIR, modifyTask_of_ne h]
  simp [Kernel.copyTaskUnion, Kernel.forkEnter, h]

/-- The links of a child are a copy of the parent's, the others those of the free
queue without it. -/
theorem forkBegun_links_of_ne (c : ForkCtx) {child : Task} {n : Node} (h : n ≠ .task child) :
    (forkBegun img c k child).links n = listDel k.links .null (.task child) n := by
  simp [forkBegun, Kernel.allocateDIR, Kernel.modifyTask, Kernel.copyTaskUnion, h]

theorem forkMapped_task (c : ForkCtx) (child : Task) (mm : Mm) :
    (forkMapped img c k child mm).task = (forkBegun img c k child).task := rfl

theorem forkMapped_links (c : ForkCtx) (child : Task) (mm : Mm) :
    (forkMapped img c k child mm).links = (forkBegun img c k child).links := rfl

/-- The queues once the child is complete. -/
theorem forkFinish_links (c : ForkCtx) (child : Task) :
    (k.forkFinish img c child).links = listAddTail k.links (.task child) .readyqueue := rfl

theorem forkFinish_self (c : ForkCtx) (child : Task) :
    ((k.forkFinish img c child).task child).PID = wrapInt (k.globalPID + 1) ∧
      ((k.forkFinish img c child).task child).dirPagesBaseAddr =
        (k.task child).dirPagesBaseAddr ∧
      ((k.forkFinish img c child).task child).state = .stReady ∧
      ((k.forkFinish img c child).task child).totalQuantum = (k.task child).totalQuantum := by
  simp [Kernel.forkFinish, Kernel.setState, Kernel.initStats, Kernel.forkStack,
    Kernel.setRegisterEsp, Kernel.getTicks, Kernel.modifyTask]

theorem forkFinish_of_ne (c : ForkCtx) {child : Task} (h : t ≠ child) :
    (k.forkFinish img c child).task t = k.task t := by
  simp [Kernel.forkFinish, Kernel.setState, Kernel.initStats, Kernel.forkStack,
    Kernel.setRegisterEsp, Kernel.getTicks, Kernel.modifyTask, h]

/-- A quiet change before a change of state is a quiet change after it. -/
theorem Quiet.setState (h : Quiet k k') (t : Task) (st : StateT) :
    Quiet (k.setState t st) (k'.setState t st) where
  links := h.links
  current := h.current
  idleTask := h.idleTask
  remainingQuantum := h.remainingQuantum
  globalPID := h.globalPID
  mm := h.mm
  cpu := h.cpu
  PID := fun x => by rw [setState_PID, setState_PID, h.PID]
  dir := fun x => by rw [setState_dir, setState_dir, h.dir]
  state := fun x => by
    by_cases hx : x = t
    · subst hx
      rw [setState_state_self, setState_state_self]
    · rw [setState_state_of_ne hx, setState_state_of_ne hx, h.state]
  totalQuantum := fun x => by rw [setState_totalQuantum, setState_totalQuantum, h.totalQuantum]

/-- `update_process_state_rr(current(), &readyqueue)`, when the current task is
running. -/
theorem quiet_requeue (hrun : (k.task k.current).state = .stRun) :
    Quiet (requeued k) (k.updateProcessStateRr k.current (some .readyqueue)) := by
  have hl : k.leaveQueue k.current = k := by
    rw [Kernel.leaveQueue, if_neg (not_not.mpr hrun)]
  rw [Kernel.updateProcessStateRr, hl]
  simp only [ne_eq, not_true_eq_false, if_false]
  exact (quiet_updateStats _ _).setState _ _

end Zeos.Game
