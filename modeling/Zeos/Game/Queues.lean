import Zeos.Lib.RoundRobin
import Zeos.Game.Boot

/-!
# The queues of the GAME kernel

The kernel's two queues, its current task and its idle task are a round robin
scheduler in the sense of `RoundRobin`: `Zeos.Game.Refines k a` says that the
queues of the kernel state `k` are rings through the anchors of the tasks that the
abstract scheduler `a` has on its lists, and that the states recorded in the PCBs
say so too. Every operation of the kernel is one move of the abstract scheduler
(`Zeos.Game.refines_exec`), so the abstract invariant – every slot in exactly one
place – holds in every reachable state.

| operation | move |
|---|---|
| clock tick, quantum used up and another task ready | rotate |
| `sys_yield` | rotate |
| `sys_fork` | spawn, or nothing, or give back |
| `sys_exit` | leave |
| everything else | stay |

The delicate points are the ones where the C code relies on an agreement of queues
and states: `sys_fork` overwrites the whole PCB of the child, links included, with
those of a task that is on no queue; `sys_exit` leaves the state `ST_RUN` in a PCB
that goes to the free queue; and `update_process_state_rr` decides by the state
whether there is anything to unlink.
-/

namespace Zeos.Game

open CircList RoundRobin X86

/-! ### The relation -/

/-- **The kernel is in the state of the abstract scheduler.** -/
structure Refines (k : Kernel) (a : Sched Task) : Prop where
  /-- The free queue is a ring through the free tasks. -/
  free : IsRing k.links .freequeue (a.free.map .task)
  /-- The ready queue is a ring through the ready tasks. -/
  ready : IsRing k.links .readyqueue (a.ready.map .task)
  /-- The current task is the running one. -/
  current : k.current = a.running
  /-- The idle task is the idle one. -/
  idleTask : k.idleTask = a.idle
  /-- Ready tasks have state `ST_READY`. -/
  stReady : ∀ t ∈ a.ready, (k.task t).state = .stReady
  /-- The running task has state `ST_RUN`. -/
  stRun : (k.task a.running).state = .stRun
  /-- Every task is in one place. -/
  wf : Wf a

variable {k k' : Kernel} {a : Sched Task} {img : Image}

/-- The abstract scheduler is determined by the kernel state. -/
theorem refines_unique {a' : Sched Task} (h : Refines k a) (h' : Refines k a') : a = a' := by
  have hf := List.map_injective_iff.mpr (fun _ _ => Node.task.inj) (h.free.unique h'.free)
  have hr := List.map_injective_iff.mpr (fun _ _ => Node.task.inj) (h.ready.unique h'.ready)
  have hc := h.current.symm.trans h'.current
  have hi := h.idleTask.symm.trans h'.idleTask
  cases a
  cases a'
  simp_all

theorem refines_quiet (hq : Quiet k k') (h : Refines k a) : Refines k' a where
  free := hq.links ▸ h.free
  ready := hq.links ▸ h.ready
  current := hq.current.trans h.current
  idleTask := hq.idleTask.trans h.idleTask
  stReady := fun t ht => (hq.state t).trans (h.stReady t ht)
  stRun := (hq.state _).trans h.stRun
  wf := h.wf

/-- The rest of the quantum is not part of the relation. -/
theorem refines_quantum (r : Int) (h : Refines k a) :
    Refines { k with remainingQuantum := r } a :=
  ⟨h.free, h.ready, h.current, h.idleTask, h.stReady, h.stRun, h.wf⟩

/-- Memory management is not part of the relation. -/
theorem refines_mm (mm : Mm) (h : Refines k a) : Refines { k with mm := mm } a :=
  ⟨h.free, h.ready, h.current, h.idleTask, h.stReady, h.stRun, h.wf⟩

theorem listEmpty_freequeue (h : Refines k a) :
    listEmpty k.links .freequeue = true ↔ a.free = [] := by
  rw [listEmpty_iff h.free, List.map_eq_nil_iff]

theorem listEmpty_readyqueue (h : Refines k a) :
    listEmpty k.links .readyqueue = true ↔ a.ready = [] := by
  rw [listEmpty_iff h.ready, List.map_eq_nil_iff]

/-! ### After boot -/

/-- The scheduler of a freshly booted kernel. -/
def bootSched : Sched Task :=
  { free := [2, 3, 4, 5, 6, 7, 8, 9], ready := [], running := 1, idle := 0 }

theorem wf_bootSched : Wf bootSched :=
  ⟨by decide, by decide, by decide⟩

/-- **The queues after boot.** -/
theorem refines_boot : Refines (k.boot img) bootSched :=
  ⟨isRing_boot.1, isRing_boot.2, boot_current, boot_idleTask, by simp [bootSched], boot_state,
    wf_bootSched⟩

/-! ### Dispatching -/

/-- What `sched_next_rr` finds when it is called: the queues, on one of which the
outgoing task has just been put. -/
structure Queued (k : Kernel) (a : Sched Task) : Prop where
  /-- The free queue is a ring through the free tasks. -/
  free : IsRing k.links .freequeue (a.free.map .task)
  /-- The ready queue is a ring through the ready tasks. -/
  ready : IsRing k.links .readyqueue (a.ready.map .task)
  /-- The idle task is the idle one. -/
  idleTask : k.idleTask = a.idle
  /-- Ready tasks have state `ST_READY`. -/
  stReady : ∀ t ∈ a.ready, (k.task t).state = .stReady
  /-- No task is free and ready. -/
  disjoint : ∀ t ∈ a.free, t ∉ a.ready

theorem queued_quiet (hq : Quiet k k') (h : Queued k a) : Queued k' a where
  free := hq.links ▸ h.free
  ready := hq.links ▸ h.ready
  idleTask := hq.idleTask.trans h.idleTask
  stReady := fun t ht => (hq.state t).trans (h.stReady t ht)
  disjoint := h.disjoint

/-- The task `sched_next_rr` chooses is the one the abstract scheduler runs
next. -/
theorem pickNext_eq (h : Queued k a) :
    k.pickNext = match a.ready with
      | [] => (a.idle, k)
      | t :: _ => (t, { k with links := listDel k.links .null (.task t) }) := by
  have hemp := listEmpty_iff h.ready
  cases hr : a.ready with
  | nil =>
    rw [hr] at hemp
    rw [Kernel.pickNext, if_pos (hemp.mpr rfl), h.idleTask]
  | cons t ts =>
    rw [hr] at hemp
    have hring := h.ready
    rw [hr, List.map_cons] at hring
    have hf : listFirst k.links .readyqueue = .task t := listFirst_eq hring
    rw [Kernel.pickNext, if_neg (fun he => by simpa using hemp.mp he)]
    simp only [hf]
    rfl

theorem chosen_state_of_ne {t x : Task} (hx : x ≠ t) :
    ((chosen k t).task x).state = (k.task x).state := setState_state_of_ne hx

theorem chosen_state_self {t : Task} : ((chosen k t).task t).state = .stRun :=
  setState_state_self

/-- A chosen task that is switched to is the running task. -/
theorem refines_switch {t : Task} {c : SwitchCtx} {b : Sched Task}
    (hfree : IsRing k.links .freequeue (b.free.map .task))
    (hready : IsRing k.links .readyqueue (b.ready.map .task)) (hidle : k.idleTask = b.idle)
    (hst : ∀ x ∈ b.ready, (k.task x).state = .stReady) (ht : b.running = t) (hw : Wf b) :
    Refines ((k.dispatch t).taskSwitch img c t) b := by
  have hq := quiet_dispatch (k := k) t
  refine ⟨?_, ?_, ht.symm, ?_, fun x hx => ?_, ?_, hw⟩
  · exact hq.links.symm ▸ hfree
  · exact hq.links.symm ▸ hready
  · exact hq.idleTask.trans hidle
  · have hxt : x ≠ t := fun he => (running_notMem hw).2 (ht ▸ he ▸ hx)
    exact (hq.state x).trans ((chosen_state_of_ne hxt).trans (hst x hx))
  · rw [ht]
    exact (hq.state t).trans chosen_state_self

/-- **`sched_next_rr` runs the task the abstract scheduler runs next.** -/
theorem refines_schedNextRr (c : SwitchCtx) (h : Queued k a) (hw : Wf a.next) :
    Refines (k.schedNextRr img c) a.next := by
  rw [Kernel.schedNextRr, pickNext_eq h]
  cases hr : a.ready with
  | nil =>
    have hnext : a.next = { a with running := a.idle } := by simp [Sched.next, hr]
    rw [hnext] at hw ⊢
    exact refines_switch h.free h.ready h.idleTask h.stReady rfl hw
  | cons t ts =>
    have hnext : a.next = { a with ready := ts, running := t } := by simp [Sched.next, hr]
    rw [hnext] at hw ⊢
    have hring := h.ready
    rw [hr, List.map_cons] at hring
    have hd : ∀ x ∈ a.free, x ∉ t :: ts := hr ▸ h.disjoint
    have hst := h.stReady
    rw [hr] at hst
    refine refines_switch (k := { k with links := listDel k.links .null (.task t) })
      ?_ (isRing_listDel_first hring) h.idleTask
      (fun x hx => hst x (List.mem_cons_of_mem _ hx)) rfl hw
    exact isRing_listDel_other h.free hring (by simp) (queues_disjoint hd)

/-- **The processor has been given to a task**, and with it the address space; PIDs
and directories are what they were. -/
structure Dispatched (img : Image) (c : SwitchCtx) (k : Kernel) (t : Task) (k' : Kernel) :
    Prop where
  /-- The directory of the task is loaded. -/
  mm : k'.mm = k.mm.setCr3 (k.task t).dirPagesBaseAddr
  /-- The stacks have been exchanged. -/
  cpu : k'.cpu = Zeos.taskSwitch img.area c k.current t k.cpu
  /-- The next PID is the same. -/
  globalPID : k'.globalPID = k.globalPID
  /-- The PIDs are the same. -/
  PID : ∀ x, (k'.task x).PID = (k.task x).PID
  /-- The directories are the same. -/
  dir : ∀ x, (k'.task x).dirPagesBaseAddr = (k.task x).dirPagesBaseAddr

theorem dispatched_taskSwitch (img : Image) (c : SwitchCtx) (k : Kernel) (t : Task) :
    Dispatched img c k t ((k.dispatch t).taskSwitch img c t) := by
  have hq := quiet_dispatch (k := k) t
  have hdir : ∀ x, ((k.dispatch t).task x).dirPagesBaseAddr = (k.task x).dirPagesBaseAddr :=
    fun x => (hq.dir x).trans setState_dir
  refine ⟨?_, ?_, hq.globalPID, fun x => (hq.PID x).trans setState_PID, hdir⟩
  · simp only [Kernel.taskSwitch, Kernel.getDIR, hdir, hq.mm]
    rfl
  · simp only [Kernel.taskSwitch, hq.cpu, hq.current]
    rfl

/-- **What `sched_next_rr` does**, apart from the queues and the states. -/
theorem schedNextRr_spec (img : Image) (c : SwitchCtx) (h : Queued k a) :
    Dispatched img c k a.next.running (k.schedNextRr img c) := by
  rw [Kernel.schedNextRr, pickNext_eq h]
  cases hr : a.ready with
  | nil =>
    have hnext : a.next.running = a.idle := by simp [Sched.next, hr]
    rw [hnext]
    exact dispatched_taskSwitch img c k a.idle
  | cons t ts =>
    have hnext : a.next.running = t := by simp [Sched.next, hr]
    have hd := dispatched_taskSwitch img c { k with links := listDel k.links .null (.task t) } t
    rw [hnext]
    exact ⟨hd.mm, hd.cpu, hd.globalPID, hd.PID, hd.dir⟩

/-! ### The moves -/

/-- A running task that has been appended to the ready queue. -/
theorem queued_requeued (h : Refines k a) :
    Queued (requeued k) { a with ready := a.ready ++ [a.running] } := by
  obtain ⟨hrf, hrr⟩ := running_notMem h.wf
  have hn : Node.task k.current ∉ Node.readyqueue :: a.ready.map Node.task := by
    rw [h.current]
    simpa using hrr
  refine ⟨?_, ?_, h.idleTask, fun t ht => ?_, fun t ht => ?_⟩
  · refine isRing_listAddTail_other h.free h.ready
      (queues_disjoint fun t ht => disjoint_free_ready h.wf ht) ?_
    rw [h.current]
    simpa using hrf
  · have := isRing_listAddTail h.ready hn
    rw [h.current] at this
    simpa [requeued, h.current] using this
  · simp only [List.mem_append, List.mem_singleton] at ht
    rw [requeued, h.current]
    by_cases htr : t = a.running
    · subst htr
      exact setState_state_self
    · rw [setState_state_of_ne htr]
      exact h.stReady t (ht.resolve_right htr)
  · simp only [List.mem_append, List.mem_singleton, not_or]
    exact ⟨disjoint_free_ready h.wf ht, fun he => hrf (he ▸ ht)⟩

/-- The state of the task that runs. -/
theorem Refines.current_stRun (h : Refines k a) : (k.task k.current).state = .stRun := by
  rw [h.current]
  exact h.stRun

/-- A running task that gives the processor away calls `sched_next_rr` in order. -/
theorem queued_rotate (h : Refines k a) :
    Queued (k.updateProcessStateRr k.current (some .readyqueue))
      { a with ready := a.ready ++ [a.running] } :=
  queued_quiet (quiet_requeue h.current_stRun) (queued_requeued h)

/-- Giving the processor away: `update_process_state_rr` and `sched_next_rr`. -/
theorem refines_rotate (c : SwitchCtx) (h : Refines k a) (hne : a.running ≠ a.idle) :
    Refines ((k.updateProcessStateRr k.current (some .readyqueue)).schedNextRr img c)
      a.rotate :=
  refines_schedNextRr c (queued_rotate h) (h.wf.move .rotate (Or.inr hne))

/-- **What giving the processor away does**, apart from the queues and the states. -/
theorem rotate_spec (img : Image) (c : SwitchCtx) (hr : Refines k a) :
    Dispatched img c k a.rotate.running
      ((k.updateProcessStateRr k.current (some .readyqueue)).schedNextRr img c) := by
  have hq := quiet_requeue hr.current_stRun
  have hd := schedNextRr_spec img c (queued_rotate hr)
  have hdir : ∀ x, ((k.updateProcessStateRr k.current (some .readyqueue)).task x).dirPagesBaseAddr =
      (k.task x).dirPagesBaseAddr := fun x => (hq.dir x).trans setState_dir
  refine ⟨?_, ?_, hd.globalPID.trans hq.globalPID,
    fun x => (hd.PID x).trans ((hq.PID x).trans setState_PID), fun x => (hd.dir x).trans (hdir x)⟩
  · rw [hd.mm, hdir, hq.mm]
    rfl
  · rw [hd.cpu, hq.current, hq.cpu]
    rfl

/-- **What `needs_sched_rr` decides**: yes when the quantum is used up and a task is
ready; the running task gets a new quantum when there is nobody else to run. -/
theorem needsSchedRr_spec (k : Kernel) :
    (k.needsSchedRr = (true, k) ∧ k.remainingQuantum = 0 ∧
      listEmpty k.links .readyqueue = false) ∨
    (k.needsSchedRr = (false, { k with remainingQuantum := k.getQuantum k.current }) ∧
      k.remainingQuantum = 0 ∧ listEmpty k.links .readyqueue = true) ∨
    (k.needsSchedRr = (false, k) ∧ k.remainingQuantum ≠ 0) := by
  unfold Kernel.needsSchedRr
  split
  · next h => exact Or.inl ⟨rfl, h.1, by simpa using h.2⟩
  · next h =>
    split
    · next h0 => exact Or.inr (Or.inl ⟨rfl, h0, by simpa [h0] using h⟩)
    · next h0 => exact Or.inr (Or.inr ⟨rfl, h0⟩)

/-- `needs_sched_rr` says yes when the quantum is used up and a task is ready, and
otherwise changes the quantum at most. -/
theorem needsSchedRr_cases (k : Kernel) :
    (k.needsSchedRr = (true, k) ∧ k.remainingQuantum = 0 ∧
      listEmpty k.links .readyqueue = false) ∨
    ∃ r, k.needsSchedRr = (false, { k with remainingQuantum := r }) := by
  rcases needsSchedRr_spec k with h | ⟨h, -⟩ | ⟨h, -⟩
  · exact Or.inl h
  · exact Or.inr ⟨_, h⟩
  · exact Or.inr ⟨k.remainingQuantum, h⟩

/-- The move `schedule` makes. -/
def tickMove (k : Kernel) : Move :=
  if k.updateSchedDataRr.needsSchedRr.1 then .rotate else .stay

/-- `schedule` rotates, or leaves everything in place. -/
theorem refines_schedule (c : SwitchCtx) (h : Refines k a) :
    Refines (k.schedule img c) (a.move (tickMove k)) := by
  have h' : Refines k.updateSchedDataRr a := refines_quantum _ h
  rw [Kernel.schedule, tickMove]
  rcases needsSchedRr_cases k.updateSchedDataRr with ⟨heq, -, hemp⟩ | ⟨r, heq⟩
  · rw [heq]
    have hne : a.running ≠ a.idle := fun hri => by
      rw [(listEmpty_readyqueue h').mpr (h.wf.idle_alone hri)] at hemp
      simp at hemp
    exact refines_rotate c h' hne
  · rw [heq]
    exact refines_quantum r h'

/-- A running task that has been appended to the free queue. -/
theorem queued_exited (h : Refines k a) :
    Queued (exited k) { a with free := a.free ++ [a.running] } := by
  obtain ⟨hrf, hrr⟩ := running_notMem h.wf
  have hn : Node.task k.current ∉ Node.freequeue :: a.free.map Node.task := by
    rw [h.current]
    simpa using hrf
  refine ⟨?_, ?_, h.idleTask, fun t ht => ?_, fun t ht => ?_⟩
  · have := isRing_listAddTail h.free hn
    rw [h.current] at this
    simpa [exited, h.current] using this
  · refine isRing_listAddTail_other h.ready h.free
      (queues_disjoint' fun t ht => disjoint_free_ready h.wf ht) ?_
    rw [h.current]
    simpa using hrr
  · exact exited_state.trans (h.stReady t ht)
  · simp only [List.mem_append, List.mem_singleton] at ht
    rcases ht with ht | rfl
    · exact disjoint_free_ready h.wf ht
    · exact hrr

/-- `sys_exit` frees the running task. -/
theorem refines_sysExit (c : SwitchCtx) (h : Refines k a) (hne : a.running ≠ a.idle) :
    Refines (k.sysExit img c) a.leave := by
  rw [sysExit_eq]
  exact refines_schedNextRr c (queued_exited h) (h.wf.move .leave (Or.inr hne))

/-! ### `sys_fork` -/

/-- The first free task is the one `sys_fork` takes. -/
theorem sysFork_eq {t : Task} {ts : List Task} (c : ForkCtx) (h : Refines k a)
    (hf : a.free = t :: ts) :
    k.sysFork img c =
      match Kernel.forkAlloc ((forkBegun img c k t).getPT t) numPagData 0 k.mm with
      | (false, mm) => (.error EAGAIN, forkAbandoned img c k t mm)
      | (true, mm) =>
        let k' := (forkMapped img c k t mm).forkFinish img c t
        (.ok (k'.task t).PID, k') := by
  have hring := h.free
  rw [hf, List.map_cons] at hring
  exact sysFork_of_first c (listEmpty_cons hring) (listFirst_eq hring)

/-- The queues while the child is on neither of them. -/
theorem isRing_forkBegun {t : Task} {ts rs : List Task} (img : Image) (c : ForkCtx)
    (hfree : IsRing k.links .freequeue ((t :: ts).map .task))
    (hready : IsRing k.links .readyqueue (rs.map .task)) (hd : ∀ x ∈ t :: ts, x ∉ rs) :
    IsRing (forkBegun img c k t).links .freequeue (ts.map .task) ∧
      IsRing (forkBegun img c k t).links .readyqueue (rs.map .task) := by
  rw [List.map_cons] at hfree
  have hts : t ∉ ts := by simpa using hfree.notMem_tail
  refine ⟨(isRing_listDel_first hfree).congr fun y hy => forkBegun_links_of_ne c ?_,
    (isRing_listDel_other hready hfree (by simp) (queues_disjoint' hd)).congr
      fun y hy => forkBegun_links_of_ne c ?_⟩
  · rintro rfl
    simp [hts] at hy
  · rintro rfl
    simp [hd t] at hy

/-- **The queues after a fork that has been given up**: the child is the last free task. -/
theorem isRing_forkAbandoned {t : Task} {ts rs : List Task} (img : Image) (c : ForkCtx) (mm : Mm)
    (hfree : IsRing k.links .freequeue ((t :: ts).map .task))
    (hready : IsRing k.links .readyqueue (rs.map .task)) (hd : ∀ x ∈ t :: ts, x ∉ rs) :
    IsRing (forkAbandoned img c k t mm).links .freequeue ((ts ++ [t]).map .task) ∧
      IsRing (forkAbandoned img c k t mm).links .readyqueue (rs.map .task) := by
  have hts : t ∉ ts := by
    rw [List.map_cons] at hfree
    simpa using hfree.notMem_tail
  have htr : t ∉ rs := hd t (by simp)
  obtain ⟨hf, hr⟩ := isRing_forkBegun img c hfree hready hd
  constructor
  · have := isRing_listAddTail (n := Node.task t) hf (by simpa using hts)
    simpa [forkAbandoned] using this
  · refine isRing_listAddTail_other hr hf
      (queues_disjoint' fun x hx => hd x (List.mem_cons_of_mem t hx)) ?_
    simpa using htr

/-- A fork that cannot be completed gives the PCB back. -/
theorem refines_forkAbandoned {t : Task} {ts : List Task} (c : ForkCtx) (mm : Mm)
    (h : Refines k a) (hf : a.free = t :: ts) (hne : a.running ≠ a.idle) :
    Refines (forkAbandoned img c k t mm) a.giveBack := by
  obtain ⟨hfree, hready⟩ := isRing_forkAbandoned img c mm (hf ▸ h.free) h.ready
    fun x hx => disjoint_free_ready h.wf (hf ▸ hx)
  have hw : Wf a.giveBack := h.wf.move .giveBack (Or.inr hne)
  have hgb : a.giveBack = { a with free := ts ++ [t] } := by rw [Sched.giveBack, hf]
  have htr : t ∉ a.ready := disjoint_free_ready h.wf (by simp [hf])
  rw [hgb] at hw ⊢
  refine ⟨hfree, hready, h.current, h.idleTask, fun x hx => ?_, ?_, hw⟩
  · have hxt : x ≠ t := fun he => htr (he ▸ hx)
    exact (congrArg TaskStruct.state (forkBegun_of_ne c hxt)).trans (h.stReady x hx)
  · have hxt : a.running ≠ t := fun he => (running_notMem h.wf).1 (by simp [hf, he])
    exact (congrArg TaskStruct.state (forkBegun_of_ne c hxt)).trans h.stRun

/-- A completed child is ready. -/
theorem refines_forkFinish {t : Task} {ts : List Task} (c : ForkCtx) (mm : Mm)
    (h : Refines k a) (hf : a.free = t :: ts) (hne : a.running ≠ a.idle) :
    Refines ((forkMapped img c k t mm).forkFinish img c t) a.spawn := by
  obtain ⟨hfree, hready⟩ := isRing_forkBegun img c (hf ▸ h.free) h.ready
    fun x hx => disjoint_free_ready h.wf (hf ▸ hx)
  have hw : Wf a.spawn := h.wf.move .spawn (Or.inr hne)
  have hsp : a.spawn = { a with free := ts, ready := a.ready ++ [t] } := by
    rw [Sched.spawn, hf]
  have htr : t ∉ a.ready := disjoint_free_ready h.wf (by simp [hf])
  rw [hsp] at hw ⊢
  have hts : t ∉ ts := fun hm => disjoint_free_ready hw hm (by simp)
  refine ⟨?_, ?_, h.current, h.idleTask, fun x hx => ?_, ?_, hw⟩
  · refine isRing_listAddTail_other hfree hready
      (queues_disjoint fun x hx => disjoint_free_ready h.wf (by simp [hf, hx])) ?_
    simpa using hts
  · have := isRing_listAddTail (n := Node.task t) hready (by simpa using htr)
    simpa [forkFinish_links, forkMapped_links] using this
  · simp only [List.mem_append, List.mem_singleton] at hx
    by_cases hxt : x = t
    · subst hxt
      exact (forkFinish_self c x).2.2.1
    · rw [forkFinish_of_ne c hxt, forkMapped_task]
      exact (congrArg TaskStruct.state (forkBegun_of_ne c hxt)).trans
        (h.stReady x (hx.resolve_right hxt))
  · have hxt : a.running ≠ t := fun he => (running_notMem h.wf).1 (by simp [hf, he])
    rw [forkFinish_of_ne c hxt, forkMapped_task]
    exact (congrArg TaskStruct.state (forkBegun_of_ne c hxt)).trans h.stRun

/-- The move `sys_fork` makes: the child becomes ready, unless a frame is
missing. -/
def forkMove (k : Kernel) : Move :=
  let child := Kernel.listHeadToTaskStruct (listFirst k.links .freequeue)
  if (Kernel.forkAlloc (k.mm.dirPages child).table numPagData 0 k.mm).1 then .spawn else .giveBack

/-- `sys_fork` brings a free task into use, or changes no queue. -/
theorem refines_sysFork (c : ForkCtx) (h : Refines k a) (hne : a.running ≠ a.idle) :
    Refines (k.sysFork img c).2 (a.move (forkMove k)) := by
  cases hf : a.free with
  | nil =>
    have hstay : a.move (forkMove k) = a := by
      rw [forkMove]
      split <;> simp [Sched.move, Sched.spawn, Sched.giveBack, hf]
    rw [sysFork_of_empty c ((listEmpty_freequeue h).mpr hf), hstay]
    exact h
  | cons t ts =>
    have hring := h.free
    rw [hf, List.map_cons] at hring
    have hm : forkMove k = if (Kernel.forkAlloc ((forkBegun img c k t).getPT t) numPagData 0
        k.mm).1 then .spawn else .giveBack := by
      rw [forkMove, listFirst_eq hring, forkBegun_getPT_self]
      rfl
    rw [sysFork_eq c h hf, hm]
    cases Kernel.forkAlloc ((forkBegun img c k t).getPT t) numPagData 0 k.mm with
    | mk ok mm =>
      cases ok with
      | false => exact refines_forkAbandoned c mm h hf hne
      | true => exact refines_forkFinish c mm h hf hne

/-! ### All operations -/

/-- The state in which `clock_routine` calls `schedule`. -/
def ticked (img : Image) (k : Kernel) : Kernel :=
  let k := (k.enter .clockHandler).userToSystem
  { k with
    zeosTicks := wrapInt (k.zeosTicks + 1)
    keyboard := k.keyboard.consume img.afterCharMap }

theorem quiet_ticked : Quiet k (ticked img k) :=
  ((quiet_enter _).trans (quiet_updateStats _ _)).trans (quiet_device _ _)

theorem clockHandler_eq (c : SwitchCtx) :
    k.clockHandler img c = ((ticked img k).schedule img c).leave := rfl

/-- The move an operation makes. -/
def opMove (img : Image) (k : Kernel) : Op → Move
  | .clock _ => tickMove (ticked img k)
  | .fork _ => forkMove k
  | .exit _ => .leave
  | .yield _ => .rotate
  | _ => .stay

/-- `copy_to_user` moves no task. -/
theorem refines_copyToUser (src : Nat → ByteMem.Byte) (dest : ByteMem.Word) (size : Nat)
    (h : Refines k a) : Refines (k.copyToUser src dest size) a := refines_mm _ h

theorem refines_sysGetStats (pid : Int) (st : ByteMem.Word) (h : Refines k a) :
    Refines (k.sysGetStats pid st).2 a := by
  rcases sysGetStats_cases (k := k) pid st with heq | ⟨t, heq⟩
  · rw [heq]
    exact h
  · rw [heq]
    exact refines_copyToUser _ _ _ (refines_quiet (quiet_reported t) h)

theorem refines_sysPollEvent (keyboard : ByteMem.Word) (h : Refines k a) :
    Refines (k.sysPollEvent keyboard).2 a := by
  rcases sysPollEvent_cases (k := k) keyboard with heq | heq
  · rw [heq]
    exact h
  · rw [heq]
    exact refines_copyToUser _ _ _ h

/-- **Every operation of the kernel is a move of the abstract scheduler.** -/
theorem refines_exec {op : Op} (h : Refines k a) (he : Enabled k op) :
    Refines (exec img k op) (a.move (opMove img k op)) := by
  have hin : Refines (k.enter .systemCallHandler) a := refines_quiet (quiet_enter _) h
  have hne : k.current ≠ k.idleTask → a.running ≠ a.idle := by
    rw [h.current, h.idleTask]
    exact id
  cases op with
  | clock c =>
    rw [exec, clockHandler_eq]
    exact refines_quiet quiet_leave (refines_schedule c (refines_quiet quiet_ticked h))
  | keyboard port => exact refines_quiet (quiet_keyboardHandler port) h
  | fork c => exact refines_quiet quiet_leave (refines_sysFork c hin (hne he))
  | exit c => exact refines_quiet quiet_leave (refines_sysExit c hin (hne he))
  | yield c => exact refines_quiet quiet_leave (refines_rotate c hin (hne he))
  | getStats pid st => exact refines_quiet quiet_leave (refines_sysGetStats pid st hin)
  | pollEvent kb => exact refines_quiet quiet_leave (refines_sysPollEvent kb hin)
  | touch page => exact refines_mm _ h

/-! ### Every reachable state -/

/-- **Every reachable state is one of the abstract scheduler.** -/
theorem reachable_refines (h : Reachable img k) : ∃ a, Refines k a := by
  obtain ⟨k₀, -, hr⟩ := h
  refine hr.invariant (P := fun k => ∃ a, Refines k a) ⟨bootSched, refines_boot⟩ ?_
  rintro k op k' ⟨a, ha⟩ ⟨he, rfl⟩
  exact ⟨_, refines_exec ha he⟩

/-- The calls of `update_process_state_rr` that an operation makes, each with the
state it is made in, the task and the queue. -/
def updateCalls (img : Image) (k : Kernel) : Op → List (Kernel × Task × Option Node)
  | .clock _ =>
    let (needed, k) := (ticked img k).updateSchedDataRr.needsSchedRr
    if needed then [(k, k.current, some .readyqueue)] else []
  | .yield _ =>
    let k := k.enter .systemCallHandler
    [(k, k.current, some .readyqueue)]
  | _ => []

/-- The anchor of the task is on one of the queues. -/
def OnQueue (k : Kernel) (t : Task) : Prop :=
  ∃ q l, (q = .freequeue ∨ q = .readyqueue) ∧ IsRing k.links q l ∧ .task t ∈ l

/-- A call of `update_process_state_rr` deletes only an anchor that is on a queue,
and adds only one that is on none. -/
def UpdateSafe (k : Kernel) (t : Task) (dstQueue : Option Node) : Prop :=
  ((k.task t).state ≠ .stRun → OnQueue k t) ∧
    (dstQueue ≠ none → ¬OnQueue (k.leaveQueue t) t)

/-- The running task is on no queue. -/
theorem not_onQueue_current (h : Refines k a) : ¬OnQueue k k.current := by
  obtain ⟨hrf, hrr⟩ := running_notMem h.wf
  rintro ⟨q, l, rfl | rfl, hr, hm⟩
  · rw [hr.unique h.free, task_mem_map, h.current] at hm
    exact hrf hm
  · rw [hr.unique h.ready, task_mem_map, h.current] at hm
    exact hrr hm

/-- Handing the running task to `update_process_state_rr` is safe. -/
theorem updateSafe_current (h : Refines k a) (q : Option Node) : UpdateSafe k k.current q := by
  refine ⟨fun hne => absurd h.current_stRun hne, fun _ => ?_⟩
  rw [Kernel.leaveQueue, if_neg (not_not.mpr h.current_stRun)]
  exact not_onQueue_current h

theorem updateSafe_of_mem {op : Op} {x : Kernel × Task × Option Node} (h : Refines k a)
    (hx : x ∈ updateCalls img k op) : UpdateSafe x.1 x.2.1 x.2.2 := by
  cases op with
  | clock c =>
    have h' : Refines (ticked img k).updateSchedDataRr a :=
      refines_quantum _ (refines_quiet quiet_ticked h)
    rw [updateCalls] at hx
    rcases needsSchedRr_cases (ticked img k).updateSchedDataRr with ⟨heq, -, -⟩ | ⟨r, heq⟩
    · simp only [heq, if_true, List.mem_singleton] at hx
      subst hx
      exact updateSafe_current h' _
    · simp [heq] at hx
  | yield c =>
    simp only [updateCalls, List.mem_singleton] at hx
    subst hx
    exact updateSafe_current (refines_quiet (quiet_enter _) h) _
  | keyboard port => simp [updateCalls] at hx
  | fork c => simp [updateCalls] at hx
  | exit c => simp [updateCalls] at hx
  | getStats pid st => simp [updateCalls] at hx
  | pollEvent kb => simp [updateCalls] at hx
  | touch page => simp [updateCalls] at hx

/-- **The queue partition**: in every reachable state the two queues are rings,
every task is in exactly one place, the states of the PCBs agree with the places,
and whatever happens next, `update_process_state_rr` is only called where it is
safe. -/
theorem queue_partition (h : Reachable img k) :
    ∃ a : Sched Task,
      IsRing k.links .freequeue (a.free.map .task) ∧
      IsRing k.links .readyqueue (a.ready.map .task) ∧
      a.running = k.current ∧ a.idle = k.idleTask ∧
      (∀ t, ∃! p, a.At t p) ∧
      (∀ t ∈ a.ready, (k.task t).state = .stReady) ∧
      (k.task k.current).state = .stRun ∧
      ∀ op, Enabled k op → ∀ x ∈ updateCalls img k op, UpdateSafe x.1 x.2.1 x.2.2 := by
  obtain ⟨a, ha⟩ := reachable_refines h
  refine ⟨a, ha.free, ha.ready, ha.current.symm, ha.idleTask.symm, ha.wf.existsUnique_at,
    ha.stReady, ha.current_stRun, fun op _ x hx => updateSafe_of_mem ha hx⟩

/-- The partition after the first `fork`. -/
theorem queue_partition_fork :
    let k := exec sampleImage (powerOn.boot sampleImage) (.fork sampleFork)
    ∃ a : Sched Task,
      IsRing k.links .freequeue (a.free.map .task) ∧
      IsRing k.links .readyqueue (a.ready.map .task) ∧
      a.running = k.current ∧ a.idle = k.idleTask ∧
      (∀ t, ∃! p, a.At t p) ∧
      (∀ t ∈ a.ready, (k.task t).state = .stReady) ∧
      (k.task k.current).state = .stRun ∧
      ∀ op, Enabled k op → ∀ x ∈ updateCalls sampleImage k op, UpdateSafe x.1 x.2.1 x.2.2 :=
  queue_partition reachable_fork

end Zeos.Game
