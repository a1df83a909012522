import Zeos.Game.Turns

/-!
# Time slices

How long a task of the GAME kernel keeps the processor. `update_sched_data_rr` counts
`remaining_quantum` down, `needs_sched_rr` asks whether it *is* zero, and three
functions set it: `init_task1` and `sched_next_rr` to the quantum of the task that
is to run, `needs_sched_rr` to the one of the task that runs on. That the count never
passes zero rests on `Zeos.Game.Quanta`: every task in use has the default quantum –
a child inherits it from its parent – and the count lies between one and that.

While other tasks are ready, the running task loses the processor when the count
reaches zero, and nothing sets the count anew before that without giving the
processor away; so the ticks a task has had and the ones it still has do not add up
to more than its quantum (`Zeos.Game.Slice`).
-/

namespace Zeos.Game

open CircList RoundRobin X86

variable {k k' : Kernel} {a : Sched Task} {img : Image} {op : Op} {t : Task}

/-! ### The quanta -/

/-- **Every task in use has the default quantum**, and the running one has some of it
left. -/
structure Quanta (k : Kernel) (a : Sched Task) : Prop where
  /-- The tasks in use have the default quantum. -/
  total : ∀ t ∉ a.free, (k.task t).totalQuantum = defaultQuantum
  /-- The count has not run out. -/
  pos : 1 ≤ k.remainingQuantum
  /-- The count does not exceed the quantum. -/
  le : k.remainingQuantum ≤ defaultQuantum

theorem quanta_quiet (hq : Quiet k k') (h : Quanta k a) : Quanta k' a where
  total := fun t ht => (hq.totalQuantum t).trans (h.total t ht)
  pos := hq.remainingQuantum ▸ h.pos
  le := hq.remainingQuantum ▸ h.le

/-- The quanta after boot. -/
theorem quanta_boot : Quanta (k.boot img) bootSched := by
  have htask : ∀ t, (k.boot img).task t =
      (initTask1At img 1 (initIdleAt img 0 (scheduled img k))).task t := fun t => by
    rw [boot_eq]
  have hone : ((initTask1At img 1 (initIdleAt img 0 (scheduled img k))).task 1).totalQuantum =
      defaultQuantum := by
    simp [initTask1At, Kernel.modifyTask, Kernel.allocateDIR, Kernel.initStats, Kernel.getTicks]
  have hrem : (k.boot img).remainingQuantum = defaultQuantum := by
    rw [boot_eq]
    simp [initTask1At, Kernel.modifyTask, Kernel.allocateDIR, Kernel.initStats, Kernel.getTicks]
  refine ⟨fun t ht => ?_, by rw [hrem]; decide, by rw [hrem]⟩
  have ht' : t = 0 ∨ t = 1 := by
    revert ht
    simp only [bootSched]
    revert t
    decide
  rw [htask]
  rcases ht' with rfl | rfl
  · rw [initTask1At_of_ne (by decide)]
    simp [initIdleAt, Kernel.modifyTask, Kernel.allocateDIR, Kernel.initStats, Kernel.getTicks,
      Kernel.setStack, Kernel.setRegisterEsp]
  · exact hone

/-! ### Dispatching -/

/-- A task that is given the processor has its whole quantum. -/
theorem quantum_taskSwitch (c : SwitchCtx) (t : Task) :
    ((k.dispatch t).taskSwitch img c t).remainingQuantum = (k.task t).totalQuantum ∧
      ∀ x, (((k.dispatch t).taskSwitch img c t).task x).totalQuantum =
        (k.task x).totalQuantum := by
  have hq := quiet_dispatch (k := k) t
  exact ⟨hq.remainingQuantum, fun x => (hq.totalQuantum x).trans setState_totalQuantum⟩

/-- `sched_next_rr` sets the count to the quantum of the task it chooses. -/
theorem quantum_schedNextRr (c : SwitchCtx) (h : Queued k a) :
    (k.schedNextRr img c).remainingQuantum = (k.task a.next.running).totalQuantum ∧
      ∀ x, ((k.schedNextRr img c).task x).totalQuantum = (k.task x).totalQuantum := by
  rw [Kernel.schedNextRr, pickNext_eq h]
  cases hr : a.ready with
  | nil =>
    have hnext : a.next.running = a.idle := by simp [Sched.next, hr]
    rw [hnext]
    exact quantum_taskSwitch c a.idle
  | cons t ts =>
    have hnext : a.next.running = t := by simp [Sched.next, hr]
    rw [hnext]
    exact quantum_taskSwitch (k := { k with links := listDel k.links .null (.task t) }) c t

/-- **Dispatching keeps the quanta**: the chosen task is one in use. -/
theorem quanta_schedNextRr (c : SwitchCtx) (h : Queued k a) (hw : Wf a.next)
    (ht : ∀ t ∉ a.free, (k.task t).totalQuantum = defaultQuantum) :
    Quanta (k.schedNextRr img c) a.next := by
  obtain ⟨hrem, htot⟩ := @quantum_schedNextRr k a img c h
  have hrun : a.next.running ∉ a.free := by
    rw [← next_free]
    exact (running_notMem hw).1
  rw [ht _ hrun] at hrem
  refine ⟨fun t hf => ?_, ?_, hrem.le⟩
  · rw [next_free] at hf
    rw [htot, ht t hf]
  · rw [hrem]
    decide

/-- Giving the processor away keeps the quanta. -/
theorem quanta_rotate (c : SwitchCtx) (h : Refines k a)
    (ht : ∀ t ∉ a.free, (k.task t).totalQuantum = defaultQuantum) (hne : a.running ≠ a.idle) :
    Quanta ((k.updateProcessStateRr k.current (some .readyqueue)).schedNextRr img c)
      a.rotate := by
  refine quanta_schedNextRr c (queued_rotate h) (h.wf.move .rotate (Or.inr hne)) fun t hf => ?_
  rw [(quiet_requeue h.current_stRun).totalQuantum, requeued, setState_totalQuantum]
  exact ht t hf

/-- Ending a process keeps the quanta. -/
theorem quanta_sysExit (c : SwitchCtx) (h : Refines k a) (hq : Quanta k a)
    (hne : a.running ≠ a.idle) : Quanta (k.sysExit img c) a.leave := by
  rw [sysExit_eq]
  refine quanta_schedNextRr c (queued_exited h) (h.wf.move .leave (Or.inr hne)) fun t hf => ?_
  have htot : ((exited k).task t).totalQuantum = (k.task t).totalQuantum :=
    modifyTask_field TaskStruct.totalQuantum fun _ => rfl
  rw [htot]
  exact hq.total t fun hm => hf (List.mem_append_left _ hm)

/-! ### The clock -/

/-- The count after one tick. -/
theorem updateSchedDataRr_remaining (h : Quanta k a) :
    k.updateSchedDataRr.remainingQuantum = k.remainingQuantum - 1 := by
  have h1 := h.pos
  have h2 := h.le
  simp only [defaultQuantum] at h2
  exact wrapInt_of_lt (by omega) (by omega)

/-- **A tick keeps the quanta.** A count of zero is never left behind: either the
next task is dispatched with its quantum, or the running one gets a new one. -/
theorem quanta_schedule (c : SwitchCtx) (h : Refines k a) (hq : Quanta k a) :
    Quanta (k.schedule img c) (a.move (tickMove k)) := by
  have h' : Refines k.updateSchedDataRr a := refines_quantum _ h
  have hrem := updateSchedDataRr_remaining hq
  have hrun : k.updateSchedDataRr.getQuantum k.updateSchedDataRr.current = defaultQuantum := by
    have hcur : k.updateSchedDataRr.current = a.running := h.current
    rw [hcur]
    exact hq.total _ (running_notMem h.wf).1
  rw [Kernel.schedule, tickMove]
  rcases needsSchedRr_spec k.updateSchedDataRr with ⟨heq, -, hemp⟩ | ⟨heq, -, -⟩ | ⟨heq, h0⟩
  · rw [heq]
    have hne : a.running ≠ a.idle := fun hri => by
      rw [(listEmpty_readyqueue h').mpr (h.wf.idle_alone hri)] at hemp
      simp at hemp
    exact quanta_rotate c h' hq.total hne
  · rw [heq]
    refine ⟨hq.total, ?_, hrun.le⟩
    change 1 ≤ k.updateSchedDataRr.getQuantum _
    rw [hrun]
    decide
  · rw [heq]
    have h1 := hq.pos
    have h2 := hq.le
    have hne : k.remainingQuantum - 1 ≠ 0 := hrem ▸ h0
    refine ⟨hq.total, ?_, ?_⟩
    · change 1 ≤ k.updateSchedDataRr.remainingQuantum
      omega
    · change k.updateSchedDataRr.remainingQuantum ≤ defaultQuantum
      omega

/-- A tick that does not hand the processor over, while others wait, counts down. -/
theorem quantum_schedule (c : SwitchCtx) (h : Refines k a) (hq : Quanta k a)
    (hr : a.ready ≠ []) (hm : tickMove k ≠ .rotate) :
    (k.schedule img c).remainingQuantum = k.remainingQuantum - 1 := by
  have h' : Refines k.updateSchedDataRr a := refines_quantum _ h
  rw [tickMove] at hm
  rw [Kernel.schedule]
  rcases needsSchedRr_spec k.updateSchedDataRr with ⟨heq, -, -⟩ | ⟨-, -, hemp⟩ | ⟨heq, -⟩
  · simp [heq] at hm
  · exact absurd ((listEmpty_readyqueue h').mp hemp) hr
  · rw [heq]
    exact updateSchedDataRr_remaining hq

/-! ### `sys_fork` -/

theorem remainingQuantum_sysFork (c : ForkCtx) :
    (k.sysFork img c).2.remainingQuantum = k.remainingQuantum := by
  unfold Kernel.sysFork
  split
  · rfl
  · dsimp only
    split <;> rfl

/-- **A child inherits the quantum of its parent**, and a PCB that is given back is
free. -/
theorem quanta_sysFork (c : ForkCtx) (h : Refines k a) (hq : Quanta k a) :
    Quanta (k.sysFork img c).2 (a.move (forkMove k)) := by
  have hrem := @remainingQuantum_sysFork k img c
  refine ⟨fun t ht => ?_, hrem ▸ hq.pos, hrem ▸ hq.le⟩
  have hcur : (k.task k.current).totalQuantum = defaultQuantum := by
    rw [h.current]
    exact hq.total _ (running_notMem h.wf).1
  cases hf : a.free with
  | nil =>
    rw [sysFork_of_empty c ((listEmpty_freequeue h).mpr hf)]
    exact hq.total t (by simp [hf])
  | cons x ts =>
    have hring := h.free
    rw [hf, List.map_cons] at hring
    rw [forkMove, listFirst_eq hring] at ht
    rw [sysFork_eq c h hf, forkBegun_getPT_self]
    cases hal : Kernel.forkAlloc (k.mm.dirPages x).table numPagData 0 k.mm with
    | mk ok mm =>
      simp only [Kernel.listHeadToTaskStruct, hal] at ht
      cases ok with
      | false =>
        have hta : t ∉ a.free := notMem_of_giveBack hf ht
        have htx : t ≠ x := fun he => hta (by simp [hf, he])
        exact (congrArg TaskStruct.totalQuantum (forkBegun_of_ne c htx)).trans (hq.total t hta)
      | true =>
        by_cases htx : t = x
        · subst htx
          refine (forkFinish_self c t).2.2.2.trans ?_
          rw [forkMapped_task, forkBegun_self]
          exact hcur
        · refine (congrArg TaskStruct.totalQuantum (forkFinish_of_ne c htx)).trans ?_
          rw [forkMapped_task, forkBegun_of_ne c htx]
          exact hq.total t (notMem_of_spawn hf htx ht)

/-! ### All operations -/

theorem quanta_sysGetStats (pid : Int) (st : ByteMem.Word) (h : Quanta k a) :
    Quanta (k.sysGetStats pid st).2 a := by
  rcases sysGetStats_cases (k := k) pid st with heq | ⟨t, heq⟩
  · rw [heq]
    exact h
  · have hr : Quanta (reported k t) a := quanta_quiet (quiet_reported t) h
    rw [heq]
    exact ⟨hr.total, hr.pos, hr.le⟩

theorem quanta_sysPollEvent (keyboard : ByteMem.Word) (h : Quanta k a) :
    Quanta (k.sysPollEvent keyboard).2 a := by
  rcases sysPollEvent_cases (k := k) keyboard with heq | heq
  · rw [heq]
    exact h
  · rw [heq]
    exact ⟨h.total, h.pos, h.le⟩

/-- **Every operation keeps the quanta.** -/
theorem quanta_exec (h : Refines k a) (hq : Quanta k a) (he : Enabled k op) :
    Quanta (exec img k op) (a.move (opMove img k op)) := by
  have hin : Refines (k.enter .systemCallHandler) a := refines_quiet (quiet_enter _) h
  have hqin : Quanta (k.enter .systemCallHandler) a := quanta_quiet (quiet_enter _) hq
  have hne : k.current ≠ k.idleTask → a.running ≠ a.idle := by
    rw [h.current, h.idleTask]
    exact id
  cases op with
  | clock c =>
    rw [exec, clockHandler_eq]
    exact quanta_quiet quiet_leave
      (quanta_schedule c (refines_quiet quiet_ticked h) (quanta_quiet quiet_ticked hq))
  | keyboard port => exact quanta_quiet (quiet_keyboardHandler port) hq
  | fork c => exact quanta_quiet quiet_leave (quanta_sysFork c hin hqin)
  | exit c => exact quanta_quiet quiet_leave (quanta_sysExit c hin hqin (hne he))
  | yield c => exact quanta_quiet quiet_leave (quanta_rotate c hin hqin.total (hne he))
  | getStats pid st => exact quanta_quiet quiet_leave (quanta_sysGetStats pid st hqin)
  | pollEvent kb => exact quanta_quiet quiet_leave (quanta_sysPollEvent kb hqin)
  | touch page => exact ⟨hq.total, hq.pos, hq.le⟩

/-- **Every reachable state has its quanta.** -/
theorem reachable_quanta (h : Reachable img k) : ∃ a, Refines k a ∧ Quanta k a := by
  obtain ⟨k₀, -, hr⟩ := h
  refine hr.invariant (P := fun k => ∃ a, Refines k a ∧ Quanta k a)
    ⟨bootSched, refines_boot, quanta_boot⟩ ?_
  rintro k op k' ⟨a, ha, hq⟩ ⟨he, rfl⟩
  exact ⟨_, refines_exec ha he, quanta_exec ha hq he⟩

/-! ### Slices -/

/-- Whether an operation is a clock tick. -/
def Op.isClock : Op → Bool
  | .clock _ => true
  | _ => false

/-- The clock ticks of a run. -/
def clockTicks (hist : List (Kernel × Op)) : Nat := hist.countP fun x => x.2.isClock

theorem clockTicks_snoc {hist : List (Kernel × Op)} :
    clockTicks (hist ++ [(k, op)]) = clockTicks hist + if op.isClock then 1 else 0 := by
  rw [clockTicks, List.countP_append, List.countP_singleton]
  rfl

/-- **What an operation does to the count** when it does not hand the processor over
while others wait: a tick takes one off. -/
theorem quantum_exec (h : Refines k a) (hq : Quanta k a) (hr : a.ready ≠ [])
    (hrot : opMove img k op ≠ .rotate) (hlv : opMove img k op ≠ .leave) :
    (exec img k op).remainingQuantum =
      k.remainingQuantum - ((if op.isClock then 1 else 0 : Nat) : Int) := by
  cases op with
  | clock c =>
    rw [exec, clockHandler_eq, quiet_leave.remainingQuantum]
    refine (quantum_schedule c (refines_quiet quiet_ticked h) (quanta_quiet quiet_ticked hq) hr
      hrot).trans ?_
    rw [(@quiet_ticked _ img).remainingQuantum]
    rfl
  | keyboard port => exact (quiet_keyboardHandler port).remainingQuantum.trans (Int.sub_zero _).symm
  | fork c =>
    refine quiet_leave.remainingQuantum.trans ?_
    rw [remainingQuantum_sysFork]
    exact (Int.sub_zero _).symm
  | exit c => exact absurd rfl hlv
  | yield c => exact absurd rfl hrot
  | getStats pid st =>
    refine quiet_leave.remainingQuantum.trans ?_
    rcases sysGetStats_cases (k := k.enter .systemCallHandler) pid st with heq | ⟨t, heq⟩
    · rw [heq]
      exact (Int.sub_zero _).symm
    · rw [heq]
      exact (Int.sub_zero _).symm
  | pollEvent kb =>
    refine quiet_leave.remainingQuantum.trans ?_
    rcases sysPollEvent_cases (k := k.enter .systemCallHandler) kb with heq | heq
    · rw [heq]
      exact (Int.sub_zero _).symm
    · rw [heq]
      exact (Int.sub_zero _).symm
  | touch page => exact (Int.sub_zero _).symm

/-- **A slice after `n` ticks**: while its task keeps the processor and another one is
ready, the ticks it has had and those it has left are one quantum at most. -/
structure Slice (p : Task) (n : Nat) (k : Kernel) (a : Sched Task) : Prop where
  /-- No more ticks than the quantum. -/
  le : (n : Int) ≤ defaultQuantum
  /-- Others are waiting from the first tick on. -/
  waiting : k.current = p → n ≠ 0 → a.ready ≠ []
  /-- The ticks had and the ticks left. -/
  sum : k.current = p → n ≠ 0 → n + k.remainingQuantum ≤ defaultQuantum

/-- One step of a slice. -/
theorem slice_exec {n : Nat} (h : Refines k a) (hq : Quanta k a) (he : Enabled k op)
    (hs : Slice k.current n k a)
    (hc : op.isClock → listEmpty k.links .readyqueue = false) :
    Slice k.current (n + if op.isClock then 1 else 0) (exec img k op)
      (a.move (opMove img k op)) := by
  have hexec : Refines (exec img k op) (a.move (opMove img k op)) := refines_exec h he
  have hpos := hq.pos
  have hle := hq.le
  have hbound : (n : Int) + k.remainingQuantum ≤ defaultQuantum := by
    by_cases hn : n = 0
    · subst hn
      simpa using hle
    · exact hs.sum rfl hn
  have hready : n + (if op.isClock then 1 else 0) ≠ 0 → a.ready ≠ [] := by
    intro hn
    by_cases hcl : op.isClock = true
    · intro hemp
      rw [(listEmpty_readyqueue h).mpr hemp] at hc
      simpa using hc hcl
    · rw [if_neg hcl] at hn
      exact hs.waiting rfl hn
  have hkeep : (exec img k op).current = k.current → (a.move (opMove img k op)).running =
      a.running := fun hcur => by
    rw [← hexec.current, hcur, h.current]
  refine ⟨?_, fun hcur hn => ?_, fun hcur hn => ?_⟩
  · split <;> push_cast <;> omega
  · exact (h.wf.keeps_running (hready hn) _ (hkeep hcur)).2.2
  · obtain ⟨hrot, hlv, -⟩ := h.wf.keeps_running (hready hn) _ (hkeep hcur)
    rw [quantum_exec h hq (hready hn) hrot hlv]
    push_cast
    omega

/-- **Time slices are bounded**: the count is never zero between two operations and
never more than a quantum, so the countdown cannot pass zero; and a task that keeps the
processor while others are ready does so for no more ticks than its quantum. -/
theorem time_slice (h : Reachable img k) :
    1 ≤ k.remainingQuantum ∧ k.remainingQuantum ≤ defaultQuantum ∧
      0 ≤ k.updateSchedDataRr.remainingQuantum ∧
      ∀ hist k', Transition.Path (Step img) k hist k' →
        (∀ x ∈ hist, x.1.current = k.current ∧
          (x.2.isClock → listEmpty x.1.links .readyqueue = false)) →
        (clockTicks hist : Int) ≤ (k.task k.current).totalQuantum := by
  obtain ⟨a, ha, hq⟩ := reachable_quanta h
  have hrem := updateSchedDataRr_remaining hq
  have hpos := hq.pos
  refine ⟨hq.pos, hq.le, by omega, fun hist k' hp hC => ?_⟩
  have htot : (k.task k.current).totalQuantum = defaultQuantum := by
    rw [ha.current]
    exact hq.total _ (running_notMem ha.wf).1
  rw [htot]
  have key : ∃ a', Refines k' a' ∧ Quanta k' a' ∧ Slice k.current (clockTicks hist) k' a' := by
    refine hp.invariant_of_forall (C := fun s op => s.current = k.current ∧
        (op.isClock → listEmpty s.links .readyqueue = false))
      (P := fun hist s => ∃ a', Refines s a' ∧ Quanta s a' ∧
        Slice k.current (clockTicks hist) s a') hC ?_ ?_
    · exact ⟨a, ha, hq, by decide, fun _ hn => absurd rfl hn, fun _ hn => absurd rfl hn⟩
    · rintro hist s op s' - ⟨b, hb, hqb, hs⟩ ⟨hcur, hcl⟩ ⟨he, rfl⟩
      rw [← hcur] at hs ⊢
      rw [clockTicks_snoc]
      exact ⟨_, refines_exec hb he, quanta_exec hb hqb he, slice_exec hb hqb he hs hcl⟩
  obtain ⟨a', -, -, hs⟩ := key
  exact hs.le

/-- A tick of the first process while its child is ready. -/
theorem time_slice_fork :
    let k := exec sampleImage (powerOn.boot sampleImage) (.fork sampleFork)
    listEmpty k.links .readyqueue = false ∧ 1 ≤ k.remainingQuantum ∧
      (clockTicks [(k, .clock sampleSwitch)] : Int) ≤ (k.task k.current).totalQuantum := by
  intro k
  have hready : listEmpty k.links .readyqueue = false := by
    rw [Bool.eq_false_iff, Ne, listEmpty_readyqueue refines_fork]
    exact List.cons_ne_nil _ _
  have hp : Transition.Path (Step sampleImage) k [(k, .clock sampleSwitch)]
      (exec sampleImage k (.clock sampleSwitch)) := Transition.Path.nil.snoc ⟨trivial, rfl⟩
  obtain ⟨hpos, -, -, hrun⟩ := time_slice reachable_fork
  refine ⟨hready, hpos, hrun _ _ hp fun x hx => ?_⟩
  obtain rfl := List.mem_singleton.mp hx
  exact ⟨rfl, fun _ => hready⟩

end Zeos.Game
