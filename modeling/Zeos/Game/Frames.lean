import Zeos.Game.Owned

/-!
# Frames in every reachable state

The processes in use are those that are neither on the free queue nor the idle
task. `Zeos.Game.Frames` says that bytemap and page tables agree for them, that
every task but the free ones has its own directory, that the directory of the
running task is loaded and that no cached translation is stale; every operation
keeps it (`Zeos.Game.frames_exec`). What follows is the ownership of frames
(`Zeos.Game.frame_ownership`), and that `sys_fork` never fails for lack of frames
(`Zeos.Game.fork_never_out_of_frames`).
-/

namespace Zeos.Game

open ByteMem CircList Loop Paging RoundRobin X86

variable {k k' : Kernel} {a : Sched Task} {img : Image}

/-! ### The invariant -/

/-- A slot that holds a user process. -/
def InUse (a : Sched Task) (t : Task) : Prop := t ∉ a.free ∧ t ≠ a.idle

instance : DecidablePred (InUse a) := fun _ => inferInstanceAs (Decidable (_ ∧ _))

/-- **Frames, page tables, directories and the translation cache agree.** -/
structure Frames (k : Kernel) (a : Sched Task) : Prop where
  /-- Frames belong to the processes in use. -/
  owned : Owned k.mm (InUse a)
  /-- A task that is not free has the directory of its slot. -/
  dir : ∀ t, t ∉ a.free → (k.task t).dirPagesBaseAddr = t
  /-- The directory of the running task is loaded. -/
  cr3 : k.mm.cr3 = a.running
  /-- The cache is up to date. -/
  fresh : Mmu.Fresh (k.mm.pagusrTable a.running) k.mm.mmu

/-- The page table of a task that is not free is that of its slot. -/
theorem getPT_eq (h : Frames k a) {t : Task} (ht : t ∉ a.free) : k.getPT t = t := by
  rw [Kernel.getPT, Kernel.getDIR, h.dir t ht, h.owned.table]

theorem activeTable_eq (h : Frames k a) : k.mm.activeTable = a.running := by
  rw [Mm.activeTable, h.cr3, h.owned.table]

theorem frames_quiet (hq : Quiet k k') (h : Frames k a) : Frames k' a where
  owned := hq.mm.symm ▸ h.owned
  dir := fun t ht => (hq.dir t).trans (h.dir t ht)
  cr3 := hq.mm.symm ▸ h.cr3
  fresh := hq.mm.symm ▸ h.fresh

/-- A change of memory contents and cache that leaves the cache up to date. -/
theorem frames_mmu {s : Mmu} (h : Frames k a)
    (hs : Mmu.Fresh (k.mm.pagusrTable a.running) s) :
    Frames { k with mm := { k.mm with mmu := s } } a where
  owned := owned_congr h.owned rfl rfl rfl fun _ => Iff.rfl
  dir := h.dir
  cr3 := h.cr3
  fresh := hs

theorem frames_boot : Frames (k.boot img) bootSched where
  owned := by
    rw [boot_mm]
    refine owned_congr owned_boot rfl rfl rfl fun t => ?_
    revert t
    decide
  dir := by
    intro t ht
    refine boot_dir ?_
    revert t
    decide
  cr3 := by
    rw [boot_mm]
    rfl
  fresh := by
    rw [boot_mm]
    exact Mmu.fresh_flush

/-! ### Dispatching -/

/-- `sched_next_rr` loads the directory of the next task. -/
theorem frames_schedNextRr (c : SwitchCtx) (hq : Queued k a) (hw : Wf a.next)
    (ho : Owned k.mm (InUse a.next))
    (hd : ∀ t, t ∉ a.next.free → (k.task t).dirPagesBaseAddr = t) :
    Frames (k.schedNextRr img c) a.next := by
  obtain ⟨hmm, -, -, -, hdir⟩ := schedNextRr_spec img c hq
  have hrun := hd _ (running_notMem hw).1
  rw [hrun] at hmm
  refine ⟨?_, fun t ht => (hdir t).trans (hd t ht), ?_, ?_⟩
  · rw [hmm]
    exact owned_congr ho rfl rfl rfl fun _ => Iff.rfl
  · rw [hmm]
    rfl
  · rw [hmm]
    exact Mmu.fresh_flush

theorem inUse_next {t : Task} : InUse a.next t ↔ InUse a t := by
  rw [InUse, InUse, next_free, next_idle]

theorem frames_rotate (c : SwitchCtx) (hr : Refines k a) (h : Frames k a)
    (hne : a.running ≠ a.idle) :
    Frames ((k.updateProcessStateRr k.current (some .readyqueue)).schedNextRr img c)
      a.rotate := by
  have hq := quiet_requeue hr.current_stRun
  refine frames_schedNextRr c (queued_rotate hr) (hr.wf.move .rotate (Or.inr hne)) ?_ fun t ht => ?_
  · rw [hq.mm]
    exact owned_congr h.owned rfl rfl rfl fun t => inUse_next
  · rw [next_free] at ht
    exact (hq.dir t).trans (setState_dir.trans (h.dir t ht))

theorem frames_schedule (c : SwitchCtx) (hr : Refines k a) (h : Frames k a) :
    Frames (k.schedule img c) (a.move (tickMove k)) := by
  have hr' : Refines k.updateSchedDataRr a := refines_quantum _ hr
  have h' : Frames k.updateSchedDataRr a := ⟨h.owned, h.dir, h.cr3, h.fresh⟩
  rw [Kernel.schedule, tickMove]
  rcases needsSchedRr_cases k.updateSchedDataRr with ⟨heq, -, hemp⟩ | ⟨r, heq⟩
  · rw [heq]
    have hne : a.running ≠ a.idle := fun hri => by
      rw [(listEmpty_readyqueue hr').mpr (hr.wf.idle_alone hri)] at hemp
      simp at hemp
    exact frames_rotate c hr' h' hne
  · rw [heq]
    exact ⟨h.owned, h.dir, h.cr3, h.fresh⟩

/-! ### `sys_exit` -/

theorem frames_sysExit (c : SwitchCtx) (hr : Refines k a) (h : Frames k a)
    (hne : a.running ≠ a.idle) : Frames (k.sysExit img c) a.leave := by
  obtain ⟨hrf, -⟩ := running_notMem hr.wf
  have hpt : k.getPT k.current = a.running := by
    rw [hr.current]
    exact getPT_eq h hrf
  rw [sysExit_eq]
  refine frames_schedNextRr (a := { a with free := a.free ++ [a.running] }) c
    (queued_exited hr) (hr.wf.move .leave (Or.inr hne)) ?_ fun t ht => ?_
  · have := owned_exitFree h.owned ⟨hrf, hne⟩
    refine owned_congr this (by rw [exited_mm, hpt]) (by rw [exited_mm, hpt])
      (by rw [exited_mm, hpt]) fun t => ?_
    rw [inUse_next]
    simp only [InUse, List.mem_append, List.mem_singleton, not_or]
    exact ⟨fun ⟨⟨h1, h2⟩, h3⟩ => ⟨⟨h1, h3⟩, h2⟩, fun ⟨⟨h1, h3⟩, h2⟩ => ⟨⟨h1, h2⟩, h3⟩⟩
  · rw [next_free] at ht
    simp only [List.mem_append, not_or] at ht
    exact exited_dir.trans (h.dir t ht.1)

/-! ### `sys_fork` -/

/-- The loop that copies the data pages, on consecutive pages and windows. -/
theorem forkCopy_eq {parent child : Task} {mm : Mm} :
    Kernel.forkCopy child parent mm =
      forLoop numPagData (fun i mm => mm.copyThrough parent (userLayout.pagLogInitData + i)
        (userLayout.pagLogInitData + numPagData + i)
        (mm.getFrame child (userLayout.pagLogInitData + i))) mm := by
  have hsrc : numPagKernel + numPagCode = userLayout.pagLogInitData := rfl
  simp only [Kernel.forkCopy, hsrc, Nat.add_right_comm userLayout.pagLogInitData _ numPagData]

/-- **The data pages of the child are copies of the parent's**, and the copy
touches nothing but the child's frames and the translation cache. -/
theorem forkCopy_spec {child : Task} {fs : List Nat} (hr : Refines k a) (h : Frames k a)
    (hne : a.running ≠ a.idle) (hchild : child ∈ a.free) (hlen : fs.length = numPagData)
    (hnd : fs.Nodup) (hfree : ∀ f ∈ fs, Slot f ∧ k.mm.physMem f = .freeFrame) :
    ∃ s, Kernel.forkCopy child a.running (forkTabled k.mm a.running child fs) =
        { forkTabled k.mm a.running child fs with mmu := s } ∧
      WindowCopied (k.mm.pagusrTable a.running) userLayout.pagLogInitData
        (userLayout.pagLogInitData + numPagData) numPagData
        (fun i => (dataEntry k.mm a.running i).base) (fun i => fs.getD i 0) k.mm.mmu numPagData
        s := by
  obtain ⟨hrf, -⟩ := running_notMem hr.wf
  have hU : InUse a a.running := ⟨hrf, hne⟩
  have hcr : a.running ≠ child := fun he => hrf (he ▸ hchild)
  have htab : (forkTabled k.mm a.running child fs).pagusrTable a.running =
      k.mm.pagusrTable a.running := setTable_of_ne hcr
  have hget : ∀ i < numPagData, fs.getD i 0 ∈ fs := by
    intro i hi
    rw [List.getD_eq_getElem _ _ (by omega)]
    exact List.getElem_mem _
  have hzero : ∀ i < numPagData, k.mm.pagusrTable a.running
      (userLayout.pagLogInitData + numPagData + i) = Entry.zero := h.owned.window a.running
  have key := forLoop_copyThrough (forkTabled k.mm a.running child fs) a.running
    userLayout.pagLogInitData (userLayout.pagLogInitData + numPagData) numPagData
    (fun i => (dataEntry k.mm a.running i).base) (fun i => fs.getD i 0)
    (fun i mm => mm.getFrame child (userLayout.pagLogInitData + i)) ?_ ?_ ?_ ?_ ?_ ?_ ?_ ?_
  · rw [htab] at key
    rw [forkCopy_eq]
    exact key
  · intro i hi s
    have hd : childTable k.mm a.running child fs (userLayout.pagLogInitData + i) =
        ssEntry (fs.getD i 0 : Nat) := childTable_data hlen hi
    change (((forkTabled k.mm a.running child fs).pagusrTable child
      (userLayout.pagLogInitData + i)).base : Int) = _
    rw [forkTabled]
    simp only [setTable_self]
    rw [hd, ssEntry_base (hfree _ (hget i hi)).1.2.1]
  · exact activeTable_eq h
  · intro i hi
    rw [htab]
    exact h.fresh.maps (h.owned.mapped _ hU i hi)
  · intro i hi
    rw [htab]
    refine ⟨hzero i hi, h.fresh.tlb_eq_none ?_⟩
    rw [hzero i hi]
    rfl
  · exact Nat.le_refl _
  · intro i hi
    have := (hfree _ (hget i hi)).1.2.1
    unfold totalPages at this
    omega
  · intro i hi j hj heq
    rw [List.getD_eq_getElem _ _ (by omega), List.getD_eq_getElem _ _ (by omega)] at heq
    exact (List.Nodup.getElem_inj_iff hnd).mp heq
  · intro i hi j hj heq
    have hu := h.owned.used _ hU i hi
    rw [heq, (hfree _ (hget j hj)).2] at hu
    exact absurd hu (by simp)

/-- The frames a fork takes. -/
def forkFrames (mm : Mm) : List Nat := (freeSlots mm.physMem).take numPagData

theorem length_forkFrames (h : Frames k a) : (forkFrames k.mm).length = numPagData := by
  rw [forkFrames, List.length_take]
  exact Nat.min_eq_left (numPagData_le_freeSlots h.owned)

theorem nodup_forkFrames : (forkFrames k.mm).Nodup :=
  nodup_freeSlots.sublist (List.take_sublist _ _)

theorem mem_forkFrames {f : Nat} (hf : f ∈ forkFrames k.mm) :
    Slot f ∧ k.mm.physMem f = .freeFrame := mem_freeSlots.mp (List.mem_of_mem_take hf)

/-- **`sys_fork` succeeds when there is a free PCB.** -/
theorem sysFork_eq_ok {t : Task} {ts : List Task} (c : ForkCtx) (hr : Refines k a)
    (h : Frames k a) (hf : a.free = t :: ts) :
    k.sysFork img c =
      let mm := k.mm.grant t userLayout.pagLogInitData (forkFrames k.mm) ssEntry
      let k' := (forkMapped img c k t mm).forkFinish img c t
      (.ok (k'.task t).PID, k') := by
  rw [sysFork_eq c hr hf, forkBegun_getPT_self, h.owned.table,
    forkAlloc_eq _ _ _ _ (numPagData_le_freeSlots h.owned)]
  rfl

/-- The memory management a fork leaves behind. -/
theorem forkMapped_mm {t : Task} (img : Image) (c : ForkCtx) (hr : Refines k a) (h : Frames k a)
    (ht : t ∈ a.free) :
    (forkMapped img c k t
        (k.mm.grant t userLayout.pagLogInitData (forkFrames k.mm) ssEntry)).mm =
      (Kernel.forkCopy t a.running (forkTabled k.mm a.running t (forkFrames k.mm))).setCr3
        a.running := by
  obtain ⟨hrf, -⟩ := running_notMem hr.wf
  have hne : a.running ≠ t := fun he => hrf (he ▸ ht)
  have hcur : (forkBegun img c k t).current = a.running := hr.current
  have hdir : (forkBegun img c k t).getDIR a.running = a.running := by
    rw [Kernel.getDIR, forkBegun_of_ne c hne, h.dir _ hrf]
  have hpt : (forkBegun img c k t).getPT a.running = a.running := by
    rw [Kernel.getPT, hdir]
    exact h.owned.table _
  rw [forkMapped]
  simp only [hcur, forkBegun_getPT_self, h.owned.table, hdir, hpt, forkShare_eq hne]

theorem forkFinish_mm (c : ForkCtx) (t : Task) : (k.forkFinish img c t).mm = k.mm := rfl

theorem inUse_spawn {t x : Task} {ts : List Task} (hw : Wf a) (hf : a.free = t :: ts) :
    InUse a.spawn x ↔ InUse a x ∨ x = t := by
  have hti : t ≠ a.idle := fun he => idle_notMem_free hw (by simp [hf, he])
  have hnd := nodup_free hw
  rw [hf, List.nodup_cons] at hnd
  simp only [InUse, Sched.spawn, hf, List.mem_cons, not_or]
  constructor
  · rintro ⟨h1, h2⟩
    by_cases hx : x = t
    · exact Or.inr hx
    · exact Or.inl ⟨⟨hx, h1⟩, h2⟩
  · rintro (⟨⟨-, h1⟩, h2⟩ | rfl)
    · exact ⟨h1, h2⟩
    · exact ⟨hnd.1, hti⟩

theorem frames_forkFinish {t : Task} {ts : List Task} (c : ForkCtx) (hr : Refines k a)
    (h : Frames k a) (hf : a.free = t :: ts) (hne : a.running ≠ a.idle) :
    Frames ((forkMapped img c k t
      (k.mm.grant t userLayout.pagLogInitData (forkFrames k.mm) ssEntry)).forkFinish img c t)
      a.spawn := by
  obtain ⟨hrf, -⟩ := running_notMem hr.wf
  have ht : t ∈ a.free := by simp [hf]
  obtain ⟨s, hs, -⟩ := forkCopy_spec hr h hne ht (length_forkFrames h) nodup_forkFrames
    fun f => mem_forkFrames
  have hmm := forkMapped_mm img c hr h ht
  rw [hs] at hmm
  have hrun : a.spawn.running = a.running := by simp [Sched.spawn, hf]
  refine ⟨?_, fun x hx => ?_, ?_, ?_⟩
  · rw [forkFinish_mm, hmm]
    refine owned_congr (owned_forkTabled h.owned ⟨hrf, hne⟩ (fun hU => hU.1 ht)
      (length_forkFrames h) nodup_forkFrames fun f => mem_forkFrames) rfl rfl rfl
      fun x => inUse_spawn hr.wf hf
  · by_cases hxt : x = t
    · subst hxt
      rw [(forkFinish_self c x).2.1, forkMapped_task, forkBegun_self]
    · rw [forkFinish_of_ne c hxt, forkMapped_task, forkBegun_of_ne c hxt]
      refine h.dir x ?_
      simp only [Sched.spawn, hf] at hx
      simp [hf, hxt, hx]
  · rw [forkFinish_mm, hmm, hrun]
    rfl
  · rw [forkFinish_mm, hmm]
    exact Mmu.fresh_flush

/-- A fork of a reachable state is a spawn. -/
theorem forkMove_eq (h : Frames k a) : a.move (forkMove k) = a.spawn := by
  have : forkMove k = .spawn := by
    simp only [forkMove, h.owned.table, forkAlloc_eq _ _ _ _ (numPagData_le_freeSlots h.owned)]
    rfl
  rw [this]
  rfl

theorem frames_sysFork (c : ForkCtx) (hr : Refines k a) (h : Frames k a)
    (hne : a.running ≠ a.idle) : Frames (k.sysFork img c).2 (a.move (forkMove k)) := by
  rw [forkMove_eq h]
  cases hf : a.free with
  | nil =>
    rw [sysFork_of_empty c ((listEmpty_freequeue hr).mpr hf)]
    have : a.spawn = a := by simp [Sched.spawn, hf]
    rw [this]
    exact h
  | cons t ts =>
    rw [sysFork_eq_ok c hr h hf]
    exact frames_forkFinish c hr h hf hne

/-! ### All operations -/

/-- `copy_to_user` keeps the cache up to date. -/
theorem frames_copyToUser (src : Nat → Byte) (dest : Word) (size : Nat) (h : Frames k a) :
    Frames (k.copyToUser src dest size) a := by
  refine frames_mmu h ?_
  rw [activeTable_eq h]
  refine copyData_induction (I := fun _ s => Mmu.Fresh (k.mm.pagusrTable a.running) s)
    (Int.natCast_nonneg size) h.fresh ?_ ?_
  · intro o s hs _
    exact hs.storeByte.storeByte.storeByte.storeByte
  · intro o s hs _
    exact hs.storeByte

theorem frames_sysGetStats (pid : Int) (st : Word) (h : Frames k a) :
    Frames (k.sysGetStats pid st).2 a := by
  rcases sysGetStats_cases (k := k) pid st with heq | ⟨t, heq⟩
  · rw [heq]
    exact h
  · rw [heq]
    exact frames_copyToUser _ _ _ (frames_quiet (quiet_reported t) h)

theorem frames_sysPollEvent (keyboard : Word) (h : Frames k a) :
    Frames (k.sysPollEvent keyboard).2 a := by
  rcases sysPollEvent_cases (k := k) keyboard with heq | heq
  · rw [heq]
    exact h
  · rw [heq]
    exact frames_copyToUser _ _ _ h

/-- **Every operation keeps frames and page tables in agreement.** -/
theorem frames_exec {op : Op} (hr : Refines k a) (h : Frames k a) (he : Enabled k op) :
    Frames (exec img k op) (a.move (opMove img k op)) := by
  have hrin : Refines (k.enter .systemCallHandler) a := refines_quiet (quiet_enter _) hr
  have hin : Frames (k.enter .systemCallHandler) a := frames_quiet (quiet_enter _) h
  have hne : k.current ≠ k.idleTask → a.running ≠ a.idle := by
    rw [hr.current, hr.idleTask]
    exact id
  cases op with
  | clock c =>
    rw [exec, clockHandler_eq]
    exact frames_quiet quiet_leave
      (frames_schedule c (refines_quiet quiet_ticked hr) (frames_quiet quiet_ticked h))
  | keyboard port => exact frames_quiet (quiet_keyboardHandler port) h
  | fork c => exact frames_quiet quiet_leave (frames_sysFork c hrin hin (hne he))
  | exit c => exact frames_quiet quiet_leave (frames_sysExit c hrin hin (hne he))
  | yield c => exact frames_quiet quiet_leave (frames_rotate c hrin hin (hne he))
  | getStats pid st => exact frames_quiet quiet_leave (frames_sysGetStats pid st hin)
  | pollEvent kb => exact frames_quiet quiet_leave (frames_sysPollEvent kb hin)
  | touch page =>
    refine frames_mmu h ?_
    rw [activeTable_eq h]
    exact h.fresh.touch

/-- **The invariant holds in every reachable state.** -/
theorem reachable_frames (h : Reachable img k) : ∃ a, Refines k a ∧ Frames k a := by
  obtain ⟨k₀, -, hr⟩ := h
  refine hr.invariant (P := fun k => ∃ a, Refines k a ∧ Frames k a)
    ⟨bootSched, refines_boot, frames_boot⟩ ?_
  rintro k op k' ⟨a, ha, hf⟩ ⟨he, rfl⟩
  exact ⟨_, refines_exec ha he, frames_exec ha hf he⟩

/-- A process that enters the kernel finds the invariant there. -/
theorem reachable_enter (h : Reachable img k) (hc : k.current ≠ k.idleTask) (how : Entered) :
    ∃ a, Refines (k.enter how) a ∧ Frames (k.enter how) a ∧ a.running ≠ a.idle := by
  obtain ⟨a, hr, hf⟩ := reachable_frames h
  rw [hr.current, hr.idleTask] at hc
  exact ⟨a, refines_quiet (quiet_enter how) hr, frames_quiet (quiet_enter how) hf, hc⟩

/-! ### The ownership of frames -/

/-- The PCB is on the free queue. -/
def OnFree (k : Kernel) (t : Task) : Prop := ∃ l, IsRing k.links .freequeue l ∧ .task t ∈ l

/-- **A live user process**: a PCB that is neither free nor the idle task's. -/
def Live (k : Kernel) (t : Task) : Prop := ¬OnFree k t ∧ t ≠ k.idleTask

theorem onFree_iff (hr : Refines k a) {t : Task} : OnFree k t ↔ t ∈ a.free := by
  constructor
  · rintro ⟨l, hl, hm⟩
    rw [hl.unique hr.free, task_mem_map] at hm
    exact hm
  · exact fun ht => ⟨_, hr.free, task_mem_map.mpr ht⟩

theorem live_iff (hr : Refines k a) {t : Task} : Live k t ↔ InUse a t := by
  rw [Live, onFree_iff hr, hr.idleTask, InUse]

/-- The frame of a code page of a process. -/
def frameOfCode (k : Kernel) (t : Task) (i : Nat) : Nat :=
  k.mm.getFrame (k.getPT t) (userLayout.pagLogInitCode + i)

/-- The frame of a data page of a process. -/
def frameOfData (k : Kernel) (t : Task) (i : Nat) : Nat :=
  k.mm.getFrame (k.getPT t) (userLayout.pagLogInitData + i)

/-- **The ownership of frames**: in every reachable state, the code frames of all
live processes are the same eight; their data frames are in use, pairwise distinct
and different from the code frames; and a frame in use above the kernel is a code
frame or a data frame of exactly one live process. -/
theorem frame_ownership (h : Reachable img k) :
    (∀ t, Live k t → ∀ i < numPagCode, frameOfCode k t i = codeFrame i) ∧
    (∀ t, Live k t → ∀ i < numPagData,
      (k.mm.pagusrTable (k.getPT t) (userLayout.pagLogInitData + i)).present = true ∧
      numPagKernel ≤ frameOfData k t i ∧ frameOfData k t i < totalPages ∧
      k.mm.physMem (frameOfData k t i) = .usedFrame) ∧
    (∀ t, Live k t → ∀ i < numPagData, ∀ j < numPagData,
      frameOfData k t i = frameOfData k t j → i = j) ∧
    (∀ t u, Live k t → Live k u → t ≠ u → ∀ i < numPagData, ∀ j < numPagData,
      frameOfData k t i ≠ frameOfData k u j) ∧
    (∀ t, Live k t → ∀ i < numPagData, ∀ j < numPagCode, frameOfData k t i ≠ codeFrame j) ∧
    (∀ j < numPagCode, k.mm.physMem (codeFrame j) = .usedFrame) ∧
    ∀ f, numPagKernel ≤ f → f < totalPages → k.mm.physMem f = .usedFrame →
      (∃ j < numPagCode, f = codeFrame j) ∨
        ∃! t, Live k t ∧ ∃ i < numPagData, frameOfData k t i = f := by
  obtain ⟨a, hr, hf⟩ := reachable_frames h
  have hlive : ∀ t, Live k t → InUse a t := fun t => (live_iff hr).mp
  have hdata : ∀ t, Live k t → ∀ i, frameOfData k t i = (dataEntry k.mm t i).base := by
    intro t ht i
    rw [frameOfData, getPT_eq hf (hlive t ht).1]
    rfl
  refine ⟨fun t ht i hi => ?_, fun t ht i hi => ?_, fun t ht i hi j hj heq => ?_,
    fun t u ht hu htu i hi j hj heq => ?_, fun t ht i hi j hj heq => ?_, hf.owned.codeUsed,
    fun f h1 h2 hu => ?_⟩
  · rw [frameOfCode, getPT_eq hf (hlive t ht).1]
    exact (hf.owned.code t (hlive t ht) i hi).2
  · rw [hdata t ht i, getPT_eq hf (hlive t ht).1]
    have hs := (hf.owned.slot t (hlive t ht) i hi).1
    exact ⟨hf.owned.mapped t (hlive t ht) i hi, hs.1, hs.2.1, hf.owned.used t (hlive t ht) i hi⟩
  · rw [hdata t ht i, hdata t ht j] at heq
    exact (hf.owned.inj t t (hlive t ht) (hlive t ht) i hi j hj heq).2
  · rw [hdata t ht i, hdata u hu j] at heq
    exact htu (hf.owned.inj t u (hlive t ht) (hlive u hu) i hi j hj heq).1
  · have hs := (hf.owned.slot t (hlive t ht) i hi).2
    rw [← hdata t ht i, heq] at hs
    unfold codeFrame at hs
    omega
  · rcases hf.owned.owner f h1 h2 hu with hc | ⟨t, ht, i, hi, hbase⟩
    · exact Or.inl hc
    · have htl : Live k t := (live_iff hr).mpr ht
      refine Or.inr ⟨t, ⟨htl, i, hi, (hdata t htl i).trans hbase⟩, ?_⟩
      rintro u ⟨hul, j, hj, hju⟩
      rw [hdata u hul j, ← hbase] at hju
      exact (hf.owned.inj u t (hlive u hul) ht j hj i hi hju).1

/-- The ownership of frames after the first `fork`. -/
theorem frame_ownership_fork :
    let k := exec sampleImage (powerOn.boot sampleImage) (.fork sampleFork)
    (∀ t, Live k t → ∀ i < numPagCode, frameOfCode k t i = codeFrame i) ∧
    (∀ t, Live k t → ∀ i < numPagData,
      (k.mm.pagusrTable (k.getPT t) (userLayout.pagLogInitData + i)).present = true ∧
      numPagKernel ≤ frameOfData k t i ∧ frameOfData k t i < totalPages ∧
      k.mm.physMem (frameOfData k t i) = .usedFrame) ∧
    (∀ t, Live k t → ∀ i < numPagData, ∀ j < numPagData,
      frameOfData k t i = frameOfData k t j → i = j) ∧
    (∀ t u, Live k t → Live k u → t ≠ u → ∀ i < numPagData, ∀ j < numPagData,
      frameOfData k t i ≠ frameOfData k u j) ∧
    (∀ t, Live k t → ∀ i < numPagData, ∀ j < numPagCode, frameOfData k t i ≠ codeFrame j) ∧
    (∀ j < numPagCode, k.mm.physMem (codeFrame j) = .usedFrame) ∧
    ∀ f, numPagKernel ≤ f → f < totalPages → k.mm.physMem f = .usedFrame →
      (∃ j < numPagCode, f = codeFrame j) ∨
        ∃! t, Live k t ∧ ∃ i < numPagData, frameOfData k t i = f :=
  frame_ownership reachable_fork

/-! ### Forks do not run out of frames -/

/-- What the system call `fork` returns when it is made in a state. -/
def forkResult (img : Image) (k : Kernel) (c : ForkCtx) : Except Int Int :=
  ((k.enter .systemCallHandler).sysFork img c).1

/-- Whether all the calls of `alloc_frame` succeed that `sys_fork` makes. -/
def forkAllocs (img : Image) (k : Kernel) (c : ForkCtx) : Bool :=
  let child := Kernel.listHeadToTaskStruct (listFirst k.links .freequeue)
  (Kernel.forkAlloc ((forkBegun img c k child).getPT child) numPagData 0 k.mm).1

/-- The result of a fork with a free PCB. -/
theorem forkResult_eq (c : ForkCtx) (hr : Refines k a) (h : Frames k a) (hf : a.free ≠ []) :
    forkResult img k c = .ok (wrapInt (k.globalPID + 1)) := by
  obtain ⟨t, ts, hts⟩ := List.exists_cons_of_ne_nil hf
  have hrin : Refines (k.enter .systemCallHandler) a := refines_quiet (quiet_enter _) hr
  have hin : Frames (k.enter .systemCallHandler) a := frames_quiet (quiet_enter _) h
  rw [forkResult, sysFork_eq_ok c hrin hin hts]
  simp only
  rw [(forkFinish_self c t).1]
  rfl

/-- The step is a `fork` that succeeds. -/
def forkSucceeds (img : Image) (x : Kernel × Op) : Bool :=
  match x.2 with
  | .fork c => (forkResult img x.1 c).isOk
  | _ => false

/-- A fork in a reachable state succeeds exactly when a PCB is free. -/
theorem forkSucceeds_iff (c : ForkCtx) (hr : Refines k a) (hf : Frames k a) :
    forkSucceeds img (k, .fork c) = true ↔ a.free ≠ [] := by
  by_cases hfree : a.free = []
  · have he := (listEmpty_freequeue hr).mpr hfree
    have hres : forkResult img k c = .error ENOMEM := by
      rw [forkResult, sysFork_of_empty (k := k.enter .systemCallHandler) c he]
    simp [forkSucceeds, hres, hfree, Except.isOk, Except.toBool]
  · simp [forkSucceeds, forkResult_eq c hr hf hfree, hfree, Except.isOk, Except.toBool]

/-- **`sys_fork` never runs out of frames before it runs out of PCBs**: in every
reachable state it fails with `ENOMEM` exactly when the free queue is empty, never
with `EAGAIN`, and with a free PCB all its twenty frames are there. As long as the
PIDs have not used up the positive integers, the value returned says so too. -/
theorem fork_never_out_of_frames (h : Reachable img k) (c : ForkCtx) :
    (forkResult img k c = .error ENOMEM ↔ listEmpty k.links .freequeue = true) ∧
    forkResult img k c ≠ .error EAGAIN ∧
    (listEmpty k.links .freequeue = false → forkAllocs img k c = true) ∧
    (0 ≤ k.globalPID → k.globalPID < 2 ^ 31 - 1 →
      (retval (forkResult img k c) = -ENOMEM ↔ listEmpty k.links .freequeue = true) ∧
      retval (forkResult img k c) ≠ -EAGAIN) := by
  obtain ⟨a, hr, hf⟩ := reachable_frames h
  have hallocs : forkAllocs img k c = true := by
    rw [forkAllocs, forkBegun_getPT_self, hf.owned.table,
      forkAlloc_eq _ _ _ _ (numPagData_le_freeSlots hf.owned)]
  by_cases hemp : a.free = []
  · have he : listEmpty k.links .freequeue = true := (listEmpty_freequeue hr).mpr hemp
    have hres : forkResult img k c = .error ENOMEM := by
      rw [forkResult, sysFork_of_empty (k := k.enter .systemCallHandler) c he]
    rw [hres]
    refine ⟨iff_of_true rfl he, by simp [ENOMEM, EAGAIN], fun _ => hallocs, fun _ _ => ?_⟩
    exact ⟨iff_of_true rfl he, by simp [retval, ENOMEM, EAGAIN]⟩
  · have he : ¬listEmpty k.links .freequeue = true := fun hc =>
      hemp ((listEmpty_freequeue hr).mp hc)
    rw [forkResult_eq c hr hf hemp]
    refine ⟨iff_of_false (by simp) he, by simp, fun _ => hallocs, fun h0 h1 => ?_⟩
    rw [retval, wrapInt_of_lt (by omega) (by omega)]
    refine ⟨iff_of_false ?_ he, ?_⟩
    · unfold ENOMEM
      omega
    · unfold EAGAIN
      omega

/-- A second `fork` right after the first one. -/
theorem fork_never_out_of_frames_fork :
    let k := exec sampleImage (powerOn.boot sampleImage) (.fork sampleFork)
    (forkResult sampleImage k sampleFork = .error ENOMEM ↔
      listEmpty k.links .freequeue = true) ∧
    forkResult sampleImage k sampleFork ≠ .error EAGAIN ∧
    (listEmpty k.links .freequeue = false → forkAllocs sampleImage k sampleFork = true) ∧
    (0 ≤ k.globalPID → k.globalPID < 2 ^ 31 - 1 →
      (retval (forkResult sampleImage k sampleFork) = -ENOMEM ↔
        listEmpty k.links .freequeue = true) ∧
      retval (forkResult sampleImage k sampleFork) ≠ -EAGAIN) :=
  fork_never_out_of_frames reachable_fork sampleFork

end Zeos.Game
