import Zeos.Game.Frames

/-!
# Page protection in the GAME kernel

`init_table_pages` and `set_user_pages` give the first process a page table that
keeps user mode out of the kernel: no kernel page is accessible, page `0` and the
two pages around the task array are not there at all, and the code pages are
read-only. `sys_fork` fills the table of the child with `set_ss_pag`, which grants
everything, so **the table of every child lets user mode read and write the whole
kernel and the shared code**. A run keeps all live processes protected exactly when
no process forks (`Zeos.Game.protected_iff`).
-/

namespace Zeos.Game

open ByteMem CircList Paging RoundRobin X86

variable {k k' : Kernel} {a : Sched Task} {img : Image}

/-- **The page table of a protected process.** -/
structure Protected (img : Image) (T : Table) : Prop where
  /-- User mode has no access to the kernel pages. -/
  kernel : ∀ p < numPagKernel, (T p).user = false
  /-- The first page is not mapped. -/
  null : (T 0).present = false
  /-- The page below the task array is not mapped. -/
  lowGuard : (T img.lowGuard).present = false
  /-- The page above the task array is not mapped. -/
  highGuard : (T img.highGuard).present = false
  /-- The code pages cannot be written. -/
  code : ∀ i < numPagCode, (T (userLayout.pagLogInitCode + i)).rw = false

/-- A table that agrees below the data pages is as protected. -/
theorem protected_congr {T T' : Table} (h : Protected img T)
    (heq : ∀ p < userLayout.pagLogInitData, T' p = T p) : Protected img T' := by
  have hd := pagLogInitData_eq
  have hb := img.base_lt
  have hk : numPagKernel ≤ userLayout.pagLogInitData := by decide
  have hc : userLayout.pagLogInitCode + numPagCode ≤ userLayout.pagLogInitData := by decide
  unfold numPagKernel at hb
  refine ⟨fun p hp => ?_, ?_, ?_, ?_, fun i hi => ?_⟩
  · rw [heq p (by omega)]
    exact h.kernel p hp
  · rw [heq 0 (by omega)]
    exact h.null
  · rw [heq _ (by unfold Image.lowGuard; omega)]
    exact h.lowGuard
  · rw [heq _ (by unfold Image.highGuard; omega)]
    exact h.highGuard
  · rw [heq _ (by omega)]
    exact h.code i hi

/-- **All live user processes are protected.** -/
def AllProtected (img : Image) (k : Kernel) : Prop :=
  ∀ t, Live k t → Protected img (k.mm.pagusrTable (k.getPT t))

/-! ### The first process -/

/-- The kernel part of a page table as `init_table_pages` leaves it. -/
theorem bootMm_kernel {t : Task} {p : Nat} (h : p < numPagKernel) :
    (bootMm img k).pagusrTable t p =
      if p = img.lowGuard ∨ p = img.highGuard then { Mm.initEntry p with present := false }
      else Mm.initEntry p := by
  have h2 : p < totalPages := Nat.lt_trans h (by decide)
  simp [bootMm, Kernel.initMm, Kernel.initTablePages, Kernel.allocateDIR, Mm.initFrames,
    Mm.initDirPages, Mm.setCr3, Mm.setPeFlag, h2]

theorem initEntry_user (p : Nat) : (Mm.initEntry p).user = false := by
  unfold Mm.initEntry
  split <;> rfl

/-- **The first process is protected.** -/
theorem protected_boot :
    Protected img (((bootMm img k).setUserPages userLayout 1).pagusrTable 1) := by
  have hkernel : ∀ p < numPagKernel,
      ((bootMm img k).setUserPages userLayout 1).pagusrTable 1 p =
        (bootMm img k).pagusrTable 1 p := by
    intro p hp
    rw [setUserPages_eq]
    simp only [Mm.grant, setTable_self]
    unfold numPagKernel at hp
    rw [overlay_of_notMem, overlay_of_notMem]
    · rw [pagLogInitCode_eq]
      omega
    · rw [pagLogInitData_eq]
      omega
  have hlow : img.lowGuard < numPagKernel := by
    have := img.base_lt
    unfold Image.lowGuard
    omega
  have hhigh : img.highGuard < numPagKernel := img.base_lt
  refine ⟨fun p hp => ?_, ?_, ?_, ?_, fun i hi => ?_⟩
  · rw [hkernel p hp, bootMm_kernel hp]
    split <;> exact initEntry_user p
  · rw [hkernel 0 (by decide), bootMm_kernel (by decide)]
    split <;> rfl
  · rw [hkernel _ hlow, bootMm_kernel hlow, if_pos (Or.inl rfl)]
  · rw [hkernel _ hhigh, bootMm_kernel hhigh, if_pos (Or.inr rfl)]
  · have := (@setUserPages_entry img k i).1 hi
    rw [codeEntry] at this
    rw [this]
    rfl

/-! ### Runs without a fork -/

/-- What holds as long as nobody has forked: the processes in use are protected,
and there are free PCBs. -/
structure Unforked (img : Image) (k : Kernel) (a : Sched Task) : Prop where
  /-- The queues. -/
  refines : Refines k a
  /-- The frames. -/
  frames : Frames k a
  /-- The processes in use are protected. -/
  safe : ∀ t, InUse a t → Protected img (k.mm.pagusrTable t)
  /-- There are free PCBs. -/
  free : a.free ≠ []

theorem allProtected_of_unforked (h : Unforked img k a) : AllProtected img k := by
  intro t ht
  have hU := (live_iff h.refines).mp ht
  rw [getPT_eq h.frames hU.1]
  exact h.safe t hU

theorem unforked_boot : Unforked img (k.boot img) bootSched where
  refines := refines_boot
  frames := frames_boot
  safe := by
    intro t ht
    obtain rfl : t = 1 := by
      revert t
      decide
    rw [boot_mm]
    exact protected_boot
  free := by decide

/-- The operation is a `fork`. -/
def Op.isFork : Op → Bool
  | .fork _ => true
  | _ => false

/-- What the operations other than `fork` do to the page tables: nothing below the
data pages. -/
theorem exec_pagusrTable {op : Op} (hr : Refines k a) (hf : op.isFork = false) (t : Task)
    (p : Nat) (hp : p < userLayout.pagLogInitData) :
    (exec img k op).mm.pagusrTable t p = k.mm.pagusrTable t p := by
  have hrin : Refines (k.enter .systemCallHandler) a := refines_quiet (quiet_enter _) hr
  have hrot : ∀ {k : Kernel} (c : SwitchCtx), Refines k a →
      ((k.updateProcessStateRr k.current (some .readyqueue)).schedNextRr img c).mm.pagusrTable t p
        = k.mm.pagusrTable t p := by
    intro k c hr
    rw [(rotate_spec img c hr).mm]
    rfl
  cases op with
  | clock c =>
    have hqt : Quiet k (ticked img k) := quiet_ticked
    have hrt : Refines (ticked img k).updateSchedDataRr a :=
      refines_quantum _ (refines_quiet hqt hr)
    rw [exec, clockHandler_eq, quiet_leave.mm, Kernel.schedule]
    rcases needsSchedRr_cases (ticked img k).updateSchedDataRr with ⟨heq, -, -⟩ | ⟨r, heq⟩
    · rw [heq]
      refine (hrot c hrt).trans ?_
      rw [← hqt.mm]
      rfl
    · rw [heq, ← hqt.mm]
      rfl
  | keyboard port => rw [exec, (quiet_keyboardHandler port).mm]
  | fork c => simp [Op.isFork] at hf
  | exit c =>
    rw [exec, quiet_leave.mm, sysExit_eq, (schedNextRr_spec img c (queued_exited hrin)).mm,
      exited_mm]
    exact exitFree_pagusrTable hp
  | yield c =>
    rw [exec, quiet_leave.mm, Kernel.sysYield, Kernel.forceTaskSwitch, hrot c hrin]
    rfl
  | getStats pid st =>
    rw [exec, quiet_leave.mm]
    rcases sysGetStats_cases (k := k.enter .systemCallHandler) pid st with heq | ⟨x, heq⟩ <;>
      rw [heq] <;> rfl
  | pollEvent kb =>
    rw [exec, quiet_leave.mm]
    rcases sysPollEvent_cases (k := k.enter .systemCallHandler) kb with heq | heq <;>
      rw [heq] <;> rfl
  | touch page => rfl

/-- Without a fork no slot comes into use, and no free slot is taken. -/
theorem inUse_of_not_fork {op : Op} (hf : op.isFork = false) :
    (∀ t, InUse (a.move (opMove img k op)) t → InUse a t) ∧
      (a.free ≠ [] → (a.move (opMove img k op)).free ≠ []) := by
  have hrot : (∀ t, InUse a.rotate t → InUse a t) ∧ (a.free ≠ [] → a.rotate.free ≠ []) :=
    ⟨fun t ht => (inUse_next (a := { a with ready := a.ready ++ [a.running] })).mp ht,
      fun h => by rw [Sched.rotate, next_free]; exact h⟩
  cases op with
  | clock c =>
    simp only [opMove, tickMove]
    split
    · exact hrot
    · exact ⟨fun _ => id, id⟩
  | fork c => simp [Op.isFork] at hf
  | exit c =>
    constructor
    · intro t ht
      have := (inUse_next (a := { a with free := a.free ++ [a.running] })).mp ht
      simp only [InUse, List.mem_append, not_or] at this
      exact ⟨this.1.1, this.2⟩
    · intro _
      simp only [opMove, Sched.move, Sched.leave, next_free]
      simp
  | yield c => exact hrot
  | keyboard port => exact ⟨fun _ => id, id⟩
  | getStats pid st => exact ⟨fun _ => id, id⟩
  | pollEvent kb => exact ⟨fun _ => id, id⟩
  | touch page => exact ⟨fun _ => id, id⟩

theorem unforked_exec {op : Op} (h : Unforked img k a) (he : Enabled k op)
    (hf : op.isFork = false) :
    Unforked img (exec img k op) (a.move (opMove img k op)) where
  refines := refines_exec h.refines he
  frames := frames_exec h.refines h.frames he
  safe := fun t ht => protected_congr (h.safe t ((inUse_of_not_fork hf).1 t ht))
    fun p hp => exec_pagusrTable h.refines hf t p hp
  free := (inUse_of_not_fork hf).2 h.free

/-! ### The first fork -/

/-- The page table of a child grants access to the first page. -/
theorem childTable_zero {mm : Mm} {parent child : Task} {fs : List Nat} :
    (childTable mm parent child fs 0).present = true := by
  rw [childTable, overlay_of_notMem (by decide)]
  have hat : overlay 0 numPagKernel (fun i => ssEntry (mm.pagusrTable parent i).base)
      (overlay userLayout.pagLogInitData fs.length (fun i => ssEntry (fs.getD i 0 : Nat))
        (mm.pagusrTable child)) (0 + 0) = ssEntry (mm.pagusrTable parent 0).base :=
    overlay_at (by decide)
  exact congrArg Entry.present hat

/-- **A fork leaves a live process unprotected.** -/
theorem not_allProtected_fork {c : ForkCtx} (h : Unforked img k a) (he : Enabled k (.fork c)) :
    ¬AllProtected img (exec img k (.fork c)) := by
  obtain ⟨child, ts, hfree⟩ := List.exists_cons_of_ne_nil h.free
  have hrin : Refines (k.enter .systemCallHandler) a := refines_quiet (quiet_enter _) h.refines
  have hfin : Frames (k.enter .systemCallHandler) a := frames_quiet (quiet_enter _) h.frames
  have hne : a.running ≠ a.idle := by
    rw [← h.refines.current, ← h.refines.idleTask]
    exact he
  have hm : a.move (opMove img k (.fork c)) = a.spawn := forkMove_eq h.frames
  have hr' : Refines (exec img k (.fork c)) _ := refines_exec h.refines he
  have hf' : Frames (exec img k (.fork c)) _ := frames_exec h.refines h.frames he
  rw [hm] at hr' hf'
  have hU : InUse a.spawn child := (inUse_spawn h.refines.wf hfree).mpr (Or.inr rfl)
  have ht : child ∈ a.free := by simp [hfree]
  have htab : (exec img k (.fork c)).mm.pagusrTable child =
      childTable k.mm a.running child (forkFrames k.mm) := by
    obtain ⟨s, hs, -⟩ := forkCopy_spec hrin hfin hne ht (length_forkFrames hfin) nodup_forkFrames
      fun f => mem_forkFrames
    have hmm := forkMapped_mm img c hrin hfin ht
    rw [hs] at hmm
    rw [exec, quiet_leave.mm, sysFork_eq_ok c hrin hfin hfree]
    simp only [forkFinish_mm, hmm]
    exact setTable_self
  intro hall
  have hp := hall child ((live_iff hr').mpr hU)
  rw [getPT_eq hf' hU.1, htab] at hp
  exact absurd (childTable_zero.symm.trans hp.null) (by simp)

/-- **A run keeps all live processes protected exactly when nobody forks.** -/
theorem protected_iff {h : List (Kernel × Op)} {k₀ : Kernel}
    (hp : Transition.Path (Step img) (k₀.boot img) h k) :
    (∀ s ∈ Transition.visited h k, AllProtected img s) ↔ ∀ x ∈ h, x.2.isFork = false := by
  refine hp.forall_visited_iff (I := fun k => ∃ a, Unforked img k a)
    ⟨allProtected_of_unforked unforked_boot, bootSched, unforked_boot⟩ ?_
  rintro k op k' ⟨a, ha⟩ ⟨he, rfl⟩
  constructor
  · intro hf
    have := unforked_exec ha he hf
    exact ⟨allProtected_of_unforked this, _, this⟩
  · intro hQ
    cases op with
    | fork c => exact absurd hQ (not_allProtected_fork ha he)
    | _ => rfl

end Zeos.Game
