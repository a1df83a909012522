import Zeos.Game.Owned

/-!
# A fork that fails

When the frames do not suffice, `sys_fork` has already taken a PCB off the free queue,
written the parent's PCB over it and mapped some frames. The roll back gives the frames
and the entries back, however many there are (`Zeos.Game.forkAlloc_few`), and appends the
PCB to the free queue again. What it does not undo is the copy: the PCB is on the free
queue with the PID of the caller, where `init_freequeue` and `sys_exit` leave `-1`. So a
failed fork leaves no trace exactly when the caller has the PID of a free PCB
(`Zeos.Game.failed_fork`), which no process has.
-/

namespace Zeos.Game

open ByteMem CircList Loop Paging X86

variable {k : Kernel} {img : Image} {child : Task} {ts rs : List Task}

/-! ### Taking frames and giving them back -/

/-- **Too few frames**: the allocation loop takes them all before it rolls back. -/
theorem forkAlloc_few (mm : Mm) (pt : Task) (n pag : Nat)
    (h : (freeSlots mm.physMem).length < n) :
    Kernel.forkAlloc pt n pag mm =
      (false, Kernel.forkRollback pt (pag + (freeSlots mm.physMem).length)
        (mm.grant pt (userLayout.pagLogInitData + pag) (freeSlots mm.physMem) ssEntry)) := by
  induction n generalizing mm pag with
  | zero => omega
  | succ n ih =>
    cases hf : freeSlots mm.physMem with
    | nil =>
      rw [Kernel.forkAlloc, allocFrame_of_nil hf, grant_nil]
      simp
    | cons f fs =>
      obtain ⟨m, hround, hfs, hgrant⟩ := forkAlloc_cons pt n pag hf
      rw [hf, List.length_cons] at h
      rw [hround, ih m (pag + 1) (by rw [hfs]; omega), hfs, hgrant, List.length_cons,
        Nat.add_assoc pag, Nat.add_comm 1]

/-- **The roll back undoes the allocation**, if the pages were unmapped and the frames
free, the first frame above the kernel not among them. -/
theorem forkRollback_grant {mm : Mm} {pt : Task} {fs : List Nat}
    (hfree : ∀ f ∈ fs, Slot f ∧ mm.physMem f = .freeFrame)
    (hfirst : mm.physMem numPagKernel = .usedFrame)
    (hzero : ∀ i < fs.length, dataEntry mm pt i = Entry.zero) :
    Kernel.forkRollback pt fs.length (mm.grant pt userLayout.pagLogInitData fs ssEntry) = mm := by
  have hbase : ∀ i < fs.length, (overlay userLayout.pagLogInitData fs.length
      (fun i => ssEntry (fs.getD i 0 : Nat)) (mm.pagusrTable pt)
      (userLayout.pagLogInitData + i)).base = fs.getD i 0 := by
    intro i hi
    rw [overlay_at hi, List.getD_eq_getElem _ _ hi]
    exact ssEntry_base (hfree _ (List.getElem_mem hi)).1.2.1
  have hret : ∀ f ∈ fs, Returnable f := by
    intro f hf
    obtain ⟨hslot, hff⟩ := hfree f hf
    refine ⟨Nat.lt_of_le_of_ne hslot.1 ?_, hslot.2.1⟩
    rintro rfl
    rw [hfirst] at hff
    exact absurd hff (by simp)
  have hgiven : ((List.range fs.length).map fun i => (overlay userLayout.pagLogInitData fs.length
      (fun i => ssEntry (fs.getD i 0 : Nat)) (mm.pagusrTable pt)
      (userLayout.pagLogInitData + i)).base) = fs := by
    refine List.ext_getElem (by simp) fun i h1 h2 => ?_
    rw [List.getElem_map, List.getElem_range, hbase i h2, List.getD_eq_getElem _ _ h2]
  have hphys : mark (mark mm.physMem fs .usedFrame) fs .freeFrame = mm.physMem := by
    funext f
    by_cases hf : f ∈ fs
    · simp only [mark, if_pos hf, (hfree f hf).2]
    · simp only [mark, if_neg hf]
  have htable : overlay userLayout.pagLogInitData fs.length (fun _ => Entry.zero)
      (overlay userLayout.pagLogInitData fs.length (fun i => ssEntry (fs.getD i 0 : Nat))
        (mm.pagusrTable pt)) = mm.pagusrTable pt := by
    funext p
    by_cases hp : p < userLayout.pagLogInitData ∨ userLayout.pagLogInitData + fs.length ≤ p
    · rw [overlay_of_notMem hp, overlay_of_notMem hp]
    · obtain ⟨i, rfl⟩ : ∃ i, p = userLayout.pagLogInitData + i :=
        ⟨p - userLayout.pagLogInitData, by omega⟩
      have hi : i < fs.length := by omega
      rw [overlay_at hi]
      exact (hzero i hi).symm
  have heq := forLoop_free (mm.grant pt userLayout.pagLogInitData fs ssEntry) pt
    userLayout.pagLogInitData fs.length setTable_self fun i hi => by
      rw [hbase i hi, List.getD_eq_getElem _ _ hi]
      exact hret _ (List.getElem_mem hi)
  rw [hgiven, htable] at heq
  refine heq.trans ?_
  change { (mm.setTable pt _).setTable pt (mm.pagusrTable pt) with
    physMem := mark (mark mm.physMem fs .usedFrame) fs .freeFrame } = mm
  rw [hphys, setTable_setTable, setTable_eq]

/-! ### A fork that fails -/

/-- **A fork is going to fail**: the queues are in order, the next free PCB being `child`,
the first frame above the kernel is in use, the free PCBs have no PID and no data pages,
and a process has more data pages than there are frames left. -/
structure Starved (k : Kernel) (child : Task) (ts rs : List Task) : Prop where
  /-- The free queue is a ring through the free PCBs. -/
  free : IsRing k.links .freequeue ((child :: ts).map .task)
  /-- The ready queue is a ring through other PCBs. -/
  ready : IsRing k.links .readyqueue (rs.map .task)
  /-- No PCB is on both queues. -/
  disjoint : ∀ t ∈ child :: ts, t ∉ rs
  /-- The first frame above the kernel is in use. -/
  first : k.mm.physMem numPagKernel = .usedFrame
  /-- Free PCBs have the PID `-1`. -/
  PID : ∀ t ∈ child :: ts, (k.task t).PID = -1
  /-- The data pages of free PCBs are not mapped. -/
  unmapped : ∀ t ∈ child :: ts, ∀ i < numPagData,
    dataEntry k.mm (k.mm.dirPages t).table i = Entry.zero
  /-- There are too few frames. -/
  few : (freeSlots k.mm.physMem).length < numPagData

/-- The PCB whose statistics `sys_get_stats` reports for a PID. -/
def holder (k : Kernel) (pid : Int) : Option Task :=
  (List.finRange nrTasks).find? fun i => (k.task i).PID = pid

/-- **The outcome of a fork leaves no trace**: an error is returned, and frames, page
tables, queues and PIDs are as before, so that `sys_get_stats` reports on the same PCB and
with the same effect. -/
structure Traceless (k : Kernel) (r : Except Int Int × Kernel) : Prop where
  /-- The return value. -/
  error : r.1 = .error EAGAIN
  /-- The bytemap. -/
  physMem : r.2.mm.physMem = k.mm.physMem
  /-- The page tables. -/
  pagusrTable : r.2.mm.pagusrTable = k.mm.pagusrTable
  /-- The next PID. -/
  globalPID : r.2.globalPID = k.globalPID
  /-- The ready queue. -/
  ready : ∀ rs : List Task, IsRing k.links .readyqueue (rs.map .task) →
    IsRing r.2.links .readyqueue (rs.map .task)
  /-- The free queue, up to its order, and the PIDs on it. -/
  free : ∀ ts : List Task, IsRing k.links .freequeue (ts.map .task) →
    ∃ us : List Task, IsRing r.2.links .freequeue (us.map .task) ∧ us.Perm ts ∧
      ∀ t ∈ us, (r.2.task t).PID = -1
  /-- The PCB that `sys_get_stats` reports on. -/
  holder : ∀ pid, holder r.2 pid = holder k pid
  /-- The return value of `sys_get_stats`, and the memory of its caller. -/
  stats : ∀ pid st, (r.2.sysGetStats pid st).1 = (k.sysGetStats pid st).1 ∧
    (r.2.sysGetStats pid st).2.mm.mmu = (k.sysGetStats pid st).2.mm.mmu

/-- **A fork for which there are too few frames** returns an error and leaves memory
management as it was. -/
theorem sysFork_starved (img : Image) (c : ForkCtx) (h : Starved k child ts rs) :
    k.sysFork img c = (.error EAGAIN, forkAbandoned img c k child k.mm) := by
  have hring := h.free
  rw [List.map_cons] at hring
  have hroll := forkRollback_grant (fun f hf => mem_freeSlots.mp hf) h.first
    fun i hi => h.unmapped child (by simp) i (hi.trans h.few)
  have halloc := forkAlloc_few k.mm (k.mm.dirPages child).table numPagData 0 h.few
  rw [Nat.zero_add, Nat.add_zero, hroll] at halloc
  rw [sysFork_of_first c (listEmpty_cons hring) (listFirst_eq hring), forkBegun_getPT_self, halloc]

/-- The PCBs after a fork that has been given up: one of them is a copy of the caller's. -/
theorem forkAbandoned_task (c : ForkCtx) (mm : Mm) (t : Task) :
    (forkAbandoned img c k child mm).task t =
      if t = child then { k.task k.current with dirPagesBaseAddr := child } else k.task t := by
  split
  · next ht => exact ht ▸ forkBegun_self c child
  · next ht => exact forkBegun_of_ne c ht

/-- `sys_get_stats` depends on memory management, the rest of the quantum, the PIDs, and
the statistics of the PCBs that have one. -/
theorem sysGetStats_congr {k' : Kernel} (pid : Int) (st : Word) (hmm : k'.mm = k.mm)
    (hq : k'.remainingQuantum = k.remainingQuantum) (hpid : ∀ t, (k'.task t).PID = (k.task t).PID)
    (hst : ∀ t, 0 ≤ (k.task t).PID → (k'.task t).pStats = (k.task t).pStats) :
    (k'.sysGetStats pid st).1 = (k.sysGetStats pid st).1 ∧
      (k'.sysGetStats pid st).2.mm = (k.sysGetStats pid st).2.mm := by
  unfold Kernel.sysGetStats
  simp only [hpid]
  split
  · exact ⟨rfl, hmm⟩
  · split
    · exact ⟨rfl, hmm⟩
    · next hneg =>
      cases hf : (List.finRange nrTasks).find? fun i => (k.task i).PID = pid with
      | none => exact ⟨rfl, hmm⟩
      | some t =>
        have ht : (k.task t).PID = pid := by simpa using List.find?_some hf
        have hstats := hst t (by omega)
        refine ⟨rfl, ?_⟩
        simp only [Kernel.copyToUser, Kernel.modifyTask, hmm, hq, Function.update_self, hstats]

/-- **A failed fork of a caller without PID leaves no trace.** -/
theorem traceless_of_PID (img : Image) (c : ForkCtx) (h : Starved k child ts rs)
    (hcur : (k.task k.current).PID = -1) : Traceless k (k.sysFork img c) := by
  have hpid : ∀ t, ((forkAbandoned img c k child k.mm).task t).PID = (k.task t).PID := by
    intro t
    rw [forkAbandoned_task]
    split
    · next ht => rw [ht, h.PID child (by simp)]; exact hcur
    · rfl
  have hstats : ∀ t, 0 ≤ (k.task t).PID →
      ((forkAbandoned img c k child k.mm).task t).pStats = (k.task t).pStats := by
    intro t ht
    have hne : t ≠ child := by
      rintro rfl
      rw [h.PID t (by simp)] at ht
      omega
    rw [forkAbandoned_task, if_neg hne]
  obtain ⟨hfree, hready⟩ := isRing_forkAbandoned img c k.mm h.free h.ready h.disjoint
  have hinj : Function.Injective (List.map Node.task) :=
    List.map_injective_iff.mpr fun _ _ => Node.task.inj
  rw [sysFork_starved img c h]
  refine ⟨rfl, rfl, rfl, rfl, fun rs' hrs => ?_, fun ts' hts => ?_, fun pid => ?_,
    fun pid st => ?_⟩
  · rw [hinj (hrs.unique h.ready)]
    exact hready
  · rw [hinj (hts.unique h.free)]
    refine ⟨ts ++ [child], hfree, List.perm_append_singleton child ts, fun t ht => ?_⟩
    rw [hpid]
    refine h.PID t ?_
    simpa [or_comm] using ht
  · simp only [holder, hpid]
  · obtain ⟨h1, h2⟩ := @sysGetStats_congr k (forkAbandoned img c k child k.mm) pid st rfl rfl
      hpid hstats
    exact ⟨h1, congrArg Mm.mmu h2⟩

/-- **A failed fork that leaves no trace was called without a PID.** The PCB it gives back
has the PID of the caller. -/
theorem PID_of_traceless (img : Image) (c : ForkCtx) (h : Starved k child ts rs)
    (htr : Traceless k (k.sysFork img c)) : (k.task k.current).PID = -1 := by
  obtain ⟨us, hus, hperm, hpid⟩ := htr.free (child :: ts) h.free
  have hc := hpid child (hperm.mem_iff.mpr (by simp))
  rw [sysFork_starved img c h, forkAbandoned_task, if_pos rfl] at hc
  exact hc

/-- **A failed fork leaves no trace exactly when its caller has the PID of a free PCB.** -/
theorem failed_fork (img : Image) (c : ForkCtx) (h : Starved k child ts rs) :
    Traceless k (k.sysFork img c) ↔ (k.task k.current).PID = -1 :=
  ⟨PID_of_traceless img c h, traceless_of_PID img c h⟩

/-! ### A booted kernel without frames -/

/-- The booted kernel, with every frame in use. -/
def crowded : Kernel :=
  let k := powerOn.boot sampleImage
  { k with mm := { k.mm with physMem := fun _ => .usedFrame } }

theorem crowded_PID (t : Task) :
    (crowded.task t).PID = if t = 1 then 1 else if t = 0 then 0 else -1 :=
  @boot_PID powerOn sampleImage t

theorem crowded_mm : crowded.mm =
    { ((bootMm sampleImage powerOn).setUserPages userLayout 1).setCr3 1 with
      physMem := fun _ => .usedFrame } :=
  congrArg (fun mm : Mm => { mm with physMem := fun _ => .usedFrame })
    (@boot_mm powerOn sampleImage)

/-- The data pages of the PCBs that boot leaves free are not mapped. -/
theorem crowded_data {t : Task} {i : Nat} (ht : t ≠ 1) (hi : i < numPagData) :
    dataEntry crowded.mm (crowded.mm.dirPages t).table i = Entry.zero := by
  have htable : (crowded.mm.dirPages t).table = t := by
    rw [crowded_mm]
    exact owned_boot.table t
  have hdata : dataEntry crowded.mm t i =
      (bootMm sampleImage powerOn).pagusrTable t (userLayout.pagLogInitData + i) := by
    rw [dataEntry, crowded_mm, setUserPages_eq]
    simp only [Mm.setCr3, Mm.grant, setTable_of_ne ht]
  rw [htable, hdata, pagLogInitData_eq]
  unfold numPagData at hi
  refine bootMm_table ?_ ?_
  · unfold numPagKernel
    omega
  · unfold totalPages
    omega

theorem starved_crowded : Starved crowded 2 [3, 4, 5, 6, 7, 8, 9] [] where
  free := (@isRing_boot powerOn sampleImage).1
  ready := (@isRing_boot powerOn sampleImage).2
  disjoint := by simp
  first := rfl
  PID t ht := by
    have h1 : t ≠ 1 := by
      rintro rfl
      simp at ht
    have h0 : t ≠ 0 := by
      rintro rfl
      simp at ht
    rw [crowded_PID, if_neg h1, if_neg h0]
  unmapped t ht i hi := by
    refine crowded_data ?_ hi
    rintro rfl
    simp at ht
  few := by simp [freeSlots, crowded, numPagData]

theorem failed_fork_crowded :
    Traceless crowded (crowded.sysFork sampleImage sampleFork) ↔
      (crowded.task crowded.current).PID = -1 :=
  failed_fork sampleImage sampleFork starved_crowded

/-- **A trace that is left**: the PCB that the first process was to get for its child is
on the free queue again, with PID 1. -/
theorem failed_fork_trace :
    Starved crowded 2 [3, 4, 5, 6, 7, 8, 9] [] ∧
      ¬Traceless crowded (crowded.sysFork sampleImage sampleFork) := by
  refine ⟨starved_crowded, fun htr => ?_⟩
  have hcur : crowded.current = 1 := @boot_current powerOn sampleImage
  have hpid := PID_of_traceless sampleImage sampleFork starved_crowded htr
  rw [hcur, crowded_PID, if_pos rfl] at hpid
  exact absurd hpid (by decide)

end Zeos.Game
