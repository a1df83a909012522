import Zeos.E1E2.AddressSpace

/-!
# The first process alone

As long as nobody has forked, there is one process. It cannot exit, it has no
children to unblock, and when it blocks, `schedule` finds it blocked, puts it on the
ready queue and selects it again. `Zeos.E1E2.Alone` describes the states of such a
run; every operation but `sys_fork` leads from such a state to such a state
(`Zeos.E1E2.alone_step`), and what `sys_fork` does there is computed link by link
(`Zeos.E1E2.sysFork_alone`). Since the first fork is where this kernel goes wrong,
this is enough to say exactly which runs go right.
-/

namespace Zeos.E1E2

open ByteMem CircList Paging Transition X86

/-! ### Live processes -/

/-- The PCB is on the free queue. -/
def OnFree (k : Kernel) (t : Task) : Prop := ∃ l, IsRing k.links .freequeue l ∧ .list t ∈ l

/-- **A live user process**: a PCB that is neither free nor the idle task's. -/
def Live (k : Kernel) (t : Task) : Prop := ¬OnFree k t ∧ t ≠ k.idleTask

/-! ### Protection -/

/-- **The page table of a protected process.** -/
structure Protected (T : Table) : Prop where
  /-- User mode has no access to the kernel pages. -/
  kernel : ∀ p < numPagKernel, (T p).user = false
  /-- The first page is not mapped. -/
  null : (T 0).present = false
  /-- The code pages cannot be written. -/
  code : ∀ i < numPagCode, (T (userLayout.pagLogInitCode + i)).rw = false

/-! ### The parts of the scheduler -/

section Parts

variable {k : Kernel} {img : Image} {c : SwitchCtx} {t : Task} {l : List Node}

/-- A blocked task with some of its quantum left is scheduled away. -/
theorem needsSchedRr_of_blocked (h1 : 0 < k.queueTicks)
    (h2 : (k.task k.current).state = .stBlocked) : k.needsSchedRr = (true, k) := by
  rw [Kernel.needsSchedRr, if_neg (by omega), if_pos h2]

/-- `schedule` when a switch is needed. -/
theorem schedule_of_needed {k₂ : Kernel} (h : k.updateSchedDataRr.needsSchedRr = (true, k₂)) :
    k.schedule img c =
      (k₂.updateProcessStateRr k₂.current (some .readyqueue)).schedNextRr img c := by
  rw [Kernel.schedule, h]
  rfl

/-- A task that is not running goes to the ready queue. -/
theorem updateProcessStateRr_ready (h : (k.task t).state ≠ .stRun) :
    k.updateProcessStateRr t (some .readyqueue) =
      { k with links := listAddTail (listDel k.links .null (.list t)) (.list t) .readyqueue
        }.setState t .stReady := by
  rw [Kernel.updateProcessStateRr, Kernel.leaveQueue, if_pos h]
  rfl

/-- A task that is not running starts to run. -/
theorem updateProcessStateRr_run (h : (k.task t).state ≠ .stRun) :
    k.updateProcessStateRr t none =
      { k with links := listDel k.links .null (.list t) }.setState t .stRun := by
  rw [Kernel.updateProcessStateRr, Kernel.leaveQueue, if_pos h]

/-- A change of state and queue leaves the other fields of all PCBs alone. -/
theorem updateProcessStateRr_field {β : Type} (g : TaskStruct → β)
    (h : ∀ s st, g { s with state := st } = g s) {q : Option Node} {x : Task} :
    g ((k.updateProcessStateRr t q).task x) = g (k.task x) := by
  have hl : (k.leaveQueue t).task = k.task := by
    unfold Kernel.leaveQueue
    split <;> rfl
  rw [← hl]
  unfold Kernel.updateProcessStateRr
  cases q with
  | none => exact setState_field g h
  | some q =>
    dsimp only
    split <;> exact setState_field g h

/-- **Whom `sched_next_rr` selects**: the idle task, or the first task of the ready
queue. -/
theorem schedNextRr_cases {k' : Kernel} (hs : k.schedNextRr img c = some k') :
    k' = k.dispatch img c k.idleTask ∨ ∃ t, listFirst k.links .readyqueue = .list t ∧
      k' = (k.updateProcessStateRr t none).dispatch img c t := by
  rw [Kernel.schedNextRr] at hs
  split at hs
  · exact Or.inl (Option.some.inj hs).symm
  · split at hs
    · next t ht =>
      refine Or.inr ⟨t, ?_, (Option.some.inj hs).symm⟩
      cases hn : listFirst k.links .readyqueue <;> rw [hn] at ht <;>
        simp [listHeadToTaskStruct] at ht
      rw [ht]
    · exact absurd hs (by simp)

/-- **What `schedule` can do**: count a tick, and then go on with the running task or
select another one. -/
theorem schedule_cases {k' : Kernel} (hs : k.schedule img c = some k') :
    ∃ ticks, k' = { k with queueTicks := ticks } ∨
      (({ k with queueTicks := ticks }).updateProcessStateRr k.current
        (some .readyqueue)).schedNextRr img c = some k' := by
  obtain ⟨ticks, hticks⟩ : ∃ ticks, k.updateSchedDataRr.needsSchedRr.2 =
      { k with queueTicks := ticks } := by
    rw [Kernel.needsSchedRr]
    split
    · exact ⟨_, rfl⟩
    · split <;> exact ⟨_, rfl⟩
  rw [Kernel.schedule] at hs
  dsimp only at hs
  rw [hticks] at hs
  refine ⟨ticks, ?_⟩
  split at hs
  · exact Or.inr hs
  · exact Or.inl (Option.some.inj hs).symm

/-- **The loop of `sys_exit` that finds a child never ends**: it unlinks the child
and goes on from the link that is no more. -/
theorem adoptKids_none {fuel : Nat} {pos : Node} (h : pos ≠ .kids k.current) :
    Kernel.adoptKids fuel pos k = none := by
  induction fuel generalizing pos k with
  | zero => rfl
  | succ fuel ih =>
    rw [Kernel.adoptKids, if_neg h]
    refine ih ?_
    dsimp only
    rw [listDel_self]
    simp

/-- **What `sys_exit` can do** to a process that may exit: there is no child, and the
PCB is freed. -/
theorem sysExit_cases {k' : Kernel} {fuel : Nat} (hs : k.sysExit img c fuel = some k') :
    ((k.task k.current).PID = 1 ∧ k' = k) ∨ ((k.task k.current).PID ≠ 1 ∧
      ((k.links (.kids k.current)).next = .kids k.current ∨
        (k.links (.kids k.current)).next = .null) ∧ k.exitFinish img c = some k') := by
  rw [Kernel.sysExit] at hs
  split at hs
  · next hp => exact Or.inl ⟨hp, (Option.some.inj hs).symm⟩
  · next hp =>
    refine Or.inr ⟨hp, ?_⟩
    split at hs
    · by_cases hk : (k.links (.kids k.current)).next = .kids k.current
      · refine ⟨Or.inl hk, ?_⟩
        cases fuel with
        | zero => exact absurd hs (by simp [Kernel.adoptKids])
        | succ fuel =>
          rw [listFirst, hk, Kernel.adoptKids, if_pos rfl] at hs
          exact hs
      · have hnone : k.adoptKids fuel (listFirst k.links (.kids k.current)) = none :=
          adoptKids_none hk
        rw [hnone] at hs
        exact absurd hs (by simp)
    · next hnull => exact ⟨Or.inr (not_not.mp hnull), hs⟩

/-- **What `sys_unblock` returns**, and what it has done. -/
theorem sysUnblock_eq_some {k' : Kernel} {pid r : Int} {stray : Node → Int} {fuel : Nat} :
    k.sysUnblock pid stray fuel = some (r, k') ↔
      (k.findKid pid stray fuel (k.links (.kids k.current)).next = some none ∧
        r = -ECHILD ∧ k' = k) ∨
      ∃ t, k.findKid pid stray fuel (k.links (.kids k.current)).next = some (some t) ∧
        r = 0 ∧ k' = k.unblockKid t := by
  rw [Kernel.sysUnblock]
  cases hf : k.findKid pid stray fuel (k.links (.kids k.current)).next with
  | none => simp
  | some o =>
    cases o with
    | none => simp [eq_comm, and_comm]
    | some t => simp [eq_comm, and_comm]

/-- The first task of the ready queue is dispatched. -/
theorem schedNextRr_of_first (hr : IsRing k.links .readyqueue (.list t :: l)) :
    k.schedNextRr img c = some ((k.updateProcessStateRr t none).dispatch img c t) := by
  rw [Kernel.schedNextRr, listEmpty_cons hr, listFirst_eq hr]
  rfl

/-- **A process with its whole quantum blocks**: it goes through the queue of blocked
processes to the ready queue, and the next task is selected. -/
theorem sysBlock_of_quantum (hp : (k.task k.current).pendingUnblocks = 0)
    (hq : k.queueTicks = defaultQuantum) :
    k.sysBlock img c =
      ({ k.setState k.current .stBlocked with
        links := listAddTail (listDel (listAddTail k.links (.list k.current) .blocked) .null
          (.list k.current)) (.list k.current) .readyqueue
        queueTicks := 99 }.setState k.current .stReady).schedNextRr img c := by
  -- the state in which `sys_block` calls `schedule`
  set k₁ : Kernel := { k.setState k.current .stBlocked with
    links := listAddTail k.links (.list k.current) .blocked, queueTicks := 99 } with hk₁
  have hticks : wrapInt (k.queueTicks - 1) = 99 := by
    rw [hq]
    decide
  have hst : (k₁.task k.current).state ≠ .stRun := by
    simp [hk₁, Kernel.setState, Kernel.modifyTask]
  rw [Kernel.sysBlock, if_pos hp]
  refine (schedule_of_needed (?_ : _ = (true, k₁))).trans ?_
  · refine (needsSchedRr_of_blocked ?_ ?_).trans ?_ <;>
      simp [Kernel.updateSchedDataRr, Kernel.setState, Kernel.modifyTask, hticks, hk₁]
  · exact congrArg (Kernel.schedNextRr img c) (updateProcessStateRr_ready hst)

end Parts

/-! ### The states of a run without a fork -/

/-- The PCBs on the free queue as long as nobody forks. -/
def otherTasks : List Task := [7, 6, 5, 4, 3, 2, 1, 0]

/-- The slots in use when the first process is alone. -/
theorem notMem_otherTasks : ∀ t : Task, t ∉ otherTasks → t = 8 ∨ t = 9 := by decide

/-- **The first process is alone.** -/
structure Alone (k : Kernel) : Prop where
  /-- The queues. -/
  queues : Quiescent k.links otherTasks [8, 9]
  /-- It is running. -/
  current : k.current = 8
  /-- The idle task. -/
  idleTask : k.idleTask = 9
  /-- Its PCB. -/
  first : k.task 8 =
    { PID := 1, dirPagesBaseAddr := 8, parent := none, state := .stRun, quantum := defaultQuantum,
      pendingUnblocks := 0 }
  /-- The state of the idle task. -/
  idle : (k.task 9).state = .stReady
  /-- Nobody has a parent. -/
  parent : ∀ t, (k.task t).parent = none
  /-- It has its quantum. -/
  queueTicks : k.queueTicks = defaultQuantum
  /-- Every directory names the page table of its own slot. -/
  table : ∀ t, (k.mm.dirPages t).table = t
  /-- There are frames for a child. -/
  enough : numPagData ≤ (freeSlots k.mm.physMem).length
  /-- It is protected. -/
  safe : Protected (k.mm.pagusrTable 8)

variable {k k' k₀ : Kernel} {img : Image} {op : Op}

theorem initEntry_user (p : Nat) : (Mm.initEntry p).user = false := by
  unfold Mm.initEntry
  split <;> rfl

/-- The first process is protected after boot. -/
theorem protected_booted : Protected ((booted img k).mm.pagusrTable 8) where
  kernel := by
    intro p hp
    have h1 := pagLogInitData_eq
    unfold numPagKernel at hp
    rw [booted_other (by unfold totalPages; omega) (by omega)]
    exact initEntry_user p
  null := by
    rw [booted_other (by decide) (by decide)]
    rfl
  code := by
    intro i hi
    rw [booted_code hi]
    rfl

theorem alone_booted (hl : Loaded k₀) (img : Image) : Alone (booted img k₀) where
  queues := quiescent_booted
  current := rfl
  idleTask := rfl
  first := by rw [booted_task_first, hl.parent]
  idle := by rw [booted_task_idle]
  parent := fun t => booted_parent.trans (hl.parent t)
  queueTicks := rfl
  table := fun _ => booted_dirPages
  enough := by
    rw [freeSlots_booted, List.length_drop, length_slots]
    decide
  safe := protected_booted

/-! ### Blocking alone -/

/-- A task put on an empty queue and taken off again. -/
theorem quiescent_requeue {σ : Heap Node} {free ps : List Task} {t : Task} {q : Node}
    (h : Quiescent σ free ps) (ht : t ∉ free) (hq : q = .readyqueue ∨ q = .blocked) :
    Quiescent (listDel (listAddTail σ (.list t) q) .null (.list t)) free ps := by
  have hr : IsRing σ q [] := by
    rcases hq with rfl | rfl
    · exact h.ready
    · exact h.blocked
  have hn : Node.list t ≠ q := by
    rcases hq with rfl | rfl <;> simp
  have heq : ∀ {g : Node} {l : List Node}, IsRing σ g l → Node.list t ∉ g :: l → q ∉ g :: l →
      IsRing (listDel (listAddTail σ (.list t) q) .null (.list t)) g l := by
    intro g l hg htl hql
    refine hg.congr fun y hy => listDel_listAddTail_of_ne hr hn ?_ ?_
    · rintro rfl
      exact hql hy
    · rintro rfl
      exact htl hy
  have hself : IsRing (listDel (listAddTail σ (.list t) q) .null (.list t)) q [] :=
    isRing_listDel_listAddTail hr hn
  refine ⟨heq h.free (by simpa using ht) ?_, ?_, ?_, fun x hx => heq (h.kids x hx) (by simp) ?_⟩
  · rcases hq with rfl | rfl <;> simp
  · rcases hq with rfl | rfl
    · exact hself
    · exact heq h.ready (by simp) (by simp)
  · rcases hq with rfl | rfl
    · exact heq h.blocked (by simp) (by simp)
    · exact hself
  · rcases hq with rfl | rfl <;> simp

/-- The links after a process that is alone has blocked. -/
def blockedLinks (σ : Heap Node) : Heap Node :=
  let σ := listDel (listAddTail σ (.list 8) .blocked) .null (.list 8)
  listDel (listAddTail σ (.list 8) .readyqueue) .null (.list 8)

/-- **Blocking alone**: the process is selected again, and all but the processor and
the translation cache is as it was. -/
theorem sysBlock_alone (h : Alone k) (c : SwitchCtx) :
    k.sysBlock img c = some
      { k with
        links := blockedLinks k.links
        tssEsp0 := img.area.stack 8 1024
        msrEsp := img.area.stack 8 1024
        mm := k.mm.setCr3 8
        cpu := Zeos.taskSwitch img.area c 8 8 k.cpu } := by
  have hq := quiescent_requeue (q := .blocked) (t := 8) h.queues (by decide) (Or.inr rfl)
  have hp : (k.task k.current).pendingUnblocks = 0 := by rw [h.current, h.first]
  rw [sysBlock_of_quantum hp h.queueTicks, h.current]
  set k₂ := ({ k.setState 8 .stBlocked with
    links := listAddTail (listDel (listAddTail k.links (.list 8) .blocked) .null (.list 8))
      (.list 8) .readyqueue
    queueTicks := 99 } : Kernel).setState 8 .stReady with hk₂
  -- the process is the first of the ready queue
  have hring : IsRing k₂.links .readyqueue [.list 8] :=
    isRing_listAddTail_nil hq.ready (by simp)
  have hst₂ : (k₂.task 8).state ≠ .stRun := by simp [hk₂, Kernel.setState, Kernel.modifyTask]
  rw [schedNextRr_of_first hring, updateProcessStateRr_run hst₂]
  simp [hk₂, Kernel.setState, Kernel.modifyTask, Kernel.dispatch, Kernel.taskSwitch,
    Kernel.getQuantum, Kernel.getDIR, blockedLinks, h.first, h.current, h.queueTicks]

/-! ### The other operations -/

/-- The first process cannot exit. -/
theorem sysExit_alone (h : Alone k) (c : SwitchCtx) (fuel : Nat) :
    k.sysExit img c fuel = some k := by
  have hp : (k.task k.current).PID = 1 := by rw [h.current, h.first]
  rw [Kernel.sysExit]
  simp only [hp, if_true]

/-- It has no children to unblock. -/
theorem sysUnblock_alone (h : Alone k) (pid : Int) (stray : Node → Int) (fuel : Nat)
    {r : Int × Kernel} (hs : k.sysUnblock pid stray fuel = some r) : r = (-ECHILD, k) := by
  have hnext : (k.links (.kids 8)).next = .kids 8 :=
    (h.queues.kids 8 (by simp)).next_eq_self_iff.mpr rfl
  rw [Kernel.sysUnblock, h.current, hnext] at hs
  cases fuel with
  | zero => simp [Kernel.findKid] at hs
  | succ n =>
    simp only [Kernel.findKid, h.current, if_true, Option.some.injEq] at hs
    exact hs.symm

/-- The operation is a `fork`. -/
def Op.isFork : Op → Bool
  | .fork _ => true
  | _ => false

/-- **A process that is alone stays alone until it forks.** -/
theorem alone_step (h : Alone k) (hs : Step img k op k') (hf : op.isFork = false) : Alone k' := by
  obtain ⟨-, fuel, hx⟩ := hs
  cases op with
  | clock =>
    obtain rfl := Option.some.inj hx
    exact ⟨h.queues, h.current, h.idleTask, h.first, h.idle, h.parent, h.queueTicks, h.table,
      h.enough, h.safe⟩
  | fork contents => simp [Op.isFork] at hf
  | exit c =>
    rw [exec, sysExit_alone h] at hx
    obtain rfl := Option.some.inj hx
    exact h
  | block c =>
    rw [exec, sysBlock_alone h] at hx
    obtain rfl := Option.some.inj hx
    have hout : (8 : Task) ∉ otherTasks := by decide
    have hq := quiescent_requeue (q := .blocked) h.queues hout (Or.inr rfl)
    exact ⟨quiescent_requeue hq hout (Or.inl rfl), h.current, h.idleTask, h.first, h.idle,
      h.parent, h.queueTicks, h.table, h.enough, h.safe⟩
  | unblock pid stray =>
    rw [exec, Option.map_eq_some_iff] at hx
    obtain ⟨r, hr, rfl⟩ := hx
    rw [sysUnblock_alone h pid stray fuel hr]
    exact h
  | touch page =>
    obtain rfl := Option.some.inj hx
    exact ⟨h.queues, h.current, h.idleTask, h.first, h.idle, h.parent, h.queueTicks, h.table,
      h.enough, h.safe⟩

/-! ### The first fork -/

section Fork

variable {child : Task} {contents : Mem}

/-- A child that has its PCB, a copy of the parent's, and its directory. -/
def forkBegun (img : Image) (contents : Mem) (k : Kernel) (child : Task) : Kernel :=
  ({ k.forkEnter img contents with links := listDel k.links .null (.list child) }.copyTaskUnion img
    k.current child).allocateDIR child

theorem forkChild_eq : k.forkChild img contents child =
    if ((forkBegun img contents k child).initChildAddressSpace child).1 < 0 then
      (.error (-((forkBegun img contents k child).initChildAddressSpace child).1),
        ((forkBegun img contents k child).initChildAddressSpace child).2)
    else
      (.ok ((forkBegun img contents k child).initChildAddressSpace child).2.pidCounter,
        ((forkBegun img contents k child).initChildAddressSpace child).2.forkFinish img child) :=
  rfl

/-- An address space is completed, or there are no frames for it. -/
theorem initChildAddressSpace_cases (k : Kernel) (child : Task) :
    (∃ mm, k.initChildAddressSpace child = (-EAGAIN,
        { k with mm := mm, links := listAddTail k.links (.list child) .freequeue })) ∨
      ∃ mm, k.initChildAddressSpace child = (0, { k with mm := mm }) := by
  rw [Kernel.initChildAddressSpace]
  rcases Kernel.allocNewFrames numPagData [] k.mm with ⟨b, l, mm⟩
  cases b with
  | false => exact Or.inl ⟨_, rfl⟩
  | true => exact Or.inr ⟨_, rfl⟩

/-- **What a fork can do**: fail without a PCB, fail without frames, or make a
child. -/
theorem sysFork_cases {r : Except Int Int} (h : k.sysFork img contents = some (r, k')) :
    (r = .error ENOMEM ∧ k' = k) ∨ ∃ child, listEmpty k.links .freequeue = false ∧
      listFirst k.links .freequeue = .list child ∧
      ((∃ mm, r = .error EAGAIN ∧
          k' = { forkBegun img contents k child with
            mm := mm
            links := listAddTail (forkBegun img contents k child).links (.list child)
              .freequeue }) ∨
        ∃ mm, r = .ok k.pidCounter ∧
          k' = { forkBegun img contents k child with mm := mm }.forkFinish img child) := by
  rw [Kernel.sysFork] at h
  split at h
  · obtain ⟨rfl, rfl⟩ := Prod.mk.inj (Option.some.inj h)
    exact Or.inl ⟨rfl, rfl⟩
  · next hemp =>
    obtain ⟨child, hchild, hr⟩ := Option.map_eq_some_iff.mp h
    have hfirst : listFirst k.links .freequeue = .list child := by
      cases hn : listFirst k.links .freequeue <;> rw [hn] at hchild <;>
        simp [listHeadToTaskStruct] at hchild
      rw [hchild]
    refine Or.inr ⟨child, by simpa using hemp, hfirst, ?_⟩
    rw [forkChild_eq] at hr
    rcases initChildAddressSpace_cases (forkBegun img contents k child) child with
      ⟨mm, heq⟩ | ⟨mm, heq⟩
    · rw [heq] at hr
      obtain ⟨rfl, rfl⟩ := Prod.mk.inj hr
      exact Or.inl ⟨mm, rfl, rfl⟩
    · rw [heq] at hr
      obtain ⟨rfl, rfl⟩ := Prod.mk.inj hr
      exact Or.inr ⟨mm, rfl, rfl⟩

theorem forkBegun_self : (forkBegun img contents k child).task child =
    { k.task k.current with dirPagesBaseAddr := child } := by
  rw [forkBegun, Kernel.allocateDIR, modifyTask_self]
  simp [Kernel.copyTaskUnion, Kernel.forkEnter]

theorem forkBegun_of_ne {t : Task} (h : t ≠ child) :
    (forkBegun img contents k child).task t = k.task t := by
  rw [forkBegun, Kernel.allocateDIR, modifyTask_of_ne h]
  simp [Kernel.copyTaskUnion, Kernel.forkEnter, h]

/-- The links of a child are copies of the parent's, the others those of the free
queue without it. -/
theorem forkBegun_links_of_ne {n : Node} (h1 : n ≠ .list child) (h2 : n ≠ .kids child) :
    (forkBegun img contents k child).links n = listDel k.links .null (.list child) n := by
  simp [forkBegun, Kernel.allocateDIR, Kernel.copyTaskUnion, h1, h2]

/-- The page tables of the parent and of the child. -/
theorem forkBegun_getPT (img : Image) (contents : Mem) (hne : k.current ≠ child)
    (hdir : (k.task k.current).dirPagesBaseAddr = k.current)
    (htable : ∀ t, (k.mm.dirPages t).table = t) :
    (forkBegun img contents k child).getPT child = child ∧
      (forkBegun img contents k child).getPT k.current = k.current := by
  constructor
  · rw [Kernel.getPT, Kernel.getDIR, forkBegun_self]
    exact htable child
  · rw [Kernel.getPT, Kernel.getDIR, forkBegun_of_ne hne, hdir]
    exact htable k.current

/-- **A fork with a free PCB and frames**: the child gets the first free PCB, and a page
table and frames of its own. -/
theorem sysFork_child {l : List Node} (img : Image) (contents : Mem)
    (hr : IsRing k.links .freequeue (.list child :: l)) (hne : k.current ≠ child)
    (hdir : (k.task k.current).dirPagesBaseAddr = k.current)
    (htable : ∀ t, (k.mm.dirPages t).table = t)
    (henough : numPagData ≤ (freeSlots k.mm.physMem).length) :
    ∃ mm, k.sysFork img contents = some (.ok k.pidCounter,
        { forkBegun img contents k child with mm := mm }.forkFinish img child) ∧
      mm.dirPages = k.mm.dirPages ∧
      mm.pagusrTable child = childTable k.mm k.current child (newFrames k.mm) ∧
      mm.physMem = mark k.mm.physMem (newFrames k.mm) .usedFrame := by
  obtain ⟨hchild, hcur⟩ := forkBegun_getPT img contents hne hdir htable
  have hPT : (forkBegun img contents k child).getPT child ≠
      (forkBegun img contents k child).getPT (forkBegun img contents k child).current := by
    change _ ≠ (forkBegun img contents k child).getPT k.current
    rw [hchild, hcur]
    exact hne.symm
  have heq := initChildAddressSpace_eq hPT henough
  have htab := initChildAddressSpace_table hPT henough
  change _ = childTable k.mm ((forkBegun img contents k child).getPT k.current) _ _ at htab
  rw [hchild, hcur] at htab
  rw [heq] at htab
  refine ⟨_, ?_, ?_, htab, ?_⟩
  · have hfork := @forkChild_eq k img child contents
    rw [heq] at hfork
    rw [Kernel.sysFork, listEmpty_cons hr, listFirst_eq hr]
    exact congrArg some hfork
  · rw [setCr3_dirPages, copyToChild_dirPages]
    rfl
  · rw [setCr3_physMem, copyToChild_physMem]
    rfl

/-- **The first fork**: the child gets the first free PCB, and everything it needs
is there. -/
theorem sysFork_alone (h : Alone k) (img : Image) (contents : Mem) :
    ∃ mm, k.sysFork img contents =
        some (.ok k.pidCounter, { forkBegun img contents k 7 with mm := mm }.forkFinish img 7) ∧
      mm.dirPages = k.mm.dirPages ∧
      mm.pagusrTable 7 = childTable k.mm 8 7 (newFrames k.mm) ∧
      mm.physMem = mark k.mm.physMem (newFrames k.mm) .usedFrame := by
  have hr : IsRing k.links .freequeue (.list 7 :: otherTasks.tail.map .list) := h.queues.free
  have hcur : k.current = 8 := h.current
  have hfork := sysFork_child img contents hr (by rw [hcur]; decide) (by rw [hcur, h.first])
    h.table h.enough
  rwa [hcur] at hfork

/-- The links when the child is about to be linked. -/
theorem quiescent_forkBegun (h : Alone k) (img : Image) (contents : Mem) :
    Quiescent (initListHead (forkBegun img contents k 7).links (.kids 7)) otherTasks.tail
      [7, 8, 9] := by
  have hq : Quiescent (listDel k.links .null (.list 7)) otherTasks.tail [8, 9] :=
    quiescent_listDel (t := 7) h.queues
  refine quiescent_kids ⟨?_, ?_, ?_, fun t ht => ?_⟩
  · refine hq.free.congr fun y hy => forkBegun_links_of_ne ?_ ?_
    · rintro rfl
      simp [otherTasks] at hy
    · rintro rfl
      simp [otherTasks] at hy
  · refine hq.ready.congr fun y hy => forkBegun_links_of_ne ?_ ?_ <;> rintro rfl <;> simp at hy
  · refine hq.blocked.congr fun y hy => forkBegun_links_of_ne ?_ ?_ <;> rintro rfl <;> simp at hy
  · refine (hq.kids t ht).congr fun y hy => forkBegun_links_of_ne ?_ ?_
    · rintro rfl
      simp at hy
    · rintro rfl
      obtain rfl : 7 = t := by simpa using hy
      simp at ht

/-- **What the first fork leaves behind**: the child is on the ready queue, the free
queue has lost it, and the list of children points at it – but its links are those
of the ready queue. The child and the idle task have no children. -/
theorem forkFinish_links_alone (h : Alone k) (img : Image) (contents : Mem) (mm : Mm) :
    let σ := ({ forkBegun img contents k 7 with mm := mm }.forkFinish img 7).links
    IsRing σ .freequeue (otherTasks.tail.map .list) ∧ IsRing σ .readyqueue [.list 7] ∧
      (σ (.kids 8)).next = .list 7 ∧ (σ (.list 7)).prev = .readyqueue ∧
      IsRing σ .blocked [] ∧ (σ (.kids 8)).prev = .list 7 ∧
      ∀ t : Task, t = 7 ∨ t = 9 → IsRing σ (.kids t) [] := by
  intro σ
  have hq := quiescent_forkBegun h img contents
  set σ₁ := initListHead (forkBegun img contents k 7).links (.kids 7) with hσ₁
  have hcur : (forkBegun img contents k 7).current = 8 := h.current
  have hσ : σ = listAddTail (listAddTail σ₁ (.list 7) (.kids 8)) (.list 7) .readyqueue := by
    rw [hσ₁, ← hcur]
    rfl
  have hk : IsRing (listAddTail σ₁ (.list 7) (.kids 8)) (.kids 8) [.list 7] :=
    isRing_listAddTail_nil (hq.kids 8 (by simp)) (by simp)
  have hready : IsRing (listAddTail σ₁ (.list 7) (.kids 8)) .readyqueue [] :=
    isRing_listAddTail_other hq.ready (hq.kids 8 (by simp)) (by simp) (by simp)
  have hfree : IsRing (listAddTail σ₁ (.list 7) (.kids 8)) .freequeue
      (otherTasks.tail.map .list) :=
    isRing_listAddTail_other hq.free (hq.kids 8 (by simp)) (by simp [otherTasks])
      (by simp [otherTasks])
  have hblocked : IsRing (listAddTail σ₁ (.list 7) (.kids 8)) .blocked [] :=
    isRing_listAddTail_other hq.blocked (hq.kids 8 (by simp)) (by simp) (by simp)
  have hring : IsRing σ .readyqueue [.list 7] := by
    rw [hσ]
    exact isRing_listAddTail_nil hready (by simp)
  have hhead : σ (.kids 8) = listAddTail σ₁ (.list 7) (.kids 8) (.kids 8) := by
    rw [hσ]
    exact listAddTail_of_notMem hready (by simp) (by simp)
  refine ⟨?_, hring, ?_, hring.chain.2.1, ?_, ?_, fun t ht => ?_⟩
  · rw [hσ]
    exact isRing_listAddTail_other hfree hready (by simp [otherTasks]) (by simp [otherTasks])
  · rw [hhead]
    exact hk.next_head
  · rw [hσ]
    exact isRing_listAddTail_other hblocked hready (by simp) (by simp)
  · rw [hhead]
    exact hk.chain.2.2.2
  · have ht8 : t ≠ 8 := by
      rintro rfl
      simp at ht
    have hkt : IsRing (listAddTail σ₁ (.list 7) (.kids 8)) (.kids t) [] :=
      isRing_listAddTail_other (hq.kids t (by rcases ht with rfl | rfl <;> simp))
        (hq.kids 8 (by simp)) (by simpa using ht8) (by simp)
    rw [hσ]
    exact isRing_listAddTail_other hkt hready (by simp) (by simp)

/-- The PCB of a new child. -/
theorem forkFinish_self : (k.forkFinish img child).task child =
    { PID := k.pidCounter, dirPagesBaseAddr := (k.task child).dirPagesBaseAddr,
      parent := some k.current, state := .stReady, quantum := defaultQuantum,
      pendingUnblocks := 0 } := by
  simp [Kernel.forkFinish, Kernel.forkStack, Kernel.setStack, Kernel.setKernelEsp,
    Kernel.modifyTask]

/-- The other PCBs. -/
theorem forkFinish_of_ne {t : Task} (hne : t ≠ child) :
    (k.forkFinish img child).task t = k.task t := by
  simp [Kernel.forkFinish, Kernel.forkStack, Kernel.setStack, Kernel.setKernelEsp,
    Kernel.modifyTask, hne]

/-- A process that is alone can fork. -/
theorem step_fork (h : Alone k) (img : Image) (contents : Mem) :
    ∃ k', Step img k (.fork contents) k' := by
  obtain ⟨mm, heq, -, -⟩ := sysFork_alone h img contents
  refine ⟨{ forkBegun img contents k 7 with mm := mm }.forkFinish img 7, ?_, 0, ?_⟩
  · change k.current ≠ k.idleTask
    rw [h.current, h.idleTask]
    decide
  · rw [exec, heq]
    rfl

end Fork

end Zeos.E1E2
