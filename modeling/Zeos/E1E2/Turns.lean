import Zeos.E1E2.Alone
import Zeos.Lib.Walk

/-!
# Taking turns

`sys_block` does not block its caller. What it does, as long as every process has its
whole quantum, is what a yield should do: **the caller goes to the end of the ready
queue, and the first ready process runs** (`Zeos.E1E2.Turns.block`). Nothing else of a
process changes, and no list of children (`Zeos.E1E2.SameFamily`).

A fork keeps the queues in order as long as the last child is also the last ready
process (`Zeos.E1E2.Turns.fork`): the anchor of the new child is then linked behind the
same node twice, and the second time is for the ready queue.

So the first process can fork twice, and then takes turns with both children
(`Zeos.E1E2.first_fork`, `Zeos.E1E2.second_fork`).
-/

namespace Zeos.E1E2

open ByteMem CircList Paging Transition X86

variable {k k' k₀ : Kernel} {img : Image} {c : SwitchCtx} {t child : Task} {contents : Mem}
  {fs rs : List Task}

/-- **Processes that take turns**: the queues are in order, and every process that runs
or waits has its whole quantum and no pending unblock. -/
structure Turns (k : Kernel) (fs rs : List Task) : Prop where
  /-- The free queue. -/
  free : IsRing k.links .freequeue (fs.map .list)
  /-- The ready queue. -/
  ready : IsRing k.links .readyqueue (rs.map .list)
  /-- Nobody is blocked. -/
  blocked : IsRing k.links .blocked []
  /-- The running process is not free. -/
  notFree : k.current ∉ fs
  /-- The running process is not ready. -/
  notReady : k.current ∉ rs
  /-- The states of the ready processes. -/
  state : ∀ t ∈ rs, (k.task t).state = .stReady
  /-- The processes. -/
  fresh : ∀ t ∈ k.current :: rs,
    (k.task t).quantum = defaultQuantum ∧ (k.task t).pendingUnblocks = 0
  /-- The ticks left. -/
  queueTicks : k.queueTicks = defaultQuantum

/-- **What a turn leaves alone.** -/
structure SameFamily (k k' : Kernel) : Prop where
  /-- The idle task. -/
  idleTask : k'.idleTask = k.idleTask
  /-- The heads of the lists of children. -/
  kids : ∀ t, k'.links (.kids t) = k.links (.kids t)
  /-- The fields of the PCBs but the state. -/
  field : ∀ {β : Type} (g : TaskStruct → β), (∀ s st, g { s with state := st } = g s) →
    ∀ t, g (k'.task t) = g (k.task t)
  /-- Memory management, but for the loaded directory. -/
  mm : ∃ dir, k'.mm = k.mm.setCr3 dir

theorem SameFamily.trans {k'' : Kernel} (h : SameFamily k k') (h' : SameFamily k' k'') :
    SameFamily k k'' where
  idleTask := h'.idleTask.trans h.idleTask
  kids := fun t => (h'.kids t).trans (h.kids t)
  field := fun g hg t => (h'.field g hg t).trans (h.field g hg t)
  mm := by
    obtain ⟨d, hd⟩ := h.mm
    obtain ⟨d', hd'⟩ := h'.mm
    exact ⟨d', by rw [hd', hd]; rfl⟩

/-- No PCB is on two queues. -/
theorem Turns.disjoint (h : Turns k fs rs) {y : Node} (hy : y ∈ Node.freequeue :: fs.map .list) :
    y ∉ Node.readyqueue :: rs.map .list :=
  h.ready.disjoint h.free (by simp) hy

/-- The links after `sys_block`: the caller has been on the queue of blocked processes, and
the first ready process has left the ready queue. -/
def turnedLinks (σ : Heap Node) (p t : Task) : Heap Node :=
  listDel (listAddTail (listDel (listAddTail σ (.list p) .blocked) .null (.list p)) (.list p)
    .readyqueue) .null (.list t)

/-- The queues then. -/
theorem Turns.turned (h : Turns k fs (t :: rs)) {σ : Heap Node}
    (hσ : listDel (listAddTail k.links (.list k.current) .blocked) .null (.list k.current) = σ) :
    IsRing (listAddTail σ (.list k.current) .readyqueue) .readyqueue
        (.list t :: (rs ++ [k.current]).map .list) ∧
      IsRing (turnedLinks k.links k.current t) .blocked [] ∧
      ∀ y, y ∉ Node.readyqueue :: (t :: rs).map .list → y ≠ .list k.current → y ≠ .blocked →
        turnedLinks k.links k.current t y = k.links y := by
  have hσn : ∀ y, y ≠ .blocked → y ≠ .list k.current → σ y = k.links y := fun y h1 h2 => by
    rw [← hσ]
    exact listDel_listAddTail_of_ne h.blocked (by simp) h1 h2
  have hready : IsRing σ .readyqueue ((t :: rs).map .list) := by
    refine h.ready.congr fun y hy => hσn y ?_ ?_
    · rintro rfl
      simp at hy
    · rintro rfl
      exact h.notReady (by simpa using hy)
  have hready' : IsRing (listAddTail σ (.list k.current) .readyqueue) .readyqueue
      (.list t :: (rs ++ [k.current]).map .list) := by
    have := isRing_listAddTail (n := Node.list k.current) hready (by simpa using h.notReady)
    simpa using this
  have hout : ∀ y, y ∉ Node.readyqueue :: (t :: rs).map .list → y ≠ .list k.current →
      turnedLinks k.links k.current t y = σ y := by
    intro y hy hyp
    rw [turnedLinks, hσ, listDel_of_notMem hready' List.mem_cons_self (by simp_all),
      listAddTail_of_notMem hready hyp hy]
  have hblocked : IsRing σ .blocked [] := by
    rw [← hσ]
    exact isRing_listDel_listAddTail h.blocked (by simp)
  refine ⟨hready', hblocked.congr fun y hy => ?_, fun y hy hyp hyb =>
    (hout y hy hyp).trans (hσn y hyb hyp)⟩
  obtain rfl : y = .blocked := by simpa using hy
  exact hout _ (by simp) (by simp)

/-- **A process that calls `sys_block` takes its turn.** -/
theorem Turns.block (h : Turns k fs (t :: rs)) (img : Image) (c : SwitchCtx) :
    ∃ k', k.sysBlock img c = some k' ∧ k'.current = t ∧ Turns k' fs (rs ++ [k.current]) ∧
      SameFamily k k' := by
  obtain ⟨hready, hblocked, hout⟩ := h.turned rfl
  have hpend : (k.task k.current).pendingUnblocks = 0 := (h.fresh _ List.mem_cons_self).2
  obtain ⟨hct, hcr⟩ : k.current ≠ t ∧ k.current ∉ rs := by simpa using h.notReady
  have hnd : (t :: rs).Nodup := (List.nodup_cons.mp h.ready.nodup).2.of_map _
  rw [List.nodup_cons] at hnd
  -- the state in which the first ready process is selected
  set k₂ : Kernel := ({ k.setState k.current .stBlocked with
    links := listAddTail (listDel (listAddTail k.links (.list k.current) .blocked) .null
      (.list k.current)) (.list k.current) .readyqueue
    queueTicks := 99 } : Kernel).setState k.current .stReady with hk₂
  have hself : (k₂.task k.current).state = .stReady := by
    simp [hk₂, Kernel.setState, Kernel.modifyTask]
  have hother : ∀ x, x ≠ k.current → k₂.task x = k.task x := fun x hx => by
    simp [hk₂, Kernel.setState, Kernel.modifyTask, hx]
  have hst : (k₂.task t).state ≠ .stRun := by
    rw [hother t hct.symm, h.state t List.mem_cons_self]
    decide
  have hfield : ∀ {β : Type} (g : TaskStruct → β), (∀ s st, g { s with state := st } = g s) →
      ∀ x, g ((k₂.updateProcessStateRr t none).task x) = g (k.task x) := by
    intro β g hg x
    rw [updateProcessStateRr_field g hg, hk₂, setState_field g hg]
    exact setState_field g hg
  have hlinks : (k₂.updateProcessStateRr t none).links = turnedLinks k.links k.current t := by
    rw [updateProcessStateRr_run hst]
    rfl
  have hstate : ∀ x ∈ rs ++ [k.current],
      ((k₂.updateProcessStateRr t none).task x).state = .stReady := by
    intro x hx
    have hxt : x ≠ t := by
      rintro rfl
      simp [hnd.1, hct.symm] at hx
    rw [updateProcessStateRr_run hst, Kernel.setState, modifyTask_of_ne hxt]
    change (k₂.task x).state = .stReady
    by_cases hxp : x = k.current
    · rw [hxp, hself]
    · rw [hother x hxp]
      exact h.state x (List.mem_cons_of_mem _ (by simpa [hxp] using hx))
  rw [sysBlock_of_quantum hpend h.queueTicks]
  refine ⟨_, schedNextRr_of_first (k := k₂) hready, rfl, ?_, ?_⟩
  · refine
      { free := ?_, ready := ?_, blocked := ?_, notFree := fun hm => ?_, notReady := ?_,
        state := hstate, fresh := fun x hx => ?_, queueTicks := ?_ }
    · change IsRing (k₂.updateProcessStateRr t none).links _ _
      rw [hlinks]
      refine h.free.congr fun y hy => hout y (h.disjoint hy) ?_ ?_
      · rintro rfl
        exact h.notFree (by simpa using hy)
      · rintro rfl
        simp at hy
    · change IsRing (k₂.updateProcessStateRr t none).links _ _
      rw [hlinks]
      exact isRing_listDel_first hready
    · change IsRing (k₂.updateProcessStateRr t none).links _ _
      rw [hlinks]
      exact hblocked
    · have ht : t ∈ fs := hm
      exact h.disjoint (List.mem_cons_of_mem _ (List.mem_map_of_mem ht)) (by simp)
    · change t ∉ rs ++ [k.current]
      simp [hnd.1, hct.symm]
    · have hx' : x ∈ k.current :: t :: rs := by
        change x ∈ t :: (rs ++ [k.current]) at hx
        simp only [List.mem_cons, List.mem_append, List.not_mem_nil, or_false] at hx ⊢
        tauto
      obtain ⟨hq, hp⟩ := h.fresh x hx'
      exact ⟨(hfield TaskStruct.quantum (fun _ _ => rfl) x).trans hq,
        (hfield TaskStruct.pendingUnblocks (fun _ _ => rfl) x).trans hp⟩
    · exact (hfield TaskStruct.quantum (fun _ _ => rfl) t).trans (h.fresh t (by simp)).1
  · have hmm : (k₂.updateProcessStateRr t none).mm = k.mm := by
      rw [updateProcessStateRr_run hst]
      rfl
    refine ⟨?_, fun x => ?_, hfield, _, congrArg (Mm.setCr3 · _) hmm⟩
    · change (k₂.updateProcessStateRr t none).idleTask = _
      rw [updateProcessStateRr_run hst]
      rfl
    · change (k₂.updateProcessStateRr t none).links _ = _
      rw [hlinks]
      exact hout _ (by simp) (by simp) (by simp)

/-- The queues once the child has left the free queue. -/
theorem Turns.begun (h : Turns k (child :: fs) rs) {σ : Heap Node}
    (hσ : initListHead (forkBegun img contents k child).links (.kids child) = σ) :
    IsRing σ .freequeue (fs.map .list) ∧ IsRing σ .readyqueue (rs.map .list) ∧
      IsRing σ .blocked [] ∧ ∀ y, y ∉ Node.freequeue :: (child :: fs).map .list →
        y ≠ .kids child → σ y = k.links y := by
  have hnd : child ∉ fs := fun hm =>
    (List.nodup_cons.mp (List.nodup_cons.mp h.free.nodup).2).1 (List.mem_map_of_mem hm)
  have hdel : ∀ y, y ≠ .list child → y ≠ .kids child →
      σ y = listDel k.links .null (.list child) y := by
    intro y hyc hyk
    rw [← hσ, initListHead_of_ne hyk, forkBegun_links_of_ne hyc hyk]
  have hout : ∀ y, y ∉ Node.freequeue :: (child :: fs).map .list → y ≠ .kids child →
      σ y = k.links y := by
    intro y hy hyk
    rw [hdel y (fun hyc => hy (by simp [hyc])) hyk]
    exact listDel_of_notMem h.free (by simp) hy
  refine ⟨?_, ?_, ?_, hout⟩
  · have hring : IsRing (listDel k.links .null (.list child)) .freequeue (fs.map .list) :=
      isRing_listDel_first h.free
    refine hring.congr fun y hy => hdel y ?_ ?_
    · rintro rfl
      exact hnd (by simpa using hy)
    · rintro rfl
      simp at hy
  · refine h.ready.congr fun y hy => hout y (fun hm => h.disjoint hm hy) ?_
    rintro rfl
    simp at hy
  · refine h.blocked.congr fun y hy => ?_
    obtain rfl : y = .blocked := by simpa using hy
    exact hout _ (by simp) (by simp)

/-- **A fork behind the last child**: the child waits at the end of the ready queue, and
its parent's list of children begins where it began. -/
theorem Turns.fork (h : Turns k (child :: fs) rs)
    (hprev : (k.links (.kids k.current)).prev = (k.links .readyqueue).prev) (img : Image)
    (contents : Mem) (mm : Mm) :
    let k' := { forkBegun img contents k child with mm := mm }.forkFinish img child
    Turns k' fs (rs ++ [child]) ∧ (k'.links (.kids child)).next = .kids child ∧
      (k'.links (.kids k.current)).next = (k.links (.kids k.current)).next ∧
      ∀ t, t ≠ child → t ≠ k.current → k'.links (.kids t) = k.links (.kids t) := by
  intro k'
  have hne : k.current ≠ child := by
    rintro he
    exact h.notFree (by simp [he])
  have hnd : (child :: fs).Nodup := (List.nodup_cons.mp h.free.nodup).2.of_map _
  rw [List.nodup_cons] at hnd
  -- the links before the child is linked: it has left the free queue
  set σ := initListHead (forkBegun img contents k child).links (.kids child) with hσ
  obtain ⟨hfree, hready, hblocked, hout⟩ := h.begun hσ.symm
  have hlinks : k'.links =
      listAddTail (listAddTail σ (.list child) (.kids k.current)) (.list child) .readyqueue := rfl
  have hprev' : (σ (.kids k.current)).prev = (σ .readyqueue).prev := by
    rw [hout _ (by simp) (by simpa using hne), hout _ (by simp) (by simp)]
    exact hprev
  have hmove : ∀ y, y ≠ .kids k.current → k'.links y = listAddTail σ (.list child) .readyqueue y :=
    fun y hy => by
      rw [hlinks]
      exact listAddTail_listAddTail (by simp) (by simp) hprev' hy
  have hchild : Node.list child ∉ Node.readyqueue :: rs.map .list := h.disjoint (by simp)
  have hkids : ∀ t, t ≠ k.current → k'.links (.kids t) = σ (.kids t) := fun t ht => by
    rw [hmove _ (by simpa using ht)]
    exact listAddTail_of_notMem hready (by simp) (by simp)
  have hself : k'.task child = _ := forkFinish_self
  have hother : ∀ x, x ≠ child → k'.task x = k.task x := fun x hx =>
    (forkFinish_of_ne hx).trans (forkBegun_of_ne hx)
  refine ⟨?_, ?_, ?_, fun t ht htc => ?_⟩
  · refine
      { free := ?_, ready := ?_, blocked := ?_, notFree := fun hm => ?_, notReady := fun hm => ?_,
        state := fun x hx => ?_, fresh := fun x hx => ?_, queueTicks := h.queueTicks }
    · have hdis : ∀ y ∈ Node.freequeue :: fs.map .list, y ∉ Node.readyqueue :: rs.map .list :=
        fun y hy => h.disjoint (by simp only [List.map_cons, List.mem_cons] at hy ⊢; tauto)
      refine (isRing_listAddTail_other hfree hready hdis (by simpa using hnd.1)).congr
        fun y hy => hmove y ?_
      rintro rfl
      simp at hy
    · have hring := isRing_listAddTail hready hchild
      rw [List.map_append]
      refine hring.congr fun y hy => hmove y ?_
      rintro rfl
      simp at hy
    · refine (isRing_listAddTail_other hblocked hready (by simp) (by simp)).congr
        fun y hy => hmove y ?_
      rintro rfl
      simp at hy
    · exact h.notFree (List.mem_cons_of_mem _ hm)
    · rcases List.mem_append.mp hm with hm | hm
      · exact h.notReady hm
      · exact hne (List.mem_singleton.mp hm)
    · by_cases hxc : x = child
      · subst hxc
        rw [hself]
      · rw [hother x hxc]
        exact h.state x (by simpa [hxc] using hx)
    · by_cases hxc : x = child
      · subst hxc
        rw [hself]
        exact ⟨rfl, rfl⟩
      · rw [hother x hxc]
        refine h.fresh x ?_
        change x ∈ k.current :: (rs ++ [child]) at hx
        simpa [hxc] using hx
  · rw [hkids child hne.symm, hσ, isRing_initListHead.chain.1]
  · rw [hlinks, next_listAddTail_listAddTail (by simp) (by simp) (by simp) hprev' ?_,
      hout _ (by simp) (by simpa using hne)]
    intro he
    have := hready.prev_head_mem
    rw [he] at this
    simp at this
  · rw [hkids t htc, hout _ (by simp) (by simpa using ht)]

/-! ### The first children -/

/-- The first process takes turns with its first child. -/
theorem turns_forked (ha : Alone k) (img : Image) (contents : Mem) (mm : Mm) :
    Turns ({ forkBegun img contents k 7 with mm := mm }.forkFinish img 7) otherTasks.tail [7] := by
  obtain ⟨hfree, hready, -, -, hblocked, -, -⟩ := forkFinish_links_alone ha img contents mm
  set k' := { forkBegun img contents k 7 with mm := mm }.forkFinish img 7 with hk'
  have hcur : k'.current = 8 := ha.current
  have hchild : k'.task 7 = _ := forkFinish_self
  have hfirst : k'.task 8 = k.task 8 :=
    (forkFinish_of_ne (by decide)).trans (@forkBegun_of_ne k img 7 contents 8 (by decide))
  refine
    { free := hfree, ready := hready, blocked := hblocked, notFree := ?_, notReady := ?_,
      state := fun t ht => ?_, fresh := fun t ht => ?_, queueTicks := ha.queueTicks }
  · rw [hcur]
    decide
  · rw [hcur]
    decide
  · rw [List.mem_singleton.mp ht, hchild]
  · rw [hcur] at ht
    obtain rfl | rfl : t = 8 ∨ t = 7 := by simpa using ht
    · rw [hfirst, ha.first]
      exact ⟨rfl, rfl⟩
    · rw [hchild]
      exact ⟨rfl, rfl⟩

/-- **The first process and its children**, the last of which is `last`. -/
structure Parent (k : Kernel) (last : Task) (fs rs : List Task) : Prop where
  /-- The queues. -/
  turns : Turns k fs rs
  /-- The parent runs. -/
  current : k.current = 8
  /-- The idle task. -/
  idleTask : k.idleTask = 9
  /-- The list of children begins with the first one. -/
  first : (k.links (.kids 8)).next = .list 7
  /-- The first child and the idle task have no children. -/
  empty : ∀ t : Task, t = 7 ∨ t = 9 → IsRing k.links (.kids t) []
  /-- Nor has the last one. -/
  noKids : (k.links (.kids last)).next = .kids last
  /-- Nobody else has children. -/
  parent : ∀ t, (k.task t).parent = none ∨ (k.task t).parent = some 8
  /-- The directory of the first process, and of the last one. -/
  dir : ∀ t, t = 8 ∨ t = last → (k.task t).dirPagesBaseAddr = t
  /-- Every directory names the page table of its own slot. -/
  table : ∀ t, (k.mm.dirPages t).table = t

/-- The data of the process is in frames that can be given back. -/
def Kernel.CanReturn (k : Kernel) (t : Task) : Prop :=
  ∀ i < numPagData, Returnable (k.mm.getFrame (k.getPT t) (userLayout.pagLogInitData + i))

/-- A turn moves no data. -/
theorem SameFamily.canReturn (h : SameFamily k k') (hret : k.CanReturn t) : k'.CanReturn t := by
  obtain ⟨d, hd⟩ := h.mm
  have hPT : k'.getPT t = k.getPT t := by
    rw [Kernel.getPT, Kernel.getDIR, hd, h.field TaskStruct.dirPagesBaseAddr (fun _ _ => rfl)]
    rfl
  intro i hi
  rw [hPT, hd]
  exact hret i hi

/-- **The first child.** -/
theorem first_fork (ha : Alone k) (img : Image) (contents : Mem) :
    ∃ k₁, Step img k (.fork contents) k₁ ∧ Parent k₁ 7 otherTasks.tail [7] ∧
      (k₁.links (.kids 8)).prev = .list 7 ∧ (k₁.task 7).PID = k.pidCounter ∧
      k₁.pidCounter = wrapInt (k.pidCounter + 1) ∧
      freeSlots k₁.mm.physMem = (freeSlots k.mm.physMem).drop numPagData := by
  obtain ⟨mm, hf, hdirs, -, hphys⟩ := sysFork_alone ha img contents
  obtain ⟨-, -, hnext, -, -, hprev, hempty⟩ := forkFinish_links_alone ha img contents mm
  have ht := turns_forked ha img contents mm
  set k₁ := { forkBegun img contents k 7 with mm := mm }.forkFinish img 7 with hk₁
  have hcur : k.current ≠ k.idleTask := by
    rw [ha.current, ha.idleTask]
    decide
  have hself : k₁.task 7 = _ := forkFinish_self
  have hother : ∀ t, t ≠ 7 → k₁.task t = k.task t := fun t ht =>
    (forkFinish_of_ne ht).trans (forkBegun_of_ne ht)
  have hmm : k₁.mm = mm := rfl
  refine ⟨k₁, ⟨hcur, 0, ?_⟩, ?_, hprev, ?_, rfl, ?_⟩
  · rw [exec, hf]
    rfl
  · refine
      { turns := ht, current := ha.current, idleTask := ha.idleTask, first := hnext,
        empty := hempty, noKids := (hempty 7 (Or.inl rfl)).chain.1, parent := fun t => ?_,
        dir := fun t ht => ?_, table := fun t => ?_ }
    · by_cases ht : t = 7
      · rw [ht, hself]
        exact Or.inr (congrArg some ha.current)
      · rw [hother t ht]
        exact Or.inl (ha.parent t)
    · rcases ht with rfl | rfl
      · rw [hother 8 (by decide), ha.first]
      · rw [hself]
        change ((forkBegun img contents k 7).task 7).dirPagesBaseAddr = 7
        rw [forkBegun_self]
    · rw [hmm, hdirs]
      exact ha.table t
  · rw [hself]
    rfl
  · rw [hmm, hphys]
    exact freeSlots_mark _ _

/-- **The second child**, behind the first one on both lists. -/
theorem second_fork (h : Parent k 7 (6 :: fs) [7]) (hprev : (k.links (.kids 8)).prev = .list 7)
    (henough : numPagData ≤ (freeSlots k.mm.physMem).length)
    (hret : ∀ f ∈ freeSlots k.mm.physMem, Returnable f) (img : Image) (contents : Mem) :
    ∃ k₂, Step img k (.fork contents) k₂ ∧ Parent k₂ 6 fs [7, 6] ∧
      (k₂.task 6).PID = k.pidCounter ∧ k₂.CanReturn 6 := by
  have hcur : k.current = 8 := h.current
  have hlast : (k.links (.kids k.current)).prev = (k.links .readyqueue).prev := by
    rw [hcur, hprev]
    exact h.turns.ready.chain.2.2.2.symm
  have hring : IsRing k.links .freequeue (.list 6 :: fs.map .list) := h.turns.free
  obtain ⟨mm, hf, hdirs, htab, -⟩ := sysFork_child img contents hring (by rw [hcur]; decide)
    (by rw [hcur, h.dir 8 (Or.inl rfl)]) h.table henough
  obtain ⟨ht, hnone, hfirst, hkids⟩ := h.turns.fork hlast img contents mm
  rw [hcur] at hfirst hkids htab
  set k₂ := { forkBegun img contents k 6 with mm := mm }.forkFinish img 6 with hk₂
  have hself : k₂.task 6 = _ := forkFinish_self
  have hother : ∀ t, t ≠ 6 → k₂.task t = k.task t := fun t ht =>
    (forkFinish_of_ne ht).trans (forkBegun_of_ne ht)
  have hmm : k₂.mm = mm := rfl
  have hne : k.current ≠ k.idleTask := by
    rw [hcur, h.idleTask]
    decide
  have hdir : (k₂.task 6).dirPagesBaseAddr = 6 := by
    rw [hself]
    change ((forkBegun img contents k 6).task 6).dirPagesBaseAddr = 6
    rw [forkBegun_self]
  have htable : ∀ t, (k₂.mm.dirPages t).table = t := fun t => by
    rw [hmm, hdirs]
    exact h.table t
  refine ⟨k₂, ⟨hne, 0, ?_⟩, ?_, ?_, fun i hi => ?_⟩
  · rw [exec, hf]
    rfl
  · refine
      { turns := ht, current := hcur, idleTask := h.idleTask, first := hfirst.trans h.first,
        empty := fun t ht => (h.empty t ht).congr fun y hy => ?_, noKids := hnone,
        parent := fun t => ?_, dir := fun t ht => ?_, table := htable }
    · obtain rfl : y = .kids t := by simpa using hy
      refine hkids t ?_ ?_ <;> rcases ht with rfl | rfl <;> decide
    · by_cases ht : t = 6
      · rw [ht, hself]
        exact Or.inr (congrArg some hcur)
      · rw [hother t ht]
        exact h.parent t
    · rcases ht with rfl | rfl
      · rw [hother 8 (by decide)]
        exact h.dir 8 (Or.inl rfl)
      · exact hdir
  · rw [hself]
    rfl
  · have hm : (newFrames k.mm).getD i 0 ∈ newFrames k.mm :=
      getD_mem (by rw [length_newFrames henough]; exact hi)
    have hlt : (newFrames k.mm).getD i 0 < 2 ^ 20 := by
      have := (mem_newFrames hm).1.2.1
      unfold totalPages at this
      omega
    have hPT : k₂.getPT 6 = 6 := by
      rw [Kernel.getPT, Kernel.getDIR, hdir]
      exact htable 6
    rw [hPT, Mm.getFrame, hmm, htab, childTable_data hi, ssEntry_base hlt]
    exact hret _ (List.mem_of_mem_take hm)

end Zeos.E1E2
