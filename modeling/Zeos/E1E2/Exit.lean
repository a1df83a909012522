import Zeos.E1E2.Kids
import Zeos.E1E2.Turns

/-!
# Exiting

A process that exits is to hand its children over to the idle task, to give its data
frames back and to leave every list but the free queue (`Zeos.E1E2.HandsOver`).

`sys_exit` hands nobody over: with a child on its list the loop never ends
(`Zeos.E1E2.adoptKids_none`). It does not take the process off the list of its own
parent either, so a first child stays there, on what is now the free queue.
`Zeos.E1E2.exit_hands_over_iff` is the exact condition for an exit that does all it
should (`Zeos.E1E2.CleanExit`): no children, queues in order, and no list of children
that the PCB is on. A second child whose parent and whose brother wait for their
turns exits like that (`Zeos.E1E2.second_child_exits`).
-/

namespace Zeos.E1E2

open ByteMem CircList Loop Paging Transition X86

/-! ### What an exit should do -/

/-- The node is met by `list_for_each` over the list with the given head. -/
def OnList (σ : Heap Node) (h n : Node) : Prop :=
  Leads σ (fun m => m ≠ h ∧ m ≠ .null) (σ h).next n

/-- The frames of the data pages of the running task. -/
def Kernel.dataFrames (k : Kernel) : List Nat :=
  (List.range numPagData).map fun i =>
    k.mm.getFrame (k.getPT k.current) (userLayout.pagLogInitData + i)

/-- The queue is well-formed before and after the process that runs in `k` is gone, it
is not on it any more, and all others are on it that were, but for the one that runs
now. -/
def QueueKept (k k' : Kernel) (q : Node) : Prop :=
  ∃ l l' : List Task, IsRing k.links q (l.map .list) ∧ IsRing k'.links q (l'.map .list) ∧
    k.current ∉ l' ∧ ∀ t, t ≠ k.current → t ≠ k'.current → (t ∈ l' ↔ t ∈ l)

/-- **The process that runs in `k` is gone in `k'`**, and everything it had is handed
over. -/
structure HandedOver (k k' : Kernel) : Prop where
  /-- Its children are children of the idle task. -/
  adopted : ∀ t, Live k t → (k.task t).parent = some k.current →
    (k'.task t).parent = some k.idleTask ∧
      ∃ l : List Task, IsRing k'.links (.kids k.idleTask) (l.map .list) ∧ t ∈ l
  /-- The idle task still has the children it had. -/
  kept : ∃ l l' : List Task, IsRing k.links (.kids k.idleTask) (l.map .list) ∧
    IsRing k'.links (.kids k.idleTask) (l'.map .list) ∧ ∀ t ∈ l, t ∈ l'
  /-- Its PCB is free, as are all that were. -/
  free : ∃ l : List Task, IsRing k.links .freequeue (l.map .list) ∧
    IsRing k'.links .freequeue ((l ++ [k.current]).map .list)
  /-- The ready queue is in order. -/
  ready : QueueKept k k' .readyqueue
  /-- The queue of blocked processes is in order. -/
  blocked : QueueKept k k' .blocked
  /-- It is nobody's child. -/
  apart : ∀ q, q = k.idleTask ∨ Live k q → ¬OnList k'.links (.kids q) (.list k.current)
  /-- Its data frames are free, and only they. -/
  frames : ∀ f, k'.mm.physMem f =
    if f ∈ k.dataFrames then .freeFrame else k.mm.physMem f

/-- **An exit hands over all children**: it ends, and has done all it should. -/
def HandsOver (img : Image) (c : SwitchCtx) (k : Kernel) : Prop :=
  ∃ fuel k', k.sysExit img c fuel = some k' ∧ HandedOver k k'

/-! ### The links after an exit -/

variable {k k' : Kernel} {img : Image} {c : SwitchCtx} {fs rs : List Task}

/-- The links when the PCB has been put on the free queue. -/
def freedLinks (k : Kernel) : Heap Node := listAddTail k.links (.list k.current) .freequeue

/-- The end of an exit: the frames, the parents and the links it leaves behind. -/
structure Gone (k k' : Kernel) (rs : List Task) : Prop where
  /-- The bytemap. -/
  physMem : k'.mm.physMem = (Kernel.exitFree (k.getPT k.current) k.mm).physMem
  /-- Nobody has another parent. -/
  parent : ∀ t, (k'.task t).parent = (k.task t).parent
  /-- The links: the PCB is on the free queue, and the first ready task may have been
  taken off the ready queue. -/
  links : k'.links = freedLinks k ∨ ∃ a l, rs = a :: l ∧ k'.current = a ∧
    k'.links = listDel (freedLinks k) .null (.list a)
  /-- The first ready task runs. -/
  current : ∀ a l, rs = a :: l → k'.current = a

/-- **The end of an exit**, the ready queue being in order. -/
theorem gone_exitFinish (img : Image) (c : SwitchCtx)
    (hf : IsRing k.links .freequeue (fs.map .list))
    (hr : IsRing k.links .readyqueue (rs.map .list)) :
    ∃ k', k.exitFinish img c = some k' ∧ Gone k k' rs := by
  set k₁ : Kernel := { k with
    mm := Kernel.exitFree (k.getPT k.current) k.mm
    links := freedLinks k } with hk₁
  have hex : k.exitFinish img c = k₁.schedNextRr img c := rfl
  -- putting the PCB on the free queue leaves the head of the ready queue alone
  have hhead : k₁.links .readyqueue = k.links .readyqueue :=
    listAddTail_of_notMem hf (by simp) (notMem_free (by simp) (by simp))
  cases rs with
  | nil =>
    have hemp : listEmpty k₁.links .readyqueue = true := by
      rw [listEmpty, hhead, decide_eq_true_iff]
      exact hr.chain.1
    refine ⟨k₁.dispatch img c k₁.idleTask, ?_, rfl, fun _ => rfl, Or.inl rfl,
      fun a l h => absurd h (by simp)⟩
    rw [hex, Kernel.schedNextRr, if_pos hemp]
  | cons a l =>
    have hnext : (k₁.links .readyqueue).next = .list a := by
      rw [hhead]
      exact hr.chain.1
    have hemp : listEmpty k₁.links .readyqueue = false := by
      simp [listEmpty, hnext]
    refine ⟨(k₁.updateProcessStateRr a none).dispatch img c a, ?_, ?_, fun t => ?_, ?_, ?_⟩
    · rw [hex, Kernel.schedNextRr, hemp, listFirst, hnext]
      rfl
    · change (k₁.updateProcessStateRr a none).mm.physMem = k₁.mm.physMem
      rw [Kernel.updateProcessStateRr, Kernel.leaveQueue]
      split <;> rfl
    · change ((k₁.updateProcessStateRr a none).task t).parent = (k₁.task t).parent
      exact updateProcessStateRr_field TaskStruct.parent fun _ _ => rfl
    · change (k₁.updateProcessStateRr a none).links = _ ∨ ∃ b l', a :: l = b :: l' ∧ a = b ∧
        (k₁.updateProcessStateRr a none).links = _
      rw [Kernel.updateProcessStateRr, Kernel.leaveQueue]
      split
      · exact Or.inr ⟨a, l, rfl, rfl, rfl⟩
      · exact Or.inl rfl
    · rintro b l' h
      exact (List.cons.inj h).1

/-! ### An exit from queues in order -/

section Gone

variable {bs : List Task} {g n : Node} {l : List Node}

/-- A ring without the PCB stays when it is put on the free queue. -/
theorem isRing_freedLinks (hf : IsRing k.links .freequeue (fs.map .list))
    (hg : IsRing k.links g l) (hgf : g ∉ Node.freequeue :: fs.map .list)
    (hp : Node.list k.current ∉ g :: l) : IsRing (freedLinks k) g l :=
  isRing_listAddTail_other hg hf (fun _ hy => hf.disjoint hg hgf hy) hp

/-- The free queue gets the PCB. -/
theorem isRing_freedLinks_free (hf : IsRing k.links .freequeue (fs.map .list))
    (hp : k.current ∉ fs) :
    IsRing (freedLinks k) .freequeue ((fs ++ [k.current]).map .list) := by
  rw [List.map_append]
  exact isRing_listAddTail hf (by simpa using hp)

variable (hg : Gone k k' rs) (hf : IsRing k.links .freequeue (fs.map .list))
  (hr : IsRing k.links .readyqueue (rs.map .list)) (hp : k.current ∉ rs)

include hg hf hr hp

/-- The ready queue, from which the task that runs now may be gone. -/
theorem Gone.ready : ∃ rs', IsRing k'.links .readyqueue (rs'.map .list) ∧ k.current ∉ rs' ∧
    (rs' = rs ∧ k'.links = freedLinks k ∨
      rs = k'.current :: rs' ∧ k'.links = listDel (freedLinks k) .null (.list k'.current)) := by
  have hr' : IsRing (freedLinks k) .readyqueue (rs.map .list) :=
    isRing_freedLinks hf hr (notMem_free (by simp) (by simp)) (by simpa using hp)
  rcases hg.links with hl | ⟨a, l, rfl, rfl, hl⟩
  · refine ⟨rs, ?_, hp, Or.inl ⟨rfl, hl⟩⟩
    rw [hl]
    exact hr'
  · refine ⟨l, ?_, fun hm => hp (List.mem_cons_of_mem _ hm), Or.inr ⟨rfl, hl⟩⟩
    rw [hl]
    rw [List.map_cons] at hr'
    exact isRing_listDel_first hr'

/-- Rings outside the ready queue stay. -/
theorem Gone.ring (hgr : IsRing (freedLinks k) g l)
    (hgq : g ∉ Node.readyqueue :: rs.map .list) : IsRing k'.links g l := by
  have hr' : IsRing (freedLinks k) .readyqueue (rs.map .list) :=
    isRing_freedLinks hf hr (notMem_free (by simp) (by simp)) (by simpa using hp)
  rcases hg.links with hl | ⟨a, l, rfl, rfl, hl⟩
  · rw [hl]
    exact hgr
  · rw [hl]
    exact isRing_listDel_other hgr hr' (by simp) fun _ hx => hr'.disjoint hgr hgq hx

/-- The links of a node that is neither the PCB nor on one of the two queues. -/
theorem Gone.of_notMem (hn : n ≠ .list k.current) (hnf : n ∉ Node.freequeue :: fs.map .list)
    (hnr : n ∉ Node.readyqueue :: rs.map .list) : k'.links n = k.links n := by
  have hr' : IsRing (freedLinks k) .readyqueue (rs.map .list) :=
    isRing_freedLinks hf hr (notMem_free (by simp) (by simp)) (by simpa using hp)
  have hn' : freedLinks k n = k.links n := listAddTail_of_notMem hf hn hnf
  rcases hg.links with hl | ⟨a, l, rfl, rfl, hl⟩
  · rw [hl, hn']
  · rw [hl, listDel_of_notMem hr' (by simp) hnr, hn']

/-- The links from the ready queue stay in it, or lead nowhere. -/
theorem Gone.next_mem (hn : n ∈ Node.readyqueue :: rs.map .list) :
    (k'.links n).next ∈ Node.null :: Node.readyqueue :: rs.map .list := by
  obtain ⟨rs', hr', -, ⟨rfl, -⟩ | ⟨rfl, hl⟩⟩ := hg.ready hf hr hp
  · exact List.mem_cons_of_mem _ (hr'.next_mem hn)
  · by_cases hnc : n = .list k'.current
    · rw [hl, hnc, listDel_self]
      exact List.mem_cons_self
    · have hn' : n ∈ Node.readyqueue :: rs'.map .list := by
        rw [List.map_cons] at hn
        simp only [List.mem_cons] at hn ⊢
        tauto
      have hm := hr'.next_mem hn'
      rw [List.map_cons]
      simp only [List.mem_cons] at hm ⊢
      tauto

end Gone

/-! ### When an exit does all it should -/

/-- **A clean exit**: the process has no children, the queues are in order and it is
on none of them, and no list of children leads to it or to the free queue. -/
structure CleanExit (k : Kernel) : Prop where
  /-- Its list of children is empty. -/
  noKids : (k.links (.kids k.current)).next = .kids k.current ∨
    (k.links (.kids k.current)).next = .null
  /-- It has no children. -/
  childless : ∀ t, Live k t → (k.task t).parent ≠ some k.current
  /-- The queues are in order, and it is on none of them. -/
  queues : ∃ fs rs bs : List Task, IsRing k.links .freequeue (fs.map .list) ∧
    IsRing k.links .readyqueue (rs.map .list) ∧ IsRing k.links .blocked (bs.map .list) ∧
    k.current ∉ fs ∧ k.current ∉ rs ∧ k.current ∉ bs
  /-- The children of the idle task are in order. -/
  idleKids : ∃ l : List Task, IsRing k.links (.kids k.idleTask) (l.map .list)
  /-- It is on nobody's list of children, and no such list runs into the free queue. -/
  apart : ∀ q, q = k.idleTask ∨ Live k q →
    ¬OnList k.links (.kids q) (.list k.current) ∧ ¬OnList k.links (.kids q) .freequeue
  /-- Its data frames can be given back. -/
  frames : ∀ f ∈ k.dataFrames, Returnable f ∨ k.mm.physMem f = .freeFrame

/-- The bytemap after an exit. -/
theorem exitFree_physMem (k : Kernel) (f : Nat) :
    (Kernel.exitFree (k.getPT k.current) k.mm).physMem f =
      if f ∈ k.dataFrames ∧ Returnable f then .freeFrame else k.mm.physMem f := by
  have heq : Kernel.exitFree (k.getPT k.current) k.mm = _ :=
    forLoop_release k.mm (k.getPT k.current) userLayout.pagLogInitData numPagData rfl
  rw [heq]
  simp [mark, Kernel.dataFrames, Mm.getFrame]

/-- A process without children exits. -/
theorem sysExit_of_noKids (hpid : (k.task k.current).PID ≠ 1)
    (h : (k.links (.kids k.current)).next = .kids k.current ∨
      (k.links (.kids k.current)).next = .null) :
    k.sysExit img c 1 = k.exitFinish img c := by
  rw [Kernel.sysExit, if_neg hpid, listFirst]
  rcases h with h | h
  · rw [h, if_pos (by simp), Kernel.adoptKids, if_pos rfl]
    rfl
  · rw [h, if_neg (by simp)]

/-- A list of children that does not run into the free queue or the PCB before the
exit does not come to the PCB after it. -/
theorem not_onList_of_clean {q : Task} (hg : Gone k k' rs)
    (hf : IsRing k.links .freequeue (fs.map .list))
    (hr : IsRing k.links .readyqueue (rs.map .list)) (hp : k.current ∉ rs)
    (hq : ¬OnList k.links (.kids q) (.list k.current) ∧ ¬OnList k.links (.kids q) .freequeue) :
    ¬OnList k'.links (.kids q) (.list k.current) := by
  -- what the list of children meets before the exit is not on the free queue
  have hfree : ∀ n, OnList k.links (.kids q) n → n ∉ Node.freequeue :: fs.map .list := by
    intro n hn hm
    refine hq.2 (hn.trans (hf.leads_head hm fun y hy => ?_))
    obtain ⟨t, -, rfl⟩ := List.mem_map.mp hy
    simp
  have hself : ∀ n, OnList k.links (.kids q) n → n ≠ .list k.current := by
    rintro n hn rfl
    exact hq.1 hn
  intro hw
  have hend := hw.closed (S := {n | n ∈ Node.null :: Node.readyqueue :: rs.map .list ∨
    OnList k.links (.kids q) n}) ?_ ?_
  · rcases hend with hm | hm
    · exact hp (by simpa using hm)
    · exact hself _ hm rfl
  · rw [hg.of_notMem hf hr hp (by simp) (notMem_free (by simp) (by simp)) (by simp)]
    exact Or.inr Leads.refl
  · rintro n hn ⟨hnq, hn0⟩
    by_cases hnr : n ∈ Node.readyqueue :: rs.map .list
    · exact Or.inl (hg.next_mem hf hr hp hnr)
    · have hon : OnList k.links (.kids q) n :=
        hn.resolve_left fun hm => hnr ((List.mem_cons.mp hm).resolve_left hn0)
      rw [Set.mem_ofPred_eq, hg.of_notMem hf hr hp (hself n hon) (hfree n hon) hnr]
      exact Or.inr (hon.tail ⟨hnq, hn0⟩)

/-- A clean exit ends, and hands everything over. -/
theorem handsOver_of_clean (hpid : (k.task k.current).PID ≠ 1) (h : CleanExit k) :
    HandsOver img c k := by
  obtain ⟨fs, rs, bs, hf, hr, hb, hpf, hpr, hpb⟩ := h.queues
  obtain ⟨k', hs, hg⟩ := gone_exitFinish img c hf hr
  obtain ⟨rs', hr', hpr', hrs⟩ := hg.ready hf hr hpr
  obtain ⟨l, hl⟩ := h.idleKids
  refine ⟨1, k', (sysExit_of_noKids hpid h.noKids).trans hs, ?_⟩
  -- the list of children of the idle task is a ring that the PCB is not on
  have hpl : Node.list k.current ∉ Node.kids k.idleTask :: l.map .list := by
    intro hm
    refine (h.apart k.idleTask (Or.inl rfl)).1 (hl.leads_mem (by simpa using hm) fun y hy => ?_)
    obtain ⟨t, -, rfl⟩ := List.mem_map.mp hy
    simp
  refine
    { adopted := fun t ht hpar => absurd hpar (h.childless t ht)
      kept := ⟨l, l, hl, hg.ring hf hr hpr (isRing_freedLinks hf hl (notMem_free (by simp)
        (by simp)) hpl) (by simp), fun _ ht => ht⟩
      free := ⟨fs, hf, hg.ring hf hr hpr (isRing_freedLinks_free hf hpf) (by simp)⟩
      ready := ⟨rs, rs', hr, hr', hpr', fun t _ htc => ?_⟩
      blocked := ⟨bs, bs, hb, hg.ring hf hr hpr (isRing_freedLinks hf hb (notMem_free (by simp)
        (by simp)) (by simpa using hpb)) (by simp), hpb, fun _ _ _ => Iff.rfl⟩
      apart := fun q hq => not_onList_of_clean hg hf hr hpr (h.apart q hq)
      frames := fun f => ?_ }
  · rcases hrs with ⟨rfl, -⟩ | ⟨rfl, -⟩
    · exact Iff.rfl
    · simp [htc]
  · rw [hg.physMem, exitFree_physMem]
    by_cases hfd : f ∈ k.dataFrames
    · rcases h.frames f hfd with hret | hfree
      · rw [if_pos ⟨hfd, hret⟩, if_pos hfd]
      · rw [if_pos hfd, hfree, ite_self]
    · rw [if_neg fun hc => hfd hc.1, if_neg hfd]

/-! ### An exit that hands everything over is clean -/

/-- A queue that keeps the links of all its nodes but the PCB leads to the PCB if it
is on it. -/
theorem leads_of_same {g : Node} {l : List Task} (hr : IsRing k.links g (l.map .list))
    (hm : k.current ∈ l)
    (heq : ∀ n ∈ g :: l.map .list, n ≠ .list k.current → (k'.links n).next = (k.links n).next) :
    Leads k'.links (fun _ => True) g (.list k.current) := by
  obtain ⟨l₁, l₂, rfl⟩ := List.append_of_mem hm
  have hnd := hr.nodup
  have hc := hr.chain
  rw [List.map_append, List.map_cons] at hc hnd
  have hw : Leads k.links (fun n => n ∈ g :: l₁.map .list) g (.list k.current) :=
    (chain_append.mp hc).1.leads fun _ hy => hy
  refine hw.congr fun n _ hn => ⟨trivial, heq n ?_ ?_⟩
  · rw [List.map_append, ← List.cons_append]
    exact List.mem_append_left _ hn
  · rintro rfl
    rw [← List.cons_append, List.nodup_append] at hnd
    exact hnd.2.2 _ hn _ List.mem_cons_self rfl

/-- The links of the ready queue when the PCB has been put on the free queue. -/
theorem freedLinks_of_mem_ready (hf : IsRing k.links .freequeue (fs.map .list))
    (hr : IsRing k.links .readyqueue (rs.map .list)) {n : Node}
    (hn : n ∈ Node.readyqueue :: rs.map .list) (hne : n ≠ .list k.current) :
    freedLinks k n = k.links n :=
  listAddTail_of_notMem hf hne (hf.disjoint hr (notMem_free (by simp) (by simp)) hn)

/-- **The process that exits was not on the ready queue.** -/
theorem notMem_ready {l : List Task} (hg : Gone k k' rs)
    (hf : IsRing k.links .freequeue (fs.map .list))
    (hf' : IsRing k'.links .freequeue ((fs ++ [k.current]).map .list))
    (hr : IsRing k.links .readyqueue (rs.map .list))
    (hr' : IsRing k'.links .readyqueue (l.map .list)) (hl : k.current ∉ l) : k.current ∉ rs := by
  intro hm
  -- otherwise the ready queue still leads to it
  suffices hw : Leads k'.links (fun _ => True) .readyqueue (.list k.current) by
    exact hl (by simpa using hr'.mem_of_leads hw List.mem_cons_self)
  rcases hg.links with hlinks | ⟨a, rs, rfl, -, hlinks⟩
  · refine leads_of_same hr hm fun n hn hne => ?_
    rw [hlinks, freedLinks_of_mem_ready hf hr hn hne]
  · have hac : Node.list a ≠ .list k.current := by
      intro hac
      -- a PCB that has just been taken off its list is not on the free queue
      have hnull := hf'.next_mem (x := .list k.current) (by simp)
      rw [hlinks, hac, listDel_self] at hnull
      simp at hnull
    have hm' : k.current ∈ rs := (List.mem_cons.mp hm).resolve_left fun he => hac (by rw [he])
    have ha : freedLinks k (.list a) = k.links (.list a) :=
      freedLinks_of_mem_ready hf hr (by simp) hac
    have hnd := hr.nodup
    obtain ⟨-, hprev, hc⟩ := hr.chain
    obtain ⟨l₁, l₂, rfl⟩ := List.append_of_mem hm'
    have hfirst : (k'.links .readyqueue).next = (k.links (.list a)).next := by
      rw [hlinks, listDel_of_ne (by simp), next_bypass, ha, hprev, if_pos rfl]
    refine Leads.head trivial ?_
    rw [hfirst]
    rw [List.map_append, List.map_cons] at hc
    have hwalk : Leads k.links (fun n => n ∈ l₁.map Node.list) (k.links (.list a)).next
        (.list k.current) := (chain_append.mp hc).1.leads_next fun _ hy => hy
    refine hwalk.congr fun n _ hn => ⟨trivial, ?_⟩
    obtain ⟨t, ht, rfl⟩ := List.mem_map.mp hn
    have hnd' : (a :: (l₁ ++ k.current :: l₂)).Nodup :=
      List.Nodup.of_map Node.list (List.nodup_cons.mp hnd).2
    have hta : Node.list t ≠ .list a := by
      rintro he
      obtain rfl := Node.list.inj he
      exact (List.nodup_cons.mp hnd').1 (List.mem_append_left _ ht)
    have htc : Node.list t ≠ .list k.current := by
      rintro he
      obtain rfl := Node.list.inj he
      exact (List.nodup_append.mp (List.nodup_cons.mp hnd').2).2.2 _ ht _ List.mem_cons_self rfl
    rw [hlinks, listDel_of_ne hta, next_bypass, ha, hprev, if_neg (by simp),
      freedLinks_of_mem_ready hf hr (by simp [ht]) htc]

/-- A list of children that does not come to the PCB after the exit does not come to
it, nor to the free queue, before. -/
theorem not_onList_before {q : Task} {n : Node} (hg : Gone k k' rs)
    (hf : IsRing k.links .freequeue (fs.map .list))
    (hf' : IsRing k'.links .freequeue ((fs ++ [k.current]).map .list))
    (hr : IsRing k.links .readyqueue (rs.map .list)) (hp : k.current ∉ rs)
    (hq : ¬OnList k'.links (.kids q) (.list k.current))
    (hn : n = .list k.current ∨ n ∈ Node.freequeue :: fs.map .list) :
    ¬OnList k.links (.kids q) n := by
  intro hw
  have hdis : ∀ x, x ∈ Node.readyqueue :: rs.map .list →
      ¬(x = .list k.current ∨ x ∈ Node.freequeue :: fs.map .list) := by
    rintro x hx (rfl | hxf)
    · exact hp (by simpa using hx)
    · exact hf.disjoint hr (notMem_free (by simp) (by simp)) hx hxf
  -- the first node it comes to that an exit changes is the PCB or on the free queue
  obtain ⟨m, hm, hwm, hmn⟩ := hw.first (S := {x | (x = .list k.current ∨
    x ∈ Node.freequeue :: fs.map .list) ∨ x ∈ Node.readyqueue :: rs.map .list}) (Or.inl hn)
  have hm' : m = .list k.current ∨ m ∈ Node.freequeue :: fs.map .list :=
    hm.resolve_right fun hmr => hdis n (hr.mem_of_leads hmn hmr) hn
  have hwm' : OnList k'.links (.kids q) m := by
    rw [OnList, hg.of_notMem hf hr hp (by simp) (notMem_free (by simp) (by simp)) (by simp)]
    refine hwm.congr fun x _ hx => ⟨hx.1, ?_⟩
    rw [hg.of_notMem hf hr hp (fun he => hx.2 (Or.inl (Or.inl he)))
      (fun he => hx.2 (Or.inl (Or.inr he))) fun he => hx.2 (Or.inr he)]
  -- and from there the free queue leads to the PCB
  refine hq ?_
  rcases hm' with rfl | hmf
  · exact hwm'
  · rw [List.map_append] at hf'
    refine hwm'.trans ((chain_append.mp hf'.chain).1.leads_of_mem hmf fun y hy => ?_)
    rcases List.mem_cons.mp hy with rfl | hy
    · simp
    · obtain ⟨t, -, rfl⟩ := List.mem_map.mp hy
      simp

/-- **An exit that hands everything over is clean.** -/
theorem clean_of_handsOver (hcur : k.current ≠ k.idleTask) (hpid : (k.task k.current).PID ≠ 1)
    (h : HandsOver img c k) : CleanExit k := by
  obtain ⟨fuel, k', hs, h⟩ := h
  obtain ⟨hno, hex⟩ : _ ∧ k.exitFinish img c = some k' :=
    (sysExit_cases hs).elim (fun h1 => absurd h1.1 hpid) fun h2 => h2.2
  obtain ⟨fs, hf, hf'⟩ := h.free
  obtain ⟨rs, rs', hr, hr', hpr', -⟩ := h.ready
  obtain ⟨bs, bs', hb, hb', hpb', -⟩ := h.blocked
  obtain ⟨l, -, hl, -, -⟩ := h.kept
  obtain ⟨k'', hex', hg⟩ := gone_exitFinish img c hf hr
  obtain rfl : k'' = k' := Option.some.inj (hex'.symm.trans hex)
  have hpr := notMem_ready hg hf hf' hr hr' hpr'
  have hpf : k.current ∉ fs := by
    have hnd := List.Nodup.of_map Node.list (List.nodup_cons.mp hf'.nodup).2
    exact fun hm => (List.nodup_append.mp hnd).2.2 _ hm _ (List.mem_singleton_self _) rfl
  have hpb : k.current ∉ bs := by
    intro hm
    have hw : Leads k''.links (fun _ => True) .blocked (.list k.current) :=
      leads_of_same hb hm fun n hn hne => by
        rw [hg.of_notMem hf hr hpr hne (hf.disjoint hb (notMem_free (by simp) (by simp)) hn)
          (hr.disjoint hb (by simp) hn)]
    exact hpb' (by simpa using hb'.mem_of_leads hw List.mem_cons_self)
  refine ⟨hno, fun t ht hpar => ?_, ⟨fs, rs, bs, hf, hr, hb, hpf, hpr, hpb⟩, ⟨l, hl⟩,
    fun q hq => ⟨?_, ?_⟩, fun f hfd => ?_⟩
  · have hpar' := (h.adopted t ht hpar).1
    rw [hg.parent, hpar] at hpar'
    exact hcur (Option.some.inj hpar')
  · exact not_onList_before hg hf hf' hr hpr (h.apart q hq) (Or.inl rfl)
  · exact not_onList_before hg hf hf' hr hpr (h.apart q hq) (Or.inr List.mem_cons_self)
  · have hfr := h.frames f
    rw [hg.physMem, exitFree_physMem, if_pos hfd] at hfr
    by_cases hret : Returnable f
    · exact Or.inl hret
    · rw [if_neg fun hc => hret hc.2] at hfr
      exact Or.inr hfr

/-- **When the first child runs, it is on the list of its parent.** -/
theorem first_child_runs (ha : Alone k) (img : Image) (contents : Mem) (c : SwitchCtx) :
    ∃ k₂ k₃, Step img k (.fork contents) k₂ ∧ Step img k₂ (.block c) k₃ ∧ k₃.current = 7 ∧
      k₃.idleTask = 9 ∧ (k₃.task 7).PID = k.pidCounter ∧ Live k₃ 8 ∧
      (k₃.links (.kids 8)).next = .list 7 := by
  obtain ⟨k₂, hfork, hp, -, hpid, -, -⟩ := first_fork ha img contents
  obtain ⟨k₃, hblock, hcur, ht, hsame⟩ := hp.turns.block img c
  have hne : k₂.current ≠ k₂.idleTask := by
    rw [hp.current, hp.idleTask]
    decide
  have hidle : k₃.idleTask = 9 := hsame.idleTask.trans hp.idleTask
  refine ⟨k₂, k₃, hfork, ⟨hne, 0, hblock⟩, hcur, hidle, ?_, ⟨?_, ?_⟩, ?_⟩
  · exact (hsame.field TaskStruct.PID (fun _ _ => rfl) 7).trans hpid
  · rintro ⟨l, hl, hm⟩
    rw [hl.unique ht.free] at hm
    simp [otherTasks] at hm
  · rw [hidle]
    decide
  · rw [hsame.kids]
    exact hp.first

/-! ### An exit that is clean -/

/-- **When a process that takes turns exits cleanly**: nobody is its child, and every
list of children is empty or leads to the ready queue. -/
theorem cleanExit_of_turns {l : List Task} (ht : Turns k fs rs)
    (hno : (k.links (.kids k.current)).next = .kids k.current)
    (hparent : ∀ t, (k.task t).parent ≠ some k.current)
    (hidle : IsRing k.links (.kids k.idleTask) (l.map .list))
    (hkids : ∀ q, q ∉ fs → (k.links (.kids q)).next = .kids q ∨
      (k.links (.kids q)).next ∈ Node.readyqueue :: rs.map .list)
    (hfree : k.idleTask ∉ fs) (hret : k.CanReturn k.current) : CleanExit k := by
  -- no list of children comes to a node outside the ready queue but its own head
  have happart : ∀ q n, q ∉ fs → n ≠ .kids q → n ∉ Node.readyqueue :: rs.map .list →
      ¬OnList k.links (.kids q) n := by
    intro q n hq hnq hnr hw
    rcases hkids q hq with hself | hready
    · have hm : n ∈ ({.kids q} : Set Node) := hw.closed hself fun x hx _ => by
        rw [Set.mem_singleton_iff.mp hx]
        exact hself
      exact hnq hm
    · exact hnr (ht.ready.mem_of_leads hw hready)
  refine
    { noKids := Or.inl hno, childless := fun t _ => hparent t,
      queues := ⟨fs, rs, [], ht.free, ht.ready, ht.blocked, ht.notFree, ht.notReady, by simp⟩,
      idleKids := ⟨l, hidle⟩, apart := fun q hq => ?_, frames := fun f hf => Or.inl ?_ }
  · have hqf : q ∉ fs := by
      rcases hq with rfl | hlive
      · exact hfree
      · exact fun hm => hlive.1 ⟨_, ht.free, List.mem_map_of_mem hm⟩
    exact ⟨happart q _ hqf (by simp) (by simpa using ht.notReady),
      happart q _ hqf (by simp) (by simp)⟩
  · obtain ⟨i, hi, rfl⟩ := List.mem_map.mp hf
    exact hret i (List.mem_range.mp hi)

/-- **The last child of the first process exits cleanly** when it runs and the first one
is ready. -/
theorem Parent.cleanExit {last : Task} {rs' : List Task} (hp : Parent k last fs rs)
    (hsame : SameFamily k k') (ht : Turns k' fs rs') (hcur : k'.current = last) (h7 : 7 ∈ rs')
    (hlast : last ≠ 8) (hfs : ∀ t, t ∉ fs ↔ t ∈ [last, 7, 8, 9]) (hret : k.CanReturn last) :
    CleanExit k' := by
  have hidle : k'.idleTask = 9 := hsame.idleTask.trans hp.idleTask
  have hidleKids : IsRing k'.links (.kids 9) [] :=
    (hp.empty 9 (Or.inr rfl)).congr fun y hy => by
      rw [List.mem_singleton.mp hy]
      exact hsame.kids 9
  rw [← hidle] at hidleKids
  refine cleanExit_of_turns (l := []) ht ?_ (fun t => ?_) hidleKids (fun q hq => ?_) ?_ ?_
  · rw [hcur, hsame.kids]
    exact hp.noKids
  · rw [hcur, hsame.field TaskStruct.parent fun _ _ => rfl]
    rcases hp.parent t with h | h <;> simp [h, hlast.symm]
  · rw [hsame.kids]
    have hq' : q = last ∨ q = 8 ∨ q = 7 ∨ q = 9 := by
      have := (hfs q).mp hq
      simp only [List.mem_cons, List.not_mem_nil, or_false] at this
      tauto
    rcases hq' with rfl | rfl | hq'
    · exact Or.inl hp.noKids
    · rw [hp.first]
      exact Or.inr (List.mem_cons_of_mem _ (List.mem_map_of_mem h7))
    · exact Or.inl (hp.empty q hq').chain.1
  · rw [hidle, hfs]
    simp
  · rw [hcur]
    exact hsame.canReturn hret

/-- After boot every free frame can be given back. -/
theorem returnable_booted {k₀ : Kernel} {f : Nat}
    (h : f ∈ freeSlots (booted img k₀).mm.physMem) : Returnable f := by
  obtain ⟨⟨-, hlt, -⟩, -⟩ := mem_freeSlots.mp h
  rw [freeSlots_booted, List.mem_drop_iff_getElem] at h
  obtain ⟨i, hi, rfl⟩ := h
  refine ⟨?_, hlt⟩
  simp only [slots, List.getElem_map, List.getElem_range]
  unfold numPagCode
  omega

/-- **The second child exits as it should**: it is on the list of nobody, for its parent's
list of children runs into the ready queue behind the first child. -/
theorem second_child_exits {k₀ : Kernel} (hl : Loaded k₀) (img : Image) (contents contents' : Mem)
    (c c' c'' : SwitchCtx) :
    ∃ k₁ k₂ k₃ k₄, Step img (booted img k₀) (.fork contents) k₁ ∧
      Step img k₁ (.fork contents') k₂ ∧ Step img k₂ (.block c) k₃ ∧ Step img k₃ (.block c') k₄ ∧
      k₄.current = 6 ∧ HandsOver img c'' k₄ := by
  obtain ⟨k₁, hs₁, hp₁, hprev, -, hpid, hfree⟩ := first_fork (alone_booted hl img) img contents
  rw [freeSlots_booted, List.drop_drop] at hfree
  have henough : numPagData ≤ (freeSlots k₁.mm.physMem).length := by
    rw [hfree, List.length_drop, length_slots]
    decide
  have hret : ∀ f ∈ freeSlots k₁.mm.physMem, Returnable f := by
    intro f hf
    refine @returnable_booted img k₀ f ?_
    rw [freeSlots_booted]
    rw [hfree, ← List.drop_drop] at hf
    exact List.mem_of_mem_drop hf
  obtain ⟨k₂, hs₂, hp₂, hpid₂, hdata⟩ :=
    second_fork hp₁ hprev henough hret img contents'
  obtain ⟨k₃, hs₃, hcur₃, ht₃, hsame₃⟩ := hp₂.turns.block img c
  rw [hp₂.current] at ht₃
  change Turns k₃ _ (6 :: [8]) at ht₃
  obtain ⟨k₄, hs₄, hcur₄, ht₄, hsame₄⟩ := ht₃.block img c'
  rw [hcur₃] at ht₄
  have hsame := hsame₃.trans hsame₄
  have hclean := hp₂.cleanExit hsame ht₄ hcur₄ (by simp) (by decide) (by decide) hdata
  have hen₂ : k₂.current ≠ k₂.idleTask := by
    rw [hp₂.current, hp₂.idleTask]
    decide
  have hen₃ : k₃.current ≠ k₃.idleTask := by
    rw [hcur₃, hsame₃.idleTask, hp₂.idleTask]
    decide
  have hpid₄ : (k₄.task k₄.current).PID ≠ 1 := by
    rw [hcur₄, hsame.field TaskStruct.PID (fun _ _ => rfl), hpid₂, hpid, booted_pidCounter,
      hl.pidCounter]
    decide
  exact ⟨k₁, k₂, k₃, k₄, hs₁, hs₂, ⟨hen₂, 0, hs₃⟩, ⟨hen₃, 0, hs₄⟩, hcur₄,
    handsOver_of_clean hpid₄ hclean⟩

end Zeos.E1E2
