import Zeos.Lib.Walk
import Zeos.E1E2.Unblock

/-!
# The walk over the children

`sys_unblock` looks for a child along the links from the head of the caller's list of
children, and only a PCB with the right PID or the head itself ends the walk. A PCB
on that list has long been put on a queue, with the same links, so the walk runs on
along the queue. It does not come back from there: outside the lists of children, **no
link leads to the head of one** (`Zeos.E1E2.KidsApart`), in any state the kernel can
reach (`Zeos.E1E2.kidsApart_of_reachable`).

* `Zeos.E1E2.unblock_returns_iff` says when `sys_unblock` returns as it should: when
  the caller has no PCB on its list and no live child with the PID, or when it has such
  a child and the links come to a PCB with the PID. A process with children that asks
  for a PID none of them has never gets an answer.
* `Zeos.E1E2.unblock_never_returns` is the first such call: the kernel loops for ever,
  between the child and the ready queue.
-/

namespace Zeos.E1E2

open ByteMem CircList Transition X86

/-! ### Links to the heads of the lists of children -/

/-- The node is the head of a list of children. -/
def IsKids (n : Node) : Prop := ∃ t, n = .kids t

/-- **No link leads to the head of a list of children**, but for the links of such
heads – and for those of the node `e`, which is about to be linked again. -/
def KidsApart (e : Node) (σ : Heap Node) : Prop :=
  ∀ n, n ≠ .null → n ≠ e → ¬IsKids n → ¬IsKids (σ n).next ∧ ¬IsKids (σ n).prev

section Apart

variable {σ : Heap Node} {e n q : Node} {t : Task}

theorem isKids_kids : IsKids (.kids t) := ⟨t, rfl⟩

theorem not_isKids_null : ¬IsKids .null := by simp [IsKids]

theorem not_isKids_list : ¬IsKids (.list t) := by simp [IsKids]

theorem not_isKids_queue (hq : q = .freequeue ∨ q = .readyqueue ∨ q = .blocked) : ¬IsKids q := by
  rcases hq with rfl | rfl | rfl <;> simp [IsKids]

/-- A PCB put on a queue: the links it had do not matter. -/
theorem kidsApart_listAddTail (h : KidsApart e σ) (hq : q = .freequeue ∨ q = .readyqueue ∨
    q = .blocked) (he : e = .null ∨ e = .list t) :
    KidsApart .null (listAddTail σ (.list t) q) := by
  have hqk := not_isKids_queue hq
  have hqe : q ≠ .null ∧ q ≠ e := by
    rcases hq with rfl | rfl | rfl <;> rcases he with rfl | rfl <;> simp
  have hlast := (h q hqe.1 hqe.2 hqk).2
  intro y hy _ hyk
  rw [show listAddTail σ (.list t) q = linkBetween σ (.list t) (σ q).prev q from rfl,
    next_linkBetween, prev_linkBetween]
  by_cases hyt : y = .list t
  · subst hyt
    refine ⟨?_, by simpa using hlast⟩
    split
    · exact not_isKids_list
    · simpa using hqk
  · have hye : y ≠ e := by
      rcases he with rfl | rfl
      · exact hy
      · exact hyt
    have hy' := h y hy hye hyk
    rw [if_neg hyt, if_neg hyt]
    constructor
    · split
      · exact not_isKids_list
      · exact hy'.1
    · split
      · exact not_isKids_list
      · exact hy'.2

/-- A PCB put on a list of children. -/
theorem kidsApart_listAddTail_kids (h : KidsApart .null σ) :
    KidsApart (.list t) (listAddTail σ (.list t) q) := by
  intro y hy hyt hyk
  have hy' := h y hy hy hyk
  rw [show listAddTail σ (.list t) q = linkBetween σ (.list t) (σ q).prev q from rfl,
    next_linkBetween, prev_linkBetween, if_neg hyt, if_neg hyt]
  constructor
  · split
    · exact not_isKids_list
    · exact hy'.1
  · split
    · exact not_isKids_list
    · exact hy'.2

/-- A PCB taken off its list. -/
theorem kidsApart_listDel (h : KidsApart .null σ) :
    KidsApart .null (listDel σ .null (.list t)) := by
  have ht := h (.list t) (by simp) (by simp) not_isKids_list
  intro y hy hye hyk
  by_cases hyt : y = .list t
  · subst hyt
    rw [listDel_self]
    exact ⟨not_isKids_null, not_isKids_null⟩
  · have hy' := h y hy hye hyk
    rw [listDel_of_ne hyt, next_bypass, prev_bypass]
    constructor
    · split
      · exact ht.1
      · exact hy'.1
    · split
      · exact ht.2
      · exact hy'.2

/-- A list of children initialised. -/
theorem kidsApart_initListHead (h : KidsApart e σ) :
    KidsApart e (initListHead σ (.kids t)) := by
  intro y hy hye hyk
  have hyt : y ≠ .kids t := by
    rintro rfl
    exact hyk isKids_kids
  rw [initListHead_of_ne hyt]
  exact h y hy hye hyk

end Apart

variable {k k' k₀ k₁ : Kernel} {img : Image} {c : SwitchCtx} {t child : Task} {pid : Int}
  {stray : Node → Int}

/-! ### Every reachable state has its lists of children apart -/

theorem kidsApart_updateProcessStateRr {q : Option Node} (h : KidsApart .null k.links)
    (hq : ∀ n, q = some n → n = .freequeue ∨ n = .readyqueue ∨ n = .blocked) :
    KidsApart .null (k.updateProcessStateRr t q).links := by
  have hl : KidsApart .null (k.leaveQueue t).links := by
    unfold Kernel.leaveQueue
    split
    · exact kidsApart_listDel h
    · exact h
  unfold Kernel.updateProcessStateRr
  cases q with
  | none => exact hl
  | some q =>
    dsimp only
    split <;> exact kidsApart_listAddTail hl (hq q rfl) (Or.inl rfl)

theorem kidsApart_schedNextRr (h : KidsApart .null k.links)
    (hs : k.schedNextRr img c = some k') : KidsApart .null k'.links := by
  rcases schedNextRr_cases hs with rfl | ⟨u, -, rfl⟩
  · exact h
  · exact kidsApart_updateProcessStateRr (t := u) (q := none) h (by simp)

theorem kidsApart_schedule (h : KidsApart .null k.links) (hs : k.schedule img c = some k') :
    KidsApart .null k'.links := by
  obtain ⟨ticks, rfl | hs⟩ := schedule_cases hs
  · exact h
  · exact kidsApart_schedNextRr (kidsApart_updateProcessStateRr
      (k := { k with queueTicks := ticks }) h (by simp)) hs

theorem kidsApart_sysExit {fuel : Nat} (h : KidsApart .null k.links)
    (hs : k.sysExit img c fuel = some k') : KidsApart .null k'.links := by
  rcases sysExit_cases hs with ⟨-, rfl⟩ | ⟨-, -, hs⟩
  · exact h
  · exact kidsApart_schedNextRr
      (k := { k with
        mm := Kernel.exitFree (k.getPT k.current) k.mm
        links := listAddTail k.links (.list k.current) .freequeue })
      (kidsApart_listAddTail h (Or.inl rfl) (Or.inl rfl)) hs

theorem kidsApart_sysBlock (h : KidsApart .null k.links) (hs : k.sysBlock img c = some k') :
    KidsApart .null k'.links := by
  rw [Kernel.sysBlock] at hs
  split at hs
  · exact kidsApart_schedule
      (k := { k.setState k.current .stBlocked with
        links := listAddTail k.links (.list k.current) .blocked })
      (kidsApart_listAddTail h (Or.inr (Or.inr rfl)) (Or.inl rfl)) hs
  · obtain rfl := Option.some.inj hs
    exact h

theorem kidsApart_unblockKid (h : KidsApart .null k.links) :
    KidsApart .null (k.unblockKid t).links := by
  unfold Kernel.unblockKid
  split
  · exact kidsApart_listAddTail (kidsApart_listDel h) (Or.inr (Or.inl rfl)) (Or.inl rfl)
  · exact h

/-- The child has its PCB: its anchor has the links of the parent's. -/
theorem kidsApart_forkBegun {contents : Mem} (h : KidsApart .null k.links) :
    KidsApart .null (forkBegun img contents k child).links := by
  have hd : KidsApart .null (listDel k.links .null (.list child)) := kidsApart_listDel h
  intro y hy hye hyk
  have hyc : y ≠ .kids child := by
    rintro rfl
    exact hyk isKids_kids
  by_cases hyl : y = .list child
  · subst hyl
    have heq : (forkBegun img contents k child).links (.list child) =
        listDel k.links .null (.list child) (.list k.current) := by
      simp [forkBegun, Kernel.allocateDIR, Kernel.copyTaskUnion, Kernel.forkEnter]
    rw [heq]
    exact hd _ (by simp) (by simp) not_isKids_list
  · rw [forkBegun_links_of_ne hyl hyc]
    exact hd y hy hye hyk

/-- The child is linked: its anchor is on the list of children, and then on the ready
queue. -/
theorem kidsApart_forkFinish (h : KidsApart .null k.links) :
    KidsApart .null (k.forkFinish img child).links :=
  kidsApart_listAddTail (kidsApart_listAddTail_kids (kidsApart_initListHead h))
    (Or.inr (Or.inl rfl)) (Or.inr rfl)

theorem kidsApart_sysFork {contents : Mem} {r : Except Int Int} (h : KidsApart .null k.links)
    (hs : k.sysFork img contents = some (r, k')) : KidsApart .null k'.links := by
  rcases sysFork_cases hs with ⟨-, rfl⟩ | ⟨child, -, -, ⟨mm, -, rfl⟩ | ⟨mm, -, rfl⟩⟩
  · exact h
  · exact kidsApart_listAddTail (kidsApart_forkBegun h) (Or.inl rfl) (Or.inl rfl)
  · exact kidsApart_forkFinish (k := { forkBegun img contents k child with mm := mm })
      (kidsApart_forkBegun h)

/-- **One step** keeps the lists of children apart. -/
theorem kidsApart_step {op : Op} (h : KidsApart .null k.links) (hs : Step img k op k') :
    KidsApart .null k'.links := by
  obtain ⟨-, fuel, hx⟩ := hs
  cases op with
  | clock =>
    obtain rfl := Option.some.inj hx
    exact h
  | fork contents =>
    obtain ⟨⟨r, k₁⟩, hf, rfl⟩ := Option.map_eq_some_iff.mp hx
    exact kidsApart_sysFork h hf
  | exit c => exact kidsApart_sysExit h hx
  | block c => exact kidsApart_sysBlock h hx
  | unblock pid stray =>
    obtain ⟨⟨r, k₁⟩, hu, rfl⟩ := Option.map_eq_some_iff.mp hx
    rcases finds_of_sysUnblock hu with ⟨-, rfl⟩ | ⟨t, -, -, rfl⟩
    · exact h
    · exact kidsApart_unblockKid h
  | touch page =>
    obtain rfl := Option.some.inj hx
    exact h

theorem kidsApart_booted : KidsApart .null (booted img k).links := by
  have hq : Quiescent (booted img k).links [7, 6, 5, 4, 3, 2, 1, 0] [8, 9] := quiescent_booted
  -- the anchors of the two processes have been taken off the free queue
  have hl9 : (idled img k).links =
      initListHead (listDel (scheduled k).links .null (.list 9)) (.kids 9) := rfl
  have hl8 : (booted img k).links =
      initListHead (listDel (idled img k).links .null (.list 8)) (.kids 8) := rfl
  have h8 : (booted img k).links (.list 8) = ⟨.null, .null⟩ := by
    rw [hl8, initListHead_of_ne (by simp), listDel_self]
  have h9 : (booted img k).links (.list 9) = ⟨.null, .null⟩ := by
    rw [hl8, initListHead_of_ne (by simp), listDel_of_notMem quiescent_idled.free (by simp)
      (by simp), hl9, initListHead_of_ne (by simp), listDel_self]
  generalize (booted img k).links = σ at hq h8 h9 ⊢
  have hfree : ∀ y ∈ Node.freequeue :: otherTasks.map .list,
      ¬IsKids (σ y).next ∧ ¬IsKids (σ y).prev := by
    have hout : ∀ y ∈ Node.freequeue :: otherTasks.map .list, ¬IsKids y := by
      simp [otherTasks, IsKids]
    exact fun y hy => ⟨hout _ (hq.free.next_mem hy), hout _ (hq.free.prev_mem hy)⟩
  intro y hy _ hyk
  cases y with
  | null => exact absurd rfl hy
  | freequeue => exact hfree _ (by simp)
  | readyqueue => simp [hq.ready.chain.1, hq.ready.chain.2, IsKids]
  | blocked => simp [hq.blocked.chain.1, hq.blocked.chain.2, IsKids]
  | kids t => exact absurd isKids_kids hyk
  | list t =>
    by_cases ht : t ∈ otherTasks
    · exact hfree _ (by simpa using ht)
    · rcases notMem_otherTasks t ht with rfl | rfl
      · rw [h8]
        exact ⟨not_isKids_null, not_isKids_null⟩
      · rw [h9]
        exact ⟨not_isKids_null, not_isKids_null⟩

/-- **No reachable state has a link to a list of children.** -/
theorem kidsApart_of_reachable (hb : k₀.boot img = some k₁) (hr : Reachable (Step img) k₁ k) :
    KidsApart .null k.links := by
  rw [boot_eq, Option.some.injEq] at hb
  subst hb
  exact hr.invariant kidsApart_booted fun _ _ _ h hs => kidsApart_step h hs

/-! ### The walk of `sys_unblock` -/

/-- The walk of `sys_unblock` goes on from the node: it is neither the head nor
`NULL`, nor a PCB with the PID, nor does a stray read find the PID there. -/
def Passes (k : Kernel) (pid : Int) (stray : Node → Int) (n : Node) : Prop :=
  n ≠ .kids k.current ∧
    match n with
    | .null => False
    | .list t => (k.task t).PID ≠ pid
    | n => stray n ≠ pid

/-- The walk comes to what it ends with. -/
def EndsWith (k : Kernel) (pid : Int) (stray : Node → Int) (pos : Node) : Option Task → Prop
  | none => Leads k.links (Passes k pid stray) pos (.kids k.current)
  | some t => (k.task t).PID = pid ∧ Leads k.links (Passes k pid stray) pos (.list t)

theorem findKid_of_passes {fuel : Nat} {n : Node} (h : Passes k pid stray n) :
    k.findKid pid stray (fuel + 1) n = k.findKid pid stray fuel (k.links n).next := by
  obtain ⟨hne, hn⟩ := h
  rw [Kernel.findKid.eq_def]
  dsimp only
  rw [if_neg hne]
  cases n with
  | null => exact hn.elim
  | _ => exact if_neg hn

theorem endsWith_of_passes {r : Option Task} {n : Node} (h : Passes k pid stray n)
    (hr : EndsWith k pid stray (k.links n).next r) : EndsWith k pid stray n r := by
  cases r with
  | none => exact hr.head h
  | some t => exact ⟨hr.1, hr.2.head h⟩

/-- A walk that does not go on has ended, or is given up. -/
theorem findKid_of_not_passes {fuel : Nat} {r : Option Task} {n : Node}
    (h : ¬Passes k pid stray n) (hf : k.findKid pid stray (fuel + 1) n = some r) :
    EndsWith k pid stray n r := by
  rw [Kernel.findKid.eq_def] at hf
  dsimp only at hf
  by_cases hh : n = .kids k.current
  · rw [if_pos hh] at hf
    obtain rfl := Option.some.inj hf
    rw [hh]
    exact Leads.refl
  · rw [if_neg hh] at hf
    have hstop : ∀ {p : Prop} [Decidable p] {x : Option (Option Task)}, ¬¬p →
        (if p then none else x) = some r → EndsWith k pid stray n r := by
      intro p _ x hp hx
      rw [if_pos (not_not.mp hp)] at hx
      exact absurd hx (by simp)
    cases n with
    | null => exact absurd hf (by simp)
    | list t =>
      have hpid : (k.task t).PID = pid := not_not.mp fun hne => h ⟨hh, hne⟩
      dsimp only at hf
      rw [if_pos hpid] at hf
      obtain rfl := Option.some.inj hf
      exact ⟨hpid, Leads.refl⟩
    | _ => exact hstop (fun hne => h ⟨hh, hne⟩) hf

/-- **What the loop of `sys_unblock` finds** is what its walk comes to. -/
theorem endsWith_of_findKid {fuel : Nat} {r : Option Task} {n : Node}
    (hf : k.findKid pid stray fuel n = some r) : EndsWith k pid stray n r := by
  induction fuel generalizing n with
  | zero => exact absurd hf (by simp [Kernel.findKid])
  | succ fuel ih =>
    by_cases hn : Passes k pid stray n
    · rw [findKid_of_passes hn] at hf
      exact endsWith_of_passes hn (ih hf)
    · exact findKid_of_not_passes hn hf

/-- A walk of the loop, to a node at which it ends. -/
theorem findKid_of_leads {r : Option Task} {n m : Node}
    (hw : Leads k.links (Passes k pid stray) n m)
    (hm : k.findKid pid stray 1 m = some r) : ∃ fuel, k.findKid pid stray fuel n = some r := by
  induction hw using Relation.ReflTransGen.head_induction_on with
  | refl => exact ⟨1, hm⟩
  | head hs _ ih =>
    obtain ⟨fuel, hf⟩ := ih
    obtain ⟨hgo, rfl⟩ := hs
    exact ⟨fuel + 1, (findKid_of_passes hgo).trans hf⟩

/-- **The loop ends exactly when the walk does**, with the same result. -/
theorem findKid_iff {r : Option Task} {n : Node} :
    (∃ fuel, k.findKid pid stray fuel n = some r) ↔ EndsWith k pid stray n r := by
  refine ⟨fun ⟨_, hf⟩ => endsWith_of_findKid hf, fun hr => ?_⟩
  cases r with
  | none => exact findKid_of_leads hr (by simp [Kernel.findKid])
  | some t => exact findKid_of_leads hr.2 (by simp [Kernel.findKid, hr.1])

/-! ### When `sys_unblock` returns -/

/-- A live child of the running task has the PID. -/
def HasChild (k : Kernel) (pid : Int) : Prop :=
  ∃ t, Live k t ∧ (k.task t).parent = some k.current ∧ (k.task t).PID = pid

/-- **The call returns, with the right answer**: `0` if there is such a child, and
`-ECHILD`, with nothing changed, if there is none. -/
def UnblockReturns (k : Kernel) (pid : Int) (stray : Node → Int) : Prop :=
  ∃ fuel r k', k.sysUnblock pid stray fuel = some (r, k') ∧
    (r = 0 ∧ HasChild k pid ∨ r = -ECHILD ∧ ¬HasChild k pid ∧ k' = k)

/-- No PCB is on the list of children of the running task: the links lead from its
head to its head, if not at once then by heads of other such lists only. -/
def NoKids (k : Kernel) (pid : Int) (stray : Node → Int) : Prop :=
  Leads k.links (fun n => IsKids n ∧ Passes k pid stray n) (k.links (.kids k.current)).next
    (.kids k.current)

/-- The links lead from the head of the list of children of the running task to a PCB
with the PID. -/
def LeadsToPid (k : Kernel) (pid : Int) (stray : Node → Int) : Prop :=
  ∃ t, (k.task t).PID = pid ∧
    Leads k.links (Passes k pid stray) (k.links (.kids k.current)).next (.list t)

/-- A walk that comes to the head of a list of children has met such heads only. -/
theorem leads_kids (h : KidsApart .null k.links) {n : Node}
    (hw : Leads k.links (Passes k pid stray) n (.kids t)) :
    Leads k.links (fun n => IsKids n ∧ Passes k pid stray n) n (.kids t) := by
  induction hw using Relation.ReflTransGen.head_induction_on with
  | refl => exact Leads.refl
  | @head x y hs hw ih =>
    obtain ⟨hgo, rfl⟩ := hs
    refine ih.head ⟨not_not.mp fun hx => ?_, hgo⟩
    -- from a node that is no such head the walk would not come to one
    have hout := (Leads.head hgo hw).closed (S := {n | ¬IsKids n}) hx fun y hy hpass =>
      (h y (by
        rintro rfl
        exact hpass.2) (by
        rintro rfl
        exact hpass.2) hy).1
    exact hout isKids_kids

/-- **When `sys_unblock` returns as it should**, in any state of any run: when no PCB
is on the list of children and no live child has the PID, or when the links lead to a
PCB with the PID and a live child has it. -/
theorem unblock_returns_iff (hb : k₀.boot img = some k₁) (hr : Reachable (Step img) k₁ k)
    (pid : Int) (stray : Node → Int) :
    UnblockReturns k pid stray ↔
      NoKids k pid stray ∧ ¬HasChild k pid ∨ LeadsToPid k pid stray ∧ HasChild k pid := by
  have hapart := kidsApart_of_reachable hb hr
  constructor
  · rintro ⟨fuel, r, k', hs, hret⟩
    rcases sysUnblock_eq_some.mp hs with ⟨hf, rfl, -⟩ | ⟨t, hf, rfl, -⟩
    · have hno : ¬HasChild k pid := by
        rcases hret with ⟨h0, -⟩ | ⟨-, h, -⟩
        · exact absurd h0 (by decide)
        · exact h
      exact Or.inl ⟨leads_kids hapart (endsWith_of_findKid hf), hno⟩
    · have hyes : HasChild k pid := by
        rcases hret with ⟨-, h⟩ | ⟨h0, -⟩
        · exact h
        · exact absurd h0 (by decide)
      exact Or.inr ⟨⟨t, endsWith_of_findKid hf⟩, hyes⟩
  · rintro (⟨hno, hc⟩ | ⟨⟨t, ht⟩, hc⟩)
    · have hend : EndsWith k pid stray (k.links (.kids k.current)).next none :=
        hno.congr fun x _ hx => ⟨hx.2, rfl⟩
      obtain ⟨fuel, hf⟩ := findKid_iff.mpr hend
      exact ⟨fuel, -ECHILD, k, sysUnblock_eq_some.mpr (Or.inl ⟨hf, rfl, rfl⟩),
        Or.inr ⟨rfl, hc, rfl⟩⟩
    · have hend : EndsWith k pid stray (k.links (.kids k.current)).next (some t) := ht
      obtain ⟨fuel, hf⟩ := findKid_iff.mpr hend
      exact ⟨fuel, 0, k.unblockKid t, sysUnblock_eq_some.mpr (Or.inr ⟨t, hf, rfl, rfl⟩),
        Or.inl ⟨rfl, hc⟩⟩

theorem unblock_returns_iff_fork : ∃ k₁ k, powerOn.boot sampleImage = some k₁ ∧
    Step sampleImage k₁ (.fork fun _ => 0) k ∧
    (UnblockReturns k 2 (fun _ => 0) ↔ NoKids k 2 (fun _ => 0) ∧ ¬HasChild k 2 ∨
      LeadsToPid k 2 (fun _ => 0) ∧ HasChild k 2) := by
  obtain ⟨k, hs⟩ := step_fork (alone_booted loaded_powerOn sampleImage) sampleImage fun _ => 0
  exact ⟨_, k, boot_eq, hs, unblock_returns_iff boot_eq (Reachable.refl.next hs) 2 fun _ => 0⟩

/-! ### A call that never returns -/

/-- After the first fork the links lead from the head of the parent's list of children
to the child and to the ready queue and back. -/
theorem sysUnblock_none {contents : Mem} {mm : Mm} (ha : Alone k) {fuel : Nat}
    (hpid : pid ≠ k.pidCounter) :
    ({ forkBegun img contents k 7 with mm := mm }.forkFinish img 7).sysUnblock pid stray fuel =
      none := by
  obtain ⟨-, hready, hnext, -, -⟩ := forkFinish_links_alone ha img contents mm
  have hcur : ({ forkBegun img contents k 7 with mm := mm }.forkFinish img 7).current = 8 :=
    ha.current
  have hself : ({ forkBegun img contents k 7 with mm := mm }.forkFinish img 7).task 7 = _ :=
    forkFinish_self
  set k' := { forkBegun img contents k 7 with mm := mm }.forkFinish img 7 with hk'
  have hstay : ∀ m, Leads k'.links (Passes k' pid stray) (k'.links (.kids k'.current)).next m →
      m ∈ [Node.readyqueue, .list 7] := by
    intro m hw
    rw [hcur, hnext] at hw
    exact hready.mem_of_leads hw (by simp)
  rw [← Option.not_isSome_iff_eq_none, Option.isSome_iff_exists]
  rintro ⟨⟨r, k''⟩, hs⟩
  rcases sysUnblock_eq_some.mp hs with ⟨hf, -, -⟩ | ⟨t, hf, -, -⟩
  · have := hstay _ (endsWith_of_findKid hf)
    simp at this
  · obtain ⟨hp, hw⟩ := endsWith_of_findKid hf
    obtain rfl : t = 7 := by simpa using hstay _ hw
    rw [hself] at hp
    exact hpid hp.symm

/-- The only child has the PID it has been given. -/
theorem not_hasChild_forked {contents : Mem} {mm : Mm} (ha : Alone k)
    (hpid : pid ≠ k.pidCounter) :
    ¬HasChild ({ forkBegun img contents k 7 with mm := mm }.forkFinish img 7) pid := by
  rintro ⟨t, -, hpar, hp⟩
  by_cases ht : t = 7
  · subst ht
    rw [forkFinish_self] at hp
    exact hpid hp.symm
  · rw [forkFinish_of_ne ht] at hpar
    change ((forkBegun img contents k 7).task t).parent = _ at hpar
    rw [forkBegun_of_ne ht, ha.parent] at hpar
    exact absurd hpar (by simp)

/-- The booted kernel, whose first process forks and asks for a child with PID 5. -/
theorem unblock_never_returns : ∃ k₁ k, powerOn.boot sampleImage = some k₁ ∧
    Step sampleImage k₁ (.fork fun _ => 0) k ∧ ¬HasChild k 5 ∧
    (∀ fuel, k.sysUnblock 5 (fun _ => 0) fuel = none) ∧ ¬UnblockReturns k 5 fun _ => 0 := by
  set k₁ := booted sampleImage powerOn with hk₁
  have ha : Alone k₁ := alone_booted loaded_powerOn sampleImage
  obtain ⟨mm, heq, -, -⟩ := sysFork_alone ha sampleImage fun _ => 0
  have hpc : (5 : Int) ≠ k₁.pidCounter := by
    rw [hk₁, booted_pidCounter]
    decide
  have hnone : ∀ fuel, Kernel.sysUnblock _ 5 (fun _ => 0) fuel = none := fun fuel =>
    @sysUnblock_none _ sampleImage _ _ (fun _ => 0) mm ha fuel hpc
  refine ⟨k₁, _, boot_eq, ⟨?_, 0, ?_⟩, not_hasChild_forked ha hpc, hnone, ?_⟩
  · change k₁.current ≠ k₁.idleTask
    rw [ha.current, ha.idleTask]
    decide
  · rw [exec, heq]
    rfl
  · rintro ⟨fuel, r, k', hs, -⟩
    rw [hnone fuel] at hs
    exact absurd hs (by simp)

end Zeos.E1E2
