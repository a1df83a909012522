import Zeos.E1E2.Alone

/-!
# The lists of the E1_E2 kernel

A PCB has one anchor, and `sys_fork` links it twice: first into the list of children
of the parent, then into the ready queue, which overwrites the links the first one
has made. From then on the head of the list of children points at a node that is on
another list, following its links never comes back to the head, and whatever is later
linked in at its end is written into the queue of the child.

`Zeos.E1E2.Integrity` is what the lists should be, in terms of the PCBs: rings
through the right processes. **It holds throughout a run exactly when nobody forks**
(`Zeos.E1E2.integrity_iff`).
-/

namespace Zeos.E1E2

open ByteMem CircList Paging Transition X86

variable {k k' k₀ k₁ : Kernel} {img : Image}

/-- The lists of the kernel are rings through the given tasks, and these are the
right ones. A process is live when it is not on the free queue. -/
structure ListIntegrity (k : Kernel) (fs rs bs : List Task) (cs : Task → List Task) : Prop where
  /-- The free queue is well-formed. -/
  free : IsRing k.links .freequeue (fs.map .list)
  /-- The ready queue is well-formed. -/
  ready : IsRing k.links .readyqueue (rs.map .list)
  /-- The queue of blocked processes is well-formed. -/
  blocked : IsRing k.links .blocked (bs.map .list)
  /-- The list of children of every live process is well-formed. -/
  kids : ∀ p, p ∉ fs → IsRing k.links (.kids p) ((cs p).map .list)
  /-- The ready queue holds the processes in state `ST_READY`, but for the idle
  task. -/
  mem_ready : ∀ t, t ∈ rs ↔ t ∉ fs ∧ t ≠ k.idleTask ∧ (k.task t).state = .stReady
  /-- The queue of blocked processes holds the ones in state `ST_BLOCKED`. -/
  mem_blocked : ∀ t, t ∈ bs ↔ t ∉ fs ∧ (k.task t).state = .stBlocked
  /-- The children of a live process are the live processes whose parent it is. -/
  mem_kids : ∀ p, p ∉ fs → ∀ t, t ∈ cs p ↔ t ∉ fs ∧ (k.task t).parent = some p

/-- **The lists of the kernel are in order.** -/
def Integrity (k : Kernel) : Prop :=
  ∃ fs rs bs cs, ListIntegrity k fs rs bs cs

/-- **The lists are in order as long as the first process is alone.** -/
theorem integrity_of_alone (h : Alone k) : Integrity k := by
  refine ⟨otherTasks, [], [], fun _ => [], h.queues.free, h.queues.ready, h.queues.blocked,
    fun p hp => h.queues.kids p ?_, fun t => ?_, fun t => ?_, fun p _ t => ?_⟩
  · rcases notMem_otherTasks p hp with rfl | rfl <;> simp
  · refine ⟨fun ht => absurd ht (by simp), fun ⟨ht, hne, hst⟩ => ?_⟩
    rcases notMem_otherTasks t ht with rfl | rfl
    · rw [h.first] at hst
      exact absurd hst (by simp)
    · exact absurd h.idleTask.symm hne
  · refine ⟨fun ht => absurd ht (by simp), fun ⟨ht, hst⟩ => ?_⟩
    rcases notMem_otherTasks t ht with rfl | rfl
    · rw [h.first] at hst
      exact absurd hst (by simp)
    · rw [h.idle] at hst
      exact absurd hst (by simp)
  · refine ⟨fun ht => absurd ht (by simp), fun ⟨_, hpar⟩ => ?_⟩
    rw [h.parent] at hpar
    exact absurd hpar (by simp)

/-- **A fork leaves the list of children of the parent corrupted.** -/
theorem not_integrity_fork {contents : Mem} (h : Alone k)
    (hs : Step img k (.fork contents) k') : ¬Integrity k' := by
  obtain ⟨-, fuel, hx⟩ := hs
  obtain ⟨mm, heq, -, -⟩ := sysFork_alone h img contents
  rw [exec, heq] at hx
  obtain rfl := Option.some.inj hx
  obtain ⟨hfree, -, hnext, hprev, -⟩ :=
    forkFinish_links_alone h img contents mm
  rintro ⟨fs, rs, bs, cs, hi⟩
  -- the parent is live, so its list of children should be a ring
  have hlive : (8 : Task) ∉ fs := by
    intro hm
    have hmem : Node.list 8 ∈ fs.map Node.list := List.mem_map.mpr ⟨8, hm, rfl⟩
    have heq := hi.free.unique hfree
    rw [heq] at hmem
    simp [otherTasks] at hmem
  have hp := (hi.kids 8 hlive).prev_next_head
  rw [hnext, hprev] at hp
  exact absurd hp (by simp)

/-- **The lists stay in order exactly in the runs in which nobody forks.** -/
theorem integrity_iff {h : List (Kernel × Op)} (hl : Loaded k₀) (hb : k₀.boot img = some k₁)
    (hp : Path (Step img) k₁ h k) :
    (∀ s ∈ visited h k, Integrity s) ↔ ∀ x ∈ h, x.2.isFork = false := by
  rw [boot_eq, Option.some.injEq] at hb
  subst hb
  have h₀ := alone_booted hl img
  refine hp.forall_visited_iff (I := Alone) ⟨integrity_of_alone h₀, h₀⟩ ?_
  intro k op k' ha hs
  constructor
  · intro hf
    have := alone_step ha hs hf
    exact ⟨integrity_of_alone this, this⟩
  · intro hQ
    cases op with
    | fork contents => exact absurd hQ (not_integrity_fork ha hs)
    | _ => rfl

theorem integrity_iff_fork : ∃ k₁ k, powerOn.boot sampleImage = some k₁ ∧
    Path (Step sampleImage) k₁ [(k₁, Op.fork fun _ => 0)] k ∧
    ((∀ s ∈ visited [(k₁, Op.fork fun _ => 0)] k, Integrity s) ↔
      ∀ x ∈ [(k₁, Op.fork fun _ => 0)], x.2.isFork = false) := by
  obtain ⟨k, hs⟩ := step_fork (alone_booted loaded_powerOn sampleImage) sampleImage fun _ => 0
  have hp := Path.snoc Path.nil hs
  exact ⟨_, k, boot_eq, hp, integrity_iff loaded_powerOn boot_eq hp⟩

/-- The booted kernel, whose first process forks. -/
theorem fork_corrupts_lists : ∃ k₁ k, powerOn.boot sampleImage = some k₁ ∧
    Step sampleImage k₁ (.fork fun _ => 0) k ∧ ¬Integrity k := by
  obtain ⟨k, hs⟩ := step_fork (alone_booted loaded_powerOn sampleImage) sampleImage fun _ => 0
  exact ⟨_, k, boot_eq, hs, not_integrity_fork (alone_booted loaded_powerOn sampleImage) hs⟩

end Zeos.E1E2
