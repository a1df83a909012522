import Zeos.E1E2.Alone

/-!
# Round robin, on paper

`sched.c` has all the parts of a preemptive round robin scheduler, and Zeos intends
`schedule` to be called by the clock interrupt, to decide whether the running process has
used up its quantum. In this kernel the two are not connected.

* **The clock never preempts** (`Zeos.E1E2.clock_never_preempts`): `clock_routine` counts the
  ticks and shows the clock, but does not call `schedule`. After any number of interrupts the
  same process runs, with the same quantum left.
* **`sys_block` never blocks** (`Zeos.E1E2.block_never_blocks`): it calls `schedule`, which
  treats its caller as preempted. Either the caller goes on running, or it is put on the ready
  queue.
-/

namespace Zeos.E1E2

open CircList Transition X86

variable {k k' k₀ k₁ : Kernel} {img : Image} {c : SwitchCtx} {t p : Task} {ps : List Task}

/-! ### The clock -/

/-- **The clock preempts the running process**: after as many interrupts as it has ticks
left, and not before, `p` runs with its whole quantum, and the process that was running is
the last one of the ready queue. -/
def Preempts (img : Image) (k : Kernel) (p : Task) (ps : List Task) : Prop :=
  ∀ h k', Path (Step img) k h k' → (h.length : Int) = k.queueTicks → (∀ x ∈ h, x.2 = .clock) →
    k'.current = p ∧ IsRing k'.links .readyqueue ((ps ++ [k.current]).map .list) ∧
      k'.queueTicks = (k'.task p).quantum ∧ ∀ x ∈ h, x.1.current = k.current

/-- What the clock leaves alone. -/
structure SameTurn (k k' : Kernel) : Prop where
  /-- The running process. -/
  current : k'.current = k.current
  /-- The queues. -/
  links : k'.links = k.links
  /-- The ticks left. -/
  queueTicks : k'.queueTicks = k.queueTicks
  /-- The PCBs. -/
  task : k'.task = k.task

theorem step_clock (img : Image) (k : Kernel) :
    Step img k .clock { k with zeosTicks := wrapInt (k.zeosTicks + 1) } :=
  ⟨trivial, 0, rfl⟩

/-- **Interrupts of the clock do not change whose turn it is.** -/
theorem sameTurn_path {h : List (Kernel × Op)} (hp : Path (Step img) k h k')
    (hc : ∀ x ∈ h, x.2 = .clock) : SameTurn k k' ∧ ∀ x ∈ h, x.1.current = k.current := by
  refine hp.invariant_of_forall (C := fun _ op => op = .clock)
    (P := fun h k' => SameTurn k k' ∧ ∀ x ∈ h, x.1.current = k.current) hc
    ⟨⟨rfl, rfl, rfl, rfl⟩, fun x hx => absurd hx List.not_mem_nil⟩ ?_
  rintro h s op t - ⟨hs, hall⟩ rfl ⟨-, fuel, hx⟩
  obtain rfl := Option.some.inj hx
  refine ⟨⟨hs.current, hs.links, hs.queueTicks, hs.task⟩, fun x hx => ?_⟩
  rcases List.mem_append.mp hx with hx | hx
  · exact hall x hx
  · obtain rfl := List.mem_singleton.mp hx
    exact hs.current

/-- There are runs of any number of interrupts. -/
theorem clocks_path (img : Image) (k : Kernel) (n : Nat) :
    ∃ h k', Path (Step img) k h k' ∧ h.length = n ∧ ∀ x ∈ h, x.2 = .clock := by
  induction n with
  | zero => exact ⟨[], k, .nil, rfl, fun x hx => absurd hx List.not_mem_nil⟩
  | succ n ih =>
    obtain ⟨h, k', hp, hlen, hc⟩ := ih
    refine ⟨_, _, hp.snoc (step_clock img k'), by simp [hlen], fun x hx => ?_⟩
    rcases List.mem_append.mp hx with hx | hx
    · exact hc x hx
    · obtain rfl := List.mem_singleton.mp hx
      rfl

/-- A queue that is the same after its first process has gone to its end has one process
only. -/
theorem rotate_eq_self (hnd : (p :: ps).Nodup) (h : p :: ps = ps ++ [p]) : ps = [] := by
  cases ps with
  | nil => rfl
  | cons x ps =>
    obtain ⟨rfl, -⟩ := List.cons.inj h
    simp at hnd

/-- The process that is preempted was the only one on the ready queue, and is the one to run
next. -/
theorem preempts_only_if (hring : IsRing k.links .readyqueue ((p :: ps).map .list))
    (hq : 1 ≤ k.queueTicks) (h : Preempts img k p ps) :
    p = k.current ∧ ps = [] ∧ k.queueTicks = (k.task p).quantum := by
  obtain ⟨hist, k', hp, hlen, hc⟩ := clocks_path img k k.queueTicks.toNat
  obtain ⟨hs, -⟩ := sameTurn_path hp hc
  obtain ⟨hcur, hring', hquantum, -⟩ := h hist k' hp (by omega) hc
  rw [hs.links] at hring'
  rw [hs.current] at hcur
  rw [hs.queueTicks, hs.task] at hquantum
  have heq : p :: ps = ps ++ [k.current] :=
    List.map_injective_iff.mpr (fun _ _ => Node.list.inj) (hring.unique hring')
  have hnd : (p :: ps).Nodup := (List.nodup_cons.mp hring.nodup).2.of_map _
  exact ⟨hcur.symm, rotate_eq_self hnd (hcur ▸ heq), hquantum⟩

/-- **The clock never preempts.** What it leaves behind is what a preemption should leave
behind only in a state in which the running process is also on the ready queue, alone, and
has its whole quantum left. -/
theorem clock_never_preempts (img : Image) (k : Kernel) (p : Task) (ps : List Task)
    (hring : IsRing k.links .readyqueue ((p :: ps).map .list)) (hq : 1 ≤ k.queueTicks) :
    Preempts img k p ps ↔ p = k.current ∧ ps = [] ∧ k.queueTicks = (k.task p).quantum := by
  refine ⟨preempts_only_if hring hq, ?_⟩
  rintro ⟨rfl, rfl, hquantum⟩ hist k' hp - hc
  obtain ⟨hs, hall⟩ := sameTurn_path hp hc
  refine ⟨hs.current, ?_, ?_, hall⟩
  · rw [hs.links]
    exact hring
  · rw [hs.queueTicks, hs.task]
    exact hquantum

/-- The state after the first fork: the child is ready, and the parent has its quantum. -/
theorem forked_turn (h : Alone k) (img : Image) (contents : ByteMem.Mem) :
    ∃ k', Step img k (.fork contents) k' ∧ IsRing k'.links .readyqueue (([7] : List Task).map .list) ∧
      k'.current = 8 ∧ k'.queueTicks = defaultQuantum := by
  obtain ⟨mm, heq, -, -⟩ := sysFork_alone h img contents
  refine ⟨_, ⟨?_, 0, ?_⟩, (forkFinish_links_alone h img contents mm).2.1, h.current, h.queueTicks⟩
  · change k.current ≠ k.idleTask
    rw [h.current, h.idleTask]
    decide
  · rw [exec, heq]
    rfl

/-- The first process has forked: the interrupts of its quantum leave the child waiting. -/
theorem clock_never_preempts_fork : ∃ k, IsRing k.links .readyqueue (([7] : List Task).map .list) ∧
    1 ≤ k.queueTicks ∧ (Preempts sampleImage k 7 [] ↔
      7 = k.current ∧ ([] : List Task) = [] ∧ k.queueTicks = (k.task 7).quantum) := by
  obtain ⟨k, -, hring, -, hq⟩ :=
    forked_turn (alone_booted loaded_powerOn sampleImage) sampleImage fun _ => 0
  have hq' : 1 ≤ k.queueTicks := by
    rw [hq]
    decide
  exact ⟨k, hring, hq', clock_never_preempts sampleImage k 7 [] hring hq'⟩

/-- **The child of the first fork never gets the processor from the clock.** -/
theorem clock_starves_child : ∃ k₁ k, powerOn.boot sampleImage = some k₁ ∧
    Step sampleImage k₁ (.fork fun _ => 0) k ∧
    IsRing k.links .readyqueue (([7] : List Task).map .list) ∧ k.current = 8 ∧
    k.queueTicks = 100 ∧ ¬Preempts sampleImage k 7 [] := by
  obtain ⟨k, hs, hring, hcur, hq⟩ :=
    forked_turn (alone_booted loaded_powerOn sampleImage) sampleImage fun _ => 0
  refine ⟨_, k, boot_eq, hs, hring, hcur, hq, fun hpre => ?_⟩
  have hq' : 1 ≤ k.queueTicks := by
    rw [hq]
    decide
  have h7 := (preempts_only_if hring hq' hpre).1
  rw [hcur] at h7
  exact absurd h7 (by decide)

/-! ### `sys_block` -/

/-- **A call of `sys_block` blocks its caller**, the queues being `free`, `ready` and
`blocked`: it is the last one of the queue of blocked processes and on no other, the first
ready process or else the idle task runs instead, and all others are as they were. -/
structure Blocks (k k' : Kernel) (free ready blocked : List Task) : Prop where
  /-- The state of the caller. -/
  state : (k'.task k.current).state = .stBlocked
  /-- The queue of blocked processes. -/
  last : IsRing k'.links .blocked ((blocked ++ [k.current]).map .list)
  /-- The ready queue. -/
  readyqueue : IsRing k'.links .readyqueue (ready.tail.map .list) ∧ k.current ∉ ready.tail
  /-- The free queue. -/
  freequeue : IsRing k'.links .freequeue (free.map .list) ∧ k.current ∉ free
  /-- The caller does not run. -/
  stops : k'.current ≠ k.current
  /-- Who runs. -/
  running : k'.current = ready.head?.getD k.idleTask
  /-- The other processes. -/
  others : ∀ t, t ≠ k.current → t ≠ k'.current → (k'.task t).state = (k.task t).state

/-- A process gets the state that its queue stands for. -/
theorem updateProcessStateRr_state {q : Option Node} :
    ((k.updateProcessStateRr t q).task t).state =
      match q with
      | some .readyqueue => .stReady
      | some _ => .stBlocked
      | none => .stRun := by
  unfold Kernel.updateProcessStateRr
  rcases q with - | q
  · simp [Kernel.setState, Kernel.modifyTask]
  · by_cases hq : q = .readyqueue
    · subst hq
      simp [Kernel.setState, Kernel.modifyTask]
    · simp only [if_neg hq]
      cases q <;> simp_all [Kernel.setState, Kernel.modifyTask]

/-- Other processes keep theirs. -/
theorem updateProcessStateRr_of_ne {q : Option Node} {x : Task} (h : x ≠ t) :
    (k.updateProcessStateRr t q).task x = k.task x := by
  have hleave : (k.leaveQueue t).task = k.task := by
    unfold Kernel.leaveQueue
    split <;> rfl
  unfold Kernel.updateProcessStateRr
  rcases q with - | q
  · simp [Kernel.setState, Kernel.modifyTask, h, hleave]
  · dsimp only
    split <;> simp [Kernel.setState, Kernel.modifyTask, h, hleave]

/-- `sched_next_rr` blocks nobody. -/
theorem state_of_schedNextRr (hs : k.schedNextRr img c = some k')
    (h : (k.task t).state ≠ .stBlocked) : (k'.task t).state ≠ .stBlocked := by
  rcases schedNextRr_cases hs with rfl | ⟨u, -, rfl⟩
  · exact h
  · change ((k.updateProcessStateRr u none).task t).state ≠ .stBlocked
    by_cases htu : t = u
    · subst htu
      rw [updateProcessStateRr_state]
      decide
    · rwa [updateProcessStateRr_of_ne htu]

/-- **After `schedule`, the process that was running is running, or is not blocked.** -/
theorem state_of_schedule (hs : k.schedule img c = some k') :
    k'.current = k.current ∨ (k'.task k.current).state ≠ .stBlocked := by
  obtain ⟨ticks, rfl | hs⟩ := schedule_cases hs
  · exact Or.inl rfl
  · refine Or.inr (state_of_schedNextRr hs ?_)
    rw [updateProcessStateRr_state]
    decide

/-- **A process that calls `sys_block` is running afterwards, or is not blocked.** -/
theorem state_of_sysBlock (hp : (k.task k.current).pendingUnblocks = 0)
    (hs : k.sysBlock img c = some k') :
    k'.current = k.current ∨ (k'.task k.current).state ≠ .stBlocked := by
  rw [Kernel.sysBlock, if_pos hp] at hs
  exact state_of_schedule (k := { k.setState k.current .stBlocked with
    links := listAddTail k.links (.list k.current) .blocked }) hs

/-- **`sys_block` never blocks**: whatever the queues and the quantum left, the call does not
end in a state in which its caller is blocked. -/
theorem block_never_blocks (img : Image) (c : SwitchCtx) (k : Kernel)
    (free ready blocked : List Task) (hp : (k.task k.current).pendingUnblocks = 0) :
    ¬∃ k', k.sysBlock img c = some k' ∧ Blocks k k' free ready blocked := by
  rintro ⟨k', hs, hb⟩
  rcases state_of_sysBlock hp hs with hcur | hst
  · exact hb.stops hcur
  · exact hst hb.state

theorem pendingUnblocks_booted : ((booted sampleImage powerOn).task
    (booted sampleImage powerOn).current).pendingUnblocks = 0 := by
  have h := alone_booted loaded_powerOn sampleImage
  rw [h.current, h.first]

/-- The first process after boot calls `sys_block`. -/
theorem block_never_blocks_boot :
    ((booted sampleImage powerOn).task (booted sampleImage powerOn).current).pendingUnblocks = 0 ∧
    ¬∃ k', (booted sampleImage powerOn).sysBlock sampleImage sampleSwitch = some k' ∧
      Blocks (booted sampleImage powerOn) k' otherTasks [] [] :=
  ⟨pendingUnblocks_booted,
    block_never_blocks sampleImage sampleSwitch _ otherTasks [] [] pendingUnblocks_booted⟩

/-- **The first process cannot block**: it calls `sys_block` and goes on running. -/
theorem block_keeps_running : ∃ k', powerOn.boot sampleImage = some (booted sampleImage powerOn) ∧
    (booted sampleImage powerOn).sysBlock sampleImage sampleSwitch = some k' ∧ k'.current = 8 ∧
    (k'.task 8).state = .stRun ∧ ¬Blocks (booted sampleImage powerOn) k' otherTasks [] [] := by
  have h := alone_booted loaded_powerOn sampleImage
  refine ⟨_, boot_eq, sysBlock_alone h sampleSwitch, h.current, ?_, fun hb => hb.stops rfl⟩
  change ((booted sampleImage powerOn).task 8).state = .stRun
  rw [h.first]

end Zeos.E1E2
