import Zeos.Common.Resume
import Zeos.E1E2.Alone

/-!
# Kernel stacks in the E1_E2 kernel

What the operations do to the memory of the task array and to the stack pointer with
which the processor enters the kernel. Only two things happen to them: a `task_switch`
(`Zeos.E1E2.Switched`), and a fork, which fills in the page of the child. Every other
operation leaves the processor alone (`Zeos.E1E2.Kept`).

Two facts follow for whole runs. The processor always enters the kernel at the top of
the stack of the running task (`Zeos.E1E2.ownStack_of_reachable`). And a task that
does not run, and whose PCB nobody takes, finds its page as it left it
(`Zeos.E1E2.samePage_path`), however the operations of the others have changed the
lists it is on.
-/

namespace Zeos.E1E2

open ByteMem CircList Transition X86

variable {k k' k'' k₀ : Kernel} {img : Image} {c : SwitchCtx} {t child : Task} {contents : Mem}

/-! ### What a fork writes -/

/-- The stores of `sys_fork` to the page of the child, after the PCB has been
copied. -/
def forkedMem (img : Image) (child : Task) (mem : Mem) : Mem :=
  store32 (store32 (store32 mem (img.area.stack child (1024 - 19)) 0)
    (img.area.stack child (1024 - 18)) img.retFromFork) (img.area.espAddr child)
    (img.area.stack child (1024 - 19))

theorem forkFinish_mem : (k.forkFinish img child).cpu.mem = forkedMem img child k.cpu.mem := rfl

section Forked

variable {mem : Mem} {x : Word} {ws : List Word}

/-- The stores stay in the page of the child. -/
theorem forkedMem_of_not_inPage (hx : ¬InPage img.area child x) :
    forkedMem img child mem x = mem x := by
  have hst : ∀ i, 64 ≤ i → i ≤ 1023 → 4 ≤ (x - img.area.stack child i).toNat := by
    intro i h1 h2
    by_contra hlt
    exact hx (onStack_block (i := i) (n := 4) (by omega) (by unfold pcbBytes; omega) (by omega)).2
  rw [forkedMem, store32_of_le, store32_of_le (hst _ (by decide) (by decide)),
    store32_of_le (hst _ (by decide) (by decide))]
  by_contra hlt
  exact hx (inPage_espAddr (by omega)).1

/-- The seventeen words at the top of the stack are the copied ones. -/
theorem words_forkedMem (hw : Words mem (img.area.stack child 1007) ws) (hlen : ws.length ≤ 17) :
    Words (forkedMem img child mem) (img.area.stack child 1007) ws := by
  refine hw.congr (by omega) fun x hx => ?_
  have hs : img.area.OnStack child x := onStack_block hx (by decide) (by omega)
  rw [forkedMem, store_espAddr_of_onStack hs]
  unfold TaskArea.stack at hx ⊢
  rw [store32_of_le (by bv_omega), store32_of_le (by bv_omega)]

/-- **The child has a forged frame**: it will continue at `ret_from_fork`, with
nothing below the seventeen words. -/
theorem intact_forkedMem :
    Intact img.area (forkedMem img child mem) child (.forged 1005 0 img.retFromFork) := by
  have happ : Apart (img.area.espAddr child) (img.area.stack child 1005) :=
    (apart_espAddr (by decide) (by decide)).symm
  have happ' : Apart (img.area.espAddr child) (img.area.stack child 1006) :=
    (apart_espAddr (by decide) (by decide)).symm
  have hadd : img.area.stack child 1005 + 4 = img.area.stack child 1006 := by
    unfold TaskArea.stack
    bv_omega
  have hap : Apart (img.area.stack child 1006) (img.area.stack child 1005) := by
    rw [← hadd]
    unfold Apart
    constructor <;> bv_omega
  refine ⟨load32_store32 _ _ _, ⟨?_, ?_, trivial⟩, by decide, by decide, img.retFromFork_ne⟩
  · rw [forkedMem, load32_store32_of_apart happ, load32_store32_of_apart hap]
    exact load32_store32 _ _ _
  · rw [hadd, forkedMem, load32_store32_of_apart happ']
    exact load32_store32 _ _ _

end Forked

/-! ### What leaves the processor alone -/

/-- The processor, the running task and the stack pointers for the next entry are the
same. -/
structure Kept (k k' : Kernel) : Prop where
  /-- The processor and the memory of the task array. -/
  cpu : k'.cpu = k.cpu
  /-- The running task. -/
  current : k'.current = k.current
  /-- The stack pointer for interrupts. -/
  tssEsp0 : k'.tssEsp0 = k.tssEsp0
  /-- The stack pointer for `sysenter`. -/
  msrEsp : k'.msrEsp = k.msrEsp

theorem Kept.refl : Kept k k := ⟨rfl, rfl, rfl, rfl⟩

theorem Kept.trans (h : Kept k k') (h' : Kept k' k'') : Kept k k'' :=
  ⟨h'.cpu.trans h.cpu, h'.current.trans h.current, h'.tssEsp0.trans h.tssEsp0,
    h'.msrEsp.trans h.msrEsp⟩

/-- **The processor has been given to the new running task.** -/
structure Switched (img : Image) (c : SwitchCtx) (k k' : Kernel) : Prop where
  /-- The assembly code has exchanged the stacks. -/
  cpu : k'.cpu = Zeos.taskSwitch img.area c k.current k'.current k.cpu
  /-- The stack pointer for interrupts is the new task's. -/
  tssEsp0 : k'.tssEsp0 = img.area.stack k'.current 1024
  /-- The stack pointer for `sysenter` is the new task's. -/
  msrEsp : k'.msrEsp = img.area.stack k'.current 1024

theorem Kept.switched (h : Kept k k') (h' : Switched img c k' k'') : Switched img c k k'' :=
  ⟨by rw [h'.cpu, h.cpu, h.current], h'.tssEsp0, h'.msrEsp⟩

theorem kept_updateProcessStateRr {q : Option Node} : Kept k (k.updateProcessStateRr t q) := by
  have hl : Kept k (k.leaveQueue t) := by
    unfold Kernel.leaveQueue
    split <;> exact ⟨rfl, rfl, rfl, rfl⟩
  refine hl.trans ?_
  unfold Kernel.updateProcessStateRr
  cases q with
  | none => exact ⟨rfl, rfl, rfl, rfl⟩
  | some q =>
    dsimp only
    split <;> exact ⟨rfl, rfl, rfl, rfl⟩

theorem switched_dispatch : Switched img c k (k.dispatch img c t) := by
  refine ⟨?_, ?_, ?_⟩ <;> simp only [Kernel.dispatch, Kernel.taskSwitch]

/-- `sched_next_rr` gives the processor away. -/
theorem switched_schedNextRr (hs : k.schedNextRr img c = some k') : Switched img c k k' := by
  rcases schedNextRr_cases hs with rfl | ⟨u, -, rfl⟩
  · exact switched_dispatch
  · exact (kept_updateProcessStateRr (t := u) (q := none)).switched switched_dispatch

theorem switched_schedule (hs : k.schedule img c = some k') :
    Kept k k' ∨ Switched img c k k' := by
  obtain ⟨ticks, rfl | hs⟩ := schedule_cases hs
  · exact Or.inl ⟨rfl, rfl, rfl, rfl⟩
  · have htick : Kept k { k with queueTicks := ticks } := ⟨rfl, rfl, rfl, rfl⟩
    exact Or.inr ((htick.trans kept_updateProcessStateRr).switched (switched_schedNextRr hs))

theorem switched_exitFinish (hs : k.exitFinish img c = some k') : Switched img c k k' := by
  rw [Kernel.exitFinish] at hs
  have h1 := switched_schedNextRr hs
  exact ⟨h1.cpu, h1.tssEsp0, h1.msrEsp⟩

theorem switched_sysExit {fuel : Nat} (hs : k.sysExit img c fuel = some k') :
    Kept k k' ∨ Switched img c k k' := by
  rcases sysExit_cases hs with ⟨-, rfl⟩ | ⟨-, -, hs⟩
  · exact Or.inl Kept.refl
  · exact Or.inr (switched_exitFinish hs)

theorem switched_sysBlock (hs : k.sysBlock img c = some k') :
    Kept k k' ∨ Switched img c k k' := by
  rw [Kernel.sysBlock] at hs
  split at hs
  · have h1 : Kept k { k.setState k.current .stBlocked with
        links := listAddTail k.links (.list k.current) .blocked } := ⟨rfl, rfl, rfl, rfl⟩
    rcases switched_schedule hs with h2 | h2
    · exact Or.inl (h1.trans h2)
    · exact Or.inr (h1.switched h2)
  · obtain rfl := Option.some.inj hs
    exact Or.inl ⟨rfl, rfl, rfl, rfl⟩

theorem kept_sysUnblock {pid r : Int} {stray : Node → Int} {fuel : Nat}
    (hs : k.sysUnblock pid stray fuel = some (r, k')) : Kept k k' := by
  rcases sysUnblock_eq_some.mp hs with ⟨-, -, rfl⟩ | ⟨u, -, -, rfl⟩
  · exact Kept.refl
  · unfold Kernel.unblockKid
    split <;> exact ⟨rfl, rfl, rfl, rfl⟩

/-! ### One step -/

/-- **The running task goes on**, and has written to its own page and to that of the
PCB it has taken, if any. -/
structure Stays (img : Image) (k : Kernel) (op : Op) (k' : Kernel) : Prop where
  /-- The running task. -/
  current : k'.current = k.current
  /-- The stack pointer for interrupts. -/
  tssEsp0 : k'.tssEsp0 = k.tssEsp0
  /-- The stack pointer for `sysenter`. -/
  msrEsp : k'.msrEsp = k.msrEsp
  /-- The pages of the other tasks. -/
  other : ∀ t, t ≠ k.current → ¬Takes t (k, op) → SamePage img.area t k.cpu.mem k'.cpu.mem

variable {op : Op}

theorem Kept.stays (h : Kept k k') : Stays img k op k' :=
  ⟨h.current, h.tssEsp0, h.msrEsp, fun _ _ _ _ _ => by rw [h.cpu]⟩

/-- A fork writes to the page of the child. -/
theorem stays_sysFork {r : Except Int Int} (h : k.sysFork img contents = some (r, k')) :
    Stays img k (.fork contents) k' := by
  rcases sysFork_cases h with ⟨-, rfl⟩ | ⟨child, hemp, hfirst, hk⟩
  · exact Kept.refl.stays
  · have hne : ∀ t, ¬Takes t (k, .fork contents) → t ≠ child := by
      rintro t ht rfl
      exact ht ⟨hemp, hfirst⟩
    rcases hk with ⟨mm, -, rfl⟩ | ⟨mm, -, rfl⟩
    · exact ⟨rfl, rfl, rfl, fun t htc ht => samePage_copyFlat_fill htc (hne t ht)⟩
    · refine ⟨rfl, rfl, rfl, fun t htc ht x hx => ?_⟩
      rw [forkFinish_mem, forkedMem_of_not_inPage fun hc => hne t ht (inPage_unique hx hc)]
      exact samePage_copyFlat_fill htc (hne t ht) x hx

/-- **What a step does to the stacks.** -/
theorem step_stacks (hs : Step img k op k') : Stays img k op k' ∨ ∃ c, Switched img c k k' := by
  obtain ⟨-, fuel, hx⟩ := hs
  have hor : ∀ {c}, Kept k k' ∨ Switched img c k k' →
      Stays img k op k' ∨ ∃ c, Switched img c k k' :=
    fun h => h.imp Kept.stays fun h => ⟨_, h⟩
  cases op with
  | clock =>
    obtain rfl := Option.some.inj hx
    exact Or.inl (Kept.stays ⟨rfl, rfl, rfl, rfl⟩)
  | fork contents =>
    obtain ⟨⟨r, k₁⟩, hf, rfl⟩ := Option.map_eq_some_iff.mp hx
    exact Or.inl (stays_sysFork hf)
  | exit c => exact hor (switched_sysExit hx)
  | block c => exact hor (switched_sysBlock hx)
  | unblock pid stray =>
    obtain ⟨⟨r, k₁⟩, hu, rfl⟩ := Option.map_eq_some_iff.mp hx
    exact Or.inl (kept_sysUnblock hu).stays
  | touch page =>
    obtain rfl := Option.some.inj hx
    exact Or.inl (Kept.stays ⟨rfl, rfl, rfl, rfl⟩)

theorem samePage_step (hs : Step img k op k') (ht : t ≠ k.current) (hT : ¬Takes t (k, op)) :
    SamePage img.area t k.cpu.mem k'.cpu.mem := by
  rcases step_stacks hs with h | ⟨c, h⟩
  · exact h.other t ht hT
  · rw [h.cpu, taskSwitch_mem]
    exact exchanged_switchStacks.other t ht

/-- A step that makes another task the running one is a switch to it. -/
theorem switched_of_ne (hs : Step img k op k') (hne : k'.current ≠ k.current) :
    ∃ c, Switched img c k k' := (step_stacks hs).resolve_left fun h => hne h.current

/-! ### Runs -/

/-- **A task that sleeps through a run**: it does not run, and nobody takes its
PCB. -/
def Sleeps (t : Task) (h : List (Kernel × Op)) : Prop :=
  ∀ x ∈ h, x.1.current ≠ t ∧ ¬Takes t x

/-- **The page of a task that sleeps does not change.** -/
theorem samePage_path {h : List (Kernel × Op)} (hp : Path (Step img) k h k') (hs : Sleeps t h) :
    SamePage img.area t k.cpu.mem k'.cpu.mem := by
  refine hp.invariant_of_forall (P := fun _ s => SamePage img.area t k.cpu.mem s.cpu.mem)
    (C := fun (s : Kernel) op => s.current ≠ t ∧ ¬Takes t (s, op)) (fun x hx => hs x hx)
    (fun _ _ => rfl) ?_
  rintro h s op s' - hI ⟨hc, hT⟩ hstep x hx
  exact (samePage_step hstep (Ne.symm hc) hT x hx).trans (hI x hx)

/-- The processor enters the kernel at the top of the stack of the running task. -/
def OwnStack (img : Image) (k : Kernel) : Prop :=
  k.tssEsp0 = img.area.stack k.current 1024 ∧ k.msrEsp = img.area.stack k.current 1024

theorem ownStack_step (h : OwnStack img k) (hs : Step img k op k') : OwnStack img k' := by
  rcases step_stacks hs with hk | ⟨c, hk⟩
  · exact ⟨by rw [hk.tssEsp0, hk.current, h.1], by rw [hk.msrEsp, hk.current, h.2]⟩
  · exact ⟨hk.tssEsp0, hk.msrEsp⟩

/-- **Every reachable kernel is entered on the stack of the running task.** -/
theorem ownStack_of_reachable (hb : k₀.boot img = some k) (hr : Reachable (Step img) k k') :
    OwnStack img k' := by
  refine hr.invariant ?_ fun s op s' hI hs => ownStack_step hI hs
  obtain rfl := Option.some.inj (boot_eq.symm.trans hb)
  exact ⟨rfl, rfl⟩

end Zeos.E1E2
