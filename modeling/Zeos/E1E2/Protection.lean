import Zeos.E1E2.Alone

/-!
# Page protection in the E1_E2 kernel

`init_table_pages` and `set_user_pages` keep user mode out of the kernel pages and
from writing the code pages of the first process; `init_child_address_space` fills
the table of every child with `set_ss_pag`, which grants everything. **A run keeps
all live processes protected exactly when nobody forks**
(`Zeos.E1E2.protected_iff`).
-/

namespace Zeos.E1E2

open ByteMem CircList Paging Transition X86

variable {k k' k₀ k₁ : Kernel} {img : Image}

/-- **All live user processes are protected.** -/
def AllProtected (k : Kernel) : Prop :=
  ∀ t, Live k t → Protected (k.mm.pagusrTable (k.getPT t))

/-- As long as the first process is alone, it is the only live one. -/
theorem allProtected_of_alone (h : Alone k) : AllProtected k := by
  intro t ht
  have hmem : t ∉ otherTasks := fun hm =>
    ht.1 ⟨_, h.queues.free, List.mem_map.mpr ⟨t, hm, rfl⟩⟩
  have hne : t ≠ 9 := by
    rw [← h.idleTask]
    exact ht.2
  have hall : ∀ t : Task, t ∉ otherTasks → t ≠ 9 → t = 8 := by decide
  obtain rfl := hall t hmem hne
  have hPT : k.getPT 8 = 8 := by
    rw [Kernel.getPT, Kernel.getDIR, h.first]
    exact h.table 8
  rw [hPT]
  exact h.safe

/-- The PCB of the child still names its own directory at the end. -/
theorem forkFinish_getDIR {child : Task} : (k.forkFinish img child).getDIR child =
    k.getDIR child := by
  simp [Kernel.getDIR, Kernel.forkFinish, Kernel.forkStack, Kernel.setStack, Kernel.setKernelEsp,
    Kernel.modifyTask]

/-- **A fork leaves a live process unprotected.** -/
theorem not_allProtected_fork {contents : Mem} (h : Alone k)
    (hs : Step img k (.fork contents) k') : ¬AllProtected k' := by
  obtain ⟨-, fuel, hx⟩ := hs
  obtain ⟨mm, heq, hdir, htab, -⟩ := sysFork_alone h img contents
  rw [exec, heq] at hx
  obtain rfl := Option.some.inj hx
  obtain ⟨hfree, -⟩ := forkFinish_links_alone h img contents mm
  set k' := { forkBegun img contents k 7 with mm := mm }.forkFinish img 7 with hk'
  have hlive : Live k' 7 := by
    constructor
    · rintro ⟨l, hl, hm⟩
      rw [hl.unique hfree] at hm
      simp [otherTasks] at hm
    · have hidle : k'.idleTask = 9 := h.idleTask
      rw [hidle]
      decide
  have hPT : k'.getPT 7 = 7 := by
    have h1 : k'.getDIR 7 = 7 := by
      rw [hk', forkFinish_getDIR]
      change ((forkBegun img contents k 7).task 7).dirPagesBaseAddr = 7
      rw [forkBegun_self]
    have h2 : k'.mm = mm := rfl
    rw [Kernel.getPT, h1, h2, hdir]
    exact h.table 7
  intro hall
  have hnull := (hall 7 hlive).null
  have h2 : k'.mm = mm := rfl
  rw [hPT, h2, htab, childTable_kernel (by decide)] at hnull
  exact absurd hnull (by simp [ssEntry])

/-- **A run keeps all live processes protected exactly when nobody forks.** -/
theorem protected_iff {h : List (Kernel × Op)} (hl : Loaded k₀) (hb : k₀.boot img = some k₁)
    (hp : Path (Step img) k₁ h k) :
    (∀ s ∈ visited h k, AllProtected s) ↔ ∀ x ∈ h, x.2.isFork = false := by
  rw [boot_eq, Option.some.injEq] at hb
  subst hb
  have h₀ := alone_booted hl img
  refine hp.forall_visited_iff (I := Alone) ⟨allProtected_of_alone h₀, h₀⟩ ?_
  intro k op k' ha hs
  constructor
  · intro hf
    have := alone_step ha hs hf
    exact ⟨allProtected_of_alone this, this⟩
  · intro hQ
    cases op with
    | fork contents => exact absurd hQ (not_allProtected_fork ha hs)
    | _ => rfl

end Zeos.E1E2
