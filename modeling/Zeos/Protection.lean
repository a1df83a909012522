import Zeos.E1E2.Protection
import Zeos.Game.Protection

/-!
# Page protection and fork

Both kernels set up the page table of the first process with care and that of every
other process with `set_ss_pag`, which sets the bits `user`, `rw` and `present` of
whatever it maps – kernel pages, page `0`, guard pages and shared code included. The
two kernels differ in the layout of the user pages and in the guard pages, and agree
in this: **protection holds throughout a run exactly when nobody forks**.
-/

namespace Zeos

open Transition

section Runs

variable {img : E1E2.Image} {k₀ k₁ k : E1E2.Kernel} {h : List (E1E2.Kernel × E1E2.Op)}
  {gameImg : Game.Image} {j₀ j : Game.Kernel} {g : List (Game.Kernel × Game.Op)}

/-- **Protection is lost with the first fork**, in every run of the E1_E2 kernel and in
every run of the GAME kernel. -/
theorem protected_iff_no_fork (hl : E1E2.Loaded k₀) (hb : k₀.boot img = some k₁)
    (hp : Path (E1E2.Step img) k₁ h k) (hq : Path (Game.Step gameImg) (j₀.boot gameImg) g j) :
    ((∀ s ∈ visited h k, E1E2.AllProtected s) ↔ ∀ x ∈ h, x.2.isFork = false) ∧
    ((∀ s ∈ visited g j, Game.AllProtected gameImg s) ↔ ∀ x ∈ g, x.2.isFork = false) :=
  ⟨E1E2.protected_iff hl hb hp, Game.protected_iff hq⟩

end Runs

theorem protected_iff_no_fork_fork :
    ∃ k₁ k j, E1E2.powerOn.boot E1E2.sampleImage = some k₁ ∧
      Path (E1E2.Step E1E2.sampleImage) k₁ [(k₁, E1E2.Op.fork fun _ => 0)] k ∧
      Path (Game.Step Game.sampleImage) (Game.powerOn.boot Game.sampleImage)
        [(Game.powerOn.boot Game.sampleImage, Game.Op.fork Game.sampleFork)] j ∧
      ((∀ s ∈ visited [(k₁, E1E2.Op.fork fun _ => 0)] k, E1E2.AllProtected s) ↔
        ∀ x ∈ [(k₁, E1E2.Op.fork fun _ => 0)], x.2.isFork = false) ∧
      ((∀ s ∈ visited [(Game.powerOn.boot Game.sampleImage, Game.Op.fork Game.sampleFork)] j,
          Game.AllProtected Game.sampleImage s) ↔
        ∀ x ∈ [(Game.powerOn.boot Game.sampleImage, Game.Op.fork Game.sampleFork)],
          x.2.isFork = false) := by
  obtain ⟨k, hs⟩ := E1E2.step_fork
    (E1E2.alone_booted E1E2.loaded_powerOn E1E2.sampleImage) E1E2.sampleImage fun _ => 0
  have hp := Path.snoc Path.nil hs
  have hq := Path.snoc Path.nil Game.step_fork
  exact ⟨_, k, _, E1E2.boot_eq, hp, hq,
    protected_iff_no_fork E1E2.loaded_powerOn E1E2.boot_eq hp hq⟩

/-- The booted kernels, whose first process forks. -/
theorem fork_unprotected :
    (∃ k₁ k, E1E2.powerOn.boot E1E2.sampleImage = some k₁ ∧
      E1E2.Step E1E2.sampleImage k₁ (.fork fun _ => 0) k ∧ ¬E1E2.AllProtected k) ∧
    Game.Reachable Game.sampleImage
        (Game.exec Game.sampleImage (Game.powerOn.boot Game.sampleImage) (.fork Game.sampleFork)) ∧
      ¬Game.AllProtected Game.sampleImage
        (Game.exec Game.sampleImage (Game.powerOn.boot Game.sampleImage)
          (.fork Game.sampleFork)) := by
  refine ⟨?_, Game.reachable_fork, ?_⟩
  · obtain ⟨k, hs⟩ := E1E2.step_fork
      (E1E2.alone_booted E1E2.loaded_powerOn E1E2.sampleImage) E1E2.sampleImage fun _ => 0
    exact ⟨_, k, E1E2.boot_eq, hs,
      E1E2.not_allProtected_fork (E1E2.alone_booted E1E2.loaded_powerOn _) hs⟩
  · exact Game.not_allProtected_fork Game.unforked_boot Game.step_fork.1

end Zeos
