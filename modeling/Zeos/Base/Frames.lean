import Zeos.Lib.Pool
import Zeos.Lib.Transition
import Zeos.Base.Space

/-!
# The frames of the kernel under `zeos/`

`alloc_frame` and `free_frame` as an allocator in the sense of `Pool`. The slots are the
frames after the kernel image without the two that are reserved for the GDT and the
screen. Only `alloc_frame` respects the end of the image, and nothing but the bytemap
protects the two reserved frames: `free_frame` would free them, too. What protects them
is that they are never handed out, so that nobody can give them back
(`Zeos.Base.frames_reserved`).
-/

namespace Zeos.Base

open Pool

variable {k k₀ : Kernel} {f last : Nat}

/-- **The frame allocator.** -/
def frames : Allocator Kernel Nat where
  take k := (frameOf k.allocFrame.1, k.allocFrame.2)
  give f k := k.freeFrame f
  free k := k.allocatable.toFinset
  take_spec k := by
    cases h : k.allocatable with
    | nil =>
      rw [allocFrame_of_nil h]
      exact Or.inl ⟨rfl, rfl⟩
    | cons f fs =>
      have hp : k.allocatable.Pairwise (· < ·) := List.Pairwise.filter _ List.pairwise_lt_range'
      rw [h] at hp
      obtain ⟨hleast, herase⟩ := isLeast_head hp
      obtain ⟨heq, hfs⟩ := allocFrame_of_cons h
      refine Or.inr ⟨f, hleast, ?_, ?_⟩
      · rw [heq]
        exact frameOf_natCast
      · rw [hfs]
        exact herase.symm

/-- The frames that can be allocated after a kernel that ends before frame `last`. -/
def allFrames (last : Nat) : Finset Nat :=
  (Finset.range totalPages).filter fun f => last ≤ f ∧ f ≠ gdtFrame ∧ f ≠ screenFrame

theorem mem_allFrames :
    f ∈ allFrames last ↔ last ≤ f ∧ f < totalPages ∧ f ≠ gdtFrame ∧ f ≠ screenFrame := by
  rw [allFrames, Finset.mem_filter, Finset.mem_range]
  exact and_left_comm

/-- After `init_mm` all of them are free. -/
theorem free_initMm : frames.free k.initMm = allFrames k.initMm.lastKernel := by
  ext f
  change f ∈ k.initMm.allocatable.toFinset ↔ _
  rw [List.mem_toFinset, mem_allocatable, mem_allFrames]
  refine and_congr_right fun hlast => and_congr_right fun hlt => ?_
  have hafter : ¬(k.initMm.firstKernel ≤ f ∧ f < k.initMm.lastKernel) := by omega
  have hphys : k.initMm.physMem = Function.update (Function.update
      (fun i => if k.initMm.firstKernel ≤ i ∧ i < k.initMm.lastKernel then .usedFrame
        else if i < totalPages then .freeFrame else k.physMem i)
      gdtFrame .usedFrame) screenFrame .usedFrame := rfl
  rw [hphys]
  by_cases hs : f = screenFrame
  · subst hs
    simp
  · rw [Function.update_of_ne hs]
    by_cases hg : f = gdtFrame
    · subst hg
      simp
    · rw [Function.update_of_ne hg]
      refine iff_of_true ?_ ⟨hg, hs⟩
      rw [if_neg hafter, if_pos hlt]

/-- A frame that is freed can be taken again, unless it belongs to the kernel. -/
theorem free_freeFrame (hlast : k.lastKernel ≤ f) (hlt : f < totalPages) :
    frames.free (k.freeFrame f) = insert f (frames.free k) := by
  ext g
  change g ∈ (k.freeFrame f).allocatable.toFinset ↔ g ∈ insert f k.allocatable.toFinset
  rw [Kernel.freeFrame, if_pos hlt, Finset.mem_insert, List.mem_toFinset, List.mem_toFinset,
    mem_allocatable, mem_allocatable]
  by_cases hg : g = f
  · subst hg
    simp [hlast, hlt]
  · simp [hg]

/-- Freeing leaves the bounds of the kernel alone. -/
theorem freeFrame_lastKernel : (k.freeFrame f).lastKernel = k.lastKernel := by
  unfold Kernel.freeFrame
  split <;> rfl

/-- **Freeing the frame that has just been allocated restores the bytemap.** -/
theorem freeFrame_allocFrame (hf : k.allocFrame.1 = (f : Int)) :
    (k.allocFrame.2.freeFrame f).physMem = k.physMem := by
  cases h : k.allocatable with
  | nil =>
    rw [allocFrame_of_nil h] at hf
    exact absurd hf (by simp only; omega)
  | cons g gs =>
    have hg : g ∈ k.allocatable := by simp [h]
    obtain ⟨-, hlt, hfree⟩ := mem_allocatable.mp hg
    rw [(allocFrame_of_cons h).1] at hf ⊢
    obtain rfl : g = f := Int.ofNat.inj hf
    simp only [Kernel.freeFrame, if_pos hlt, Function.update_idem, ← hfree,
      Function.update_eq_self]

/-! ### Runs -/

/-- Along a run no frame is lost, and the kernel does not grow. -/
theorem kept_path {hist : List ((Kernel × Finset Nat) × Call Nat)} {x : Kernel × Finset Nat}
    (hp : Transition.Path (Step frames) (k₀.initMm, ∅) hist x) :
    Kept frames (allFrames k₀.initMm.lastKernel) x.1 x.2 ∧
      x.1.lastKernel = k₀.initMm.lastKernel := by
  refine hp.invariant (P := fun _ x => Kept frames (allFrames k₀.initMm.lastKernel) x.1 x.2 ∧
    x.1.lastKernel = k₀.initMm.lastKernel) ?_ ?_
  · refine ⟨⟨Finset.empty_subset _, ?_⟩, rfl⟩
    rw [free_initMm, Finset.sdiff_empty]
  · rintro h x l y - ⟨hk, hlast⟩ hs
    refine ⟨hk.step hs fun f _ hf => ?_, ?_⟩
    · obtain ⟨hge, hlt, -⟩ := mem_allFrames.mp hf
      exact free_freeFrame (by omega) hlt
    · cases l with
      | take =>
        obtain rfl := hs
        exact allocFrame_bounds.2.trans hlast
      | give f =>
        obtain ⟨-, rfl⟩ := hs
        exact freeFrame_lastKernel.trans hlast

/-- **Reserved frames stay reserved**, in every run from `init_mm` in which only frames
that are held are freed: `alloc_frame` returns the least frame after the kernel that is
not held and not one of the two reserved ones, or `-1` if there is none; and freeing it
undoes the allocation. -/
theorem frames_reserved {hist : List ((Kernel × Finset Nat) × Call Nat)} {held : Finset Nat}
    (hp : Transition.Path (Step frames) (k₀.initMm, ∅) hist (k, held)) :
    (k.allocFrame.1 = -1 ↔ ∀ f, k₀.initMm.lastKernel ≤ f → f < totalPages → f ≠ gdtFrame →
      f ≠ screenFrame → f ∈ held) ∧
    (k.allocFrame.1 ≠ -1 → ∃ f : Nat, k.allocFrame.1 = f ∧
      IsLeast {g | k₀.initMm.lastKernel ≤ g ∧ g < totalPages ∧ g ≠ gdtFrame ∧
        g ≠ screenFrame ∧ g ∉ held} f) ∧
    ∀ f : Nat, k.allocFrame.1 = f →
      ¬(k₀.initMm.firstKernel ≤ f ∧ f < k₀.initMm.lastKernel) ∧ f ≠ gdtFrame ∧
      f ≠ screenFrame ∧ f ∉ held ∧ (k.allocFrame.2.freeFrame f).physMem = k.physMem := by
  obtain ⟨hk, -⟩ := kept_path hp
  have hset : {g | g ∈ allFrames k₀.initMm.lastKernel ∧ g ∉ held} =
      {g | k₀.initMm.lastKernel ≤ g ∧ g < totalPages ∧ g ≠ gdtFrame ∧ g ≠ screenFrame ∧
        g ∉ held} := by
    ext g
    simp only [Set.mem_ofPred_eq, mem_allFrames, and_assoc]
  -- a number that `alloc_frame` returns is the slot it has taken
  have hleast : ∀ f : Nat, k.allocFrame.1 = f →
      IsLeast {g | g ∈ allFrames k₀.initMm.lastKernel ∧ g ∉ held} f := by
    intro f hf
    refine hk.take_eq_some ?_
    change frameOf k.allocFrame.1 = some f
    rw [hf, frameOf_natCast]
  refine ⟨?_, fun hne => ?_, fun f hf => ?_⟩
  · have hnone : (frames.take k).1 = none ↔ k.allocFrame.1 = -1 := by
      change frameOf k.allocFrame.1 = none ↔ _
      rw [frameOf]
      split <;> simp_all
    rw [← hnone, hk.take_eq_none]
    constructor
    · intro hsub f h1 h2 h3 h4
      exact hsub (mem_allFrames.mpr ⟨h1, h2, h3, h4⟩)
    · intro hall f hf
      obtain ⟨h1, h2, h3, h4⟩ := mem_allFrames.mp hf
      exact hall f h1 h2 h3 h4
  · cases h : k.allocatable with
    | nil => exact absurd (congrArg Prod.fst (allocFrame_of_nil h)) hne
    | cons g gs =>
      have hg : k.allocFrame.1 = (g : Int) := congrArg Prod.fst (allocFrame_of_cons h).1
      exact ⟨g, hg, hset ▸ hleast g hg⟩
  · obtain ⟨hmem, hheld⟩ := (hleast f hf).1
    obtain ⟨h1, -, h3, h4⟩ := mem_allFrames.mp hmem
    exact ⟨fun h => absurd h.2 (by omega), h3, h4, hheld, freeFrame_allocFrame hf⟩

/-- The second allocation after boot, with an empty kernel image. -/
theorem frames_reserved_blank :
    let k := blankKernel.initMm.allocFrame.2
    ∃ f : Nat, k.allocFrame.1 = f ∧
      IsLeast {g | blankKernel.initMm.lastKernel ≤ g ∧ g < totalPages ∧ g ≠ gdtFrame ∧
        g ≠ screenFrame ∧ g ∉ ({17} : Finset Nat)} f := by
  intro k
  have hp : Transition.Path (Step frames) (blankKernel.initMm, ∅)
      [((blankKernel.initMm, ∅), .take)] (k, {17}) := by
    refine Transition.Path.nil.snoc (Prod.ext rfl ?_)
    change {17} = ∅ ∪ (frameOf blankKernel.initMm.allocFrame.1).toFinset
    decide +kernel
  exact (frames_reserved hp).2.1 (by decide +kernel)

end Zeos.Base
