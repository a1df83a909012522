import Zeos.Lib.Pool
import Zeos.Lib.Transition
import Zeos.Common.Space

/-!
# The frames are a pool

`alloc_frame` and `free_frame` of the kernels with processes, as an allocator in the
sense of `Pool`: the slots are the even frames from `NUM_PAG_KERNEL` on. The two
functions disagree about the first of them. `alloc_frame` starts its search at
`NUM_PAG_KERNEL`, which `init_frames` marks as free, while `free_frame` takes only the
frames *above* it; so this frame can be taken and never comes back. Frames are conserved
in exactly the runs that do not give it back (`Zeos.frames_conserved`).
-/

namespace Zeos

open Pool

variable {mm : Mm} {f n : Nat}

/-! ### The allocator -/

/-- **The frame allocator.** -/
def frames : Allocator Mm Nat where
  take mm := (frameOf mm.allocFrame.1, mm.allocFrame.2)
  give f mm := mm.freeFrame f
  free mm := (freeSlots mm.physMem).toFinset
  take_spec mm := by
    cases h : freeSlots mm.physMem with
    | nil =>
      rw [allocFrame_of_nil h]
      exact Or.inl ⟨rfl, rfl⟩
    | cons f fs =>
      have hp : (freeSlots mm.physMem).Pairwise (· < ·) := pairwise_freeSlots
      rw [h] at hp
      obtain ⟨hleast, herase⟩ := isLeast_head hp
      refine Or.inr ⟨f, hleast, ?_, ?_⟩
      · rw [allocFrame_of_cons h]
        exact frameOf_natCast
      · rw [allocFrame_of_cons h]
        change (freeSlots (Function.update mm.physMem f .usedFrame)).toFinset = _
        rw [freeSlots_update h]
        exact herase.symm

/-- The frames there are. -/
def allFrames : Finset Nat := slots.toFinset

theorem mem_allFrames : f ∈ allFrames ↔ Slot f := by
  rw [allFrames, List.mem_toFinset, mem_slots]

theorem card_allFrames : allFrames.card = (totalPages - numPagKernel) / 2 := by
  have hnd : slots.Nodup := pairwise_slots.imp fun h => Nat.ne_of_lt h
  rw [allFrames, List.toFinset_card_of_nodup hnd, length_slots]
  rfl

/-- After `init_frames` all of them are free. -/
theorem free_initFrames : frames.free mm.initFrames = allFrames := by
  ext f
  change f ∈ (freeSlots mm.initFrames.physMem).toFinset ↔ _
  rw [List.mem_toFinset, mem_freeSlots, mem_allFrames]
  refine and_iff_left_of_imp fun hf => ?_
  simp only [Mm.initFrames]
  rw [if_neg (by have := hf.1; omega), if_pos hf.2.1]

/-- A frame that is freed can be taken again, if it is not the first one. -/
theorem free_freeFrame (hf : f ∈ allFrames) (hne : f ≠ numPagKernel) :
    frames.free (mm.freeFrame f) = insert f (frames.free mm) := by
  obtain ⟨hge, hlt, heven⟩ := mem_allFrames.mp hf
  have hgt : numPagKernel < f := lt_of_le_of_ne hge (Ne.symm hne)
  ext g
  change g ∈ (freeSlots (mm.freeFrame f).physMem).toFinset ↔
    g ∈ insert f (freeSlots mm.physMem).toFinset
  rw [Mm.freeFrame, if_pos ⟨hgt, hlt⟩, Finset.mem_insert, List.mem_toFinset, List.mem_toFinset,
    mem_freeSlots, mem_freeSlots]
  by_cases hg : g = f
  · subst hg
    simp [Slot, hge, hlt, heven]
  · simp [hg]

/-- Freeing the first frame has no effect. -/
theorem freeFrame_numPagKernel : mm.freeFrame numPagKernel = mm := by
  rw [Mm.freeFrame, if_neg (fun h => lt_irrefl _ h.1)]

/-- How often `alloc_frame` would succeed. -/
theorem forall_allocs : (∀ r ∈ allocs n mm, r ≠ -1) ↔ n ≤ (frames.free mm).card := by
  have hcard : (frames.free mm).card = (freeSlots mm.physMem).length :=
    List.toFinset_card_of_nodup nodup_freeSlots
  rw [hcard]
  refine ⟨le_of_allocs, fun hn r hr => ?_⟩
  rw [allocs_eq hn, List.mem_map] at hr
  obtain ⟨g, -, rfl⟩ := hr
  exact fun h => by simp at h

/-- Freeing the frame that has just been allocated restores the bytemap, if it is not
the first one. -/
theorem freeFrame_allocFrame (hf : mm.allocFrame.1 = (f : Int)) (hne : f ≠ numPagKernel) :
    (mm.allocFrame.2.freeFrame f).physMem = mm.physMem := by
  rcases allocFrame_cases mm with ⟨g, hg, hfree, -, heq⟩ | ⟨-, heq⟩
  · rw [heq] at hf ⊢
    obtain rfl : g = f := Int.ofNat.inj hf
    have hgt : numPagKernel < g := lt_of_le_of_ne hg.1 (Ne.symm hne)
    simp only [Mm.freeFrame, if_pos (And.intro hgt hg.2.1), Function.update_idem, ← hfree,
      Function.update_eq_self]
  · rw [heq] at hf
    exact absurd hf (by simp only; omega)

/-! ### Runs -/

/-- **The frames are conserved** after a run: what is allocated next is a user frame
that nobody holds, the frames left are those not held, and if the run ends with a frame
that is freed right after it was allocated, the bytemap is what it was before. -/
structure FramesConserved (hist : List ((Mm × Finset Nat) × Call Nat)) (s : Mm × Finset Nat) :
    Prop where
  /-- No frame that is held, or of the kernel, is allocated. -/
  fresh : ∀ f : Nat, s.1.allocFrame.1 = f → f ∉ s.2 ∧ numPagKernel ≤ f
  /-- The number of frames left. -/
  count : ∀ n, (∀ r ∈ allocs n s.1, r ≠ -1) ↔
    n + s.2.card ≤ (totalPages - numPagKernel) / 2
  /-- Freeing undoes allocating. -/
  restored : ∀ h s₀ s₁ (f : Nat), hist = h ++ [(s₀, .take), (s₁, .give f)] →
    s₀.1.allocFrame.1 = (f : Int) → s.1.physMem = s₀.1.physMem

/-- No slot is lost: the frames are conserved, as far as the state goes. -/
theorem conserved_of_kept {hist : List ((Mm × Finset Nat) × Call Nat)} {s : Mm × Finset Nat}
    (hk : Kept frames allFrames s.1 s.2)
    (hr : ∀ h s₀ s₁ (f : Nat), hist = h ++ [(s₀, .take), (s₁, .give f)] →
      s₀.1.allocFrame.1 = (f : Int) → s.1.physMem = s₀.1.physMem) :
    FramesConserved hist s := by
  refine ⟨fun f hf => ?_, fun n => ?_, hr⟩
  · have htake : (frames.take s.1).1 = some f := by
      change frameOf s.1.allocFrame.1 = some f
      rw [hf, frameOf_natCast]
    obtain ⟨hslot, hheld⟩ := (hk.take_eq_some htake).1
    exact ⟨hheld, (mem_allFrames.mp hslot).1⟩
  · rw [forall_allocs, ← card_allFrames, ← hk.card]
    omega

/-- Where frames are conserved, none is lost. -/
theorem FramesConserved.card_le {hist : List ((Mm × Finset Nat) × Call Nat)}
    {s : Mm × Finset Nat} (h : FramesConserved hist s) (hle : s.2.card ≤ allFrames.card) :
    allFrames.card ≤ (frames.free s.1).card + s.2.card := by
  have hcount := (h.count (allFrames.card - s.2.card)).mpr (by
    rw [← card_allFrames]
    exact (Nat.sub_add_cancel hle).le)
  rw [forall_allocs] at hcount
  omega

/-- **Frames are conserved in exactly the runs that do not give back the first frame.** -/
theorem frames_conserved {hist : List ((Mm × Finset Nat) × Call Nat)} {s : Mm × Finset Nat}
    (hp : Transition.Path (Step frames) (mm.initFrames, ∅) hist s) :
    (Transition.Along (fun h x => FramesConserved h x.1) hist ∧ FramesConserved hist s) ↔
      ∀ x ∈ hist, x.2 ≠ .give numPagKernel := by
  refine hp.along_iff (Q := FramesConserved) (I := fun x => Kept frames allFrames x.1 x.2)
    (C := fun x => x.2 ≠ .give numPagKernel) ?_ ?_
  · have hk : Kept frames allFrames mm.initFrames ∅ :=
      ⟨Finset.empty_subset _, by rw [free_initFrames, Finset.sdiff_empty]⟩
    exact ⟨conserved_of_kept hk fun h s₀ s₁ f heq => by simp at heq, hk⟩
  · rintro h x l y hp hk hs
    constructor
    · intro hC
      have hky : Kept frames allFrames y.1 y.2 := by
        refine hk.step hs fun f hl hf => free_freeFrame hf ?_
        rintro rfl
        exact hC hl
      refine ⟨conserved_of_kept hky fun h' s₀ s₁ f heq halloc => ?_, hky⟩
      -- the last two steps of the run are the allocation and this step
      have hsplit : h ++ [(x, l)] = (h' ++ [(s₀, .take)]) ++ [(s₁, .give f)] := by
        rw [heq]
        simp
      obtain ⟨rfl, hlast⟩ := List.append_inj' hsplit rfl
      obtain ⟨rfl, rfl⟩ := Prod.mk.inj (List.singleton_inj.mp hlast)
      obtain ⟨-, htake⟩ := hp.last
      obtain rfl := htake
      obtain ⟨-, rfl⟩ := hs
      exact freeFrame_allocFrame halloc fun hf => hC (by rw [hf])
    · rintro hQ rfl
      -- one frame less is left than there should be
      obtain ⟨hmem, rfl⟩ := hs
      have hlost := hk.lost hmem (congrArg frames.free freeFrame_numPagKernel)
      have hcard : allFrames.card ≤ (frames.free (frames.give numPagKernel x.1)).card +
          (x.2.erase numPagKernel).card := hQ.card_le (by dsimp only; omega)
      omega

/-! ### The first frame -/

/-- The first call of `alloc_frame` returns the first frame. -/
theorem allocFrame_initFrames : mm.initFrames.allocFrame =
    (256, { mm.initFrames with
      physMem := Function.update mm.initFrames.physMem 256 .usedFrame }) := by
  have hfind : Mm.findFrame mm.initFrames.physMem numPagKernel = some 256 := by
    have hfree : mm.initFrames.physMem numPagKernel = .freeFrame := rfl
    rw [Mm.findFrame, if_pos (by decide), if_pos hfree]
    rfl
  simp only [Mm.allocFrame, hfind]
  rfl

/-- The calls `alloc_frame` and `free_frame` of the first frame, from `init_frames` on. -/
theorem path_first : Transition.Path (Step frames) (mm.initFrames, ∅)
    [((mm.initFrames, ∅), .take), ((mm.initFrames.allocFrame.2, {256}), .give 256)]
    (mm.initFrames.allocFrame.2, ∅) := by
  have h1 : Transition.Path (Step frames) (mm.initFrames, ∅) [((mm.initFrames, ∅), .take)]
      (mm.initFrames.allocFrame.2, {256}) := by
    refine Transition.Path.nil.snoc (Prod.ext rfl ?_)
    change {256} = ∅ ∪ (frameOf mm.initFrames.allocFrame.1).toFinset
    rw [allocFrame_initFrames]
    rfl
  refine h1.snoc ⟨Finset.mem_singleton_self 256, Prod.ext ?_ (by simp)⟩
  exact freeFrame_numPagKernel.symm

/-- Memory management with nothing mapped. -/
def blankMm : Mm where
  physMem := fun _ => .freeFrame
  dirPages := fun _ => { table := 0, present := false, rw := false, user := false }
  pagusrTable := fun _ _ => Paging.Entry.zero
  mmu := { mem := fun _ _ => 0, tlb := fun _ => none, fault := false }
  cr3 := 0
  paging := false

/-- **The first frame is lost**: it is allocated and freed, and the bytemap is not what
it was. -/
theorem frames_lost : ¬∀ hist s,
    Transition.Path (Step frames) (blankMm.initFrames, ∅) hist s → FramesConserved hist s := by
  intro h
  have hr := (h _ _ path_first).restored [] _ _ 256 rfl (by rw [allocFrame_initFrames]; rfl)
  have h256 := congrFun hr 256
  rw [allocFrame_initFrames] at h256
  simp only [Function.update_self, Mm.initFrames] at h256
  exact absurd h256 (by decide)

/-- One allocation, and the frames left. -/
theorem frames_conserved_first : FramesConserved [((blankMm.initFrames, ∅), .take)]
    (blankMm.initFrames.allocFrame.2, {256}) := by
  have hp := (@path_first blankMm).last (h := [_])
  exact ((frames_conserved hp.1).mpr (by simp)).2

end Zeos
