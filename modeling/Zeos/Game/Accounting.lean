import Mathlib.Data.Fintype.Card
import Zeos.Game.Frames

/-!
# No frame is lost

The ownership of frames says to whom a frame in use belongs; here the frames are counted.
`alloc_frame` looks at `384` frames, eight of which hold the code from the boot on. A fork takes
twenty of the others, and an exit gives twenty back, so that in every reachable state the free
frames, the code frames and twenty frames for every live process are all there is
(`Zeos.Game.frame_accounting`): no frame is lost, however many processes have come and gone, and
none is counted twice.
-/

namespace Zeos.Game

open ByteMem CircList Loop Paging RoundRobin X86

variable {k : Kernel} {mm : Mm} {U : Task → Prop} {a : Sched Task} {img : Image}

/-- The frames that belong to somebody: the code frames, and the data frames of the tasks
in `ts`. -/
def framesOf (mm : Mm) (ts : List Task) : List Nat :=
  (List.range numPagCode).map codeFrame ++
    ts.flatMap fun t => (List.range numPagData).map fun i => (dataEntry mm t i).base

theorem length_framesOf (mm : Mm) (ts : List Task) :
    (framesOf mm ts).length = numPagCode + numPagData * ts.length := by
  induction ts with
  | nil => simp [framesOf]
  | cons t ts ih =>
    simp only [framesOf, List.length_append, List.length_map, List.length_range,
      List.flatMap_cons, List.length_cons] at ih ⊢
    rw [Nat.mul_succ]
    omega

theorem mem_framesOf {ts : List Task} {f : Nat} : f ∈ framesOf mm ts ↔
    (∃ i < numPagCode, f = codeFrame i) ∨
      ∃ t ∈ ts, ∃ i < numPagData, (dataEntry mm t i).base = f := by
  simp only [framesOf, List.mem_append, List.mem_map, List.mem_range, List.mem_flatMap, eq_comm]

/-- The data frames of a process are different frames. -/
theorem nodup_dataFrames (h : Owned mm U) {t : Task} (ht : U t) :
    ((List.range numPagData).map fun i => (dataEntry mm t i).base).Nodup := by
  refine List.Nodup.map_on (fun i hi j hj heq => ?_) List.nodup_range
  exact (h.inj t t ht ht i (List.mem_range.mp hi) j (List.mem_range.mp hj) heq).2

/-- **No frame belongs to two.** -/
theorem nodup_framesOf (h : Owned mm U) {ts : List Task} (hnd : ts.Nodup) (hts : ∀ t ∈ ts, U t) :
    (framesOf mm ts).Nodup := by
  refine List.Nodup.append ?_ ?_ ?_
  · refine List.Nodup.map (fun i j heq => ?_) List.nodup_range
    unfold codeFrame at heq
    omega
  · refine List.nodup_flatMap.mpr ⟨fun t ht => nodup_dataFrames h (hts t ht), ?_⟩
    refine (List.Nodup.pairwise_of_forall_ne hnd fun t ht u hu hne => ?_)
    refine List.disjoint_left.mpr fun f hf hf' => ?_
    obtain ⟨i, hi, rfl⟩ := List.mem_map.mp hf
    obtain ⟨j, hj, heq⟩ := List.mem_map.mp hf'
    exact hne (h.inj u t (hts u hu) (hts t ht) j (List.mem_range.mp hj) i (List.mem_range.mp hi)
      heq).1.symm
  · -- the data frames come after the code frames
    rw [List.disjoint_left]
    rintro f hf hf'
    obtain ⟨i, hi, rfl⟩ := List.mem_map.mp hf
    obtain ⟨t, ht, hf'⟩ := List.mem_flatMap.mp hf'
    obtain ⟨j, hj, heq⟩ := List.mem_map.mp hf'
    have hslot := (h.slot t (hts t ht) j (List.mem_range.mp hj)).2
    rw [heq] at hslot
    have := List.mem_range.mp hi
    unfold codeFrame at hslot
    omega

/-- The frames in use are those that belong to somebody. -/
theorem used_perm_framesOf (h : Owned mm U) {ts : List Task} (hnd : ts.Nodup)
    (hts : ∀ t, t ∈ ts ↔ U t) :
    (slots.filter fun f => !decide (mm.physMem f = .freeFrame)).Perm (framesOf mm ts) := by
  refine (List.perm_ext_iff_of_nodup ((pairwise_slots.imp fun h => Nat.ne_of_lt h).filter _)
    (nodup_framesOf h hnd fun t ht => (hts t).mp ht)).mpr fun f => ?_
  rw [List.mem_filter, mem_slots, mem_framesOf, Bool.not_eq_true', decide_eq_false_iff_not]
  constructor
  · rintro ⟨hs, hu⟩
    have hused : mm.physMem f = .usedFrame := by
      cases hf : mm.physMem f with
      | freeFrame => exact absurd hf hu
      | usedFrame => rfl
    rcases h.owner f hs.1 hs.2.1 hused with hc | ⟨t, ht, hd⟩
    · exact Or.inl hc
    · exact Or.inr ⟨t, (hts t).mpr ht, hd⟩
  · rintro (⟨i, hi, rfl⟩ | ⟨t, ht, i, hi, rfl⟩)
    · refine ⟨?_, by simp [h.codeUsed i hi]⟩
      unfold Slot codeFrame numPagKernel totalPages
      unfold numPagCode at hi
      omega
    · have hU := (hts t).mp ht
      exact ⟨(h.slot t hU i hi).1, by simp [h.used t hU i hi]⟩

/-- **The frames are all accounted for.** In every reachable state, the frames that
`alloc_frame` looks at are the free ones, the eight of the code, and twenty for every live
process. -/
theorem frame_accounting (h : Reachable img k) : ∃ ps : Finset Task, (∀ t, t ∈ ps ↔ Live k t) ∧
    (freeSlots k.mm.physMem).length + numPagCode + numPagData * ps.card = slots.length := by
  obtain ⟨a, hr, hf⟩ := reachable_frames h
  refine ⟨Finset.univ.filter (InUse a), fun t => ?_, ?_⟩
  · rw [live_iff hr, Finset.mem_filter, and_iff_right (Finset.mem_univ t)]
  · have hperm := used_perm_framesOf hf.owned (Finset.univ.filter (InUse a)).nodup_toList
      fun t => by simp
    have hlen := hperm.length_eq
    rw [length_framesOf, Finset.length_toList] at hlen
    have hsum := List.length_eq_length_filter_add (l := slots) fun f =>
      decide (k.mm.physMem f = .freeFrame)
    rw [hsum, hlen, freeSlots]
    omega

/-- The frames after the first `fork`. -/
theorem frame_accounting_fork :
    let k := exec sampleImage (powerOn.boot sampleImage) (.fork sampleFork)
    ∃ ps : Finset Task, (∀ t, t ∈ ps ↔ Live k t) ∧
      (freeSlots k.mm.physMem).length + numPagCode + numPagData * ps.card = slots.length :=
  frame_accounting reachable_fork

end Zeos.Game
