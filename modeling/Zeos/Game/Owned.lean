import Mathlib.Data.List.GetD
import Zeos.Common.Space
import Zeos.Game.Queues

/-!
# Who owns the frames

The bytemap says which frames are in use, the page tables say by whom.
`Zeos.Game.Owned mm U` is the agreement of the two for the page tables of the
processes in `U`: their data frames are pairwise distinct and marked, and
conversely a marked frame above the kernel is one of the eight code frames or a
data frame of some process in `U`. The set `U` loses a process whose frames are
given back (`Zeos.Game.owned_exitFree`), gains one whose page table a fork has
filled (`Zeos.Game.owned_forkTabled`), and consists of the first process at boot
(`Zeos.Game.owned_boot`).

Two oddities of `mm.c` matter. The allocator steps by two, so that half of the
frames are never used: at most `8 + 10 · 20` of the `384` that it looks at are
ever taken (`Zeos.Game.numPagData_le_freeSlots`). And `free_frame` ignores the
first frame above the kernel; that one has been given to the first code page at
boot, so it is never a data frame.
-/

namespace Zeos.Game

open ByteMem CircList Loop Paging RoundRobin X86

/-! ### Ownership -/

/-- The frame of a code page: the first eight frames the allocator hands out. -/
def codeFrame (i : Nat) : Nat := numPagKernel + 2 * i

/-- The entry of a page table for a code page. -/
def codeEntry (mm : Mm) (t : Task) (i : Nat) : Entry :=
  mm.pagusrTable t (userLayout.pagLogInitCode + i)

/-- The entry of a page table for a data page. -/
def dataEntry (mm : Mm) (t : Task) (i : Nat) : Entry :=
  mm.pagusrTable t (userLayout.pagLogInitData + i)

/-- The entry of a page table for a page of the window through which a fork
copies. -/
def windowEntry (mm : Mm) (t : Task) (i : Nat) : Entry :=
  mm.pagusrTable t (userLayout.pagLogInitData + numPagData + i)

/-- **The bytemap and the page tables of the processes in `U` agree.** -/
structure Owned (mm : Mm) (U : Task → Prop) : Prop where
  /-- Every directory names the page table of its own slot. -/
  table : ∀ t, (mm.dirPages t).table = t
  /-- The code pages are mapped to the code frames. -/
  code : ∀ t, U t → ∀ i < numPagCode,
    (codeEntry mm t i).present = true ∧ (codeEntry mm t i).base = codeFrame i
  /-- The data pages are mapped. -/
  mapped : ∀ t, U t → ∀ i < numPagData, (dataEntry mm t i).present = true
  /-- The data frames come from the allocator, after the code frames. -/
  slot : ∀ t, U t → ∀ i < numPagData,
    Slot (dataEntry mm t i).base ∧ codeFrame numPagCode ≤ (dataEntry mm t i).base
  /-- The data frames are marked. -/
  used : ∀ t, U t → ∀ i < numPagData, mm.physMem (dataEntry mm t i).base = .usedFrame
  /-- The code frames are marked. -/
  codeUsed : ∀ i < numPagCode, mm.physMem (codeFrame i) = .usedFrame
  /-- No data frame belongs to two pages. -/
  inj : ∀ t u, U t → U u → ∀ i < numPagData, ∀ j < numPagData,
    (dataEntry mm t i).base = (dataEntry mm u j).base → t = u ∧ i = j
  /-- Every marked frame belongs to some page. -/
  owner : ∀ f, numPagKernel ≤ f → f < totalPages → mm.physMem f = .usedFrame →
    (∃ i < numPagCode, f = codeFrame i) ∨
      ∃ t, U t ∧ ∃ i < numPagData, (dataEntry mm t i).base = f
  /-- The window is empty. -/
  window : ∀ t, ∀ i < numPagData, windowEntry mm t i = Entry.zero

variable {mm mm' : Mm} {U V : Task → Prop}

/-- Ownership is about bytemap and tables only. -/
theorem owned_congr (h : Owned mm U) (hp : mm'.physMem = mm.physMem)
    (hd : mm'.dirPages = mm.dirPages) (ht : mm'.pagusrTable = mm.pagusrTable)
    (hU : ∀ t, V t ↔ U t) : Owned mm' V := by
  obtain rfl : V = U := funext fun t => propext (hU t)
  obtain ⟨h1, h2, h3, h4, h5, h6, h7, h8, h9⟩ := h
  simp only [codeEntry, dataEntry, windowEntry] at *
  constructor <;> simp only [codeEntry, dataEntry, windowEntry, hp, hd, ht] <;> assumption

/-- The frames that can be in use: the code frames, and twenty for each task. -/
def ownedFrames (mm : Mm) : List Nat :=
  (List.range numPagCode).map codeFrame ++
    (List.finRange nrTasks).flatMap fun t =>
      (List.range numPagData).map fun i => (dataEntry mm t i).base

theorem length_ownedFrames : (ownedFrames mm).length = 208 := by
  simp [ownedFrames, List.length_flatMap, numPagCode, numPagData, nrTasks]

/-- **There are always frames for one more process.** -/
theorem numPagData_le_freeSlots (h : Owned mm U) :
    numPagData ≤ (freeSlots mm.physMem).length := by
  have hcount : 384 ≤ (freeSlots mm.physMem).length + (ownedFrames mm).length := by
    refine length_freeSlots fun f hf hu => ?_
    rw [ownedFrames, List.mem_append, List.mem_map, List.mem_flatMap]
    rcases h.owner f hf.1 hf.2.1 hu with ⟨i, hi, rfl⟩ | ⟨t, -, i, hi, rfl⟩
    · exact Or.inl ⟨i, List.mem_range.mpr hi, rfl⟩
    · exact Or.inr ⟨t, List.mem_finRange t, List.mem_map.mpr ⟨i, List.mem_range.mpr hi, rfl⟩⟩
  rw [length_ownedFrames] at hcount
  unfold numPagData
  omega

/-- A frame of the allocator below the data frames is a code frame, and in use. -/
theorem Owned.used_of_lt (h : Owned mm U) {f : Nat} (hs : Slot f) (hlt : f < codeFrame numPagCode) :
    mm.physMem f = .usedFrame := by
  obtain ⟨i, hi, rfl⟩ : ∃ i < numPagCode, f = codeFrame i := by
    refine ⟨(f - numPagKernel) / 2, ?_, ?_⟩
    · unfold codeFrame at hlt
      unfold Slot at hs
      omega
    · unfold codeFrame
      unfold Slot numPagKernel at *
      omega
  exact h.codeUsed i hi

/-- **What is done to the page table of `t` and to the frames `fs`, and to nothing else.** -/
structure Spared (mm mm' : Mm) (t : Task) (fs : List Nat) : Prop where
  /-- The directories. -/
  dir : mm'.dirPages = mm.dirPages
  /-- The page tables of the others. -/
  table : ∀ x, x ≠ t → mm'.pagusrTable x = mm.pagusrTable x
  /-- The window. -/
  window : ∀ i < numPagData, windowEntry mm' t i = windowEntry mm t i
  /-- The other frames. -/
  phys : ∀ f, f ∉ fs → mm'.physMem f = mm.physMem f

/-- The pages of the others. -/
theorem Spared.data_eq {t x : Task} {fs : List Nat} (hs : Spared mm mm' t fs) (hx : x ≠ t)
    (i : Nat) : dataEntry mm' x i = dataEntry mm x i := by
  rw [dataEntry, hs.table x hx, dataEntry]

/-- **The others own what they owned**, if none of their frames is among `fs`, all frames of
`t` are, and those in `fs` are not in use afterwards. -/
theorem Spared.owned {t : Task} {fs : List Nat} (hs : Spared mm mm' t fs) (h : Owned mm U)
    (hcode : ∀ i < numPagCode, codeFrame i ∉ fs)
    (hother : ∀ x, U x → x ≠ t → ∀ i < numPagData, (dataEntry mm x i).base ∉ fs)
    (hself : U t → ∀ i < numPagData, (dataEntry mm t i).base ∈ fs)
    (hfree : ∀ f ∈ fs, mm'.physMem f ≠ .usedFrame) : Owned mm' fun x => U x ∧ x ≠ t := by
  refine ⟨?_, ?_, ?_, ?_, ?_, ?_, ?_, ?_, ?_⟩
  · rw [hs.dir]
    exact h.table
  · rintro x ⟨hx, hxt⟩ i hi
    rw [codeEntry, hs.table x hxt]
    exact h.code x hx i hi
  · rintro x ⟨hx, hxt⟩ i hi
    rw [hs.data_eq hxt]
    exact h.mapped x hx i hi
  · rintro x ⟨hx, hxt⟩ i hi
    rw [hs.data_eq hxt]
    exact h.slot x hx i hi
  · rintro x ⟨hx, hxt⟩ i hi
    rw [hs.data_eq hxt, hs.phys _ (hother x hx hxt i hi)]
    exact h.used x hx i hi
  · intro i hi
    rw [hs.phys _ (hcode i hi)]
    exact h.codeUsed i hi
  · rintro x y ⟨hx, hxt⟩ ⟨hy, hyt⟩ i hi j hj heq
    rw [hs.data_eq hxt, hs.data_eq hyt] at heq
    exact h.inj x y hx hy i hi j hj heq
  · intro f h1 h2 hu
    have hf : f ∉ fs := fun hm => hfree f hm hu
    rw [hs.phys f hf] at hu
    rcases h.owner f h1 h2 hu with hc | ⟨x, hx, i, hi, rfl⟩
    · exact Or.inl hc
    · have hxt : x ≠ t := by
        rintro rfl
        exact hf (hself hx i hi)
      exact Or.inr ⟨x, ⟨hx, hxt⟩, i, hi, by rw [hs.data_eq hxt]⟩
  · intro x i hi
    by_cases hxt : x = t
    · subst hxt
      rw [hs.window i hi]
      exact h.window x i hi
    · rw [windowEntry, hs.table x hxt]
      exact h.window x i hi

/-! ### Giving frames back -/

/-- Giving frames back changes no page table below the data pages. -/
theorem exitFree_pagusrTable {pt t : Task} {p : Nat} (hp : p < userLayout.pagLogInitData) :
    (Kernel.exitFree pt mm).pagusrTable t p = mm.pagusrTable t p := by
  refine forLoop_induction (I := fun _ (m : Mm) => m.pagusrTable t p = mm.pagusrTable t p) rfl ?_
  intro i m _ hm
  rw [← hm]
  have hfree : (m.freeFrame (m.getFrame pt (userLayout.pagLogInitData + i))).pagusrTable =
      m.pagusrTable := by
    unfold Mm.freeFrame
    split <;> rfl
  simp only [Mm.delSsPag, Mm.setEntry, hfree]
  by_cases ht : t = pt
  · subst ht
    rw [Function.update_self, Function.update_of_ne (by omega)]
  · rw [Function.update_of_ne ht]

/-- **A process that gives its frames back owns nothing any more.** -/
theorem owned_exitFree {t : Task} (h : Owned mm U) (ht : U t) :
    Owned (Kernel.exitFree t mm) fun x => U x ∧ x ≠ t := by
  have heq := forLoop_free mm t userLayout.pagLogInitData numPagData rfl fun i hi => by
      have := h.slot t ht i hi
      simp only [codeFrame, numPagKernel, numPagCode, dataEntry, Slot, Returnable] at this ⊢
      omega
  set fs := (List.range numPagData).map fun i => (dataEntry mm t i).base with hfs
  have hE : Kernel.exitFree t mm = { mm.setTable t (overlay userLayout.pagLogInitData numPagData
      (fun _ => Entry.zero) (mm.pagusrTable t)) with physMem := mark mm.physMem fs .freeFrame } :=
    heq
  have hspared : Spared mm (Kernel.exitFree t mm) t fs := by
    rw [hE]
    refine ⟨rfl, fun x hx => setTable_of_ne hx, fun i hi => ?_, fun f hf => if_neg hf⟩
    rw [windowEntry]
    simp only [setTable_self]
    rw [overlay_of_notMem (by omega), windowEntry]
  refine hspared.owned h (fun i hi hm => ?_) (fun x hx hxt i hi hm => ?_)
    (fun _ i hi => List.mem_map.mpr ⟨i, List.mem_range.mpr hi, rfl⟩) fun f hf hu => ?_
  · -- a code frame is below every data frame
    obtain ⟨j, hj, heq⟩ := List.mem_map.mp hm
    have := (h.slot t ht j (List.mem_range.mp hj)).2
    unfold codeFrame at this heq
    omega
  · obtain ⟨j, hj, heq⟩ := List.mem_map.mp hm
    exact hxt (h.inj t x ht hx j (List.mem_range.mp hj) i hi heq).1.symm
  · rw [hE] at hu
    simp only [mark, if_pos hf] at hu
    exact absurd hu (by simp)

/-! ### Taking frames -/

/-- **One round of the allocation loop** takes the first free frame and goes on with the
others. -/
theorem forkAlloc_cons {mm : Mm} {f : Nat} {fs : List Nat} (pt : Task) (n pag : Nat)
    (hf : freeSlots mm.physMem = f :: fs) :
    ∃ m : Mm, Kernel.forkAlloc pt (n + 1) pag mm = Kernel.forkAlloc pt n (pag + 1) m ∧
      freeSlots m.physMem = fs ∧
      ∀ gs, m.grant pt (userLayout.pagLogInitData + (pag + 1)) gs ssEntry =
        mm.grant pt (userLayout.pagLogInitData + pag) (f :: gs) ssEntry := by
  have hne : mm.allocFrame.1 ≠ -1 := by
    rw [allocFrame_of_cons hf]
    simp only [ne_eq]
    omega
  refine ⟨mm.allocFrame.2.setEntry pt (userLayout.pagLogInitData + pag)
    (ssEntry mm.allocFrame.1), ?_, freeSlots_alloc hf, fun gs => ?_⟩
  · rw [Kernel.forkAlloc]
    simp only [if_pos hne]
    rfl
  · rw [← Nat.add_assoc]
    exact grant_cons hf

/-- **The allocation loop of `sys_fork`** takes the first free frames, if there are
enough of them. -/
theorem forkAlloc_eq (mm : Mm) (pt : Task) (n pag : Nat) (h : n ≤ (freeSlots mm.physMem).length) :
    Kernel.forkAlloc pt n pag mm =
      (true, mm.grant pt (userLayout.pagLogInitData + pag) ((freeSlots mm.physMem).take n)
        ssEntry) := by
  induction n generalizing mm pag with
  | zero => rw [Kernel.forkAlloc, List.take_zero, grant_nil]
  | succ n ih =>
    cases hf : freeSlots mm.physMem with
    | nil => simp [hf] at h
    | cons f fs =>
      obtain ⟨m, hround, hfs, hgrant⟩ := forkAlloc_cons pt n pag hf
      rw [hf, List.length_cons] at h
      rw [hround, ih m (pag + 1) (by rw [hfs]; omega), hfs, hgrant, List.take_succ_cons]

/-- The page table of a child once `sys_fork` has written it. -/
def childTable (mm : Mm) (parent child : Task) (fs : List Nat) : Table :=
  overlay userLayout.pagLogInitCode numPagCode (fun i => ssEntry (codeEntry mm parent i).base)
    (overlay 0 numPagKernel (fun i => ssEntry (mm.pagusrTable parent i).base)
      (overlay userLayout.pagLogInitData fs.length (fun i => ssEntry (fs.getD i 0 : Nat))
        (mm.pagusrTable child)))

/-- Memory management once the page table of the child is complete. -/
def forkTabled (mm : Mm) (parent child : Task) (fs : List Nat) : Mm :=
  { mm.setTable child (childTable mm parent child fs) with
    physMem := mark mm.physMem fs .usedFrame }

/-- The loops that share the pages of the kernel and the code. -/
theorem forkShare_eq {parent child : Task} {fs : List Nat} (hne : parent ≠ child) :
    Kernel.forkShare child parent
        (mm.grant child userLayout.pagLogInitData fs ssEntry) = forkTabled mm parent child fs := by
  set m₀ := mm.grant child userLayout.pagLogInitData fs ssEntry with hm₀
  have h1 := forLoop_share m₀ child 0 numPagKernel hne
  simp only [Nat.zero_add] at h1
  have h2 := forLoop_share (m₀.setTable child (overlay 0 numPagKernel
    (fun i => ssEntry (m₀.getFrame parent i)) (m₀.pagusrTable child))) child
    userLayout.pagLogInitCode numPagCode hne
  have hpar : m₀.pagusrTable parent = mm.pagusrTable parent := setTable_of_ne hne
  rw [Kernel.forkShare]
  simp only [h1, h2, setTable_setTable, setTable_self]
  simp only [Mm.getFrame, setTable_of_ne hne, hpar]
  simp only [hm₀, Mm.grant, Mm.setTable, Function.update_self, Function.update_idem]
  rfl

section Child

variable {parent child : Task} {fs : List Nat}

theorem childTable_data (hlen : fs.length = numPagData) {i : Nat} (hi : i < numPagData) :
    childTable mm parent child fs (userLayout.pagLogInitData + i) =
      ssEntry (fs.getD i 0 : Nat) := by
  rw [childTable, overlay_of_notMem, overlay_of_notMem, overlay_at (by omega)]
  · right
    rw [pagLogInitData_eq, numPagKernel]
    omega
  · right
    rw [pagLogInitData_eq, pagLogInitCode_eq, numPagCode]
    omega

theorem childTable_code {i : Nat} (hi : i < numPagCode) :
    childTable mm parent child fs (userLayout.pagLogInitCode + i) =
      ssEntry (codeEntry mm parent i).base := overlay_at hi

theorem childTable_window (hlen : fs.length = numPagData) {p : Nat}
    (hp : userLayout.pagLogInitData + numPagData ≤ p) :
    childTable mm parent child fs p = mm.pagusrTable child p := by
  rw [childTable, overlay_of_notMem, overlay_of_notMem, overlay_of_notMem]
  · right
    rw [hlen]
    exact hp
  · right
    rw [pagLogInitData_eq] at hp
    rw [numPagKernel]
    omega
  · right
    rw [pagLogInitData_eq] at hp
    rw [pagLogInitCode_eq, numPagCode]
    omega

/-- The frame in an entry written by `set_ss_pag`. -/
theorem ssEntry_base {f : Nat} (hf : f < totalPages) : (ssEntry (f : Int)).base = f :=
  pbaseAddr_of_lt hf

/-- Marking the frames that the page table of a process names makes it their owner. -/
theorem Owned.add (h : Owned mm U) (hc : ¬U child) (hlen : fs.length = numPagData)
    (hnd : fs.Nodup) (hfree : ∀ f ∈ fs, Slot f ∧ mm.physMem f = .freeFrame)
    (hcode : ∀ i < numPagCode,
      (codeEntry mm child i).present = true ∧ (codeEntry mm child i).base = codeFrame i)
    (hmapped : ∀ i < numPagData, (dataEntry mm child i).present = true)
    (hbase : ∀ i < numPagData, (dataEntry mm child i).base = fs.getD i 0) :
    Owned { mm with physMem := mark mm.physMem fs .usedFrame } fun x => U x ∨ x = child := by
  have hget : ∀ i < numPagData, fs.getD i 0 ∈ fs := by
    intro i hi
    rw [List.getD_eq_getElem _ _ (by omega)]
    exact List.getElem_mem _
  have hused : ∀ f, mm.physMem f = .usedFrame → f ∉ fs := by
    intro f hu hm
    rw [(hfree f hm).2] at hu
    exact absurd hu (by simp)
  have hkeep : ∀ f, mm.physMem f = .usedFrame →
      mark mm.physMem fs .usedFrame f = .usedFrame :=
    fun f hu => (if_neg (hused f hu)).trans hu
  refine ⟨h.table, ?_, ?_, ?_, ?_, fun i hi => hkeep _ (h.codeUsed i hi), ?_, ?_, h.window⟩
  · rintro x (hx | rfl) i hi
    · exact h.code x hx i hi
    · exact hcode i hi
  · rintro x (hx | rfl) i hi
    · exact h.mapped x hx i hi
    · exact hmapped i hi
  · rintro x (hx | rfl) i hi
    · exact h.slot x hx i hi
    · change Slot (dataEntry mm x i).base ∧ codeFrame numPagCode ≤ (dataEntry mm x i).base
      rw [hbase i hi]
      refine ⟨(hfree _ (hget i hi)).1, ?_⟩
      by_contra hlt
      have hu := h.used_of_lt (hfree _ (hget i hi)).1 (Nat.lt_of_not_le hlt)
      exact hused _ hu (hget i hi)
  · rintro x (hx | rfl) i hi
    · exact hkeep _ (h.used x hx i hi)
    · change mark mm.physMem fs .usedFrame (dataEntry mm x i).base = .usedFrame
      rw [hbase i hi]
      exact if_pos (hget i hi)
  · rintro x y (hx | rfl) (hy | rfl) i hi j hj heq
    · exact h.inj x y hx hy i hi j hj heq
    · have hm : (dataEntry mm x i).base ∈ fs := by
        rw [show (dataEntry mm x i).base = _ from heq.trans (hbase j hj)]
        exact hget j hj
      exact absurd hm (hused _ (h.used x hx i hi))
    · have hm : (dataEntry mm y j).base ∈ fs := by
        rw [show (dataEntry mm y j).base = _ from heq.symm.trans (hbase i hi)]
        exact hget i hi
      exact absurd hm (hused _ (h.used y hy j hj))
    · have hij : fs.getD i 0 = fs.getD j 0 :=
        (hbase i hi).symm.trans (Eq.trans heq (hbase j hj))
      rw [List.getD_eq_getElem _ _ (by omega), List.getD_eq_getElem _ _ (by omega)] at hij
      exact ⟨rfl, (List.Nodup.getElem_inj_iff hnd).mp hij⟩
  · intro f h1 h2 hu
    by_cases hm : f ∈ fs
    · obtain ⟨i, hi, rfl⟩ := List.getElem_of_mem hm
      refine Or.inr ⟨child, Or.inr rfl, i, by omega, (hbase i (by omega)).trans ?_⟩
      rw [List.getD_eq_getElem _ _ hi]
    · rcases h.owner f h1 h2 ((if_neg hm).symm.trans hu) with hcf | ⟨x, hx, i, hi, heq⟩
      · exact Or.inl hcf
      · exact Or.inr ⟨x, Or.inl hx, i, hi, heq⟩

/-- **The child of a fork owns its frames.** -/
theorem owned_forkTabled (h : Owned mm U) (hp : U parent) (hc : ¬U child)
    (hlen : fs.length = numPagData) (hnd : fs.Nodup)
    (hfree : ∀ f ∈ fs, Slot f ∧ mm.physMem f = .freeFrame) :
    Owned (forkTabled mm parent child fs) fun x => U x ∨ x = child := by
  -- first the page table of the child is written, then its frames are marked
  set mm₁ := mm.setTable child (childTable mm parent child fs) with hmm₁
  have hself : mm₁.pagusrTable child = childTable mm parent child fs := setTable_self
  have hspared : Spared mm mm₁ child [] := by
    refine ⟨rfl, fun x hx => setTable_of_ne hx, fun i hi => ?_, fun _ _ => rfl⟩
    rw [windowEntry, hself, childTable_window hlen (by omega), windowEntry]
  have howned : Owned mm₁ U := by
    refine owned_congr (hspared.owned h (fun _ _ => List.not_mem_nil)
      (fun _ _ _ _ _ => List.not_mem_nil) (fun hx => absurd hx hc)
      fun f hf => absurd hf List.not_mem_nil) rfl rfl rfl fun x => ?_
    refine ⟨fun hx => ⟨hx, ?_⟩, And.left⟩
    rintro rfl
    exact hc hx
  refine howned.add hc hlen hnd hfree (fun i hi => ?_) (fun i hi => ?_) fun i hi => ?_
  · obtain ⟨-, hb⟩ := h.code parent hp i hi
    rw [codeEntry, hself, childTable_code hi]
    refine ⟨rfl, ?_⟩
    rw [hb]
    refine ssEntry_base ?_
    unfold codeFrame numPagKernel totalPages
    unfold numPagCode at hi
    omega
  · rw [dataEntry, hself, childTable_data hlen hi]
    rfl
  · rw [dataEntry, hself, childTable_data hlen hi]
    refine ssEntry_base (hfree _ ?_).1.2.1
    rw [List.getD_eq_getElem _ _ (by omega)]
    exact List.getElem_mem _

end Child

/-! ### After boot -/

section Boot

variable {img : Image} {k₀ : Kernel}

theorem freeSlots_bootMm : freeSlots (bootMm img k₀).physMem = slots := by
  refine List.filter_eq_self.mpr fun f hf => ?_
  obtain ⟨h1, h2, -⟩ := mem_slots.mp hf
  simp [bootMm, Kernel.initMm, Kernel.initTablePages, Kernel.allocateDIR, Mm.initFrames,
    Mm.initDirPages, Mm.setCr3, Mm.setPeFlag, Nat.not_lt.mpr h1, h2]

/-- Above the kernel, the page tables are empty at first. -/
theorem bootMm_table {t : Task} {p : Nat} (h1 : numPagKernel ≤ p) (h2 : p < totalPages) :
    (bootMm img k₀).pagusrTable t p = Entry.zero := by
  have hg : ¬(p = img.lowGuard ∨ p = img.highGuard) := by
    have := img.base_lt
    unfold Image.lowGuard Image.highGuard
    omega
  have hi : Mm.initEntry p = Entry.zero := by
    rw [Mm.initEntry, if_neg (by omega)]
  simp [bootMm, Kernel.initMm, Kernel.initTablePages, Kernel.allocateDIR, Mm.initFrames,
    Mm.initDirPages, Mm.setCr3, Mm.setPeFlag, h2, hg, hi]

/-- The frames `set_user_pages` takes for the data pages. -/
def firstData : List Nat := (List.range numPagData).map fun i => codeFrame (numPagCode + i)

theorem slots_take : slots.take numPagCode = (List.range numPagCode).map codeFrame := by decide

theorem slots_drop_take : (slots.drop numPagCode).take numPagData = firstData := by decide

/-- **The pages of the first process**, as `set_user_pages` sets them up. -/
theorem setUserPages_eq : (bootMm img k₀).setUserPages userLayout 1 =
    ((bootMm img k₀).grant 1 userLayout.pagLogInitCode ((List.range numPagCode).map codeFrame)
      codeMk).grant 1 userLayout.pagLogInitData firstData ssEntry := by
  have h := setUserPages_grant (bootMm img k₀) userLayout 1
    (by rw [freeSlots_bootMm, length_slots]; decide)
  rw [freeSlots_bootMm, slots_take, slots_drop_take] at h
  exact h

/-- The entries of the first process. -/
theorem setUserPages_entry (i : Nat) :
    (i < numPagCode → codeEntry ((bootMm img k₀).setUserPages userLayout 1) 1 i =
      codeMk (codeFrame i : Nat)) ∧
    (i < numPagData → dataEntry ((bootMm img k₀).setUserPages userLayout 1) 1 i =
      ssEntry (codeFrame (numPagCode + i) : Nat)) := by
  rw [setUserPages_eq]
  simp only [codeEntry, dataEntry, Mm.grant, setTable_self]
  constructor
  · intro hi
    rw [overlay_of_notMem, overlay_at (by simpa using hi), getD_map_range hi]
    rw [pagLogInitCode_eq, pagLogInitData_eq]
    unfold numPagCode at hi
    omega
  · intro hi
    rw [overlay_at (by simpa [firstData] using hi), firstData, getD_map_range hi]

/-- The data frames of the first process are the slots after the code frames. -/
theorem setUserPages_base {i : Nat} (hi : i < numPagData) :
    (dataEntry ((bootMm img k₀).setUserPages userLayout 1) 1 i).base =
      codeFrame (numPagCode + i) := by
  rw [(setUserPages_entry i).2 hi]
  refine ssEntry_base ?_
  unfold codeFrame numPagKernel numPagCode totalPages
  unfold numPagData at hi
  omega

/-- Nobody has a page in the window after boot. -/
theorem setUserPages_window {t : Task} {i : Nat} (hi : i < numPagData) :
    windowEntry ((bootMm img k₀).setUserPages userLayout 1) t i = Entry.zero := by
  have hz : (bootMm img k₀).pagusrTable t (userLayout.pagLogInitData + numPagData + i) =
      Entry.zero := by
    refine bootMm_table ?_ ?_
    · rw [pagLogInitData_eq]
      unfold numPagKernel numPagData
      omega
    · rw [pagLogInitData_eq]
      unfold numPagData at hi
      unfold totalPages numPagData
      omega
  rw [windowEntry, setUserPages_eq]
  by_cases ht : t = 1
  · subst ht
    simp only [Mm.grant, setTable_self]
    rw [overlay_of_notMem, overlay_of_notMem, hz]
    · right
      rw [pagLogInitData_eq, pagLogInitCode_eq, List.length_map, List.length_range]
      unfold numPagCode numPagData
      omega
    · right
      rw [firstData, List.length_map, List.length_range]
      omega
  · simp only [Mm.grant, setTable_of_ne ht]
    exact hz

/-- **After boot the first process owns its frames**, and nobody else owns any. -/
theorem owned_boot :
    Owned ((bootMm img k₀).setUserPages userLayout 1) fun t => t = 1 := by
  have hphys : ((bootMm img k₀).setUserPages userLayout 1).physMem =
      mark (mark (bootMm img k₀).physMem ((List.range numPagCode).map codeFrame) .usedFrame)
        firstData .usedFrame := by
    rw [setUserPages_eq]
    rfl
  refine ⟨fun t => ?_, ?_, ?_, ?_, ?_, fun i hi => ?_, ?_, fun f h1 h2 hu => ?_, fun t i hi => ?_⟩
  · rw [setUserPages_eq]
    rfl
  · rintro t rfl i hi
    rw [(setUserPages_entry i).1 hi]
    refine ⟨rfl, pbaseAddr_of_lt ?_⟩
    unfold codeFrame numPagKernel totalPages
    unfold numPagCode at hi
    omega
  · rintro t rfl i hi
    rw [(setUserPages_entry i).2 hi]
    rfl
  · rintro t rfl i hi
    rw [setUserPages_base hi]
    unfold Slot codeFrame numPagKernel numPagCode totalPages
    unfold numPagData at hi
    omega
  · rintro t rfl i hi
    rw [setUserPages_base hi, hphys]
    exact if_pos (List.mem_map.mpr ⟨i, List.mem_range.mpr hi, rfl⟩)
  · rw [hphys]
    simp only [mark]
    split
    · rfl
    · exact if_pos (List.mem_map.mpr ⟨i, List.mem_range.mpr hi, rfl⟩)
  · rintro t u rfl rfl i hi j hj heq
    rw [setUserPages_base hi, setUserPages_base hj] at heq
    unfold codeFrame at heq
    exact ⟨rfl, by omega⟩
  · rw [hphys] at hu
    simp only [mark] at hu
    split at hu
    · next hm =>
      obtain ⟨i, hi, rfl⟩ := List.mem_map.mp hm
      exact Or.inr ⟨1, rfl, i, List.mem_range.mp hi, setUserPages_base (List.mem_range.mp hi)⟩
    · split at hu
      · next hm =>
        obtain ⟨i, hi, rfl⟩ := List.mem_map.mp hm
        exact Or.inl ⟨i, List.mem_range.mp hi, rfl⟩
      · simp [bootMm, Kernel.initMm, Kernel.initTablePages, Kernel.allocateDIR, Mm.initFrames,
          Mm.initDirPages, Mm.setCr3, Mm.setPeFlag, Nat.not_lt.mpr h1, h2] at hu
  · exact setUserPages_window hi

end Boot

end Zeos.Game
