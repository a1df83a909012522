import Zeos.E1E2.Boot

/-!
# The address space of a child in the E1_E2 kernel

`init_child_address_space` allocates the frames of the child, fills its page table
and copies the data pages of the parent – which it can only reach by mapping the
frames of the child into the parent's own page table, page after page, above the
parent's user pages. Each window is used once, so no cached translation of a
window is ever wrong while the loop runs, and the directory is loaded again at the
end, so none survives it.

`Zeos.E1E2.initChildAddressSpace_eq` says what the page tables and the bytemap are
afterwards, `Zeos.E1E2.fork_copies_address_space` what that means for the two
processes: **the child has a copy of the parent's memory, in frames of its own, and
the parent has what it had**.
-/

namespace Zeos.E1E2

open ByteMem Paging Loop

variable {k k' : Kernel} {child : Task} {mm : Mm} {fs : List Nat}

/-! ### The frames -/

/-- **The loop that allocates the frames** succeeds when there are enough. -/
theorem allocNewFrames_eq {n : Nat} {acc : List Int} (h : n ≤ (freeSlots mm.physMem).length) :
    Kernel.allocNewFrames n acc mm =
      (true, acc ++ ((freeSlots mm.physMem).take n).map Int.ofNat,
        { mm with physMem := mark mm.physMem ((freeSlots mm.physMem).take n) .usedFrame }) := by
  induction n generalizing acc mm with
  | zero => simp [Kernel.allocNewFrames, mark_nil]
  | succ n ih =>
    cases hf : freeSlots mm.physMem with
    | nil => simp [hf] at h
    | cons f fs =>
      rw [hf, List.length_cons] at h
      have hfs := freeSlots_update hf
      rw [Kernel.allocNewFrames, allocFrame_of_cons hf]
      simp only [if_neg (show ¬((f : Int) < 0) by omega)]
      rw [ih (by rw [hfs]; omega), hfs, List.take_succ_cons, ← mark_cons]
      simp

/-- The frame at a position of the list that was allocated. -/
theorem getD_map_ofNat {i : Nat} (hi : i < fs.length) :
    (fs.map Int.ofNat).getD i 0 = ((fs.getD i 0 : Nat) : Int) := by
  simp [List.getD_eq_getElem?_getD, hi]

theorem getD_mem {i : Nat} (hi : i < fs.length) : fs.getD i 0 ∈ fs := by
  simp [List.getD_eq_getElem?_getD, hi]

theorem getD_inj {i j : Nat} (hnd : fs.Nodup) (hi : i < fs.length) (hj : j < fs.length)
    (h : fs.getD i 0 = fs.getD j 0) : i = j := by
  simp only [List.getD_eq_getElem?_getD, hi, hj, List.getElem?_eq_getElem, Option.getD_some] at h
  exact (List.Nodup.getElem_inj_iff hnd).mp h

/-! ### The page table of the child -/

/-- The page table of a child whose data pages are in the given frames. -/
def childTable (mm : Mm) (parentPT childPT : Task) (fs : List Nat) : Table :=
  overlay userLayout.pagLogInitData numPagData (fun i => ssEntry (fs.getD i 0 : Nat))
    (overlay userLayout.pagLogInitCode numPagCode
      (fun i => ssEntry (mm.getFrame parentPT (userLayout.pagLogInitCode + i)))
      (overlay 0 numPagKernel (fun i => ssEntry (mm.getFrame parentPT (0 + i)))
        (mm.pagusrTable childPT)))

/-- **The loops that fill the page table of the child.** -/
theorem mapChild_eq (mm : Mm) {childPT parentPT : Task} (hne : parentPT ≠ childPT)
    (hlen : fs.length = numPagData) :
    Kernel.mapChild childPT parentPT (fs.map Int.ofNat) mm =
      mm.setTable childPT (childTable mm parentPT childPT fs) := by
  have hdata : ∀ m : Mm, forLoop numPagData (fun frame mm =>
        mm.setSsPag childPT (userLayout.pagLogInitData + frame) ((fs.map Int.ofNat).getD frame 0)) m
      = m.setTable childPT (overlay userLayout.pagLogInitData numPagData
        (fun i => ssEntry (fs.getD i 0 : Nat)) (m.pagusrTable childPT)) := by
    intro m
    refine forLoop_setEntry fun i hi T => ?_
    rw [getD_map_ofNat (by omega)]
    rfl
  simp only [Kernel.mapChild]
  rw [forLoop_share _ _ _ _ hne, forLoop_share _ _ _ _ hne, hdata]
  simp only [setTable_setTable, setTable_self, Mm.getFrame, setTable_of_ne hne]
  rfl

/-- The data pages of the child. -/
theorem childTable_data {parentPT childPT : Task} {i : Nat} (hi : i < numPagData) :
    childTable mm parentPT childPT fs (userLayout.pagLogInitData + i) =
      ssEntry (fs.getD i 0 : Nat) := overlay_at hi

/-- The code pages of the child. -/
theorem childTable_code {parentPT childPT : Task} {i : Nat} (hi : i < numPagCode) :
    childTable mm parentPT childPT fs (userLayout.pagLogInitCode + i) =
      ssEntry (mm.getFrame parentPT (userLayout.pagLogInitCode + i)) := by
  have h1 := pagLogInitCode_eq
  have h2 := pagLogInitData_eq
  rw [childTable, overlay_of_notMem (by unfold numPagData; omega), overlay_at hi]

/-- The kernel pages of the child. -/
theorem childTable_kernel {parentPT childPT : Task} {p : Nat} (hp : p < numPagKernel) :
    childTable mm parentPT childPT fs p = ssEntry (mm.getFrame parentPT p) := by
  have h1 := pagLogInitCode_eq
  have h2 := pagLogInitData_eq
  have h3 : numPagKernel = 256 := rfl
  have h : overlay 0 numPagKernel (fun i => ssEntry (mm.getFrame parentPT (0 + i)))
      (mm.pagusrTable childPT) (0 + p) = ssEntry (mm.getFrame parentPT (0 + p)) := overlay_at hp
  rw [Nat.zero_add] at h
  rw [childTable, overlay_of_notMem (by omega), overlay_of_notMem (by omega), h]

/-! ### What the call does -/

/-- The frames the next child would get. -/
def newFrames (mm : Mm) : List Nat := (freeSlots mm.physMem).take numPagData

theorem nodup_newFrames : (newFrames mm).Nodup :=
  List.Nodup.sublist (List.take_sublist _ _) nodup_freeSlots

theorem mem_newFrames {f : Nat} (h : f ∈ newFrames mm) :
    Slot f ∧ mm.physMem f = .freeFrame :=
  mem_freeSlots.mp (List.mem_of_mem_take h)

theorem length_newFrames (h : numPagData ≤ (freeSlots mm.physMem).length) :
    (newFrames mm).length = numPagData := by
  rw [newFrames, List.length_take]
  omega

/-- Memory management once the page table of the child is filled. -/
def mapped (mm : Mm) (parentPT childPT : Task) : Mm :=
  { mm.setTable childPT (childTable mm parentPT childPT (newFrames mm)) with
    physMem := mark mm.physMem (newFrames mm) .usedFrame }

theorem mapped_self {parentPT childPT : Task} : (mapped mm parentPT childPT).pagusrTable childPT =
    childTable mm parentPT childPT (newFrames mm) := by
  simp [mapped, Mm.setTable]

theorem mapped_of_ne {parentPT childPT t : Task} (h : t ≠ childPT) :
    (mapped mm parentPT childPT).pagusrTable t = mm.pagusrTable t := by
  simp [mapped, Mm.setTable, h]

/-- **`init_child_address_space`, when there are enough frames**: the page table of
the child is filled, the pages are copied, the directory is loaded. -/
theorem initChildAddressSpace_eq (hne : k.getPT child ≠ k.getPT k.current)
    (henough : numPagData ≤ (freeSlots k.mm.physMem).length) :
    k.initChildAddressSpace child =
      (0, { k with mm := (Kernel.copyToChild (k.getPT k.current)
        ((newFrames k.mm).map Int.ofNat)
        (mapped k.mm (k.getPT k.current) (k.getPT child))).setCr3 (k.getDIR k.current) }) := by
  rw [Kernel.initChildAddressSpace, allocNewFrames_eq henough]
  simp only [List.nil_append]
  have hmap := mapChild_eq { k.mm with physMem := mark k.mm.physMem (newFrames k.mm) .usedFrame }
    (Ne.symm hne) (length_newFrames henough)
  rw [newFrames] at hmap
  rw [hmap]
  rfl

/-- Copying the pages leaves the page tables of all other tasks alone. -/
theorem copyToChild_pagusrTable {parentPT t : Task} {l : List Int} (h : t ≠ parentPT) :
    (Kernel.copyToChild parentPT l mm).pagusrTable t = mm.pagusrTable t := by
  refine forLoop_induction (I := fun _ (m : Mm) => m.pagusrTable t = mm.pagusrTable t) rfl ?_
  intro i m _ hm
  simp [Mm.copyThrough, Mm.delSsPag, Mm.copyPage, Mm.setSsPag, Mm.setEntry, h, hm]

/-- Copying the pages writes no directory. -/
theorem copyToChild_dirPages {parentPT : Task} {l : List Int} :
    (Kernel.copyToChild parentPT l mm).dirPages = mm.dirPages :=
  forLoop_induction (I := fun _ (m : Mm) => m.dirPages = mm.dirPages) rfl fun _ _ _ hm => hm

/-- Copying the pages neither takes nor returns frames. -/
theorem copyToChild_physMem {parentPT : Task} {l : List Int} :
    (Kernel.copyToChild parentPT l mm).physMem = mm.physMem :=
  forLoop_induction (I := fun _ (m : Mm) => m.physMem = mm.physMem) rfl fun _ _ _ hm => hm

/-- **The page table of a child**, whatever the parent's memory is like. -/
theorem initChildAddressSpace_table (hne : k.getPT child ≠ k.getPT k.current)
    (henough : numPagData ≤ (freeSlots k.mm.physMem).length) :
    (k.initChildAddressSpace child).2.mm.pagusrTable (k.getPT child) =
      childTable k.mm (k.getPT k.current) (k.getPT child) (newFrames k.mm) := by
  rw [initChildAddressSpace_eq hne henough]
  change (Kernel.copyToChild (k.getPT k.current) ((newFrames k.mm).map Int.ofNat)
    (mapped k.mm (k.getPT k.current) (k.getPT child))).pagusrTable (k.getPT child) = _
  rw [copyToChild_pagusrTable hne, mapped_self]

/-! ### Copy and isolation -/

/-- The page is mapped: the table maps it, and a cached translation, if there is
one, is to the same frame. -/
def Mapped (T : Table) (s : Mmu) (page : Nat) : Prop :=
  (T page).present = true ∧ Mmu.Maps T s page (T page).base

/-- The byte a process finds at an offset of one of its pages. -/
def byteAt (T : Table) (s : Mmu) (page o : Nat) : Byte :=
  (Mmu.loadByte T (page * pageBytes + o) s).1

theorem byteAt_eq {T : Table} {s : Mmu} {page o f : Nat} (h : Mmu.Maps T s page f)
    (ho : o < pageBytes) : byteAt T s page o = s.mem f o := by
  rw [byteAt, Mmu.loadByte_eq h ho]

/-- **What a fork needs of the address spaces**, the running task being the
parent. -/
structure CanFork (k : Kernel) (child : Task) : Prop where
  /-- The child is another task. -/
  ne : child ≠ k.current
  /-- The directory of the child was set by `allocate_DIR`, and that of the parent
  too: each names the page table of its own slot. -/
  dirs : k.getPT child = child ∧ k.getPT k.current = k.current
  /-- The directory of the parent is loaded. -/
  cr3 : k.mm.cr3 = k.getDIR k.current
  /-- The data pages of the parent are mapped. -/
  data : ∀ i < numPagData, Mapped (k.mm.pagusrTable k.current) k.mm.mmu
    (userLayout.pagLogInitData + i)
  /-- The windows are not mapped, and not cached. -/
  window : ∀ i < numPagData, k.mm.pagusrTable k.current (totalSpace + i) = Entry.zero ∧
    k.mm.mmu.tlb (totalSpace + i) = none
  /-- Frame numbers have twenty bits. -/
  base : ∀ p < totalPages, (k.mm.pagusrTable k.current p).base < 2 ^ 20
  /-- Enough calls of `alloc_frame` would succeed. -/
  enough : ∀ f ∈ allocs numPagData k.mm, f ≠ -1
  /-- They would return no frame of the parent's data. -/
  fresh : ∀ i < numPagData, ∀ f ∈ allocs numPagData k.mm,
    ((k.mm.pagusrTable k.current (userLayout.pagLogInitData + i)).base : Int) ≠ f

/-- **What a fork makes of them.** -/
structure Forked (k : Kernel) (child : Task) (k' : Kernel) : Prop where
  /-- The data pages of the child are mapped. -/
  present : ∀ i < numPagData,
    (k'.mm.pagusrTable child (userLayout.pagLogInitData + i)).present = true
  /-- Their frames were free. -/
  wasFree : ∀ i < numPagData,
    k.mm.physMem (k'.mm.getFrame child (userLayout.pagLogInitData + i)) = .freeFrame
  /-- Their frames are pairwise distinct. -/
  distinct : ∀ i < numPagData, ∀ j < numPagData,
    k'.mm.getFrame child (userLayout.pagLogInitData + i) =
      k'.mm.getFrame child (userLayout.pagLogInitData + j) → i = j
  /-- The child finds the bytes the parent had. -/
  copied : ∀ i < numPagData, ∀ o < pageBytes,
    byteAt (k'.mm.pagusrTable child) k'.mm.mmu (userLayout.pagLogInitData + i) o =
      byteAt (k.mm.pagusrTable k.current) k.mm.mmu (userLayout.pagLogInitData + i) o
  /-- The parent finds the bytes it had. -/
  kept : ∀ i < numPagData, ∀ o < pageBytes,
    byteAt (k'.mm.pagusrTable k.current) k'.mm.mmu (userLayout.pagLogInitData + i) o =
      byteAt (k.mm.pagusrTable k.current) k.mm.mmu (userLayout.pagLogInitData + i) o
  /-- The page table of the parent is as it was. -/
  table : k'.mm.pagusrTable k.current = k.mm.pagusrTable k.current
  /-- The kernel pages are shared. -/
  kernel : ∀ p < numPagKernel, k'.mm.getFrame child p = k.mm.getFrame k.current p
  /-- The code pages are shared. -/
  code : ∀ i < numPagCode, k'.mm.getFrame child (userLayout.pagLogInitCode + i) =
    k.mm.getFrame k.current (userLayout.pagLogInitCode + i)
  /-- No cached translation leads to the child's data. -/
  tlb : ∀ p e, k'.mm.mmu.tlb p = some e → ∀ i < numPagData,
    e.base ≠ k'.mm.getFrame child (userLayout.pagLogInitData + i)
  /-- Every frame that is not the child's is as it was. -/
  outside : ∀ f, (∀ i < numPagData, f ≠ k'.mm.getFrame child (userLayout.pagLogInitData + i)) →
    k'.mm.mmu.mem f = k.mm.mmu.mem f
  /-- No access has faulted. -/
  fault : k'.mm.mmu.fault = k.mm.mmu.fault

theorem length_of_canFork (h : CanFork k child) :
    (newFrames k.mm).length = numPagData ∧ numPagData ≤ (freeSlots k.mm.physMem).length :=
  ⟨length_newFrames (le_of_allocs h.enough), le_of_allocs h.enough⟩

theorem mem_allocs (h : CanFork k child) {f : Nat} (hf : f ∈ newFrames k.mm) :
    (f : Int) ∈ allocs numPagData k.mm := by
  rw [allocs_eq (le_of_allocs h.enough)]
  exact List.mem_map.mpr ⟨f, hf, rfl⟩

/-- The frames of the child have numbers of twenty bits. -/
theorem newFrames_lt (h : CanFork k child) {i : Nat} (hi : i < numPagData) :
    (newFrames k.mm).getD i 0 < 2 ^ 20 := by
  obtain ⟨hlen, -⟩ := length_of_canFork h
  have hm : (newFrames k.mm).getD i 0 ∈ newFrames k.mm := getD_mem (by omega)
  have := (mem_newFrames hm).1.2.1
  unfold totalPages at this
  omega

/-- **The loop that copies the data pages**, run by a parent that can fork. -/
theorem copyToChild_spec (h : CanFork k child) :
    ∃ s, Kernel.copyToChild k.current ((newFrames k.mm).map Int.ofNat)
        (mapped k.mm k.current child) = { mapped k.mm k.current child with mmu := s } ∧
      WindowCopied (k.mm.pagusrTable k.current) userLayout.pagLogInitData totalSpace numPagData
        (fun i => (k.mm.pagusrTable k.current (userLayout.pagLogInitData + i)).base)
        (fun i => (newFrames k.mm).getD i 0) k.mm.mmu numPagData s := by
  obtain ⟨hlen, -⟩ := length_of_canFork h
  have hmem : ∀ i < numPagData, (newFrames k.mm).getD i 0 ∈ newFrames k.mm :=
    fun i hi => getD_mem (by omega)
  have htab : (mapped k.mm k.current child).pagusrTable k.current =
      k.mm.pagusrTable k.current := mapped_of_ne (Ne.symm h.ne)
  have hact : (mapped k.mm k.current child).activeTable = k.current := by
    refine Eq.trans ?_ h.dirs.2
    rw [Kernel.getPT, ← h.cr3]
    rfl
  have := forLoop_copyThrough (mapped k.mm k.current child) k.current
    userLayout.pagLogInitData totalSpace numPagData
    (fun i => (k.mm.pagusrTable k.current (userLayout.pagLogInitData + i)).base)
    (fun i => (newFrames k.mm).getD i 0)
    (fun i _ => ((newFrames k.mm).map Int.ofNat).getD i 0)
    (fun i hi _ => getD_map_ofNat (by omega)) hact
    (by rw [htab]; exact fun i hi => (h.data i hi).2) (by rw [htab]; exact h.window) (by decide)
    ?_ ?_ ?_
  · rw [htab] at this
    exact this
  · exact fun i hi => newFrames_lt h hi
  · exact fun i hi j hj => getD_inj nodup_newFrames (by omega) (by omega)
  · intro i hi j hj heq
    exact h.fresh i hi _ (mem_allocs h (hmem j hj)) (congrArg Nat.cast heq)

theorem ssEntry_base {f : Nat} (h : f < 2 ^ 20) : (ssEntry (f : Int)).base = f := by
  simp only [ssEntry, Mm.pbaseAddr]
  omega

/-- **Memory management after a fork**, when the parent can fork. -/
theorem initChildAddressSpace_spec (h : CanFork k child) : ∃ s,
    (k.initChildAddressSpace child).1 = 0 ∧
      (k.initChildAddressSpace child).2.mm =
        ({ mapped k.mm k.current child with mmu := s }).setCr3 (k.getDIR k.current) ∧
      WindowCopied (k.mm.pagusrTable k.current) userLayout.pagLogInitData totalSpace numPagData
        (fun i => (k.mm.pagusrTable k.current (userLayout.pagLogInitData + i)).base)
        (fun i => (newFrames k.mm).getD i 0) k.mm.mmu numPagData s := by
  obtain ⟨-, henough⟩ := length_of_canFork h
  obtain ⟨s, hs, hw⟩ := copyToChild_spec h
  have hPT : k.getPT child ≠ k.getPT k.current := by
    rw [h.dirs.1, h.dirs.2]
    exact h.ne
  have heq := initChildAddressSpace_eq hPT henough
  rw [h.dirs.1, h.dirs.2, hs] at heq
  exact ⟨s, by rw [heq], by rw [heq], hw⟩

/-- **A fork copies the address space and isolates it.** -/
theorem fork_copies_address_space (h : CanFork k child) :
    (k.initChildAddressSpace child).1 = 0 ∧
      Forked k child (k.initChildAddressSpace child).2 := by
  obtain ⟨hlen, -⟩ := length_of_canFork h
  obtain ⟨s, hzero, hmm, hw⟩ := initChildAddressSpace_spec h
  set k' := (k.initChildAddressSpace child).2 with hk'
  have htab : k'.mm.pagusrTable = (mapped k.mm k.current child).pagusrTable := by
    rw [hmm]
    rfl
  have hmmu : k'.mm.mmu = s.flush := by
    rw [hmm]
    rfl
  have hchild : k'.mm.pagusrTable child =
      childTable k.mm k.current child (newFrames k.mm) := by
    rw [htab, mapped_self]
  have hparent : k'.mm.pagusrTable k.current = k.mm.pagusrTable k.current := by
    rw [htab, mapped_of_ne (Ne.symm h.ne)]
  have hframe : ∀ i < numPagData, k'.mm.getFrame child (userLayout.pagLogInitData + i) =
      (newFrames k.mm).getD i 0 := by
    intro i hi
    rw [Mm.getFrame, hchild, childTable_data hi, ssEntry_base (newFrames_lt h hi)]
  -- the cache is empty, so both processes see what their tables say
  have hmaps : ∀ t p, (k'.mm.pagusrTable t p).present = true →
      Mmu.Maps (k'.mm.pagusrTable t) k'.mm.mmu p (k'.mm.pagusrTable t p).base := by
    intro t p hp
    rw [hmmu]
    exact Mmu.fresh_flush.maps hp
  have hpresent : ∀ i < numPagData,
      (k'.mm.pagusrTable child (userLayout.pagLogInitData + i)).present = true := by
    intro i hi
    rw [hchild, childTable_data hi]
    rfl
  refine ⟨hzero, ⟨hpresent, fun i hi => ?_, fun i hi j hj hij => ?_, fun i hi o ho => ?_,
    fun i hi o ho => ?_, hparent, fun p hp => ?_, fun i hi => ?_, fun p e he => ?_,
    fun f hf => ?_, ?_⟩⟩
  · rw [hframe i hi]
    exact (mem_newFrames (getD_mem (by omega))).2
  · rw [hframe i hi, hframe j hj] at hij
    exact getD_inj nodup_newFrames (by omega) (by omega) hij
  · rw [byteAt_eq (hmaps child _ (hpresent i hi)) ho, byteAt_eq (h.data i hi).2 ho, hmmu]
    have hf : (k'.mm.pagusrTable child (userLayout.pagLogInitData + i)).base =
        (newFrames k.mm).getD i 0 := hframe i hi
    rw [hf]
    exact hw.copied i hi o ho
  · have hp : (k'.mm.pagusrTable k.current (userLayout.pagLogInitData + i)).present = true := by
      rw [hparent]
      exact (h.data i hi).1
    rw [byteAt_eq (hmaps k.current _ hp) ho, byteAt_eq (h.data i hi).2 ho, hmmu, hparent]
    refine congrFun (hw.outside _ fun j hj he => ?_) o
    exact h.fresh i hi _ (mem_allocs h (getD_mem (by omega))) (congrArg Nat.cast he)
  · rw [Mm.getFrame, hchild, childTable_kernel hp]
    exact ssEntry_base (h.base p (Nat.lt_trans hp (by decide)))
  · rw [Mm.getFrame, hchild, childTable_code hi]
    refine ssEntry_base (h.base _ ?_)
    rw [pagLogInitCode_eq]
    unfold numPagCode at hi
    unfold totalPages
    omega
  · rw [hmmu] at he
    exact absurd he (by simp [Mmu.flush])
  · rw [hmmu]
    refine hw.outside f fun j hj => ?_
    have := hf j hj
    rw [hframe j hj] at this
    exact this
  · rw [hmmu]
    exact hw.fault

/-! ### The first fork -/

/-- The frame numbers of the first process fit into twenty bits. -/
theorem booted_base {img : Image} {p : Nat} (hp : p < totalPages) :
    ((booted img k).mm.pagusrTable 8 p).base < 2 ^ 20 := by
  have h1 := pagLogInitCode_eq
  have h2 := pagLogInitData_eq
  have h3 : ∀ f : Int, Mm.pbaseAddr f < 2 ^ 20 := by
    intro f
    unfold Mm.pbaseAddr
    omega
  unfold totalPages at hp
  by_cases hd : userLayout.pagLogInitData ≤ p ∧ p < userLayout.pagLogInitData + numPagData
  · obtain ⟨i, rfl⟩ := Nat.exists_eq_add_of_le hd.1
    rw [booted_data (by omega)]
    exact h3 ((328 + 2 * i : Nat) : Int)
  · by_cases hc : userLayout.pagLogInitCode ≤ p ∧ p < userLayout.pagLogInitCode + numPagCode
    · obtain ⟨i, rfl⟩ := Nat.exists_eq_add_of_le hc.1
      rw [booted_code (by omega)]
      exact h3 ((312 + 2 * i : Nat) : Int)
    · have h4 : numPagData = 20 := rfl
      rw [booted_other hp (by omega), Mm.initEntry]
      split
      · dsimp only
        omega
      · decide

/-- After boot there are frames for a child. -/
theorem enough_booted {img : Image} :
    numPagData ≤ (freeSlots (booted img k).mm.physMem).length := by
  rw [freeSlots_booted, List.length_drop, length_slots]
  decide

/-- **The first process can fork**: the state after boot, with the directory of the
first free PCB allocated. -/
theorem canFork_booted {img : Image} : CanFork ((booted img k).allocateDIR 7) 7 where
  ne := by
    change (7 : Task) ≠ 8
    decide
  dirs := by
    have h7 : ((booted img k).allocateDIR 7).getDIR 7 = 7 := by
      rw [Kernel.getDIR, Kernel.allocateDIR, modifyTask_self]
    have h8 : ((booted img k).allocateDIR 7).getDIR 8 = 8 := by
      rw [Kernel.getDIR, Kernel.allocateDIR, modifyTask_of_ne (by decide), booted_task_first]
    constructor
    · rw [Kernel.getPT, h7]
      exact booted_dirPages
    · change ((booted img k).allocateDIR 7).getPT 8 = 8
      rw [Kernel.getPT, h8]
      exact booted_dirPages
  cr3 := by
    change (booted img k).mm.cr3 = ((booted img k).allocateDIR 7).getDIR 8
    rw [Kernel.getDIR, Kernel.allocateDIR, modifyTask_of_ne (by decide), booted_task_first,
      booted_mm]
    rfl
  data := by
    intro i hi
    change Mapped ((booted img k).mm.pagusrTable 8) (booted img k).mm.mmu _
    have hp : ((booted img k).mm.pagusrTable 8 (userLayout.pagLogInitData + i)).present = true := by
      rw [booted_data hi]
      rfl
    refine ⟨hp, ?_⟩
    rw [booted_mm] at hp ⊢
    exact Mmu.fresh_flush.maps hp
  window := by
    intro i hi
    change (booted img k).mm.pagusrTable 8 (totalSpace + i) = _ ∧
      (booted img k).mm.mmu.tlb (totalSpace + i) = none
    have h1 := pagLogInitCode_eq
    have h2 : totalSpace = 284 := rfl
    have h3 : numPagCode = 8 := rfl
    have h4 : numPagKernel = 256 := rfl
    unfold numPagData at hi
    refine ⟨?_, by rw [booted_mm]; rfl⟩
    rw [booted_other (by unfold totalPages; omega) (by omega), Mm.initEntry, if_neg (by omega)]
  base := fun _ hp => booted_base hp
  enough := by
    intro f hf
    have hf' : f ∈ allocs numPagData (booted img k).mm := hf
    rw [allocs_eq enough_booted] at hf'
    obtain ⟨g, -, rfl⟩ := List.mem_map.mp hf'
    simp
  fresh := by
    intro i hi f hf
    have hf' : f ∈ allocs numPagData (booted img k).mm := hf
    rw [allocs_eq enough_booted, freeSlots_booted] at hf'
    obtain ⟨g, hg, rfl⟩ := List.mem_map.mp hf'
    have hge : ∀ g ∈ (slots.drop (2 * (numPagCode + numPagData))).take numPagData, 368 ≤ g := by
      decide
    have := hge g hg
    change (((booted img k).mm.pagusrTable 8 (userLayout.pagLogInitData + i)).base : Int) ≠ _
    unfold numPagData at hi
    rw [booted_data hi, ssEntry_base (by omega)]
    simp only [Int.ofNat_eq_natCast]
    omega

theorem fork_copies_address_space_boot :
    CanFork ((booted sampleImage powerOn).allocateDIR 7) 7 ∧
      (((booted sampleImage powerOn).allocateDIR 7).initChildAddressSpace 7).1 = 0 ∧
      Forked ((booted sampleImage powerOn).allocateDIR 7) 7
        (((booted sampleImage powerOn).allocateDIR 7).initChildAddressSpace 7).2 :=
  ⟨canFork_booted, fork_copies_address_space canFork_booted⟩

end Zeos.E1E2
