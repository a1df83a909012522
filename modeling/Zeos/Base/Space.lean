import Mathlib.Data.List.Nodup
import Zeos.Base.Kernel

/-!
# The address space of the first process

What `init_task1` builds. A directory, two page tables and a PCB are allocated, then the
frames of eight code pages and of twenty data pages; the allocator gives out every frame
once, and no frame of the kernel. The tables are then written entry by entry.

For the proofs the kernel is described by the frames it can still allocate and by the
words that its frames hold (`Zeos.Base.Has`). Every function of `mm.c` is a step on
these: an allocation takes the first frame of the list, and an entry of a table replaces
one word. The words of the four frames of `init_task1` are computed this way
(`Zeos.Base.initTask1_tables`), and with them the walk of every address
(`Zeos.Base.InitTables.walk_cases`).

`Zeos.Base.init_task1_exact` says that the process sees its own 28 pages and nothing else.
-/

namespace Zeos.Base

open ByteMem Paging PageWalk Loop X86

/-! ### The allocator -/

section Alloc

variable {k k' : Kernel} {f n : Nat} {fs : List Nat}

/-- The kernels have the same frames in use. -/
structure SameFrames (k k' : Kernel) : Prop where
  /-- `phys_mem` -/
  physMem : k'.physMem = k.physMem
  /-- `first_kernel` -/
  firstKernel : k'.firstKernel = k.firstKernel
  /-- `last_kernel` -/
  lastKernel : k'.lastKernel = k.lastKernel

theorem SameFrames.allocatable_eq (h : SameFrames k k') : k'.allocatable = k.allocatable := by
  rw [Kernel.allocatable, Kernel.allocatable, h.physMem, h.lastKernel]

theorem mem_allocatable : f ∈ k.allocatable ↔
    k.lastKernel ≤ f ∧ f < totalPages ∧ k.physMem f = .freeFrame := by
  rw [Kernel.allocatable, List.mem_filter, List.mem_range'_1, decide_eq_true_eq, and_assoc]
  refine and_congr_right fun h => and_congr_left fun _ => ?_
  omega

theorem nodup_allocatable : k.allocatable.Nodup :=
  List.Pairwise.filter _ (List.nodup_range' 1)

/-- **`alloc_frame` takes the first frame it can**, and cannot take it again. -/
theorem allocFrame_of_cons (h : k.allocatable = f :: fs) :
    k.allocFrame = ((f : Int), { k with physMem := Function.update k.physMem f .usedFrame }) ∧
      k.allocFrame.2.allocatable = fs := by
  have hfind : (List.range' k.lastKernel (totalPages - k.lastKernel)).find?
      (fun i => k.physMem i = .freeFrame) = some f := by
    rw [← List.head?_filter]
    exact congrArg List.head? h
  have heq : k.allocFrame =
      ((f : Int), { k with physMem := Function.update k.physMem f .usedFrame }) := by
    simp only [Kernel.allocFrame, hfind]
  refine ⟨heq, ?_⟩
  have hnd := @nodup_allocatable k
  rw [h, List.nodup_cons] at hnd
  -- the frame is free for nobody now, and the others are as they were
  have hfilter : k.allocFrame.2.allocatable = k.allocatable.filter (· ≠ f) := by
    rw [heq, Kernel.allocatable, Kernel.allocatable, List.filter_filter]
    refine List.filter_congr fun i _ => ?_
    by_cases hi : i = f
    · subst hi
      simp
    · simp [hi]
  rw [hfilter, h, List.filter_cons_of_neg (by simp), List.filter_eq_self]
  intro i hi
  exact decide_eq_true fun heq => hnd.1 (heq ▸ hi)

/-- When there is no frame left, nothing happens. -/
theorem allocFrame_of_nil (h : k.allocatable = []) : k.allocFrame = (-1, k) := by
  have hfind : (List.range' k.lastKernel (totalPages - k.lastKernel)).find?
      (fun i => k.physMem i = .freeFrame) = none := by
    rw [← List.head?_filter]
    exact congrArg List.head? h
  simp only [Kernel.allocFrame, hfind]

/-- The kernel after `n` calls of `alloc_frame`. -/
def allocs : Nat → Kernel → Kernel
  | 0, k => k
  | n + 1, k => allocs n k.allocFrame.2

/-- Allocating leaves the bounds of the kernel alone. -/
theorem allocFrame_bounds : k.allocFrame.2.firstKernel = k.firstKernel ∧
    k.allocFrame.2.lastKernel = k.lastKernel := by
  cases h : k.allocatable with
  | nil =>
    rw [allocFrame_of_nil h]
    exact ⟨rfl, rfl⟩
  | cons f fs =>
    rw [(allocFrame_of_cons h).1]
    exact ⟨rfl, rfl⟩

/-- **`alloc_frame` never gives out a frame twice**: what is left after `n` calls is what
was there, less the first `n`. -/
theorem allocs_spec (n : Nat) (k : Kernel) : (allocs n k).allocatable = k.allocatable.drop n ∧
    (allocs n k).firstKernel = k.firstKernel ∧ (allocs n k).lastKernel = k.lastKernel := by
  induction n generalizing k with
  | zero => exact ⟨rfl, rfl, rfl⟩
  | succ n ih =>
    obtain ⟨h1, h2, h3⟩ := ih k.allocFrame.2
    obtain ⟨h4, h5⟩ := @allocFrame_bounds k
    refine ⟨?_, h2.trans h4, h3.trans h5⟩
    cases h : k.allocatable with
    | nil =>
      rw [allocs, h1, allocFrame_of_nil h, h, List.drop_nil, List.drop_nil]
    | cons f fs =>
      rw [allocs, h1, (allocFrame_of_cons h).2, List.drop_succ_cons]

end Alloc

/-! ### The state of memory management -/

/-- **The kernel can allocate the frames of `fs`, and its frames hold the words of
`T`.** -/
structure Has (first last : Nat) (fs : List Nat) (T : Nat → Nat → Word) (k : Kernel) : Prop where
  /-- The frames left. -/
  free : k.allocatable = fs
  /-- The words in memory. -/
  sees : Sees k.mem T
  /-- The first frame of the kernel. -/
  first : k.firstKernel = first
  /-- The first frame after the kernel. -/
  last : k.lastKernel = last

section Has

variable {first last f i n lo : Nat} {fs : List Nat} {T : Nat → Nat → Word} {k : Kernel} {w : Word}

/-- Allocating a frame. -/
theorem Has.alloc (h : Has first last (f :: fs) T k) :
    ∃ k', k.allocFrame = ((f : Int), k') ∧ Has first last fs T k' := by
  obtain ⟨h1, h2⟩ := allocFrame_of_cons h.free
  refine ⟨_, h1, ?_, h.sees, h.first, h.last⟩
  rw [h1] at h2
  exact h2

/-- Writing a word. -/
theorem Has.store (h : Has first last fs T k) (hs : IsSlot f i) (w : Word) :
    Has first last fs (put T f i w) (k.store (slot f i) w) :=
  ⟨h.free, h.sees.store hs w, h.first, h.last⟩

theorem entryAddr_eq (f i : Nat) : entryAddr (frameAddr f) i = slot f i := by
  have h1 : ((f : Int) * 4096) = ((f * 4096 : Nat) : Int) := (Int.natCast_mul f 4096).symm
  have h2 : (4 * (i : Int)) = ((4 * i : Nat) : Int) := (Int.natCast_mul 4 i).symm
  rw [entryAddr, frameAddr, slot, h1, h2, BitVec.ofInt_natCast, BitVec.ofInt_natCast,
    BitVec.ofNat_add]

/-- The words of a frame by their offsets. -/
theorem frameAddr_add (f i : Nat) : frameAddr f + BitVec.ofNat 32 (4 * i) = slot f i := by
  have h1 : ((f : Int) * 4096) = ((f * 4096 : Nat) : Int) := (Int.natCast_mul f 4096).symm
  rw [frameAddr, slot, h1, BitVec.ofInt_natCast, BitVec.ofNat_add]

theorem frameAddr_eq (f : Nat) : frameAddr f = slot f 0 := by
  have h := frameAddr_add f 0
  rw [Nat.mul_zero] at h
  rw [← h]
  exact (BitVec.add_zero _).symm

/-- One more word of a stretch. -/
theorem put_overlay {e : Nat → Word} :
    put (Function.update T f (overlay lo i e (T f))) f (lo + i) (e i) =
      Function.update T f (overlay lo (i + 1) e (T f)) := by
  rw [put, Function.update_self, Function.update_idem, overlay_succ]

/-- **A loop that writes a stretch of a table.** -/
theorem Has.forLoop_store {body : Nat → Kernel → Kernel} {e : Nat → Word}
    (h : Has first last fs T k) (hf : f < 2 ^ 20) (hn : lo + n ≤ tableSize)
    (hbody : ∀ i k', body i k' = k'.store (slot f (lo + i)) (e i)) :
    Has first last fs (Function.update T f (overlay lo n e (T f))) (forLoop n body k) := by
  refine forLoop_induction (I := fun i k' =>
    Has first last fs (Function.update T f (overlay lo i e (T f))) k') ?_ fun i k' hi hk => ?_
  · rw [overlay_zero, Function.update_eq_self]
    exact h
  · rw [hbody, ← put_overlay]
    exact hk.store ⟨hf, by omega⟩ (e i)

/-- **`clear_page_table`** -/
theorem Has.clearPageTable (h : Has first last fs T k) (hf : f < 2 ^ 20) :
    Has first last fs (Function.update T f (overlay 0 tableSize (fun _ => 0) (T f)))
      (k.clearPageTable (frameAddr f)) :=
  h.forLoop_store hf (by omega) fun i k' => by rw [entryAddr_eq, Nat.zero_add]

/-- The entry that `set_ss_pag` writes to map a page to the frame of the same number, out
of reach of user mode. -/
def identEntry (i : Nat) : Word :=
  encode { base := i, present := true, rw := true, user := false }

theorem pbaseAddr_of_lt (h : f < 2 ^ 20) : pbaseAddr (f : Int) = f := by
  unfold pbaseAddr
  omega

/-- **`set_ss_pag`**, of a frame at its own number. -/
theorem Has.setSsPag (h : Has first last fs T k) (hf : f < 2 ^ 20) (hi : i < tableSize) :
    Has first last fs (put T f i (identEntry i)) (k.setSsPag (frameAddr f) i i false) := by
  have hlt : i < 2 ^ 20 := by
    unfold tableSize at hi
    omega
  rw [Kernel.setSsPag, entryAddr_eq, pbaseAddr_of_lt hlt]
  exact h.store ⟨hf, hi⟩ _

/-- **`set_kernel_pages`** -/
theorem Has.setKernelPages (h : Has first last fs T k) (hf : f < 2 ^ 20)
    (hle : first ≤ last) (hlast : last ≤ gdtFrame) :
    Has first last fs
      (put (put (Function.update T f
        (overlay first (last - first) (fun i => identEntry (first + i)) (T f)))
          f gdtFrame (identEntry gdtFrame)) f screenFrame (identEntry screenFrame))
      (k.setKernelPages (frameAddr f)) := by
  have hbound : last ≤ 0x90 := hlast
  rw [Kernel.setKernelPages, h.first, h.last]
  refine Has.setSsPag (Has.setSsPag ?_ hf (by decide)) hf (by decide)
  refine h.forLoop_store hf (by unfold tableSize; omega) fun i k' => ?_
  have hlt : pbaseAddr ((first + i : Nat) : Int) = (first + i) % 2 ^ 20 := by
    unfold pbaseAddr
    omega
  rw [Kernel.setSsPag, entryAddr_eq, hlt, identEntry, encode, encode]
  simp only [Nat.mod_mod]

/-- The entry of a user page. -/
def userEntry (rw : Bool) (f : Nat) : Word :=
  encode { base := f, present := true, rw := rw, user := true }

/-- **A loop of `set_user_pages`**: the pages get the next frames, in order. -/
theorem Has.forLoop_setUserPage {body : Nat → Kernel → Kernel} (f lo n : Nat) (rw : Bool)
    (h : Has first last fs T k) (hf : f < 2 ^ 20) (hn : lo + n ≤ tableSize)
    (hlen : n ≤ fs.length) (hfs : ∀ g ∈ fs, g < 2 ^ 20)
    (hbody : ∀ i k', body i k' = k'.setUserPage (frameAddr f) rw (lo + i)) :
    Has first last (fs.drop n)
      (Function.update T f (overlay lo n (fun i => userEntry rw (fs.getD i 0)) (T f)))
      (forLoop n body k) := by
  refine forLoop_induction (I := fun i k' => Has first last (fs.drop i)
    (Function.update T f (overlay lo i (fun i => userEntry rw (fs.getD i 0)) (T f))) k')
    ?_ fun i k' hi hk => ?_
  · rw [overlay_zero, Function.update_eq_self]
    exact h
  · have hlt : i < fs.length := by omega
    rw [List.drop_eq_getElem_cons hlt] at hk
    obtain ⟨k'', h1, h2⟩ := hk.alloc
    have hget : fs.getD i 0 = fs[i] := by
      rw [List.getD_eq_getElem?_getD, List.getElem?_eq_getElem hlt, Option.getD_some]
    have hbase : pbaseAddr ((fs[i] : Nat) : Int) = fs.getD i 0 := by
      rw [pbaseAddr_of_lt (hfs _ (List.getElem_mem hlt)), hget]
    rw [hbody, Kernel.setUserPage, h1]
    simp only [entryAddr_eq, hbase]
    rw [← put_overlay]
    exact h2.store ⟨hf, by omega⟩ _

/-- **`set_user_pages`**: the code pages, then the data pages. -/
theorem Has.setUserPages (h : Has first last fs T k) (hf : f < 2 ^ 20)
    (hlen : numPagCode + numPagData ≤ fs.length) (hfs : ∀ g ∈ fs, g < 2 ^ 20) :
    ∃ T', Has first last (fs.drop (numPagCode + numPagData)) T' (k.setUserPages (frameAddr f)) ∧
      T' = Function.update T f (overlay 0 numPagData
        (fun i => userEntry true ((fs.drop numPagCode).getD i 0))
        (overlay numPagData numPagCode (fun i => userEntry false (fs.getD i 0)) (T f))) := by
  have h1 := h.forLoop_setUserPage f numPagData numPagCode false hf (by decide) (by omega) hfs
    fun i k' => rfl
  have h2 := h1.forLoop_setUserPage f 0 numPagData true hf (by decide)
    (by rw [List.length_drop]; omega) (fun g hg => hfs g (List.mem_of_mem_drop hg))
    fun i k' => by rw [Nat.zero_add]
  rw [List.drop_drop, Function.update_self, Function.update_idem] at h2
  exact ⟨_, h2, rfl⟩

/-- The registers and the variables are set. -/
theorem Has.withTask (h : Has first last fs T k) (esp0 msr cr3 task : Word) :
    Has first last fs T { k with tssEsp0 := esp0, msrEsp := msr, cr3 := cr3, initTask := task } :=
  ⟨h.free, h.sees, h.first, h.last⟩

/-- The fields of a PCB are written to its frame. -/
theorem Has.initTaskStruct (h : Has first last fs T k) (hf : f < 2 ^ 20) (pid dir : Word)
    (st : StateT) :
    Has first last fs (put (put (put (put (put T f 0 pid) f 1 dir) f 4 (Kernel.stateWord st))
        f 2 (slot f 2)) f 3 (slot f 2))
      (k.initTaskStruct (frameAddr f) pid dir st) := by
  have e0 : frameAddr f = slot f 0 := frameAddr_eq f
  have e4 : frameAddr f + 4 = slot f 1 := frameAddr_add f 1
  have e16 : frameAddr f + 16 = slot f 4 := frameAddr_add f 4
  have e8 : frameAddr f + 8 = slot f 2 := frameAddr_add f 2
  have e12 : frameAddr f + 8 + 4 = slot f 3 := by
    rw [← frameAddr_add f 3, BitVec.add_assoc]
    rfl
  rw [Kernel.initTaskStruct, Kernel.initListHead, e12, e4, e16, e8, e0]
  exact ((((h.store ⟨hf, by decide⟩ pid).store ⟨hf, by decide⟩ dir).store ⟨hf, by decide⟩
    (Kernel.stateWord st)).store ⟨hf, by decide⟩ (slot f 2)).store ⟨hf, by decide⟩ (slot f 2)

end Has

/-! ### The tables of the first process -/

/-- The frames of a process: its directory, its two page tables, its PCB, and the frames
of its pages in the order of the user pages. -/
structure Frames where
  /-- The directory. -/
  dir : Nat
  /-- The page table of the kernel. -/
  spt : Nat
  /-- The page table of the user. -/
  upt : Nat
  /-- The PCB. -/
  pcb : Nat
  /-- The code pages. -/
  code : Nat → Nat
  /-- The data pages. -/
  data : Nat → Nat

/-- The frames that `init_task1` allocates, in the order in which it does. -/
def framesOf (d s u p : Nat) (rest : List Nat) : Frames where
  dir := d
  spt := s
  upt := u
  pcb := p
  code := fun i => rest.getD i 0
  data := fun i => (rest.drop numPagCode).getD i 0

/-- The pages that are mapped to the frames of the same number. -/
def Ident (first last : Nat) (fr : Frames) (i : Nat) : Prop :=
  (first ≤ i ∧ i < last) ∨ i = gdtFrame ∨ i = screenFrame ∨ i = fr.dir ∨ i = fr.spt ∨
    i = fr.upt ∨ i = fr.pcb

/-- **What the tables of the first process hold.** -/
structure InitTables (first last : Nat) (fr : Frames) (k : Kernel) : Prop where
  /-- The directory names the page table of the kernel. -/
  dir_zero : load32 k.mem (slot fr.dir 0) =
    encode { base := fr.spt, present := true, rw := true, user := false }
  /-- The directory names the page table of the user. -/
  dir_one : load32 k.mem (slot fr.dir 1) =
    encode { base := fr.upt, present := true, rw := true, user := true }
  /-- The directory has no other entry. -/
  dir_other : ∀ i < tableSize, 2 ≤ i → load32 k.mem (slot fr.dir i) = 0
  /-- The kernel pages, and the frames of the process, are mapped to themselves. -/
  spt_ident : ∀ i < tableSize, Ident first last fr i → load32 k.mem (slot fr.spt i) = identEntry i
  /-- The kernel maps nothing else. -/
  spt_other : ∀ i < tableSize, ¬Ident first last fr i → load32 k.mem (slot fr.spt i) = 0
  /-- The data pages. -/
  upt_data : ∀ i < numPagData, load32 k.mem (slot fr.upt i) = userEntry true (fr.data i)
  /-- The code pages. -/
  upt_code : ∀ i < numPagCode,
    load32 k.mem (slot fr.upt (numPagData + i)) = userEntry false (fr.code i)
  /-- The user has nothing else. -/
  upt_other : ∀ i < tableSize, numPagData + numPagCode ≤ i → load32 k.mem (slot fr.upt i) = 0
  /-- The PCB names the directory. -/
  pcb_dir : load32 k.mem (slot fr.pcb 1) = frameAddr fr.dir
  /-- The directory is loaded. -/
  cr3 : k.cr3 = frameAddr fr.dir
  /-- The kernel knows the process. -/
  initTask : k.initTask = frameAddr fr.pcb
  /-- The bounds of the kernel. -/
  first : k.firstKernel = first
  /-- The bounds of the kernel. -/
  last : k.lastKernel = last

section Tables

variable {first last d s u p : Nat} {rest : List Nat} {T : Nat → Nat → Word} {k : Kernel}

/-- The frames are those of physical memory, and all different. -/
structure FramesOk (d s u p : Nat) (rest : List Nat) : Prop where
  /-- No frame is used twice. -/
  nodup : (d :: s :: u :: p :: rest).Nodup
  /-- They are frames of the machine. -/
  lt : ∀ f ∈ d :: s :: u :: p :: rest, f < totalPages
  /-- There are enough of them. -/
  enough : numPagCode + numPagData ≤ rest.length

/-- Their numbers have twenty bits. -/
theorem FramesOk.lt_addr (h : FramesOk d s u p rest) {f : Nat} (hf : f ∈ d :: s :: u :: p :: rest) :
    f < 2 ^ 20 :=
  Nat.lt_trans (h.lt f hf) (by decide)

/-- The words of the frames after `init_task1`. -/
def initWords (first last d s u p : Nat) (rest : List Nat) (T : Nat → Nat → Word) :
    Nat → Nat → Word :=
  let clear (f : Nat) (T : Nat → Nat → Word) :=
    Function.update T f (overlay 0 tableSize (fun _ => 0) (T f))
  let T := clear u (clear s (clear d T))
  let T := Function.update T s
    (overlay first (last - first) (fun i => identEntry (first + i)) (T s))
  let T := put (put T s gdtFrame (identEntry gdtFrame)) s screenFrame (identEntry screenFrame)
  let T := Function.update T u (overlay 0 numPagData
    (fun i => userEntry true ((rest.drop numPagCode).getD i 0))
    (overlay numPagData numPagCode (fun i => userEntry false (rest.getD i 0)) (T u)))
  let T := put (put (put (put T s d (identEntry d)) s s (identEntry s)) s u (identEntry u)) s p
    (identEntry p)
  let T := put T d 0 (encode { base := s, present := true, rw := true, user := false })
  let T := put T d 1 (encode { base := u, present := true, rw := true, user := true })
  let T := put (put (put T p 0 1) p 1 (frameAddr d)) p 4 (Kernel.stateWord .stRun)
  put (put T p 2 (slot p 2)) p 3 (slot p 2)

/-- **`init_task1`, word by word.** -/
theorem has_initTask1 (h : Has first last (d :: s :: u :: p :: rest) T k)
    (hok : FramesOk d s u p rest) (hle : first ≤ last) (hlast : last ≤ gdtFrame) :
    Has first last (rest.drop (numPagCode + numPagData))
        (initWords first last d s u p rest T) k.initTask1 ∧
      k.initTask1.cr3 = frameAddr d ∧ k.initTask1.initTask = frameAddr p := by
  have hd : d < 1024 := hok.lt d (by simp)
  have hs : s < 1024 := hok.lt s (by simp)
  have hu : u < 1024 := hok.lt u (by simp)
  have hp : p < 1024 := hok.lt p (by simp)
  have hrest : ∀ g ∈ rest, g < 2 ^ 20 := fun g hg => hok.lt_addr (by simp [hg])
  -- the directory, the two page tables and the PCB
  obtain ⟨k₁, e1, h1⟩ := h.alloc
  obtain ⟨k₂, e2, h2⟩ := h1.alloc
  obtain ⟨k₃, e3, h3⟩ := h2.alloc
  obtain ⟨k₄, e4, h4⟩ := h3.alloc
  have h5 := ((h4.clearPageTable (f := d) (by omega)).clearPageTable (f := s)
    (by omega)).clearPageTable (f := u) (by omega)
  have h6 := h5.setKernelPages (f := s) (by omega) hle hlast
  have hn := hok.enough
  obtain ⟨T', h8, hT'⟩ := h6.setUserPages (f := u) (by omega) hn hrest
  -- the frames of the process itself
  have h9 := (((h8.setSsPag (f := s) (i := d) (by omega) (by unfold tableSize; omega)).setSsPag
    (f := s) (i := s) (by omega) (by unfold tableSize; omega)).setSsPag (f := s) (i := u)
    (by omega) (by unfold tableSize; omega)).setSsPag (f := s) (i := p) (by omega)
    (by unfold tableSize; omega)
  -- the directory and the PCB
  have h10 := (h9.store (f := d) (i := 0) ⟨by omega, by decide⟩
    (encode { base := s, present := true, rw := true, user := false })).store (f := d) (i := 1)
    ⟨by omega, by decide⟩ (encode { base := u, present := true, rw := true, user := true })
  have h11 := h10.initTaskStruct (f := p) (by omega) 1 (frameAddr d) .stRun
  have hslot0 : entryAddr (frameAddr d) 0 = slot d 0 := entryAddr_eq d 0
  have hslot1 : entryAddr (frameAddr d) 1 = slot d 1 := entryAddr_eq d 1
  have hspt : pbaseAddr (s : Int) = s := pbaseAddr_of_lt (by omega)
  have hupt : pbaseAddr (u : Int) = u := pbaseAddr_of_lt (by omega)
  simp only [Kernel.initTask1, e1, e2, e3, e4, hslot0, hslot1, hspt, hupt, and_true]
  have h12 := h11.withTask (Kernel.kernelEsp (frameAddr p)) (Kernel.kernelEsp (frameAddr p))
    (frameAddr d) (frameAddr p)
  rw [hT'] at h12
  exact h12

/-- The four frames are different from each other. -/
theorem FramesOk.ne (h : FramesOk d s u p rest) :
    d ≠ s ∧ d ≠ u ∧ d ≠ p ∧ s ≠ u ∧ s ≠ p ∧ u ≠ p := by
  have := h.nodup
  simp only [List.nodup_cons, List.mem_cons, not_or] at this
  tauto

/-- The words of the directory. -/
theorem initWords_dir (h : FramesOk d s u p rest) :
    initWords first last d s u p rest T d =
      Function.update (Function.update (overlay 0 tableSize (fun _ => 0) (T d)) 0
        (encode { base := s, present := true, rw := true, user := false })) 1
        (encode { base := u, present := true, rw := true, user := true }) := by
  obtain ⟨hds, hdu, hdp, -, -, -⟩ := h.ne
  simp only [initWords, put_of_frame_ne hdp, put_frame, put_of_frame_ne hds,
    Function.update_of_ne hdu, Function.update_of_ne hds, Function.update_self]

/-- The words of the page table of the kernel. -/
theorem initWords_spt (h : FramesOk d s u p rest) :
    initWords first last d s u p rest T s =
      Function.update (Function.update (Function.update (Function.update (Function.update
        (Function.update (overlay first (last - first) (fun i => identEntry (first + i))
          (overlay 0 tableSize (fun _ => 0) (T s))) gdtFrame (identEntry gdtFrame))
          screenFrame (identEntry screenFrame)) d (identEntry d)) s (identEntry s))
          u (identEntry u)) p (identEntry p) := by
  obtain ⟨hds, -, -, hsu, hsp, -⟩ := h.ne
  simp only [initWords, put_of_frame_ne hsp, put_frame, put_of_frame_ne hds.symm,
    Function.update_of_ne hsu, Function.update_of_ne hds.symm, Function.update_self]

/-- The words of the page table of the user. -/
theorem initWords_upt (h : FramesOk d s u p rest) :
    initWords first last d s u p rest T u = overlay 0 numPagData
      (fun i => userEntry true ((rest.drop numPagCode).getD i 0))
      (overlay numPagData numPagCode (fun i => userEntry false (rest.getD i 0))
        (overlay 0 tableSize (fun _ => 0) (T u))) := by
  obtain ⟨-, hdu, -, hsu, -, hup⟩ := h.ne
  simp only [initWords, put_of_frame_ne hup, put_of_frame_ne hsu.symm, put_of_frame_ne hdu.symm,
    Function.update_of_ne hsu.symm, Function.update_of_ne hdu.symm, Function.update_self]

/-- A word that a table does not get from anything else is zero. -/
theorem overlay_clear {row : Nat → Word} {i : Nat} (hi : i < tableSize) :
    overlay 0 tableSize (fun _ => 0) row i = 0 := by
  rw [overlay, if_pos ⟨Nat.zero_le i, by omega⟩]

theorem update_identEntry {row : Nat → Word} {i j : Nat} :
    Function.update row j (identEntry j) i = if i = j then identEntry i else row i := by
  by_cases h : i = j
  · subst h
    rw [Function.update_self, if_pos rfl]
  · rw [Function.update_of_ne h, if_neg h]

/-- The entries of the page table of the kernel, all of the same form. -/
theorem initWords_spt_apply (h : FramesOk d s u p rest) (hle : first ≤ last) {i : Nat}
    (hi : i < tableSize) : initWords first last d s u p rest T s i =
      if i = p then identEntry i else if i = u then identEntry i else if i = s then identEntry i
      else if i = d then identEntry i else if i = screenFrame then identEntry i
      else if i = gdtFrame then identEntry i
      else if first ≤ i ∧ i < last then identEntry i else 0 := by
  rw [initWords_spt h]
  simp only [update_identEntry]
  -- the kernel pages were entered first, into an empty table
  have hrange : overlay first (last - first) (fun i => identEntry (first + i))
      (overlay 0 tableSize (fun _ => 0) (T s)) i =
        if first ≤ i ∧ i < last then identEntry i else 0 := by
    by_cases hr : first ≤ i ∧ i < last
    · rw [if_pos hr, overlay, if_pos (by omega), Nat.add_sub_cancel' hr.1]
    · rw [if_neg hr, overlay_of_notMem (by omega), overlay_clear hi]
  rw [hrange]

/-- **`init_task1` builds the tables of the first process.** -/
theorem initTask1_tables (h : Has first last (d :: s :: u :: p :: rest) T k)
    (hok : FramesOk d s u p rest) (hle : first ≤ last) (hlast : last ≤ gdtFrame) :
    InitTables first last (framesOf d s u p rest) k.initTask1 := by
  obtain ⟨⟨-, hsees, hfirst, hlast'⟩, hcr3, htask⟩ := has_initTask1 h hok hle hlast
  have htot : totalPages = 1024 := rfl
  have hsize : tableSize = 1024 := rfl
  have hd : d < 1024 := hok.lt d (by simp)
  have hs : s < 1024 := hok.lt s (by simp)
  have hu : u < 1024 := hok.lt u (by simp)
  have hp : p < 1024 := hok.lt p (by simp)
  have hdir : ∀ i < tableSize, load32 k.initTask1.mem (slot d i) = _ := fun i hi =>
    (hsees d i ⟨by omega, hi⟩).trans (congrFun (initWords_dir hok) i)
  have hspt : ∀ i < tableSize, load32 k.initTask1.mem (slot s i) = _ := fun i hi =>
    (hsees s i ⟨by omega, hi⟩).trans (initWords_spt_apply hok hle hi)
  have hupt : ∀ i < tableSize, load32 k.initTask1.mem (slot u i) = _ := fun i hi =>
    (hsees u i ⟨by omega, hi⟩).trans (congrFun (initWords_upt hok) i)
  refine ⟨?_, ?_, fun i hi h2 => ?_, fun i hi hid => ?_, fun i hi hid => ?_, fun i hi => ?_,
    fun i hi => ?_, fun i hi h28 => ?_, ?_, hcr3, htask, hfirst, hlast'⟩
  · rw [framesOf, hdir 0 (by decide), Function.update_of_ne (by decide), Function.update_self]
  · rw [framesOf, hdir 1 (by decide), Function.update_self]
  · rw [framesOf, hdir i hi, Function.update_of_ne (by omega), Function.update_of_ne (by omega),
      overlay_clear hi]
  · simp only [Ident, framesOf] at hid
    rw [framesOf, hspt i hi]
    grind
  · simp only [Ident, framesOf] at hid
    rw [framesOf, hspt i hi]
    grind
  · have h20 : numPagData = 20 := rfl
    rw [framesOf, hupt i (by omega), overlay, if_pos (by omega)]
    rfl
  · have h20 : numPagData = 20 := rfl
    have h8 : numPagCode = 8 := rfl
    rw [framesOf, hupt _ (by omega), overlay_of_notMem (by omega), overlay_at hi]
  · rw [framesOf, hupt i hi, overlay_of_notMem (by omega), overlay_of_notMem (by omega),
      overlay_clear hi]
  · rw [framesOf, hsees p 1 ⟨by omega, by decide⟩]
    simp only [initWords]
    rw [put_of_ne (Or.inr (by decide)), put_of_ne (Or.inr (by decide)),
      put_of_ne (Or.inr (by decide)), put_self]

end Tables

/-! ### The walk -/

section Walk

variable {first last : Nat} {fr : Frames} {k : Kernel}

/-- The frames are frames of physical memory. -/
structure Frames.Ok (fr : Frames) : Prop where
  /-- The page table of the kernel. -/
  spt : fr.spt < 2 ^ 20
  /-- The page table of the user. -/
  upt : fr.upt < 2 ^ 20
  /-- The code pages. -/
  code : ∀ i < numPagCode, fr.code i < 2 ^ 20
  /-- The data pages. -/
  data : ∀ i < numPagData, fr.data i < 2 ^ 20

theorem decode_encode_of_lt {e : Entry} (h : e.base < 2 ^ 20) : decode (encode e) = e := by
  rw [decode_encode, Nat.mod_eq_of_lt h]

/-- An entry that is zero leads nowhere. -/
theorem through_zero {pde : Entry} : Entry.through pde (decode 0) = none := by
  rw [decode_zero, Entry.through]
  simp [Entry.zero]

/-- The part of the walk that goes through the page table of the kernel. -/
theorem InitTables.walk_kernel (h : InitTables first last fr k) (hfr : fr.Ok) {a : Word}
    (ha : dirIndex a = 0) :
    (Ident first last fr (tableIndex a) ∧ walk k.mem fr.dir a =
      some { base := tableIndex a, present := true, rw := true, user := false }) ∨
    walk k.mem fr.dir a = none := by
  have hti := tableIndex_lt a
  have hlt : tableIndex a < 2 ^ 20 := by
    unfold tableSize at hti
    omega
  rw [walk, ha, h.dir_zero, decode_encode_of_lt hfr.spt]
  by_cases hid : Ident first last fr (tableIndex a)
  · refine Or.inl ⟨hid, ?_⟩
    dsimp only
    rw [h.spt_ident _ hti hid, identEntry, decode_encode_of_lt hlt]
    rfl
  · refine Or.inr ?_
    dsimp only
    rw [h.spt_other _ hti hid, through_zero]

/-- The part of the walk that goes through the page table of the user. -/
theorem InitTables.walk_user (h : InitTables first last fr k) (hfr : fr.Ok) {a : Word}
    (ha : dirIndex a = 1) :
    (tableIndex a < numPagData ∧ walk k.mem fr.dir a =
      some { base := fr.data (tableIndex a), present := true, rw := true, user := true }) ∨
    (∃ i < numPagCode, tableIndex a = numPagData + i ∧ walk k.mem fr.dir a =
      some { base := fr.code i, present := true, rw := false, user := true }) ∨
    (numPagData + numPagCode ≤ tableIndex a ∧ walk k.mem fr.dir a = none) := by
  have hti := tableIndex_lt a
  rw [walk, ha, h.dir_one, decode_encode_of_lt hfr.upt]
  dsimp only
  rcases Nat.lt_or_ge (tableIndex a) numPagData with h20 | h20
  · refine Or.inl ⟨h20, ?_⟩
    rw [h.upt_data _ h20, userEntry, decode_encode_of_lt (hfr.data _ h20)]
    rfl
  refine Or.inr ?_
  obtain ⟨i, hi⟩ := Nat.exists_eq_add_of_le h20
  rcases Nat.lt_or_ge i numPagCode with h8 | h8
  · refine Or.inl ⟨i, h8, hi, ?_⟩
    rw [hi, h.upt_code _ h8, userEntry, decode_encode_of_lt (hfr.code _ h8)]
    rfl
  · refine Or.inr ⟨by omega, ?_⟩
    rw [h.upt_other _ hti (by omega), through_zero]

/-- **The walk of every address.** -/
theorem InitTables.walk_cases (h : InitTables first last fr k) (hfr : fr.Ok) (a : Word) :
    (a.toNat / 4096 < 1024 ∧ Ident first last fr (a.toNat / 4096) ∧ walk k.mem fr.dir a =
      some { base := a.toNat / 4096, present := true, rw := true, user := false }) ∨
    (∃ i < numPagData, a.toNat / 4096 = 1024 + i ∧ walk k.mem fr.dir a =
      some { base := fr.data i, present := true, rw := true, user := true }) ∨
    (∃ i < numPagCode, a.toNat / 4096 = 1024 + (numPagData + i) ∧ walk k.mem fr.dir a =
      some { base := fr.code i, present := true, rw := false, user := true }) ∨
    ((a.toNat / 4096 < 1024 ∨ 1024 + (numPagData + numPagCode) ≤ a.toNat / 4096) ∧
      walk k.mem fr.dir a = none) := by
  have hpage := page_eq a
  have hti := tableIndex_lt a
  unfold tableSize at hti
  -- the directory has two entries: of the kernel, and of the user
  rcases (by omega : dirIndex a = 0 ∨ dirIndex a = 1 ∨ 2 ≤ dirIndex a) with h0 | h1 | h2
  · have heq : a.toNat / 4096 = tableIndex a := by omega
    rcases h.walk_kernel hfr h0 with ⟨hid, hw⟩ | hw
    · rw [heq]
      exact Or.inl ⟨hti, hid, hw⟩
    · exact Or.inr (Or.inr (Or.inr ⟨Or.inl (by omega), hw⟩))
  · rcases h.walk_user hfr h1 with ⟨hlt, hw⟩ | ⟨i, hi, heq, hw⟩ | ⟨hge, hw⟩
    · exact Or.inr (Or.inl ⟨_, hlt, by omega, hw⟩)
    · exact Or.inr (Or.inr (Or.inl ⟨i, hi, by omega, hw⟩))
    · exact Or.inr (Or.inr (Or.inr ⟨Or.inr (by omega), hw⟩))
  · refine Or.inr (Or.inr (Or.inr ⟨Or.inr ?_, ?_⟩))
    · have h20 : numPagData = 20 := rfl
      have h8 : numPagCode = 8 := rfl
      omega
    · rw [walk, h.dir_other _ (dirIndex_lt a) h2, decode_zero]
      simp [Entry.through, Entry.zero]

/-- **The addresses that user mode can access.** -/
theorem InitTables.accessible_iff (h : InitTables first last fr k) (hfr : fr.Ok) (a : Word) :
    (∃ e, walk k.mem fr.dir a = some e ∧ e.user = true) ↔
      0x400000 ≤ a.toNat ∧ a.toNat < 0x41c000 := by
  have h20 : numPagData = 20 := rfl
  have h8 : numPagCode = 8 := rfl
  rcases h.walk_cases hfr a with ⟨hpage, -, hw⟩ | ⟨i, hi, hpage, hw⟩ | ⟨i, hi, hpage, hw⟩ |
    ⟨hpage, hw⟩
  · refine iff_of_false ?_ (by omega)
    rintro ⟨e, he, hue⟩
    obtain rfl := Option.some.inj (hw.symm.trans he)
    exact absurd hue (by simp)
  · exact iff_of_true ⟨_, hw, rfl⟩ (by omega)
  · exact iff_of_true ⟨_, hw, rfl⟩ (by omega)
  · refine iff_of_false ?_ (by omega)
    rintro ⟨e, he, -⟩
    exact absurd (hw.symm.trans he) (by simp)

/-- **The addresses that user mode can write to.** -/
theorem InitTables.writable_iff (h : InitTables first last fr k) (hfr : fr.Ok) (a : Word) :
    (∃ e, walk k.mem fr.dir a = some e ∧ e.user = true ∧ e.rw = true) ↔
      0x400000 ≤ a.toNat ∧ a.toNat < 0x414000 := by
  have h20 : numPagData = 20 := rfl
  have h8 : numPagCode = 8 := rfl
  rcases h.walk_cases hfr a with ⟨hpage, -, hw⟩ | ⟨i, hi, hpage, hw⟩ | ⟨i, hi, hpage, hw⟩ |
    ⟨hpage, hw⟩
  · refine iff_of_false ?_ (by omega)
    rintro ⟨e, he, hue, -⟩
    obtain rfl := Option.some.inj (hw.symm.trans he)
    exact absurd hue (by simp)
  · exact iff_of_true ⟨_, hw, rfl, rfl⟩ (by omega)
  · -- the code pages cannot be written to
    refine iff_of_false ?_ (by omega)
    rintro ⟨e, he, -, hrw⟩
    obtain rfl := Option.some.inj (hw.symm.trans he)
    exact absurd hrw (by simp)
  · refine iff_of_false ?_ (by omega)
    rintro ⟨e, he, -⟩
    exact absurd (hw.symm.trans he) (by simp)

end Walk

/-! ### Exactly its own address space -/

namespace Kernel

variable (k : Kernel)

/-- The frame with the PCB of the first process. -/
def pcbFrame : Nat := k.initTask.toNat / 4096

/-- The frame with the directory of the first process. -/
def dirFrame : Nat := (k.getDIR k.initTask).toNat / 4096

/-- The frame with a page table of the first process, by its entry in the directory. -/
def tableFrame (i : Nat) : Nat := (decode (load32 k.mem (slot k.dirFrame i))).base

/-- The walk of an address from the directory of the first process. -/
def initWalk (a : Word) : Option Entry := walk k.mem k.dirFrame a

end Kernel

/-- **The first process sees exactly its own address space.** -/
structure ExactSpace (k : Kernel) : Prop where
  /-- The addresses that user mode can access. -/
  accessible : ∀ a : Word, (∃ e, k.initWalk a = some e ∧ e.user = true) ↔
    0x400000 ≤ a.toNat ∧ a.toNat < 0x41c000
  /-- The addresses that user mode can write to. -/
  writable : ∀ a : Word, (∃ e, k.initWalk a = some e ∧ e.user = true ∧ e.rw = true) ↔
    0x400000 ≤ a.toNat ∧ a.toNat < 0x414000
  /-- Distinct user pages are in distinct frames. -/
  distinct : ∀ (a b : Word) (e e' : Entry), k.initWalk a = some e → k.initWalk b = some e' →
    e.user = true → e'.user = true → e.base = e'.base → a.toNat / 4096 = b.toNat / 4096
  /-- None of these frames is of the kernel, or holds a table or the PCB. -/
  own : ∀ (a : Word) (e : Entry), k.initWalk a = some e → e.user = true →
    ¬(k.firstKernel ≤ e.base ∧ e.base < k.lastKernel) ∧ e.base ≠ 0x90 ∧ e.base ≠ 0xb8 ∧
    e.base ≠ k.dirFrame ∧ e.base ≠ k.tableFrame 0 ∧ e.base ≠ k.tableFrame 1 ∧ e.base ≠ k.pcbFrame
  /-- Every other page that is present is out of reach of user mode, and maps to the
  frame with its own number. -/
  kernel : ∀ (a : Word) (e : Entry), k.initWalk a = some e →
    ¬(0x400000 ≤ a.toNat ∧ a.toNat < 0x41c000) → e.user = false ∧ e.base = a.toNat / 4096

section Exact

variable {k₀ k : Kernel} {n d s u p : Nat} {rest : List Nat}

theorem frameAddr_div {f : Nat} (h : f < 2 ^ 20) : (frameAddr f).toNat / 4096 = f := by
  rw [frameAddr_eq, slot, BitVec.toNat_ofNat, Nat.mod_eq_of_lt (by omega)]
  omega

/-- What `init_mm` sets up. -/
theorem initMm_spec (hsize : kernelStart + k₀.sysSize + k₀.usrSize < 0x90000) :
    k₀.initMm.firstKernel ≤ k₀.initMm.lastKernel ∧ k₀.initMm.lastKernel ≤ gdtFrame ∧
      gdtFrame ∉ k₀.initMm.allocatable ∧ screenFrame ∉ k₀.initMm.allocatable := by
  have hfirst : k₀.initMm.firstKernel = 16 := rfl
  have hlast : k₀.initMm.lastKernel =
      (kernelStart + k₀.sysSize + k₀.usrSize) % 2 ^ 32 / 4096 + 1 := rfl
  have hstart : kernelStart = 0x10000 := rfl
  have hgdt : gdtFrame = 0x90 := rfl
  refine ⟨by omega, by omega, fun h => ?_, fun h => ?_⟩
  · have := (mem_allocatable.mp h).2.2
    rw [Kernel.initMm, Kernel.initFrames] at this
    simp [gdtFrame, screenFrame] at this
  · have := (mem_allocatable.mp h).2.2
    rw [Kernel.initMm, Kernel.initFrames] at this
    simp at this

/-- The frames of the pages, by their place in the list. -/
theorem framesOf_pages (hok : FramesOk d s u p rest) :
    (∀ i < numPagCode, ∃ h : i < rest.length, (framesOf d s u p rest).code i = rest[i]) ∧
      ∀ i < numPagData, ∃ h : numPagCode + i < rest.length,
        (framesOf d s u p rest).data i = rest[numPagCode + i] := by
  have hlen := hok.enough
  refine ⟨fun i hi => ⟨by omega, ?_⟩, fun i hi => ⟨by omega, ?_⟩⟩
  · simp only [framesOf]
    rw [List.getD_eq_getElem?_getD, List.getElem?_eq_getElem (by omega), Option.getD_some]
  · simp only [framesOf]
    rw [List.getD_eq_getElem?_getD, List.getElem?_drop, List.getElem?_eq_getElem (by omega),
      Option.getD_some]

/-- The frame of a user page, and its number among the user pages. -/
theorem InitTables.walk_page {first last : Nat}
    (h : InitTables first last (framesOf d s u p rest) k) (hok : FramesOk d s u p rest)
    (hfr : (framesOf d s u p rest).Ok) {a : Word} {e : Entry} (hw : walk k.mem d a = some e)
    (hu : e.user = true) : ∃ (j : Nat) (hj : j < rest.length), e.base = rest[j] ∧
      a.toNat / 4096 = 1024 + (if j < numPagCode then numPagData + j else j - numPagCode) := by
  obtain ⟨hcode, hdata⟩ := framesOf_pages hok
  rcases h.walk_cases hfr a with ⟨-, -, hw'⟩ | ⟨i, hi, heq, hw'⟩ | ⟨i, hi, heq, hw'⟩ | ⟨-, hw'⟩
  · obtain rfl := Option.some.inj (hw'.symm.trans hw)
    exact absurd hu (by simp)
  · obtain rfl := Option.some.inj (hw'.symm.trans hw)
    obtain ⟨hlt, hbase⟩ := hdata i hi
    refine ⟨numPagCode + i, hlt, hbase, ?_⟩
    rw [if_neg (by omega), Nat.add_sub_cancel_left]
    exact heq
  · obtain rfl := Option.some.inj (hw'.symm.trans hw)
    obtain ⟨hlt, hbase⟩ := hcode i hi
    refine ⟨i, hlt, hbase, ?_⟩
    rw [if_pos hi]
    exact heq
  · exact absurd (hw'.symm.trans hw) (by simp)

theorem FramesOk.frames (hok : FramesOk d s u p rest) : (framesOf d s u p rest).Ok := by
  obtain ⟨hcode, hdata⟩ := framesOf_pages hok
  refine ⟨hok.lt_addr (f := s) (by simp), hok.lt_addr (f := u) (by simp), fun i hi => ?_,
    fun i hi => ?_⟩
  · obtain ⟨h1, h2⟩ := hcode i hi
    rw [h2]
    exact hok.lt_addr (by simp)
  · obtain ⟨h1, h2⟩ := hdata i hi
    rw [h2]
    exact hok.lt_addr (by simp)

/-- Where the structures of the first process are. -/
theorem InitTables.frames {first last : Nat} (h : InitTables first last (framesOf d s u p rest) k)
    (hok : FramesOk d s u p rest) :
    k.dirFrame = d ∧ k.pcbFrame = p ∧ k.tableFrame 0 = s ∧ k.tableFrame 1 = u := by
  have hlt : ∀ f ∈ d :: s :: u :: p :: rest, f < 2 ^ 20 := fun f hf => hok.lt_addr hf
  have hdir : k.dirFrame = d := by
    have h4 : frameAddr p + 4 = slot p 1 := frameAddr_add p 1
    have hinit : k.initTask = frameAddr p := h.initTask
    have hpcb : load32 k.mem (slot p 1) = frameAddr d := h.pcb_dir
    rw [Kernel.dirFrame, Kernel.getDIR, hinit, h4, hpcb, frameAddr_div (hlt d (by simp))]
  refine ⟨hdir, ?_, ?_, ?_⟩
  · have hinit : k.initTask = frameAddr p := h.initTask
    rw [Kernel.pcbFrame, hinit, frameAddr_div (hlt p (by simp))]
  · have hzero := h.dir_zero
    rw [Kernel.tableFrame, hdir]
    change (decode (load32 k.mem (slot (framesOf d s u p rest).dir 0))).base = s
    rw [hzero, decode_encode_of_lt (hlt s (by simp))]
    rfl
  · have hone := h.dir_one
    rw [Kernel.tableFrame, hdir]
    change (decode (load32 k.mem (slot (framesOf d s u p rest).dir 1))).base = u
    rw [hone, decode_encode_of_lt (hlt u (by simp))]
    rfl

/-- **The tables give the process its own address space**, when its frames are not the
kernel's. -/
theorem InitTables.exactSpace {first last : Nat}
    (h : InitTables first last (framesOf d s u p rest) k) (hok : FramesOk d s u p rest)
    (hown : ∀ f ∈ d :: s :: u :: p :: rest, last ≤ f ∧ f ≠ gdtFrame ∧ f ≠ screenFrame) :
    ExactSpace k := by
  obtain ⟨hdir, hpcb, hspt, hupt⟩ := h.frames hok
  have hfr := hok.frames
  have h20 : numPagData = 20 := rfl
  have h8 : numPagCode = 8 := rfl
  have hwalk : ∀ a, k.initWalk a = walk k.mem d a := fun a => by rw [Kernel.initWalk, hdir]
  have hnodup := hok.nodup
  simp only [List.nodup_cons, List.mem_cons, not_or] at hnodup
  obtain ⟨⟨-, -, -, hd⟩, ⟨-, -, hs⟩, ⟨-, hu⟩, hp, hnd⟩ := hnodup
  refine ⟨fun a => ?_, fun a => ?_, fun a b e e' ha hb hua hub heq => ?_, fun a e ha hua => ?_,
    fun a e ha hout => ?_⟩
  · rw [hwalk]
    exact h.accessible_iff hfr a
  · rw [hwalk]
    exact h.writable_iff hfr a
  · rw [hwalk] at ha hb
    obtain ⟨j, hj, hbase, hpage⟩ := h.walk_page hok hfr ha hua
    obtain ⟨j', hj', hbase', hpage'⟩ := h.walk_page hok hfr hb hub
    rw [hbase, hbase'] at heq
    obtain rfl := (List.Nodup.getElem_inj_iff hnd).mp heq
    rw [hpage, hpage']
  · rw [hwalk] at ha
    obtain ⟨j, hj, hbase, -⟩ := h.walk_page hok hfr ha hua
    have hmem : e.base ∈ rest := hbase ▸ List.getElem_mem hj
    obtain ⟨h1, h2, h3⟩ := hown e.base (by simp [hmem])
    rw [hdir, hpcb, hspt, hupt, h.first, h.last]
    refine ⟨by omega, h2, h3, ?_, ?_, ?_, ?_⟩
    · exact fun heq => hd (heq ▸ hmem)
    · exact fun heq => hs (heq ▸ hmem)
    · exact fun heq => hu (heq ▸ hmem)
    · exact fun heq => hp (heq ▸ hmem)
  · rw [hwalk] at ha
    rcases h.walk_cases hfr a with ⟨-, -, hw⟩ | ⟨i, hi, heq, -⟩ | ⟨i, hi, heq, -⟩ | ⟨-, hw⟩
    · obtain rfl := Option.some.inj (hw.symm.trans ha)
      exact ⟨rfl, rfl⟩
    · omega
    · omega
    · exact absurd (hw.symm.trans ha) (by simp)

/-- The frames that are left after some calls of `alloc_frame` are good for a process,
when there are 32 of them. -/
theorem framesOk_of_allocatable (hfs : k.allocatable = d :: s :: u :: p :: rest)
    (hfree : 32 ≤ k.allocatable.length) : FramesOk d s u p rest := by
  refine ⟨hfs ▸ nodup_allocatable, fun f hf => ?_, ?_⟩
  · rw [← hfs] at hf
    exact (mem_allocatable.mp hf).2.1
  · have h20 : numPagData = 20 := rfl
    have h8 : numPagCode = 8 := rfl
    rw [hfs] at hfree
    simp only [List.length_cons] at hfree
    omega

/-- **The first process sees exactly its own address space**, whatever has been allocated
before it, if there are still 32 frames. -/
theorem init_task1_exact (hsize : kernelStart + k₀.sysSize + k₀.usrSize < 0x90000)
    (hk : SameFrames (allocs n k₀.initMm) k) (hfree : 32 ≤ k.allocatable.length) :
    ExactSpace k.initTask1 := by
  obtain ⟨hle, hlast, hgdt, hscreen⟩ := initMm_spec hsize
  obtain ⟨hdrop, hfirst', hlast'⟩ := allocs_spec n k₀.initMm
  rw [← hfirst', ← hk.firstKernel, ← hlast', ← hk.lastKernel] at hle
  rw [← hlast', ← hk.lastKernel] at hlast
  have hsub : ∀ f ∈ k.allocatable, f ∈ k₀.initMm.allocatable := fun f hf => by
    rw [hk.allocatable_eq, hdrop] at hf
    exact List.mem_of_mem_drop hf
  match hfs : k.allocatable, hfree with
  | d :: s :: u :: p :: rest, hfree =>
    have hok := framesOk_of_allocatable hfs (by rw [hfs]; exact hfree)
    have htables := initTask1_tables ⟨hfs, sees_contents k.mem, rfl, rfl⟩ hok hle hlast
    refine htables.exactSpace hok fun f hf => ?_
    rw [← hfs] at hf
    refine ⟨(mem_allocatable.mp hf).1, fun heq => ?_, fun heq => ?_⟩
    · exact hgdt (heq ▸ hsub f hf)
    · exact hscreen (heq ▸ hsub f hf)

/-- A machine that has just been switched on, with nothing but zeros in its memory. -/
def blankKernel : Kernel where
  cpu := { reg := fun _ => 0, seg := fun _ => 0, eip := 0, eflags := 0, mem := fun _ => 0 }
  physMem := fun _ => .freeFrame
  firstKernel := 0
  lastKernel := 0
  initTask := 0
  idleTask := 0
  tssEsp0 := 0
  msrEsp := 0
  cr0 := 1
  cr3 := 0

/-- The case of an empty image, after the two allocations of `init_idle`. -/
theorem init_task1_exact_blank : kernelStart + blankKernel.sysSize + blankKernel.usrSize < 0x90000 ∧
    SameFrames (allocs 2 blankKernel.initMm) (allocs 2 blankKernel.initMm) ∧
    32 ≤ (allocs 2 blankKernel.initMm).allocatable.length ∧
    ExactSpace (allocs 2 blankKernel.initMm).initTask1 := by
  have hsize : kernelStart + blankKernel.sysSize + blankKernel.usrSize < 0x90000 := by decide
  have hk : SameFrames (allocs 2 blankKernel.initMm) (allocs 2 blankKernel.initMm) :=
    ⟨rfl, rfl, rfl⟩
  have hfree : 32 ≤ (allocs 2 blankKernel.initMm).allocatable.length := by decide +kernel
  exact ⟨hsize, hk, hfree, init_task1_exact hsize hk hfree⟩

end Exact

end Zeos.Base
