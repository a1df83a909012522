import Zeos.Base.Space

/-!
# What boot leaves behind

`main` calls `init_mm`, `init_sched`, `init_idle` and `init_task1` in this order, copies the
user image and goes to user mode through `return_gate`. At that point the two processes
should have a usable address space (`Zeos.Base.Usable`): paging is on, the directory of the
first process is loaded, the idle process shares its page table for the kernel, and this
table has every frame in which the kernel keeps a structure of either process.

They never have. Two things go wrong, whatever the size of the image.

* Nobody calls `set_pe_flag`. The boot sector has set the bit for protected mode in `CR0`
  and no other, and no function on the way changes the register (`Zeos.Base.main_cr0`).
* `init_idle` runs when there is no first process yet: what it takes for the directory and
  the page table of `init_task` is some word of low memory. The frames of the idle process
  are entered there, and not in the table that `init_task1` builds later
  (`Zeos.Base.main_idle_unmapped`).

What `init_task1` has built for the first process is still there at the end, and so is the
context that `init_idle` has forged for the idle process (`Zeos.Base.main_booted`).
-/

namespace Zeos.Base

open ByteMem Paging PageWalk Loop X86

variable {img : Image} {k : Kernel}

/-! ### The paging bit -/

section Aside

/-- What memory management has nothing to do with: the register with the paging bit, and
which process is the idle one. -/
def Kernel.aside (k : Kernel) : Word × Word := (k.cr0, k.idleTask)

@[simp] theorem store_aside {a w : Word} : (k.store a w).aside = k.aside := by
  simp [Kernel.store, Kernel.aside]

@[simp] theorem allocFrame_aside : k.allocFrame.2.aside = k.aside := by
  cases h : k.allocatable with
  | nil => rw [allocFrame_of_nil h]
  | cons f fs =>
    rw [(allocFrame_of_cons h).1]
    rfl

/-- A loop leaves it alone if its body does. -/
theorem forLoop_aside {n : Nat} {body : Nat → Kernel → Kernel}
    (h : ∀ i k, (body i k).aside = k.aside) : (forLoop n body k).aside = k.aside :=
  forLoop_induction (I := fun _ k' => k'.aside = k.aside) rfl fun i k' _ hk => (h i k').trans hk

@[simp] theorem clearPageTable_aside {pt : Word} : (k.clearPageTable pt).aside = k.aside :=
  forLoop_aside fun _ _ => store_aside

@[simp] theorem setSsPag_aside {pt : Word} {page frame : Int} {user : Bool} :
    (k.setSsPag pt page frame user).aside = k.aside := by
  rw [Kernel.setSsPag, store_aside]

@[simp] theorem setKernelPages_aside {pt : Word} : (k.setKernelPages pt).aside = k.aside := by
  rw [Kernel.setKernelPages, setSsPag_aside, setSsPag_aside]
  exact forLoop_aside fun _ _ => setSsPag_aside

@[simp] theorem setUserPage_aside {pt : Word} {rw : Bool} {page : Nat} :
    (k.setUserPage pt rw page).aside = k.aside := by
  simp [Kernel.setUserPage]

@[simp] theorem setUserPages_aside {pt : Word} : (k.setUserPages pt).aside = k.aside := by
  rw [Kernel.setUserPages, forLoop_aside fun _ _ => setUserPage_aside,
    forLoop_aside fun _ _ => setUserPage_aside]

@[simp] theorem initTaskStruct_aside {task pid dir : Word} {st : StateT} :
    (k.initTaskStruct task pid dir st).aside = k.aside := by
  simp [Kernel.initTaskStruct, Kernel.initListHead]

theorem cr0_eq_aside (k : Kernel) : k.cr0 = k.aside.1 := rfl

theorem idleTask_eq_aside (k : Kernel) : k.idleTask = k.aside.2 := rfl

@[simp] theorem withTask_aside {esp0 msr cr3 task : Word} :
    Kernel.aside { k with tssEsp0 := esp0, msrEsp := msr, cr3 := cr3, initTask := task } =
      k.aside := by
  simp only [Kernel.aside]

@[simp] theorem withIdle_aside {task : Word} :
    (Kernel.aside { k with idleTask := task }).1 = k.aside.1 := by
  simp only [Kernel.aside]

@[simp] theorem copyUserImage_aside : k.copyUserImage.aside = k.aside := rfl

theorem initTask1_aside : k.initTask1.aside = k.aside := by
  simp [Kernel.initTask1]

theorem initIdle_aside : (k.initIdle img).aside.1 = k.aside.1 := by
  simp [Kernel.initIdle]

/-- **`main` does not enable paging**, nor disable it. -/
theorem main_cr0 : (k.main img).cr0 = k.cr0 := by
  rw [cr0_eq_aside, Kernel.main, copyUserImage_aside, initTask1_aside, initIdle_aside]
  rfl

end Aside

/-! ### The idle process -/

section Idle

variable {first last d p : Nat} {rest : List Nat} {T : Nat → Nat → Word}

/-- The words of the frames after `init_idle`, which has taken the frame `b` for the page
table of the first process, and `w` for the first entry of its directory. -/
def idleWords (img : Image) (b d p : Nat) (w : Word) (T : Nat → Nat → Word) : Nat → Nat → Word :=
  let T := Function.update T d (overlay 0 tableSize (fun _ => 0) (T d))
  let T := put (put (put T d 0 w) b d (identEntry d)) b p (identEntry p)
  let T := put (put (put T p 0 0) p 1 (frameAddr d)) p 4 (Kernel.stateWord .stReady)
  let T := put (put T p 2 (slot p 2)) p 3 (slot p 2)
  put (put (put T p 1022 0) p 1023 img.cpuIdle) p 5 (slot p 1022)

theorem Has.withIdle {fs : List Nat} (h : Has first last fs T k) (task : Word) :
    Has first last fs T { k with idleTask := task } :=
  ⟨h.free, h.sees, h.first, h.last⟩

/-- **`init_idle`, word by word.** -/
theorem has_initIdle (h : Has first last (d :: p :: rest) T k) (hd : d < tableSize)
    (hp : p < tableSize) : ∃ (b : Nat) (w : Word),
      Has first last rest (idleWords img b d p w T) (k.initIdle img) ∧
        (k.initIdle img).idleTask = frameAddr p := by
  have hsize : tableSize = 1024 := rfl
  have hd' : d < 2 ^ 20 := by omega
  have hp' : p < 2 ^ 20 := by omega
  obtain ⟨k₁, e1, h1⟩ := h.alloc
  obtain ⟨k₂, e2, h2⟩ := h1.alloc
  -- the table may be in any frame
  obtain ⟨b, hb, hpt⟩ : ∃ b : Nat, b < 2 ^ 20 ∧ k₂.getPT k₂.initTask = frameAddr b :=
    ⟨_, decode_base_lt _, rfl⟩
  have h3 := h2.clearPageTable hd'
  set k₃ := k₂.clearPageTable (frameAddr d) with hk₃
  set w := load32 k₃.mem (k₃.getDIR k₃.initTask) with hw
  have h4 := h3.store (f := d) (i := 0) ⟨hd', by decide⟩ w
  have h5 := (h4.setSsPag hb hd).setSsPag hb hp
  have h6 := h5.initTaskStruct hp' 0 (frameAddr d) .stReady
  have h7 := ((h6.store (f := p) (i := 1022) ⟨hp', by decide⟩ 0).store (f := p) (i := 1023)
    ⟨hp', by decide⟩ img.cpuIdle).store (f := p) (i := 5) ⟨hp', by decide⟩ (slot p 1022)
  have e5 : frameAddr p + 20 = slot p 5 := frameAddr_add p 5
  have e1022 : frameAddr p + BitVec.ofNat 32 (4 * 1022) = slot p 1022 := frameAddr_add p 1022
  have e1023 : frameAddr p + BitVec.ofNat 32 (4 * 1023) = slot p 1023 := frameAddr_add p 1023
  have e0 : ∀ k : Kernel, k.store (frameAddr d) w = k.store (slot d 0) w := fun k => by
    rw [frameAddr_eq]
  refine ⟨b, w, ?_⟩
  simp only [Kernel.initIdle, e1, e2, hpt, ← hk₃, ← hw, e0, e5, e1022, e1023, and_true]
  have h8 := h7.withIdle (frameAddr p)
  exact h8

/-- The words of the PCB, and what has not changed: of the rest of memory, at most two
entries of some table. -/
theorem idleWords_pcb {b : Nat} {w : Word} : idleWords img b d p w T p 1 = frameAddr d ∧
    idleWords img b d p w T p 5 = slot p 1022 ∧ idleWords img b d p w T p 1022 = 0 ∧
    idleWords img b d p w T p 1023 = img.cpuIdle := by
  simp [idleWords, put_frame]

theorem idleWords_other {b f i : Nat} {w : Word} (hfd : f ≠ d) (hfp : f ≠ p) (hid : i ≠ d)
    (hip : i ≠ p) : idleWords img b d p w T f i = T f i := by
  simp only [idleWords, put_of_frame_ne hfp]
  rw [put_of_ne (Or.inr hip), put_of_ne (Or.inr hid), put_of_frame_ne hfd,
    Function.update_of_ne hfd]

end Idle

/-! ### The state at `return_gate` -/

/-- **The kernel as the boot sector leaves it**: in protected mode, without paging, with an
image that ends before the GDT. -/
structure Loaded (img : Image) extends Kernel where
  /-- The boot sector sets one bit of `CR0`. -/
  cr0_eq : cr0 = 1
  /-- The image has an end. -/
  size_lt : kernelStart + toKernel.sysSize + toKernel.usrSize < 0x90000
  /-- The variables of the kernel come after the header of the image, -/
  readyqueue_ge : kernelStart + 12 ≤ img.readyqueue.toNat
  /-- and are part of the system image. -/
  readyqueue_le : img.readyqueue.toNat + 8 ≤ kernelStart + toKernel.sysSize

/-- There are frames enough for both processes. -/
theorem enough_frames (hsize : kernelStart + k.sysSize + k.usrSize < 0x90000) :
    34 ≤ k.initMm.allocatable.length := by
  obtain ⟨-, hlast, -, -⟩ := initMm_spec hsize
  have hgdt : gdtFrame = 0x90 := rfl
  -- those after the screen are all free
  have hsub : List.range' 0xb9 34 ⊆ k.initMm.allocatable := fun f hf => by
    rw [List.mem_range'_1] at hf
    refine mem_allocatable.mpr ⟨by omega, by unfold totalPages; omega, ?_⟩
    have hlast' : ¬(k.initMm.firstKernel ≤ f ∧ f < k.initMm.lastKernel) := by omega
    change Function.update (Function.update (fun i => if k.initMm.firstKernel ≤ i ∧
      i < k.initMm.lastKernel then FrameState.usedFrame else if i < totalPages then .freeFrame
      else k.physMem i) gdtFrame .usedFrame) screenFrame .usedFrame f = .freeFrame
    rw [Function.update_of_ne (by unfold screenFrame; omega), Function.update_of_ne (by omega),
      if_neg hlast', if_pos (by unfold totalPages; omega)]
  have hlen := List.Nodup.length_le_of_subset (List.nodup_range' 1) hsub
  rwa [List.length_range'] at hlen

/-- The kernel before it creates the processes. -/
def Kernel.prepared (k : Kernel) (img : Image) : Kernel :=
  ({ k with tssEsp0 := img.initialEsp, msrEsp := img.initialEsp }.initMm).initSched img

theorem main_eq : k.main img = ((k.prepared img).initIdle img).initTask1.copyUserImage := rfl

/-- The header of the image is as it was. -/
theorem prepared_sizes (l : Loaded img) : (l.prepared img).sysSize = l.sysSize ∧
    (l.prepared img).usrSize = l.usrSize := by
  have h1 := l.readyqueue_ge
  have h2 := l.readyqueue_le
  have h3 := l.size_lt
  have hstart : kernelStart = 0x10000 := rfl
  have happ : ∀ a : Word, kernelStart ≤ a.toNat → a.toNat + 4 ≤ kernelStart + 8 →
      Apart (img.readyqueue) a ∧ Apart (img.readyqueue + 4) a := fun a ha ha' => by
    unfold Apart
    bv_omega
  have hload : ∀ a : Word, kernelStart ≤ a.toNat → a.toNat + 4 ≤ kernelStart + 8 →
      load32 (l.prepared img).mem a = load32 l.mem a := fun a ha ha' => by
    change load32 (store32 (store32 l.mem img.readyqueue img.readyqueue) (img.readyqueue + 4)
      img.readyqueue) a = _
    rw [load32_store32_of_apart (happ a ha ha').2, load32_store32_of_apart (happ a ha ha').1]
  constructor
  · rw [Kernel.sysSize, Kernel.sysSize, hload _ (by decide) (by decide)]
  · rw [Kernel.usrSize, Kernel.usrSize, hload _ (by decide) (by decide)]

/-- The frames of neither process are touched by anything that `init_task1` writes to. -/
theorem initWords_other {first last d s u p f : Nat} {rest : List Nat} {T : Nat → Nat → Word}
    (hd : f ≠ d) (hs : f ≠ s) (hu : f ≠ u) (hp : f ≠ p) :
    initWords first last d s u p rest T f = T f := by
  simp only [initWords, put_of_frame_ne hp, put_of_frame_ne hs, put_of_frame_ne hd,
    Function.update_of_ne hu, Function.update_of_ne hs, Function.update_of_ne hd]

/-- **The copy of the user image does not reach the first four megabytes**, in which
`alloc_frame` finds its frames. -/
theorem copyUserImage_slot (hsize : kernelStart + k.sysSize + k.usrSize < 0x90000) {f i : Nat}
    (hf : f < 1024) (hi : i < tableSize) :
    load32 k.copyUserImage.mem (slot f i) = load32 k.mem (slot f i) := by
  have hstart : kernelStart = 0x10000 := rfl
  have htab : tableSize = 1024 := rfl
  have hslot : (slot f i).toNat = f * 4096 + 4 * i := by
    rw [slot, BitVec.toNat_ofNat, Nat.mod_eq_of_lt (by omega)]
  have hsrc : (BitVec.ofNat 32 (kernelStart + k.sysSize)).toNat = kernelStart + k.sysSize := by
    rw [BitVec.toNat_ofNat, Nat.mod_eq_of_lt (by omega)]
  -- the image goes to the fifth megabyte
  have hdst : (BitVec.ofNat 32 lUserStart).toNat = 0x400000 := by decide
  have hcopy := @copyFlat_spec k.mem (BitVec.ofNat 32 (kernelStart + k.sysSize))
    (BitVec.ofNat 32 lUserStart) k.usrSize (by omega) (by omega) (by omega) (by omega)
  refine load32_congr fun x hx => hcopy.outside x ?_
  bv_omega

/-- The copy changes nothing but memory. -/
theorem copyUserImage_fields : k.copyUserImage.cr3 = k.cr3 ∧
    k.copyUserImage.initTask = k.initTask ∧ k.copyUserImage.firstKernel = k.firstKernel ∧
    k.copyUserImage.lastKernel = k.lastKernel := ⟨rfl, rfl, rfl, rfl⟩

/-- **The processes after boot**, the frames of the first one being `fr`, and those of the
idle one `di` and `pi`. -/
structure Booted (img : Image) (di pi : Nat) (fr : Frames) (k : Kernel) : Prop where
  /-- The tables of the first process. -/
  tables : InitTables k.firstKernel k.lastKernel fr k
  /-- Its frames are in the first four megabytes. -/
  lt : ∀ f ∈ [fr.dir, fr.spt, fr.upt, fr.pcb, di, pi], f < 1024
  /-- The two PCBs are different frames. -/
  ne : pi ≠ fr.pcb
  /-- Nothing has a page for the directory of the idle process. -/
  dir_unmapped : ¬Ident k.firstKernel k.lastKernel fr di
  /-- Nothing has a page for its PCB. -/
  pcb_unmapped : ¬Ident k.firstKernel k.lastKernel fr pi
  /-- The kernel knows the idle process. -/
  idleTask : k.idleTask = frameAddr pi
  /-- Its PCB names the directory. -/
  idle_dir : load32 k.mem (slot pi 1) = frameAddr di
  /-- The saved stack pointer. -/
  idle_esp : load32 k.mem (slot pi 5) = slot pi 1022
  /-- The forged frame pointer. -/
  idle_ebp : load32 k.mem (slot pi 1022) = 0
  /-- The forged return address. -/
  idle_eip : load32 k.mem (slot pi 1023) = img.cpuIdle

/-- The tables do not change with the rest of memory. -/
theorem InitTables.congr {first last : Nat} {fr : Frames} {k' : Kernel}
    (h : InitTables first last fr k) (hlt : ∀ f ∈ [fr.dir, fr.spt, fr.upt, fr.pcb], f < 1024)
    (hmem : ∀ f i, f < 1024 → i < tableSize → load32 k'.mem (slot f i) = load32 k.mem (slot f i))
    (hcr3 : k'.cr3 = k.cr3) (htask : k'.initTask = k.initTask)
    (hfirst : k'.firstKernel = k.firstKernel) (hlast : k'.lastKernel = k.lastKernel) :
    InitTables first last fr k' := by
  have hd := fun i => hmem fr.dir i (hlt _ (by simp))
  have hs := fun i => hmem fr.spt i (hlt _ (by simp))
  have hu := fun i => hmem fr.upt i (hlt _ (by simp))
  have hp := fun i => hmem fr.pcb i (hlt _ (by simp))
  have h20 : numPagData = 20 := rfl
  have h8 : numPagCode = 8 := rfl
  have htab : tableSize = 1024 := rfl
  constructor
  · rw [hd 0 (by decide), h.dir_zero]
  · rw [hd 1 (by decide), h.dir_one]
  · intro i hi h2
    rw [hd i hi, h.dir_other i hi h2]
  · intro i hi hid
    rw [hs i hi, h.spt_ident i hi hid]
  · intro i hi hid
    rw [hs i hi, h.spt_other i hi hid]
  · intro i hi
    rw [hu i (by omega), h.upt_data i hi]
  · intro i hi
    rw [hu _ (by omega), h.upt_code i hi]
  · intro i hi h28
    rw [hu i hi, h.upt_other i hi h28]
  · rw [hp 1 (by decide), h.pcb_dir]
  · rw [hcr3, h.cr3]
  · rw [htask, h.initTask]
  · rw [hfirst, h.first]
  · rw [hlast, h.last]

/-- The words that neither `init_idle` nor `init_task1` changes. -/
theorem boot_sizes {first last di pi d s u p b : Nat} {rest : List Nat} {T : Nat → Nat → Word}
    {w : Word} {k' : Kernel}
    (h : Has first last (rest.drop (numPagCode + numPagData))
      (initWords first last d s u p rest (idleWords img b di pi w T)) k')
    (hT : Sees k.mem T) (hne : ∀ f ∈ [d, s, u, p, di, pi], 16 < f) :
    k'.sysSize = k.sysSize ∧ k'.usrSize = k.usrSize := by
  have hdi := hne di (by simp)
  have hpi := hne pi (by simp)
  have hd := hne d (by simp)
  have hs := hne s (by simp)
  have hu := hne u (by simp)
  have hp := hne p (by simp)
  have hword : ∀ i < 2, load32 k'.mem (slot 16 i) = load32 k.mem (slot 16 i) := fun i hi => by
    have hslot : IsSlot 16 i := ⟨by decide, by unfold tableSize; omega⟩
    rw [h.sees 16 i hslot, initWords_other (by omega) (by omega) (by omega) (by omega),
      idleWords_other (by omega) (by omega) (by omega) (by omega), hT 16 i hslot]
  exact ⟨congrArg BitVec.toNat (hword 0 (by decide)), congrArg BitVec.toNat (hword 1 (by decide))⟩

/-- The structures of both processes are the first frames that are allocated. -/
theorem structures_subset {di pi d s u p : Nat} {rest : List Nat} :
    [d, s, u, p, di, pi] ⊆ di :: pi :: d :: s :: u :: p :: rest := by
  intro f hf
  simp only [List.mem_cons, List.not_mem_nil, or_false] at hf ⊢
  tauto

/-- A frame that is not of the kernel, and not of the first process, has no page. -/
theorem not_ident {first last f : Nat} {fr : Frames}
    (hf : last ≤ f ∧ f < 1024 ∧ f ≠ gdtFrame ∧ f ≠ screenFrame) (hd : f ≠ fr.dir)
    (hs : f ≠ fr.spt) (hu : f ≠ fr.upt) (hp : f ≠ fr.pcb) : ¬Ident first last fr f := by
  obtain ⟨h1, -, h2, h3⟩ := hf
  rintro (⟨-, hlt⟩ | h | h | h | h | h | h)
  · omega
  · exact h2 h
  · exact h3 h
  · exact hd h
  · exact hs h
  · exact hu h
  · exact hp h

/-- The frames that `alloc_frame` gives out after `init_mm`. -/
theorem Loaded.mem_allocatable (l : Loaded img) {f : Nat} (hf : f ∈ l.initMm.allocatable) :
    16 < f ∧ l.initMm.lastKernel ≤ f ∧ f < 1024 ∧ f ≠ gdtFrame ∧ f ≠ screenFrame := by
  obtain ⟨-, -, hgdt, hscreen⟩ := initMm_spec l.size_lt
  obtain ⟨h1, h2, -⟩ := Base.mem_allocatable.mp hf
  have hlast : l.initMm.lastKernel =
      (kernelStart + l.sysSize + l.usrSize) % 2 ^ 32 / 4096 + 1 := rfl
  have hstart : kernelStart = 0x10000 := rfl
  have hsize := l.size_lt
  refine ⟨by omega, h1, h2, fun heq => ?_, fun heq => ?_⟩
  · exact hgdt (heq ▸ hf)
  · exact hscreen (heq ▸ hf)

/-- **What boot leaves behind**, when the first frames are these. -/
theorem Loaded.booted (l : Loaded img) {di pi d s u p : Nat} {rest : List Nat}
    (hfs : l.initMm.allocatable = di :: pi :: d :: s :: u :: p :: rest)
    (hfree : 34 ≤ l.initMm.allocatable.length) :
    Booted img di pi (framesOf d s u p rest) (l.main img) := by
  obtain ⟨hle, hlast, -, -⟩ := initMm_spec l.size_lt
  have hmem : ∀ f ∈ di :: pi :: d :: s :: u :: p :: rest, 16 < f ∧ l.initMm.lastKernel ≤ f ∧
      f < 1024 ∧ f ≠ gdtFrame ∧ f ≠ screenFrame := fun f hf => l.mem_allocatable (hfs ▸ hf)
  have hpi := hmem pi (by simp)
  -- `init_idle` runs first, on memory of which nothing is known
  have hpre : Has l.initMm.firstKernel l.initMm.lastKernel (di :: pi :: d :: s :: u :: p :: rest)
      (contents (l.prepared img).mem) (l.prepared img) := ⟨hfs, sees_contents _, rfl, rfl⟩
  obtain ⟨b, w, h1, hidle⟩ := @has_initIdle img _ _ _ _ _ _ _ hpre (hmem di (by simp)).2.2.1
    hpi.2.2.1
  have hok : FramesOk d s u p rest := by
    refine framesOk_of_allocatable h1.free ?_
    rw [hfs, List.length_cons, List.length_cons] at hfree
    rw [h1.free]
    omega
  obtain ⟨h2, -, -⟩ := has_initTask1 h1 hok hle hlast
  have htables := initTask1_tables h1 hok hle hlast
  -- the sizes are in the kernel image, which has none of these frames
  obtain ⟨hsys, husr⟩ := boot_sizes h2 (sees_contents _) fun f hf =>
    (hmem f (structures_subset hf)).1
  obtain ⟨hsys', husr'⟩ := prepared_sizes l
  have haside := @initTask1_aside ((l.prepared img).initIdle img)
  generalize hk₂ : ((l.prepared img).initIdle img).initTask1 = k₂ at h2 htables hsys husr haside
  have hmain : l.main img = k₂.copyUserImage := by rw [main_eq, hk₂]
  have hsize : kernelStart + k₂.sysSize + k₂.usrSize < 0x90000 := by
    rw [hsys, husr, hsys', husr']
    exact l.size_lt
  -- the PCB of the idle process is as `init_idle` has left it
  have hnd := @nodup_allocatable l.initMm
  rw [hfs] at hnd
  simp only [List.nodup_cons, List.mem_cons, not_or] at hnd
  obtain ⟨⟨-, hdid, hdis, hdiu, hdip, -⟩, ⟨hpid, hpis, hpiu, hpip, -⟩, -⟩ := hnd
  have hpcb : ∀ i < tableSize, load32 (l.main img).mem (slot pi i) = idleWords img b di pi w
      (contents (l.prepared img).mem) pi i := fun i hi => by
    rw [hmain, copyUserImage_slot hsize hpi.2.2.1 hi, h2.sees pi i ⟨by omega, hi⟩,
      initWords_other hpid hpis hpiu hpip]
  obtain ⟨hdir, hesp, hebp, heip⟩ := @idleWords_pcb img di pi (contents (l.prepared img).mem) b w
  have hlt : ∀ f ∈ [d, s, u, p, di, pi], f < 1024 := fun f hf =>
    (hmem f (structures_subset hf)).2.2.1
  obtain ⟨hcr3, htask, hfirst, hlast⟩ := @copyUserImage_fields k₂
  have hfirst' : (l.main img).firstKernel = l.initMm.firstKernel := by
    rw [hmain, hfirst, htables.first]
  have hlast' : (l.main img).lastKernel = l.initMm.lastKernel := by
    rw [hmain, hlast, htables.last]
  refine ⟨?_, hlt, hpip, ?_, ?_, ?_, ?_, ?_, ?_, ?_⟩
  · rw [hfirst', hlast', hmain]
    have hlt₄ : ∀ f ∈ [d, s, u, p], f < 1024 := fun f hf =>
      hlt f (List.mem_append_left [di, pi] hf)
    exact htables.congr hlt₄ (fun f i hf hi => copyUserImage_slot hsize hf hi) hcr3 htask hfirst
      hlast
  · rw [hfirst', hlast']
    exact not_ident (hmem di (by simp)).2 hdid hdis hdiu hdip
  · rw [hfirst', hlast']
    exact not_ident hpi.2 hpid hpis hpiu hpip
  · rw [idleTask_eq_aside, hmain, copyUserImage_aside, haside, ← idleTask_eq_aside, hidle]
  · rw [hpcb 1 (by decide), hdir]
  · rw [hpcb 5 (by decide), hesp]
  · rw [hpcb 1022 (by decide), hebp]
  · rw [hpcb 1023 (by decide), heip]

/-- **What boot leaves behind**, for every image. -/
theorem main_booted (l : Loaded img) : ∃ di pi fr, Booted img di pi fr (l.main img) := by
  have hfree := enough_frames l.size_lt
  match hfs : l.initMm.allocatable, hfree with
  | di :: pi :: d :: s :: u :: p :: rest, hfree =>
    exact ⟨di, pi, framesOf d s u p rest, l.booted hfs (by rw [hfs]; exact hfree)⟩

/-! ### A usable address space -/

/-- The frame holds the PCB, the directory or a page table of the process. -/
def Kernel.Holds (k : Kernel) (task : Word) (f : Nat) : Prop :=
  f = task.toNat / 4096 ∨ f = (k.getDIR task).toNat / 4096 ∨
    ∃ i < tableSize, (decode (load32 k.mem (entryAddr (k.getDIR task) i))).present = true ∧
      f = (decode (load32 k.mem (entryAddr (k.getDIR task) i))).base

/-- The page table maps the page with the number of the frame to that frame, and not for
user mode. -/
def SelfMapped (m : Mem) (pt : Word) (f : Nat) : Prop :=
  let e := decode (load32 m (entryAddr pt f))
  f < tableSize ∧ e.present = true ∧ e.user = false ∧ e.base = f

/-- **Both processes can run**: in their own address space, and in the kernel with the
structures of either. -/
structure Usable (k : Kernel) : Prop where
  /-- Paging is on. -/
  paging : k.cr0.getLsbD 31 = true
  /-- The directory of the first process is loaded. -/
  cr3 : k.cr3 = k.getDIR k.initTask
  /-- The idle process has the page table of the kernel from the first process. -/
  shared : load32 k.mem (k.getDIR k.idleTask) = load32 k.mem (k.getDIR k.initTask)
  /-- This table is present. -/
  present : (decode (load32 k.mem (k.getDIR k.initTask))).present = true
  /-- The table has the structures of both processes. -/
  mapped : ∀ f, k.Holds k.initTask f ∨ k.Holds k.idleTask f →
    SelfMapped k.mem (k.getPT k.initTask) f

/-- The page table of the first process for the kernel. -/
theorem InitTables.getPT {first last : Nat} {fr : Frames} (h : InitTables first last fr k)
    (hspt : fr.spt < 2 ^ 20) : k.getPT k.initTask = frameAddr fr.spt := by
  have h4 : frameAddr fr.pcb + 4 = slot fr.pcb 1 := frameAddr_add fr.pcb 1
  have hdir : k.getDIR k.initTask = slot fr.dir 0 := by
    rw [Kernel.getDIR, h.initTask, h4, h.pcb_dir, frameAddr_eq]
  rw [Kernel.getPT, hdir, h.dir_zero, decode_encode_of_lt hspt]

/-- **The idle process is not in the table of the kernel**: neither its directory nor its
PCB has a page there. -/
theorem main_idle_unmapped (l : Loaded img) :
    ¬SelfMapped (l.main img).mem ((l.main img).getPT (l.main img).initTask)
        ((l.main img).idleTask.toNat / 4096) ∧
      ¬SelfMapped (l.main img).mem ((l.main img).getPT (l.main img).initTask)
        (((l.main img).getDIR (l.main img).idleTask).toNat / 4096) := by
  obtain ⟨di, pi, fr, hb⟩ := main_booted l
  have hspt := hb.lt fr.spt (by simp)
  have hdi := hb.lt di (by simp)
  have hpi := hb.lt pi (by simp)
  have h4 : frameAddr pi + 4 = slot pi 1 := frameAddr_add pi 1
  -- an entry of a page that is not mapped is zero
  have hzero : ∀ f < 1024, ¬Ident (l.main img).firstKernel (l.main img).lastKernel fr f →
      ¬SelfMapped (l.main img).mem (frameAddr fr.spt) f := by
    rintro f hf hid ⟨-, hpresent, -⟩
    rw [entryAddr_eq, hb.tables.spt_other f hf hid, decode_zero] at hpresent
    exact absurd hpresent (by decide)
  rw [hb.tables.getPT (by omega), Kernel.getDIR, hb.idleTask, h4, hb.idle_dir,
    frameAddr_div (by omega), frameAddr_div (by omega)]
  exact ⟨hzero pi hpi hb.pcb_unmapped, hzero di hdi hb.dir_unmapped⟩

/-- The paging bit does not matter to the PCB of the idle process. -/
theorem Usable.idle_mapped (h : Usable k.setPeFlag) :
    SelfMapped k.mem (k.getPT k.initTask) (k.idleTask.toNat / 4096) :=
  h.mapped _ (Or.inr (Or.inl rfl))

/-- **Boot never leaves a usable address space**, whatever the size of the image. It would
not if it called `set_pe_flag`, either. -/
theorem main_never_usable (l : Loaded img) :
    ¬Usable (l.main img) ∧ ¬Usable (l.main img).setPeFlag := by
  constructor
  · intro hu
    have hpaging := hu.paging
    rw [main_cr0, l.cr0_eq] at hpaging
    exact absurd hpaging (by decide)
  · intro hu
    exact (main_idle_unmapped l).1 hu.idle_mapped

/-- A kernel image. -/
def sampleImage : Image where
  area :=
    { base := 0
      espField := 20
      afterInner := 0x10100
      taskSwitch := 0x10200
      innerTaskSwitch := 0x10300
      switchStack := 0x10400
      afterSwitch := 0x10500
      base_le := by decide
      espField_le := by decide }
  cpuIdle := 0x10600
  initialEsp := 0x12000
  readyqueue := 0x12000
  base_eq := rfl
  espField_eq := rfl
  cpuIdle_ne := by decide

/-- The kernel that the boot sector has loaded, with three pages of system image and no
user image. -/
def sampleLoaded : Loaded sampleImage where
  toKernel := { blankKernel with cpu :=
    { blankKernel.cpu with mem := store32 blankKernel.mem (BitVec.ofNat 32 kernelStart) 0x3000 } }
  cr0_eq := rfl
  size_lt := by decide
  readyqueue_ge := by decide
  readyqueue_le := by decide

/-- The case of this image. -/
theorem sample_not_usable : (sampleLoaded.main sampleImage).cr0 = 1 ∧
    ¬Usable (sampleLoaded.main sampleImage) := by
  have hcr0 : (sampleLoaded.main sampleImage).cr0 = 1 := main_cr0
  refine ⟨hcr0, fun hu => ?_⟩
  have hpaging := hu.paging
  rw [hcr0] at hpaging
  exact absurd hpaging (by decide)

end Zeos.Base
