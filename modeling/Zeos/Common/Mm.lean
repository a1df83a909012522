import Zeos.Lib.Loop
import Zeos.Common.Utils

/-!
# Memory management

The part of `mm.c` that the kernels with processes have in common: the bytemap of
physical frames, the page directories and page tables – one of each for every
slot of the task array – and the functions that allocate frames and edit page
tables. The kernels differ in where the user pages are (`Zeos.UserLayout`), in
their `init_table_pages`, and in nothing else here.

Directories have one entry in use, the one for the first four megabytes, which
names the page table; both are arrays indexed by task, so a pointer into either
of them is a task index.

`alloc_frame` steps by two from `NUM_PAG_KERNEL` and `free_frame` refuses
`NUM_PAG_KERNEL` itself. `Zeos.Slot` names the frames the former can return, and
`Zeos.allocFrame_cases` says everything a call does.
-/

namespace Zeos

open ByteMem Paging Loop

/-! ### Constants -/

/-- `NR_TASKS`: the number of slots of the task array. -/
abbrev nrTasks : Nat := 10

/-- A slot of the task array: a PCB, and the directory and page table that go
with it. -/
abbrev Task := Fin nrTasks

instance : NeZero nrTasks := ⟨by decide⟩

/-- `TOTAL_PAGES` -/
def totalPages : Nat := 1024

/-- `NUM_PAG_KERNEL` -/
def numPagKernel : Nat := 256

/-- `NUM_PAG_CODE` -/
def numPagCode : Nat := 8

/-- `NUM_PAG_DATA` -/
def numPagData : Nat := 20

/-- Where the user pages of a kernel are. -/
structure UserLayout where
  /-- `PAG_LOG_INIT_CODE` -/
  pagLogInitCode : Nat
  /-- `PAG_LOG_INIT_DATA` -/
  pagLogInitData : Nat

/-! ### State -/

/-- An entry of the bytemap of frames. -/
inductive FrameState
  /-- `FREE_FRAME` -/
  | freeFrame
  /-- `USED_FRAME` -/
  | usedFrame
deriving DecidableEq

/-- The entry of a page directory for the first four megabytes. -/
structure DirEntry where
  /-- `pbase_addr`: the page table, as an index into `pagusr_table`. -/
  table : Task
  /-- The access bits. -/
  present : Bool
  /-- The access bits. -/
  rw : Bool
  /-- The access bits. -/
  user : Bool

/-- The state memory management works on. -/
structure Mm where
  /-- `phys_mem` -/
  physMem : Nat → FrameState
  /-- `dir_pages` -/
  dirPages : Task → DirEntry
  /-- `pagusr_table` -/
  pagusrTable : Task → Table
  /-- The contents of the frames, and the translation cache. -/
  mmu : Mmu
  /-- The directory loaded in `CR3`. -/
  cr3 : Task
  /-- The paging bit of `CR0`. -/
  paging : Bool

namespace Mm

variable (mm : Mm)

/-- The page table addresses are translated through. -/
def activeTable : Task := (mm.dirPages mm.cr3).table

/-- `set_cr3`: load a directory, which empties the translation cache. -/
def setCr3 (dir : Task) : Mm := { mm with cr3 := dir, mmu := mm.mmu.flush }

/-- `set_pe_flag` -/
def setPeFlag : Mm := { mm with paging := true }

/-! ### The bytemap -/

/-- `init_frames`: the kernel frames are in use, the others are free. -/
def initFrames : Mm :=
  { mm with physMem := fun i =>
      if i < numPagKernel then .usedFrame
      else if i < totalPages then .freeFrame
      else mm.physMem i }

/-- The search loop of `alloc_frame`, which steps by two. -/
def findFrame (physMem : Nat → FrameState) (i : Nat) : Option Nat :=
  if i < totalPages then
    if physMem i = .freeFrame then some i else findFrame physMem (i + 2)
  else none
termination_by totalPages - i

/-- `alloc_frame`: the first free frame found, marked as used, or `-1`. -/
def allocFrame : Int × Mm :=
  match findFrame mm.physMem numPagKernel with
  | some i => (i, { mm with physMem := Function.update mm.physMem i .usedFrame })
  | none => (-1, mm)

/-- `free_frame` -/
def freeFrame (frame : Nat) : Mm :=
  if numPagKernel < frame ∧ frame < totalPages then
    { mm with physMem := Function.update mm.physMem frame .freeFrame }
  else mm

/-! ### Page tables -/

/-- `bits.pbase_addr = frame`: the field has twenty bits. -/
def pbaseAddr (frame : Int) : Nat := (frame % 2 ^ 20).toNat

/-- Write one entry of a page table. -/
def setEntry (pt : Task) (page : Nat) (e : Entry) : Mm :=
  { mm with pagusrTable :=
      Function.update mm.pagusrTable pt (Function.update (mm.pagusrTable pt) page e) }

/-- `set_ss_pag`: map a logical page to a frame, for reading and writing from user
mode. -/
def setSsPag (pt : Task) (page : Nat) (frame : Int) : Mm :=
  mm.setEntry pt page { base := pbaseAddr frame, present := true, rw := true, user := true }

/-- `del_ss_pag`: remove a mapping. -/
def delSsPag (pt : Task) (page : Nat) : Mm := mm.setEntry pt page Entry.zero

/-- `get_frame`: the frame a logical page is mapped to. -/
def getFrame (pt : Task) (page : Nat) : Nat := (mm.pagusrTable pt page).base

/-- `init_dir_pages`: every directory names the page table of its own slot. -/
def initDirPages : Mm :=
  { mm with dirPages := fun i => { table := i, present := true, rw := true, user := true } }

/-- The code loop of `set_user_pages`: one page allocated and mapped without write
access. -/
def setUserCodePage (ul : UserLayout) (pt : Task) (pag : Nat) : Mm :=
  let (newPhPag, mm) := mm.allocFrame
  mm.setEntry pt (ul.pagLogInitCode + pag)
    { base := pbaseAddr newPhPag, present := true, rw := false, user := true }

/-- The data loop of `set_user_pages`: one page allocated and mapped with write
access. -/
def setUserDataPage (ul : UserLayout) (pt : Task) (pag : Nat) : Mm :=
  let (newPhPag, mm) := mm.allocFrame
  mm.setEntry pt (ul.pagLogInitData + pag)
    { base := pbaseAddr newPhPag, present := true, rw := true, user := true }

/-- `set_user_pages`: the user pages of the initial process. -/
def setUserPages (ul : UserLayout) (pt : Task) : Mm :=
  forLoop numPagData (fun pag mm => mm.setUserDataPage ul pt pag)
    (forLoop numPagCode (fun pag mm => mm.setUserCodePage ul pt pag) mm)

/-- The entry `init_table_pages` gives a logical page before any guard page is
set up: kernel pages but the first are mapped to the frame of the same number, out
of reach of user mode. -/
def initEntry (i : Nat) : Entry :=
  if 1 ≤ i ∧ i < numPagKernel then { base := i, present := true, rw := true, user := false }
  else Entry.zero

/-- `copy_data` of one page of the running process to another. -/
def copyPage (start dest : Nat) : Mm :=
  let pt := mm.pagusrTable mm.activeTable
  { mm with mmu := copyLogical pt (start * pageBytes) (dest * pageBytes) pageBytes mm.mmu }

/-- One round of the loop in which a fork copies the data pages: a frame of the
child is mapped into the table of the parent, the page is copied through the
mapping, and the mapping is removed. -/
def copyThrough (parentPT : Task) (pag window : Nat) (frame : Int) : Mm :=
  let mm := mm.setSsPag parentPT window frame
  let mm := mm.copyPage pag window
  mm.delSsPag parentPT window

end Mm

/-- Loading a directory changes none. -/
theorem setCr3_dirPages {mm : Mm} {dir : Task} : (mm.setCr3 dir).dirPages = mm.dirPages := rfl

theorem setCr3_physMem {mm : Mm} {dir : Task} : (mm.setCr3 dir).physMem = mm.physMem := rfl

/-! ### What the allocator does -/

section Alloc

variable {mm : Mm} {f : Nat}

/-- The frames `alloc_frame` looks at. -/
def Slot (f : Nat) : Prop := numPagKernel ≤ f ∧ f < totalPages ∧ f % 2 = 0

instance : DecidablePred Slot := fun _ => inferInstanceAs (Decidable (_ ∧ _))

/-- The search returns the first free frame of the even ones from `i` on. -/
theorem findFrame_eq_some {phys : Nat → FrameState} {i : Nat}
    (h : Mm.findFrame phys i = some f) :
    i ≤ f ∧ f < totalPages ∧ f % 2 = i % 2 ∧ phys f = .freeFrame ∧
      ∀ g, i ≤ g → g < f → g % 2 = i % 2 → phys g = .usedFrame := by
  induction i using Mm.findFrame.induct phys with
  | case1 i hi hfree =>
    rw [Mm.findFrame, if_pos hi, if_pos hfree] at h
    obtain rfl : i = f := Option.some.inj h
    exact ⟨Nat.le_refl i, hi, rfl, hfree, fun g h1 h2 => by omega⟩
  | case2 i hi hused ih =>
    rw [Mm.findFrame, if_pos hi, if_neg hused] at h
    obtain ⟨h1, h2, h3, h4, h5⟩ := ih h
    refine ⟨by omega, h2, by omega, h4, fun g hg hgf hgi => ?_⟩
    by_cases hgeq : g = i
    · subst hgeq
      cases hg' : phys g with
      | freeFrame => exact absurd hg' hused
      | usedFrame => rfl
    · exact h5 g (by omega) hgf (by omega)
  | case3 i hi =>
    rw [Mm.findFrame, if_neg hi] at h
    exact absurd h (by simp)

/-- The search fails only when every even frame from `i` on is used. -/
theorem findFrame_eq_none {phys : Nat → FrameState} {i : Nat}
    (h : Mm.findFrame phys i = none) :
    ∀ g, i ≤ g → g < totalPages → g % 2 = i % 2 → phys g = .usedFrame := by
  induction i using Mm.findFrame.induct phys with
  | case1 i hi hfree =>
    rw [Mm.findFrame, if_pos hi, if_pos hfree] at h
    exact absurd h (by simp)
  | case2 i hi hused ih =>
    rw [Mm.findFrame, if_pos hi, if_neg hused] at h
    intro g hg hgt hgi
    by_cases hgeq : g = i
    · subst hgeq
      cases hg' : phys g with
      | freeFrame => exact absurd hg' hused
      | usedFrame => rfl
    · exact ih h g (by omega) hgt (by omega)
  | case3 i hi =>
    intro g hg hgt _
    omega

/-- **What a call to `alloc_frame` does**: it takes the least free slot, or there
is none and nothing happens. -/
theorem allocFrame_cases (mm : Mm) :
    (∃ f, Slot f ∧ mm.physMem f = .freeFrame ∧
      (∀ g, Slot g → g < f → mm.physMem g = .usedFrame) ∧
      mm.allocFrame =
        ((f : Int), { mm with physMem := Function.update mm.physMem f .usedFrame })) ∨
    ((∀ f, Slot f → mm.physMem f = .usedFrame) ∧ mm.allocFrame = (-1, mm)) := by
  unfold Mm.allocFrame
  cases h : Mm.findFrame mm.physMem numPagKernel with
  | some f =>
    obtain ⟨h1, h2, h3, h4, h5⟩ := findFrame_eq_some h
    have hk : numPagKernel % 2 = 0 := rfl
    exact Or.inl ⟨f, ⟨h1, h2, by omega⟩, h4,
      fun g hg hgf => h5 g hg.1 hgf (by rw [hg.2.2, hk]), rfl⟩
  | none =>
    have hk : numPagKernel % 2 = 0 := rfl
    exact Or.inr ⟨fun f hf => findFrame_eq_none h f hf.1 hf.2.1 (by rw [hf.2.2, hk]), rfl⟩

/-- What a call of `alloc_frame` has found. -/
def frameOf (r : Int) : Option Nat := if r = -1 then none else some r.toNat

theorem frameOf_natCast : frameOf (f : Int) = some f := by
  rw [frameOf, if_neg (by omega), Int.toNat_natCast]

/-- A frame number of the machine fits in an entry. -/
theorem pbaseAddr_of_lt (h : f < totalPages) : Mm.pbaseAddr (f : Int) = f := by
  unfold Mm.pbaseAddr
  unfold totalPages at h
  omega

end Alloc

end Zeos
