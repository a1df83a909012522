import Zeos.Base.Frames
import Zeos.Base.Write

/-!
# Giving the user pages back

`set_user_pages` fills the page table of the user pages, which is the second table of a
directory: its entries are numbered from the first user page on, the data pages from
entry `0` and the code pages behind them. `free_user_pages` is to undo the data part, but
numbers the same entries by logical pages, from `PAG_LOG_INIT_DATA` on. This is what the
kernels with a single page table do; here the number is that of the first entry *behind*
the table. So the function reads and clears twenty words of the next page of memory, frees
whatever frames these words name, and leaves the table as it is
(`Zeos.Base.free_user_pages_misses`).
-/

namespace Zeos.Base

open ByteMem Paging PageWalk Loop

namespace Kernel

variable (k : Kernel)

/-- The entry of the table that the loop of `free_user_pages` is at. -/
def freedEntry (pag : Nat) : Nat := pagLogInitData + pag

/-- One round of the loop of `free_user_pages`: the frame an entry names is freed, and the
entry is cleared. -/
def freeUserPage (pt : Word) (page : Nat) : Kernel :=
  let k := k.freeFrame (decode (load32 k.mem (entryAddr pt page))).base
  k.store (entryAddr pt page) 0

/-- `free_user_pages` -/
def freeUserPages (pt : Word) : Kernel :=
  forLoop numPagData (fun pag k => k.freeUserPage pt (freedEntry pag)) k

end Kernel

variable {k : Kernel} {pt : Word} {i j n lo : Nat}

/-! ### The entries of a table -/

/-- Different entries do not overlap. -/
theorem apart_entryAddr (hi : i < 2 ^ 29) (hj : j < 2 ^ 29) (hne : i ≠ j) :
    Apart (entryAddr pt i) (entryAddr pt j) := by
  have hcast : ∀ l : Nat, entryAddr pt l = pt + BitVec.ofNat 32 (4 * l) := fun l => by
    rw [entryAddr, ← BitVec.ofInt_natCast]
    push_cast
    rfl
  rw [hcast, hcast]
  constructor <;> bv_omega

/-- Storing an entry. -/
theorem load_store_entry {w : Word} (hi : i < 2 ^ 29) (hj : j < 2 ^ 29) (hne : i ≠ j) :
    load32 (k.store (entryAddr pt j) w).mem (entryAddr pt i) =
      load32 k.mem (entryAddr pt i) :=
  load32_store32_of_apart (apart_entryAddr hj hi (Ne.symm hne))

/-- Memory is not concerned by the allocation of a frame. -/
theorem allocFrame_mem : k.allocFrame.2.mem = k.mem := by
  cases h : k.allocatable with
  | nil => rw [allocFrame_of_nil h]
  | cons f fs => rw [(allocFrame_of_cons h).1]

/-- Memory is not concerned by freeing a frame. -/
theorem freeFrame_mem {f : Nat} : (k.freeFrame f).mem = k.mem := by
  unfold Kernel.freeFrame
  split <;> rfl

/-- **A loop over the user pages maps its pages**, whatever frames it gets. -/
theorem present_setUserPage (rw : Bool) (hi : i < n) (hn : n ≤ numPagData) :
    (decode (load32 (forLoop n (fun pag k => k.setUserPage pt rw pag) k).mem
      (entryAddr pt i))).present = true := by
  induction n with
  | zero => omega
  | succ n ih =>
    have hdata : numPagData = 20 := rfl
    rw [forLoop_succ, Kernel.setUserPage]
    by_cases hin : i = n
    · subst hin
      dsimp only
      rw [Kernel.store, load32_store32, decode_encode]
    · dsimp only
      rw [load_store_entry (by omega) (by omega) hin, allocFrame_mem]
      exact ih (by omega) (by omega)

/-- **The data pages are mapped by `set_user_pages`.** -/
theorem present_setUserPages (hi : i < numPagData) :
    (decode (load32 (k.setUserPages pt).mem (entryAddr pt i))).present = true := by
  rw [Kernel.setUserPages]
  exact present_setUserPage true hi (le_refl numPagData)

/-! ### What is cleared -/

/-- Every entry that `free_user_pages` accesses is behind the table. -/
theorem freedEntry_ge (pag : Nat) : totalPages ≤ Kernel.freedEntry pag :=
  Nat.le_add_right _ _

/-- A round of `free_user_pages` leaves the table as it is. -/
theorem entry_freeUserPage {pag : Nat} (hi : i < totalPages) (hpag : pag < numPagData) :
    load32 (k.freeUserPage pt (Kernel.freedEntry pag)).mem (entryAddr pt i) =
      load32 k.mem (entryAddr pt i) := by
  have htotal : totalPages = 1024 := rfl
  have hdata : numPagData = 20 := rfl
  have hentry : Kernel.freedEntry pag = 1024 + pag := rfl
  rw [Kernel.freeUserPage, load_store_entry (by omega) (by omega) (by omega), freeFrame_mem]

/-- **`free_user_pages` leaves the table as it is.** -/
theorem entry_freeUserPages (hi : i < totalPages) :
    load32 (k.freeUserPages pt).mem (entryAddr pt i) = load32 k.mem (entryAddr pt i) := by
  have key : ∀ n ≤ numPagData,
      load32 (forLoop n (fun pag k => k.freeUserPage pt (Kernel.freedEntry pag)) k).mem
        (entryAddr pt i) = load32 k.mem (entryAddr pt i) := fun n hn => by
    induction n with
    | zero => rfl
    | succ n ih =>
      rw [forLoop_succ, entry_freeUserPage hi (by omega)]
      exact ih (by omega)
  exact key numPagData (le_refl _)

/-- **`free_user_pages` undoes the data part of `set_user_pages`**: the frames of the data
pages are free again and the others are what they were, the entries of the data pages are
cleared and the others are what they were, and only entries of the table are accessed. -/
structure UserPagesFreed (k : Kernel) (pt : Word) : Prop where
  /-- Exactly the frames of the data pages are free again. -/
  frames : ∀ f, ((k.setUserPages pt).freeUserPages pt).physMem f =
    if ∃ pag < numPagData, f = (decode (load32 (k.setUserPages pt).mem (entryAddr pt pag))).base
    then .freeFrame else (k.setUserPages pt).physMem f
  /-- Exactly the entries of the data pages are cleared. -/
  entries : ∀ i < totalPages,
    load32 ((k.setUserPages pt).freeUserPages pt).mem (entryAddr pt i) =
      if i < numPagData then 0 else load32 (k.setUserPages pt).mem (entryAddr pt i)
  /-- Nothing else is accessed. -/
  inside : ∀ pag < numPagData, Kernel.freedEntry pag < totalPages

/-- **`free_user_pages` misses the table**, whatever the table and the frames are: it
accesses entries behind it only, and all the data pages stay mapped to their frames. -/
theorem free_user_pages_misses (k : Kernel) (pt : Word) :
    (∀ pag < numPagData, totalPages ≤ Kernel.freedEntry pag) ∧
      (∀ i < totalPages, load32 ((k.setUserPages pt).freeUserPages pt).mem (entryAddr pt i) =
        load32 (k.setUserPages pt).mem (entryAddr pt i)) ∧
      (∀ i < numPagData, (decode (load32 ((k.setUserPages pt).freeUserPages pt).mem
        (entryAddr pt i))).present = true) ∧
      ¬UserPagesFreed k pt := by
  have hpresent : ∀ i < numPagData, (decode (load32 ((k.setUserPages pt).freeUserPages pt).mem
      (entryAddr pt i))).present = true := fun i hi => by
    rw [entry_freeUserPages (lt_of_lt_of_le hi (by decide))]
    exact present_setUserPages hi
  refine ⟨fun pag _ => freedEntry_ge pag, fun i hi => entry_freeUserPages hi, hpresent, ?_⟩
  intro h
  -- the first entry should be clear, and is present
  have hclear := h.entries 0 (by decide)
  rw [if_pos (by decide)] at hclear
  have h0 := hpresent 0 (by decide)
  rw [hclear, decode_zero] at h0
  exact absurd h0 (by decide)

/-- A cleared table and enough frames, and yet `free_user_pages` does not undo
`set_user_pages`. -/
theorem free_user_pages_fails :
    (∀ i < totalPages, load32 blankKernel.initMm.mem (entryAddr 0x200000 i) = 0) ∧
      numPagCode + numPagData ≤ blankKernel.initMm.allocatable.length ∧
      ¬UserPagesFreed blankKernel.initMm 0x200000 := by
  refine ⟨fun i _ => rfl, by decide +kernel, fun h => ?_⟩
  exact absurd (h.inside 0 (by decide)) (by decide)

end Zeos.Base
