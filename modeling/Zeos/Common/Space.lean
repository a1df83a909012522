import Mathlib.Data.List.GetD
import Mathlib.Data.List.Sort
import Zeos.Common.Mm

/-!
# Building address spaces

What the loops of `mm.c` and of the fork system calls amount to, in closed form.
A loop of `set_ss_pag` over consecutive pages overlays a stretch of a page table
(`Paging.overlay`), a loop of `alloc_frame` takes the free frames in order
(`Zeos.freeSlots`), and the loop that copies the data pages through temporary
mappings changes the contents of the child's frames and, apart from the
translation cache, nothing else (`Zeos.forLoop_copyThrough`).
-/

namespace Zeos

open ByteMem Paging Loop

/-! ### The free frames -/

section Slots

variable {phys : Nat → FrameState} {mm : Mm} {f : Nat} {fs : List Nat}

/-- The frames `alloc_frame` looks at, in its order. -/
def slots : List Nat := (List.range 384).map fun i => numPagKernel + 2 * i

theorem mem_slots : f ∈ slots ↔ Slot f := by
  simp only [slots, List.mem_map, List.mem_range, Slot, numPagKernel, totalPages]
  constructor
  · rintro ⟨i, hi, rfl⟩
    omega
  · rintro ⟨h1, h2, h3⟩
    exact ⟨(f - 256) / 2, by omega, by omega⟩

theorem length_slots : slots.length = 384 := by simp [slots]

theorem pairwise_slots : slots.Pairwise (· < ·) := by
  refine List.Pairwise.map _ (fun a b h => ?_) List.pairwise_lt_range
  omega

/-- The free frames `alloc_frame` can return, in the order in which it does. -/
def freeSlots (phys : Nat → FrameState) : List Nat :=
  slots.filter fun f => phys f = .freeFrame

theorem mem_freeSlots : f ∈ freeSlots phys ↔ Slot f ∧ phys f = .freeFrame := by
  simp [freeSlots, mem_slots]

theorem pairwise_freeSlots : (freeSlots phys).Pairwise (· < ·) :=
  pairwise_slots.filter _

theorem nodup_freeSlots : (freeSlots phys).Nodup :=
  pairwise_freeSlots.imp fun h => Nat.ne_of_lt h

/-- **`alloc_frame` takes the first free frame.** -/
theorem allocFrame_of_cons (h : freeSlots mm.physMem = f :: fs) :
    mm.allocFrame =
      ((f : Int), { mm with physMem := Function.update mm.physMem f .usedFrame }) := by
  have hf : f ∈ freeSlots mm.physMem := by simp [h]
  obtain ⟨hslot, hfree⟩ := mem_freeSlots.mp hf
  rcases allocFrame_cases mm with ⟨g, hg, hgfree, hleast, heq⟩ | ⟨hused, -⟩
  · have hgm : g ∈ freeSlots mm.physMem := mem_freeSlots.mpr ⟨hg, hgfree⟩
    have hp : (freeSlots mm.physMem).Pairwise (· < ·) := pairwise_freeSlots
    rw [h, List.pairwise_cons] at hp
    rw [h, List.mem_cons] at hgm
    rcases hgm with rfl | hgm
    · exact heq
    · have := hleast f hslot (hp.1 g hgm)
      rw [hfree] at this
      exact absurd this (by simp)
  · rw [hused f hslot] at hfree
    exact absurd hfree (by simp)

/-- Without a free frame `alloc_frame` fails, and changes nothing. -/
theorem allocFrame_of_nil (h : freeSlots mm.physMem = []) : mm.allocFrame = (-1, mm) := by
  rcases allocFrame_cases mm with ⟨g, hg, hfree, -, -⟩ | ⟨-, heq⟩
  · have hm : g ∈ freeSlots mm.physMem := mem_freeSlots.mpr ⟨hg, hfree⟩
    simp [h] at hm
  · exact heq

/-- Once the first free frame is taken, the others are left. -/
theorem freeSlots_update (h : freeSlots phys = f :: fs) :
    freeSlots (Function.update phys f .usedFrame) = fs := by
  have hnd : (freeSlots phys).Nodup := nodup_freeSlots
  rw [h, List.nodup_cons] at hnd
  have hsub : freeSlots (Function.update phys f .usedFrame) =
      (freeSlots phys).filter fun g => g ≠ f := by
    rw [freeSlots, freeSlots, List.filter_filter]
    refine List.filter_congr fun g _ => ?_
    by_cases hg : g = f
    · subst hg
      simp
    · simp [hg]
  rw [hsub, h, List.filter_cons_of_neg (by simp), List.filter_eq_self]
  intro g hg
  simpa using fun he : g = f => hnd.1 (he ▸ hg)

/-- The bytemap with some frames in one state. -/
def mark (phys : Nat → FrameState) (fs : List Nat) (s : FrameState) : Nat → FrameState :=
  fun f => if f ∈ fs then s else phys f

theorem mark_nil {s : FrameState} : mark phys [] s = phys := by
  funext f
  simp [mark]

theorem mark_cons {s : FrameState} :
    mark (Function.update phys f s) fs s = mark phys (f :: fs) s := by
  funext g
  by_cases hg : g = f
  · subst hg
    simp [mark]
  · simp [mark, hg]

theorem mark_append {s : FrameState} :
    Function.update (mark phys fs s) f s = mark phys (fs ++ [f]) s := by
  funext g
  by_cases hg : g = f
  · subst hg
    simp [mark]
  · simp [mark, hg]

/-- The values of `n` successive calls of `alloc_frame`. -/
def allocs : Nat → Mm → List Int
  | 0, _ => []
  | n + 1, mm => mm.allocFrame.1 :: allocs n mm.allocFrame.2

/-- Successive calls of `alloc_frame` succeed only as often as there are free
frames. -/
theorem le_of_allocs {n : Nat} (h : ∀ f ∈ allocs n mm, f ≠ -1) :
    n ≤ (freeSlots mm.physMem).length := by
  induction n generalizing mm with
  | zero => exact Nat.zero_le _
  | succ n ih =>
    simp only [allocs, List.forall_mem_cons] at h
    cases hf : freeSlots mm.physMem with
    | nil => exact absurd (by rw [allocFrame_of_nil hf]) h.1
    | cons f fs =>
      rw [allocFrame_of_cons hf] at h
      have hn := ih h.2
      rw [freeSlots_update hf] at hn
      rw [List.length_cons]
      omega

/-- **Successive calls of `alloc_frame`** return the free frames in order. -/
theorem allocs_eq {n : Nat} (h : n ≤ (freeSlots mm.physMem).length) :
    allocs n mm = ((freeSlots mm.physMem).take n).map Int.ofNat := by
  induction n generalizing mm with
  | zero => rfl
  | succ n ih =>
    cases hf : freeSlots mm.physMem with
    | nil => simp [hf] at h
    | cons f fs =>
      rw [hf, List.length_cons] at h
      have hfs := freeSlots_update hf
      rw [allocs, allocFrame_of_cons hf, List.take_succ_cons, List.map_cons]
      refine congrArg (List.cons (f : Int)) ?_
      rw [ih (by rw [hfs]; omega), hfs]

/-- Few used slots leave many free ones. -/
theorem length_freeSlots {us : List Nat}
    (h : ∀ f, Slot f → phys f = .usedFrame → f ∈ us) :
    384 ≤ (freeSlots phys).length + us.length := by
  have hnd : (slots.filter fun f => ¬(phys f = .freeFrame)).Nodup :=
    (pairwise_slots.imp fun h => Nat.ne_of_lt h).filter _
  have hsub : (slots.filter fun f => ¬(phys f = .freeFrame)) ⊆ us := by
    intro f hf
    simp only [List.mem_filter, decide_eq_true_eq] at hf
    refine h f (mem_slots.mp hf.1) ?_
    cases hs : phys f with
    | freeFrame => exact absurd hs hf.2
    | usedFrame => rfl
  have hused := (List.subperm_of_subset hnd hsub).length_le
  have hsum := List.length_eq_length_filter_add (l := slots) fun f => decide (phys f = .freeFrame)
  rw [length_slots] at hsum
  simp only [freeSlots]
  simp only [decide_not] at hused
  omega

end Slots

/-! ### Loops that write page tables -/

/-- The entry `set_ss_pag` writes. -/
def ssEntry (frame : Int) : Entry :=
  { base := Mm.pbaseAddr frame, present := true, rw := true, user := true }

section Tables

variable {mm : Mm} {pt : Task} {lo n : Nat}

/-- Replace a page table. -/
def Mm.setTable (mm : Mm) (pt : Task) (T : Table) : Mm :=
  { mm with pagusrTable := Function.update mm.pagusrTable pt T }

@[simp] theorem setTable_self {T : Table} : (mm.setTable pt T).pagusrTable pt = T := by
  simp [Mm.setTable]

theorem setTable_of_ne {T : Table} {t : Task} (h : t ≠ pt) :
    (mm.setTable pt T).pagusrTable t = mm.pagusrTable t := by
  simp [Mm.setTable, h]

theorem setTable_setTable {T T' : Table} :
    (mm.setTable pt T).setTable pt T' = mm.setTable pt T' := by
  simp [Mm.setTable, Function.update_idem]

theorem setTable_eq : mm.setTable pt (mm.pagusrTable pt) = mm := by
  simp [Mm.setTable]

/-- A loop that writes consecutive entries of one table overlays it. -/
theorem forLoop_setEntry {body : Nat → Mm → Mm} {e : Nat → Entry}
    (h : ∀ i < n, ∀ T, body i (mm.setTable pt T) = (mm.setTable pt T).setEntry pt (lo + i) (e i)) :
    forLoop n body mm = mm.setTable pt (overlay lo n e (mm.pagusrTable pt)) := by
  refine forLoop_induction (I := fun i m => m = mm.setTable pt
    (overlay lo i e (mm.pagusrTable pt))) ?_ ?_
  · rw [overlay_zero, setTable_eq]
  · rintro i m hi rfl
    rw [h i hi, Mm.setEntry, setTable_self, overlay_succ]
    exact setTable_setTable

/-- **The loops that share pages with another table.** -/
theorem forLoop_share (mm : Mm) (pt : Task) (lo n : Nat) {parent : Task} (hne : parent ≠ pt) :
    forLoop n (fun i mm => mm.setSsPag pt (lo + i) (mm.getFrame parent (lo + i))) mm =
      mm.setTable pt (overlay lo n (fun i => ssEntry (mm.getFrame parent (lo + i)))
        (mm.pagusrTable pt)) := by
  refine forLoop_setEntry fun i _ T => ?_
  rw [Mm.setSsPag, Mm.getFrame, setTable_of_ne hne]
  rfl

/-- Frames taken, and mapped to consecutive pages of one table. -/
def Mm.grant (mm : Mm) (pt : Task) (lo : Nat) (fs : List Nat) (mk : Int → Entry) : Mm :=
  { mm.setTable pt (overlay lo fs.length (fun i => mk (fs.getD i 0 : Nat)) (mm.pagusrTable pt)) with
    physMem := mark mm.physMem fs .usedFrame }

theorem grant_nil {mk : Int → Entry} : mm.grant pt lo [] mk = mm := by
  rw [Mm.grant, mark_nil]
  simp only [List.length_nil, overlay_zero, setTable_eq]

/-- One `alloc_frame` and one entry, before more of them. -/
theorem grant_cons {mk : Int → Entry} {f : Nat} {fs : List Nat}
    (h : freeSlots mm.physMem = f :: fs) {gs : List Nat} :
    (mm.allocFrame.2.setEntry pt lo (mk mm.allocFrame.1)).grant pt (lo + 1) gs mk =
      mm.grant pt lo (f :: gs) mk := by
  rw [allocFrame_of_cons h]
  simp only [Mm.grant, Mm.setEntry, Mm.setTable, Function.update_self, Function.update_idem,
    mark_cons]
  congr 2
  exact overlay_update (e := fun i => mk ((f :: gs).getD i 0 : Nat))

/-- The bytemap after one `alloc_frame` and one entry. -/
theorem freeSlots_alloc {e : Entry} {f : Nat} {fs : List Nat}
    (h : freeSlots mm.physMem = f :: fs) :
    freeSlots (mm.allocFrame.2.setEntry pt lo e).physMem = fs := by
  rw [allocFrame_of_cons h]
  exact freeSlots_update h

/-- **The loops that allocate pages** take the first free frames. -/
theorem forLoop_alloc (mm : Mm) (pt : Task) (lo n : Nat) (mk : Int → Entry)
    (h : n ≤ (freeSlots mm.physMem).length) :
    forLoop n (fun i mm => mm.allocFrame.2.setEntry pt (lo + i) (mk mm.allocFrame.1)) mm =
      mm.grant pt lo ((freeSlots mm.physMem).take n) mk := by
  induction n generalizing mm lo with
  | zero => rw [forLoop_zero, List.take_zero, grant_nil]
  | succ n ih =>
    cases hf : freeSlots mm.physMem with
    | nil => simp [hf] at h
    | cons f fs =>
      have hfs : freeSlots (mm.allocFrame.2.setEntry pt lo (mk mm.allocFrame.1)).physMem = fs :=
        freeSlots_alloc hf
      rw [hf, List.length_cons] at h
      rw [forLoop_succ_left, List.take_succ_cons, ← grant_cons hf, Nat.add_zero]
      have := ih (mm.allocFrame.2.setEntry pt lo (mk mm.allocFrame.1)) (lo + 1)
        (by rw [hfs]; omega)
      rw [hfs] at this
      rw [← this]
      simp only [Nat.add_assoc, Nat.add_comm 1]

/-- The frames left once the first free ones are taken. -/
theorem freeSlots_mark (phys : Nat → FrameState) (n : Nat) :
    freeSlots (mark phys ((freeSlots phys).take n) .usedFrame) = (freeSlots phys).drop n := by
  induction n generalizing phys with
  | zero => rw [List.take_zero, mark_nil, List.drop_zero]
  | succ n ih =>
    cases hf : freeSlots phys with
    | nil => rw [List.take_nil, mark_nil, hf, List.drop_nil]
    | cons f fs =>
      have := ih (Function.update phys f .usedFrame)
      rw [freeSlots_update hf, mark_cons] at this
      exact this

/-- A list given by a function, read at a position. -/
theorem getD_map_range {n i : Nat} {g : Nat → Nat} (hi : i < n) :
    ((List.range n).map g).getD i 0 = g i := by
  rw [List.getD_eq_getElem _ _ (by simpa using hi)]
  simp

/-- The entry `set_user_pages` writes for a code page. -/
def codeMk (frame : Int) : Entry :=
  { base := Mm.pbaseAddr frame, present := true, rw := false, user := true }

/-- **The user pages of an initial process**: the first free frames are its code,
the next ones its data. -/
theorem setUserPages_grant (mm : Mm) (ul : UserLayout) (pt : Task)
    (h : numPagCode + numPagData ≤ (freeSlots mm.physMem).length) :
    mm.setUserPages ul pt =
      (mm.grant pt ul.pagLogInitCode ((freeSlots mm.physMem).take numPagCode) codeMk).grant pt
        ul.pagLogInitData (((freeSlots mm.physMem).drop numPagCode).take numPagData) ssEntry := by
  have h1 := forLoop_alloc mm pt ul.pagLogInitCode numPagCode codeMk (by omega)
  set m₁ := mm.grant pt ul.pagLogInitCode ((freeSlots mm.physMem).take numPagCode) codeMk with hm₁
  have hfree : freeSlots m₁.physMem = (freeSlots mm.physMem).drop numPagCode :=
    freeSlots_mark mm.physMem numPagCode
  have h2 := forLoop_alloc m₁ pt ul.pagLogInitData numPagData ssEntry
    (by rw [hfree, List.length_drop]; omega)
  rw [hfree] at h2
  rw [← h2, ← h1]
  rfl

/-- The frames left after `set_user_pages`. -/
theorem freeSlots_setUserPages (mm : Mm) (ul : UserLayout) (pt : Task)
    (h : numPagCode + numPagData ≤ (freeSlots mm.physMem).length) :
    freeSlots (mm.setUserPages ul pt).physMem =
      (freeSlots mm.physMem).drop (numPagCode + numPagData) := by
  rw [setUserPages_grant mm ul pt h]
  have h1 := freeSlots_mark mm.physMem numPagCode
  have h2 := freeSlots_mark (mark mm.physMem ((freeSlots mm.physMem).take numPagCode) .usedFrame)
    numPagData
  rw [h1, List.drop_drop] at h2
  exact h2

/-- The frames that `free_frame` takes back. -/
def Returnable (f : Nat) : Prop := numPagKernel < f ∧ f < totalPages

instance : DecidablePred Returnable := fun _ => inferInstanceAs (Decidable (_ ∧ _))

/-- **The loops that give pages back**, with the frames that `free_frame` takes. -/
theorem forLoop_release (mm : Mm) (pt : Task) (lo n : Nat) {T : Table}
    (hT : mm.pagusrTable pt = T) :
    forLoop n (fun i mm => (mm.freeFrame (mm.getFrame pt (lo + i))).delSsPag pt (lo + i)) mm =
      { mm.setTable pt (overlay lo n (fun _ => Entry.zero) T) with
        physMem := mark mm.physMem (((List.range n).map fun i => (T (lo + i)).base).filter
          Returnable) .freeFrame } := by
  subst hT
  refine forLoop_induction (I := fun i m => m =
    { mm.setTable pt (overlay lo i (fun _ => Entry.zero) (mm.pagusrTable pt)) with
      physMem := mark mm.physMem (((List.range i).map fun i =>
        (mm.pagusrTable pt (lo + i)).base).filter Returnable) .freeFrame }) ?_ ?_
  · simp only [List.range_zero, List.map_nil, List.filter_nil, mark_nil, overlay_zero]
    rw [setTable_eq]
  · rintro i m hi rfl
    have hbase : overlay lo i (fun _ => Entry.zero) (mm.pagusrTable pt) (lo + i) =
        mm.pagusrTable pt (lo + i) := overlay_of_notMem (by omega)
    by_cases hf : Returnable (mm.pagusrTable pt (lo + i)).base
    · have hone : [(mm.pagusrTable pt (lo + i)).base].filter Returnable =
          [(mm.pagusrTable pt (lo + i)).base] := List.filter_cons_of_pos (by simpa using hf)
      have hacc : numPagKernel < (mm.pagusrTable pt (lo + i)).base ∧
          (mm.pagusrTable pt (lo + i)).base < totalPages := hf
      simp only [Mm.getFrame, hbase, Mm.freeFrame, if_pos hacc, Mm.delSsPag, Mm.setEntry,
        List.range_succ, List.map_append, List.map_cons, List.map_nil, List.filter_append, hone,
        ← mark_append, Mm.setTable, Function.update_self, Function.update_idem]
      rw [overlay_succ (e := fun _ => Entry.zero)]
    · have hone : [(mm.pagusrTable pt (lo + i)).base].filter Returnable = [] :=
        List.filter_cons_of_neg (by simpa using hf)
      have hacc : ¬(numPagKernel < (mm.pagusrTable pt (lo + i)).base ∧
          (mm.pagusrTable pt (lo + i)).base < totalPages) := hf
      simp only [Mm.getFrame, hbase, Mm.freeFrame, if_neg hacc, Mm.delSsPag, Mm.setEntry,
        List.range_succ, List.map_append, List.map_cons, List.map_nil, List.filter_append, hone,
        List.append_nil, Mm.setTable, Function.update_self, Function.update_idem]
      rw [overlay_succ (e := fun _ => Entry.zero)]

/-- Where `free_frame` takes them all. -/
theorem forLoop_free (mm : Mm) (pt : Task) (lo n : Nat) {T : Table} (hT : mm.pagusrTable pt = T)
    (h : ∀ i < n, Returnable (T (lo + i)).base) :
    forLoop n (fun i mm => (mm.freeFrame (mm.getFrame pt (lo + i))).delSsPag pt (lo + i)) mm =
      { mm.setTable pt (overlay lo n (fun _ => Entry.zero) T) with
        physMem := mark mm.physMem ((List.range n).map fun i => (T (lo + i)).base)
          .freeFrame } := by
  have hall : ((List.range n).map fun i => (T (lo + i)).base).filter Returnable =
      (List.range n).map fun i => (T (lo + i)).base := by
    rw [List.filter_eq_self]
    intro f hf
    obtain ⟨i, hi, rfl⟩ := List.mem_map.mp hf
    simpa using h i (List.mem_range.mp hi)
  rw [forLoop_release mm pt lo n hT, hall]

end Tables

/-! ### Copying through a window -/

section Window

variable {mm : Mm} {pt : Task} {p q f g : Nat}

/-- **One page copied through a temporary mapping** changes the frame behind the
mapping and the translation cache only. -/
theorem copyThrough_spec (mm : Mm) (hact : mm.activeTable = pt)
    (hq0 : mm.pagusrTable pt q = Entry.zero)
    (htlb : mm.mmu.tlb q = none) (hp : Mmu.Maps (mm.pagusrTable pt) mm.mmu p f) (hpq : p ≠ q)
    (hg : g < 2 ^ 20) (hfg : f ≠ g) :
    ∃ s, mm.copyThrough pt p q g = { mm with mmu := s } ∧
      PageCopied (Function.update (mm.pagusrTable pt) q (ssEntry g)) p q f g mm.mmu pageBytes
        s := by
  have hbase : (ssEntry (g : Int)).base = g := by
    simp only [ssEntry, Mm.pbaseAddr]
    omega
  have hact' : (mm.setSsPag pt q g).activeTable = pt := hact
  have htab : (mm.setSsPag pt q g).pagusrTable pt =
      Function.update (mm.pagusrTable pt) q (ssEntry g) := by
    simp [Mm.setSsPag, Mm.setEntry, ssEntry]
  have hp' : Mmu.Maps (Function.update (mm.pagusrTable pt) q (ssEntry g)) mm.mmu p f := by
    refine ⟨hp.1, fun hn => ?_⟩
    rw [Function.update_of_ne hpq]
    exact hp.2 hn
  have hq' : Mmu.Maps (Function.update (mm.pagusrTable pt) q (ssEntry g)) mm.mmu q g := by
    refine ⟨fun e he => by rw [htlb] at he; exact absurd he (by simp), fun _ => ?_⟩
    rw [Function.update_self]
    exact ⟨rfl, hbase⟩
  refine ⟨_, ?_, copyData_page hp' hq' hfg⟩
  rw [Mm.copyThrough, Mm.copyPage, hact', htab]
  simp only [Mm.delSsPag, Mm.setSsPag, Mm.setEntry, Function.update_self, Function.update_idem]
  rw [← hq0, Function.update_eq_self, Function.update_eq_self]

/-- The state of the loop that copies the pages from `src` on through the window
from `win` on, after `i` rounds. -/
structure WindowCopied (T : Table) (src win n : Nat) (f g : Nat → Nat) (s : Mmu) (i : Nat)
    (s' : Mmu) : Prop where
  /-- The frames copied so far. -/
  copied : ∀ j < i, ∀ o < pageBytes, s'.mem (g j) o = s.mem (f j) o
  /-- All other frames are as they were. -/
  outside : ∀ r, (∀ j < i, r ≠ g j) → s'.mem r = s.mem r
  /-- No access has faulted. -/
  fault : s'.fault = s.fault
  /-- A translation is as it was, or the table's, or one of the window. -/
  tlb : ∀ r, s'.tlb r = s.tlb r ∨ (src ≤ r ∧ r < src + n ∧ s.tlb r = none ∧ s'.tlb r = some (T r)) ∨
    ∃ j < i, r = win + j

/-- **The loop that copies the data pages** makes the frames behind the window
copies of the frames of the pages, and changes nothing else but the translation
cache. -/
theorem forLoop_copyThrough (mm : Mm) (pt : Task) (src win n : Nat) (F G : Nat → Nat)
    (fr : Nat → Mm → Int)
    (hfr : ∀ i < n, ∀ s, fr i { mm with mmu := s } = (G i : Int))
    (hact : mm.activeTable = pt)
    (hmaps : ∀ i < n, Mmu.Maps (mm.pagusrTable pt) mm.mmu (src + i) (F i))
    (hwin : ∀ i < n, mm.pagusrTable pt (win + i) = Entry.zero ∧ mm.mmu.tlb (win + i) = none)
    (hsep : src + n ≤ win) (hG : ∀ i < n, G i < 2 ^ 20)
    (hinj : ∀ i < n, ∀ j < n, G i = G j → i = j) (hFG : ∀ i < n, ∀ j < n, F i ≠ G j) :
    ∃ s, forLoop n (fun i mm => mm.copyThrough pt (src + i) (win + i) (fr i mm)) mm =
        { mm with mmu := s } ∧
      WindowCopied (mm.pagusrTable pt) src win n F G mm.mmu n s := by
  refine forLoop_induction (I := fun i m => ∃ s, m = { mm with mmu := s } ∧
    WindowCopied (mm.pagusrTable pt) src win n F G mm.mmu i s) ?_ ?_
  · exact ⟨mm.mmu, rfl, ⟨fun j hj => absurd hj (by omega), fun _ _ => rfl, rfl,
      fun _ => Or.inl rfl⟩⟩
  · rintro i m hi ⟨s, rfl, hs⟩
    have hm : Mmu.Maps (mm.pagusrTable pt) s (src + i) (F i) := by
      rcases hs.tlb (src + i) with heq | ⟨-, -, hnone, hsome⟩ | ⟨j, hj, heq⟩
      · exact ⟨fun e he => (hmaps i hi).1 e (heq ▸ he), fun hn => (hmaps i hi).2 (heq ▸ hn)⟩
      · refine ⟨fun e he => ?_, fun hn => absurd hn (by simp [hsome])⟩
        obtain rfl : mm.pagusrTable pt (src + i) = e := Option.some.inj (hsome.symm.trans he)
        exact ((hmaps i hi).2 hnone).2
      · omega
    have ht : s.tlb (win + i) = none := by
      rcases hs.tlb (win + i) with heq | ⟨-, h2, -, -⟩ | ⟨j, hj, heq⟩
      · exact heq.trans (hwin i hi).2
      · omega
      · omega
    obtain ⟨s', heq, hc⟩ := copyThrough_spec { mm with mmu := s } hact (hwin i hi).1 ht hm
      (by omega) (hG i hi) (hFG i hi i hi)
    refine ⟨s', ?_, ⟨fun j hj o ho => ?_, fun r hr => ?_, hc.fault.trans hs.fault, fun r => ?_⟩⟩
    · rw [hfr i hi]
      exact heq
    · rw [hc.mem]
      by_cases hji : j = i
      · subst hji
        rw [Function.update_self, if_pos ho, hs.outside _ fun l hl => hFG j hi l (by omega)]
      · rw [Function.update_of_ne fun he => hji (hinj j (by omega) i hi he)]
        exact hs.copied j (by omega) o ho
    · rw [hc.mem, Function.update_of_ne (hr i (by omega))]
      exact hs.outside r fun j hj => hr j (by omega)
    · rcases hc.tlb r with heq' | ⟨rfl | rfl, hnone, hsome⟩
      · rw [heq']
        rcases hs.tlb r with h | h | ⟨j, hj, h⟩
        · exact Or.inl h
        · exact Or.inr (Or.inl h)
        · exact Or.inr (Or.inr ⟨j, by omega, h⟩)
      · rw [Function.update_of_ne (by omega)] at hsome
        refine Or.inr (Or.inl ⟨by omega, by omega, ?_, hsome⟩)
        rcases hs.tlb (src + i) with h | ⟨-, -, h, -⟩ | ⟨j, hj, h⟩
        · exact h.symm.trans hnone
        · exact h
        · omega
      · exact Or.inr (Or.inr ⟨i, by omega, rfl⟩)

end Window

end Zeos
