import Mathlib.Logic.Function.Basic
import Zeos.Lib.ByteMem

/-!
# Paged memory behind a translation cache

Physical memory is a set of frames of bytes. A logical address is translated
through a page table – one entry for each logical page – by way of a translation
look-aside buffer: a translation that is cached is used as it stands, whatever
the table says by now, one that is not is looked up in the table and cached, and
one that the table does not hold either is a fault. The cache is only ever
emptied by `Paging.Mmu.flush`, so an entry that was changed after it was cached
is *stale*, and nothing here assumes that none is.

A loop that fills a stretch of a table is described by `Paging.overlay`.

What an access does is said once, by `Paging.Mmu.Maps`: the page translates, now,
to the frame. An access to such a page reads or writes that frame
(`Paging.Mmu.loadByte_eq`, `Paging.Mmu.storeByte_eq`) and does not fault.
-/

namespace Paging

open ByteMem

/-- The number of bytes of a page, and of a frame. -/
def pageBytes : Nat := 4096

/-- An entry of a page table: the frame and the bits that grant access to it. -/
structure Entry where
  /-- The frame the page is mapped to. -/
  base : Nat
  /-- Whether the page is mapped at all. -/
  present : Bool
  /-- Whether it may be written from user mode. -/
  rw : Bool
  /-- Whether it may be accessed from user mode. -/
  user : Bool
deriving DecidableEq

/-- The entry all of whose bits are zero. -/
def Entry.zero : Entry := { base := 0, present := false, rw := false, user := false }

/-- A page table. -/
abbrev Table := Nat → Entry

/-! ### Stretches of a table -/

section Overlay

variable {α : Type*} {T e : Nat → α} {lo n p : Nat}

/-- A table with a stretch of `n` entries from `lo` on replaced. -/
def overlay (lo n : Nat) (e T : Nat → α) : Nat → α :=
  fun p => if lo ≤ p ∧ p < lo + n then e (p - lo) else T p

theorem overlay_at {i : Nat} (hi : i < n) : overlay lo n e T (lo + i) = e i := by
  rw [overlay, if_pos (by omega)]
  congr 1
  omega

theorem overlay_of_notMem (h : p < lo ∨ lo + n ≤ p) : overlay lo n e T p = T p := by
  rw [overlay, if_neg (by omega)]

theorem overlay_zero : overlay lo 0 e T = T := by
  funext p
  exact overlay_of_notMem (by omega)

/-- One more entry at the end of the stretch. -/
theorem overlay_succ :
    Function.update (overlay lo n e T) (lo + n) (e n) = overlay lo (n + 1) e T := by
  funext p
  by_cases hp : p = lo + n
  · subst hp
    rw [Function.update_self, overlay_at (by omega)]
  · rw [Function.update_of_ne hp, overlay, overlay]
    congr 1
    apply propext
    omega

/-- One more entry at the start of the stretch. -/
theorem overlay_update :
    overlay (lo + 1) n (fun i => e (i + 1)) (Function.update T lo (e 0)) =
      overlay lo (n + 1) e T := by
  funext p
  by_cases hp : p = lo
  · subst hp
    rw [overlay_of_notMem (by omega), Function.update_self]
    have hat : overlay p (n + 1) e T (p + 0) = e 0 := overlay_at (by omega)
    exact hat.symm
  · by_cases hp' : lo ≤ p ∧ p < lo + (n + 1)
    · obtain ⟨i, rfl⟩ : ∃ i, p = lo + (i + 1) := ⟨p - lo - 1, by omega⟩
      rw [overlay_at (by omega), ← Nat.add_assoc, Nat.add_right_comm, overlay_at (by omega)]
    · rw [overlay_of_notMem (by omega), overlay_of_notMem (by omega), Function.update_of_ne hp]

end Overlay

/-! ### Translation -/

/-- Physical memory and the translation cache in front of it. -/
structure Mmu where
  /-- The bytes of each frame. -/
  mem : Nat → Nat → Byte
  /-- The cached translations. -/
  tlb : Nat → Option Entry
  /-- Whether some access has faulted. -/
  fault : Bool

namespace Mmu

variable {pt : Table} {s : Mmu} {page page' f f' o : Nat} {b : Byte}

/-- Empty the translation cache. -/
def flush (s : Mmu) : Mmu := { s with tlb := fun _ => none }

/-- Translate a page: through the cache, or through the table with the entry
then cached. -/
def walk (pt : Table) (page : Nat) (s : Mmu) : Option Nat × Mmu :=
  match s.tlb page with
  | some e => (some e.base, s)
  | none =>
    if (pt page).present then
      (some (pt page).base, { s with tlb := Function.update s.tlb page (some (pt page)) })
    else (none, { s with fault := true })

/-- Load the byte at a logical address. -/
def loadByte (pt : Table) (a : Nat) (s : Mmu) : Byte × Mmu :=
  match walk pt (a / pageBytes) s with
  | (some f, s') => (s'.mem f (a % pageBytes), s')
  | (none, s') => (0, s')

/-- Write one byte of a frame. -/
def poke (s : Mmu) (f o : Nat) (b : Byte) : Mmu :=
  { s with mem := Function.update s.mem f (Function.update (s.mem f) o b) }

/-- Store a byte at a logical address. -/
def storeByte (pt : Table) (a : Nat) (b : Byte) (s : Mmu) : Mmu :=
  match walk pt (a / pageBytes) s with
  | (some f, s') => s'.poke f (a % pageBytes) b
  | (none, s') => s'

/-! ### What an access does -/

/-- The page translates to the frame, through the cache or through the table. -/
def Maps (pt : Table) (s : Mmu) (page f : Nat) : Prop :=
  (∀ e, s.tlb page = some e → e.base = f) ∧
    (s.tlb page = none → (pt page).present = true ∧ (pt page).base = f)

/-- The cache once a page has been accessed. -/
def touch (pt : Table) (page : Nat) (s : Mmu) : Mmu := (walk pt page s).2

/-- A page that is mapped translates to its frame. -/
theorem walk_eq (h : Maps pt s page f) : walk pt page s = (some f, touch pt page s) := by
  unfold touch walk
  cases ht : s.tlb page with
  | some e => simp [h.1 e ht]
  | none => simp [(h.2 ht).1, (h.2 ht).2]

theorem touch_mem : (touch pt page s).mem = s.mem := by
  unfold touch walk
  cases s.tlb page with
  | some e => rfl
  | none => dsimp only; split <;> rfl

theorem touch_fault (h : Maps pt s page f) : (touch pt page s).fault = s.fault := by
  unfold touch walk
  cases ht : s.tlb page with
  | some e => rfl
  | none => simp [(h.2 ht).1]

/-- A cache entry either was there before an access or is the table's. -/
theorem touch_tlb (page' : Nat) : (touch pt page s).tlb page' = s.tlb page' ∨
    (page' = page ∧ s.tlb page' = none ∧ (touch pt page s).tlb page' = some (pt page')) := by
  unfold touch walk
  cases ht : s.tlb page with
  | some e => exact Or.inl rfl
  | none =>
    dsimp only
    split
    · by_cases hp : page' = page
      · subst hp
        exact Or.inr ⟨rfl, ht, by simp⟩
      · exact Or.inl (by simp [hp])
    · exact Or.inl rfl

/-! ### A cache that is up to date -/

/-- **No cached translation is stale**: the cache holds entries of the table
only. -/
def Fresh (pt : Table) (s : Mmu) : Prop :=
  ∀ p e, s.tlb p = some e → e = pt p ∧ e.present = true

theorem fresh_flush : Fresh pt s.flush := fun _ _ h => absurd h (by simp [flush])

/-- Accesses keep the cache up to date. -/
theorem Fresh.touch (h : Fresh pt s) : Fresh pt (touch pt page s) := by
  intro p e he
  unfold Mmu.touch walk at he
  cases ht : s.tlb page with
  | some e' =>
    rw [ht] at he
    exact h p e he
  | none =>
    simp only [ht] at he
    split at he
    · next hp =>
      by_cases hpp : p = page
      · subst hpp
        simp only [Function.update_self, Option.some.injEq] at he
        exact ⟨he.symm, he ▸ hp⟩
      · simp only [Function.update_of_ne hpp] at he
        exact h p e he
    · exact h p e he

theorem Fresh.storeByte {a : Nat} (h : Fresh pt s) : Fresh pt (storeByte pt a b s) := by
  have ht : Fresh pt (Mmu.touch pt (a / pageBytes) s) := h.touch
  unfold Mmu.storeByte
  unfold Mmu.touch at ht
  split
  · next heq =>
    rw [heq] at ht
    exact ht
  · next heq =>
    rw [heq] at ht
    exact ht

/-- Through a cache that is up to date, a page is translated as the table says. -/
theorem Fresh.maps (h : Fresh pt s) (hp : (pt page).present = true) :
    Maps pt s page (pt page).base :=
  ⟨fun e he => by rw [(h page e he).1], fun _ => ⟨hp, rfl⟩⟩

/-- A page that is not mapped is not cached. -/
theorem Fresh.tlb_eq_none (h : Fresh pt s) (hp : (pt page).present = false) :
    s.tlb page = none := by
  cases ht : s.tlb page with
  | none => rfl
  | some e =>
    obtain ⟨rfl, he⟩ := h page e ht
    exact absurd (he.symm.trans hp) (by simp)

/-! ### Addresses -/

/-- The page part of an address written as page and offset. -/
theorem page_of_offset (ho : o < pageBytes) : (page * pageBytes + o) / pageBytes = page := by
  unfold pageBytes at *
  omega

/-- The offset part of an address written as page and offset. -/
theorem offset_of_offset (ho : o < pageBytes) : (page * pageBytes + o) % pageBytes = o := by
  unfold pageBytes at *
  omega

/-- **Loading from a mapped page reads its frame.** -/
theorem loadByte_eq (h : Maps pt s page f) (ho : o < pageBytes) :
    loadByte pt (page * pageBytes + o) s = (s.mem f o, touch pt page s) := by
  rw [loadByte, page_of_offset ho, offset_of_offset ho, walk_eq h]
  simp [touch_mem]

/-- **Storing to a mapped page writes its frame.** -/
theorem storeByte_eq (h : Maps pt s page f) (ho : o < pageBytes) :
    storeByte pt (page * pageBytes + o) b s = (touch pt page s).poke f o b := by
  rw [storeByte, page_of_offset ho, offset_of_offset ho, walk_eq h]

/-! ### User mode -/

/-- The entry a page translates through. -/
def entry (pt : Table) (page : Nat) (s : Mmu) : Option Entry :=
  match s.tlb page with
  | some e => some e
  | none => if (pt page).present then some (pt page) else none

/-- A load from user mode: the byte, unless the access faults. -/
def userLoad (pt : Table) (a : Nat) (s : Mmu) : Option Byte × Mmu :=
  match entry pt (a / pageBytes) s with
  | some e =>
    if e.user then (some (s.mem e.base (a % pageBytes)), touch pt (a / pageBytes) s) else (none, s)
  | none => (none, s)

/-- A store from user mode: whether it is done, or the access faults. -/
def userStore (pt : Table) (a : Nat) (b : Byte) (s : Mmu) : Bool × Mmu :=
  match entry pt (a / pageBytes) s with
  | some e =>
    if e.user ∧ e.rw then (true, (touch pt (a / pageBytes) s).poke e.base (a % pageBytes) b)
    else (false, s)
  | none => (false, s)

/-- Through a cache that is up to date, a page is translated with the entry in the table. -/
theorem Fresh.entry_eq (h : Fresh pt s) (hp : (pt page).present = true) :
    entry pt page s = some (pt page) := by
  unfold entry
  cases ht : s.tlb page with
  | some e => exact congrArg some (h page e ht).1
  | none => exact if_pos hp

theorem Fresh.userLoad {a : Nat} (h : Fresh pt s) : Fresh pt (userLoad pt a s).2 := by
  unfold Mmu.userLoad
  split
  · split
    · exact h.touch
    · exact h
  · exact h

theorem Fresh.userStore {a : Nat} (h : Fresh pt s) : Fresh pt (userStore pt a b s).2 := by
  unfold Mmu.userStore
  split
  · split
    · exact h.touch
    · exact h
  · exact h

end Mmu

end Paging
