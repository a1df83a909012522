import Zeos.Lib.Paging

/-!
# Page tables in memory

A page directory and the page tables it names lie in memory, each of them a frame of
1024 words. An entry is a word: the number of a frame in its upper twenty bits, and the
access bits below. `PageWalk.walk` is what the processor does with them, from the
directory down to the frame of an address, the access to which is granted by both
entries.

Code that builds such tables writes words into frames. `PageWalk.Sees` says that memory
holds given words, frame by frame, which hides the addresses: a store changes one word of
one frame (`PageWalk.Sees.store`).
-/

namespace PageWalk

open ByteMem Paging

/-! ### Entries as words -/

/-- The number of entries of a table. -/
def tableSize : Nat := 1024

/-- The word of an entry. -/
def encode (e : Entry) : Word :=
  BitVec.ofNat 32 (e.base % 2 ^ 20 * 4096 + e.user.toNat * 4 + e.rw.toNat * 2 + e.present.toNat)

/-- The entry a word stands for. -/
def decode (w : Word) : Entry where
  base := w.toNat / 4096
  present := w.toNat % 2 = 1
  rw := w.toNat / 2 % 2 = 1
  user := w.toNat / 4 % 2 = 1

/-- **An entry is read back as it was written.** -/
theorem decode_encode (e : Entry) : decode (encode e) = { e with base := e.base % 2 ^ 20 } := by
  obtain ⟨base, present, rw, user⟩ := e
  have hlt : base % 2 ^ 20 < 2 ^ 20 := Nat.mod_lt _ (by decide)
  have htoNat : ∀ n : Nat, n < 8 → (BitVec.ofNat 32 (base % 2 ^ 20 * 4096 + n)).toNat =
      base % 2 ^ 20 * 4096 + n := fun n hn => by
    rw [BitVec.toNat_ofNat, Nat.mod_eq_of_lt (by omega)]
  cases present <;> cases rw <;> cases user <;>
    simp only [encode, decode, Bool.toNat_true, Bool.toNat_false, Nat.add_assoc] <;>
    rw [htoNat _ (by decide)] <;>
    simp only [Entry.mk.injEq, decide_eq_true_eq, decide_eq_false_iff_not] <;>
    omega

theorem decode_zero : decode 0 = Entry.zero := by decide

/-! ### Words of frames -/

/-- The address of a word of a frame. -/
def slot (f i : Nat) : Word := BitVec.ofNat 32 (f * 4096 + 4 * i)

/-- The pair names a word of a frame. -/
def IsSlot (f i : Nat) : Prop := f < 2 ^ 20 ∧ i < tableSize

/-- Different words do not overlap. -/
theorem apart_slot {f i f' i' : Nat} (h : IsSlot f i) (h' : IsSlot f' i') (hne : f ≠ f' ∨ i ≠ i') :
    Apart (slot f i) (slot f' i') := by
  obtain ⟨h1, h2⟩ := h
  obtain ⟨h3, h4⟩ := h'
  unfold tableSize at h2 h4
  have e1 : (slot f i).toNat = f * 4096 + 4 * i := by
    rw [slot, BitVec.toNat_ofNat, Nat.mod_eq_of_lt (by omega)]
  have e2 : (slot f' i').toNat = f' * 4096 + 4 * i' := by
    rw [slot, BitVec.toNat_ofNat, Nat.mod_eq_of_lt (by omega)]
  constructor <;> rw [BitVec.toNat_sub, e1, e2] <;> omega

/-- **Memory holds these words**: frame by frame, those of `T`. -/
def Sees (m : Mem) (T : Nat → Nat → Word) : Prop := ∀ f i, IsSlot f i → load32 m (slot f i) = T f i

/-- What memory holds. -/
def contents (m : Mem) (f i : Nat) : Word := load32 m (slot f i)

theorem sees_contents (m : Mem) : Sees m (contents m) := fun _ _ _ => rfl

/-- One word of a frame replaced. -/
def put (T : Nat → Nat → Word) (f i : Nat) (w : Word) : Nat → Nat → Word :=
  Function.update T f (Function.update (T f) i w)

section Put

variable {T : Nat → Nat → Word} {f i : Nat} {w : Word}

@[simp] theorem put_self : put T f i w f i = w := by simp [put]

theorem put_of_ne {f' i' : Nat} (h : f' ≠ f ∨ i' ≠ i) : put T f i w f' i' = T f' i' := by
  rw [put]
  by_cases hf : f' = f
  · subst hf
    rw [Function.update_self, Function.update_of_ne (h.resolve_left fun h => h rfl)]
  · rw [Function.update_of_ne hf]

theorem put_of_frame_ne {f' : Nat} (h : f' ≠ f) : put T f i w f' = T f' :=
  Function.update_of_ne h _ _

theorem put_frame : put T f i w f = Function.update (T f) i w := Function.update_self ..

end Put

/-- **A store writes one word of one frame.** -/
theorem Sees.store {m : Mem} {T : Nat → Nat → Word} {f i : Nat} (h : Sees m T) (hs : IsSlot f i)
    (w : Word) : Sees (store32 m (slot f i) w) (put T f i w) := by
  intro f' i' hs'
  by_cases heq : f' = f ∧ i' = i
  · obtain ⟨rfl, rfl⟩ := heq
    rw [load32_store32, put_self]
  · have hne : f' ≠ f ∨ i' ≠ i := by
      by_cases hf : f' = f
      · exact Or.inr fun hi => heq ⟨hf, hi⟩
      · exact Or.inl hf
    have hne' : f ≠ f' ∨ i ≠ i' := hne.imp Ne.symm Ne.symm
    rw [load32_store32_of_apart (apart_slot hs hs' hne'), put_of_ne hne]
    exact h f' i' hs'

/-! ### The page of an address -/

theorem getElem_pageMask : ∀ i : Fin 32, (0xfffff000#32)[i.val] = decide (12 ≤ i.val) := by decide

/-- Masking the offset away is shifting it out and in again. -/
theorem and_pageMask (a : Word) : a &&& 0xfffff000#32 = (a >>> 12) <<< 12 := by
  apply BitVec.eq_of_getElem_eq
  intro i hi
  have hmask : (0xfffff000#32)[i] = decide (12 ≤ i) := getElem_pageMask ⟨i, hi⟩
  rw [BitVec.getElem_and, BitVec.getElem_shiftLeft]
  by_cases h : 12 ≤ i
  · have h' : ¬i < 12 := by omega
    simp [hmask, h, h', BitVec.getLsbD_eq_getElem hi]
  · simp [hmask, h, Nat.lt_of_not_le h]

/-- The address at which the page of an address starts. -/
theorem toNat_and_pageMask (a : Word) : (a &&& 0xfffff000#32).toNat = a.toNat / 4096 * 4096 := by
  have := a.isLt
  rw [and_pageMask, BitVec.toNat_shiftLeft, BitVec.toNat_ushiftRight, Nat.shiftLeft_eq,
    Nat.shiftRight_eq_div_pow]
  omega

/-! ### The walk -/

/-- The entry of the directory that an address goes through. -/
def dirIndex (a : Word) : Nat := a.toNat / 2 ^ 22

/-- The entry of the page table that an address goes through. -/
def tableIndex (a : Word) : Nat := a.toNat / 4096 % 1024

/-- Both entries are present, and both grant access. -/
def Entry.through (pde pte : Entry) : Option Entry :=
  if pde.present ∧ pte.present then
    some { base := pte.base, present := true, rw := pde.rw && pte.rw, user := pde.user && pte.user }
  else none

/-- **The walk**: where the address is, and what may be done there, the directory being
in the frame `dir`. -/
def walk (m : Mem) (dir : Nat) (a : Word) : Option Entry :=
  let pde := decode (load32 m (slot dir (dirIndex a)))
  let pte := decode (load32 m (slot pde.base (tableIndex a)))
  Entry.through pde pte

theorem dirIndex_lt (a : Word) : dirIndex a < tableSize := by
  have := a.isLt
  unfold dirIndex tableSize
  omega

theorem tableIndex_lt (a : Word) : tableIndex a < tableSize := by
  unfold tableIndex tableSize
  omega

theorem decode_base_lt (w : Word) : (decode w).base < 2 ^ 20 := by
  have := w.isLt
  simp only [decode]
  omega

/-- The page of an address is the one its two indices name. -/
theorem page_eq (a : Word) : a.toNat / 4096 = dirIndex a * 1024 + tableIndex a := by
  unfold dirIndex tableIndex
  omega

end PageWalk
