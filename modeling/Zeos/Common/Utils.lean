import Zeos.Lib.Paging
import Mathlib.Data.Nat.Init

/-!
# Copying memory, and checking user pointers

`copy_data`, `copy_from_user` and `copy_to_user` are one routine under three
names: a loop moving four-byte words as long as more than four bytes are left,
followed by a loop moving the at most four bytes that remain. The routine is
written once, over a way `rd` to read the byte at an offset of the source and a
way `wr` to write the byte at an offset of the destination, because the kernel
runs it over different memories – its own, identity-mapped one, and the logical
memory of the running process, where reading also fills the translation cache.

`Zeos.copyData_induction` is the rule for such a copy, `Zeos.copyData_page` its
use on two mapped pages, `Zeos.copyData_out` its use on a block of user memory and
`Zeos.copyFlat_spec` its use on flat memory.
-/

namespace Zeos

open ByteMem Paging

/-! ### The copy loops -/

section Copy

variable {σ : Type*} (rd : Nat → σ → Byte × σ) (wr : Nat → Byte → σ → σ)

/-- `*q1++ = *p1++` on bytes. -/
def copyByte (o : Nat) (s : σ) : σ :=
  let (b, s) := rd o s
  wr o b s

/-- `*q++ = *p++` on double words: the four bytes are read before any is
written. -/
def copyDWord (o : Nat) (s : σ) : σ :=
  let (b₀, s) := rd o s
  let (b₁, s) := rd (o + 1) s
  let (b₂, s) := rd (o + 2) s
  let (b₃, s) := rd (o + 3) s
  wr (o + 3) b₃ (wr (o + 2) b₂ (wr (o + 1) b₁ (wr o b₀ s)))

/-- The loop `while (size > 4)`: the offset and the size it stops at, and the
state. -/
def copyDWords (o : Nat) (size : Int) (s : σ) : Nat × Int × σ :=
  if 4 < size then copyDWords (o + 4) (size - 4) (copyDWord rd wr o s) else (o, size, s)
termination_by size.toNat

/-- The loop `while (size > 0)`. -/
def copyBytes (o : Nat) (size : Int) (s : σ) : σ :=
  if 0 < size then copyBytes (o + 1) (size - 1) (copyByte rd wr o s) else s
termination_by size.toNat

/-- `copy_data`, and with it `copy_from_user` and `copy_to_user`. -/
def copyData (size : Int) (s : σ) : σ :=
  let (o, size, s) := copyDWords rd wr 0 size s
  copyBytes rd wr o size s

variable {rd wr}

theorem copyDWords_spec {I : Nat → σ → Prop} {total : Int}
    (hword : ∀ o s, I o s → (o : Int) + 4 < total → I (o + 4) (copyDWord rd wr o s)) :
    ∀ (o : Nat) (size : Int) (s : σ), I o s → (o : Int) + size = total →
      I (copyDWords rd wr o size s).1 (copyDWords rd wr o size s).2.2 ∧
        ((copyDWords rd wr o size s).1 : Int) + (copyDWords rd wr o size s).2.1 = total := by
  intro o size s
  induction o, size, s using copyDWords.induct rd wr with
  | case1 o size s h ih =>
    intro hI ho
    rw [copyDWords, if_pos h]
    exact ih (hword o s hI (by omega)) (by push_cast; omega)
  | case2 o size s h =>
    intro hI ho
    rw [copyDWords, if_neg h]
    exact ⟨hI, ho⟩

theorem copyBytes_spec {I : Nat → σ → Prop} {total : Int}
    (hbyte : ∀ o s, I o s → (o : Int) < total → I (o + 1) (copyByte rd wr o s)) :
    ∀ (o : Nat) (size : Int) (s : σ), I o s → (o : Int) + size = total → 0 ≤ size →
      I total.toNat (copyBytes rd wr o size s) := by
  intro o size s
  induction o, size, s using copyBytes.induct rd wr with
  | case1 o size s h ih =>
    intro hI ho hs
    rw [copyBytes, if_pos h]
    exact ih (hbyte o s hI (by omega)) (by push_cast; omega) (by omega)
  | case2 o size s h =>
    intro hI ho hs
    rw [copyBytes, if_neg h]
    obtain rfl : o = total.toNat := by omega
    exact hI

theorem copyDWords_nonneg (o : Nat) (size : Int) (s : σ) (h : 0 ≤ size) :
    0 ≤ (copyDWords rd wr o size s).2.1 := by
  induction o, size, s using copyDWords.induct rd wr with
  | case1 o size s hs ih =>
    rw [copyDWords, if_pos hs]
    exact ih (by omega)
  | case2 o size s hs =>
    rw [copyDWords, if_neg hs]
    exact h

/-- **The rule for a copy**: an invariant of the number of bytes moved so far,
kept by moving a word while more than four bytes are left and by moving a byte
while any is, holds of all the bytes at the end. -/
theorem copyData_induction {I : Nat → σ → Prop} {size : Int} {s : σ} (hs : 0 ≤ size)
    (h₀ : I 0 s)
    (hword : ∀ o s, I o s → (o : Int) + 4 < size → I (o + 4) (copyDWord rd wr o s))
    (hbyte : ∀ o s, I o s → (o : Int) < size → I (o + 1) (copyByte rd wr o s)) :
    I size.toNat (copyData rd wr size s) := by
  obtain ⟨h1, h2⟩ := copyDWords_spec hword 0 size s h₀ (by simp)
  exact copyBytes_spec hbyte _ _ _ h1 h2 (copyDWords_nonneg 0 size s hs)

/-- Without a byte to copy nothing happens. -/
theorem copyData_of_nonpos {size : Int} {s : σ} (hs : size ≤ 0) : copyData rd wr size s = s := by
  rw [copyData, copyDWords, if_neg (by omega)]
  dsimp only
  rw [copyBytes, if_neg (by omega)]

section Map

variable {τ : Type*} {rd' : Nat → τ → Byte × τ} {wr' : Nat → Byte → τ → τ} {π : σ → τ}

/-- A double word is copied in a view of the state as it is in the state. -/
theorem copyDWord_map (hrd : ∀ o s, rd' o (π s) = ((rd o s).1, π (rd o s).2))
    (hwr : ∀ o b s, wr' o b (π s) = π (wr o b s)) (o : Nat) (s : σ) :
    copyDWord rd' wr' o (π s) = π (copyDWord rd wr o s) := by
  simp only [copyDWord, hrd, hwr]

theorem copyDWords_map (hrd : ∀ o s, rd' o (π s) = ((rd o s).1, π (rd o s).2))
    (hwr : ∀ o b s, wr' o b (π s) = π (wr o b s)) (o : Nat) (size : Int) (s : σ) :
    copyDWords rd' wr' o size (π s) =
      ((copyDWords rd wr o size s).1, (copyDWords rd wr o size s).2.1,
        π (copyDWords rd wr o size s).2.2) := by
  induction o, size, s using copyDWords.induct rd wr with
  | case1 o size s h ih =>
    rw [copyDWords, if_pos h, copyDWord_map hrd hwr, ih, copyDWords.eq_def rd wr o size s,
      if_pos h]
  | case2 o size s h =>
    rw [copyDWords, if_neg h, copyDWords.eq_def rd wr o size s, if_neg h]

theorem copyBytes_map (hrd : ∀ o s, rd' o (π s) = ((rd o s).1, π (rd o s).2))
    (hwr : ∀ o b s, wr' o b (π s) = π (wr o b s)) (o : Nat) (size : Int) (s : σ) :
    copyBytes rd' wr' o size (π s) = π (copyBytes rd wr o size s) := by
  induction o, size, s using copyBytes.induct rd wr with
  | case1 o size s h ih =>
    have hbyte : copyByte rd' wr' o (π s) = π (copyByte rd wr o s) := by
      simp only [copyByte, hrd, hwr]
    rw [copyBytes, if_pos h, hbyte, ih, copyBytes.eq_def rd wr o size s, if_pos h]
  | case2 o size s h =>
    rw [copyBytes, if_neg h, copyBytes.eq_def rd wr o size s, if_neg h]

/-- **A copy seen through a view of the state**, if reading and writing can be seen
through it. -/
theorem copyData_map (hrd : ∀ o s, rd' o (π s) = ((rd o s).1, π (rd o s).2))
    (hwr : ∀ o b s, wr' o b (π s) = π (wr o b s)) (size : Int) (s : σ) :
    copyData rd' wr' size (π s) = π (copyData rd wr size s) := by
  simp only [copyData, copyDWords_map hrd hwr, copyBytes_map hrd hwr]

end Map

end Copy

/-! ### Copying one mapped page to another -/

section Page

variable {pt : Table} {p q f g : Nat} {s : Mmu}

/-- `copy_data` between two logical addresses of the running process. -/
def copyLogical (pt : Table) (start dest : Nat) (size : Int) (s : Mmu) : Mmu :=
  copyData (fun o => Mmu.loadByte pt (start + o)) (fun o => Mmu.storeByte pt (dest + o)) size s

/-- The state of a page copy after `o` bytes: the first `o` bytes of the frame
`g` are those of `f`, nothing else has changed, nothing has faulted, and the
cache has only been filled from the table. -/
structure PageCopied (pt : Table) (p q f g : Nat) (s : Mmu) (o : Nat) (s' : Mmu) : Prop where
  /-- The bytes copied so far. -/
  mem : s'.mem = Function.update s.mem g fun j => if j < o then s.mem f j else s.mem g j
  /-- No access has faulted. -/
  fault : s'.fault = s.fault
  /-- A translation is the one it was, or the table's for one of the pages. -/
  tlb : ∀ r, s'.tlb r = s.tlb r ∨ ((r = p ∨ r = q) ∧ s.tlb r = none ∧ s'.tlb r = some (pt r))

theorem PageCopied.maps {o r h : Nat} {s' : Mmu} (hc : PageCopied pt p q f g s o s')
    (hm : Mmu.Maps pt s r h) : Mmu.Maps pt s' r h := by
  rcases hc.tlb r with heq | ⟨-, hnone, hsome⟩
  · exact ⟨fun e he => hm.1 e (heq ▸ he), fun hn => hm.2 (heq ▸ hn)⟩
  · refine ⟨fun e he => ?_, fun hn => absurd hn (by simp [hsome])⟩
    obtain rfl : pt r = e := Option.some.inj (hsome.symm.trans he)
    exact (hm.2 hnone).2

/-- Accessing one of the two pages changes nothing but the cache. -/
theorem PageCopied.touch {o r h : Nat} {s' : Mmu} (hc : PageCopied pt p q f g s o s')
    (hr : r = p ∨ r = q) (hm : Mmu.Maps pt s r h) :
    PageCopied pt p q f g s o (Mmu.touch pt r s') := by
  refine ⟨Mmu.touch_mem.trans hc.mem, (Mmu.touch_fault (hc.maps hm)).trans hc.fault, fun x => ?_⟩
  rcases @Mmu.touch_tlb pt s' r x with heq | ⟨rfl, hnone, hsome⟩
  · rw [heq]
    exact hc.tlb x
  · refine Or.inr ⟨hr, ?_, hsome⟩
    rcases hc.tlb x with heq | ⟨-, -, hsome'⟩
    · exact heq.symm.trans hnone
    · exact absurd (hsome'.symm.trans hnone) (by simp)

/-- Writing the next byte into the destination frame. -/
theorem PageCopied.poke {o : Nat} {s' : Mmu} (hc : PageCopied pt p q f g s o s') :
    PageCopied pt p q f g s (o + 1) (s'.poke g o (s.mem f o)) := by
  refine ⟨?_, hc.fault, hc.tlb⟩
  rw [Mmu.poke, hc.mem]
  funext r j
  by_cases hr : r = g
  · subst hr
    by_cases hj : j = o
    · subst hj
      simp
    · have : (j < o + 1) = (j < o) := by
        apply propext
        omega
      simp only [Function.update_self, Function.update_of_ne hj, this]
  · simp [hr]

/-- Loading the byte to be moved next. -/
theorem PageCopied.load {o k : Nat} {s' : Mmu} (hc : PageCopied pt p q f g s o s')
    (hp : Mmu.Maps pt s p f) (hfg : f ≠ g) (hk : k < pageBytes) :
    Mmu.loadByte pt (p * pageBytes + k) s' = (s.mem f k, Mmu.touch pt p s') := by
  rw [Mmu.loadByte_eq (hc.maps hp) hk, hc.mem, Function.update_of_ne hfg]

/-- Storing the byte to be moved next. -/
theorem PageCopied.store {o : Nat} {s' : Mmu} (hc : PageCopied pt p q f g s o s')
    (hq : Mmu.Maps pt s q g) (ho : o < pageBytes) :
    PageCopied pt p q f g s (o + 1)
      (Mmu.storeByte pt (q * pageBytes + o) (s.mem f o) s') := by
  rw [Mmu.storeByte_eq (hc.maps hq) ho]
  exact (hc.touch (Or.inr rfl) hq).poke

/-- **Copying a mapped page** makes the destination frame a copy of the source
frame and changes nothing else but the translation cache. -/
theorem copyData_page (hp : Mmu.Maps pt s p f) (hq : Mmu.Maps pt s q g) (hfg : f ≠ g) :
    PageCopied pt p q f g s pageBytes
      (copyLogical pt (p * pageBytes) (q * pageBytes) pageBytes s) := by
  refine copyData_induction (I := PageCopied pt p q f g s) (Int.natCast_nonneg pageBytes)
    ⟨by simp, rfl, fun _ => Or.inl rfl⟩ ?_ ?_
  · intro o s' hc ho
    simp only [copyDWord]
    rw [hc.load hp hfg (by omega)]
    have h1 := hc.touch (Or.inl rfl) hp
    rw [h1.load hp hfg (by omega)]
    have h2 := h1.touch (Or.inl rfl) hp
    rw [h2.load hp hfg (by omega)]
    have h3 := h2.touch (Or.inl rfl) hp
    rw [h3.load hp hfg (by omega)]
    have h4 := h3.touch (Or.inl rfl) hp
    exact (((h4.store hq (by omega)).store hq (by omega)).store hq (by omega)).store hq
      (by omega)
  · intro o s' hc ho
    simp only [copyByte]
    rw [hc.load hp hfg (by omega)]
    exact (hc.touch (Or.inl rfl) hp).store hq (by omega)

end Page

/-! ### Writing user memory -/

section Out

variable {pt : Table} {s : Mmu} {src : Nat → Byte} {addr : Nat → Nat}

/-- Where the byte at a logical address lies: its frame, and the offset in it. -/
def location (pt : Table) (a : Nat) : Nat × Nat := ((pt (a / pageBytes)).base, a % pageBytes)

/-- The byte at a logical address, where the table maps it. -/
def peek (pt : Table) (s : Mmu) (a : Nat) : Byte := s.mem (location pt a).1 (location pt a).2

/-- Loading through a cache that is up to date. -/
theorem loadByte_fresh {a : Nat} (h : Mmu.Fresh pt s) (hp : (pt (a / pageBytes)).present = true) :
    Mmu.loadByte pt a s = (peek pt s a, Mmu.touch pt (a / pageBytes) s) := by
  have := Mmu.loadByte_eq (h.maps hp) (Nat.mod_lt a (by decide : 0 < pageBytes))
  rw [Nat.div_add_mod' a pageBytes] at this
  exact this

/-- Storing through a cache that is up to date. -/
theorem storeByte_fresh {a : Nat} {b : Byte} (h : Mmu.Fresh pt s)
    (hp : (pt (a / pageBytes)).present = true) :
    Mmu.storeByte pt a b s =
      (Mmu.touch pt (a / pageBytes) s).poke (location pt a).1 (location pt a).2 b := by
  have := Mmu.storeByte_eq (b := b) (h.maps hp) (Nat.mod_lt a (by decide : 0 < pageBytes))
  rw [Nat.div_add_mod' a pageBytes] at this
  exact this

/-- A store writes the byte at its address, and no other. -/
theorem storeByte_mem {a : Nat} {b : Byte} (h : Mmu.Fresh pt s)
    (hp : (pt (a / pageBytes)).present = true) (f x : Nat) :
    (Mmu.storeByte pt a b s).mem f x = if location pt a = (f, x) then b else s.mem f x := by
  rw [storeByte_fresh h hp, Mmu.poke, Mmu.touch_mem]
  by_cases hf : f = (location pt a).1
  · subst hf
    by_cases hx : x = (location pt a).2
    · subst hx
      simp
    · have : location pt a ≠ ((location pt a).1, x) := fun he => hx (congrArg Prod.snd he).symm
      simp [hx, this]
  · have : location pt a ≠ (f, x) := fun he => hf (congrArg Prod.fst he).symm
    simp [hf, this]

/-- A store to a mapped page does not fault. -/
theorem storeByte_fault {a : Nat} {b : Byte} (h : Mmu.Fresh pt s)
    (hp : (pt (a / pageBytes)).present = true) : (Mmu.storeByte pt a b s).fault = s.fault := by
  rw [storeByte_fresh h hp]
  exact Mmu.touch_fault (h.maps hp)

/-- The state of a copy to user memory after `o` bytes: they have been written,
nothing else has, and the cache is up to date. -/
structure CopiedOut (pt : Table) (src : Nat → Byte) (addr : Nat → Nat) (s : Mmu) (o : Nat)
    (s' : Mmu) : Prop where
  /-- The bytes copied so far. -/
  written : ∀ i < o, s'.mem (location pt (addr i)).1 (location pt (addr i)).2 = src i
  /-- All other bytes. -/
  outside : ∀ f x, (∀ i < o, location pt (addr i) ≠ (f, x)) → s'.mem f x = s.mem f x
  /-- No access has faulted. -/
  fault : s'.fault = s.fault
  /-- The cache is up to date. -/
  fresh : Mmu.Fresh pt s'

/-- Writing the next byte. -/
theorem CopiedOut.store {o : Nat} {s' : Mmu} (hc : CopiedOut pt src addr s o s')
    (hp : (pt (addr o / pageBytes)).present = true)
    (hinj : ∀ i < o, location pt (addr i) ≠ location pt (addr o)) :
    CopiedOut pt src addr s (o + 1) (Mmu.storeByte pt (addr o) (src o) s') := by
  have hmem : ∀ f x, (Mmu.storeByte pt (addr o) (src o) s').mem f x =
      if location pt (addr o) = (f, x) then src o else s'.mem f x :=
    fun f x => storeByte_mem hc.fresh hp f x
  refine ⟨fun i hi => ?_, fun f x h => ?_, ?_, hc.fresh.storeByte⟩
  · rw [hmem]
    by_cases hio : i = o
    · subst hio
      exact if_pos rfl
    · rw [if_neg fun he => hinj i (by omega) he.symm]
      exact hc.written i (by omega)
  · rw [hmem, if_neg (h o (by omega))]
    exact hc.outside f x fun i hi => h i (by omega)
  · exact (storeByte_fault hc.fresh hp).trans hc.fault

/-- **Copying to user memory** writes exactly the bytes it is given, where the
pages are mapped and no two of the addresses meet in memory. -/
theorem copyData_out (src : Nat → Byte) (addr : Nat → Nat) (size : Nat) (hs : Mmu.Fresh pt s)
    (hp : ∀ o < size, (pt (addr o / pageBytes)).present = true)
    (hinj : ∀ i < size, ∀ j < size, location pt (addr i) = location pt (addr j) → i = j) :
    CopiedOut pt src addr s size
      (copyData (fun o s => (src o, s)) (fun o => Mmu.storeByte pt (addr o)) size s) := by
  have hstep : ∀ o s', CopiedOut pt src addr s o s' → o < size →
      CopiedOut pt src addr s (o + 1) (Mmu.storeByte pt (addr o) (src o) s') :=
    fun o s' hc ho => hc.store (hp o ho) fun i hi he => by
      have := hinj i (by omega) o ho he
      omega
  refine copyData_induction (I := CopiedOut pt src addr s) (Int.natCast_nonneg size)
    ⟨fun i hi => absurd hi (by omega), fun _ _ _ => rfl, rfl, hs⟩ ?_ ?_
  · intro o s' hc ho
    exact hstep _ _ (hstep _ _ (hstep _ _ (hstep _ _ hc (by omega)) (by omega)) (by omega))
      (by omega)
  · intro o s' hc ho
    exact hstep _ _ hc (by omega)

/-- A store that does not fault is to a mapped page. -/
theorem storeByte_no_fault {a : Nat} {b : Byte} (h : Mmu.Fresh pt s)
    (hf : (Mmu.storeByte pt a b s).fault = false) :
    (pt (a / pageBytes)).present = true ∧ s.fault = false := by
  cases hp : (pt (a / pageBytes)).present with
  | true => exact ⟨rfl, (storeByte_fault h hp).symm.trans hf⟩
  | false =>
    have hwalk : Mmu.walk pt (a / pageBytes) s = (none, { s with fault := true }) := by
      simp [Mmu.walk, h.tlb_eq_none hp, hp]
    rw [Mmu.storeByte, hwalk] at hf
    exact absurd hf (by simp)

/-- **Copying to user memory without a fault** is copying to mapped pages. -/
theorem copyData_out_no_fault (src : Nat → Byte) (addr : Nat → Nat) (size : Nat)
    (hs : Mmu.Fresh pt s)
    (hf : (copyData (fun o s => (src o, s)) (fun o => Mmu.storeByte pt (addr o)) size s).fault =
      false) : ∀ o < size, (pt (addr o / pageBytes)).present = true := by
  have hstep : ∀ o s', (Mmu.Fresh pt s' ∧
      (s'.fault = false → ∀ i < o, (pt (addr i / pageBytes)).present = true)) →
      Mmu.Fresh pt (Mmu.storeByte pt (addr o) (src o) s') ∧
        ((Mmu.storeByte pt (addr o) (src o) s').fault = false →
          ∀ i < o + 1, (pt (addr i / pageBytes)).present = true) := by
    rintro o s' ⟨hfresh, hall⟩
    refine ⟨hfresh.storeByte, fun hno i hi => ?_⟩
    obtain ⟨hp, hno'⟩ := storeByte_no_fault hfresh hno
    by_cases hio : i = o
    · rw [hio]
      exact hp
    · exact hall hno' i (by omega)
  have hall := @copyData_induction Mmu (fun o s => (src o, s))
    (fun o => Mmu.storeByte pt (addr o)) (fun o s' => Mmu.Fresh pt s' ∧
      (s'.fault = false → ∀ i < o, (pt (addr i / pageBytes)).present = true)) size s
    (Int.natCast_nonneg size) ⟨hs, fun _ i hi => absurd hi (by omega)⟩
    (fun o s' hc _ => hstep _ _ (hstep _ _ (hstep _ _ (hstep _ _ hc))))
    fun o s' hc _ => hstep _ _ hc
  exact hall.2 hf

end Out

/-! ### Copying in flat memory -/

section Flat

variable {m : Mem} {start dest : Word} {size : Int}

/-- `copy_data` between two addresses of flat memory. -/
def copyFlat (start dest : Word) (size : Int) (m : Mem) : Mem :=
  copyData (fun o m => (m (start + BitVec.ofNat 32 o), m))
    (fun o b m => Function.update m (dest + BitVec.ofNat 32 o) b) size m

/-- The state of a copy after `o` bytes: they are those of the source, and every
byte outside them is as it was. -/
structure FlatCopied (m : Mem) (start dest : Word) (o : Nat) (m' : Mem) : Prop where
  /-- The bytes copied so far. -/
  copied : ∀ i, i < o → m' (dest + BitVec.ofNat 32 i) = m (start + BitVec.ofNat 32 i)
  /-- The bytes outside the destination. -/
  outside : ∀ x, o ≤ (x - dest).toNat → m' x = m x

/-- Writing the next byte. -/
theorem FlatCopied.write {o : Nat} {m' : Mem} (hc : FlatCopied m start dest o m')
    (ho : o < 2 ^ 32) :
    FlatCopied m start dest (o + 1)
      (Function.update m' (dest + BitVec.ofNat 32 o) (m (start + BitVec.ofNat 32 o))) := by
  constructor
  · intro i hi
    by_cases hio : i = o
    · subst hio
      rw [Function.update_self]
    · rw [Function.update_of_ne (by bv_omega)]
      exact hc.copied i (by omega)
  · intro x hx
    rw [Function.update_of_ne (by bv_omega)]
    exact hc.outside x (by omega)

/-- **`copy_data` copies exactly**, as long as neither block wraps around and the
destination is not inside the source after its start. -/
theorem copyFlat_spec (hs : 0 ≤ size) (hstart : start.toNat + size.toNat ≤ 2 ^ 32)
    (hdest : dest.toNat + size.toNat ≤ 2 ^ 32)
    (hover : dest.toNat ≤ start.toNat ∨ start.toNat + size.toNat ≤ dest.toNat) :
    FlatCopied m start dest size.toNat (copyFlat start dest size m) := by
  -- the bytes still to be read have not been written yet
  have hread : ∀ o k m', FlatCopied m start dest o m' → o ≤ k → (k : Int) < size →
      m' (start + BitVec.ofNat 32 k) = m (start + BitVec.ofNat 32 k) := by
    intro o k m' hc hok hk
    exact hc.outside _ (by bv_omega)
  refine copyData_induction (I := FlatCopied m start dest) hs
    ⟨fun i hi => absurd hi (by omega), fun _ _ => rfl⟩ ?_ ?_
  · intro o m' hc ho
    simp only [copyDWord]
    rw [hread o o m' hc (by omega) (by omega), hread o (o + 1) m' hc (by omega) (by omega),
      hread o (o + 2) m' hc (by omega) (by omega), hread o (o + 3) m' hc (by omega) (by omega)]
    exact (((hc.write (by omega)).write (by omega)).write (by omega)).write (by omega)
  · intro o m' hc ho
    simp only [copyByte]
    rw [hread o o m' hc (by omega) ho]
    exact hc.write (by omega)

end Flat

/-! ### Checking user pointers -/

/-- The kind of access a pointer is checked for. -/
inductive AccessType
  /-- `VERIFY_READ` -/
  | verifyRead
  /-- `VERIFY_WRITE` -/
  | verifyWrite
deriving DecidableEq

/-- The inclusive page bounds `access_ok` compares with. -/
structure AccessBounds where
  /-- The bounds of the `VERIFY_WRITE` case. -/
  write : Nat × Nat
  /-- The bounds of the `default` case. -/
  read : Nat × Nat

/-- `access_ok`: whether a block of user memory may be accessed. The
`VERIFY_WRITE` case has no `break`: a block it does not accept is handed on to
the `default` case. -/
def accessOk (bd : AccessBounds) (type : AccessType) (addr size : Word) : Bool :=
  let addrIni := addr.toNat / pageBytes
  let addrFin := (addr + size).toNat / pageBytes
  if addrFin < addrIni then false
  else match type with
    | .verifyWrite =>
      if bd.write.1 ≤ addrIni ∧ addrFin ≤ bd.write.2 then true
      else decide (bd.read.1 ≤ addrIni ∧ addrFin ≤ bd.read.2)
    | .verifyRead => decide (bd.read.1 ≤ addrIni ∧ addrFin ≤ bd.read.2)

end Zeos
