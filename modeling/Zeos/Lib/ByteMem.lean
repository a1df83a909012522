import Mathlib.Algebra.GroupWithZero.Nat
import Mathlib.Algebra.Group.Int.Defs
import Mathlib.Data.List.Basic
import Mathlib.Tactic.Common

/-!
# Byte-addressed memory with 32-bit words

Memory maps 32-bit addresses to bytes; a word is stored little-endian in four
consecutive bytes, addresses wrapping at the top. Two facts carry everything:
a word reads back what was written at the same address
(`ByteMem.load32_store32`), and a word at an address that is *apart* – at least
four bytes away in both directions around the circle – is unchanged
(`ByteMem.load32_store32_of_apart`).

A stack is then a statement about a list of words: `ByteMem.Words m a ws` says
that the words of `ws` lie at `a`, `a + 4`, …. Pushing stores below the list and
extends it at its front (`ByteMem.Words.push`), and a memory agreeing on the
bytes of the list carries the same list (`ByteMem.Words.congr`), so symbolic
execution of pushes and pops never looks at an address again. `ByteMem.block` are the
bytes from an address on, and `ByteMem.fill` puts a block of bytes there; doing so in
portions comes to the same thing (`ByteMem.fill_fill`). A block of characters with a null
character after it is a string (`ByteMem.CString`).
-/

namespace ByteMem

/-- A byte. -/
abbrev Byte := BitVec 8

/-- A machine word, also an address. -/
abbrev Word := BitVec 32

/-- The contents of memory. -/
abbrev Mem := Word → Byte

/-! ### Words as bytes -/

/-- The `k`-th byte of a word, the least significant one first. -/
def byteOf (w : Word) (k : Nat) : Byte := BitVec.ofNat 8 (w.toNat / 256 ^ k)

/-- The word made of four bytes, the least significant one first. -/
def ofBytes (b₀ b₁ b₂ b₃ : Byte) : Word :=
  BitVec.ofNat 32 (b₀.toNat + 256 * b₁.toNat + 256 ^ 2 * b₂.toNat + 256 ^ 3 * b₃.toNat)

/-- A word is made of its bytes. -/
theorem ofBytes_byteOf (w : Word) :
    ofBytes (byteOf w 0) (byteOf w 1) (byteOf w 2) (byteOf w 3) = w := by
  apply BitVec.eq_of_toNat_eq
  have h := w.isLt
  simp only [ofBytes, byteOf, BitVec.toNat_ofNat]
  omega

/-! ### Loading and storing -/

/-- The word at an address. -/
def load32 (m : Mem) (a : Word) : Word := ofBytes (m a) (m (a + 1)) (m (a + 2)) (m (a + 3))

/-- The memory after a word has been stored. -/
def store32 (m : Mem) (a w : Word) : Mem := fun x =>
  if x = a then byteOf w 0
  else if x = a + 1 then byteOf w 1
  else if x = a + 2 then byteOf w 2
  else if x = a + 3 then byteOf w 3
  else m x

/-- Two word addresses whose bytes do not overlap. -/
def Apart (a b : Word) : Prop := 4 ≤ (a - b).toNat ∧ 4 ≤ (b - a).toNat

theorem Apart.symm {a b : Word} (h : Apart a b) : Apart b a := ⟨h.2, h.1⟩

/-- **Reading back a stored word.** -/
@[simp] theorem load32_store32 (m : Mem) (a w : Word) : load32 (store32 m a w) a = w := by
  have h1 : a + 1 ≠ a := by bv_omega
  have h2 : a + 2 ≠ a := by bv_omega
  have h3 : a + 3 ≠ a := by bv_omega
  have h21 : a + 2 ≠ a + 1 := by bv_omega
  have h31 : a + 3 ≠ a + 1 := by bv_omega
  have h32 : a + 3 ≠ a + 2 := by bv_omega
  simp only [load32, store32, if_true, if_neg h1, if_neg h2, if_neg h3, if_neg h21, if_neg h31,
    if_neg h32]
  exact ofBytes_byteOf w

/-- A store changes only the four bytes it writes. -/
theorem store32_of_le {m : Mem} {a w x : Word} (h : 4 ≤ (x - a).toNat) :
    store32 m a w x = m x := by
  have h0 : x ≠ a := by bv_omega
  have h1 : x ≠ a + 1 := by bv_omega
  have h2 : x ≠ a + 2 := by bv_omega
  have h3 : x ≠ a + 3 := by bv_omega
  simp only [store32, if_neg h0, if_neg h1, if_neg h2, if_neg h3]

/-- Loading depends on the four bytes read only. -/
theorem load32_congr {m m' : Mem} {a : Word} (h : ∀ x, (x - a).toNat < 4 → m' x = m x) :
    load32 m' a = load32 m a := by
  have h0 : m' a = m a := h a (by bv_omega)
  have h1 : m' (a + 1) = m (a + 1) := h _ (by bv_omega)
  have h2 : m' (a + 2) = m (a + 2) := h _ (by bv_omega)
  have h3 : m' (a + 3) = m (a + 3) := h _ (by bv_omega)
  rw [load32, load32, h0, h1, h2, h3]

/-- The bytes of two words that are equal. -/
theorem ofBytes_inj {b₀ b₁ b₂ b₃ b₀' b₁' b₂' b₃' : Byte}
    (h : ofBytes b₀ b₁ b₂ b₃ = ofBytes b₀' b₁' b₂' b₃') :
    b₀ = b₀' ∧ b₁ = b₁' ∧ b₂ = b₂' ∧ b₃ = b₃' := by
  have hnat := congrArg BitVec.toNat h
  simp only [ofBytes, BitVec.toNat_ofNat] at hnat
  have h0 := b₀.isLt
  have h1 := b₁.isLt
  have h2 := b₂.isLt
  have h3 := b₃.isLt
  have h0' := b₀'.isLt
  have h1' := b₁'.isLt
  have h2' := b₂'.isLt
  have h3' := b₃'.isLt
  refine ⟨?_, ?_, ?_, ?_⟩ <;> apply BitVec.eq_of_toNat_eq <;> omega

/-- Memories with the same word at an address have the same four bytes there. -/
theorem eq_of_load32_eq {m m' : Mem} {a x : Word} (h : load32 m a = load32 m' a)
    (hx : (x - a).toNat < 4) : m x = m' x := by
  obtain ⟨h0, h1, h2, h3⟩ := ofBytes_inj h
  have hcases : x = a ∨ x = a + 1 ∨ x = a + 2 ∨ x = a + 3 := by bv_omega
  rcases hcases with rfl | rfl | rfl | rfl
  · exact h0
  · exact h1
  · exact h2
  · exact h3

/-- **A word that is apart from a stored one is unchanged.** -/
theorem load32_store32_of_apart {m : Mem} {a b w : Word} (h : Apart a b) :
    load32 (store32 m a w) b = load32 m b := by
  obtain ⟨h1, h2⟩ := h
  exact load32_congr fun x hx => store32_of_le (by bv_omega)

/-! ### Lists of words -/

/-- The words of `ws` lie in memory from address `a` upwards. -/
def Words (m : Mem) : Word → List Word → Prop
  | _, [] => True
  | a, w :: ws => load32 m a = w ∧ Words m (a + 4) ws

theorem words_cons {m : Mem} {a w : Word} {ws : List Word} :
    Words m a (w :: ws) ↔ load32 m a = w ∧ Words m (a + 4) ws := Iff.rfl

/-- Lists of words lie one after the other. -/
theorem words_append {m : Mem} {a : Word} {ws vs : List Word} :
    Words m a (ws ++ vs) ↔ Words m a ws ∧ Words m (a + BitVec.ofNat 32 (4 * ws.length)) vs := by
  induction ws generalizing a with
  | nil => simp [Words]
  | cons w ws ih =>
    rw [List.cons_append, words_cons, words_cons, ih, and_assoc]
    have : a + 4 + BitVec.ofNat 32 (4 * ws.length) =
        a + BitVec.ofNat 32 (4 * (w :: ws).length) := by
      rw [List.length_cons]
      bv_omega
    rw [this]

/-- A memory agreeing on the bytes of a list of words carries the same list. -/
theorem Words.congr {m m' : Mem} {a : Word} {ws : List Word} (hw : Words m a ws)
    (hlen : 4 * ws.length ≤ 2 ^ 32)
    (h : ∀ x, (x - a).toNat < 4 * ws.length → m' x = m x) : Words m' a ws := by
  induction ws generalizing a with
  | nil => trivial
  | cons w ws ih =>
    rw [List.length_cons] at h hlen
    refine ⟨(load32_congr fun x hx => h x (by omega)).trans hw.1, ih hw.2 (by omega) ?_⟩
    intro x hx
    refine h x ?_
    -- moving the base up by four cannot take an offset past the end of the list
    have : (x - a).toNat = (x - (a + 4)).toNat + 4 := by bv_omega
    omega

/-- A list of words that has been copied to another place. -/
theorem Words.copy {m m' : Mem} {a b : Word} {ws : List Word} (hw : Words m a ws)
    (h : ∀ i < 4 * ws.length, m' (b + BitVec.ofNat 32 i) = m (a + BitVec.ofNat 32 i)) :
    Words m' b ws := by
  induction ws generalizing a b with
  | nil => trivial
  | cons w ws ih =>
    rw [List.length_cons] at h
    refine ⟨?_, ih hw.2 fun i hi => ?_⟩
    · have h0 := h 0 (by omega)
      rw [BitVec.add_zero, BitVec.add_zero] at h0
      have h1 : m' (b + 1) = m (a + 1) := h 1 (by omega)
      have h2 : m' (b + 2) = m (a + 2) := h 2 (by omega)
      have h3 : m' (b + 3) = m (a + 3) := h 3 (by omega)
      rw [← hw.1, load32, load32, h0, h1, h2, h3]
    · have := h (i + 4) (by omega)
      have e : ∀ c : Word, c + 4 + BitVec.ofNat 32 i = c + BitVec.ofNat 32 (i + 4) := fun c => by
        bv_omega
      rw [e, e, this]

/-- A list of words below which a word is stored. -/
theorem Words.push {m : Mem} {a w : Word} {ws : List Word} (hw : Words m a ws)
    (hlen : 4 * ws.length + 4 ≤ 2 ^ 32) : Words (store32 m (a - 4) w) (a - 4) (w :: ws) := by
  refine ⟨load32_store32 _ _ _, ?_⟩
  rw [BitVec.sub_add_cancel]
  refine hw.congr (by omega) fun x hx => store32_of_le ?_
  bv_omega

/-- **Overwriting one word of a list.** -/
theorem Words.set {m : Mem} {a w v : Word} {vs : List Word} (ws : List Word)
    (hw : Words m a (ws ++ w :: vs))
    (hlen : 4 * (ws ++ w :: vs).length ≤ 2 ^ 32) :
    Words (store32 m (a + BitVec.ofNat 32 (4 * ws.length)) v) a (ws ++ v :: vs) := by
  rw [List.length_append, List.length_cons] at hlen
  obtain ⟨h1, -, h2⟩ := words_append.mp hw
  refine words_append.mpr ⟨?_, load32_store32 _ _ _, ?_⟩
  · refine h1.congr (by omega) fun x hx => store32_of_le ?_
    bv_omega
  · refine h2.congr (by omega) fun x hx => store32_of_le ?_
    bv_omega

/-- The word at an index of a list. -/
theorem Words.load {m : Mem} {a w : Word} {vs : List Word} (ws : List Word)
    (hw : Words m a (ws ++ w :: vs)) : load32 m (a + BitVec.ofNat 32 (4 * ws.length)) = w :=
  (words_append.mp hw).2.1

/-! ### Blocks of bytes -/

section Block

variable {m m' : Mem} {p p' : Word} {n k : Nat}

/-- The `n` bytes from an address on. -/
def block (m : Mem) (p : Word) (n : Nat) : List Byte :=
  (List.range n).map fun i => m (p + BitVec.ofNat 32 i)

theorem block_zero : block m p 0 = [] := rfl

theorem block_succ : block m p (n + 1) = block m p n ++ [m (p + BitVec.ofNat 32 n)] := by
  rw [block, List.range_succ, List.map_append]
  rfl

/-- Two blocks, one after the other. -/
theorem block_add : block m p (n + k) = block m p n ++ block m (p + BitVec.ofNat 32 n) k := by
  rw [block, List.range_add, List.map_append, List.map_map]
  refine congrArg _ (List.map_congr_left fun i _ => ?_)
  have : p + BitVec.ofNat 32 (n + i) = p + BitVec.ofNat 32 n + BitVec.ofNat 32 i := by
    rw [BitVec.ofNat_add, BitVec.add_assoc]
  simp only [Function.comp_apply, this]

theorem block_congr (h : ∀ i < n, m' (p' + BitVec.ofNat 32 i) = m (p + BitVec.ofNat 32 i)) :
    block m' p' n = block m p n :=
  List.map_congr_left fun i hi => h i (List.mem_range.mp hi)

/-- A byte in front of a block. -/
theorem block_cons : block m p (n + 1) = m p :: block m (p + 1) n := by
  rw [Nat.add_comm, block_add, block_succ, block_zero, BitVec.add_zero]
  rfl

theorem length_block : (block m p n).length = n := by
  rw [block, List.length_map, List.length_range]

end Block

/-! ### Strings -/

/-- **A string**: the characters `cs` lie in memory from `a` on, and a null character after
them. -/
structure CString (m : Mem) (a : Word) (cs : List Byte) : Prop where
  /-- The characters. -/
  block : block m a cs.length = cs
  /-- None of them is the null character. -/
  ne_zero : ∀ c ∈ cs, c ≠ 0
  /-- The null character. -/
  terminator : m (a + BitVec.ofNat 32 cs.length) = 0

namespace CString

variable {m m' : Mem} {a : Word} {c : Byte} {cs : List Byte}

/-- A string without characters. -/
theorem nil_iff : CString m a [] ↔ m a = 0 := by
  have h0 : a + BitVec.ofNat 32 ([] : List Byte).length = a := BitVec.add_zero a
  constructor
  · intro h
    rw [← h0]
    exact h.terminator
  · intro h
    exact ⟨rfl, fun c hc => absurd hc List.not_mem_nil, by rw [h0]; exact h⟩

/-- A character, and the string after it. -/
theorem cons_iff : CString m a (c :: cs) ↔ m a = c ∧ c ≠ 0 ∧ CString m (a + 1) cs := by
  have hend : a + BitVec.ofNat 32 (c :: cs).length = a + 1 + BitVec.ofNat 32 cs.length := by
    rw [List.length_cons]
    bv_omega
  constructor
  · rintro ⟨h1, h2, h3⟩
    rw [List.length_cons, block_cons, List.cons.injEq] at h1
    rw [List.forall_mem_cons] at h2
    rw [hend] at h3
    exact ⟨h1.1, h2.1, h1.2, h2.2, h3⟩
  · rintro ⟨h1, h2, h3⟩
    refine ⟨?_, List.forall_mem_cons.mpr ⟨h2, h3.ne_zero⟩, by rw [hend]; exact h3.terminator⟩
    rw [List.length_cons, block_cons, h1, h3.block]

/-- Before the null character there is none. -/
theorem ne_zero_at (h : CString m a cs) {i : Nat} (hi : i < cs.length) :
    m (a + BitVec.ofNat 32 i) ≠ 0 := by
  refine h.ne_zero _ ?_
  rw [← h.block]
  exact List.mem_map_of_mem (List.mem_range.mpr hi)

/-- Only the bytes of the string matter. -/
theorem congr (h : CString m a cs)
    (hm : ∀ i ≤ cs.length, m' (a + BitVec.ofNat 32 i) = m (a + BitVec.ofNat 32 i)) :
    CString m' a cs := by
  refine ⟨?_, h.ne_zero, (hm _ (Nat.le_refl _)).trans h.terminator⟩
  exact (block_congr fun i hi => hm i (by omega)).trans h.block

end CString

/-! ### Filling memory -/

section Fill

variable {m : Mem} {f : Nat → Byte} {a n k : Nat} {x : Word}

/-- The memory after the bytes `f 0`, …, `f (n - 1)` have been put at the address `a` on. -/
def fill (m : Mem) (a n : Nat) (f : Nat → Byte) : Mem := fun x =>
  if a ≤ x.toNat ∧ x.toNat < a + n then f (x.toNat - a) else m x

theorem fill_zero : fill m a 0 f = m := funext fun _ => if_neg (by omega)

theorem fill_of_lt (h : x.toNat < a) : fill m a n f x = m x := if_neg (by omega)

theorem fill_of_le (h : a + n ≤ x.toNat) : fill m a n f x = m x := if_neg (by omega)

/-- What has been put where. -/
theorem fill_at {i : Nat} (hi : i < n) (hn : a + n ≤ 2 ^ 32) :
    fill m a n f (BitVec.ofNat 32 (a + i)) = f i := by
  have hx : (BitVec.ofNat 32 (a + i)).toNat = a + i := by
    rw [BitVec.toNat_ofNat]
    omega
  rw [fill, hx, if_pos (by omega), Nat.add_sub_cancel_left]

/-- **Filling in two portions.** -/
theorem fill_fill : fill (fill m a n f) (a + n) k (fun i => f (n + i)) = fill m a (n + k) f := by
  funext x
  simp only [fill]
  by_cases h1 : x.toNat < a + n
  · rw [if_neg (by omega)]
    by_cases h2 : a ≤ x.toNat
    · rw [if_pos (by omega), if_pos (by omega)]
    · rw [if_neg (by omega), if_neg (by omega)]
  · by_cases h2 : x.toNat < a + n + k
    · rw [if_pos (by omega), if_pos (by omega)]
      congr 1
      omega
    · rw [if_neg (by omega), if_neg (by omega), if_neg (by omega)]

end Fill

end ByteMem
