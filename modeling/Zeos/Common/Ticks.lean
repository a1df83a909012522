import Zeos.Lib.Positional
import Zeos.Lib.X86

/-!
# Ticks

`get_ticks` (`utils.c`) of the kernels with statistics: the time-stamp counter, a number of
64 bits, divided by `CYCLESPERTICK`. The machine divides 64 bits by 32 and faults if the
quotient has more than 32, so `do_div` makes two divisions of one. It is short division
with words for limbs (`Zeos.doDiv_eq`), and what the second division is given for a high
word is a remainder of the first. `get_ticks` returns the low word of the quotient, which
is enough to measure time by: a difference of two results is right modulo `2 ^ 32`
(`Zeos.get_ticks_exact`).
-/

namespace Zeos

open ByteMem Positional X86

variable {n : BitVec 64} {base high eax edx : Word}

/-! ### The two functions -/

/-- `CYCLESPERTICK` -/
def cyclesPerTick : Word := 109000

/-- The `if (__high)` of `do_div`: `__upper` and `__high` after it. -/
def splitHigh (high base : Word) : Word × Word :=
  if high ≠ 0 then (high % base, high / base) else (high, high)

/-- `do_div`: the 64-bit quotient that is left in `n`, and the remainder it returns. -/
def doDiv (n : BitVec 64) (base : Word) : Option (BitVec 64 × Word) := do
  let (upper, high) := splitHigh ((n >>> 32).setWidth 32) base
  let (low, mod) ← divl base upper (n.setWidth 32)
  some (high ++ low, mod)

/-- `get_ticks`, the registers being those that `rdtsc` has set. -/
def getTicks (eax edx : Word) : Option Word := do
  let ticks := (edx.setWidth 64 <<< 32) + eax.setWidth 64
  let (ticks, _) ← doDiv ticks cyclesPerTick
  some (ticks.setWidth 32)

/-- The value of the time-stamp counter. -/
def stamp (eax edx : Word) : Nat := edx.toNat * 2 ^ 32 + eax.toNat

/-! ### Division -/

/-- **The first division**, which is skipped if there is nothing to divide. -/
theorem splitHigh_eq :
    (splitHigh high base).1.toNat = high.toNat % base.toNat ∧
      (splitHigh high base).2.toNat = high.toNat / base.toNat := by
  unfold splitHigh
  by_cases h : high = 0
  · subst h
    simp
  · rw [if_pos h]
    exact ⟨BitVec.toNat_umod, BitVec.toNat_udiv⟩

/-- The word that `divl` gets for a high word is smaller than the divisor. -/
theorem splitHigh_lt (hb : base ≠ 0) : (splitHigh high base).1 < base := by
  have hpos : 0 < base.toNat := by bv_omega
  rw [BitVec.lt_def, splitHigh_eq.1]
  exact Nat.mod_lt _ hpos

/-- Two words side by side. -/
theorem toNat_append_word {x y : Word} : (x ++ y).toNat = x.toNat * 2 ^ 32 + y.toNat := by
  rw [BitVec.toNat_append, ← Nat.shiftLeft_add_eq_or_of_lt y.isLt, Nat.shiftLeft_eq]

/-- **`do_div` is short division** of the two words of a number. -/
theorem doDiv_eq (hb : base ≠ 0) : doDiv n base =
    some (BitVec.ofNat 64 (n.toNat / base.toNat), BitVec.ofNat 32 (n.toNat % base.toNat)) := by
  have hpos : 0 < base.toNat := by bv_omega
  set low : Word := n.setWidth 32 with hlow
  set high : Word := (n >>> 32).setWidth 32 with hhigh
  have hlimbs : ∀ x ∈ [low.toNat, high.toNat], x < 2 ^ 32 := by
    simp only [List.forall_mem_cons]
    exact ⟨low.isLt, high.isLt, fun x hx => absurd hx List.not_mem_nil⟩
  have hn : Nat.ofDigits (2 ^ 32) [low.toNat, high.toNat] = n.toNat := by
    simp only [Nat.ofDigits_cons, Nat.ofDigits_nil]
    bv_omega
  obtain ⟨hupper, hquot⟩ := @splitHigh_eq base high
  obtain ⟨hq, hr⟩ := shortDiv_eq hpos hlimbs
  simp only [shortDiv, Nat.zero_mul, Nat.zero_add, Nat.ofDigits_cons, Nat.ofDigits_nil, hn,
    ← hupper, ← hquot] at hq hr
  have hlt : (splitHigh high base).1 < base := splitHigh_lt hb
  have hstep := step_lt (B := 2 ^ 32) hlt low.isLt
  rw [doDiv, ← hhigh, ← hlow]
  simp only [divl_of_lt hlt hstep, Option.bind_eq_bind, Option.bind_some]
  refine congrArg some (Prod.ext (BitVec.eq_of_toNat_eq ?_) ?_)
  · have hle : n.toNat / base.toNat < 2 ^ 64 := lt_of_le_of_lt (Nat.div_le_self _ _) n.isLt
    rw [toNat_append_word, BitVec.toNat_ofNat, BitVec.toNat_ofNat, Nat.mod_eq_of_lt hstep,
      Nat.mod_eq_of_lt hle, ← hq]
    omega
  · rw [← hr]

/-! ### Ticks -/

/-- The counter as `get_ticks` puts it together. -/
theorem stamp_eq : ((edx.setWidth 64 <<< 32) + eax.setWidth 64 : BitVec 64).toNat =
    stamp eax edx := by
  unfold stamp
  bv_omega

/-- **`get_ticks` returns the quotient**, modulo `2 ^ 32`. -/
theorem getTicks_eq (eax edx : Word) :
    getTicks eax edx = some (BitVec.ofNat 32 (stamp eax edx / cyclesPerTick.toNat)) := by
  rw [getTicks]
  simp only [doDiv_eq (show cyclesPerTick ≠ 0 by decide), stamp_eq, Option.bind_eq_bind,
    Option.bind_some, BitVec.setWidth_ofNat_of_le (show 32 ≤ 64 by decide)]

/-- Two numbers less than a word apart have their difference as the difference of their
low words. -/
theorem ofNat_sub_ofNat {p q : Nat} (hle : p ≤ q) (hlt : q < p + 2 ^ 32) :
    (BitVec.ofNat 32 q - BitVec.ofNat 32 p).toNat = q - p := by
  bv_omega

/-- **The time between two readings** of the counter. -/
theorem getTicks_sub {eax' edx' ticks ticks' : Word} (h : getTicks eax edx = some ticks)
    (h' : getTicks eax' edx' = some ticks') (hle : stamp eax edx ≤ stamp eax' edx')
    (hlt : stamp eax' edx' / cyclesPerTick.toNat <
      stamp eax edx / cyclesPerTick.toNat + 2 ^ 32) :
    (ticks' - ticks).toNat =
      stamp eax' edx' / cyclesPerTick.toNat - stamp eax edx / cyclesPerTick.toNat := by
  rw [getTicks_eq] at h h'
  obtain rfl := Option.some.inj h
  obtain rfl := Option.some.inj h'
  exact ofNat_sub_ofNat (Nat.div_le_div_right hle) hlt

/-- **`get_ticks` divides exactly**: the second division of `do_div` never faults, because
its high word is smaller than the divisor, and leaves the quotient; its low word is what is
returned, and the difference of two results is the difference of the quotients, if these
are less than `2 ^ 32` apart. -/
theorem get_ticks_exact :
    (∀ n : BitVec 64, (splitHigh ((n >>> 32).setWidth 32) cyclesPerTick).1 < cyclesPerTick ∧
      ∃ ticks mod, doDiv n cyclesPerTick = some (ticks, mod) ∧
        ticks.toNat = n.toNat / cyclesPerTick.toNat) ∧
    (∀ eax edx, ∃ ticks, getTicks eax edx = some ticks ∧
      ticks.toNat = stamp eax edx / cyclesPerTick.toNat % 2 ^ 32) ∧
    ∀ eax edx eax' edx' ticks ticks', getTicks eax edx = some ticks →
      getTicks eax' edx' = some ticks' → stamp eax edx ≤ stamp eax' edx' →
      stamp eax' edx' / cyclesPerTick.toNat <
        stamp eax edx / cyclesPerTick.toNat + 2 ^ 32 →
      (ticks' - ticks).toNat =
        stamp eax' edx' / cyclesPerTick.toNat - stamp eax edx / cyclesPerTick.toNat := by
  have hb : cyclesPerTick ≠ 0 := by decide
  refine ⟨fun n => ⟨splitHigh_lt hb, _, _, doDiv_eq hb, ?_⟩, fun eax edx => ⟨_, getTicks_eq eax edx,
    BitVec.toNat_ofNat _ _⟩, fun eax edx eax' edx' ticks ticks' h h' hle hlt =>
      getTicks_sub h h' hle hlt⟩
  rw [BitVec.toNat_ofNat]
  exact Nat.mod_eq_of_lt (lt_of_le_of_lt (Nat.div_le_self _ _) n.isLt)

/-- Three ticks, while their number passes the greatest word. -/
theorem get_ticks_exact_wrap :
    getTicks 0xFFFE5638 108999 = some 0xFFFFFFFF ∧ getTicks 218000 109000 = some 2 ∧
      ((2 : Word) - 0xFFFFFFFF).toNat = 3 := by
  have h : getTicks 0xFFFE5638 108999 = some 0xFFFFFFFF := by decide +kernel
  have h' : getTicks 218000 109000 = some 2 := by decide +kernel
  exact ⟨h, h', (get_ticks_exact.2.2 _ _ _ _ _ _ h h' (by decide +kernel)
    (by decide +kernel)).trans (by decide +kernel)⟩

end Zeos
