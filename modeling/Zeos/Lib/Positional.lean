import Mathlib.Data.Nat.Digits.Lemmas

/-!
# Positional numbers

What a program does to numbers that it has as digits, or limbs, in some base. A number is
the list of its digits with the least significant one first, as in `Nat.ofDigits`, unless
it is to be read by a human.

*Short division* divides a number of several limbs by a divisor of one limb, as it is done
by hand: from the most significant limb down, each remainder is carried into the next limb.
It works on a machine whose division instruction takes a dividend of two limbs and must
give a quotient of one: the limb carried in is a remainder, hence smaller than the divisor,
so that no quotient is too large (`Positional.step_lt`). All of it together is the division
of the two numbers (`Positional.shortDiv_eq`).

The *numeral* of a number is what is written for it, the most significant digit first and
without leading zeros (`Positional.IsNumeral`). Repeated division gives its digits in the
reverse order (`Positional.isNumeral_digits`), except for zero, which has none. In a
numeral of a fixed length (`Positional.IsFixed`) zero is a number like the others, and
repeated division gives one more digit in each round (`Positional.IsFixed.cons`).
-/

namespace Positional

variable {B b d k n r x : ℕ} {ds xs : List ℕ}

/-! ### Short division -/

/-- Divide the number with the given limbs in base `B` by `d`: the limbs of the quotient,
and the remainder. -/
def shortDiv (B d : ℕ) : List ℕ → List ℕ × ℕ
  | [] => ([], 0)
  | x :: xs =>
    let (qs, r) := shortDiv B d xs
    ((r * B + x) / d :: qs, (r * B + x) % d)

/-- **One step gives one limb**, if the limb carried into it is smaller than the divisor. -/
theorem step_lt (hr : r < d) (hx : x < B) : (r * B + x) / d < B := by
  refine Nat.div_lt_of_lt_mul ?_
  calc
    r * B + x < r * B + B := Nat.add_lt_add_left hx _
    _ = (r + 1) * B := (Nat.succ_mul r B).symm
    _ ≤ d * B := Nat.mul_le_mul_right B hr

/-- **The quotient has limbs for digits.** -/
theorem shortDiv_lt (hd : 0 < d) (hx : ∀ x ∈ xs, x < B) :
    (∀ q ∈ (shortDiv B d xs).1, q < B) ∧ (shortDiv B d xs).2 < d := by
  induction xs with
  | nil => exact ⟨fun q hq => absurd hq List.not_mem_nil, hd⟩
  | cons x xs ih =>
    rw [List.forall_mem_cons] at hx
    obtain ⟨hqs, hr⟩ := ih hx.2
    exact ⟨List.forall_mem_cons.mpr ⟨step_lt hr hx.1, hqs⟩, Nat.mod_lt _ hd⟩

/-- Quotient and remainder make up the number. -/
theorem shortDiv_spec :
    Nat.ofDigits B (shortDiv B d xs).1 * d + (shortDiv B d xs).2 = Nat.ofDigits B xs := by
  induction xs with
  | nil => simp [shortDiv]
  | cons x xs ih =>
    rw [shortDiv]
    simp only [Nat.ofDigits_cons]
    rw [← ih]
    have hstep := Nat.div_add_mod' ((shortDiv B d xs).2 * B + x) d
    linarith

/-- **Short division is division.** -/
theorem shortDiv_eq (hd : 0 < d) (hx : ∀ x ∈ xs, x < B) :
    Nat.ofDigits B (shortDiv B d xs).1 = Nat.ofDigits B xs / d ∧
      (shortDiv B d xs).2 = Nat.ofDigits B xs % d := by
  have hr := (shortDiv_lt hd hx).2
  have hnum : (shortDiv B d xs).2 + d * Nat.ofDigits B (shortDiv B d xs).1 =
      Nat.ofDigits B xs := by
    rw [Nat.add_comm, Nat.mul_comm]
    exact shortDiv_spec
  obtain ⟨hq, hm⟩ := (Nat.div_mod_unique hd).mpr ⟨hnum, hr⟩
  exact ⟨hq.symm, hm.symm⟩

/-! ### Numerals -/

/-- **The numeral of a number in a base**, the most significant digit first. -/
structure IsNumeral (b n : ℕ) (ds : List ℕ) : Prop where
  /-- It consists of digits. -/
  digit : ∀ d ∈ ds, d < b
  /-- It has the value of the number. -/
  value : Nat.ofDigits b ds.reverse = n
  /-- It has as many digits as the number. -/
  length : ds.length = Nat.log b n + 1
  /-- It does not begin with a zero, unless it is the one of zero. -/
  leading : n ≠ 0 → ds.head? ≠ some 0

/-- The numeral of zero is a zero. -/
theorem isNumeral_zero (hb : 1 < b) : IsNumeral b 0 [0] := by
  refine ⟨fun d hd => ?_, by simp, by simp, fun h => absurd rfl h⟩
  rw [List.mem_singleton.mp hd]
  exact Nat.zero_lt_of_lt hb

/-- **Repeated division gives the numeral backwards.** -/
theorem isNumeral_digits (hb : 1 < b) (hn : n ≠ 0) : IsNumeral b n (Nat.digits b n).reverse := by
  have hne : Nat.digits b n ≠ [] := Nat.digits_ne_nil_iff_ne_zero.mpr hn
  refine ⟨fun d hd => Nat.digits_lt_base hb (List.mem_reverse.mp hd), ?_, ?_, fun _ h => ?_⟩
  · rw [List.reverse_reverse, Nat.ofDigits_digits]
  · rw [List.length_reverse, Nat.length_digits b n hb hn]
  · rw [List.head?_reverse, List.getLast?_eq_some_getLast hne] at h
    exact Nat.getLast_digit_ne_zero b hn (Option.some.inj h)

/-! ### Numerals of a fixed length -/

/-- **The numeral of a number with `k` digits**, the most significant one first: it begins
with zeros if the number has fewer digits. -/
structure IsFixed (b k n : ℕ) (ds : List ℕ) : Prop where
  /-- It consists of digits. -/
  digit : ∀ d ∈ ds, d < b
  /-- It has the value of the number. -/
  value : Nat.ofDigits b ds.reverse = n
  /-- It has as many digits as it should have. -/
  length : ds.length = k

/-- Without digits there is no number but zero. -/
theorem isFixed_nil : IsFixed b 0 (n % b ^ 0) [] := by
  refine ⟨fun d hd => absurd hd List.not_mem_nil, ?_, rfl⟩
  rw [pow_zero, Nat.mod_one]
  rfl

/-- **One more round of division**: what is left after `k` of them gives the next digit. -/
theorem IsFixed.cons (hb : 0 < b) (h : IsFixed b k (n % b ^ k) ds) :
    IsFixed b (k + 1) (n % b ^ (k + 1)) (n / b ^ k % b :: ds) := by
  refine ⟨List.forall_mem_cons.mpr ⟨Nat.mod_lt _ hb, h.digit⟩, ?_, ?_⟩
  · rw [List.reverse_cons, Nat.ofDigits_append, h.value, Nat.ofDigits_singleton,
      List.length_reverse, h.length, Nat.mod_pow_succ]
  · rw [List.length_cons, h.length]

end Positional
