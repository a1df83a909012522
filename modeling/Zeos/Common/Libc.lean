import Zeos.Lib.Loop
import Zeos.Lib.Positional
import Zeos.Common.Copy

/-!
# Numbers for the user

`itoa` and `strlen` (`libc.c`), with which user programs print numbers. `itoa` writes the
digits of a number from the last one to the first, as repeated division gives them
(`Zeos.itoaDigits_eq`), and then exchanges each digit of the first half with its mirror
image (`Zeos.string_itoaSwap`). What is in the buffer in the end is the numeral of the
number, a string that `strlen` measures (`Zeos.itoa_prints`). As a number that is not
negative has ten digits at most, `itoa` touches no more than eleven bytes.
-/

namespace Zeos

open ByteMem Loop Positional

variable {t t' : Traced} {b : Word} {m : Mem} {i j n N fuel : Nat} {c : Byte}

/-! ### The two functions -/

/-- The `while` loop of `itoa`, which divides `a` until nothing is left: the number of
digits that have been written. -/
def itoaDigits (b : Word) : Nat → Int → Nat → Traced → Option (Nat × Traced)
  | 0, _, _, _ => none
  | fuel + 1, a, i, t =>
    if a > 0 then
      itoaDigits b fuel (a.tdiv 10) (i + 1) (t.write b i (BitVec.ofInt 8 (a.tmod 10 + 48)))
    else some (i, t)

/-- The `for` loop of `itoa`, which reverses the digits. -/
def itoaSwap (b : Word) (i : Nat) (t : Traced) : Traced :=
  forLoop (i / 2) (fun i1 t =>
    let (c, t) := t.read b i1
    let (d, t) := t.read b (i - i1 - 1)
    (t.write b i1 d).write b (i - i1 - 1) c) t

/-- `itoa` -/
def itoa (fuel : Nat) (a : Int) (b : Word) (t : Traced) : Option Traced :=
  if a = 0 then some ((t.write b 0 48).write b 1 0)
  else do
    let (i, t) ← itoaDigits b fuel a 0 t
    some ((itoaSwap b i t).write b i 0)

/-- The loop of `strlen`. -/
def strlenFrom (m : Mem) (a : Word) : Nat → Nat → Option Nat
  | 0, _ => none
  | fuel + 1, i =>
    if m (a + BitVec.ofNat 32 i) ≠ 0 then strlenFrom m a fuel (i + 1) else some i

/-- `strlen` -/
def strlen (fuel : Nat) (m : Mem) (a : Word) : Option Nat := strlenFrom m a fuel 0

/-! ### The bytes of a buffer -/

/-- A byte of the buffer. -/
def byteAt (t : Traced) (b : Word) (i : Nat) : Byte := t.mem (b + BitVec.ofNat 32 i)

/-- The first `n` bytes of the buffer. -/
def string (t : Traced) (b : Word) (n : Nat) : List Byte := (List.range n).map (byteAt t b)

/-- Writing a byte. -/
theorem byteAt_write (hi : i < 2 ^ 32) (hj : j < 2 ^ 32) :
    byteAt (t.write b i c) b j = if j = i then c else byteAt t b j := by
  by_cases h : j = i
  · subst h
    rw [if_pos rfl]
    exact Function.update_self _ _ _
  · rw [if_neg h]
    exact Function.update_of_ne (by bv_omega) _ _

/-- Writing the byte after a string leaves the string as it is. -/
theorem string_write_end (hn : n < 2 ^ 32) : string (t.write b n c) b n = string t b n := by
  refine List.map_congr_left fun j hj => ?_
  rw [List.mem_range] at hj
  rw [byteAt_write hn (by omega), if_neg (by omega)]

/-- It appends the byte. -/
theorem string_write (hn : n < 2 ^ 32) :
    string (t.write b n c) b (n + 1) = string t b n ++ [c] := by
  rw [string, List.range_succ, List.map_append, List.map_singleton, byteAt_write hn hn,
    if_pos rfl]
  exact congrArg (· ++ [c]) (string_write_end hn)

/-- **Only the first `n` bytes of the buffer have been written**, memory having been `m`. -/
structure Within (m : Mem) (b : Word) (n : Nat) (t : Traced) : Prop where
  /-- The writes. -/
  writes : ∀ x ∈ t.writes, ∃ i < n, x = b + BitVec.ofNat 32 i
  /-- The rest of memory. -/
  outside : ∀ x, (∀ i < n, x ≠ b + BitVec.ofNat 32 i) → t.mem x = m x

/-- Nothing has been written. -/
theorem within_nil : Within m b n ⟨m, [], []⟩ := by
  constructor
  · intro x hx
    exact absurd hx List.not_mem_nil
  · intro x _
    rfl

theorem Within.read (h : Within m b n t) (i : Nat) : Within m b n (t.read b i).2 :=
  ⟨h.writes, h.outside⟩

theorem Within.write (h : Within m b n t) (hi : i < n) (c : Byte) :
    Within m b n (t.write b i c) := by
  constructor
  · intro x hx
    rcases List.mem_append.mp hx with hx | hx
    · exact h.writes x hx
    · exact ⟨i, hi, List.mem_singleton.mp hx⟩
  · intro x hx
    exact (Function.update_of_ne (hx i hi) _ _).trans (h.outside x hx)

/-- The number of bytes that have been written. -/
theorem Within.card_le (h : Within m b n t) : t.writes.toFinset.card ≤ n := by
  have hsub : t.writes.toFinset ⊆
      (Finset.range n).image fun i => b + BitVec.ofNat 32 i := by
    intro x hx
    obtain ⟨i, hi, rfl⟩ := h.writes x (List.mem_toFinset.mp hx)
    exact Finset.mem_image_of_mem _ (Finset.mem_range.mpr hi)
  calc
    t.writes.toFinset.card ≤ _ := Finset.card_le_card hsub
    _ ≤ (Finset.range n).card := Finset.card_image_le
    _ = n := Finset.card_range n

/-! ### Writing the digits -/

/-- The character of a digit. -/
def digitByte (d : Nat) : Byte := BitVec.ofNat 8 (d + 48)

/-- The byte that a round of the `while` loop writes. -/
theorem ofInt_tmod (n : Nat) : BitVec.ofInt 8 ((n : Int).tmod 10 + 48) = digitByte (n % 10) := by
  have hcast : (n : Int).tmod 10 + 48 = ((n % 10 + 48 : Nat) : Int) := by
    rw [Int.tmod_eq_emod_of_nonneg (Int.natCast_nonneg n)]
    push_cast
    rfl
  rw [hcast, BitVec.ofInt_natCast, digitByte]

/-- **The `while` loop appends the digits**, the last one first, if it is given a round for
each of them and one to see that none is left. -/
theorem itoaDigits_eq (t : Traced) (b : Word) (n : Nat)
    (hi : i + (Nat.digits 10 n).length ≤ 2 ^ 32) :
    ∃ t', (∀ fuel, (Nat.digits 10 n).length < fuel →
        itoaDigits b fuel n i t = some (i + (Nat.digits 10 n).length, t')) ∧
      string t' b (i + (Nat.digits 10 n).length) =
        string t b i ++ (Nat.digits 10 n).map digitByte ∧
      ∀ m N, i + (Nat.digits 10 n).length ≤ N → Within m b N t → Within m b N t' := by
  induction n using Nat.strong_induction_on generalizing i t with
  | h n ih =>
    rcases Nat.eq_zero_or_pos n with rfl | hpos
    · refine ⟨t, fun fuel hfuel => ?_, by simp, fun m N _ h => h⟩
      obtain ⟨fuel, rfl⟩ := Nat.exists_eq_add_one.mpr (Nat.zero_lt_of_lt hfuel)
      rw [itoaDigits, if_neg (by decide)]
      simp
    · have hdigits := Nat.digits_def' (show 1 < 10 by decide) hpos
      rw [hdigits, List.length_cons] at hi
      obtain ⟨t', hrun, hstring, hwithin⟩ := @ih (n / 10) (Nat.div_lt_self hpos (by decide))
        (i + 1) (t.write b i (digitByte (n % 10))) (by omega)
      have hdiv : (n : Int).tdiv 10 = ((n / 10 : Nat) : Int) := by
        rw [Int.tdiv_eq_ediv_of_nonneg (Int.natCast_nonneg n)]
        rfl
      rw [hdigits, List.length_cons, List.map_cons, Nat.add_comm _ 1, ← Nat.add_assoc]
      refine ⟨t', fun fuel hfuel => ?_, ?_, fun m N hN h => hwithin m N hN (h.write (by omega) _)⟩
      · obtain ⟨fuel, rfl⟩ := Nat.exists_eq_add_one.mpr (Nat.zero_lt_of_lt hfuel)
        rw [itoaDigits, if_pos (by omega), hdiv, ofInt_tmod]
        exact hrun fuel (by omega)
      · rw [hstring, string_write (by omega), List.append_assoc]
        rfl

/-! ### Reversing them -/

/-- One round of the `for` loop. -/
theorem byteAt_swap (hn : n ≤ 2 ^ 32) (hi : i < n / 2) (hj : j < n) :
    byteAt ((t.write b i (byteAt t b (n - i - 1))).write b (n - i - 1) (byteAt t b i)) b j =
      if j = i then byteAt t b (n - i - 1) else if j = n - i - 1 then byteAt t b i
        else byteAt t b j := by
  rw [byteAt_write (by omega) (by omega), byteAt_write (by omega) (by omega)]
  by_cases h : j = n - i - 1
  · rw [if_pos h, if_neg (by omega), if_pos h]
  · rw [if_neg h, if_neg h]

/-- **The `for` loop reverses the string.** -/
theorem string_itoaSwap (hn : n ≤ 2 ^ 32) :
    string (itoaSwap b n t) b n = (string t b n).reverse := by
  refine List.ext_getElem (by simp [string]) fun j h1 h2 => ?_
  have hj : j < n := by simpa [string] using h1
  rw [List.getElem_reverse]
  simp only [string, List.getElem_map, List.getElem_range, List.length_map, List.length_range]
  rw [itoaSwap, Nat.sub_right_comm]
  refine @forLoop_reverse Traced _ n t Byte (fun t j => byteAt t b j) (fun i t hi j hj => ?_) j hj
  -- the two reads leave the buffer as it is
  exact @byteAt_swap ((t.read b i).2.read b (n - i - 1)).2 b i j n hn hi hj

/-- It writes no other bytes. -/
theorem within_itoaSwap (h : Within m b N t) (hn : n ≤ N) : Within m b N (itoaSwap b n t) := by
  refine forLoop_induction (I := fun _ t => Within m b N t) h fun i t hi ht => ?_
  exact (((ht.read i).read (n - i - 1)).write (by omega) _).write (by omega) _

/-! ### Reading them -/

/-- **`strlen` finds the terminator**, if it is given a round for every byte up to it. -/
theorem strlenFrom_eq (hi : i ≤ n) (hne : ∀ j < n, m (b + BitVec.ofNat 32 j) ≠ 0)
    (h0 : m (b + BitVec.ofNat 32 n) = 0) (hfuel : n - i < fuel) :
    strlenFrom m b fuel i = some n := by
  induction fuel generalizing i with
  | zero => exact absurd hfuel (Nat.not_lt_zero _)
  | succ fuel ih =>
    rw [strlenFrom]
    rcases Nat.eq_or_lt_of_le hi with rfl | hlt
    · rw [if_neg (not_not_intro h0)]
    · rw [if_pos (hne i hlt)]
      exact ih hlt (by omega)

/-- The byte of a digit, as a number. -/
theorem digitByte_toNat {d : Nat} (hd : d < 10) : (digitByte d).toNat = d + 48 := by
  rw [digitByte, BitVec.toNat_ofNat]
  omega

/-- **The numeral of `n` is in the buffer**, the rest of memory being what it was. -/
structure Printed (m : Mem) (b : Word) (n : Nat) (t : Traced) : Prop where
  /-- Its length is what `strlen` returns. -/
  strlen : ∀ fuel, 11 ≤ fuel → strlen fuel t.mem b = some (Nat.log 10 n + 1)
  /-- It consists of the characters from `'0'` to `'9'`. -/
  digit : ∀ c ∈ string t b (Nat.log 10 n + 1), 48 ≤ c.toNat ∧ c.toNat ≤ 57
  /-- They are the digits of the number. -/
  numeral : IsNumeral 10 n ((string t b (Nat.log 10 n + 1)).map fun c => c.toNat - 48)
  /-- A null character follows. -/
  terminator : byteAt t b (Nat.log 10 n + 1) = 0
  /-- No byte after that has been written. -/
  within : Within m b (Nat.log 10 n + 2) t
  /-- The number of bytes that have been written. -/
  card_le : t.writes.toFinset.card ≤ 11

/-- The digits of a numeral, and the byte after them. -/
theorem printed_of_isNumeral {ds : List Nat} (h : IsNumeral 10 n ds) (hn : n < 10 ^ 10)
    (hstring : string t b ds.length = ds.map digitByte) (hend : byteAt t b ds.length = 0)
    (hwithin : Within m b (ds.length + 1) t) : Printed m b n t := by
  have hlog : Nat.log 10 n < 10 := Nat.log_lt_of_lt_pow' (by decide) hn
  rw [h.length] at hstring hend hwithin
  have hdigit : ∀ c ∈ string t b (Nat.log 10 n + 1), 48 ≤ c.toNat ∧ c.toNat ≤ 57 := by
    intro c hc
    rw [hstring] at hc
    obtain ⟨d, hd, rfl⟩ := List.mem_map.mp hc
    have hlt := h.digit d hd
    rw [digitByte_toNat hlt]
    omega
  refine ⟨fun fuel hfuel => ?_, hdigit, ?_, hend, hwithin, hwithin.card_le.trans (by omega)⟩
  · refine strlenFrom_eq (Nat.zero_le _) (fun j hj h0 => ?_) hend (by omega)
    have hmem : byteAt t b j ∈ string t b (Nat.log 10 n + 1) :=
      List.mem_map_of_mem (List.mem_range.mpr hj)
    have hpos := (hdigit _ hmem).1
    rw [byteAt, h0] at hpos
    exact absurd hpos (by decide)
  · have hds : (ds.map digitByte).map (fun c => c.toNat - 48) = ds := by
      rw [List.map_map]
      refine (List.map_congr_left fun d hd => ?_).trans (List.map_id ds)
      show (digitByte d).toNat - 48 = d
      rw [digitByte_toNat (h.digit d hd), Nat.add_sub_cancel]
    rw [hstring, hds]
    exact h

/-- `itoa` of zero. -/
theorem itoa_zero (m : Mem) (b : Word) :
    ∃ t, (∀ fuel, itoa fuel 0 b ⟨m, [], []⟩ = some t) ∧ Printed m b 0 t := by
  refine ⟨_, fun fuel => if_pos rfl,
    printed_of_isNumeral (isNumeral_zero (by decide)) (by decide) ?_ ?_ ?_⟩
  · exact (string_write_end (by decide)).trans (string_write (by decide))
  · exact (byteAt_write (by decide) (by decide)).trans (if_pos rfl)
  · exact (within_nil.write Nat.zero_lt_two _).write Nat.one_lt_two _

/-- `itoa` of a positive number. -/
theorem itoa_pos (m : Mem) (b : Word) (hpos : n ≠ 0) (hn : n < 10 ^ 10) :
    ∃ t, (∀ fuel, 11 ≤ fuel → itoa fuel n b ⟨m, [], []⟩ = some t) ∧ Printed m b n t := by
  have hlen : (Nat.digits 10 n).length ≤ 10 :=
    (Nat.digits_length_le_iff (by decide) n).mpr hn
  obtain ⟨t, hrun, hstring, hwithin⟩ := itoaDigits_eq (i := 0) ⟨m, [], []⟩ b n (by omega)
  rw [Nat.zero_add] at hrun hstring hwithin
  generalize hk : (Nat.digits 10 n).length = k at hlen hrun hstring hwithin
  refine ⟨(itoaSwap b k t).write b k 0, fun fuel hfuel => ?_,
    printed_of_isNumeral (isNumeral_digits (by decide) hpos) hn ?_ ?_ ?_⟩
  · rw [itoa, if_neg (by omega), hrun fuel (by omega)]
    rfl
  · rw [List.length_reverse, hk, string_write_end (by omega), string_itoaSwap (by omega), hstring,
      List.map_reverse]
    rfl
  · rw [List.length_reverse, hk, byteAt_write (by omega) (by omega), if_pos rfl]
  · rw [List.length_reverse, hk]
    have hdigits : Within m b (k + 1) t := hwithin m (k + 1) (Nat.le_succ k) within_nil
    exact (within_itoaSwap hdigits (Nat.le_succ k)).write (Nat.lt_succ_self k) 0

/-- **`itoa` prints the numeral** of an `int` that is not negative, within eleven bytes of
the buffer, and `strlen` measures it. -/
theorem itoa_prints {a : Int} (h0 : 0 ≤ a) (h1 : a ≤ 2 ^ 31 - 1) (b : Word) (m : Mem) :
    ∃ t, (∀ fuel, 11 ≤ fuel → itoa fuel a b ⟨m, [], []⟩ = some t) ∧
      Printed m b a.toNat t := by
  obtain ⟨n, rfl⟩ := Int.eq_ofNat_of_zero_le h0
  rw [Int.toNat_natCast]
  rcases Nat.eq_zero_or_pos n with rfl | hpos
  · obtain ⟨t, hrun, ht⟩ := itoa_zero m b
    exact ⟨t, fun fuel _ => hrun fuel, ht⟩
  · exact itoa_pos m b (Nat.ne_of_gt hpos) (by omega)

/-- The greatest one. -/
theorem itoa_prints_max :
    ∃ t, (∀ fuel, 11 ≤ fuel → itoa fuel 2147483647 0x100000 ⟨fun _ => 1, [], []⟩ = some t) ∧
      Printed (fun _ => 1) 0x100000 2147483647 t :=
  itoa_prints (a := 2147483647) (by decide) (by decide) 0x100000 fun _ => 1

example : (itoa 11 1234 0x100000 ⟨fun _ => 1, [], []⟩).map (fun t => string t 0x100000 6) =
    some [49, 50, 51, 52, 0, 1] := by
  decide

end Zeos
