import Mathlib.Data.List.Basic

/-!
# Loops

`for (i = 0; i < n; i++) body` as a function on the state the body works on, and
the invariant rule for it. An array is reversed by a loop over its first half, whatever it
is kept in, if each round exchanges an element with its mirror image
(`Loop.forLoop_reverse`).

A loop that is not counted, `while (!done) body`, gets an allowance of rounds and may run
out of it. It does not if every round makes some measure smaller (`Loop.whileLoop_total`).
-/

namespace Loop

variable {σ : Type*} {body : Nat → σ → σ} {n : Nat} {s : σ}

/-- The state after the bodies of `0`, …, `n - 1` have run in this order. -/
def forLoop (n : Nat) (body : Nat → σ → σ) (s : σ) : σ :=
  (List.range n).foldl (fun s i => body i s) s

@[simp] theorem forLoop_zero : forLoop 0 body s = s := rfl

/-- The last round of a loop. -/
theorem forLoop_succ : forLoop (n + 1) body s = body n (forLoop n body s) := by
  simp [forLoop, List.range_succ]

/-- The first round of a loop. -/
theorem forLoop_succ_left :
    forLoop (n + 1) body s = forLoop n (fun i => body (i + 1)) (body 0 s) := by
  simp [forLoop, List.range_succ_eq_map, List.foldl_map]

/-- **The invariant rule**: what holds at the start and is carried from each
round to the next holds at the end. -/
theorem forLoop_induction {I : Nat → σ → Prop} (h₀ : I 0 s)
    (hstep : ∀ i s, i < n → I i s → I (i + 1) (body i s)) : I n (forLoop n body s) := by
  induction n with
  | zero => exact h₀
  | succ n ih =>
    rw [forLoop_succ]
    exact hstep n _ (Nat.lt_succ_self n) (ih fun i s hi => hstep i s (by omega))

/-- **Reversing in place.** Only the two elements that are exchanged need to be known to
be, and the others to stay; the middle one of an odd number is its own mirror image. -/
theorem forLoop_reverse {α : Type*} {get : σ → Nat → α}
    (hbody : ∀ i s, i < n / 2 → ∀ j < n, get (body i s) j =
      if j = i then get s (n - i - 1) else if j = n - i - 1 then get s i else get s j) :
    ∀ j < n, get (forLoop (n / 2) body s) j = get s (n - j - 1) := by
  have hloop : ∀ j < n, get (forLoop (n / 2) body s) j =
      if j < n / 2 ∨ n - n / 2 ≤ j then get s (n - j - 1) else get s j := by
    -- after `k` rounds, the first and the last `k` elements are in their places
    refine forLoop_induction (I := fun k s' => ∀ j < n, get s' j =
      if j < k ∨ n - k ≤ j then get s (n - j - 1) else get s j) (fun j hj => ?_) ?_
    · rw [if_neg (by omega)]
    · intro i s' hi hs j hj
      rw [hbody i s' hi j hj]
      by_cases h1 : j = i
      · rw [if_pos h1, hs _ (by omega), if_neg (by omega), if_pos (by omega), h1]
      · by_cases h2 : j = n - i - 1
        · rw [if_neg h1, if_pos h2, hs _ (by omega), if_neg (by omega), if_pos (by omega)]
          congr 1
          omega
        · rw [if_neg h1, if_neg h2, hs j hj]
          by_cases h3 : j < i ∨ n - i ≤ j
          · rw [if_pos h3, if_pos (by omega)]
          · rw [if_neg h3, if_neg (by omega)]
  intro j hj
  rw [hloop j hj]
  split
  · rfl
  · congr 1
    omega

/-! ### Loops that are not counted -/

section While

variable {done : σ → Bool} {body : σ → σ}

/-- Repeat the body until the state is done; `none` if that takes more than the given number
of rounds. -/
def whileLoop (done : σ → Bool) (body : σ → σ) : Nat → σ → Option σ
  | 0, s => if done s then some s else none
  | n + 1, s => if done s then some s else whileLoop done body n (body s)

theorem whileLoop_of_done (h : done s = true) : whileLoop done body n s = some s := by
  cases n <;> exact if_pos h

theorem whileLoop_succ (h : done s = false) :
    whileLoop done body (n + 1) s = whileLoop done body n (body s) := if_neg (by simp [h])

/-- **Total correctness**: if the body keeps the invariant and makes the measure smaller, the
loop ends, in a state with the invariant. -/
theorem whileLoop_total {I : σ → Prop} {f : σ → Nat}
    (hbody : ∀ s, I s → done s = false → I (body s) ∧ f (body s) < f s) (hs : I s)
    (hn : f s ≤ n) : ∃ s', whileLoop done body n s = some s' ∧ I s' ∧ done s' = true := by
  induction n generalizing s with
  | zero =>
    cases hd : done s with
    | true => exact ⟨s, whileLoop_of_done hd, hs, hd⟩
    | false =>
      have := (hbody s hs hd).2
      omega
  | succ n ih =>
    cases hd : done s with
    | true => exact ⟨s, whileLoop_of_done hd, hs, hd⟩
    | false =>
      obtain ⟨hI, hlt⟩ := hbody s hs hd
      rw [whileLoop_succ hd]
      exact ih hI (by omega)

end While

end Loop
