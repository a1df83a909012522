import Mathlib.Data.List.Basic
import Mathlib.Logic.Function.Basic

/-!
# Ring buffers

A queue of bounded size in an array: elements are stored at a *head* index, taken from
a *tail* index, and both advance modulo the size `n` of the array. Since equal indices
mean an empty buffer, one slot always stays unused, and a buffer of `n` slots holds
`n - 1` elements.

`RingBuffer.contents` is the queue that a buffer stands for. Storing an element appends
it (`RingBuffer.contents_push`), taking one removes the first
(`RingBuffer.contents_pop`), and the buffer is full exactly when the head would run into
the tail (`RingBuffer.full_iff`).
-/

/-- A ring buffer. -/
structure RingBuffer (α : Type*) where
  /-- The slots. -/
  slots : Nat → α
  /-- Where the next element is stored. -/
  head : Nat
  /-- Where the next element is taken from. -/
  tail : Nat

namespace RingBuffer

variable {α : Type*} {n i : Nat} {b : RingBuffer α} {x : α}

/-- Both indices are indices of slots. -/
structure Wf (n : Nat) (b : RingBuffer α) : Prop where
  /-- The head is. -/
  head_lt : b.head < n
  /-- The tail is. -/
  tail_lt : b.tail < n

/-- The number of elements in the buffer. -/
def count (n : Nat) (b : RingBuffer α) : Nat :=
  if b.tail ≤ b.head then b.head - b.tail else b.head + n - b.tail

/-- **The elements in the buffer**, the oldest one first. -/
def contents (n : Nat) (b : RingBuffer α) : List α :=
  (List.range (b.count n)).map fun i => b.slots ((b.tail + i) % n)

/-- An element is stored. -/
def push (n : Nat) (x : α) (b : RingBuffer α) : RingBuffer α :=
  { b with slots := Function.update b.slots b.head x, head := (b.head + 1) % n }

/-- An element is taken. -/
def pop (n : Nat) (b : RingBuffer α) : RingBuffer α := { b with tail := (b.tail + 1) % n }

/-- An index wraps around at most once. -/
theorem mod_eq_ite (h : i < 2 * n) : i % n = if i < n then i else i - n := by
  split
  · next hlt => exact Nat.mod_eq_of_lt hlt
  · next hge => rw [Nat.mod_eq_sub_mod (by omega), Nat.mod_eq_of_lt (by omega)]

theorem length_contents : (b.contents n).length = b.count n := by
  rw [contents, List.length_map, List.length_range]

/-- One slot stays unused. -/
theorem Wf.count_lt (h : b.Wf n) : b.count n < n := by
  have h1 := h.head_lt
  have h2 := h.tail_lt
  unfold count
  split <;> omega

theorem wf_push (h : b.Wf n) : (b.push n x).Wf n :=
  ⟨Nat.mod_lt _ (Nat.zero_lt_of_lt h.head_lt), h.tail_lt⟩

theorem wf_pop (h : b.Wf n) : (b.pop n).Wf n :=
  ⟨h.head_lt, Nat.mod_lt _ (Nat.zero_lt_of_lt h.tail_lt)⟩

/-- **The buffer is full exactly when the head would run into the tail.** -/
theorem full_iff (h : b.Wf n) : (b.head + 1) % n = b.tail ↔ (b.contents n).length = n - 1 := by
  have h1 := h.head_lt
  have h2 := h.tail_lt
  rw [length_contents, count, mod_eq_ite (by omega)]
  split <;> split <;> omega

/-- The slot of an element is not the one that is written next. -/
theorem slot_ne_head (h : b.Wf n) (hi : i < b.count n) : (b.tail + i) % n ≠ b.head := by
  have h1 := h.head_lt
  have h2 := h.tail_lt
  have hlt := h.count_lt
  rw [mod_eq_ite (by omega)]
  unfold count at hi
  split at hi <;> split <;> omega

/-- **Storing an element in a buffer that is not full appends it.** -/
theorem contents_push (h : b.Wf n) (hfull : (b.head + 1) % n ≠ b.tail) :
    (b.push n x).contents n = b.contents n ++ [x] := by
  have h1 := h.head_lt
  have h2 := h.tail_lt
  have hcount : (b.push n x).count n = b.count n + 1 := by
    have hnext := mod_eq_ite (n := n) (i := b.head + 1) (by omega)
    change (if b.tail ≤ (b.head + 1) % n then (b.head + 1) % n - b.tail
      else (b.head + 1) % n + n - b.tail) = _
    unfold count
    split at hnext <;> split <;> split <;> omega
  have hlast : (b.tail + b.count n) % n = b.head := by
    have hlt := h.count_lt
    rw [mod_eq_ite (by omega)]
    unfold count
    split <;> split <;> omega
  rw [contents, hcount, List.range_succ, List.map_append, List.map_singleton]
  refine congrArg₂ _ (List.map_congr_left fun i hi => ?_) ?_
  · exact Function.update_of_ne (slot_ne_head h (List.mem_range.mp hi)) _ _
  · change [Function.update b.slots b.head x ((b.tail + b.count n) % n)] = [x]
    rw [hlast, Function.update_self]

/-- **Taking an element from a buffer that is not empty removes the oldest one.** -/
theorem contents_pop (h : b.Wf n) (hempty : b.head ≠ b.tail) :
    b.contents n = b.slots b.tail :: (b.pop n).contents n := by
  have h1 := h.head_lt
  have h2 := h.tail_lt
  have hcount : b.count n = (b.pop n).count n + 1 := by
    change _ = (if (b.tail + 1) % n ≤ b.head then b.head - (b.tail + 1) % n
      else b.head + n - (b.tail + 1) % n) + 1
    rw [count, mod_eq_ite (by omega)]
    split <;> split <;> split <;> omega
  rw [contents, hcount, List.range_succ_eq_map, List.map_cons, List.map_map, Nat.add_zero,
    Nat.mod_eq_of_lt h2]
  refine congrArg _ (List.map_congr_left fun i _ => ?_)
  change b.slots ((b.tail + (i + 1)) % n) = b.slots (((b.tail + 1) % n + i) % n)
  rw [Nat.mod_add_mod, Nat.add_assoc, Nat.add_comm 1 i]

end RingBuffer
