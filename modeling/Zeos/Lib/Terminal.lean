import Mathlib.Logic.Function.Basic

/-!
# Wrapping terminals

A screen of `rows` lines of `cols` cells, and a position on it: what is put at the
position advances it, from the end of a line to the next one and from the end of the
screen to its start, and a line feed moves it to the start of the next line. Nothing
scrolls.

The position is the number of a cell, so it is on the screen by its type. Devices keep it
as a column and a line, and count with those; `Terminal.put_index` and
`Terminal.newline_index` say that this comes to the same.
-/

/-- **A terminal**: a position, and what is in the cells. -/
@[ext] structure Terminal (cols rows : Nat) (α : Type*) where
  /-- The cell that is written next. -/
  pos : Fin (cols * rows)
  /-- The contents of the cells. -/
  cells : Fin (cols * rows) → α

namespace Terminal

variable {cols rows : Nat} {α : Type*} {x y : Nat}

/-! ### Columns and lines -/

/-- The number of the cell in a column of a line. -/
def index (cols x y : Nat) : Nat := y * cols + x

theorem index_lt (hx : x < cols) (hy : y < rows) : index cols x y < cols * rows := by
  have hle : (y + 1) * cols ≤ rows * cols := Nat.mul_le_mul_right cols hy
  rw [Nat.succ_mul, Nat.mul_comm rows cols] at hle
  unfold index
  omega

/-- The line of a cell. -/
theorem index_div (hx : x < cols) : index cols x y / cols = y := by
  rw [index, Nat.add_comm, Nat.add_mul_div_right _ _ (Nat.zero_lt_of_lt hx),
    Nat.div_eq_of_lt hx, Nat.zero_add]

/-- The next cell is in the next column, or at the start of the next line. -/
theorem index_succ (hx : x < cols) (hy : y < rows) :
    (index cols x y + 1) % (cols * rows) =
      if x + 1 < cols then index cols (x + 1) y else index cols 0 ((y + 1) % rows) := by
  have hlt := index_lt hx hy
  split
  · next hcol => exact Nat.mod_eq_of_lt (index_lt hcol hy)
  · next hcol =>
    have hend : index cols x y + 1 = (y + 1) * cols := by
      rw [Nat.succ_mul]
      unfold index
      omega
    rw [hend, index, Nat.add_zero, Nat.mul_comm cols rows]
    exact Nat.mul_mod_mul_right _ _ _

/-! ### The operations -/

variable (t : Terminal cols rows α)

include t in
theorem cols_pos : 0 < cols := Nat.pos_of_mul_pos_right (Nat.zero_lt_of_lt t.pos.isLt)

include t in
theorem rows_pos : 0 < rows := Nat.pos_of_mul_pos_left (Nat.zero_lt_of_lt t.pos.isLt)

/-- Put something at the position, and advance it. -/
def put (a : α) : Terminal cols rows α where
  pos := ⟨(t.pos + 1) % (cols * rows), Nat.mod_lt _ (Nat.zero_lt_of_lt t.pos.isLt)⟩
  cells := Function.update t.cells t.pos a

/-- Go to the start of the next line. -/
def newline : Terminal cols rows α where
  pos := ⟨index cols 0 ((t.pos / cols + 1) % rows),
    index_lt t.cols_pos (Nat.mod_lt _ t.rows_pos)⟩
  cells := t.cells

/-- Put something in a cell, wherever the position is. -/
def putAt (i : Fin (cols * rows)) (a : α) : Terminal cols rows α :=
  { t with cells := Function.update t.cells i a }

/-- **Filling cells**: they all have the same contents afterwards, and the position stays. -/
theorem foldl_putAt (is : List (Fin (cols * rows))) (a : α) :
    (is.foldl (fun t i => t.putAt i a) t).pos = t.pos ∧
      (∀ j ∈ is, (is.foldl (fun t i => t.putAt i a) t).cells j = a) ∧
      ∀ j ∉ is, (is.foldl (fun t i => t.putAt i a) t).cells j = t.cells j := by
  induction is generalizing t with
  | nil => exact ⟨rfl, fun j hj => absurd hj List.not_mem_nil, fun _ _ => rfl⟩
  | cons i is ih =>
    obtain ⟨hpos, hin, hout⟩ := ih (t.putAt i a)
    refine ⟨hpos, fun j hj => ?_, fun j hj => ?_⟩
    · by_cases hmem : j ∈ is
      · exact hin j hmem
      · rcases List.mem_cons.mp hj with rfl | hj'
        · exact (hout j hmem).trans (Function.update_self ..)
        · exact absurd hj' hmem
    · rw [List.mem_cons, not_or] at hj
      exact (hout j hj.2).trans (Function.update_of_ne hj.1 ..)

variable {t}

/-- **Putting, in columns and lines.** -/
theorem put_index {a : α} (hx : x < cols) (hy : y < rows) (h : (t.pos : Nat) = index cols x y) :
    ((t.put a).pos : Nat) =
      if x + 1 < cols then index cols (x + 1) y else index cols 0 ((y + 1) % rows) := by
  rw [← index_succ hx hy, ← h]
  rfl

/-- **A line feed, in columns and lines.** -/
theorem newline_index (hx : x < cols) (h : (t.pos : Nat) = index cols x y) :
    (t.newline.pos : Nat) = index cols 0 ((y + 1) % rows) := by
  change index cols 0 ((t.pos / cols + 1) % rows) = _
  rw [h, index_div hx]

end Terminal
