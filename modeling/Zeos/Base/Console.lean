import Zeos.Lib.Terminal
import Zeos.Base.Write

/-!
# The screen

`io.c` keeps the cursor of the screen in two bytes, which `printc` advances on four paths:
after a newline, in the middle of a line, at the end of a line and at the end of the
screen. An interrupt may print at a place of its own between two characters of a string;
`printc_xy` borrows the cursor for that, and puts it back.

**What the screen shows is what a wrapping terminal shows** (`Zeos.Base.console_terminal`),
for every string that `sys_write_console` is given and everything that is printed in
between. The reference (`Zeos.Base.Call.onTerminal`) has a linear position and knows nothing
of columns, nor of a cursor that is borrowed.
-/

namespace Zeos.Base

open ByteMem Loop

/-! ### The functions -/

/-- The arguments of a call of `printc_xy`, for a place on the screen. -/
structure PrintAt where
  /-- The column. -/
  mx : Byte
  /-- The row. -/
  my : Byte
  /-- The character. -/
  c : Byte
  /-- The column is on the screen. -/
  mx_lt : mx.toNat < numColumns
  /-- The row is on the screen. -/
  my_lt : my.toNat < numRows

/-- A call of one of the functions that print a character. -/
inductive Call
  /-- `printc` -/
  | printc (c : Byte)
  /-- `printc_xy` -/
  | printcXy (p : PrintAt)

section Functions

variable (con : Console)

/-- `x = mx; y = my;` -/
def setCursor (mx my : Byte) (t : Term) : Term := (t.store con.x mx).store con.y my

/-- `printc_xy` -/
def printcXy (p : PrintAt) (t : Term) : Term :=
  let cx := t.mem con.x
  let cy := t.mem con.y
  setCursor con cx cy (printc con p.c (setCursor con p.mx p.my t))

/-- A call is made. -/
def Call.exec : Call → Term → Term
  | .printc c, t => Base.printc con c t
  | .printcXy p, t => Base.printcXy con p t

/-- Calls are made one after the other. -/
def run (cs : List Call) (t : Term) : Term := cs.foldl (fun t c => c.exec con t) t

/-- **`sys_write_console` while interrupts print**: `ints i` are the calls of `printc_xy`
between the characters before the one with number `i` and that one, or after the last one. -/
def interruptedWrite (ints : Nat → List PrintAt) (buffer : Word) (size : Int) (t : Term) :
    Int × Term :=
  let t := forLoop size.toNat (fun i t =>
    let t := run con ((ints i).map .printcXy) t
    printc con (t.mem (buffer + BitVec.ofNat 32 i)) t) t
  (size, run con ((ints size.toNat).map .printcXy) t)

/-- Without interrupts it is `sys_write_console`. -/
theorem interruptedWrite_nil (buffer : Word) (size : Int) (t : Term) :
    interruptedWrite con (fun _ => []) buffer size t = sysWriteConsole con buffer size t := rfl

/-- The cells of the screen a call writes to. -/
def Call.written (t : Term) : Call → List Nat
  | .printc c =>
    if c = 10 then [] else [Terminal.index numColumns (t.mem con.x).toNat (t.mem con.y).toNat]
  | .printcXy p =>
    if p.c = 10 then [] else [Terminal.index numColumns p.mx.toNat p.my.toNat]

end Functions

/-! ### The screen as a terminal -/

/-- A screen of characters and their attributes. -/
abbrev Screen := Terminal numColumns numRows (Byte × Byte)

/-- The address of a cell. -/
def cellAddr (i : Nat) : Word := BitVec.ofNat 32 (screen + 2 * i)

/-- The contents of a cell: the character and its attribute. -/
def cellOf (m : Mem) (i : Nat) : Byte × Byte := (m (cellAddr i), m (cellAddr i + 1))

/-- **The terminal that memory shows**, if the cursor is on the screen. -/
def view (con : Console) (m : Mem) (h : OnScreen con m) : Screen where
  pos := ⟨Terminal.index numColumns (m con.x).toNat (m con.y).toNat, Terminal.index_lt h.1 h.2⟩
  cells := fun i => cellOf m i

/-- The cell of a call of `printc_xy`. -/
def PrintAt.cell (p : PrintAt) : Fin (numColumns * numRows) :=
  ⟨Terminal.index numColumns p.mx.toNat p.my.toNat, Terminal.index_lt p.mx_lt p.my_lt⟩

/-- **The reference**: what a call is for. -/
def Call.onTerminal (T : Screen) : Call → Screen
  | .printc c => if c = 10 then T.newline else T.put (c, 0x02)
  | .printcXy p => if p.c = 10 then T else T.putAt p.cell (p.c, 0x02)

/-- The memory shows the terminal. -/
structure Shows (con : Console) (m : Mem) (T : Screen) : Prop where
  /-- The cursor is on the screen. -/
  cursor : OnScreen con m
  /-- It is at the position. -/
  pos : (T.pos : Nat) = Terminal.index numColumns (m con.x).toNat (m con.y).toNat
  /-- The contents of the cells. -/
  cells : ∀ i, T.cells i = cellOf m i

variable {con : Console} {m : Mem} {t : Term} {T : Screen} {i j : Nat} {c : Byte}

theorem shows_view (h : OnScreen con m) : Shows con m (view con m h) := ⟨h, rfl, fun _ => rfl⟩

theorem Shows.view_eq (h : Shows con m T) : view con m h.cursor = T :=
  Terminal.ext (Fin.ext h.pos.symm) (funext fun i => (h.cells i).symm)

/-! ### Cells -/

theorem cellAddr_toNat (hi : i < numColumns * numRows) :
    (cellAddr i).toNat = screen + 2 * i ∧ (cellAddr i + 1).toNat = screen + 2 * i + 1 := by
  have hlt : i < 2000 := hi
  have haddr : (cellAddr i).toNat = screen + 2 * i := by
    rw [cellAddr, BitVec.toNat_ofNat]
    unfold screen
    omega
  unfold screen at *
  exact ⟨haddr, by bv_omega⟩

/-- The cell that `printc` writes to. -/
theorem cell_eq : cell con m =
    cellAddr (Terminal.index numColumns (m con.x).toNat (m con.y).toNat) := rfl

/-- Storing the cursor changes no cell. -/
theorem cellOf_store {a : Word} {b : Byte} (ha : a.toNat < screen) (hi : i < numColumns * numRows) :
    cellOf (t.store a b).mem i = cellOf t.mem i := by
  obtain ⟨h1, h2⟩ := cellAddr_toNat hi
  have hne : cellAddr i ≠ a ∧ cellAddr i + 1 ≠ a := by
    constructor <;> rintro rfl <;> omega
  rw [cellOf, cellOf, store_of_ne hne.1, store_of_ne hne.2]

/-- The cursor is not on the screen. -/
theorem Console.lt_screen (con : Console) : con.x.toNat < screen ∧ con.y.toNat < screen := by
  have hx := con.x_mem.2
  have hy := con.y_mem.2
  unfold screen
  omega

/-- **A cell is written.** -/
theorem cellOf_draw {b : Byte} (hi : i < numColumns * numRows) (hj : j < numColumns * numRows) :
    cellOf ((t.store (cellAddr i) c).store (cellAddr i + 1) b).mem j =
      if j = i then (c, b) else cellOf t.mem j := by
  obtain ⟨hi1, hi2⟩ := cellAddr_toNat hi
  obtain ⟨hj1, hj2⟩ := cellAddr_toNat hj
  have hself : cellAddr i ≠ cellAddr i + 1 := fun h => by
    rw [← h, hi1] at hi2
    omega
  by_cases hij : j = i
  · subst hij
    rw [if_pos rfl, cellOf, store_self, store_of_ne hself, store_self]
  · have h1 : cellAddr j ≠ cellAddr i := fun h => by
      rw [h, hi1] at hj1
      omega
    have h2 : cellAddr j ≠ cellAddr i + 1 := fun h => by
      rw [h, hi2] at hj1
      omega
    have h3 : cellAddr j + 1 ≠ cellAddr i := fun h => by
      rw [h, hi1] at hj2
      omega
    have h4 : cellAddr j + 1 ≠ cellAddr i + 1 := fun h => by
      rw [h, hi2] at hj2
      omega
    rw [if_neg hij, cellOf, cellOf, store_of_ne h2, store_of_ne h1, store_of_ne h4, store_of_ne h3]

/-- The cursor is set. -/
theorem setCursor_mem {mx my : Byte} :
    (setCursor con mx my t).mem con.x = mx ∧ (setCursor con mx my t).mem con.y = my := by
  refine ⟨?_, store_self⟩
  rw [setCursor, store_of_ne con.x_ne_y, store_self]

theorem cellOf_setCursor {mx my : Byte} (hi : i < numColumns * numRows) :
    cellOf (setCursor con mx my t).mem i = cellOf t.mem i := by
  rw [setCursor, cellOf_store con.lt_screen.2 hi, cellOf_store con.lt_screen.1 hi]

/-- **Setting the cursor** moves the position and leaves the cells alone. -/
theorem shows_setCursor {mx my : Byte} (hx : mx.toNat < numColumns) (hy : my.toNat < numRows)
    (hpos : (T.pos : Nat) = Terminal.index numColumns mx.toNat my.toNat)
    (hcells : ∀ i, T.cells i = cellOf t.mem i) : Shows con (setCursor con mx my t).mem T := by
  obtain ⟨h1, h2⟩ := @setCursor_mem con t mx my
  refine ⟨⟨by rwa [h1], by rwa [h2]⟩, by rw [h1, h2, hpos], fun i => ?_⟩
  rw [cellOf_setCursor i.isLt, hcells]

/-! ### One call -/

/-- The row after a row. -/
theorem nextRow_toNat (y : Byte) : (nextRow y).toNat = (y.toNat + 1) % numRows := by
  have hlt : (y.toNat + 1) % numRows < 25 := Nat.mod_lt _ (by decide)
  rw [nextRow, BitVec.toNat_ofNat, Nat.mod_eq_of_lt (by omega)]

/-- `printc` of a newline sets the cursor. -/
theorem newline_eq : (t.store con.x 0).store con.y (nextRow ((t.store con.x 0).mem con.y)) =
    setCursor con 0 (nextRow (t.mem con.y)) t := by
  rw [setCursor, store_of_ne con.x_ne_y.symm]

/-- The bytes that are sent are not on the screen. -/
theorem Shows.printc (h : Shows con t.mem T) :
    Shows con (printc con c t).mem ((Call.printc c).onTerminal T) := by
  obtain ⟨⟨hx, hy⟩, hpos, hcells⟩ := h
  rw [Base.printc, Call.onTerminal]
  set t₀ : Term := { t with sent := t.sent ++ [c] }
  by_cases hc : c = 10
  · rw [if_pos hc, if_pos hc]
    dsimp only
    rw [newline_eq]
    refine shows_setCursor (by decide) (nextRow_lt _) ?_ hcells
    rw [Terminal.newline_index hx hpos, nextRow_toNat]
    rfl
  · rw [if_neg hc, if_neg hc]
    dsimp only
    have hindex := Terminal.index_lt hx hy
    obtain ⟨h1, -, h2⟩ := @cell_mem con t₀.mem ⟨hx, hy⟩
    obtain ⟨hx1, hy1⟩ := con.ne_of_screen h1
    obtain ⟨hx2, hy2⟩ := con.ne_of_screen (a := cell con t₀.mem + 1) (by omega)
    set t₁ := (t₀.store (cell con t₀.mem) c).store (cell con t₀.mem + 1) 0x02 with ht₁
    have hxt : t₁.mem con.x = t.mem con.x := by rw [ht₁, store_of_ne hx2, store_of_ne hx1]
    have hyt : t₁.mem con.y = t.mem con.y := by rw [ht₁, store_of_ne hy2, store_of_ne hy1]
    have hcells₁ : ∀ i, (T.put (c, 0x02)).cells i = cellOf t₁.mem i := fun i => by
      rw [ht₁, cell_eq, cellOf_draw hindex i.isLt]
      have hi : (i = T.pos) ↔ (i : Nat) =
          Terminal.index numColumns (t₀.mem con.x).toNat (t₀.mem con.y).toNat := by
        rw [Fin.ext_iff, hpos]
      by_cases hip : i = T.pos
      · rw [if_pos (hi.mp hip), hip]
        exact Function.update_self ..
      · rw [if_neg (mt hi.mpr hip)]
        exact (Function.update_of_ne hip ..).trans (hcells i)
    have hput := Terminal.put_index (a := ((c, 0x02) : Byte × Byte)) hx hy hpos
    -- the column is counted up, which is where the line may be at its end
    have hcol : (t.mem con.x + 1).toNat = (t.mem con.x).toNat + 1 := by
      unfold numColumns at hx
      bv_omega
    have hstore : t₁.store con.x (t₁.mem con.x + 1) =
        setCursor con (t.mem con.x + 1) (t.mem con.y) t₁ := by
      rw [setCursor, hxt]
      refine (congrArg (fun m => ({ t₁ with mem := m } : Term)) ?_).symm
      exact Function.update_eq_self_iff.mpr (by rw [store_of_ne con.x_ne_y.symm, hyt])
    rw [hstore, setCursor_mem.1, hcol]
    split
    · next hend =>
      rw [newline_eq, setCursor_mem.2]
      refine shows_setCursor (by decide) (nextRow_lt _) ?_ fun i => ?_
      · rw [hput, if_neg (by omega), nextRow_toNat]
        rfl
      · rw [cellOf_setCursor i.isLt, hcells₁]
    · next hend =>
      refine shows_setCursor (by omega) hy ?_ hcells₁
      rw [hput, if_pos (by omega), hcol]

/-- **A call does on the screen what it is for.** -/
theorem Shows.exec (h : Shows con t.mem T) (cl : Call) :
    Shows con (cl.exec con t).mem (cl.onTerminal T) := by
  cases cl with
  | printc c => exact h.printc
  | printcXy p =>
    -- the cursor is where the character is to go, and the position with it
    have hset : Shows con (setCursor con p.mx p.my t).mem { T with pos := p.cell } :=
      shows_setCursor p.mx_lt p.my_lt rfl h.cells
    have hprint := hset.printc (c := p.c)
    have hpos : ((Call.printcXy p).onTerminal T).pos = T.pos := by
      rw [Call.onTerminal]
      split <;> rfl
    have hcells : ((Call.printcXy p).onTerminal T).cells =
        ((Call.printc p.c).onTerminal { T with pos := p.cell }).cells := by
      rw [Call.onTerminal, Call.onTerminal]
      split <;> rfl
    refine shows_setCursor h.cursor.1 h.cursor.2 ?_ fun i => ?_
    · rw [hpos]
      exact h.pos
    · rw [hcells]
      exact hprint.cells i

/-! ### What a call writes -/

/-- `printc` writes the cursor, and the cell it is at unless it prints a newline. -/
theorem printc_frame {a : Word} (hx : a ≠ con.x) (hy : a ≠ con.y)
    (hcell : c ≠ 10 → a ≠ cell con t.mem ∧ a ≠ cell con t.mem + 1) :
    (printc con c t).mem a = t.mem a := by
  rw [Base.printc]
  by_cases hc : c = 10
  · rw [if_pos hc, store_of_ne hy, store_of_ne hx]
  · obtain ⟨h1, h2⟩ := hcell hc
    rw [if_neg hc]
    dsimp only
    split
    · rw [store_of_ne hy, store_of_ne hx, store_of_ne hx, store_of_ne h2, store_of_ne h1]
    · rw [store_of_ne hx, store_of_ne h2, store_of_ne h1]

/-- **A call writes inside the screen**: the cells it writes to are cells of the screen, and
it writes nothing but them and the cursor. -/
structure Inside (con : Console) (t : Term) (cl : Call) : Prop where
  /-- The cells are on the screen. -/
  cells : ∀ i ∈ cl.written con t, i < numColumns * numRows
  /-- Nothing else is written. -/
  others : ∀ a, a ≠ con.x → a ≠ con.y →
    (∀ i ∈ cl.written con t, a ≠ cellAddr i ∧ a ≠ cellAddr i + 1) →
    (cl.exec con t).mem a = t.mem a

theorem inside_of_onScreen (h : OnScreen con t.mem) (cl : Call) : Inside con t cl := by
  cases cl with
  | printc c =>
    constructor
    · intro i hi
      rw [Call.written] at hi
      split at hi
      · exact absurd hi List.not_mem_nil
      · rw [List.mem_singleton.mp hi]
        exact Terminal.index_lt h.1 h.2
    · intro a hx hy hcells
      refine printc_frame hx hy fun hc => hcells _ ?_
      rw [Call.written, if_neg hc]
      exact List.mem_singleton_self _
  | printcXy p =>
    constructor
    · intro i hi
      rw [Call.written] at hi
      split at hi
      · exact absurd hi List.not_mem_nil
      · rw [List.mem_singleton.mp hi]
        exact p.cell.isLt
    · intro a hx hy hcells
      have hset : ∀ (mx my : Byte) (t : Term), (setCursor con mx my t).mem a = t.mem a :=
        fun mx my t => by rw [setCursor, store_of_ne hy, store_of_ne hx]
      rw [Call.exec, printcXy, hset, printc_frame hx hy, hset]
      intro hc
      rw [cell_eq, setCursor_mem.1, setCursor_mem.2]
      refine hcells _ ?_
      rw [Call.written, if_neg hc]
      exact List.mem_singleton_self _

/-- **`printc_xy` leaves the cursor where it is**, and all cells but its own as they are. -/
theorem printcXy_spec (con : Console) (p : PrintAt) (t : Term) :
    (printcXy con p t).mem con.x = t.mem con.x ∧ (printcXy con p t).mem con.y = t.mem con.y ∧
      ∀ i < numColumns * numRows, i ≠ p.cell → cellOf (printcXy con p t).mem i = cellOf t.mem i := by
  refine ⟨setCursor_mem.1, setCursor_mem.2, fun i hi hne => ?_⟩
  obtain ⟨hi1, hi2⟩ := cellAddr_toNat hi
  obtain ⟨hc1, hc2⟩ := cellAddr_toNat p.cell.isLt
  obtain ⟨hx1, hy1⟩ := con.ne_of_screen (a := cellAddr i) (by omega)
  obtain ⟨hx2, hy2⟩ := con.ne_of_screen (a := cellAddr i + 1) (by omega)
  -- the two bytes of a cell are not those of the cell that is written
  have hother : ∀ a : Word, a.toNat = screen + 2 * i ∨ a.toNat = screen + 2 * i + 1 →
      a ≠ cellAddr p.cell ∧ a ≠ cellAddr p.cell + 1 := by
    intro a ha
    constructor <;> rintro rfl <;> omega
  have hbyte : ∀ a, con.x ≠ a → con.y ≠ a → a ≠ cellAddr p.cell ∧ a ≠ cellAddr p.cell + 1 →
      (printcXy con p t).mem a = t.mem a := by
    intro a hx hy hcell
    have hset : ∀ (mx my : Byte) (t : Term), (setCursor con mx my t).mem a = t.mem a :=
      fun mx my t => by rw [setCursor, store_of_ne hy.symm, store_of_ne hx.symm]
    rw [printcXy, hset, printc_frame hx.symm hy.symm, hset]
    intro _
    rw [cell_eq, setCursor_mem.1, setCursor_mem.2]
    exact hcell
  rw [cellOf, cellOf, hbyte _ hx1 hy1 (hother _ (Or.inl hi1)),
    hbyte _ hx2 hy2 (hother _ (Or.inr hi2))]

/-! ### Runs -/

theorem run_append {cs ds : List Call} : run con (cs ++ ds) t = run con ds (run con cs t) :=
  List.foldl_append

/-- **A run shows what it is for.** -/
theorem Shows.run (h : Shows con t.mem T) (cs : List Call) :
    Shows con (run con cs t).mem (cs.foldl (fun T cl => cl.onTerminal T) T) := by
  induction cs generalizing t T with
  | nil => exact h
  | cons cl cs ih => exact ih (h.exec cl)

/-- An address that is neither a cell of the screen nor the cursor. -/
def OffScreen (con : Console) (a : Word) : Prop :=
  a ≠ con.x ∧ a ≠ con.y ∧
    (a.toNat < screen ∨ screen + 2 * (numColumns * numRows) ≤ a.toNat)

/-- Printing changes nothing off the screen. -/
theorem run_offScreen {a : Word} (ha : OffScreen con a) (h : OnScreen con t.mem)
    (cs : List Call) : (run con cs t).mem a = t.mem a := by
  induction cs generalizing t with
  | nil => rfl
  | cons cl cs ih =>
    have hin := inside_of_onScreen h cl
    have hnext : OnScreen con (cl.exec con t).mem := ((shows_view h).exec cl).cursor
    refine (ih hnext).trans (hin.others a ha.1 ha.2.1 fun i hi => ?_)
    obtain ⟨h1, h2⟩ := cellAddr_toNat (hin.cells i hi)
    have hlt := hin.cells i hi
    have hoff := ha.2.2
    constructor <;> rintro rfl <;> omega

/-- The calls that are made until `n` characters of a string are printed. -/
def calls (ints : Nat → List PrintAt) (string : Nat → Byte) : Nat → List Call
  | 0 => []
  | n + 1 => calls ints string n ++ ((ints n).map .printcXy ++ [.printc (string n)])

/-- The calls of `sys_write_console` and of the interrupts until it returns. -/
def allCalls (ints : Nat → List PrintAt) (string : Nat → Byte) (n : Nat) : List Call :=
  calls ints string n ++ (ints n).map .printcXy

/-- **`sys_write_console` prints the string in its buffer**, if the buffer is not on the
screen. -/
theorem interruptedWrite_eq {ints : Nat → List PrintAt} {buffer : Word} {size : Int}
    (h : OnScreen con t.mem)
    (hbuf : ∀ i < size.toNat, OffScreen con (buffer + BitVec.ofNat 32 i)) :
    (interruptedWrite con ints buffer size t).2 =
      run con (allCalls ints (fun i => t.mem (buffer + BitVec.ofNat 32 i)) size.toNat) t := by
  rw [allCalls, run_append, interruptedWrite]
  refine congrArg (run con _) ?_
  refine forLoop_induction (I := fun i t' => t' =
    run con (calls ints (fun i => t.mem (buffer + BitVec.ofNat 32 i)) i) t) rfl ?_
  rintro i t' hi rfl
  -- the character that is read is the one that was there at the beginning
  have hread := run_offScreen (hbuf i hi) h (calls ints
    (fun i => t.mem (buffer + BitVec.ofNat 32 i)) i ++ (ints i).map .printcXy)
  rw [run_append] at hread
  dsimp only
  rw [hread, calls, run_append, run_append]
  rfl

/-- **The screen is a wrapping terminal**: a string that is printed from a buffer, with
whatever interrupts print in between, is on the screen as it would be on the terminal, with
the cursor where the terminal has its position; every cell that is written is one of the
screen; and `printc_xy` borrows the cursor only. -/
theorem console_terminal (con : Console) (ints : Nat → List PrintAt) (buffer : Word)
    (size : Int) (t : Term) (hcur : OnScreen con t.mem)
    (hbuf : ∀ i < size.toNat, OffScreen con (buffer + BitVec.ofNat 32 i)) :
    let cs := allCalls ints (fun i => t.mem (buffer + BitVec.ofNat 32 i)) size.toNat
    let t' := (interruptedWrite con ints buffer size t).2
    t' = run con cs t ∧
      (∀ pre cl post, cs = pre ++ cl :: post → Inside con (run con pre t) cl) ∧
      (∃ h' : OnScreen con t'.mem, view con t'.mem h' =
        cs.foldl (fun T cl => cl.onTerminal T) (view con t.mem hcur)) ∧
      ∀ p t, (printcXy con p t).mem con.x = t.mem con.x ∧
        (printcXy con p t).mem con.y = t.mem con.y ∧
        ∀ i < numColumns * numRows, i ≠ p.cell →
          cellOf (printcXy con p t).mem i = cellOf t.mem i := by
  intro cs t'
  have heq : t' = run con cs t := interruptedWrite_eq hcur hbuf
  have hshows : Shows con t'.mem (cs.foldl (fun T cl => cl.onTerminal T) (view con t.mem hcur)) := by
    rw [heq]
    exact (shows_view hcur).run cs
  refine ⟨heq, fun pre cl post _ => ?_, ⟨hshows.cursor, hshows.view_eq⟩, printcXy_spec con⟩
  exact inside_of_onScreen ((shows_view hcur).run pre).cursor cl

/-- A key is printed in the corner while three characters are written. -/
theorem console_terminal_key :
    let ints : Nat → List PrintAt := fun i =>
      if i = 1 then [{ mx := 0, my := 0, c := 97, mx_lt := by decide, my_lt := by decide }] else []
    let t := (interruptedWrite sampleConsole ints 0x300000 3 sampleServing.term).2
    ∃ h' : OnScreen sampleConsole t.mem, view sampleConsole t.mem h' =
      (allCalls ints (fun i => sampleServing.term.mem (0x300000 + BitVec.ofNat 32 i)) 3).foldl
        (fun T cl => cl.onTerminal T)
        (view sampleConsole sampleServing.term.mem sampleServing.cursor) := by
  intro ints
  have hbuf : ∀ i < 3, OffScreen sampleConsole (0x300000 + BitVec.ofNat 32 i) := by
    unfold OffScreen
    decide
  exact (console_terminal sampleConsole ints 0x300000 3 sampleServing.term sampleServing.cursor
    hbuf).2.2.1

end Zeos.Base
