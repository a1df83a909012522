import Zeos.E1E2.Boot

/-!
# Writing to the console

`sys_write` (`sys.c`), with `copy_from_user` (`utils.c`), `sys_write_console`
(`devices.c`) and `printc` (`io.c`). The buffer of the caller is copied to
`dest_buffer` in chunks of 256 bytes, each of which is then printed; what is left in
the end is copied as well, but printed from the *beginning* of the buffer.

All of this goes through the page table of the caller, in which the kernel has its
own pages. Of the pointer it is only checked that it is not `NULL`: `access_ok`, which
`utils.c` has for this purpose, is not called, and `copy_from_user` never reports an
error. A pointer into kernel memory is therefore as good as any other
(`Zeos.E1E2.sysWrite_spec`), and what it points to is printed.

For the proofs the console is described by what the kernel finds in memory, by the
cursor and by what has been sent (`Zeos.E1E2.Shows`); `printc` and the copy loop are
functions on these. `Zeos.E1E2.NoLeak` says that nothing but the user pages is
revealed, and `Zeos.E1E2.noLeak_iff` for which calls this is so.
-/

namespace Zeos.E1E2

open ByteMem Paging Loop

/-! ### Constants -/

/-- `EBADF` -/
def EBADF : Int := 9

/-- `EACCES` -/
def EACCES : Int := 13

/-- `BUFFER_SIZE` -/
def bufferSize : Nat := 256

/-- `NUM_COLUMNS` -/
def numColumns : Nat := 80

/-- `NUM_ROWS` -/
def numRows : Nat := 25

/-- Where the screen is in memory. -/
def screen : Nat := 0xb8000

/-- `USER_FIRST_PAGE` -/
def userFirstPage : Nat := 256

/-- **The variables of the console** in the linked kernel, which lies between its first
address and the boot sector. -/
structure Console where
  /-- The address of `dest_buffer`. -/
  destBuffer : Word
  /-- The address of `x`. -/
  x : Nat
  /-- The address of `y`. -/
  y : Nat
  /-- The variables are in the kernel image. -/
  buffer_mem : 0x10000 ≤ destBuffer.toNat ∧ destBuffer.toNat + bufferSize ≤ 0x90000
  /-- The variables are in the kernel image. -/
  x_mem : 0x10000 ≤ x ∧ x < 0x90000
  /-- The variables are in the kernel image. -/
  y_mem : 0x10000 ≤ y ∧ y < 0x90000
  /-- Different variables have different addresses. -/
  x_ne_y : x ≠ y
  /-- Different variables have different addresses. -/
  x_apart : x < destBuffer.toNat ∨ destBuffer.toNat + bufferSize ≤ x
  /-- Different variables have different addresses. -/
  y_apart : y < destBuffer.toNat ∨ destBuffer.toNat + bufferSize ≤ y

/-! ### Printing -/

/-- A character that has been sent to the console, and the cursor then. -/
structure Sent where
  /-- The column. -/
  x : Byte
  /-- The row. -/
  y : Byte
  /-- The character. -/
  c : Byte
deriving DecidableEq

/-- Memory, and what has been sent to the console. -/
structure Term where
  /-- Memory, through the page table of the caller. -/
  mmu : Mmu
  /-- The characters sent, in order. -/
  sent : List Sent

/-- A character is sent. After a page fault, whose routine does not return, nothing
is. -/
def Term.send (t : Term) (x y c : Byte) : Term :=
  if t.mmu.fault then t else { t with sent := t.sent ++ [⟨x, y, c⟩] }

/-- Store a byte at a logical address. -/
def Term.store (pt : Table) (a : Nat) (b : Byte) (t : Term) : Term :=
  { t with mmu := Mmu.storeByte pt a b t.mmu }

/-- Load a byte from a logical address. -/
def Term.load (pt : Table) (a : Nat) (t : Term) : Byte × Term :=
  let (b, mmu) := Mmu.loadByte pt a t.mmu
  (b, { t with mmu := mmu })

/-- `y=(y+1)%NUM_ROWS` -/
def nextRow (y : Byte) : Byte := BitVec.ofNat 8 ((y.toNat + 1) % numRows)

section Functions

variable (con : Console) (pt : Table)

/-- `printc` -/
def printc (c : Byte) (t : Term) : Term :=
  let (x, t) := t.load pt con.x
  let (y, t) := t.load pt con.y
  let t := t.send x y c
  if c = 10 then (t.store pt con.x 0).store pt con.y (nextRow y)
  else
    let cell := screen + 2 * (y.toNat * numColumns + x.toNat)
    let t := (t.store pt cell c).store pt (cell + 1) 0x02
    let x := x + 1
    let t := t.store pt con.x x
    if numColumns ≤ x.toNat then (t.store pt con.x 0).store pt con.y (nextRow y) else t

/-- `sys_write_console` -/
def sysWriteConsole (buffer : Word) (size : Int) (t : Term) : Int × Term :=
  (size, forLoop size.toNat (fun i t =>
    let (c, t) := t.load pt (buffer + BitVec.ofNat 32 i).toNat
    printc con pt c t) t)

/-- `copy_from_user`, which always succeeds. -/
def copyFromUser (start dest : Word) (size : Int) (t : Term) : Int × Term :=
  (0, copyData (fun o t => t.load pt (start + BitVec.ofNat 32 o).toNat)
    (fun o b t => t.store pt (dest + BitVec.ofNat 32 o).toNat b) size t)

/-- `ESCRIPTURA` -/
def escriptura : Int := 1

/-- `check_fd` -/
def checkFd (fd permissions : Int) : Int :=
  if fd ≠ 1 then -EBADF else if permissions ≠ escriptura then -EACCES else 0

/-- The loop of `sys_write`: an error, or `bytes_left`, `bytes_written` and
`buffer_offset`. -/
def writeLoop (buffer : Word) (bytesLeft bytesWritten bufferOffset : Int) (t : Term) :
    Except Int (Int × Int × Int) × Term :=
  if (bufferSize : Int) < bytesLeft then
    let (copyError, t) :=
      copyFromUser pt (buffer + BitVec.ofInt 32 bufferOffset) con.destBuffer bufferSize t
    if copyError < 0 then (.error EFAULT, t)
    else
      let (n, t) := sysWriteConsole con pt con.destBuffer bufferSize t
      writeLoop buffer (bytesLeft - bufferSize) (bytesWritten + n) (bufferOffset + bufferSize) t
  else (.ok (bytesLeft, bytesWritten, bufferOffset), t)
termination_by bytesLeft.toNat
decreasing_by
  have : (bufferSize : Int) = 256 := rfl
  omega

/-- What `sys_write` does after its loop. -/
def writeRest (buffer : Word) (bytesLeft bytesWritten bufferOffset : Int) (t : Term) :
    Except Int Int × Term :=
  if 0 < bytesLeft then
    let (copyError, t) :=
      copyFromUser pt (buffer + BitVec.ofInt 32 bufferOffset) con.destBuffer bytesLeft t
    if copyError < 0 then (.error EFAULT, t)
    else
      -- the buffer of the caller from its beginning, and not `dest_buffer`
      let (n, t) := sysWriteConsole con pt buffer bytesLeft t
      (.ok (bytesWritten + n), t)
  else (.ok bytesWritten, t)

/-- `sys_write` -/
def sysWrite (fd : Int) (buffer : Word) (size : Int) (t : Term) : Int × Term :=
  let errorFd := checkFd fd escriptura
  if errorFd < 0 then (errorFd, t)
  else if buffer = 0 then (-EFAULT, t)
  else if size < 0 then (-EINVAL, t)
  else match writeLoop con pt buffer size 0 0 t with
    | (.error e, t) => (-e, t)
    | (.ok (bytesLeft, bytesWritten, bufferOffset), t) =>
      let (r, t) := writeRest con pt buffer bytesLeft bytesWritten bufferOffset t
      (retval r, t)

end Functions

/-! ### Kernel states -/

/-- **The page table of a process**, as far as the console depends on it. -/
structure Space (pt : Table) : Prop where
  /-- The kernel pages, but the first one, are mapped to the frames of the same
  number. -/
  kernel : ∀ p, 1 ≤ p → p < numPagKernel → (pt p).present = true ∧ (pt p).base = p
  /-- The user pages are mapped, outside the kernel. -/
  user : ∀ p, userFirstPage ≤ p → p < userFirstPage + numPagCode + numPagData →
    (pt p).present = true ∧ numPagKernel ≤ (pt p).base

/-- **A kernel that serves a process**, in which nothing has gone wrong yet. -/
structure Serving extends Kernel where
  /-- The page table that is in use is the one of a process. -/
  space : Space (mm.pagusrTable mm.activeTable)
  /-- The translation cache is up to date. -/
  fresh : Mmu.Fresh (mm.pagusrTable mm.activeTable) mm.mmu
  /-- No access has faulted. -/
  running : mm.mmu.fault = false

namespace Serving

variable (k : Serving) (con : Console)

/-- The page table of the caller. -/
def table : Table := k.mm.pagusrTable k.mm.activeTable

/-- The byte at a logical address. -/
def byte (a : Nat) : Byte := peek k.table k.mm.mmu a

/-- **What a call of `sys_write` shows**: its result, unless it ends in a page fault, and
the characters that it sends to the console. -/
def write (fd : Int) (buffer : Word) (size : Int) : Option Int × List Sent :=
  let (r, t) := sysWrite con k.table fd buffer size ⟨k.mm.mmu, []⟩
  (if t.mmu.fault then none else some r, t.sent)

end Serving

/-- The logical address is in one of the user pages. -/
def InUserPages (a : Nat) : Prop :=
  userFirstPage ≤ a / pageBytes ∧ a / pageBytes < userFirstPage + numPagCode + numPagData

/-- The block is contained in the user pages. -/
def Contained (buffer : Word) (size : Int) : Prop :=
  ∀ i : Nat, i < size.toNat → InUserPages (buffer + BitVec.ofNat 32 i).toNat

/-- Two kernel states agree on the user pages of the caller, and on the cursor. -/
structure Agree (con : Console) (k k' : Serving) : Prop where
  /-- The user pages. -/
  user : ∀ a, InUserPages a → k'.byte a = k.byte a
  /-- The column of the cursor. -/
  x : k'.byte con.x = k.byte con.x
  /-- The row of the cursor. -/
  y : k'.byte con.y = k.byte con.y

/-- **A call of `sys_write` reveals nothing but the user pages.** -/
structure NoLeak (con : Console) (k : Serving) (fd : Int) (buffer : Word) (size : Int) : Prop where
  /-- What it shows is determined by the user pages and the cursor. -/
  same : ∀ k' : Serving, Agree con k k' → k'.write con fd buffer size = k.write con fd buffer size
  /-- A block that is not contained in the user pages is not printed, and is answered
  with an error, if the file descriptor is not one already. -/
  outside : ¬Contained buffer size → (k.write con fd buffer size).2 = [] ∧
    (fd = 1 → (k.write con fd buffer size).1 = some (-EFAULT))

/-! ### Memory as the kernel finds it -/

/-- An address in the kernel pages. -/
def InKernel (a : Nat) : Prop := pageBytes ≤ a ∧ a < numPagKernel * pageBytes

/-- An address at which something is mapped. -/
def InSpace (a : Nat) : Prop := InKernel a ∨ InUserPages a

/-- **The kernel finds the bytes of `v` in memory**, and can go on. -/
structure Reads (pt : Table) (v : Nat → Byte) (s : Mmu) : Prop where
  /-- The bytes at the mapped addresses. -/
  peek : ∀ a, InSpace a → peek pt s a = v a
  /-- The translation cache is up to date. -/
  fresh : Mmu.Fresh pt s
  /-- No access has faulted. -/
  fault : s.fault = false

section Reads

variable {pt : Table} {v : Nat → Byte} {s : Mmu} {a : Nat}

theorem Space.present (hs : Space pt) (h : InSpace a) : (pt (a / pageBytes)).present = true := by
  rcases h with ⟨h1, h2⟩ | ⟨h1, h2⟩
  · unfold pageBytes at *
    exact (hs.kernel _ (by omega) (by omega)).1
  · exact (hs.user _ h1 h2).1

/-- A kernel address meets no other in memory. -/
theorem Space.location_ne (hs : Space pt) (h : InKernel a) {a' : Nat} (h' : InSpace a')
    (hne : a' ≠ a) : location pt a ≠ location pt a' := by
  obtain ⟨h1, h2⟩ := h
  have hk := hs.kernel (a / pageBytes) (by unfold pageBytes at *; omega)
    (by unfold pageBytes at *; omega)
  intro heq
  rw [location, location, hk.2, Prod.mk.injEq] at heq
  obtain ⟨heq1, heq2⟩ := heq
  rcases h' with ⟨h1', h2'⟩ | ⟨h1', h2'⟩
  · have hk' := hs.kernel (a' / pageBytes) (by unfold pageBytes at *; omega)
      (by unfold pageBytes at *; omega)
    rw [hk'.2] at heq1
    unfold pageBytes at *
    omega
  · have hu := (hs.user _ h1' h2').2
    unfold pageBytes numPagKernel at *
    omega

/-- Loading from a mapped address. -/
theorem Reads.load (h : Reads pt v s) (hs : Space pt) (ha : InSpace a) :
    (Mmu.loadByte pt a s).1 = v a ∧ Reads pt v (Mmu.loadByte pt a s).2 := by
  rw [loadByte_fresh h.fresh (hs.present ha)]
  refine ⟨h.peek a ha, fun a' ha' => ?_, h.fresh.touch, ?_⟩
  · rw [Zeos.peek, Mmu.touch_mem]
    exact h.peek a' ha'
  · exact (Mmu.touch_fault (h.fresh.maps (hs.present ha))).trans h.fault

/-- Storing to a kernel address. -/
theorem Reads.store (h : Reads pt v s) (hs : Space pt) (ha : InKernel a) (b : Byte) :
    Reads pt (Function.update v a b) (Mmu.storeByte pt a b s) := by
  have hp := hs.present (Or.inl ha)
  refine ⟨fun a' ha' => ?_, h.fresh.storeByte, (storeByte_fault h.fresh hp).trans h.fault⟩
  rw [Zeos.peek, storeByte_mem h.fresh hp]
  by_cases heq : a' = a
  · subst heq
    rw [if_pos rfl, Function.update_self]
  · rw [if_neg fun he => hs.location_ne ha ha' heq he, Function.update_of_ne heq]
    exact h.peek a' ha'

end Reads

/-! ### The console -/

/-- Where the cursor is after a character. -/
def advance (c : Byte) (xy : Byte × Byte) : Byte × Byte :=
  if c = 10 then (0, nextRow xy.2)
  else if numColumns ≤ (xy.1 + 1).toNat then (0, nextRow xy.2) else (xy.1 + 1, xy.2)

/-- Where the cursor is after a text. -/
def moved (xy : Byte × Byte) : List Byte → Byte × Byte
  | [] => xy
  | c :: cs => moved (advance c xy) cs

/-- What the console is sent for a text. -/
def shown (xy : Byte × Byte) : List Byte → List Sent
  | [] => []
  | c :: cs => ⟨xy.1, xy.2, c⟩ :: shown (advance c xy) cs

theorem moved_append (xy : Byte × Byte) (cs ds : List Byte) :
    moved xy (cs ++ ds) = moved (moved xy cs) ds := by
  induction cs generalizing xy with
  | nil => rfl
  | cons c cs ih => exact ih _

theorem shown_append (xy : Byte × Byte) (cs ds : List Byte) :
    shown xy (cs ++ ds) = shown xy cs ++ shown (moved xy cs) ds := by
  induction cs generalizing xy with
  | nil => rfl
  | cons c cs ih => rw [List.cons_append, shown, ih]; rfl

/-- An address that printing does not change: neither the cursor nor the screen. -/
def Quiet (con : Console) (a : Nat) : Prop :=
  InSpace a ∧ a ≠ con.x ∧ a ≠ con.y ∧ (a < screen ∨ 0xc2160 ≤ a)

/-- **The state of the console**: the kernel finds the bytes of `v` where printing does
not change them, the cursor is at `xy`, and `out` has been sent. -/
structure Shows (con : Console) (pt : Table) (v : Nat → Byte) (xy : Byte × Byte)
    (out : List Sent) (t : Term) : Prop where
  /-- Memory. -/
  mem : ∃ w, Reads pt w t.mmu ∧ w con.x = xy.1 ∧ w con.y = xy.2 ∧ ∀ a, Quiet con a → w a = v a
  /-- What has been sent. -/
  sent : t.sent = out

section Shows

variable {con : Console} {pt : Table} {v : Nat → Byte} {xy : Byte × Byte} {out : List Sent}
  {t : Term} {a : Nat}

theorem Console.inKernel_x (con : Console) : InKernel con.x := by
  have := con.x_mem
  unfold InKernel pageBytes numPagKernel
  omega

theorem Console.inKernel_y (con : Console) : InKernel con.y := by
  have := con.y_mem
  unfold InKernel pageBytes numPagKernel
  omega

/-- The cells of the screen, wherever the cursor is. -/
theorem cell_bounds (x y : Byte) :
    screen ≤ screen + 2 * (y.toNat * numColumns + x.toNat) ∧
      screen + 2 * (y.toNat * numColumns + x.toNat) + 1 < 0xc2160 := by
  have hx := x.isLt
  have hy := y.isLt
  unfold screen numColumns
  omega

theorem inKernel_screen (h1 : screen ≤ a) (h2 : a < 0xc2160) : InKernel a := by
  unfold InKernel pageBytes numPagKernel
  unfold screen at h1
  omega

/-- Reading what printing does not change. -/
theorem Shows.load (h : Shows con pt v xy out t) (hs : Space pt) (ha : Quiet con a) :
    (t.load pt a).1 = v a ∧ Shows con pt v xy out (t.load pt a).2 := by
  obtain ⟨⟨w, hw, hx, hy, hv⟩, hsent⟩ := h
  obtain ⟨h1, h2⟩ := hw.load hs ha.1
  exact ⟨h1.trans (hv a ha), ⟨w, h2, hx, hy, hv⟩, hsent⟩

/-- Writing where printing does not. -/
theorem Shows.store (h : Shows con pt v xy out t) (hs : Space pt) (ha : Quiet con a)
    (hk : InKernel a) (b : Byte) :
    Shows con pt (Function.update v a b) xy out (t.store pt a b) := by
  obtain ⟨⟨w, hw, hx, hy, hv⟩, hsent⟩ := h
  refine ⟨⟨_, hw.store hs hk b, ?_, ?_, fun a' ha' => ?_⟩, hsent⟩
  · rw [Function.update_of_ne (Ne.symm ha.2.1), hx]
  · rw [Function.update_of_ne (Ne.symm ha.2.2.1), hy]
  · by_cases heq : a' = a
    · subst heq
      rw [Function.update_self, Function.update_self]
    · rw [Function.update_of_ne heq, Function.update_of_ne heq, hv a' ha']

/-- The cursor is set. -/
theorem reads_cursor {w : Nat → Byte} {s : Mmu} (hw : Reads pt w s) (hs : Space pt)
    (hv : ∀ a, Quiet con a → w a = v a) (x y : Byte) :
    ∃ w', Reads pt w' (Mmu.storeByte pt con.y y (Mmu.storeByte pt con.x x s)) ∧ w' con.x = x ∧
      w' con.y = y ∧ ∀ a, Quiet con a → w' a = v a := by
  refine ⟨_, (hw.store hs con.inKernel_x x).store hs con.inKernel_y y, ?_,
    Function.update_self .., fun a ha => ?_⟩
  · rw [Function.update_of_ne con.x_ne_y, Function.update_self]
  · rw [Function.update_of_ne ha.2.2.1, Function.update_of_ne ha.2.1, hv a ha]

/-- **Printing a character.** -/
theorem Shows.printc (h : Shows con pt v xy out t) (hs : Space pt) (c : Byte) :
    Shows con pt v (advance c xy) (out ++ [⟨xy.1, xy.2, c⟩]) (printc con pt c t) := by
  obtain ⟨⟨w, hw, hx, hy, hv⟩, hsent⟩ := h
  obtain ⟨hx1, hw1⟩ := hw.load hs (Or.inl con.inKernel_x)
  set s₁ := (Mmu.loadByte pt con.x t.mmu).2
  obtain ⟨hy1, hw2⟩ := hw1.load hs (Or.inl con.inKernel_y)
  set s₂ := (Mmu.loadByte pt con.y s₁).2
  have hload : t.load pt con.x = (xy.1, ⟨s₁, t.sent⟩) := Prod.ext (hx1.trans hx) rfl
  have hload' : Term.load pt con.y ⟨s₁, t.sent⟩ = (xy.2, ⟨s₂, t.sent⟩) :=
    Prod.ext (hy1.trans hy) rfl
  have hsend : Term.send ⟨s₂, t.sent⟩ xy.1 xy.2 c = ⟨s₂, out ++ [⟨xy.1, xy.2, c⟩]⟩ := by
    rw [Term.send, if_neg (by simp [hw2.fault]), hsent]
  simp only [Zeos.E1E2.printc, hload, hload', hsend, advance]
  by_cases hc : c = 10
  · simp only [if_pos hc]
    exact ⟨reads_cursor hw2 hs hv 0 (nextRow xy.2), rfl⟩
  · simp only [if_neg hc]
    obtain ⟨hb1, hb2⟩ := cell_bounds xy.1 xy.2
    set cell := screen + 2 * (xy.2.toNat * numColumns + xy.1.toNat)
    have hw3 := ((hw2.store hs (inKernel_screen hb1 (by omega)) c).store hs
      (inKernel_screen (a := cell + 1) (by omega) hb2) 0x02).store hs con.inKernel_x (xy.1 + 1)
    -- the two bytes of the cell are on the screen, where nothing is quiet
    have hquiet : ∀ a, Quiet con a → a ≠ cell ∧ a ≠ cell + 1 := by
      rintro a ⟨-, -, -, ha⟩
      omega
    split
    · refine ⟨reads_cursor hw3 hs (fun a ha => ?_) 0 (nextRow xy.2), rfl⟩
      rw [Function.update_of_ne ha.2.1, Function.update_of_ne (hquiet a ha).2,
        Function.update_of_ne (hquiet a ha).1, hv a ha]
    · refine ⟨⟨_, hw3, Function.update_self .., ?_, fun a ha => ?_⟩, rfl⟩
      · have hyc : con.y < screen := by
          have := con.y_mem
          unfold screen
          omega
        rw [Function.update_of_ne con.x_ne_y.symm, Function.update_of_ne (by omega),
          Function.update_of_ne (by omega), hy]
      · rw [Function.update_of_ne ha.2.1, Function.update_of_ne (hquiet a ha).2,
          Function.update_of_ne (hquiet a ha).1, hv a ha]

/-! ### The loops -/

/-- The `n` bytes from an address on. -/
def bytesAt (v : Nat → Byte) (p : Word) (n : Nat) : List Byte :=
  (List.range n).map fun i => v (p + BitVec.ofNat 32 i).toNat

/-- A value for each linear address is a memory, too. -/
theorem bytesAt_eq_block (v : Nat → Byte) (p : Word) (n : Nat) :
    bytesAt v p n = block (fun a => v a.toNat) p n := rfl

theorem bytesAt_succ (v : Nat → Byte) (p : Word) (n : Nat) :
    bytesAt v p (n + 1) = bytesAt v p n ++ [v (p + BitVec.ofNat 32 n).toNat] := by
  simp only [bytesAt_eq_block, block_succ]

theorem bytesAt_add (v : Nat → Byte) (p : Word) (m n : Nat) :
    bytesAt v p (m + n) = bytesAt v p m ++ bytesAt v (p + BitVec.ofNat 32 m) n := by
  simp only [bytesAt_eq_block, block_add]

theorem bytesAt_congr {v v' : Nat → Byte} {p p' : Word} {n : Nat}
    (h : ∀ i < n, v' (p' + BitVec.ofNat 32 i).toNat = v (p + BitVec.ofNat 32 i).toNat) :
    bytesAt v' p' n = bytesAt v p n := by
  rw [bytesAt_eq_block, bytesAt_eq_block]
  exact block_congr h

/-- **Printing a block.** -/
theorem Shows.sysWriteConsole (h : Shows con pt v xy out t) (hs : Space pt) (p : Word) (n : Nat)
    (hp : ∀ i < n, Quiet con (p + BitVec.ofNat 32 i).toNat) :
    Shows con pt v (moved xy (bytesAt v p n)) (out ++ shown xy (bytesAt v p n))
      (sysWriteConsole con pt p n t).2 := by
  refine forLoop_induction (I := fun i t => Shows con pt v (moved xy (bytesAt v p i))
    (out ++ shown xy (bytesAt v p i)) t) ?_ fun i t hi ht => ?_
  · rw [bytesAt, List.range_zero, List.map_nil, shown, List.append_nil]
    exact h
  · obtain ⟨hc, ht'⟩ := ht.load hs (hp i hi)
    have := ht'.printc hs (t.load pt (p + BitVec.ofNat 32 i).toNat).1
    rw [hc] at this
    -- the character is shown where those before it have left the cursor
    rw [bytesAt_succ, moved_append, shown_append, ← List.append_assoc]
    simp only [hc]
    exact this

/-- The address is in `dest_buffer`. -/
def Console.InBuffer (con : Console) (a : Nat) : Prop :=
  con.destBuffer.toNat ≤ a ∧ a < con.destBuffer.toNat + bufferSize

/-- An address that `sys_write` does not write to. -/
def Source (con : Console) (a : Nat) : Prop := Quiet con a ∧ ¬con.InBuffer a

theorem Console.buffer_addr (con : Console) {i : Nat} (hi : i < bufferSize) :
    (con.destBuffer + BitVec.ofNat 32 i).toNat = con.destBuffer.toNat + i := by
  have := con.buffer_mem
  unfold bufferSize at *
  bv_omega

theorem Console.inBuffer (con : Console) {i : Nat} (hi : i < bufferSize) :
    con.InBuffer (con.destBuffer + BitVec.ofNat 32 i).toNat := by
  rw [con.buffer_addr hi, Console.InBuffer]
  omega

theorem Console.InBuffer.inKernel (h : con.InBuffer a) : InKernel a := by
  have := con.buffer_mem
  unfold Console.InBuffer at h
  unfold InKernel pageBytes numPagKernel
  omega

theorem Console.InBuffer.quiet (h : con.InBuffer a) : Quiet con a := by
  have h1 := con.buffer_mem
  have h2 := con.x_apart
  have h3 := con.y_apart
  refine ⟨Or.inl h.inKernel, ?_, ?_, Or.inl ?_⟩ <;> unfold Console.InBuffer at h
  · omega
  · omega
  · unfold screen
    omega

/-- The state of a copy to `dest_buffer` after `o` bytes. -/
structure Buffered (con : Console) (pt : Table) (v : Nat → Byte) (xy : Byte × Byte)
    (out : List Sent) (start : Word) (o : Nat) (v' : Nat → Byte) (t : Term) : Prop where
  /-- The console. -/
  shows : Shows con pt v' xy out t
  /-- The bytes copied so far. -/
  copied : ∀ i < o, v' (con.destBuffer + BitVec.ofNat 32 i).toNat =
    v (start + BitVec.ofNat 32 i).toNat
  /-- All other bytes. -/
  other : ∀ a, ¬con.InBuffer a → v' a = v a

/-- The next byte is copied. -/
theorem Buffered.store {start : Word} {o : Nat} {v' : Nat → Byte}
    (h : Buffered con pt v xy out start o v' t) (hs : Space pt) (ho : o < bufferSize) {b : Byte}
    (hb : b = v (start + BitVec.ofNat 32 o).toNat) :
    ∃ v'', Buffered con pt v xy out start (o + 1) v''
      (t.store pt (con.destBuffer + BitVec.ofNat 32 o).toNat b) := by
  have hbuf := con.inBuffer ho
  refine ⟨_, h.shows.store hs hbuf.quiet hbuf.inKernel b, fun i hi => ?_, fun a ha => ?_⟩
  · by_cases hio : i = o
    · subst hio
      rw [Function.update_self, hb]
    · have hne : (con.destBuffer + BitVec.ofNat 32 i).toNat ≠
          (con.destBuffer + BitVec.ofNat 32 o).toNat := by
        rw [con.buffer_addr ho, con.buffer_addr (by omega : i < bufferSize)]
        omega
      rw [Function.update_of_ne hne]
      exact h.copied i (by omega)
  · have hne : a ≠ (con.destBuffer + BitVec.ofNat 32 o).toNat := by
      rintro rfl
      exact ha hbuf
    rw [Function.update_of_ne hne, h.other a ha]

/-- **Copying a block to `dest_buffer`.** -/
theorem Shows.copyFromUser (h : Shows con pt v xy out t) (hs : Space pt) (start : Word) (n : Nat)
    (hn : n ≤ bufferSize) (hp : ∀ i < n, Source con (start + BitVec.ofNat 32 i).toNat) :
    ∃ v', Buffered con pt v xy out start n v' (copyFromUser pt start con.destBuffer n t).2 := by
  -- a byte of the source is read as it was at the start
  have hload : ∀ o v' t, Buffered con pt v xy out start o v' t → ∀ k < n,
      (t.load pt (start + BitVec.ofNat 32 k).toNat).1 = v (start + BitVec.ofNat 32 k).toNat ∧
        Buffered con pt v xy out start o v' (t.load pt (start + BitVec.ofNat 32 k).toNat).2 := by
    intro o v' t hb k hk
    obtain ⟨h1, h2⟩ := hb.shows.load hs (hp k hk).1
    exact ⟨h1.trans (hb.other _ (hp k hk).2), h2, hb.copied, hb.other⟩
  refine copyData_induction (I := fun o t => ∃ v', Buffered con pt v xy out start o v' t)
    (Int.natCast_nonneg n) ⟨v, h, fun i hi => absurd hi (by omega), fun _ _ => rfl⟩ ?_ ?_
  -- four bytes at a time, then one at a time
  · rintro o t ⟨v', hb⟩ ho
    obtain ⟨e0, hb⟩ := hload o v' _ hb o (by omega)
    obtain ⟨e1, hb⟩ := hload o v' _ hb (o + 1) (by omega)
    obtain ⟨e2, hb⟩ := hload o v' _ hb (o + 2) (by omega)
    obtain ⟨e3, hb⟩ := hload o v' _ hb (o + 3) (by omega)
    obtain ⟨_, hb⟩ := hb.store hs (by omega) e0
    obtain ⟨_, hb⟩ := hb.store hs (by omega) e1
    obtain ⟨_, hb⟩ := hb.store hs (by omega) e2
    exact hb.store hs (by omega) e3
  · rintro o t ⟨v', hb⟩ ho
    obtain ⟨e0, hb⟩ := hload o v' _ hb o (by omega)
    exact hb.store hs (by omega) e0

/-- The state of `sys_write` when `off` bytes of the buffer have been printed. -/
structure Written (con : Console) (pt : Table) (v : Nat → Byte) (xy : Byte × Byte)
    (buffer : Word) (off : Nat) (t : Term) : Prop where
  /-- The console, and memory outside of `dest_buffer`. -/
  shows : ∃ v', Shows con pt v' (moved xy (bytesAt v buffer off))
    (shown xy (bytesAt v buffer off)) t ∧ ∀ a, ¬con.InBuffer a → v' a = v a

/-- **One round of the loop**: a chunk is copied, and printed from `dest_buffer`. -/
theorem Written.chunk {buffer : Word} {off : Nat} (h : Written con pt v xy buffer off t)
    (hs : Space pt)
    (hp : ∀ i < off + bufferSize, Source con (buffer + BitVec.ofNat 32 i).toNat) :
    Written con pt v xy buffer (off + bufferSize) (sysWriteConsole con pt con.destBuffer bufferSize
      (copyFromUser pt (buffer + BitVec.ofInt 32 off) con.destBuffer bufferSize t).2).2 := by
  obtain ⟨v', hv', hother⟩ := h.shows
  have haddr : ∀ i, buffer + BitVec.ofInt 32 off + BitVec.ofNat 32 i =
      buffer + BitVec.ofNat 32 (off + i) := fun i => by
    rw [BitVec.ofInt_natCast, BitVec.ofNat_add, BitVec.add_assoc]
  obtain ⟨w, hw⟩ := hv'.copyFromUser hs (buffer + BitVec.ofInt 32 off) bufferSize le_rfl
    fun i hi => by
      rw [haddr]
      exact hp _ (by omega)
  have hprint := hw.shows.sysWriteConsole hs con.destBuffer bufferSize
    fun i hi => (con.inBuffer hi).quiet
  -- what is printed is what has been copied, and that is what the caller has there
  have hbytes : bytesAt w con.destBuffer bufferSize =
      bytesAt v (buffer + BitVec.ofNat 32 off) bufferSize := bytesAt_congr fun i hi => by
    rw [hw.copied i hi, haddr, hother _ (hp (off + i) (by omega)).2, BitVec.ofNat_add,
      BitVec.add_assoc]
  rw [hbytes, ← moved_append, ← shown_append, ← bytesAt_add] at hprint
  exact ⟨w, hprint, fun a ha => (hw.other a ha).trans (hother a ha)⟩

/-- The copy succeeds: the loop of `sys_write` goes on. -/
theorem writeLoop_of_lt {buffer : Word} {left written off : Int} (h : (bufferSize : Int) < left) :
    writeLoop con pt buffer left written off t =
      writeLoop con pt buffer (left - bufferSize) (written + bufferSize) (off + bufferSize)
        (sysWriteConsole con pt con.destBuffer bufferSize
          (copyFromUser pt (buffer + BitVec.ofInt 32 off) con.destBuffer bufferSize t).2).2 := by
  rw [writeLoop, if_pos h]
  simp only [copyFromUser, sysWriteConsole, lt_irrefl, if_false]

/-- The copy succeeds: the rest is printed. -/
theorem writeRest_of_pos {buffer : Word} {left written off : Int} (h : 0 < left) :
    writeRest con pt buffer left written off t = (.ok (written + left),
      (sysWriteConsole con pt buffer left
        (copyFromUser pt (buffer + BitVec.ofInt 32 off) con.destBuffer left t).2).2) := by
  rw [writeRest, if_pos h]
  simp only [copyFromUser, sysWriteConsole, lt_irrefl, if_false]

/-- The offset at which the loop of `sys_write` ends. -/
def lastChunk (n : Nat) : Nat := (n - 1) / bufferSize * bufferSize

/-- What is left there fits into the kernel's buffer. -/
theorem lastChunk_le (n : Nat) : lastChunk n ≤ n ∧ n - lastChunk n ≤ bufferSize := by
  unfold lastChunk bufferSize
  omega

/-- **The loop of `sys_write`** prints all of the buffer but the last chunk. -/
theorem Written.writeLoop {buffer : Word} {n : Nat} (hs : Space pt)
    (hp : ∀ i < n, Source con (buffer + BitVec.ofNat 32 i).toNat) :
    ∀ left off t, left + off = n → off % bufferSize = 0 → (off = 0 ∨ off < n) →
      Written con pt v xy buffer off t →
      ∃ t', writeLoop con pt buffer left off off t =
          (.ok (((n - lastChunk n : Nat) : Int), (lastChunk n : Int), (lastChunk n : Int)), t') ∧
        Written con pt v xy buffer (lastChunk n) t' := by
  intro left
  -- by what is left; the offset is a multiple of the chunk, and short of the end if not zero
  induction left using Nat.strong_induction_on with
  | _ left ih =>
    intro off t hsum hmod hoff h
    by_cases hlt : (bufferSize : Int) < left
    · have hb : bufferSize = 256 := rfl
      obtain ⟨t', ht', hw⟩ := ih (left - bufferSize) (by omega) (off + bufferSize) _ (by omega)
        (by rw [Nat.add_mod_right, hmod]) (by omega) (h.chunk hs fun i hi => hp i (by omega))
      rw [Int.ofNat_sub (by omega), Int.natCast_add] at ht'
      exact ⟨t', (writeLoop_of_lt hlt).trans ht', hw⟩
    · have hlast : lastChunk n = off := by
        unfold lastChunk
        unfold bufferSize at *
        omega
      refine ⟨t, ?_, hlast ▸ h⟩
      rw [E1E2.writeLoop, if_neg hlt, hlast, ← hsum, Nat.add_sub_cancel]

/-- The bytes that `sys_write` prints, given the `n` bytes of a buffer: the last chunk
comes from its beginning. -/
def printed (v : Nat → Byte) (buffer : Word) (n : Nat) : List Byte :=
  bytesAt v buffer (lastChunk n) ++ bytesAt v buffer (n - lastChunk n)

/-- **What is left after the loop** is copied, and the beginning of the buffer
printed. -/
theorem Written.writeRest {buffer : Word} {n : Nat} (hs : Space pt)
    (hp : ∀ i < n, Source con (buffer + BitVec.ofNat 32 i).toNat)
    (h : Written con pt v xy buffer (lastChunk n) t) :
    ∃ t' v', writeRest con pt buffer ((n - lastChunk n : Nat) : Int) (lastChunk n : Int)
        (lastChunk n : Int) t = (.ok n, t') ∧
      Shows con pt v' (moved xy (printed v buffer n)) (shown xy (printed v buffer n)) t' := by
  obtain ⟨v', hv', hother⟩ := h.shows
  have hle := lastChunk_le n
  rw [printed]
  by_cases hpos : 0 < n - lastChunk n
  · have haddr : ∀ i, buffer + BitVec.ofInt 32 (lastChunk n) + BitVec.ofNat 32 i =
        buffer + BitVec.ofNat 32 (lastChunk n + i) := fun i => by
      rw [BitVec.ofInt_natCast, BitVec.ofNat_add, BitVec.add_assoc]
    obtain ⟨w, hw⟩ := hv'.copyFromUser hs (buffer + BitVec.ofInt 32 (lastChunk n))
      (n - lastChunk n) hle.2 fun i hi => by
        rw [haddr]
        exact hp _ (by omega)
    have hprint := hw.shows.sysWriteConsole hs buffer (n - lastChunk n)
      fun i hi => (hp i (by omega)).1
    have hbytes : bytesAt w buffer (n - lastChunk n) = bytesAt v buffer (n - lastChunk n) :=
      bytesAt_congr fun i hi =>
        (hw.other _ (hp i (by omega)).2).trans (hother _ (hp i (by omega)).2)
    rw [hbytes, ← moved_append, ← shown_append] at hprint
    refine ⟨_, w, ?_, hprint⟩
    have hsum : ((lastChunk n : Nat) : Int) + ((n - lastChunk n : Nat) : Int) = n := by omega
    rw [writeRest_of_pos (by omega), hsum]
  -- an empty buffer
  · have hn : n = lastChunk n := by omega
    have hnil : bytesAt v buffer (n - lastChunk n) = [] := by
      rw [← hn, Nat.sub_self]
      rfl
    rw [E1E2.writeRest, if_neg (by omega), hnil, List.append_nil, ← hn]
    rw [← hn] at hv'
    exact ⟨t, v', rfl, hv'⟩

end Shows

/-! ### The system call -/

section Write

variable {con : Console} {k : Serving} {fd size : Int} {buffer : Word}

/-- The cursor. -/
def Serving.cursor (k : Serving) (con : Console) : Byte × Byte := (k.byte con.x, k.byte con.y)

/-- The console before the call. -/
theorem Serving.shows (k : Serving) (con : Console) :
    Shows con k.table k.byte (k.cursor con) [] ⟨k.mm.mmu, []⟩ :=
  ⟨⟨k.byte, ⟨fun _ _ => rfl, k.fresh, k.running⟩, rfl, rfl, fun _ _ => rfl⟩, rfl⟩

/-- **What `sys_write` does with a pointer**: whatever memory it points to, the bytes
found there are printed. -/
theorem sysWrite_spec (k : Serving) (con : Console) (hbuf : buffer ≠ 0) (hsize : 0 ≤ size)
    (hp : ∀ i < size.toNat, Source con (buffer + BitVec.ofNat 32 i).toNat) :
    k.write con 1 buffer size =
      (some size, shown (k.cursor con) (printed k.byte buffer size.toNat)) := by
  obtain ⟨n, rfl⟩ := Int.eq_ofNat_of_zero_le hsize
  rw [Int.toNat_natCast] at hp ⊢
  have h0 : Written con k.table k.byte (k.cursor con) buffer 0 ⟨k.mm.mmu, []⟩ :=
    ⟨k.byte, k.shows con, fun _ _ => rfl⟩
  have hspace : Space k.table := k.space
  obtain ⟨t₁, heq₁, h₁⟩ := Written.writeLoop hspace hp n 0 _ rfl rfl (Or.inl rfl) h0
  obtain ⟨t₂, v, heq₂, h₂⟩ := h₁.writeRest hspace hp
  have hwrite : sysWrite con k.table 1 buffer n ⟨k.mm.mmu, []⟩ = ((n : Int), t₂) := by
    have hfd : ¬checkFd 1 escriptura < 0 := by decide
    have hneg : ¬(n : Int) < 0 := by omega
    simp only [sysWrite, if_neg hfd, if_neg hbuf, if_neg hneg]
    rw [Int.ofNat_zero] at heq₁
    simp only [heq₁, heq₂, retval]
  obtain ⟨⟨w, hw, -⟩, hsent⟩ := h₂
  rw [Serving.write, hwrite]
  simp only [hw.fault, hsent]
  rfl

/-- The user pages are none of the places that `sys_write` writes to. -/
theorem source_of_inUserPages {a : Nat} (h : InUserPages a) : Source con a := by
  have h1 := con.x_mem
  have h2 := con.y_mem
  have h3 := con.buffer_mem
  have ha : 0x100000 ≤ a := by
    have := h.1
    unfold userFirstPage pageBytes at this
    omega
  refine ⟨⟨Or.inr h, by omega, by omega, Or.inr (by omega)⟩, fun hb => ?_⟩
  have := hb.2
  omega

/-- A wrong file descriptor. -/
theorem write_of_fd (h : fd ≠ 1) : k.write con fd buffer size = (some (-EBADF), []) := by
  have hfd : checkFd fd escriptura = -EBADF := if_pos h
  rw [Serving.write, sysWrite, hfd, if_pos (by decide)]
  simp only [k.running]
  rfl

/-- `NULL` -/
theorem write_null : k.write con 1 0 size = (some (-EFAULT), []) := by
  have hfd : ¬checkFd 1 escriptura < 0 := by decide
  rw [Serving.write, sysWrite, if_neg hfd, if_pos rfl]
  simp only [k.running]
  rfl

/-- A negative size. -/
theorem write_of_neg (hbuf : buffer ≠ 0) (h : size < 0) :
    k.write con 1 buffer size = (some (-EINVAL), []) := by
  have hfd : ¬checkFd 1 escriptura < 0 := by decide
  rw [Serving.write, sysWrite, if_neg hfd, if_neg hbuf, if_pos h]
  simp only [k.running]
  rfl

/-- The loop never reports an error. -/
theorem writeLoop_ok {pt : Table} : ∀ (left : Nat) (written off : Int) (t : Term), 0 ≤ written →
    ∃ l w o t', writeLoop con pt buffer left written off t = (.ok (l, w, o), t') ∧ 0 ≤ w := by
  intro left
  induction left using Nat.strong_induction_on with
  | _ left ih =>
    intro written off t hw
    by_cases hlt : (bufferSize : Int) < left
    · have hb : bufferSize = 256 := rfl
      obtain ⟨l, w, o, t', heq, hw'⟩ := ih (left - bufferSize) (by omega) (written + bufferSize)
        (off + bufferSize) _ (by omega)
      rw [Int.ofNat_sub (by omega)] at heq
      exact ⟨l, w, o, t', (writeLoop_of_lt hlt).trans heq, hw'⟩
    · refine ⟨left, written, off, t, ?_, hw⟩
      rw [writeLoop, if_neg hlt]

/-- **No pointer but `NULL` is refused**: past the checks, the call does not return an
error, whatever the block. -/
theorem write_ne_efault (hbuf : buffer ≠ 0) (hsize : 0 ≤ size) :
    (k.write con 1 buffer size).1 ≠ some (-EFAULT) := by
  obtain ⟨n, rfl⟩ := Int.eq_ofNat_of_zero_le hsize
  obtain ⟨l, w, o, t₁, heq, hw⟩ :=
    @writeLoop_ok con buffer k.table n 0 0 ⟨k.mm.mmu, []⟩ le_rfl
  have hrest : ∃ r t₂, writeRest con k.table buffer l w o t₁ = (.ok r, t₂) ∧ 0 ≤ r := by
    by_cases hl : 0 < l
    · exact ⟨_, _, writeRest_of_pos hl, by omega⟩
    · exact ⟨w, t₁, if_neg hl, hw⟩
  -- the call returns a count, or ends in a page fault
  obtain ⟨r, t₂, heq₂, hr⟩ := hrest
  have hwrite : sysWrite con k.table 1 buffer n ⟨k.mm.mmu, []⟩ = (r, t₂) := by
    have hfd : ¬checkFd 1 escriptura < 0 := by decide
    have hneg : ¬(n : Int) < 0 := by omega
    simp only [sysWrite, if_neg hfd, if_neg hbuf, if_neg hneg, heq, heq₂, retval]
  rw [Serving.write, hwrite]
  intro h
  dsimp only at h
  split at h
  · exact absurd h (by simp)
  · have := Option.some.inj h
    unfold EFAULT at this
    omega

/-- What is printed of the user pages is the same in states that agree on them. -/
theorem Agree.printed_eq {k' : Serving} (h : Agree con k k') (hc : Contained buffer size) :
    printed k'.byte buffer size.toNat = printed k.byte buffer size.toNat := by
  have hle := (lastChunk_le size.toNat).1
  rw [printed, printed]
  congr 1 <;> exact bytesAt_congr fun i hi => h.user _ (hc i (by omega))

/-- A call that is refused prints nothing. -/
theorem noLeak_of_fd (h : fd ≠ 1) : NoLeak con k fd buffer size where
  same := fun k' _ => by rw [write_of_fd h, write_of_fd h]
  outside := fun _ => by
    rw [write_of_fd h]
    exact ⟨rfl, fun h' => absurd h' h⟩

/-- A call that is refused prints nothing. -/
theorem noLeak_null : NoLeak con k 1 0 size where
  same := fun k' _ => by rw [write_null, write_null]
  outside := fun _ => by
    rw [write_null]
    exact ⟨rfl, fun _ => rfl⟩

/-- A block in the user pages is safe to print. -/
theorem noLeak_of_contained (hc : Contained buffer size) : NoLeak con k 1 buffer size := by
  refine ⟨fun k' h => ?_, fun hn => absurd hc hn⟩
  by_cases hbuf : buffer = 0
  · subst hbuf
    rw [write_null, write_null]
  by_cases hneg : size < 0
  · rw [write_of_neg hbuf hneg, write_of_neg hbuf hneg]
  have hp : ∀ i < size.toNat, Source con (buffer + BitVec.ofNat 32 i).toNat :=
    fun i hi => source_of_inUserPages (hc i hi)
  have hcursor : k'.cursor con = k.cursor con := Prod.ext h.x h.y
  rw [sysWrite_spec k con hbuf (by omega) hp, sysWrite_spec k' con hbuf (by omega) hp, hcursor,
    h.printed_eq hc]

/-- **A call of `sys_write` reveals nothing but the user pages exactly if it is refused for
another reason, or its block is contained in them.** There is no other check: a block
that is not contained is printed all the same. -/
theorem noLeak_iff (con : Console) (k : Serving) (fd : Int) (buffer : Word) (size : Int) :
    NoLeak con k fd buffer size ↔ fd ≠ 1 ∨ buffer = 0 ∨ Contained buffer size := by
  refine ⟨fun h => ?_, ?_⟩
  -- a block that is not contained has a byte, so the size passes its check too
  · by_contra hno
    simp only [not_or, not_not] at hno
    obtain ⟨rfl, hbuf, hc⟩ := hno
    have hsize : 0 ≤ size := by
      by_contra hneg
      exact hc fun i hi => absurd hi (by omega)
    exact write_ne_efault hbuf hsize ((h.outside hc).2 rfl)
  · intro h
    by_cases hfd : fd = 1
    · subst hfd
      rcases h with hfd | rfl | hc
      · exact absurd rfl hfd
      · exact noLeak_null
      · exact noLeak_of_contained hc
    · exact noLeak_of_fd hfd

end Write

/-! ### A leak -/

/-- Possible addresses of the variables. -/
def sampleConsole : Console where
  destBuffer := 0x30000
  x := 0x30200
  y := 0x30201
  buffer_mem := by decide
  x_mem := by decide
  y_mem := by decide
  x_ne_y := by decide
  x_apart := by decide
  y_apart := by decide

/-- The table of the first process is the one of a process. -/
theorem space_booted : Space ((booted sampleImage powerOn).mm.pagusrTable 8) where
  kernel := fun p h1 h2 => by
    have h3 : p < totalPages := by
      unfold numPagKernel at h2
      unfold totalPages
      omega
    rw [booted_other h3 (Or.inl h2), Mm.initEntry, if_pos ⟨h1, h2⟩]
    exact ⟨rfl, rfl⟩
  user := fun p h1 h2 => by
    unfold userFirstPage numPagCode numPagData at h2
    unfold userFirstPage at h1
    by_cases hp : p < 276
    · obtain ⟨i, rfl⟩ : ∃ i, p = userLayout.pagLogInitData + i := ⟨p - 256, by
        rw [pagLogInitData_eq]
        omega⟩
      rw [pagLogInitData_eq] at hp
      rw [booted_data (by unfold numPagData; omega)]
      refine ⟨rfl, ?_⟩
      rw [ssEntry, pbaseAddr_of_lt (by unfold totalPages; omega)]
      change numPagKernel ≤ 328 + 2 * i
      unfold numPagKernel
      omega
    · obtain ⟨i, rfl⟩ : ∃ i, p = userLayout.pagLogInitCode + i := ⟨p - 276, by
        rw [pagLogInitCode_eq]
        omega⟩
      rw [pagLogInitCode_eq] at h2
      rw [booted_code (by unfold numPagCode; omega)]
      refine ⟨rfl, ?_⟩
      rw [codeMk, pbaseAddr_of_lt (by unfold totalPages; omega)]
      change numPagKernel ≤ 312 + 2 * i
      unfold numPagKernel
      omega

/-- The page table of the first process is in use. -/
theorem activeTable_booted {img : Image} {k : Kernel} : (booted img k).mm.activeTable = 8 := by
  rw [Mm.activeTable, booted_dirPages, booted_mm]
  rfl

/-- A kernel with other contents of memory, and an empty translation cache. -/
def Kernel.withMem (k : Kernel) (mem : Nat → Nat → Byte) : Kernel :=
  { k with mm := { k.mm with mmu := { mem := mem, tlb := fun _ => none, fault := false } } }

theorem withMem_table {k : Kernel} {mem : Nat → Nat → Byte} :
    (k.withMem mem).mm.pagusrTable (k.withMem mem).mm.activeTable =
      k.mm.pagusrTable k.mm.activeTable := rfl

theorem withMem_fresh {k : Kernel} {mem : Nat → Nat → Byte} {pt : Table} :
    Mmu.Fresh pt (k.withMem mem).mm.mmu := fun _ _ h => absurd h (by simp [Kernel.withMem])

theorem withMem_fault {k : Kernel} {mem : Nat → Nat → Byte} :
    (k.withMem mem).mm.mmu.fault = false := rfl

theorem withMem_peek {k : Kernel} {mem : Nat → Nat → Byte} {pt : Table} {a : Nat} :
    peek pt (k.withMem mem).mm.mmu a = mem (pt (a / pageBytes)).base (a % pageBytes) := rfl

/-- Memory that is zero but for the first byte of the kernel. -/
def memWith (b : Byte) (f o : Nat) : Byte := if f = 16 ∧ o = 0 then b else 0

theorem withMem_booted (mem : Nat → Nat → Byte) :
    ((booted sampleImage powerOn).withMem mem).mm.pagusrTable
        ((booted sampleImage powerOn).withMem mem).mm.activeTable =
      (booted sampleImage powerOn).mm.pagusrTable 8 := by
  rw [withMem_table, activeTable_booted]

/-- The kernel after boot, with a given byte at its beginning. -/
def bootedWith (b : Byte) : Serving :=
  Serving.mk ((booted sampleImage powerOn).withMem (memWith b))
    ((withMem_booted (memWith b)).symm ▸ space_booted) withMem_fresh withMem_fault

theorem bootedWith_byte (b : Byte) (a : Nat) : (bootedWith b).byte a =
    memWith b ((booted sampleImage powerOn).mm.pagusrTable 8 (a / pageBytes)).base
      (a % pageBytes) := by
  have htable : (bootedWith b).table = (booted sampleImage powerOn).mm.pagusrTable 8 :=
    withMem_booted (memWith b)
  rw [Serving.byte, htable]
  exact withMem_peek

/-- The two states differ in the kernel's memory only. -/
theorem agree_bootedWith (b b' : Byte) :
    Agree sampleConsole (bootedWith b) (bootedWith b') := by
  have hk := space_booted.kernel 0x30 (by decide) (by decide)
  refine ⟨fun a ha => ?_, ?_, ?_⟩
  · have hu := (space_booted.user _ ha.1 ha.2).2
    have hne : ((booted sampleImage powerOn).mm.pagusrTable 8 (a / pageBytes)).base ≠ 16 := by
      unfold numPagKernel at hu
      omega
    rw [bootedWith_byte, bootedWith_byte, memWith, memWith, if_neg fun h => hne h.1,
      if_neg fun h => hne h.1]
  · rw [bootedWith_byte, bootedWith_byte]
    change memWith b' ((booted sampleImage powerOn).mm.pagusrTable 8 0x30).base 0x200 =
      memWith b ((booted sampleImage powerOn).mm.pagusrTable 8 0x30).base 0x200
    rw [hk.2]
    rfl
  · rw [bootedWith_byte, bootedWith_byte]
    change memWith b' ((booted sampleImage powerOn).mm.pagusrTable 8 0x30).base 0x201 =
      memWith b ((booted sampleImage powerOn).mm.pagusrTable 8 0x30).base 0x201
    rw [hk.2]
    rfl

/-- A call that prints one byte of the kernel. -/
theorem write_bootedWith (b : Byte) :
    (bootedWith b).write sampleConsole 1 0x10000 1 = (some 1, [⟨0, 0, b⟩]) := by
  have hsource : ∀ i < (1 : Int).toNat,
      Source sampleConsole ((0x10000 : Word) + BitVec.ofNat 32 i).toNat := by
    intro i hi
    obtain rfl : i = 0 := by
      have : (1 : Int).toNat = 1 := rfl
      omega
    refine ⟨⟨Or.inl ⟨by decide, by decide⟩, by decide, by decide, Or.inl (by decide)⟩, ?_⟩
    unfold Console.InBuffer
    decide
  have hbyte : ∀ p, 1 ≤ p → p < numPagKernel → ∀ o < pageBytes,
      (bootedWith b).byte (p * pageBytes + o) = memWith b p o := by
    intro p h1 h2 o ho
    rw [bootedWith_byte, Mmu.page_of_offset ho, Mmu.offset_of_offset ho,
      (space_booted.kernel p h1 h2).2]
  have hx : (bootedWith b).byte 0x30200 = 0 := hbyte 0x30 (by decide) (by decide) 0x200 (by decide)
  have hy : (bootedWith b).byte 0x30201 = 0 := hbyte 0x30 (by decide) (by decide) 0x201 (by decide)
  have h0 : (bootedWith b).byte 0x10000 = b := hbyte 0x10 (by decide) (by decide) 0 (by decide)
  rw [sysWrite_spec (bootedWith b) sampleConsole (by decide) (by decide) hsource]
  have hcursor : (bootedWith b).cursor sampleConsole = (0, 0) := Prod.ext hx hy
  have hprinted : printed (bootedWith b).byte 0x10000 (1 : Int).toNat = [b] := by
    change [(bootedWith b).byte 0x10000] = [b]
    rw [h0]
  rw [hcursor, hprinted]
  rfl

/-- **`sys_write` reveals kernel memory.** Two kernels that differ in one byte of the
kernel, and in nothing that belongs to the process, answer the same call with different
characters. -/
theorem write_reveals_kernel :
    Agree sampleConsole (bootedWith 0) (bootedWith 1) ∧
      (bootedWith 1).write sampleConsole 1 0x10000 1 ≠
        (bootedWith 0).write sampleConsole 1 0x10000 1 ∧
      ¬NoLeak sampleConsole (bootedWith 0) 1 0x10000 1 := by
  have hne : (bootedWith 1).write sampleConsole 1 0x10000 1 ≠
      (bootedWith 0).write sampleConsole 1 0x10000 1 := by
    rw [write_bootedWith, write_bootedWith]
    decide
  exact ⟨agree_bootedWith 0 1, hne, fun h => hne (h.same _ (agree_bootedWith 0 1))⟩

end Zeos.E1E2
