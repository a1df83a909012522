import Zeos.Base.Boot

/-!
# Writing to the console

`sys_write` (`sys.c`) of the kernel under `zeos/`, with `access_ok` and `copy_from_user`
(`utils.c`), `sys_write_console` (`devices.c`) and `printc` (`io.c`). The buffer of the
caller is copied in chunks of at most 256 bytes to `kbuffer`, on the stack of the kernel,
and printed from there. Paging is never turned on (`Zeos.Base.main_paging_off`), so that all
of this goes directly to memory.

* `Zeos.Base.write_prints`: a call with a bad argument is refused and prints nothing; any
  other call prints the buffer, as it is, and returns its size.
* `Zeos.Base.read_in_user_pages`: which blocks `access_ok` should not have let through. The
  page that it compares with the last one is that of the address *after* the block.
-/

namespace Zeos.Base

open ByteMem Loop

/-! ### Constants -/

/-- `EBADF` -/
def EBADF : Int := 9

/-- `EACCES` -/
def EACCES : Int := 13

/-- The size of `kbuffer`. -/
def kbufferSize : Nat := 256

/-- `NUM_COLUMNS` -/
def numColumns : Nat := 80

/-- `NUM_ROWS` -/
def numRows : Nat := 25

/-- Where the screen is in memory. -/
def screen : Nat := 0xb8000

/-- `ESCRIPTURA` -/
def escriptura : Int := 1

/-- `PAG_LOG_INIT_DATA` -/
def pagLogInitData : Nat := 1024

/-- The bounds of `access_ok`. -/
def accessBounds : AccessBounds where
  write := (pagLogInitData, pagLogInitData + numPagData)
  read := (pagLogInitData, pagLogInitData + numPagCode + numPagData)

/-- **Where the console has its variables**: those of `io.c` are in the kernel image, and
`kbuffer` is in the frame of the PCB of the caller. -/
structure Console where
  /-- The address of `kbuffer`. -/
  kbuffer : Word
  /-- The address of `x`. -/
  x : Word
  /-- The address of `y`. -/
  y : Word
  /-- The stack is below the user pages. -/
  kbuffer_le : kbuffer.toNat + kbufferSize ≤ lUserStart
  /-- The stack is not on the screen. -/
  kbuffer_screen : kbuffer.toNat + kbufferSize ≤ screen ∨ screen + 4096 ≤ kbuffer.toNat
  /-- The variables are in the kernel image. -/
  x_mem : kernelStart ≤ x.toNat ∧ x.toNat < 0x90000
  /-- The variables are in the kernel image. -/
  y_mem : kernelStart ≤ y.toNat ∧ y.toNat < 0x90000
  /-- Different variables have different addresses. -/
  x_ne_y : x ≠ y
  /-- Different variables have different addresses. -/
  x_apart : x.toNat < kbuffer.toNat ∨ kbuffer.toNat + kbufferSize ≤ x.toNat
  /-- Different variables have different addresses. -/
  y_apart : y.toNat < kbuffer.toNat ∨ kbuffer.toNat + kbufferSize ≤ y.toNat

/-! ### The functions -/

/-- A call of `copy_from_user`. -/
structure Copy where
  /-- `start` -/
  start : Word
  /-- `dest` -/
  dest : Word
  /-- `size` -/
  size : Int

/-- Memory, what has been sent to the console, and the copies that have been made. -/
structure Term where
  /-- Memory. -/
  mem : Mem
  /-- The characters sent, in order. -/
  sent : List Byte
  /-- The calls of `copy_from_user`, in order. -/
  copies : List Copy

/-- Store a byte. -/
def Term.store (t : Term) (a : Word) (b : Byte) : Term :=
  { t with mem := Function.update t.mem a b }

/-- `y=(y+1)%NUM_ROWS` -/
def nextRow (y : Byte) : Byte := BitVec.ofNat 8 ((y.toNat + 1) % numRows)

section Functions

variable (con : Console)

/-- The cell of the screen that the cursor is at. -/
def cell (m : Mem) : Word :=
  BitVec.ofNat 32 (screen + 2 * ((m con.y).toNat * numColumns + (m con.x).toNat))

/-- `printc` -/
def printc (c : Byte) (t : Term) : Term :=
  let t := { t with sent := t.sent ++ [c] }
  if c = 10 then
    let t := t.store con.x 0
    t.store con.y (nextRow (t.mem con.y))
  else
    let a := cell con t.mem
    let t := (t.store a c).store (a + 1) 0x02
    let t := t.store con.x (t.mem con.x + 1)
    if numColumns ≤ (t.mem con.x).toNat then
      let t := t.store con.x 0
      t.store con.y (nextRow (t.mem con.y))
    else t

/-- `sys_write_console` -/
def sysWriteConsole (buffer : Word) (size : Int) (t : Term) : Int × Term :=
  (size, forLoop size.toNat (fun i t => printc con (t.mem (buffer + BitVec.ofNat 32 i)) t) t)

/-- `copy_from_user`, which always succeeds. -/
def copyFromUser (start dest : Word) (size : Int) (t : Term) : Int × Term :=
  (0, { t with mem := copyFlat start dest size t.mem, copies := t.copies ++ [⟨start, dest, size⟩] })

/-- `check_fd` -/
def checkFd (fd permissions : Int) : Int :=
  if fd ≠ 1 then -EBADF else if permissions ≠ escriptura then -EACCES else 0

/-- The loop of `sys_write`: it goes on by the result of `sys_write_console`. -/
def writeLoop (buffer : Word) (bytesLeft written : Int) (t : Term) : Int × Term :=
  if 0 < bytesLeft then
    let chunk := if 256 < bytesLeft then 256 else bytesLeft
    let copied := copyFromUser (buffer + BitVec.ofInt 32 written) con.kbuffer chunk t
    if copied.1 < 0 then (-EFAULT, copied.2)
    else
      let ret := sysWriteConsole con con.kbuffer chunk copied.2
      if ret.1 < 0 then ret
      else writeLoop buffer (bytesLeft - ret.1) (written + ret.1) ret.2
  else (written, t)
termination_by bytesLeft.toNat
decreasing_by
  -- the console takes the whole chunk
  change (bytesLeft - if 256 < bytesLeft then 256 else bytesLeft).toNat < bytesLeft.toNat
  split <;> omega

/-- `sys_write` -/
def sysWrite (fd : Int) (buffer size : Word) (t : Term) : Int × Term :=
  let ret := checkFd fd escriptura
  if ret < 0 then (ret, t)
  else if buffer = 0 then (-EFAULT, t)
  else if size.toInt < 0 then (-EINVAL, t)
  else if !accessOk accessBounds .verifyRead buffer size then (-EFAULT, t)
  else writeLoop con buffer size.toInt 0 t

end Functions

/-! ### Kernel states -/

/-- The cursor is on the screen. -/
def OnScreen (con : Console) (m : Mem) : Prop :=
  (m con.x).toNat < numColumns ∧ (m con.y).toNat < numRows

/-- **A kernel that serves a process.** -/
structure Serving (con : Console) extends Kernel where
  /-- Paging is off. -/
  paging_off : cr0.getLsbD 31 = false
  /-- The cursor is on the screen. -/
  cursor : OnScreen con cpu.mem

/-- **Paging is off when the first process starts.** -/
theorem main_paging_off {img : Image} (l : Loaded img) : (l.main img).cr0.getLsbD 31 = false := by
  rw [main_cr0, l.cr0_eq]
  decide

/-- The state in which `sys_write` begins. -/
def Serving.term {con : Console} (k : Serving con) : Term := ⟨k.mem, [], []⟩

/-- A call of `sys_write`. -/
def Serving.write {con : Console} (k : Serving con) (fd : Int) (buffer size : Word) : Int × Term :=
  sysWrite con fd buffer size k.term

/-! ### What `access_ok` lets through -/

/-- The address is in one of the user pages: the data pages, and the code pages after
them. -/
def InUserPages (a : Nat) : Prop :=
  pagLogInitData * 4096 ≤ a ∧ a < (pagLogInitData + numPagData + numPagCode) * 4096

/-- `access_ok`, in addresses. The block may wrap around the end of memory; but then the
page after it comes before its first one. -/
theorem accessOk_iff {buffer size : Word} (hs : 0 ≤ size.toInt) :
    accessOk accessBounds .verifyRead buffer size = true ↔
      pagLogInitData * 4096 ≤ buffer.toNat ∧
        buffer.toNat + size.toNat < (pagLogInitData + numPagData + numPagCode + 1) * 4096 := by
  have hb := buffer.isLt
  have hsize : size.toNat < 2 ^ 31 := by
    rw [BitVec.toInt_eq_toNat_cond] at hs
    split at hs <;> omega
  unfold pagLogInitData numPagData numPagCode
  by_cases hwrap : buffer.toNat + size.toNat < 2 ^ 32
  · have hsum : (buffer + size).toNat = buffer.toNat + size.toNat := by bv_omega
    simp only [accessOk, accessBounds, hsum, Paging.pageBytes, pagLogInitData, numPagData, numPagCode]
    rw [if_neg (by omega), decide_eq_true_iff]
    omega
  · have hsum : (buffer + size).toNat = buffer.toNat + size.toNat - 2 ^ 32 := by bv_omega
    simp only [accessOk, accessBounds, hsum, Paging.pageBytes]
    rw [if_pos (by omega)]
    exact iff_of_false (by simp) (by omega)

/-- **A block that `access_ok` lets through is in the user pages**, and does not wrap
around. -/
def ReadsUser (buffer size : Word) : Prop :=
  accessOk accessBounds .verifyRead buffer size = true →
    (∀ a, buffer.toNat ≤ a → a < buffer.toNat + size.toNat → InUserPages a) ∧
      buffer.toNat + size.toNat < 2 ^ 32

/-- **Exactly the blocks that begin in the user pages, or after them, and end in the page
after them** are let through and should not be. -/
theorem read_in_user_pages (buffer size : Word) (hs : 0 ≤ size.toInt) :
    ReadsUser buffer size ↔
      ¬(0x400000 ≤ buffer.toNat ∧ 0 < size.toNat ∧ 0x41C000 < buffer.toNat + size.toNat ∧
        buffer.toNat + size.toNat < 0x41D000) := by
  rw [ReadsUser, accessOk_iff hs]
  unfold InUserPages pagLogInitData numPagData numPagCode
  constructor
  · rintro h ⟨h1, h2, h3, h4⟩
    -- the last byte of the block
    have := (h ⟨by omega, by omega⟩).1 (buffer.toNat + size.toNat - 1) (by omega) (by omega)
    omega
  · rintro h ⟨h1, h2⟩
    exact ⟨fun a ha ha' => by omega, by omega⟩

/-- A block of a page at the beginning of the user pages. -/
theorem read_in_user_pages_start : 0 ≤ (4096 : Word).toInt ∧
    (ReadsUser 0x400000 4096 ↔
      ¬(0x400000 ≤ (0x400000 : Word).toNat ∧ 0 < (4096 : Word).toNat ∧
        0x41C000 < (0x400000 : Word).toNat + (4096 : Word).toNat ∧
        (0x400000 : Word).toNat + (4096 : Word).toNat < 0x41D000)) :=
  ⟨by decide, read_in_user_pages 0x400000 4096 (by decide)⟩

/-- Two bytes, the second of which is no longer in the user pages. -/
theorem read_past_user_pages : accessOk accessBounds .verifyRead 0x41BFFF 2 = true ∧
    ¬ReadsUser 0x41BFFF 2 := by
  have hok : accessOk accessBounds .verifyRead 0x41BFFF 2 = true := by decide
  refine ⟨hok, fun h => ?_⟩
  have hin := (h hok).1 0x41C000 (by decide) (by decide)
  exact absurd hin.2 (by decide)

/-! ### Printing -/

/-- An address that printing does not change: neither the cursor nor the screen. -/
def Quiet (con : Console) (a : Word) : Prop :=
  a ≠ con.x ∧ a ≠ con.y ∧ (a.toNat < screen ∨ screen + 4096 ≤ a.toNat)

/-- **The console has printed `out`**, from a memory that is `m` where printing does not
change it. -/
structure Printed (con : Console) (m : Mem) (out : List Byte) (cs : List Copy) (t : Term) :
    Prop where
  /-- Memory. -/
  mem : ∀ a, Quiet con a → t.mem a = m a
  /-- The cursor. -/
  cursor : OnScreen con t.mem
  /-- What has been sent. -/
  sent : t.sent = out
  /-- The copies. -/
  copies : t.copies = cs

section Print

variable {con : Console} {m : Mem} {out : List Byte} {cs : List Copy} {t : Term} {c : Byte}

theorem store_self {a : Word} {b : Byte} : (t.store a b).mem a = b := Function.update_self ..

theorem store_of_ne {a x : Word} {b : Byte} (h : x ≠ a) : (t.store a b).mem x = t.mem x :=
  Function.update_of_ne h ..

theorem nextRow_lt (y : Byte) : (nextRow y).toNat < numRows := by
  have hlt : (y.toNat + 1) % numRows < numRows := Nat.mod_lt _ (by decide)
  rw [nextRow, BitVec.toNat_ofNat, Nat.mod_eq_of_lt (Nat.lt_trans hlt (by decide))]
  exact hlt

/-- The cell of the cursor is on the screen, and so is the byte after it. -/
theorem cell_mem (h : OnScreen con m) : screen ≤ (cell con m).toNat ∧
    (cell con m).toNat + 1 < screen + 4096 ∧ (cell con m + 1).toNat = (cell con m).toNat + 1 := by
  obtain ⟨hx, hy⟩ := h
  have hcell : (cell con m).toNat =
      screen + 2 * ((m con.y).toNat * numColumns + (m con.x).toNat) := by
    rw [cell, BitVec.toNat_ofNat]
    unfold screen numColumns numRows at *
    omega
  unfold screen numColumns numRows at *
  refine ⟨by omega, by omega, by bv_omega⟩

/-- A cell of the screen is no address at which the cursor is kept. -/
theorem Console.ne_of_screen (con : Console) {a : Word} (h : screen ≤ a.toNat) :
    con.x ≠ a ∧ con.y ≠ a := by
  have h1 := con.x_mem
  have h2 := con.y_mem
  unfold screen at h
  constructor <;> rintro rfl <;> omega

/-- The cursor goes to the next line. -/
theorem printed_newline (h : ∀ a, Quiet con a → t.mem a = m a) :
    Printed con m t.sent t.copies ((t.store con.x 0).store con.y
      (nextRow ((t.store con.x 0).mem con.y))) := by
  refine ⟨fun a ha => ?_, ⟨?_, ?_⟩, rfl, rfl⟩
  · rw [store_of_ne ha.2.1, store_of_ne ha.1, h a ha]
  · rw [store_of_ne con.x_ne_y, store_self]
    exact show 0 < numColumns by decide
  · rw [store_self]
    exact nextRow_lt _

/-- **Printing a character.** -/
theorem Printed.printc (h : Printed con m out cs t) :
    Printed con m (out ++ [c]) cs (printc con c t) := by
  obtain ⟨hmem, hcur, rfl, rfl⟩ := h
  rw [Base.printc]
  set t₀ : Term := { t with sent := t.sent ++ [c] }
  split
  · exact printed_newline (t := t₀) hmem
  · obtain ⟨h1, h2, h3⟩ := cell_mem (m := t₀.mem) hcur
    obtain ⟨hx, hy⟩ := con.ne_of_screen h1
    obtain ⟨hx', hy'⟩ := con.ne_of_screen (a := cell con t₀.mem + 1) (by omega)
    -- the character is on the screen, the cursor still where it was, and the column counted up
    set t₁ := (t₀.store (cell con t₀.mem) c).store (cell con t₀.mem + 1) 0x02 with ht₁
    set t₂ := t₁.store con.x (t₁.mem con.x + 1) with ht₂
    have hmem₂ : ∀ a, Quiet con a → t₂.mem a = m a := fun a ha => by
      have hne : a ≠ cell con t₀.mem ∧ a ≠ cell con t₀.mem + 1 := by
        obtain ⟨-, -, ha⟩ := ha
        constructor <;> rintro rfl <;> omega
      rw [ht₂, store_of_ne ha.1, ht₁, store_of_ne hne.2, store_of_ne hne.1]
      exact hmem a ha
    have hy₂ : t₂.mem con.y = t.mem con.y := by
      rw [ht₂, store_of_ne con.x_ne_y.symm, ht₁, store_of_ne hy', store_of_ne hy]
    dsimp only
    split
    · exact printed_newline (t := t₂) hmem₂
    · next hcol => exact ⟨hmem₂, ⟨Nat.lt_of_not_le hcol, hy₂ ▸ hcur.2⟩, rfl, rfl⟩

/-- **Printing a block.** -/
theorem Printed.sysWriteConsole (h : Printed con m out cs t) (p : Word) (n : Nat)
    (hp : ∀ i < n, Quiet con (p + BitVec.ofNat 32 i)) :
    Printed con m (out ++ block m p n) cs (sysWriteConsole con p n t).2 := by
  refine forLoop_induction (I := fun i t => Printed con m (out ++ block m p i) cs t) ?_
    fun i t hi ht => ?_
  · rw [block_zero, List.append_nil]
    exact h
  · rw [block_succ, ← List.append_assoc, ht.mem _ (hp i hi)]
    exact ht.printc

end Print

/-! ### The loop -/

/-- A copy to `kbuffer` that fits. -/
def Copy.Fits (con : Console) (c : Copy) : Prop :=
  c.dest = con.kbuffer ∧ 1 ≤ c.size ∧ c.size ≤ kbufferSize

/-- **The state of `sys_write` when `off` bytes of the buffer have been printed.** -/
structure Written (con : Console) (m : Mem) (buffer : Word) (off : Nat) (t : Term) : Prop where
  /-- The memory of the user is as it was. -/
  user : ∀ a, lUserStart ≤ a.toNat → t.mem a = m a
  /-- The cursor is on the screen. -/
  cursor : OnScreen con t.mem
  /-- The bytes have been sent. -/
  sent : t.sent = block m buffer off
  /-- All copies fit. -/
  copies : ∀ c ∈ t.copies, c.Fits con

section Loop

variable {con : Console} {m : Mem} {buffer : Word} {off n : Nat} {t : Term}

theorem Console.kbuffer_addr (con : Console) {i : Nat} (hi : i < kbufferSize) :
    (con.kbuffer + BitVec.ofNat 32 i).toNat = con.kbuffer.toNat + i := by
  have := con.kbuffer_le
  unfold kbufferSize lUserStart at *
  bv_omega

/-- Printing does not change `kbuffer`. -/
theorem Console.quiet_kbuffer (con : Console) {i : Nat} (hi : i < kbufferSize) :
    Quiet con (con.kbuffer + BitVec.ofNat 32 i) := by
  have haddr := con.kbuffer_addr hi
  have h1 := con.kbuffer_screen
  have h2 := con.x_apart
  have h3 := con.y_apart
  refine ⟨fun h => ?_, fun h => ?_, by omega⟩
  · rw [h] at haddr
    omega
  · rw [h] at haddr
    omega

/-- Printing does not change the memory of the user. -/
theorem Console.quiet_user (con : Console) {a : Word} (h : lUserStart ≤ a.toNat) :
    Quiet con a := by
  have h1 := con.x_mem
  have h2 := con.y_mem
  unfold lUserStart at h
  refine ⟨?_, ?_, Or.inr (by unfold screen; omega)⟩ <;> rintro rfl <;> omega

/-- **One round of the loop**: a chunk is copied, and printed. -/
theorem Written.chunk (h : Written con m buffer off t) (h1 : 1 ≤ n) (hn : n ≤ kbufferSize)
    (hlow : lUserStart ≤ buffer.toNat) (hhigh : buffer.toNat + off + n ≤ 2 ^ 32) :
    Written con m buffer (off + n) (sysWriteConsole con con.kbuffer n
      (copyFromUser (buffer + BitVec.ofInt 32 off) con.kbuffer n t).2).2 := by
  set start := buffer + BitVec.ofInt 32 off with hstart
  have hle := con.kbuffer_le
  have hofs : start = buffer + BitVec.ofNat 32 off := by rw [hstart, BitVec.ofInt_natCast]
  have hstartNat : start.toNat = buffer.toNat + off := by
    rw [hofs]
    bv_omega
  have haddr : ∀ i < n, lUserStart ≤ (start + BitVec.ofNat 32 i).toNat := fun i hi => by
    rw [BitVec.toNat_add, BitVec.toNat_ofNat]
    omega
  have hcopy : FlatCopied t.mem start con.kbuffer n (copyFlat start con.kbuffer n t.mem) := by
    have := @copyFlat_spec t.mem start con.kbuffer n
      (Int.natCast_nonneg n) (by rw [Int.toNat_natCast]; omega)
      (by rw [Int.toNat_natCast]; unfold kbufferSize lUserStart at *; omega)
      (Or.inl (by unfold kbufferSize at *; omega))
    rwa [Int.toNat_natCast] at this
  -- the copy leaves alone what is not in `kbuffer`
  have hother : ∀ a : Word, a.toNat < con.kbuffer.toNat ∨ con.kbuffer.toNat + kbufferSize ≤ a.toNat →
      copyFlat start con.kbuffer n t.mem a = t.mem a := fun a ha =>
    hcopy.outside a (by unfold kbufferSize at *; bv_omega)
  have hcopied : Printed con (copyFlat start con.kbuffer n t.mem) (block m buffer off)
      (t.copies ++ [⟨start, con.kbuffer, n⟩]) (copyFromUser start con.kbuffer n t).2 := by
    refine ⟨fun _ _ => rfl, ?_, h.sent, rfl⟩
    have hx := hother con.x con.x_apart
    have hy := hother con.y con.y_apart
    change OnScreen con (copyFlat start con.kbuffer n t.mem)
    rw [OnScreen, hx, hy]
    exact h.cursor
  have hprint := hcopied.sysWriteConsole con.kbuffer n fun i hi => con.quiet_kbuffer (by omega)
  refine ⟨fun a ha => ?_, hprint.cursor, ?_, fun c hc => ?_⟩
  · rw [hprint.mem a (con.quiet_user ha), hother a (Or.inr (by omega)), h.user a ha]
  · rw [hprint.sent, block_add, ← hofs]
    refine congrArg _ (block_congr fun i hi => ?_)
    rw [hcopy.copied i hi, h.user _ (haddr i hi)]
  · rw [hprint.copies, List.mem_append, List.mem_singleton] at hc
    rcases hc with hc | rfl
    · exact h.copies c hc
    · exact ⟨rfl, Int.ofNat_le.mpr h1, Int.ofNat_le.mpr hn⟩

/-- The copy and the console succeed: the loop goes on. -/
theorem writeLoop_of_pos {left written : Int} {chunk : Nat} (h : 0 < left)
    (hchunk : (chunk : Int) = if 256 < left then 256 else left) :
    writeLoop con buffer left written t =
      writeLoop con buffer (left - chunk) (written + chunk) (sysWriteConsole con con.kbuffer chunk
        (copyFromUser (buffer + BitVec.ofInt 32 written) con.kbuffer chunk t).2).2 := by
  have hneg : ¬(chunk : Int) < 0 := by omega
  rw [writeLoop, if_pos h]
  simp only [← hchunk, copyFromUser, sysWriteConsole, Int.lt_irrefl, if_false,
    if_neg hneg]

/-- **The loop of `sys_write`** prints what is left of the buffer. -/
theorem Written.writeLoop (hlow : lUserStart ≤ buffer.toNat) (hhigh : buffer.toNat + n ≤ 2 ^ 32) :
    ∀ left off t, left + off = n → Written con m buffer off t →
      ∃ t', writeLoop con buffer (left : Nat) (off : Nat) t = ((n : Int), t') ∧
        Written con m buffer n t' := by
  intro left
  -- by what is left: every round takes at least one byte
  induction left using Nat.strong_induction_on with
  | _ left ih =>
    intro off t hsum h
    by_cases hpos : 0 < left
    · obtain ⟨chunk, hchunk, h1, h2, h3⟩ : ∃ chunk : Nat,
          (chunk : Int) = (if 256 < (left : Int) then 256 else (left : Int)) ∧ 1 ≤ chunk ∧
            chunk ≤ kbufferSize ∧ chunk ≤ left := by
        refine ⟨min 256 left, ?_, ?_, Nat.min_le_left 256 left, Nat.min_le_right 256 left⟩
        · split <;> omega
        · omega
      obtain ⟨t', ht', hw⟩ := ih (left - chunk) (by omega) (off + chunk) _ (by omega)
        (h.chunk h1 h2 hlow (by omega))
      rw [Int.ofNat_sub h3, Int.natCast_add] at ht'
      exact ⟨t', (writeLoop_of_pos (by omega) hchunk).trans ht', hw⟩
    · obtain rfl : off = n := by omega
      refine ⟨t, ?_, h⟩
      rw [Base.writeLoop, if_neg (by omega)]

end Loop

/-! ### The system call -/

/-- A call is refused: it returns the error, and nothing has happened. -/
def Refused {con : Console} (k : Serving con) (e : Int) (r : Int × Term) : Prop :=
  r = (-e, k.term)

/-- **What a call of `sys_write` does.** -/
structure WritePrints {con : Console} (k : Serving con) (fd : Int) (buffer size : Word)
    (r : Int × Term) : Prop where
  /-- The wrong file. -/
  badFd : fd ≠ 1 → Refused k EBADF r
  /-- No buffer. -/
  null : fd = 1 → buffer = 0 → Refused k EFAULT r
  /-- A negative size. -/
  negative : fd = 1 → buffer ≠ 0 → size.toInt < 0 → Refused k EINVAL r
  /-- A block that `access_ok` does not let through. -/
  noAccess : fd = 1 → buffer ≠ 0 → 0 ≤ size.toInt →
    accessOk accessBounds .verifyRead buffer size = false → Refused k EFAULT r
  /-- Any other call returns the size, has sent the bytes of the buffer, and has copied
  between one byte and the size of `kbuffer` each time. -/
  prints : fd = 1 → buffer ≠ 0 → 0 ≤ size.toInt →
    accessOk accessBounds .verifyRead buffer size = true →
      r.1 = size.toInt ∧ r.2.sent = block k.mem buffer size.toNat ∧
        ∀ c ∈ r.2.copies, c.dest = con.kbuffer ∧ 1 ≤ c.size ∧ c.size ≤ 256

/-- **`sys_write` prints the buffer**, or refuses to for one of the four reasons. -/
theorem write_prints (con : Console) (k : Serving con) (fd : Int) (buffer size : Word) :
    WritePrints k fd buffer size (k.write fd buffer size) := by
  have hfd : ¬checkFd 1 escriptura < 0 := by decide
  refine ⟨fun h => ?_, ?_, ?_, ?_, ?_⟩
  · have hbad : checkFd fd escriptura = -EBADF := if_pos h
    rw [Refused, Serving.write, sysWrite, hbad]
    rfl
  · rintro rfl rfl
    rw [Refused, Serving.write, sysWrite, if_neg hfd, if_pos rfl]
  · rintro rfl hbuf hneg
    rw [Refused, Serving.write, sysWrite, if_neg hfd, if_neg hbuf, if_pos hneg]
  · rintro rfl hbuf hneg hacc
    rw [Refused, Serving.write, sysWrite, if_neg hfd, if_neg hbuf, if_neg (Int.not_lt.mpr hneg), hacc]
    rfl
  · rintro rfl hbuf hneg hacc
    obtain ⟨hlow, hhigh⟩ := (accessOk_iff hneg).mp hacc
    have hsize : size.toInt = (size.toNat : Int) := by
      rw [BitVec.toInt_eq_toNat_cond] at hneg ⊢
      split at hneg
      · next h => rw [if_pos h]
      · omega
    have h0 : Written con k.mem buffer 0 k.term :=
      ⟨fun _ _ => rfl, k.cursor, rfl, fun _ hc => absurd hc List.not_mem_nil⟩
    unfold pagLogInitData numPagData numPagCode at *
    obtain ⟨t', ht', hw⟩ := Written.writeLoop (n := size.toNat) hlow (by omega) size.toNat 0 _ rfl h0
    have hres : k.write 1 buffer size = (size.toInt, t') := by
      rw [Serving.write, sysWrite, if_neg hfd, if_neg hbuf, if_neg (Int.not_lt.mpr hneg), hacc, hsize]
      exact ht'
    rw [hres]
    exact ⟨rfl, hw.sent, hw.copies⟩

/-- Possible addresses of the variables. -/
def sampleConsole : Console where
  kbuffer := 0x17e00
  x := 0x12100
  y := 0x12101
  kbuffer_le := by decide
  kbuffer_screen := by decide
  x_mem := by decide
  y_mem := by decide
  x_ne_y := by decide
  x_apart := by decide
  y_apart := by decide

/-- A kernel with an empty memory. -/
def sampleServing : Serving sampleConsole where
  toKernel := blankKernel
  paging_off := by decide
  cursor := by
    unfold OnScreen
    decide

/-- A call with two chunks. -/
theorem write_prints_sample : (sampleServing.write 1 0x400000 300).1 = 300 ∧
    (sampleServing.write 1 0x400000 300).2.sent = block blankKernel.mem 0x400000 300 := by
  have h := write_prints sampleConsole sampleServing 1 0x400000 300
  obtain ⟨h1, h2, -⟩ := h.prints rfl (by decide) (by decide) (by decide)
  exact ⟨h1, h2⟩

end Zeos.Base
