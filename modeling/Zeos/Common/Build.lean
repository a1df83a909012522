import Zeos.Lib.ByteMem

/-!
# The build tool

`build.c` makes the disk image from the boot sector, the system and the user program: the boot
sector without its object file header, the other two files one after the other, and four
numbers that it goes back to write over them. One tells the boot sector how much to load, the
others are at the very beginning of the system, where the linker script leaves room for them.

**The image is the three files, but for sixteen bytes** (`Zeos.build_image`): the two that the
tool takes for the root device, the two of the size to load, and the first twelve of the system,
which are the two sizes in bytes and a fixed number.

Sizes are unsigned 32-bit numbers, of which three bytes are written, and of the size to load
two. No size is checked.
-/

namespace Zeos

open ByteMem

/-- What `build` dies of, files that cannot be opened, read or written apart. -/
inductive Die
  /-- `%s: Unable to read header` -/
  | noHeader
  /-- `%s: Non-Minix header` -/
  | nonMinixHeader
  /-- `%s: Illegal data segment` -/
  | illegalDataSegment
  /-- `%s: Illegal bss segment` -/
  | illegalBssSegment
  /-- `%s: Illegal symbol table` -/
  | illegalSymbolTable
  /-- `Boot block must be exactly 512 bytes` -/
  | bootBlockSize
  /-- `Boot block hasn't got boot flag (0xAA55)` -/
  | bootFlag
deriving DecidableEq

/-- The file on standard output, and the position in it. -/
structure Output where
  /-- The contents. -/
  bytes : List Byte
  /-- The position. -/
  pos : Nat

namespace Output

variable (o : Output)

/-- `write`, at a position in the file or at its end. -/
def write (buf : List Byte) : Output where
  bytes := o.bytes.take o.pos ++ buf ++ o.bytes.drop (o.pos + buf.length)
  pos := o.pos + buf.length

/-- `lseek` -/
def lseek (pos : Nat) : Output := { o with pos := pos }

end Output

/-- `MINIX_HEADER_LEN` -/
def minixHeaderLen : Nat := 32

/-- The first bytes of a header. -/
def minixHdr : List Byte := [0x01, 0x03, 0x10, 0x04, 0x20, 0x00, 0x00, 0x00]

/-- The word `lb[i]` of the buffer is zero. -/
def wordZero (buf : List Byte) (i : Nat) : Bool := (buf.drop (4 * i)).take 4 == [0, 0, 0, 0]

/-- `minix_open`: the rest of the file. -/
def minixOpen (file : List Byte) : Except Die (List Byte) :=
  let buf := file.take minixHeaderLen
  if buf.length ≠ minixHeaderLen then .error .noHeader
  else if buf.take 8 ≠ minixHdr ∨ !wordZero buf 5 then .error .nonMinixHeader
  else if !wordZero buf 3 then .error .illegalDataSegment
  else if !wordZero buf 4 then .error .illegalBssSegment
  else if !wordZero buf 7 then .error .illegalSymbolTable
  else .ok (file.drop minixHeaderLen)

/-- The loop that copies a file to the output, `sz` bytes being left of it, in portions of the
size of the buffer. -/
def copyLoop (sz : Nat) (file : List Byte) (o : Output) : Output :=
  if sz = 0 then o
  else
    let l := if 1024 < sz then 1024 else sz
    copyLoop (sz - l) (file.drop l) (o.write (file.take l))
termination_by sz
decreasing_by split <;> omega

/-- The `n` low bytes of a number, the least significant one first. -/
def lowBytes (x n : Nat) : List Byte := (List.range n).map fun k => BitVec.ofNat 8 (x / 256 ^ k)

/-- The size to load, in units of sixteen bytes. -/
def imSize (sysSize usrSize : Nat) : Nat := (sysSize + usrSize + 15) % 2 ^ 32 / 16

/-- The part of `main` that writes: the boot sector, the two files, and the numbers. -/
def writeImage (buf system user : List Byte) : List Byte :=
  -- the minor and the major number of the root device
  let buf := (buf.set 508 0).set 509 0
  let o : Output := { bytes := [], pos := 0 }
  let o := o.write buf
  let sysSize := system.length % 2 ^ 32
  let o := copyLoop sysSize system o
  let usrSize := user.length % 2 ^ 32
  let o := copyLoop usrSize user o
  let o := (o.lseek 500).write (lowBytes (imSize sysSize usrSize) 2)
  let o := (o.lseek 512).write (lowBytes sysSize 3 ++ [0])
  let o := (o.lseek 516).write (lowBytes usrSize 3 ++ [0])
  let o := (o.lseek 520).write (lowBytes 0x7E6A 3 ++ [0])
  o.bytes

/-- `main` of `build.c`: the disk image. -/
def build (bootsect system user : List Byte) : Except Die (List Byte) :=
  match minixOpen bootsect with
  | .error e => .error e
  | .ok rest =>
    let buf := rest.take 1024
    if buf.length ≠ 512 then .error .bootBlockSize
    else if buf.getD 510 0 ≠ 0x55 ∨ buf.getD 511 0 ≠ 0xaa then .error .bootFlag
    else .ok (writeImage buf system user)

variable {o : Output} {buf file boot system user img : List Byte} {i n sz x : Nat}

/-! ### Writing -/

/-- Appending. -/
theorem Output.write_end (h : o.pos = o.bytes.length) :
    o.write buf = { bytes := o.bytes ++ buf, pos := (o.bytes ++ buf).length } := by
  rw [Output.write, h, List.take_length, List.drop_eq_nil_of_le (by omega), List.append_nil,
    List.length_append]

/-- **Writing over** what is there. -/
theorem Output.write_bytes (h : o.pos + buf.length ≤ o.bytes.length) :
    (o.write buf).bytes.length = o.bytes.length ∧
      (∀ j < buf.length, (o.write buf).bytes[o.pos + j]? = buf[j]?) ∧
      ∀ i, i < o.pos ∨ o.pos + buf.length ≤ i → (o.write buf).bytes[i]? = o.bytes[i]? := by
  have htake : (o.bytes.take o.pos).length = o.pos := List.length_take_of_le (by omega)
  refine ⟨?_, fun j hj => ?_, ?_⟩
  · simp only [Output.write, List.length_append, htake, List.length_drop]
    omega
  · rw [Output.write, List.append_assoc, List.getElem?_append_right (by omega), htake,
      Nat.add_sub_cancel_left, List.getElem?_append_left hj]
  · rintro i (hi | hi)
    · rw [Output.write, List.append_assoc, List.getElem?_append_left (by omega),
        List.getElem?_take_of_lt hi]
    · rw [Output.write, List.append_assoc, List.getElem?_append_right (by omega), htake,
        List.getElem?_append_right (by omega), List.getElem?_drop]
      congr 1
      omega

/-- **The copy loop appends the file.** -/
theorem copyLoop_eq (h : o.pos = o.bytes.length) :
    copyLoop sz file o =
      { bytes := o.bytes ++ file.take sz, pos := (o.bytes ++ file.take sz).length } := by
  induction sz using Nat.strongRecOn generalizing file o with
  | _ sz ih =>
    rw [copyLoop]
    split
    · next h0 =>
      rw [h0, List.take_zero, List.append_nil, ← h]
    · next h0 =>
      simp only
      generalize hl : (if 1024 < sz then 1024 else sz) = l
      have hlt : 0 < l ∧ l ≤ sz := by
        rw [← hl]
        split <;> omega
      rw [Output.write_end h, ih (sz - l) (by omega) rfl]
      have htake : file.take l ++ (file.drop l).take (sz - l) = file.take sz := by
        rw [← List.take_add]
        congr 1
        omega
      simp only [List.append_assoc, htake]

/-! ### The image -/

theorem length_lowBytes : (lowBytes x n).length = n := by simp [lowBytes]

/-- **An image of three files.** -/
structure ImageOf (boot system user img : List Byte) : Prop where
  /-- Its length. -/
  length : img.length = 512 + system.length + user.length
  /-- The boot sector, but for the size to load and the root device. -/
  bootBytes : ∀ i < 512, i ≠ 500 → i ≠ 501 → i ≠ 508 → i ≠ 509 →
    img[i]? = boot[minixHeaderLen + i]?
  /-- The size to load. -/
  imSize : ∀ k < 2, img[500 + k]? = (lowBytes (imSize system.length user.length) 2)[k]?
  /-- The size of the system. -/
  sysSize : ∀ k < 4, img[512 + k]? = (lowBytes system.length 3 ++ [0])[k]?
  /-- The size of the user program. -/
  usrSize : ∀ k < 4, img[516 + k]? = (lowBytes user.length 3 ++ [0])[k]?
  /-- The system. -/
  systemBytes : ∀ i, 12 ≤ i → i < system.length → img[512 + i]? = system[i]?
  /-- The user program. -/
  userBytes : ∀ i < user.length, img[512 + system.length + i]? = user[i]?

/-- A boot sector that `build` takes. -/
structure BootFile (file : List Byte) : Prop where
  /-- There is a header and a sector. -/
  length : file.length = minixHeaderLen + 512
  /-- The header. -/
  magic : file.take 8 = minixHdr
  /-- The empty segments. -/
  empty : ∀ i, i = 3 ∨ i = 4 ∨ i = 5 ∨ i = 7 → (file.drop (4 * i)).take 4 = [0, 0, 0, 0]
  /-- The flag. -/
  flag : file[minixHeaderLen + 510]? = some 0x55 ∧ file[minixHeaderLen + 511]? = some 0xaa

/-- The numbers are entered. -/
def patch (sysSize usrSize : Nat) (img : List Byte) : List Byte :=
  let o : Output := { bytes := img, pos := 0 }
  let o := (o.lseek 500).write (lowBytes (imSize sysSize usrSize) 2)
  let o := (o.lseek 512).write (lowBytes sysSize 3 ++ [0])
  let o := (o.lseek 516).write (lowBytes usrSize 3 ++ [0])
  ((o.lseek 520).write (lowBytes 0x7E6A 3 ++ [0])).bytes

/-- Writing over at a position. -/
theorem Output.lseek_write (o : Output) (p : Nat) (buf : List Byte)
    (h : p + buf.length ≤ o.bytes.length) :
    ((o.lseek p).write buf).bytes.length = o.bytes.length ∧
      (∀ j < buf.length, ((o.lseek p).write buf).bytes[p + j]? = buf[j]?) ∧
      ∀ i, i < p ∨ p + buf.length ≤ i → ((o.lseek p).write buf).bytes[i]? = o.bytes[i]? :=
  Output.write_bytes (o := o.lseek p) h

/-- **The numbers are where they belong, and nothing else is written over.** -/
theorem patch_spec {s u : Nat} (h : 524 ≤ img.length) :
    (patch s u img).length = img.length ∧
      (∀ k < 2, (patch s u img)[500 + k]? = (lowBytes (imSize s u) 2)[k]?) ∧
      (∀ k < 4, (patch s u img)[512 + k]? = (lowBytes s 3 ++ [0])[k]?) ∧
      (∀ k < 4, (patch s u img)[516 + k]? = (lowBytes u 3 ++ [0])[k]?) ∧
      ∀ i, (i < 500 ∨ 502 ≤ i ∧ i < 512 ∨ 524 ≤ i) → (patch s u img)[i]? = img[i]? := by
  have h2 : (lowBytes (imSize s u) 2).length = 2 := length_lowBytes
  have h4 : ∀ x, (lowBytes x 3 ++ [0]).length = 4 := fun x => by
    rw [List.length_append, length_lowBytes]
    rfl
  let o₀ : Output := { bytes := img, pos := 0 }
  let o₁ := (o₀.lseek 500).write (lowBytes (imSize s u) 2)
  let o₂ := (o₁.lseek 512).write (lowBytes s 3 ++ [0])
  let o₃ := (o₂.lseek 516).write (lowBytes u 3 ++ [0])
  have e₀ : o₀.bytes.length = img.length := rfl
  obtain ⟨l₁, at₁, off₁⟩ := Output.lseek_write o₀ 500 (lowBytes (imSize s u) 2) (by omega)
  have e₁ : o₁.bytes.length = img.length := l₁
  obtain ⟨l₂, at₂, off₂⟩ := Output.lseek_write o₁ 512 (lowBytes s 3 ++ [0])
    (by rw [h4]; omega)
  have e₂ : o₂.bytes.length = img.length := l₂.trans e₁
  obtain ⟨l₃, at₃, off₃⟩ := Output.lseek_write o₂ 516 (lowBytes u 3 ++ [0])
    (by rw [h4]; omega)
  have e₃ : o₃.bytes.length = img.length := l₃.trans e₂
  obtain ⟨l₄, -, off₄⟩ := Output.lseek_write o₃ 520 (lowBytes 0x7E6A 3 ++ [0])
    (by rw [h4]; omega)
  rw [h2] at at₁ off₁
  rw [h4] at at₂ off₂ at₃ off₃ off₄
  refine ⟨l₄.trans e₃, fun k hk => ?_, fun k hk => ?_, fun k hk => ?_, fun i hi => ?_⟩
  · exact (off₄ _ (by omega)).trans ((off₃ _ (by omega)).trans ((off₂ _ (by omega)).trans
      (at₁ k hk)))
  · exact (off₄ _ (by omega)).trans ((off₃ _ (by omega)).trans (at₂ k hk))
  · exact (off₄ _ (by omega)).trans (at₃ k hk)
  · exact (off₄ _ (by omega)).trans ((off₃ _ (by omega)).trans ((off₂ _ (by omega)).trans
      (off₁ _ (by omega))))

theorem wordZero_iff : wordZero buf i = true ↔ (buf.drop (4 * i)).take 4 = [0, 0, 0, 0] := by
  rw [wordZero, beq_iff_eq]

/-- What `minix_open` takes, and what it leaves. -/
theorem minixOpen_eq_ok {rest : List Byte} : minixOpen file = .ok rest ↔
    minixHeaderLen ≤ file.length ∧ file.take 8 = minixHdr ∧
      (∀ i, i = 3 ∨ i = 4 ∨ i = 5 ∨ i = 7 → (file.drop (4 * i)).take 4 = [0, 0, 0, 0]) ∧
      rest = file.drop minixHeaderLen := by
  have hword : ∀ i < 8, wordZero (file.take minixHeaderLen) i = true ↔
      (file.drop (4 * i)).take 4 = [0, 0, 0, 0] := by
    intro i hi
    have hmin : min 4 (minixHeaderLen - 4 * i) = 4 := by
      unfold minixHeaderLen
      omega
    rw [wordZero_iff, List.drop_take, List.take_take, hmin]
  have h8 : (file.take minixHeaderLen).take 8 = file.take 8 := by
    rw [List.take_take]
    rfl
  have hlen : (file.take minixHeaderLen).length = minixHeaderLen ↔
      minixHeaderLen ≤ file.length := by
    rw [List.length_take]
    omega
  unfold minixOpen
  simp only [ne_eq, hlen, h8, forall_eq_or_imp, forall_eq, ← hword 3 (by omega),
    ← hword 4 (by omega), ← hword 5 (by omega), ← hword 7 (by omega)]
  grind

/-- **What is written**: the three files one after the other, with the numbers entered. -/
theorem writeImage_eq : writeImage buf system user =
    patch (system.length % 2 ^ 32) (user.length % 2 ^ 32)
      ((buf.set 508 0).set 509 0 ++ system.take (system.length % 2 ^ 32) ++
        user.take (user.length % 2 ^ 32)) := by
  have hcopy : ∀ s u, copyLoop u user (copyLoop s system
      (Output.write { bytes := [], pos := 0 } ((buf.set 508 0).set 509 0))) =
      { bytes := (buf.set 508 0).set 509 0 ++ system.take s ++ user.take u
        pos := ((buf.set 508 0).set 509 0 ++ system.take s ++ user.take u).length } := by
    intro s u
    have h₁ : copyLoop s system
        { bytes := (buf.set 508 0).set 509 0, pos := ((buf.set 508 0).set 509 0).length } =
        { bytes := (buf.set 508 0).set 509 0 ++ system.take s
          pos := ((buf.set 508 0).set 509 0 ++ system.take s).length } := copyLoop_eq rfl
    rw [Output.write_end rfl, List.nil_append, h₁]
    exact copyLoop_eq rfl
  rw [writeImage]
  simp only [hcopy]
  rfl

/-- **Exactly the boot files are taken.** -/
theorem build_eq_ok : build boot system user = .ok img ↔
    BootFile boot ∧ img = writeImage (boot.drop minixHeaderLen) system user := by
  rw [build]
  cases hopen : minixOpen boot with
  | error e =>
    refine iff_of_false (by simp) fun h => ?_
    have := minixOpen_eq_ok.mpr ⟨by rw [h.1.length]; omega, h.1.magic, h.1.empty, rfl⟩
    rw [hopen] at this
    exact absurd this (by simp)
  | ok rest =>
    obtain ⟨h1, h2, h3, rfl⟩ := minixOpen_eq_ok.mp hopen
    have hlen : ((boot.drop minixHeaderLen).take 1024).length = 512 ↔
        boot.length = minixHeaderLen + 512 := by
      rw [List.length_take, List.length_drop]
      omega
    simp only
    by_cases hl : boot.length = minixHeaderLen + 512
    · have htake : (boot.drop minixHeaderLen).take 1024 = boot.drop minixHeaderLen :=
        List.take_of_length_le (by rw [List.length_drop]; omega)
      have hflag : ∀ i < 512, ∀ b : Byte, (boot.drop minixHeaderLen).getD i 0 = b ↔
          boot[minixHeaderLen + i]? = some b := by
        intro i hi b
        rw [List.getD_eq_getElem?_getD, List.getElem?_drop,
          List.getElem?_eq_getElem (by omega), Option.getD_some, Option.some_inj]
      rw [if_neg (by rw [not_not, hlen]; exact hl), htake]
      by_cases hf : boot[minixHeaderLen + 510]? = some 0x55 ∧ boot[minixHeaderLen + 511]? = some 0xaa
      · rw [if_neg (by rw [ne_eq, ne_eq, hflag _ (by omega), hflag _ (by omega), hf.1, hf.2]; simp),
          Except.ok.injEq, eq_comm]
        exact ⟨fun h => ⟨⟨hl, h2, h3, hf⟩, h⟩, fun h => h.2⟩
      · rw [if_pos (by rw [ne_eq, ne_eq, hflag _ (by omega), hflag _ (by omega), ← not_and_or]
                       exact hf)]
        exact iff_of_false (by simp) fun h => hf h.1.flag
    · rw [if_pos (by rw [ne_eq, hlen]; exact hl)]
      exact iff_of_false (by simp) fun h => hl h.1.length

/-- Where the three files are. -/
theorem getElem?_files {sector : List Byte} (hsec : sector.length = 512) :
    (∀ i < 512, (sector ++ system ++ user)[i]? = sector[i]?) ∧
      (∀ i < system.length, (sector ++ system ++ user)[512 + i]? = system[i]?) ∧
      ∀ i, (sector ++ system ++ user)[512 + system.length + i]? = user[i]? := by
  rw [List.append_assoc]
  refine ⟨fun i hi => List.getElem?_append_left (by omega), fun i hi => ?_, fun i => ?_⟩
  · have hsub : 512 + i - sector.length = i := by omega
    rw [List.getElem?_append_right (by omega), hsub, List.getElem?_append_left hi]
  · have hsub : 512 + system.length + i - sector.length = system.length + i := by omega
    rw [List.getElem?_append_right (by omega), hsub, List.getElem?_append_right (by omega),
      Nat.add_sub_cancel_left]

/-- **The image of a build**, of files that are small enough for their sizes to be entered, and a
system that has room for them: it is the three files, but for the numbers. -/
theorem build_image (h : build boot system user = .ok img) (hs : 12 ≤ system.length)
    (hs' : system.length < 2 ^ 24) (hu : user.length < 2 ^ 24) :
    ImageOf boot system user img := by
  obtain ⟨hb, rfl⟩ := build_eq_ok.mp h
  have hsl : system.length % 2 ^ 32 = system.length := Nat.mod_eq_of_lt (by omega)
  have hul : user.length % 2 ^ 32 = user.length := Nat.mod_eq_of_lt (by omega)
  have hsec : (((boot.drop minixHeaderLen).set 508 0).set 509 0).length = 512 := by
    rw [List.length_set, List.length_set, List.length_drop, hb.length, Nat.add_sub_cancel_left]
  have hboot : ∀ i, i ≠ 508 → i ≠ 509 →
      (((boot.drop minixHeaderLen).set 508 0).set 509 0)[i]? = boot[minixHeaderLen + i]? := by
    intro i n3 n4
    rw [List.getElem?_set_ne (Ne.symm n4), List.getElem?_set_ne (Ne.symm n3), List.getElem?_drop]
  rw [writeImage_eq, hsl, hul, List.take_length, List.take_length]
  generalize ((boot.drop minixHeaderLen).set 508 0).set 509 0 = sector at hsec hboot
  obtain ⟨f1, f2, f3⟩ := @getElem?_files system user sector hsec
  have hlen : (sector ++ system ++ user).length = 512 + system.length + user.length := by
    rw [List.length_append, List.length_append, hsec]
  generalize sector ++ system ++ user = files at f1 f2 f3 hlen
  obtain ⟨hl, h1, h2, h3, h4⟩ := @patch_spec files system.length user.length (by omega)
  refine ⟨hl.trans hlen, fun i hi n1 n2 n3 n4 => ?_, h1, h2, h3, fun i hi1 hi2 => ?_,
    fun i hi => ?_⟩
  · rw [h4 i (by omega), f1 i hi, hboot i n3 n4]
  · rw [h4 _ (by omega), f2 i hi2]
  · rw [h4 _ (by omega), f3 i]

end Zeos
