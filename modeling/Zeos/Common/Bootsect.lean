import Zeos.Lib.Disk
import Zeos.Lib.Loop

/-!
# The boot sector

The BIOS has loaded the first sector of a floppy disk at `0x7C00` and jumped there. The code
in it, `bootsect.S`, copies itself to `0x90000` and reads the rest of the disk to `0x10000`
and above, through BIOS calls that it hands as many sectors as it can: up to the end of the
track, but not across a 64 KB boundary. It computes with words of 16 bits, and tells from
carries where a boundary is.

It has no count of what is still to be read. After every call it compares the segment it
reads to with `syssize`, a word of its own image that the build tool has patched; as the
segment only changes at a 64 KB boundary, the loop reads whole segments, one more than fit
below that size. **Then memory is what it was, with the disk from its second sector on at
`0x10000`** (`Zeos.bootsect_loads`).

That `syssize` is below `0x8000` is necessary: the loop reads to `0x90000` otherwise, where it
runs (`Zeos.readIt_safe_iff`). So is nothing else: every call asks the BIOS for something that
it can do.

The variables `sread`, `head` and `track` are kept apart from memory here, while `syssize` and
`setup_sects`, which are data of the image, are read where they are.
-/

namespace Zeos

open ByteMem Disk Loop

/-- `SEC_PISTA`, and the word `sectors`. -/
def secPista : Nat := 18

/-- A disk of 1.44 MB. -/
def floppy : Geometry := { tracks := 80, heads := 2, sectors := secPista }

/-- Where the BIOS has loaded the boot sector: `BOOTSEG`. -/
def bootAddr : Nat := 0x07C0 * 16

/-- Where the boot sector runs: `INITSEG`. -/
def initAddr : Nat := 0x9000 * 16

/-- `SYSSEG` -/
def sysSeg : Nat := 0x1000

/-- The word `syssize` of the boot sector. -/
def sysSizeWord (m : Mem) : Nat :=
  (m (BitVec.ofNat 32 (initAddr + 500))).toNat + 256 * (m (BitVec.ofNat 32 (initAddr + 501))).toNat

/-- The byte `setup_sects` of the boot sector. -/
def setupSects (m : Mem) : Nat := (m (BitVec.ofNat 32 (initAddr + 497))).toNat

/-- The registers that `read_it` uses, its variables and memory. -/
structure Loader where
  /-- The segment. -/
  es : Nat
  /-- The offset. -/
  bx : Nat
  /-- The sectors read of the current track. -/
  sread : Nat
  /-- The current head. -/
  head : Nat
  /-- The current track. -/
  track : Nat
  /-- Memory. -/
  mem : Mem

namespace Loader

variable (s : Loader) (c : Controller)

/-- The number of sectors that `rp_read` decides to read. -/
def toRead : Nat :=
  let ax := (secPista + 2 ^ 16 - s.sread) % 2 ^ 16
  let cx := ax * 512 % 2 ^ 16
  -- no carry, or a carry and nothing else
  if cx + s.bx < 2 ^ 16 ∨ (cx + s.bx) % 2 ^ 16 = 0 then ax
  else (2 ^ 16 - s.bx) % 2 ^ 16 / 512

/-- What `read_track` passes to the BIOS: the two upper bits of the cylinder are those of the
register with the sector. -/
def readTrack (ax : Nat) : Request :=
  let cl := (s.sread + 1) % 256
  { place :=
      { track := s.track % 256 + 256 * (cl / 64)
        head := s.head % 256 % 2
        sector := cl % 64 - 1 }
    count := ax % 256
    addr := s.es * 16 + s.bx }

/-- After a call that has read `ax` sectors: the next head, or the next track, if these were the
last ones of a track. -/
def ok2Read (ax : Nat) : Loader :=
  let sum := (ax + s.sread) % 2 ^ 16
  if sum = secPista then
    let other := (1 + 2 ^ 16 - s.head) % 2 ^ 16
    { s with
      head := other
      track := if other = 0 then (s.track + 1) % 2 ^ 16 else s.track
      sread := 0 }
  else { s with sread := sum }

/-- Then: the next offset, or the next segment if the addition carries. -/
def ok3Read (ax : Nat) : Loader :=
  let cx := ax * 512 % 2 ^ 16
  if s.bx + cx < 2 ^ 16 then { s with bx := s.bx + cx }
  else { s with es := (s.es + 0x1000) % 2 ^ 16, bx := 0 }

/-- One round of `rp_read`. -/
def rpRead : Loader :=
  let ax := s.toRead
  ({ s with mem := c (s.readTrack ax) s.mem }.ok2Read ax).ok3Read ax

/-- All has been read. -/
def done : Bool := decide (sysSizeWord s.mem < (s.es + 2 ^ 16 - sysSeg) % 2 ^ 16)

/-- The start of `read_it`: the boot sector counts as read. -/
def start (m : Mem) : Loader :=
  { es := sysSeg, bx := 0, sread := (setupSects m + 1) % 256, head := 0, track := 0, mem := m }

end Loader

/-- `read_it`, with an allowance of rounds. -/
def readIt (c : Controller) (n : Nat) (m : Mem) : Option Mem :=
  (whileLoop Loader.done (fun s => s.rpRead c) n (Loader.start m)).map Loader.mem

/-- The boot sector moves to `0x90000`. -/
def moveBootSector (m : Mem) : Mem :=
  fill m initAddr 512 fun i => m (BitVec.ofNat 32 (bootAddr + i))

/-- `bootsect.S`, as far as memory is concerned. -/
def bootsect (c : Controller) (n : Nat) (m : Mem) : Option Mem := readIt c n (moveBootSector m)

variable {s : Loader} {c : Controller} {m : Mem} {disk : Nat → Byte} {N n : Nat}

/-! ### One round -/

/-- The place on the disk that is to be read next. -/
def Loader.place (s : Loader) : Place := { track := s.track, head := s.head, sector := s.sread }

/-- **The state after `N` sectors.** -/
structure Loading (disk : Nat → Byte) (m : Mem) (N : Nat) (s : Loader) : Prop where
  /-- The next sector exists. -/
  has : floppy.Has s.place
  /-- It is the next one after the boot sector and those that have been read. -/
  linear : floppy.linear s.place = N + 1
  /-- The segment. -/
  es : s.es = sysSeg + 0x1000 * (N / 128)
  /-- The offset. -/
  bx : s.bx = 512 * (N % 128)
  /-- Memory. -/
  mem : s.mem = fill m (sysSeg * 16) (512 * N) fun i => disk (512 + i)

/-- At the start nothing has been read. -/
theorem loading_start (h : setupSects m = 0) : Loading disk m 0 (Loader.start m) where
  has := by
    constructor <;> simp [Loader.place, Loader.start, h, floppy, secPista]
  linear := by simp [Loader.place, Loader.start, h, Geometry.linear]
  es := rfl
  bx := rfl
  mem := by rw [Nat.mul_zero, fill_zero]; rfl

/-- The sectors that a round reads: up to the end of the track or of the segment. -/
theorem Loading.toRead (h : Loading disk m N s) :
    s.toRead = min (secPista - s.sread) (128 - N % 128) := by
  have hs : s.sread < secPista := h.has.sector
  unfold secPista at hs
  unfold Loader.toRead secPista
  simp only [h.bx]
  split <;> omega

/-- A round stays on the track and in the segment, and reads something. -/
theorem Loading.toRead_le (h : Loading disk m N s) :
    0 < s.toRead ∧ s.sread + s.toRead ≤ secPista ∧ N % 128 + s.toRead ≤ 128 := by
  have hs : s.sread < secPista := h.has.sector
  rw [h.toRead]
  omega

/-- **The request of a round**: it is for the next sectors, to where they belong. -/
theorem Loading.readTrack (h : Loading disk m N s) (hN : N < 1152) :
    s.readTrack s.toRead =
      { place := s.place, count := s.toRead, addr := sysSeg * 16 + 512 * N } := by
  have hl : (s.track * 2 + s.head) * secPista + s.sread = N + 1 := h.linear
  have hh : s.head < 2 := h.has.head
  obtain ⟨h1, h2, h3⟩ := h.toRead_le
  unfold secPista at *
  have ht : s.track < 256 := by omega
  have e1 : (s.sread + 1) % 256 = s.sread + 1 := Nat.mod_eq_of_lt (by omega)
  have e2 : s.track % 256 + 256 * ((s.sread + 1) / 64) = s.track := by omega
  have e3 : s.head % 256 % 2 = s.head := by omega
  have e4 : (s.sread + 1) % 64 - 1 = s.sread := by omega
  have e5 : s.toRead % 256 = s.toRead := Nat.mod_eq_of_lt (by omega)
  have e6 : s.es * 16 + s.bx = sysSeg * 16 + 512 * N := by
    rw [h.es, h.bx]
    unfold sysSeg
    omega
  simp only [Loader.readTrack, Loader.place, e1, e2, e3, e4, e5, e6]

/-- **The BIOS can do what it is asked for.** -/
theorem Loading.valid (h : Loading disk m N s) (hN : N < 1152) :
    (s.readTrack s.toRead).Valid floppy := by
  obtain ⟨h1, h2, h3⟩ := h.toRead_le
  rw [h.readTrack hN]
  refine ⟨h.has, Geometry.track_lt ?_, h1, h2, ?_⟩
  · rw [h.linear]
    exact Nat.lt_of_lt_of_le (Nat.succ_lt_succ hN) (by decide)
  · unfold sectorBytes sysSeg
    simp only
    omega

/-- **The variables move on along the disk.** -/
theorem Loading.ok2Read (h : Loading disk m N s) (hN : N < 1152) (m' : Mem) :
    let s' := Loader.ok2Read { s with mem := m' } s.toRead
    s'.place = floppy.advance s.toRead s.place ∧ s'.es = s.es ∧ s'.bx = s.bx ∧ s'.mem = m' := by
  have hl : (s.track * 2 + s.head) * secPista + s.sread = N + 1 := h.linear
  have hh : s.head < 2 := h.has.head
  obtain ⟨h1, h2, -⟩ := h.toRead_le
  unfold secPista at hl h2
  have hsum : (s.toRead + s.sread) % 2 ^ 16 = s.sread + s.toRead := by omega
  simp only [Loader.ok2Read, hsum, Geometry.advance, Loader.place, floppy]
  by_cases hend : s.sread + s.toRead = secPista
  · -- the head is toggled, and the track moves on when it is zero again
    have hcases : s.head = 0 ∨ s.head = 1 := by omega
    have ht : (s.track + 1) % 65536 = s.track + 1 := Nat.mod_eq_of_lt (by omega)
    rcases hcases with h0 | h0 <;> simp [hend, h0, ht]
  · simp [hend]

/-- The registers are no part of the place. -/
theorem place_registers (e b : Nat) : Loader.place { s with es := e, bx := b } = s.place := rfl

/-- **The registers move on in memory.** -/
theorem ok3Read_eq (hes : s.es = sysSeg + 0x1000 * (N / 128)) (hbx : s.bx = 512 * (N % 128))
    (hn : N % 128 + n ≤ 128) (hn' : n ≤ secPista) (hN : N < 1152) :
    (s.ok3Read n).es = sysSeg + 0x1000 * ((N + n) / 128) ∧
      (s.ok3Read n).bx = 512 * ((N + n) % 128) ∧
      (s.ok3Read n).place = s.place ∧ (s.ok3Read n).mem = s.mem := by
  unfold sysSeg secPista at *
  have hcx : n * 512 % 2 ^ 16 = 512 * n := by omega
  simp only [Loader.ok3Read, hcx, hbx]
  by_cases hseg : 512 * (N % 128) + 512 * n < 2 ^ 16
  · rw [if_pos hseg]
    refine ⟨hes.trans ?_, ?_, place_registers _ _, rfl⟩
    · omega
    · show 512 * (N % 128) + 512 * n = 512 * ((N + n) % 128)
      omega
  · rw [if_neg hseg]
    refine ⟨?_, ?_, place_registers _ _, rfl⟩ <;> simp only [hes] <;> omega

/-- **One round.** -/
theorem Loading.rpRead (h : Loading disk m N s) (hc : Reads floppy disk c) (hN : N < 1152) :
    Loading disk m (N + s.toRead) (s.rpRead c) := by
  obtain ⟨hp, hes, hbx, hmem⟩ := h.ok2Read hN (c (s.readTrack s.toRead) s.mem)
  obtain ⟨h1, h2, h3⟩ := h.toRead_le
  obtain ⟨hes', hbx', hp', hmem'⟩ :=
    ok3Read_eq (hes.trans h.es) (hbx.trans h.bx) h3 (by omega) hN
  have hplace := hp'.trans hp
  refine ⟨?_, ?_, hes', hbx', (hmem'.trans hmem).trans ?_⟩
  · rw [Loader.rpRead, hplace]
    exact h.has.advance h2
  · rw [Loader.rpRead, hplace, Geometry.linear_advance, h.linear]
    omega
  · have hbyte : ∀ i, disk (512 + (512 * N + i)) = disk ((N + 1) * 512 + i) := fun i => by
      congr 1
      omega
    rw [hc _ _ (h.valid hN), h.readTrack hN, h.mem, Nat.mul_add, ← fill_fill,
      Nat.mul_comm s.toRead]
    simp only [h.linear, hbyte, sectorBytes]

/-! ### Whole runs -/

/-- The number of segments that are read. -/
def segments (m : Mem) : Nat := sysSizeWord m / 0x1000 + 1

/-- As long as nothing has been read to where the boot sector is, its words are what they were. -/
theorem Loading.sysSizeWord (h : Loading disk m N s) (hN : N ≤ 1024) :
    sysSizeWord s.mem = Zeos.sysSizeWord m := by
  have hbyte : ∀ i < 512, s.mem (BitVec.ofNat 32 (initAddr + i)) =
      m (BitVec.ofNat 32 (initAddr + i)) := by
    intro i hi
    rw [h.mem]
    refine fill_of_le ?_
    rw [BitVec.toNat_ofNat]
    unfold sysSeg initAddr
    omega
  rw [Zeos.sysSizeWord, Zeos.sysSizeWord, hbyte 500 (by omega), hbyte 501 (by omega)]

/-- **The loop goes on as long as there are segments to read.** -/
theorem Loading.done_eq_false_iff (h : Loading disk m N s) (hN : N ≤ 1024) :
    s.done = false ↔ N < 128 * segments m := by
  rw [Loader.done, decide_eq_false_iff_not, h.sysSizeWord hN, h.es, segments]
  unfold sysSeg
  omega

/-- A round of the loop ends in the segment it begins in, and closer to its end. -/
theorem Loading.step (h : Loading disk m N s) (hc : Reads floppy disk c) (hK : segments m ≤ 8)
    (hN : N ≤ 128 * segments m) (hd : s.done = false) :
    (∃ N' ≤ 128 * segments m, Loading disk m N' (s.rpRead c)) ∧
      1025 - floppy.linear (s.rpRead c).place < 1025 - floppy.linear s.place := by
  have hlt := (h.done_eq_false_iff (by omega)).mp hd
  obtain ⟨h1, -, h3⟩ := h.toRead_le
  have hl' := h.rpRead hc (by omega)
  refine ⟨⟨_, by omega, hl'⟩, ?_⟩
  rw [hl'.linear, h.linear]
  omega

/-- **What `read_it` reads**, if the size is small enough. -/
theorem readIt_eq (hc : Reads floppy disk c) (hsetup : setupSects m = 0)
    (hsize : sysSizeWord m < 0x8000) (hn : 1024 ≤ n) :
    readIt c n m =
      some (fill m (sysSeg * 16) (segments m * 2 ^ 16) fun i => disk (512 + i)) := by
  have hK : segments m ≤ 8 := by
    unfold segments
    omega
  have h₀ : Loading disk m 0 (Loader.start m) := loading_start hsetup
  have hf : 1025 - floppy.linear (Loader.start m).place ≤ n := by
    rw [h₀.linear]
    omega
  obtain ⟨s, hs, ⟨N, hN, hl⟩, hd⟩ := whileLoop_total
    (I := fun s => ∃ N ≤ 128 * segments m, Loading disk m N s)
    (f := fun s => 1025 - floppy.linear s.place)
    (fun s ⟨N, hN, hl⟩ hd => hl.step hc hK hN hd) ⟨0, Nat.zero_le _, h₀⟩ hf
  have hend : N = 128 * segments m := by
    by_contra hne
    rw [(hl.done_eq_false_iff (by omega)).mpr (by omega)] at hd
    exact absurd hd (by simp)
  have hbytes : 512 * (128 * segments m) = segments m * 2 ^ 16 := by omega
  rw [readIt, hs, Option.map_some, hl.mem, hend, hbytes]

/-- The BIOS has loaded the boot sector. -/
def BiosLoaded (disk : Nat → Byte) (m : Mem) : Prop :=
  ∀ i < 512, m (BitVec.ofNat 32 (bootAddr + i)) = disk i

/-- The size that the build tool has entered. -/
def sizeOnDisk (disk : Nat → Byte) : Nat := (disk 500).toNat + 256 * (disk 501).toNat

/-- The data of the boot sector, once it has moved. -/
theorem moved_words (hm : BiosLoaded disk m) :
    setupSects (moveBootSector m) = (disk 497).toNat ∧
      sysSizeWord (moveBootSector m) = sizeOnDisk disk := by
  have hbyte : ∀ i < 512, moveBootSector m (BitVec.ofNat 32 (initAddr + i)) = disk i := by
    intro i hi
    rw [moveBootSector, fill_at hi (by decide), hm i hi]
  rw [setupSects, sysSizeWord, hbyte 497 (by omega), hbyte 500 (by omega), hbyte 501 (by omega)]
  exact ⟨rfl, rfl⟩

/-- What the boot sector reads, if the size is small enough. -/
theorem bootsect_eq (hc : Reads floppy disk c) (hm : BiosLoaded disk m) (hsetup : disk 497 = 0)
    (hsize : sizeOnDisk disk < 0x8000) (hn : 1024 ≤ n) :
    bootsect c n m = some (fill (moveBootSector m) (sysSeg * 16)
      ((sizeOnDisk disk / 0x1000 + 1) * 2 ^ 16) fun i => disk (512 + i)) := by
  obtain ⟨h0, hw⟩ := moved_words hm
  rw [bootsect, readIt_eq hc (by rw [h0, hsetup]; rfl) (by rw [hw]; exact hsize) hn, segments, hw]

/-- A disk with four sectors to load. -/
def sampleDisk : Nat → Byte := fun i => if i = 500 then 128 else BitVec.ofNat 8 (i / 512)

/-- The memory of a machine that starts from it. -/
def sampleStart : Mem := fun x => sampleDisk (x.toNat - bootAddr)

theorem biosLoaded_sample : BiosLoaded sampleDisk sampleStart := by
  intro i hi
  have hx : (BitVec.ofNat 32 (bootAddr + i)).toNat - bootAddr = i := by
    rw [BitVec.toNat_ofNat]
    unfold bootAddr
    omega
  rw [sampleStart, hx]

/-- The states of the loop. -/
def Loader.after (c : Controller) (m : Mem) (n : Nat) : Loader :=
  (fun s => s.rpRead c)^[n] (start m)

theorem after_succ : Loader.after c m (n + 1) = (Loader.after c m n).rpRead c :=
  Function.iterate_succ_apply' _ _ _

/-- **The loop reads over itself**: in some round the BIOS is asked to put a sector where the
boot sector is. -/
def ReadsOver (c : Controller) (m : Mem) : Prop :=
  ∃ n, (∀ j ≤ n, (Loader.after c m j).done = false) ∧
    let s := Loader.after c m n
    let r := s.readTrack s.toRead
    r.addr < initAddr + 512 ∧ initAddr < r.addr + r.count * sectorBytes

/-- A run that has not come to the boot sector yet. -/
theorem loading_after (hc : Reads floppy disk c) (hsetup : setupSects m = 0)
    (hsize : sysSizeWord m < 0x8000) (hd : ∀ j < n, (Loader.after c m j).done = false) :
    ∃ N ≤ 128 * segments m, Loading disk m N (Loader.after c m n) := by
  have hK : segments m ≤ 8 := by
    unfold segments
    omega
  induction n with
  | zero => exact ⟨0, by omega, loading_start hsetup⟩
  | succ n ih =>
    obtain ⟨N, hN, hl⟩ := ih fun j hj => hd j (by omega)
    have hlt := (hl.done_eq_false_iff (by omega)).mp (hd n (by omega))
    obtain ⟨-, -, h3⟩ := hl.toRead_le
    rw [after_succ]
    exact ⟨_, by omega, hl.rpRead hc (by omega)⟩

/-- A run that comes to the boot sector. -/
theorem exists_loading (hc : Reads floppy disk c) (hsize : 0x8000 ≤ sysSizeWord m) (N n : Nat)
    (hl : Loading disk m N (Loader.after c m n)) (hN : N ≤ 1024) :
    ∃ k, n ≤ k ∧ Loading disk m 1024 (Loader.after c m k) ∧
      ∀ j, n ≤ j → j ≤ k → (Loader.after c m j).done = false := by
  have hK : 8 < segments m := by
    unfold segments
    omega
  have hd := (hl.done_eq_false_iff hN).mpr (by omega)
  by_cases heq : N = 1024
  · subst heq
    exact ⟨n, le_refl n, hl, fun j h1 h2 => Nat.le_antisymm h1 h2 ▸ hd⟩
  · obtain ⟨h1, -, h3⟩ := hl.toRead_le
    have hl' : Loading disk m (N + (Loader.after c m n).toRead) (Loader.after c m (n + 1)) := by
      rw [after_succ]
      exact hl.rpRead hc (by omega)
    obtain ⟨k, hk, hlk, hdk⟩ := exists_loading hc hsize _ _ hl' (by omega)
    refine ⟨k, by omega, hlk, fun j hj hjk => ?_⟩
    rcases Nat.eq_or_lt_of_le hj with rfl | hlt
    · exact hd
    · exact hdk j hlt hjk
termination_by 1024 - N

/-- **The loop spares itself exactly when the size is small enough.** -/
theorem readIt_safe_iff (hc : Reads floppy disk c) (hsetup : setupSects m = 0) :
    ¬ReadsOver c m ↔ sysSizeWord m < 0x8000 := by
  constructor
  · intro hno
    by_contra hge
    have h₀ : Loading disk m 0 (Loader.after c m 0) := loading_start hsetup
    obtain ⟨k, -, hl, hd⟩ := exists_loading hc (not_lt.mp hge) 0 0 h₀ (by omega)
    refine hno ⟨k, fun j hj => hd j (Nat.zero_le j) hj, ?_⟩
    obtain ⟨h1, -, -⟩ := hl.toRead_le
    simp only [hl.readTrack (by omega)]
    unfold initAddr sysSeg sectorBytes
    omega
  · rintro hsize ⟨n, hd, -, h2⟩
    obtain ⟨N, hN, hl⟩ := loading_after hc hsetup hsize fun j hj => hd j (Nat.le_of_lt hj)
    have hK : segments m ≤ 8 := by
      unfold segments
      omega
    have hlt := (hl.done_eq_false_iff (by omega)).mp (hd n (le_refl n))
    obtain ⟨-, -, h3⟩ := hl.toRead_le
    rw [hl.readTrack (by omega)] at h2
    unfold initAddr sysSeg sectorBytes at h2
    simp only at h2
    omega

/-- The loop that loads the disk spares itself. -/
theorem readIt_safe_iff_sample :
    ¬ReadsOver (drive floppy sampleDisk) (moveBootSector sampleStart) ↔
      sysSizeWord (moveBootSector sampleStart) < 0x8000 :=
  readIt_safe_iff reads_drive ((moved_words biosLoaded_sample).1.trans (by decide))

end Zeos
