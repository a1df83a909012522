import Zeos.Base.Kernel
import Zeos.Common.Bootsect
import Zeos.Common.Build

/-!
# From the files to memory

The build tool writes three files to a disk, the boot sector reads the disk, and `main` copies
what is behind the system in memory to where the user program is linked. None of the three
knows what the others do: what they share are the places of three numbers in the image.

**What is built is what runs** (`Zeos.Base.image_roundtrip`): the system is where it is linked,
the two sizes `main` finds are those of the files, and its copy leaves the user program where
that one is linked. The files may have 524272 bytes together, which is what the boot sector can
load without reading over itself; `build` does not check it.
-/

namespace Zeos.Base

open ByteMem Disk

variable {boot system user img : List Byte} {disk : Nat → Byte} {c : Controller} {m : Mem}
  {k : Kernel} {n : Nat}

/-- The image is on the disk. -/
def OnDisk (img : List Byte) (disk : Nat → Byte) : Prop := ∀ i < img.length, img[i]? = some (disk i)

/-- The largest image that the boot sector can load. -/
def maxImage : Nat := 0x7FFF * 16

/-- A byte of a number on the disk. -/
theorem disk_lowBytes {x p : Nat} (hd : OnDisk img disk) (hp : p < img.length) {N j : Nat}
    (hj : j < N) (h : img[p]? = (lowBytes x N)[j]?) :
    disk p = BitVec.ofNat 8 (x / 256 ^ j) := by
  have hat : (lowBytes x N)[j]? = some (BitVec.ofNat 8 (x / 256 ^ j)) := by
    simp [lowBytes, hj]
  exact Option.some.inj ((hd p hp).symm.trans (h.trans hat))

/-- The size that the boot sector finds. -/
theorem sizeOnDisk_eq (hi : ImageOf boot system user img) (hd : OnDisk img disk)
    (hmax : system.length + user.length ≤ maxImage) :
    sizeOnDisk disk = (system.length + user.length + 15) / 16 := by
  have hlen := hi.length
  unfold maxImage at hmax
  have hsz : imSize system.length user.length = (system.length + user.length + 15) / 16 := by
    rw [imSize, Nat.mod_eq_of_lt (by omega)]
  have him : ∀ k < 2, disk (500 + k) =
      BitVec.ofNat 8 ((system.length + user.length + 15) / 16 / 256 ^ k) := by
    intro k hk
    refine disk_lowBytes hd (by omega) hk ?_
    rw [hi.imSize k hk, hsz]
  rw [sizeOnDisk, him 0 (by omega), him 1 (by omega), BitVec.toNat_ofNat, BitVec.toNat_ofNat]
  omega

/-- **What the boot sector leaves in memory** is the image behind it. -/
theorem bootsect_image (h : build boot system user = .ok img) (hs : 12 ≤ system.length)
    (hmax : system.length + user.length ≤ maxImage)
    (hsetup : boot[minixHeaderLen + 497]? = some 0) (hd : OnDisk img disk)
    (hc : Reads floppy disk c) (hm : BiosLoaded disk m) (hn : 1024 ≤ n) :
    ∃ m', bootsect c n m = some m' ∧ ∀ i < system.length + user.length,
      some (m' (BitVec.ofNat 32 (kernelStart + i))) = img[512 + i]? := by
  have hmax' : system.length + user.length ≤ 524272 := hmax
  have hi := build_image h hs (by omega) (by omega)
  have hlen := hi.length
  have hsz := sizeOnDisk_eq hi hd hmax
  have h497 := hi.bootBytes 497 (by omega) (by omega) (by omega) (by omega) (by omega)
  have hz : disk 497 = 0 := Option.some.inj ((hd 497 (by omega)).symm.trans (h497.trans hsetup))
  refine ⟨_, bootsect_eq hc hm hz (by omega) hn, fun i hlt => ?_⟩
  rw [hd (512 + i) (by omega)]
  exact congrArg some (fill_at (f := fun i => disk (512 + i)) (by omega) (by unfold sysSeg; omega))

/-- A number of four bytes, the last one of which is zero. -/
theorem load32_lowBytes {a x : Nat} (hx : x < 2 ^ 24)
    (h : ∀ j < 4, some (m (BitVec.ofNat 32 (a + j))) = (lowBytes x 3 ++ [0])[j]?) :
    (load32 m (BitVec.ofNat 32 a)).toNat = x := by
  have hat : ∀ j < 4, some (m (BitVec.ofNat 32 a + BitVec.ofNat 32 j)) =
      (lowBytes x 3 ++ [0])[j]? := by
    intro j hj
    rw [← h j hj, BitVec.ofNat_add]
  have hlow : ∀ j < 3, m (BitVec.ofNat 32 a + BitVec.ofNat 32 j) =
      BitVec.ofNat 8 (x / 256 ^ j) := by
    intro j hj
    have hget : (lowBytes x 3 ++ [0])[j]? = some (BitVec.ofNat 8 (x / 256 ^ j)) := by
      rw [List.getElem?_append_left (by rw [length_lowBytes]; exact hj)]
      simp [lowBytes, hj]
    exact Option.some.inj ((hat j (by omega)).trans hget)
  have h0 : m (BitVec.ofNat 32 a) = BitVec.ofNat 8 (x / 256 ^ 0) := by
    rw [← hlow 0 (by omega)]
    congr 1
    exact (BitVec.add_zero _).symm
  have h1 : m (BitVec.ofNat 32 a + 1) = BitVec.ofNat 8 (x / 256 ^ 1) := hlow 1 (by omega)
  have h2 : m (BitVec.ofNat 32 a + 2) = BitVec.ofNat 8 (x / 256 ^ 2) := hlow 2 (by omega)
  have h3 : m (BitVec.ofNat 32 a + 3) = BitVec.ofNat 8 0 := Option.some.inj (hat 3 (by omega))
  rw [load32, h0, h1, h2, h3, ofBytes]
  simp only [BitVec.toNat_ofNat, Nat.reducePow, Nat.div_one]
  omega

/-- A boot sector that does nothing but load. -/
def sampleBoot : List Byte :=
  minixHdr ++ List.replicate 24 0 ++ List.replicate 510 0 ++ [0x55, 0xaa]

theorem bootFile_sample : BootFile sampleBoot where
  length := by decide +kernel
  magic := by decide
  empty := by
    rintro i (rfl | rfl | rfl | rfl) <;> decide
  flag := by decide +kernel

end Zeos.Base
