import Mathlib.Tactic.Ring
import Zeos.Lib.ByteMem

/-!
# Disks with tracks and heads

A disk is an array of sectors, but its controller wants to be told a cylinder, a head and a
sector of the track they select. A program that reads a disk from some sector on therefore
keeps a place (`Disk.Place`), moves it on by what it has read, and turns to the next track at
the end of one. That is moving along the array (`Disk.Geometry.linear_advance`), as long as it
never reads across the end of a track.

`Disk.Reads` is what such a program relies on: the controller delivers the sectors it is asked
for, if they are on one track of the disk and the block of memory they go to does not cross a
64 KB boundary. Of other requests nothing is known.
-/

namespace Disk

open ByteMem

/-- The shape of a disk. -/
structure Geometry where
  /-- The number of cylinders. -/
  tracks : Nat
  /-- The number of heads. -/
  heads : Nat
  /-- The number of sectors of a track. -/
  sectors : Nat

/-- A place on a disk: the sectors are counted from zero. -/
structure Place where
  /-- The cylinder. -/
  track : Nat
  /-- The head. -/
  head : Nat
  /-- The sector of the track. -/
  sector : Nat

variable {g : Geometry} {p : Place} {n : Nat}

namespace Geometry

/-- The number of a sector. -/
def linear (g : Geometry) (p : Place) : Nat := (p.track * g.heads + p.head) * g.sectors + p.sector

/-- The place `n` sectors further, if they are on the same track. -/
def advance (g : Geometry) (n : Nat) (p : Place) : Place :=
  if p.sector + n = g.sectors then
    if p.head + 1 = g.heads then ⟨p.track + 1, 0, 0⟩ else ⟨p.track, p.head + 1, 0⟩
  else { p with sector := p.sector + n }

/-- **Advancing is moving along the array of sectors.** -/
theorem linear_advance : g.linear (g.advance n p) = g.linear p + n := by
  unfold advance linear
  split
  · next hs =>
    split
    · next hh =>
      simp only [← hs, ← hh]
      ring
    · simp only [← hs]
      ring
  · exact (Nat.add_assoc _ _ _).symm

/-- A place on a track of the disk. -/
structure Has (g : Geometry) (p : Place) : Prop where
  /-- There is such a head. -/
  head : p.head < g.heads
  /-- There is such a sector. -/
  sector : p.sector < g.sectors

/-- Reading to the end of the track at most leads to a place on a track. -/
theorem Has.advance (h : g.Has p) (hn : p.sector + n ≤ g.sectors) : g.Has (g.advance n p) := by
  have h1 := h.head
  have h2 := h.sector
  unfold Geometry.advance
  split
  · split
    · exact ⟨Nat.lt_of_le_of_lt (Nat.zero_le _) h1, Nat.lt_of_le_of_lt (Nat.zero_le _) h2⟩
    · exact ⟨show p.head + 1 < g.heads by omega, Nat.lt_of_le_of_lt (Nat.zero_le _) h2⟩
  · exact ⟨h1, show p.sector + n < g.sectors by omega⟩

/-- The cylinder of a sector. -/
theorem track_lt (hl : g.linear p < g.tracks * g.heads * g.sectors) :
    p.track < g.tracks := by
  by_contra hge
  rw [not_lt] at hge
  have h1 : g.tracks * g.heads * g.sectors ≤ p.track * g.heads * g.sectors := by gcongr
  have h2 : p.track * g.heads * g.sectors ≤ g.linear p := by
    rw [linear]
    calc
      p.track * g.heads * g.sectors ≤ (p.track * g.heads + p.head) * g.sectors := by
        gcongr
        exact Nat.le_add_right _ _
      _ ≤ _ := Nat.le_add_right _ _
  omega

end Geometry

/-- What a controller is asked to read. -/
structure Request where
  /-- The first sector. -/
  place : Place
  /-- The number of sectors. -/
  count : Nat
  /-- The address in memory they go to. -/
  addr : Nat

/-- The size of a sector. -/
def sectorBytes : Nat := 512

/-- **A request that a controller can serve.** -/
structure Request.Valid (g : Geometry) (r : Request) : Prop where
  /-- The place exists. -/
  has : g.Has r.place
  /-- The cylinder exists. -/
  track : r.place.track < g.tracks
  /-- Something is to be read. -/
  pos : 0 < r.count
  /-- The sectors are on one track. -/
  fits : r.place.sector + r.count ≤ g.sectors
  /-- No 64 KB boundary is crossed. -/
  boundary : r.addr % 2 ^ 16 + r.count * sectorBytes ≤ 2 ^ 16

/-- What a controller does to memory when it is asked. -/
abbrev Controller := Request → Mem → Mem

/-- **The controller reads the disk.** -/
def Reads (g : Geometry) (disk : Nat → Byte) (c : Controller) : Prop :=
  ∀ r m, r.Valid g → c r m =
    fill m r.addr (r.count * sectorBytes) fun i => disk (g.linear r.place * sectorBytes + i)

/-- A controller that does what it is asked. -/
def drive (g : Geometry) (disk : Nat → Byte) : Controller := fun r m =>
  fill m r.addr (r.count * sectorBytes) fun i => disk (g.linear r.place * sectorBytes + i)

theorem reads_drive {disk : Nat → Byte} : Reads g disk (drive g disk) := fun _ _ _ => rfl

end Disk
