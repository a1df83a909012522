import Zeos.Common.Utils

/-!
# What a copy accesses

The three copy routines on flat memory, with a record of the bytes they read and write.
They are the same loops under three names; two of them return that nothing has gone wrong.
What they leave in memory is what `Zeos.copyFlat` says (`Zeos.Traced.copyData_mem`), and
they get there by reading every byte of the source once and writing every byte of the
destination once, in order (`Zeos.Traced.copyData_accesses`). The two loops divide a block
between them: as the first one stops with at most four bytes left, and not with none, no
residue of the size makes it read a word too far.
-/

namespace Zeos

open ByteMem

/-- Flat memory, and the addresses that have been read and written. -/
structure Traced where
  /-- The contents. -/
  mem : Mem
  /-- The bytes read, oldest first. -/
  reads : List Word
  /-- The bytes written, oldest first. -/
  writes : List Word

namespace Traced

variable (t : Traced) (start dest : Word) (size : Int)

/-- Read the byte at an offset of a block. -/
def read (o : Nat) : Byte × Traced :=
  let a := start + BitVec.ofNat 32 o
  (t.mem a, { t with reads := t.reads ++ [a] })

/-- Write the byte at an offset of a block. -/
def write (o : Nat) (b : Byte) : Traced :=
  let a := dest + BitVec.ofNat 32 o
  { t with mem := Function.update t.mem a b, writes := t.writes ++ [a] }

/-- `copy_data` -/
def copyData : Traced :=
  Zeos.copyData (fun o t => t.read start o) (fun o b t => t.write dest o b) size t

/-- `copy_from_user` -/
def copyFromUser : Int × Traced := (0, t.copyData start dest size)

/-- `copy_to_user` -/
def copyToUser : Int × Traced := (0, t.copyData start dest size)

variable {t start dest size}

/-- The addresses of the first bytes of a block. -/
def addresses (start : Word) (n : Nat) : List Word :=
  (List.range n).map fun i => start + BitVec.ofNat 32 i

theorem addresses_succ {n : Nat} :
    addresses start (n + 1) = addresses start n ++ [start + BitVec.ofNat 32 n] := by
  rw [addresses, List.range_succ, List.map_append]
  rfl

/-- The addresses of a block that does not wrap around. -/
theorem mem_addresses {n : Nat} {a : Word} (hn : start.toNat + n ≤ 2 ^ 32)
    (ha : a ∈ addresses start n) : start.toNat ≤ a.toNat ∧ a.toNat < start.toNat + n := by
  obtain ⟨i, hi, rfl⟩ := List.mem_map.mp ha
  rw [List.mem_range] at hi
  have hadd : (start + BitVec.ofNat 32 i).toNat = start.toNat + i := by bv_omega
  omega

/-- The record is no concern of the loops. -/
theorem copyData_mem : (t.copyData start dest size).mem = copyFlat start dest size t.mem :=
  (copyData_map (π := Traced.mem) (fun _ _ => rfl) (fun _ _ _ => rfl) size t).symm

/-- **Every byte of the source is read once, and every byte of the destination written
once, in order.** -/
theorem copyData_accesses (hs : 0 ≤ size) :
    (t.copyData start dest size).reads = t.reads ++ addresses start size.toNat ∧
      (t.copyData start dest size).writes = t.writes ++ addresses dest size.toNat := by
  refine copyData_induction (I := fun o (t' : Traced) =>
    t'.reads = t.reads ++ addresses start o ∧ t'.writes = t.writes ++ addresses dest o) hs
    ⟨(List.append_nil _).symm, (List.append_nil _).symm⟩ ?_ ?_
  · rintro o t' ⟨hr, hw⟩ -
    constructor <;> simp [copyDWord, read, write, hr, hw, addresses_succ]
  · rintro o t' ⟨hr, hw⟩ -
    constructor <;> simp [copyByte, read, write, hr, hw, addresses_succ]

/-- **A copy is exact**: the destination holds the old bytes of the source, the rest of
memory is what it was, only the two blocks have been accessed, and nothing has happened if
there was nothing to copy. -/
structure Exact (m : Mem) (start dest : Word) (size : Int) (t : Traced) : Prop where
  /-- The bytes of the destination. -/
  copied : ∀ i < size.toNat, t.mem (dest + BitVec.ofNat 32 i) = m (start + BitVec.ofNat 32 i)
  /-- The bytes outside it. -/
  outside : ∀ x, ¬(dest.toNat ≤ x.toNat ∧ x.toNat < dest.toNat + size.toNat) → t.mem x = m x
  /-- The bytes read are in the source. -/
  reads : ∀ a ∈ t.reads, start.toNat ≤ a.toNat ∧ a.toNat < start.toNat + size.toNat
  /-- The bytes written are in the destination. -/
  writes : ∀ a ∈ t.writes, dest.toNat ≤ a.toNat ∧ a.toNat < dest.toNat + size.toNat
  /-- Nothing is copied if the size is not positive. -/
  nothing : size ≤ 0 → t = { mem := m, reads := [], writes := [] }

theorem exact_copyData {m : Mem} (hstart : start.toNat + size.toNat ≤ 2 ^ 32)
    (hdest : dest.toNat + size.toNat ≤ 2 ^ 32)
    (hover : start.toNat + size.toNat ≤ dest.toNat ∨ dest.toNat + size.toNat ≤ start.toNat ∨
      dest.toNat ≤ start.toNat) :
    Exact m start dest size
      (copyData { mem := m, reads := [], writes := [] } start dest size) := by
  by_cases hs : size ≤ 0
  · have h0 : size.toNat = 0 := by omega
    rw [copyData, copyData_of_nonpos hs]
    refine ⟨fun i hi => absurd hi (by omega), fun _ _ => rfl, fun a ha => absurd ha (by simp),
      fun a ha => absurd ha (by simp), fun _ => rfl⟩
  · obtain ⟨hr, hw⟩ := @copyData_accesses { mem := m, reads := [], writes := [] } start dest size
      (by omega)
    have hflat := @copyFlat_spec m start dest size (by omega) hstart hdest (by omega)
    refine ⟨fun i hi => ?_, fun x hx => ?_, fun a ha => ?_, fun a ha => ?_, fun h => absurd h hs⟩
    · rw [copyData_mem]
      exact hflat.copied i hi
    · rw [copyData_mem]
      exact hflat.outside x (by bv_omega)
    · rw [hr] at ha
      exact mem_addresses hstart ha
    · rw [hw] at ha
      exact mem_addresses hdest ha

/-- **The three routines copy exactly**, between blocks that do not wrap around, and of
which the destination does not begin inside the source, after its start. -/
theorem copy_exact (m : Mem) (hstart : start.toNat + size.toNat ≤ 2 ^ 32)
    (hdest : dest.toNat + size.toNat ≤ 2 ^ 32)
    (hover : start.toNat + size.toNat ≤ dest.toNat ∨ dest.toNat + size.toNat ≤ start.toNat ∨
      dest.toNat ≤ start.toNat) :
    let t : Traced := { mem := m, reads := [], writes := [] }
    Exact m start dest size (t.copyData start dest size) ∧
      (t.copyFromUser start dest size).1 = 0 ∧
      Exact m start dest size (t.copyFromUser start dest size).2 ∧
      (t.copyToUser start dest size).1 = 0 ∧
      Exact m start dest size (t.copyToUser start dest size).2 := by
  have hexact := @exact_copyData start dest size m hstart hdest hover
  exact ⟨hexact, rfl, hexact, rfl, hexact⟩

/-- Seven bytes are moved down by two. -/
theorem copy_exact_overlap :
    let m : Mem := fun a => a.setWidth 8
    Exact m 0x1002 0x1000 7 (copyData { mem := m, reads := [], writes := [] } 0x1002 0x1000 7) :=
  (copy_exact _ (by decide) (by decide) (by decide)).1

end Traced

end Zeos
