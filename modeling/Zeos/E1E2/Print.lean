import Zeos.E1E2.Write

/-!
# What a call of `write` prints

`sys_write` cuts the buffer of the caller into transfers: a block is copied to
`dest_buffer`, and a block is printed. `Zeos.E1E2.transfers` lists them, and no copy is larger
than `dest_buffer` (`Zeos.E1E2.sysWrite_transfers`). In all transfers but the last one, what is
printed is the copy; the last one prints the *beginning* of the buffer of the caller.

**The buffer is printed exactly if its last chunk repeats its beginning**
(`Zeos.E1E2.write_prints_buffer`). A buffer that fits into one chunk is its own beginning.
-/

namespace Zeos.E1E2

open ByteMem Paging Loop

/-! ### Transfers -/

/-- A block of the buffer that is copied to `dest_buffer`, and the address from which as
many bytes are printed. -/
structure Transfer where
  /-- Where in the buffer of the caller the block begins. -/
  offset : Int
  /-- Its size. -/
  size : Int
  /-- What is printed. -/
  source : Word

section Transfers

variable (con : Console) (pt : Table) (buffer : Word)

/-- A transfer: `copy_from_user` and `sys_write_console`. -/
def Transfer.run (x : Transfer) (t : Term) : Term :=
  (sysWriteConsole con pt x.source x.size
    (copyFromUser pt (buffer + BitVec.ofInt 32 x.offset) con.destBuffer x.size t).2).2

/-- The transfers of the loop of `sys_write`. -/
def chunks (bytesLeft offset : Int) : List Transfer :=
  if (bufferSize : Int) < bytesLeft then
    ⟨offset, bufferSize, con.destBuffer⟩ :: chunks (bytesLeft - bufferSize) (offset + bufferSize)
  else if 0 < bytesLeft then [⟨offset, bytesLeft, buffer⟩] else []
termination_by bytesLeft.toNat
decreasing_by
  have : (bufferSize : Int) = 256 := rfl
  omega

/-- **The transfers of a call of `sys_write`**, in their order. -/
def transfers (size : Int) : List Transfer := chunks con buffer size 0

variable {con pt buffer}

/-- No copy is larger than `dest_buffer`, and none is empty. -/
theorem size_of_mem_chunks {left off : Int} :
    ∀ x ∈ chunks con buffer left off, 0 < x.size ∧ x.size ≤ bufferSize := by
  have hb : (bufferSize : Int) = 256 := rfl
  induction left, off using chunks.induct with
  | case1 left off h ih =>
    rw [chunks, if_pos h]
    intro x hx
    rcases List.mem_cons.mp hx with rfl | hx
    · exact ⟨Int.natCast_pos.mpr (by decide), le_rfl⟩
    · exact ih x hx
  | case2 left off h hpos =>
    rw [chunks, if_neg h, if_pos hpos]
    intro x hx
    obtain rfl := List.mem_singleton.mp hx
    exact ⟨hpos, not_lt.mp h⟩
  | case3 left off h hneg =>
    rw [chunks, if_neg h, if_neg hneg]
    exact fun x hx => absurd hx List.not_mem_nil

/-- The loop of `sys_write` and what follows it make these transfers. -/
theorem writeLoop_chunks {left off : Int} (written : Int) (t : Term) :
    ∃ l w o t', writeLoop con pt buffer left written off t = (.ok (l, w, o), t') ∧
      (writeRest con pt buffer l w o t').2 =
        (chunks con buffer left off).foldl (fun t x => x.run con pt buffer t) t := by
  induction left, off using chunks.induct generalizing written t with
  | case1 left off h ih =>
    obtain ⟨l, w, o, t', heq, hrest⟩ := ih (written + bufferSize)
      (Transfer.run con pt buffer ⟨off, bufferSize, con.destBuffer⟩ t)
    refine ⟨l, w, o, t', (writeLoop_of_lt h).trans heq, ?_⟩
    have hchunks : chunks con buffer left off = ⟨off, bufferSize, con.destBuffer⟩ ::
        chunks con buffer (left - bufferSize) (off + bufferSize) := by
      rw [chunks, if_pos h]
    rw [hrest, hchunks, List.foldl_cons]
  | case2 left off h hpos =>
    refine ⟨left, written, off, t, ?_, ?_⟩
    · rw [writeLoop, if_neg h]
    · rw [writeRest_of_pos hpos, chunks, if_neg h, if_pos hpos]
      rfl
  | case3 left off h hneg =>
    refine ⟨left, written, off, t, ?_, ?_⟩
    · rw [writeLoop, if_neg h]
    · rw [writeRest, if_neg hneg, chunks, if_neg h, if_neg hneg]
      rfl

/-- **A call of `sys_write` that passes the checks is its transfers.** -/
theorem sysWrite_transfers {size : Int} (hbuf : buffer ≠ 0) (hsize : 0 ≤ size) (t : Term) :
    (sysWrite con pt 1 buffer size t).2 =
      (transfers con buffer size).foldl (fun t x => x.run con pt buffer t) t := by
  obtain ⟨l, w, o, t', heq, hrest⟩ := @writeLoop_chunks con pt buffer size 0 0 t
  have hfd : ¬checkFd 1 escriptura < 0 := by decide
  simp only [sysWrite, if_neg hfd, if_neg hbuf, if_neg (not_lt.mpr hsize), heq]
  exact hrest

end Transfers

/-! ### Printing the buffer -/

/-- A buffer of the user that can be read. -/
def Readable (buffer : Word) (size : Int) : Prop := buffer ≠ 0 ∧ Contained buffer size

/-- **A call of `sys_write` prints the buffer.** -/
structure PrintsBuffer (con : Console) (k : Serving) (buffer : Word) (size : Int) : Prop where
  /-- It returns the size. -/
  result : (k.write con 1 buffer size).1 = some size
  /-- The bytes of the buffer are sent, in order, each once. -/
  sent : (k.write con 1 buffer size).2.map Sent.c = bytesAt k.byte buffer size.toNat
  /-- It consists of transfers, none of which copies more than `dest_buffer` can take. -/
  copies : ∃ xs : List Transfer, (∀ x ∈ xs, 0 < x.size ∧ x.size ≤ bufferSize) ∧
    (sysWrite con k.table 1 buffer size ⟨k.mm.mmu, []⟩).2 =
      xs.foldl (fun t x => x.run con k.table buffer t) ⟨k.mm.mmu, []⟩

/-- **The last chunk of the buffer repeats its beginning.** The last chunk has between 1 and
256 bytes, and begins at a multiple of 256. -/
def LastRepeatsFirst (k : Serving) (buffer : Word) (size : Int) : Prop :=
  ∀ i < size.toNat - lastChunk size.toNat,
    k.byte (buffer + BitVec.ofNat 32 (lastChunk size.toNat + i)).toNat =
      k.byte (buffer + BitVec.ofNat 32 i).toNat

section PrintsBuffer

variable {con : Console} {k : Serving} {buffer : Word} {size : Int}

/-- The characters that are sent are those of the text. -/
theorem map_shown (xy : Byte × Byte) (cs : List Byte) : (shown xy cs).map Sent.c = cs := by
  induction cs generalizing xy with
  | nil => rfl
  | cons c cs ih => rw [shown, List.map_cons, ih]

/-- Two texts of the same length are the same if their characters are. -/
theorem bytesAt_eq_iff {v : Nat → Byte} {p q : Word} {n : Nat} : bytesAt v p n = bytesAt v q n ↔
    ∀ i < n, v (q + BitVec.ofNat 32 i).toNat = v (p + BitVec.ofNat 32 i).toNat := by
  constructor
  · intro h i hi
    have := List.map_eq_map_iff.mp h i (List.mem_range.mpr hi)
    exact this.symm
  · exact fun h => (bytesAt_congr h).symm

/-- **What is printed is the buffer exactly if the last chunk repeats the beginning.** -/
theorem printed_eq_iff : printed k.byte buffer size.toNat = bytesAt k.byte buffer size.toNat ↔
    LastRepeatsFirst k buffer size := by
  have hle := (lastChunk_le size.toNat).1
  have hsplit : bytesAt k.byte buffer size.toNat =
      bytesAt k.byte buffer (lastChunk size.toNat) ++
        bytesAt k.byte (buffer + BitVec.ofNat 32 (lastChunk size.toNat))
          (size.toNat - lastChunk size.toNat) := by
    rw [← bytesAt_add, Nat.add_sub_cancel' hle]
  have haddr : ∀ i, buffer + BitVec.ofNat 32 (lastChunk size.toNat) + BitVec.ofNat 32 i =
      buffer + BitVec.ofNat 32 (lastChunk size.toNat + i) := fun i => by
    rw [BitVec.ofNat_add, BitVec.add_assoc]
  rw [hsplit, printed, List.append_cancel_left_eq, bytesAt_eq_iff, LastRepeatsFirst]
  simp only [haddr]

/-- The pages of the user are read as they are. -/
theorem write_eq_printed (h : Readable buffer size) (hsize : 0 ≤ size) :
    k.write con 1 buffer size =
      (some size, shown (k.cursor con) (printed k.byte buffer size.toNat)) :=
  sysWrite_spec k con h.1 hsize fun i hi => source_of_inUserPages (h.2 i hi)

/-- If the buffer is printed, then its last chunk repeats its beginning. -/
theorem PrintsBuffer.lastRepeatsFirst (hp : PrintsBuffer con k buffer size)
    (h : Readable buffer size) (hsize : 0 ≤ size) : LastRepeatsFirst k buffer size := by
  have hsent := hp.sent
  rw [write_eq_printed h hsize, map_shown] at hsent
  exact printed_eq_iff.mp hsent

/-- **`sys_write` prints the buffer exactly if its last chunk repeats its beginning**, for
every buffer that can be read. -/
theorem write_prints_buffer (con : Console) (k : Serving) (buffer : Word) (size : Int)
    (h : Readable buffer size) (hsize : 0 ≤ size) :
    PrintsBuffer con k buffer size ↔ LastRepeatsFirst k buffer size := by
  refine ⟨fun hp => hp.lastRepeatsFirst h hsize, fun hl => ⟨?_, ?_, ?_⟩⟩
  · rw [write_eq_printed h hsize]
  · rw [write_eq_printed h hsize, map_shown]
    exact printed_eq_iff.mpr hl
  · exact ⟨transfers con buffer size, size_of_mem_chunks, sysWrite_transfers h.1 hsize _⟩

end PrintsBuffer

/-! ### A buffer that is not printed -/

/-- Memory that is zero but for the byte at offset 256 of the first user page. -/
def memMarked (f o : Nat) : Byte := if f = 328 ∧ o = 256 then 1 else 0

/-- The kernel after boot, with this memory. -/
def bootedMarked : Serving :=
  Serving.mk ((booted sampleImage powerOn).withMem memMarked)
    ((withMem_booted memMarked).symm ▸ space_booted) withMem_fresh withMem_fault

theorem bootedMarked_byte {o : Nat} (ho : o < pageBytes) :
    bootedMarked.byte (256 * pageBytes + o) = memMarked 328 o := by
  have htable : bootedMarked.table = (booted sampleImage powerOn).mm.pagusrTable 8 :=
    withMem_booted memMarked
  have hentry : ((booted sampleImage powerOn).mm.pagusrTable 8 256).base = 328 := by
    have h := @booted_data powerOn sampleImage 0 (by decide)
    rw [pagLogInitData_eq] at h
    rw [h, ssEntry, pbaseAddr_of_lt (by decide)]
  rw [Serving.byte, htable]
  refine withMem_peek.trans ?_
  rw [Mmu.page_of_offset ho, Mmu.offset_of_offset ho, hentry]

/-- A block at the beginning of the user pages can be read. -/
theorem readable_of_le {size : Int} (h : size ≤ 0x1c000) : Readable 0x100000 size := by
  refine ⟨by decide, fun i hi => ?_⟩
  have haddr : ((0x100000 : Word) + BitVec.ofNat 32 i).toNat = 0x100000 + i := by
    rw [BitVec.toNat_add, BitVec.toNat_ofNat]
    change (0x100000 + i % 2 ^ 32) % 2 ^ 32 = _
    omega
  unfold InUserPages userFirstPage numPagCode numPagData pageBytes
  rw [haddr]
  omega

/-- A buffer of one chunk. -/
theorem write_prints_buffer_chunk : Readable 0x100000 256 ∧ (0 : Int) ≤ 256 ∧
    (PrintsBuffer sampleConsole bootedMarked 0x100000 256 ↔
      LastRepeatsFirst bootedMarked 0x100000 256) :=
  ⟨readable_of_le (by decide), by decide,
    write_prints_buffer sampleConsole bootedMarked 0x100000 256 (readable_of_le (by decide))
      (by decide)⟩

/-- **A buffer of 257 bytes is not printed**: its last byte is 1, its first one is not, and
the first one is printed twice. -/
theorem write_prints_other : Readable 0x100000 257 ∧
    (bootedMarked.write sampleConsole 1 0x100000 257).1 = some 257 ∧
    ¬PrintsBuffer sampleConsole bootedMarked 0x100000 257 := by
  have hread : Readable 0x100000 257 := readable_of_le (by decide)
  refine ⟨hread, by rw [write_eq_printed hread (by decide)], fun hp => ?_⟩
  have hlast := hp.lastRepeatsFirst hread (by decide) 0 (by decide)
  have h0 : bootedMarked.byte 0x100000 = 0 := bootedMarked_byte (o := 0) (by decide)
  have h256 : bootedMarked.byte 0x100100 = 1 := bootedMarked_byte (o := 256) (by decide)
  have heq : bootedMarked.byte 0x100100 = bootedMarked.byte 0x100000 := hlast
  rw [h0, h256] at heq
  exact absurd heq (by decide)

end Zeos.E1E2
