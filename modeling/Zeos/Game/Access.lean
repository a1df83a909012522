import Zeos.Game.Pids

/-!
# What system calls may write

Two system calls of the GAME kernel store a block in the memory of their caller, at an
address the caller chooses. `access_ok` is what keeps such a block inside the data pages:
the code pages behind it are the same frames for all processes. But a block that its
`VERIFY_WRITE` case refuses falls through to the case for reading, which the code pages
pass, and both cases compare the page after the block with the page after the data pages
by `<=`.

**A block is handled as it should be exactly when it starts below the user pages, lies in
the data pages, or ends more than a page above them** (`Zeos.Game.write_access`); with every
other block the kernel writes where the caller may not (`Zeos.Game.write_access_code`).
-/

namespace Zeos.Game

open ByteMem Paging RoundRobin X86

variable {k : Kernel} {a : Sched Task} {img : Image} {st : Word} {n : Nat}

/-- The address lies in the data pages of a process. -/
def DataAddr (addr : Nat) : Prop :=
  userLayout.pagLogInitData * pageBytes ≤ addr ∧
    addr < (userLayout.pagLogInitData + numPagData) * pageBytes

/-- The block lies in the data pages of a process. -/
def DataBlock (st : Word) (n : Nat) : Prop :=
  userLayout.pagLogInitData * pageBytes ≤ st.toNat ∧
    st.toNat + n ≤ (userLayout.pagLogInitData + numPagData) * pageBytes

/-- **The outcome of a system call that writes a block for its caller is safe**: if it
succeeds, all bytes of memory that have changed are in the data pages of the caller, and a
block that is not is refused, with no effect at all. -/
structure SafeWrite (k : Kernel) (st : Word) (n : Nat) (r : Int × Kernel) : Prop where
  /-- What is written. -/
  within : r.1 = 0 → ∀ f x, r.2.mm.mmu.mem f x ≠ k.mm.mmu.mem f x →
    ∃ addr, DataAddr addr ∧ userLocation k addr = (f, x)
  /-- What is refused. -/
  refused : ¬DataBlock st n → r = (-EFAULT, k)

/-- The block starts below the user pages, or lies in the data pages, or ends more than a
page above them. -/
def Settled (st : Word) (n : Nat) : Prop :=
  st.toNat < userLayout.pagLogInitCode * pageBytes ∨ DataBlock st n ∨
    (userLayout.pagLogInitData + numPagData + 1) * pageBytes ≤ st.toNat + n

instance : Decidable (DataBlock st n) := inferInstanceAs (Decidable (_ ∧ _))

instance : Decidable (Settled st n) := inferInstanceAs (Decidable (_ ∨ _ ∨ _))

/-- **`access_ok` for writing accepts what it accepts for reading**, and one page more
than there is. -/
theorem accessOk_iff (hn : n ≤ pageBytes) :
    accessOk accessBounds .verifyWrite st (BitVec.ofNat 32 n) = true ↔
      userLayout.pagLogInitCode * pageBytes ≤ st.toNat ∧
        st.toNat + n < (userLayout.pagLogInitData + numPagData + 1) * pageBytes := by
  rw [pagLogInitCode_eq, pagLogInitData_eq]
  unfold numPagData pageBytes at *
  have hlt := st.isLt
  have hsum : (st + BitVec.ofNat 32 n).toNat = (st.toNat + n) % 2 ^ 32 := by
    rw [BitVec.toNat_add, BitVec.toNat_ofNat, Nat.add_mod_mod]
  simp only [accessOk, accessBounds, pageBytes, hsum]
  by_cases hwrap : st.toNat + n < 2 ^ 32
  · rw [Nat.mod_eq_of_lt hwrap, if_neg (by omega)]
    split
    · exact iff_of_true rfl (by omega)
    · rw [decide_eq_true_iff]
      omega
  · rw [Nat.mod_eq_sub_mod (by omega), Nat.mod_eq_of_lt (by omega), if_pos (by omega)]
    exact iff_of_false (by simp) (by omega)

/-- A block is settled if it lies in the data pages or is refused. -/
theorem settled_iff (hn : n ≤ pageBytes) : Settled st n ↔ DataBlock st n ∨
    accessOk accessBounds .verifyWrite st (BitVec.ofNat 32 n) = false := by
  rw [← Bool.not_eq_true, accessOk_iff hn, Settled, not_and_or, not_le, not_lt]
  exact or_left_comm

/-- Copying to a block inside the data pages changes data pages only. -/
theorem copyToUser_within {src : Nat → Byte} (hr : Refines k a) (hf : Frames k a)
    (hne : a.running ≠ a.idle) (hst : DataBlock st n) {f x : Nat}
    (hx : (k.copyToUser src st n).mm.mmu.mem f x ≠ k.mm.mmu.mem f x) :
    ∃ addr, DataAddr addr ∧ userLocation k addr = (f, x) := by
  by_contra hno
  refine hx ((copyToUser_data hr hf hne hst.1 hst.2).outside f x fun o ho heq => hno ?_)
  refine ⟨st.toNat + o, ⟨Nat.le_trans hst.1 (Nat.le_add_right _ _), ?_⟩, ?_⟩
  · exact Nat.lt_of_lt_of_le (Nat.add_lt_add_left ho _) hst.2
  · rw [userLocation, activeTable_eq hf]
    exact heq

/-- **A system call that checks its block first** is safe exactly on the settled blocks, if
its answer to a refused block is `-EFAULT`, its answer to another block is not, and what it
writes to a block in the data pages stays there. -/
theorem safeWrite_iff {r : Int × Kernel} (hn : n ≤ pageBytes)
    (hfault : accessOk accessBounds .verifyWrite st (BitVec.ofNat 32 n) = false →
      r = (-EFAULT, k))
    (hok : accessOk accessBounds .verifyWrite st (BitVec.ofNat 32 n) = true → r.1 ≠ -EFAULT)
    (hdata : DataBlock st n → r.1 = 0 → ∀ f x, r.2.mm.mmu.mem f x ≠ k.mm.mmu.mem f x →
      ∃ addr, DataAddr addr ∧ userLocation k addr = (f, x)) :
    SafeWrite k st n r ↔ Settled st n := by
  rw [settled_iff hn]
  constructor
  · intro hs
    by_contra hno
    rw [not_or, Bool.not_eq_false] at hno
    exact hok hno.2 (congrArg Prod.fst (hs.refused hno.1))
  · rintro (hst | hrej)
    · exact ⟨hdata hst, fun h => absurd hst h⟩
    · rw [hfault hrej]
      exact ⟨fun _ _ _ hx => absurd rfl hx, fun _ => rfl⟩

/-- `sys_get_stats` is safe exactly on the settled blocks. -/
theorem safeWrite_sysGetStats (hr : Refines k a) (hf : Frames k a) (hne : a.running ≠ a.idle)
    (pid : Int) : SafeWrite k st sizeofStats (k.sysGetStats pid st) ↔ Settled st sizeofStats := by
  refine safeWrite_iff (by decide) (fun hrej => ?_) (fun hacc => ?_) fun hst _ f x hx => ?_
  · rw [Kernel.sysGetStats, hrej]
    rfl
  · rw [Kernel.sysGetStats, hacc, if_neg (by simp)]
    split
    · exact show -EINVAL ≠ -EFAULT by decide
    · split
      · exact show (0 : Int) ≠ -EFAULT by decide
      · exact show -ESRCH ≠ -EFAULT by decide
  · rcases sysGetStats_cases (k := k) pid st with heq | ⟨t, heq⟩
    · rw [heq] at hx
      exact absurd rfl hx
    · rw [heq] at hx
      exact copyToUser_within (refines_quiet (quiet_reported t) hr)
        (frames_quiet (quiet_reported t) hf) hne hst hx

/-- `sys_pollEvent` is safe exactly on the settled blocks. -/
theorem safeWrite_sysPollEvent (hr : Refines k a) (hf : Frames k a) (hne : a.running ≠ a.idle) :
    SafeWrite k st 128 (k.sysPollEvent st) ↔ Settled st 128 := by
  have hsize : (128 : Word) = BitVec.ofNat 32 128 := rfl
  refine safeWrite_iff (by decide) (fun hrej => ?_) (fun hacc => ?_) fun hst _ f x hx => ?_
  · rw [Kernel.sysPollEvent, hsize, hrej]
    rfl
  · rw [Kernel.sysPollEvent, hsize, hacc, if_neg (by simp)]
    exact show (0 : Int) ≠ -EFAULT by decide
  · rcases sysPollEvent_cases (k := k) st with heq | heq
    · rw [heq] at hx
      exact absurd rfl hx
    · rw [heq] at hx
      exact copyToUser_within hr hf hne hst hx

/-- **What system calls write**: in every reachable state, whatever a process asks
`sys_get_stats` and `sys_pollEvent` for, the outcome is safe exactly when the block is
settled. -/
theorem write_access (h : Reachable img k) (hc : k.current ≠ k.idleTask) (pid : Int)
    (st : Word) :
    let k := k.enter .systemCallHandler
    (SafeWrite k st sizeofStats (k.sysGetStats pid st) ↔ Settled st sizeofStats) ∧
      (SafeWrite k st 128 (k.sysPollEvent st) ↔ Settled st 128) := by
  intro k'
  obtain ⟨a, hr, hf, hne⟩ := reachable_enter h hc .systemCallHandler
  exact ⟨safeWrite_sysGetStats hr hf hne pid, safeWrite_sysPollEvent hr hf hne⟩

/-- The first process after boot asks for a block at the start of its data pages. -/
theorem write_access_boot :
    let k := (powerOn.boot sampleImage).enter .systemCallHandler
    (SafeWrite k 0x108000 sizeofStats (k.sysGetStats 1 0x108000) ↔
        Settled 0x108000 sizeofStats) ∧
      (SafeWrite k 0x108000 128 (k.sysPollEvent 0x108000) ↔ Settled 0x108000 128) := by
  refine write_access ⟨powerOn, loaded_powerOn, Transition.Reachable.refl⟩ ?_ 1 0x108000
  rw [boot_current, boot_idleTask]
  decide

/-- The first process after boot has its code overwritten: a block at the start of the
code pages is accepted. -/
theorem write_access_code :
    let k := (powerOn.boot sampleImage).enter .systemCallHandler
    (k.sysPollEvent 0x100000).1 = 0 ∧ ¬DataBlock 0x100000 128 ∧
      ¬SafeWrite k 0x100000 128 (k.sysPollEvent 0x100000) := by
  intro k
  have hres : (k.sysPollEvent 0x100000).1 = 0 := rfl
  have hblock : ¬DataBlock 0x100000 128 := by decide
  refine ⟨hres, hblock, fun hs => ?_⟩
  have hrej := congrArg Prod.fst (hs.refused hblock)
  rw [hres] at hrej
  exact absurd hrej (by decide)

end Zeos.Game
