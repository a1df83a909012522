import Zeos.Lib.Memories
import Zeos.Game.Access
import Zeos.Game.Protection
import Zeos.Game.Turns

/-!
# Every process has a memory of its own

User programs of the GAME kernel load and store, and between their accesses the kernel
forks, exits, switches and writes to the callers of its system calls. The frames move from
one process to another, the child of a fork is filled through a window in the page table of
its parent, and translations are cached. A program sees nothing of this.

What it does see is a *world* (`Zeos.Game.World`) without frames, page tables and
translation cache: every process has twenty data pages of its own and all processes have the
same eight code pages. A fork copies the data pages of the caller for the child, a system
call writes to the memory of its caller, and that is all. **Every access, in every run, has
the outcome it has in the world that the history of the run determines**
(`Zeos.Game.private_memory`); hence no step of a process changes a data page of another one
(`Zeos.Game.memory_isolation`). The one thing that processes share is the code, and as the
page table of a child grants everything, children may write to it.

The same tables grant children access to the pages of the kernel. What a program does there
is not the subject: programs keep to their user pages here.
-/

namespace Zeos.Game

open ByteMem CircList Loop Memories Paging RoundRobin X86

/-! ### The world -/

/-- Whose page a logical page of a process is, and the how manieth of it: the code pages are
nobody's, and the data pages are its own. -/
def userPage (t : Task) (page : Nat) : Option (Option Task × Nat) :=
  if userLayout.pagLogInitCode ≤ page ∧ page < userLayout.pagLogInitCode + numPagCode then
    some (none, page - userLayout.pagLogInitCode)
  else if userLayout.pagLogInitData ≤ page ∧ page < userLayout.pagLogInitData + numPagData then
    some (some t, page - userLayout.pagLogInitData)
  else none

/-- **The memory of the user programs**, as they see it. -/
structure World where
  /-- The bytes of the shared code and of the data of each process. -/
  own : Contents (Option Task) Nat Byte
  /-- Who may write to the code. -/
  codeWritable : Task → Bool

namespace World

variable (w : World) (t : Task) (a : Nat)

/-- What a process loads from an address. -/
def load : Option Byte := (userPage t (a / pageBytes)).map fun x => w.own x.1 x.2 (a % pageBytes)

/-- Write to an address of a process. -/
def put (b : Byte) : World :=
  match userPage t (a / pageBytes) with
  | some (p, i) => { w with own := w.own.write p i (a % pageBytes) b }
  | none => w

/-- Whether a process may store to an address. -/
def mayStore : Bool :=
  match userPage t (a / pageBytes) with
  | some (none, _) => w.codeWritable t
  | some (some _, _) => true
  | none => false

/-- What happens when a process stores to an address. -/
def store (b : Byte) : Bool × World := if w.mayStore t a then (true, w.put t a b) else (false, w)

/-- What happens when a system call writes a block for a process. -/
def deliver (dest : Word) (size : Nat) (src : Nat → Byte) : World :=
  forLoop size (fun o w => w.put t (dest + BitVec.ofNat 32 o).toNat (src o)) w

/-- What happens when a process forks. -/
def fork (child : Task) : World where
  own := w.own.copy (some t) (some child)
  codeWritable := Function.update w.codeWritable child true

end World

/-! ### User programs -/

namespace Kernel

variable (k : Kernel)

/-- The running process loads a byte. -/
def userLoad (addr : Word) : Option Byte × Kernel :=
  let pt := k.mm.pagusrTable k.mm.activeTable
  let (r, mmu) := k.mm.mmu.userLoad pt addr.toNat
  (r, { k with mm := { k.mm with mmu := mmu } })

/-- The running process stores a byte. -/
def userStore (addr : Word) (b : Byte) : Bool × Kernel :=
  let pt := k.mm.pagusrTable k.mm.activeTable
  let (ok, mmu) := k.mm.mmu.userStore pt addr.toNat b
  (ok, { k with mm := { k.mm with mmu := mmu } })

end Kernel

/-- What can happen when programs run: an operation of the kernel, or an access to memory,
with its outcome. -/
inductive UserOp
  /-- The kernel does something. -/
  | kernel (op : Op)
  /-- The running process loads a byte; `none` is a page fault. -/
  | load (addr : Word) (r : Option Byte)
  /-- The running process stores a byte; `false` is a page fault. -/
  | store (addr : Word) (b : Byte) (ok : Bool)

/-- The running process is not the idle task, and the address is in its user pages. -/
def InUserPages (k : Kernel) (addr : Word) : Prop :=
  k.current ≠ k.idleTask ∧ UserAddr addr.toNat

/-- One step of kernel and programs. -/
def UserStep (img : Image) (k : Kernel) : UserOp → Kernel → Prop
  | .kernel op, k' => Step img k op k'
  | .load addr r, k' => InUserPages k addr ∧ k.userLoad addr = (r, k')
  | .store addr b ok, k' => InUserPages k addr ∧ k.userStore addr b = (ok, k')

/-- The block that a system call writes for its caller, in the state it is made in. -/
def reply (k : Kernel) : Op → Option (Word × Nat × (Nat → Byte))
  | .getStats pid st =>
    if (k.sysGetStats pid st).1 = 0 then
      ((List.finRange nrTasks).find? fun i => (k.task i).PID = pid).map fun i =>
        (st, sizeofStats, ((reported k i).task i).pStats.byte)
    else none
  | .pollEvent keyboard =>
    if (k.sysPollEvent keyboard).1 = 0 then some (keyboard, 128, k.keyboard.keyboardBuffer)
    else none
  | _ => none

/-- What a step does to the world. -/
def World.step (img : Image) (w : World) (x : Kernel × UserOp) : World :=
  match x.2 with
  | .kernel (.fork c) =>
    if forkSucceeds img (x.1, .fork c) then
      w.fork x.1.current (Kernel.listHeadToTaskStruct (listFirst x.1.links .freequeue))
    else w
  | .kernel op =>
    match reply (x.1.enter .systemCallHandler) op with
    | some (dest, size, src) => w.deliver x.1.current dest size src
    | none => w
  | .load _ _ => w
  | .store addr b _ => (w.store x.1.current addr.toNat b).2

/-- The frame that keeps a page. -/
def frameOf (mm : Mm) : Option Task → Nat → Nat
  | none, i => codeFrame i
  | some t, i => (dataEntry mm t i).base

/-- The world after boot: what is in the frames, with the code protected. -/
def bootWorld (k : Kernel) : World where
  own := fun p i => k.mm.mmu.mem (frameOf k.mm p i)
  codeWritable := fun _ => false

/-- **The world that the history of a run determines**, `k` being the booted kernel. -/
def world (img : Image) (k : Kernel) (h : List (Kernel × UserOp)) : World :=
  h.foldl (World.step img) (bootWorld k)

variable {k k' : Kernel} {a b : Sched Task} {img : Image} {w : World} {mm mm' : Mm} {s s' : Mmu}
  {t : Task} {addr : Nat} {v : Byte}

/-! ### Frames keep the pages of the world -/

/-- The pages there are. -/
def Has (a : Sched Task) : Option Task → Nat → Prop
  | none, i => i < numPagCode
  | some t, i => InUse a t ∧ i < numPagData

/-- **The frames hold the memories of the world.** -/
abbrev Keeps (mm : Mm) (a : Sched Task) (s : Mmu) (w : World) : Prop :=
  Represents (Has a) (frameOf mm) pageBytes s.mem w.own

/-- The page tables grant access to the user pages, except to protected code. -/
structure Granted (mm : Mm) (a : Sched Task) (w : World) : Prop where
  /-- The data pages. -/
  data : ∀ t, InUse a t → ∀ i < numPagData,
    (dataEntry mm t i).user = true ∧ (dataEntry mm t i).rw = true
  /-- The code pages. -/
  code : ∀ t, InUse a t → ∀ i < numPagCode,
    (codeEntry mm t i).user = true ∧ (codeEntry mm t i).rw = w.codeWritable t

/-- No frame keeps two pages. -/
theorem frameOf_inj (h : Owned mm (InUse a)) (p q : Option Task) (i j : Nat) (hp : Has a p i)
    (hq : Has a q j) (heq : frameOf mm p i = frameOf mm q j) : p = q ∧ i = j := by
  have hlt : ∀ i < numPagCode, codeFrame i < codeFrame numPagCode := fun i hi => by
    unfold codeFrame
    omega
  rcases p with _ | t <;> rcases q with _ | u <;> simp only [frameOf] at heq
  · unfold codeFrame at heq
    exact ⟨rfl, by omega⟩
  · have h1 := hlt i hp
    have h2 := (h.slot u hq.1 j hq.2).2
    omega
  · have h1 := hlt j hq
    have h2 := (h.slot t hp.1 i hp.2).2
    omega
  · obtain ⟨rfl, rfl⟩ := h.inj t u hp.1 hq.1 i hp.2 j hq.2 heq
    exact ⟨rfl, rfl⟩

/-- The page table of a process maps its user pages to the frames that keep them. -/
theorem userPage_entry (h : Owned mm (InUse a)) (ht : InUse a t) {page : Nat}
    {x : Option Task × Nat} (hx : userPage t page = some x) :
    Has a x.1 x.2 ∧ (mm.pagusrTable t page).present = true ∧
      (mm.pagusrTable t page).base = frameOf mm x.1 x.2 := by
  unfold userPage at hx
  split at hx
  · next hc =>
    obtain rfl := Option.some.inj hx
    obtain ⟨i, rfl⟩ := Nat.exists_eq_add_of_le hc.1
    have hi : i < numPagCode := by omega
    rw [Nat.add_sub_cancel_left]
    exact ⟨hi, h.code t ht i hi⟩
  · split at hx
    · next hd =>
      obtain rfl := Option.some.inj hx
      obtain ⟨i, rfl⟩ := Nat.exists_eq_add_of_le hd.1
      have hi : i < numPagData := by omega
      rw [Nat.add_sub_cancel_left]
      exact ⟨⟨ht, hi⟩, h.mapped t ht i hi, rfl⟩
    · exact absurd hx (by simp)

/-- Every user address has a page. -/
theorem userPage_of_userAddr (h : UserAddr addr) : ∃ x, userPage t (addr / pageBytes) = some x := by
  unfold userPage
  rcases userAddr_page h with ⟨i, hi, heq⟩ | ⟨i, hi, heq⟩
  · exact ⟨_, if_pos (by omega)⟩
  · have h1 := pagLogInitData_eq
    have h2 := pagLogInitCode_eq
    have h3 : numPagCode = 8 := rfl
    rw [if_neg (by omega), if_pos (by omega)]
    exact ⟨_, rfl⟩

/-- Whether the page table of a process lets it store to a user page. -/
theorem granted_entry (h : Granted mm a w) (ht : InUse a t) {x : Option Task × Nat}
    (hx : userPage t (addr / pageBytes) = some x) :
    (mm.pagusrTable t (addr / pageBytes)).user = true ∧
      (mm.pagusrTable t (addr / pageBytes)).rw = w.mayStore t addr := by
  unfold World.mayStore
  unfold userPage at *
  split at hx
  · next hc =>
    simp only [if_pos hc]
    obtain ⟨i, heq⟩ := Nat.exists_eq_add_of_le hc.1
    rw [heq]
    exact h.code t ht i (by omega)
  · next hc =>
    split at hx
    · next hd =>
      simp only [if_neg hc, if_pos hd]
      obtain ⟨i, heq⟩ := Nat.exists_eq_add_of_le hd.1
      rw [heq]
      exact h.data t ht i (by omega)
    · exact absurd hx (by simp)

/-! ### Single bytes -/

/-- Writing to a page writes to its frame. -/
theorem Keeps.put (h : Keeps mm a s w) (ho : Owned mm (InUse a)) (ht : InUse a t) (addr : Nat)
    (v : Byte) : Keeps mm a (match userPage t (addr / pageBytes) with
      | some x => s.poke (frameOf mm x.1 x.2) (addr % pageBytes) v
      | none => s) (w.put t addr v) := by
  unfold World.put
  split
  · next x hx =>
    simp only [hx]
    exact h.write (userPage_entry ho ht hx).1
  · next hx =>
    simp only [hx]
    exact h

/-- The translation cache is no concern of the world. -/
theorem Keeps.touch (h : Keeps mm a s w) (pt : Table) (page : Nat) :
    Keeps mm a (s.touch pt page) w :=
  h.congr (fun _ _ hp => ⟨hp, rfl⟩) fun _ _ _ _ _ => by rw [Mmu.touch_mem]

/-- **A store of the kernel** to the memory of a process. The page after the user pages is
the first one of the window, which is empty. -/
theorem Keeps.storeByte (h : Keeps mm a s w) (ho : Owned mm (InUse a)) (ht : InUse a t)
    (hs : Mmu.Fresh (mm.pagusrTable t) s)
    (h1 : userLayout.pagLogInitCode * pageBytes ≤ addr)
    (h2 : addr < (userLayout.pagLogInitData + numPagData + 1) * pageBytes) :
    Keeps mm a (s.storeByte (mm.pagusrTable t) addr v) (w.put t addr v) := by
  by_cases hu : UserAddr addr
  · obtain ⟨x, hx⟩ := @userPage_of_userAddr t addr hu
    obtain ⟨-, hp, hb⟩ := userPage_entry ho ht hx
    have hput := (h.touch (mm.pagusrTable t) (addr / pageBytes)).put ho ht addr v
    rw [Mmu.storeByte, Mmu.walk_eq (hs.maps hp), hb]
    simpa only [hx] using hput
  · have hpage : addr / pageBytes = userLayout.pagLogInitData + numPagData + 0 := by
      unfold UserAddr at hu
      unfold pageBytes at *
      omega
    have hzero : mm.pagusrTable t (addr / pageBytes) = Entry.zero := by
      rw [hpage]
      exact ho.window t 0 (by decide)
    have habs : (mm.pagusrTable t (addr / pageBytes)).present = false := by
      rw [hzero]
      rfl
    have hnone : userPage t (addr / pageBytes) = none := by
      rw [hpage]
      rfl
    have hwalk : Mmu.walk (mm.pagusrTable t) (addr / pageBytes) s = (none, { s with fault := true })
        := by
      rw [Mmu.walk, hs.tlb_eq_none habs]
      simp [habs]
    rw [Mmu.storeByte, hwalk, World.put, hnone]
    exact h

/-- **`copy_to_user` delivers a block** that `access_ok` has accepted. -/
theorem Keeps.copyToUser {src : Nat → Byte} {dest : Word} {n : Nat} (hf : Frames k a)
    (hU : InUse a a.running) (h : Keeps k.mm a k.mm.mmu w)
    (h1 : userLayout.pagLogInitCode * pageBytes ≤ dest.toNat)
    (h2 : dest.toNat + n < (userLayout.pagLogInitData + numPagData + 1) * pageBytes) :
    Keeps k.mm a (k.copyToUser src dest n).mm.mmu (w.deliver a.running dest n src) := by
  have hbound : (userLayout.pagLogInitData + numPagData + 1) * pageBytes < 2 ^ 32 := by decide
  have hbyte : ∀ o s, o < n → Mmu.Fresh (k.mm.pagusrTable a.running) s →
      Keeps k.mm a s (w.deliver a.running dest o src) →
      Keeps k.mm a (s.storeByte (k.mm.pagusrTable a.running) (dest + BitVec.ofNat 32 o).toNat
        (src o)) (w.deliver a.running dest (o + 1) src) := by
    intro o s ho hs hk
    have haddr : (dest + BitVec.ofNat 32 o).toNat = dest.toNat + o := by bv_omega
    rw [World.deliver, forLoop_succ]
    exact hk.storeByte hf.owned hU hs (by omega) (by omega)
  suffices key : Mmu.Fresh (k.mm.pagusrTable a.running) (k.copyToUser src dest n).mm.mmu ∧
    Keeps k.mm a (k.copyToUser src dest n).mm.mmu (w.deliver a.running dest n src) from key.2
  rw [copyToUser_mmu hf]
  refine copyData_induction (I := fun o s => Mmu.Fresh (k.mm.pagusrTable a.running) s ∧
    Keeps k.mm a s (w.deliver a.running dest o src)) (Int.natCast_nonneg n) ⟨hf.fresh, h⟩ ?_ ?_
  · rintro o s ⟨hs, hk⟩ ho
    refine ⟨hs.storeByte.storeByte.storeByte.storeByte, ?_⟩
    exact hbyte _ _ (by omega) hs.storeByte.storeByte.storeByte
      (hbyte _ _ (by omega) hs.storeByte.storeByte (hbyte _ _ (by omega) hs.storeByte
        (hbyte _ _ (by omega) hs hk)))
  · rintro o s ⟨hs, hk⟩ ho
    exact ⟨hs.storeByte, hbyte _ _ (by omega) hs hk⟩

/-! ### Accesses of the running process -/

/-- **A load finds what the world has.** -/
theorem userLoad_eq (hf : Frames k a) (hU : InUse a a.running) (hg : Granted k.mm a w)
    (h : Keeps k.mm a k.mm.mmu w) {addr : Word} (hu : UserAddr addr.toNat) :
    (k.userLoad addr).1 = w.load a.running addr.toNat ∧
      (k.userLoad addr).2.mm.mmu =
        k.mm.mmu.touch (k.mm.pagusrTable a.running) (addr.toNat / pageBytes) := by
  obtain ⟨x, hx⟩ := @userPage_of_userAddr a.running _ hu
  obtain ⟨hhas, hp, hb⟩ := userPage_entry hf.owned hU hx
  obtain ⟨huser, -⟩ := granted_entry hg hU hx
  have hcell := h.eq x.1 x.2 hhas (addr.toNat % pageBytes) (Nat.mod_lt _ (by decide))
  simp only [Kernel.userLoad, activeTable_eq hf, Mmu.userLoad, hf.fresh.entry_eq hp, huser, if_true,
    hb, hcell, World.load, hx, and_true]
  rfl

/-- **A store does what it does in the world.** -/
theorem userStore_eq (hf : Frames k a) (hU : InUse a a.running) (hg : Granted k.mm a w)
    (h : Keeps k.mm a k.mm.mmu w) {addr : Word} (hu : UserAddr addr.toNat) :
    (k.userStore addr v).1 = (w.store a.running addr.toNat v).1 ∧
      Keeps k.mm a (k.userStore addr v).2.mm.mmu (w.store a.running addr.toNat v).2 := by
  obtain ⟨x, hx⟩ := @userPage_of_userAddr a.running _ hu
  obtain ⟨-, hp, hb⟩ := userPage_entry hf.owned hU hx
  obtain ⟨huser, hrw⟩ := granted_entry hg hU hx
  have hput := (h.touch (k.mm.pagusrTable a.running) (addr.toNat / pageBytes)).put
    hf.owned hU addr.toNat v
  rw [hx] at hput
  simp only [Kernel.userStore, activeTable_eq hf, Mmu.userStore, hf.fresh.entry_eq hp, huser, hrw,
    World.store, true_and]
  split
  · rw [hb]
    exact ⟨rfl, hput⟩
  · exact ⟨rfl, h⟩

/-! ### Operations of the kernel -/

/-- **Frames and page tables are as the world has it.** -/
structure Holds (mm : Mm) (a : Sched Task) (w : World) : Prop where
  /-- The contents of the frames. -/
  keeps : Keeps mm a mm.mmu w
  /-- The access bits. -/
  granted : Granted mm a w

/-- Only the user pages of the processes count. -/
theorem Holds.congr (h : Holds mm a w) (hU : ∀ t, InUse b t → InUse a t)
    (hmem : mm'.mmu.mem = mm.mmu.mem)
    (htab : ∀ t, InUse b t → mm'.pagusrTable t = mm.pagusrTable t) : Holds mm' b w where
  keeps := by
    refine Represents.congr h.keeps ?_ fun p i _ o _ => by rw [hmem]
    rintro (_ | t) i hp
    · exact ⟨hp, rfl⟩
    · refine ⟨⟨hU t hp.1, hp.2⟩, ?_⟩
      rw [frameOf, dataEntry, htab t hp.1]
      rfl
  granted := by
    constructor
    · intro t ht i hi
      rw [dataEntry, htab t ht]
      exact h.granted.data t (hU t ht) i hi
    · intro t ht i hi
      rw [codeEntry, htab t ht]
      exact h.granted.code t (hU t ht) i hi

/-- Giving frames back changes the page table of one process, and no byte. -/
theorem exitFree_other (pt : Task) (mm : Mm) : (Kernel.exitFree pt mm).mmu = mm.mmu ∧
    ∀ t, t ≠ pt → (Kernel.exitFree pt mm).pagusrTable t = mm.pagusrTable t := by
  refine forLoop_induction (I := fun _ (m : Mm) => m.mmu = mm.mmu ∧
    ∀ t, t ≠ pt → m.pagusrTable t = mm.pagusrTable t) ⟨rfl, fun _ _ => rfl⟩ ?_
  rintro i m - ⟨hm, ht⟩
  have hfree : (m.freeFrame (m.getFrame pt (userLayout.pagLogInitData + i))).mmu = m.mmu ∧
      (m.freeFrame (m.getFrame pt (userLayout.pagLogInitData + i))).pagusrTable =
        m.pagusrTable := by
    unfold Mm.freeFrame
    split <;> exact ⟨rfl, rfl⟩
  refine ⟨hfree.1.trans hm, fun t hne => ?_⟩
  rw [← ht t hne, ← hfree.2]
  exact Function.update_of_ne hne _ _

/-- **What `sys_get_stats` replies** is all that it changes in memory. -/
theorem reply_getStats (pid : Int) (st : Word) :
    (reply k (.getStats pid st) = none ∧ (k.sysGetStats pid st).2 = k) ∨
      ∃ t, reply k (.getStats pid st) =
          some (st, sizeofStats, ((reported k t).task t).pStats.byte) ∧
        accessOk accessBounds .verifyWrite st (BitVec.ofNat 32 sizeofStats) = true ∧
        (k.sysGetStats pid st).2 =
          (reported k t).copyToUser ((reported k t).task t).pStats.byte st sizeofStats := by
  cases hacc : accessOk accessBounds .verifyWrite st (BitVec.ofNat 32 sizeofStats) with
  | false =>
    have heq : k.sysGetStats pid st = (-EFAULT, k) := by
      rw [Kernel.sysGetStats, hacc]
      rfl
    rw [reply, heq]
    exact Or.inl ⟨rfl, rfl⟩
  | true =>
    by_cases hpid : pid < 0
    · have heq : k.sysGetStats pid st = (-EINVAL, k) := by
        rw [Kernel.sysGetStats, hacc, if_neg (by simp), if_pos hpid]
      rw [reply, heq]
      exact Or.inl ⟨rfl, rfl⟩
    · cases hfind : (List.finRange nrTasks).find? fun i => (k.task i).PID = pid with
      | none =>
        have heq : k.sysGetStats pid st = (-ESRCH, k) := by
          rw [Kernel.sysGetStats, hacc, if_neg (by simp), if_neg hpid, hfind]
        rw [reply, heq]
        exact Or.inl ⟨rfl, rfl⟩
      | some t =>
        have heq : k.sysGetStats pid st = (0, (reported k t).copyToUser
            ((reported k t).task t).pStats.byte st sizeofStats) := by
          rw [Kernel.sysGetStats, hacc, if_neg (by simp), if_neg hpid, hfind]
          rfl
        refine Or.inr ⟨t, ?_, rfl, by rw [heq]⟩
        rw [reply, heq, hfind]
        rfl

/-- **What `sys_pollEvent` replies** is all that it changes in memory. -/
theorem reply_pollEvent (kb : Word) :
    (reply k (.pollEvent kb) = none ∧ (k.sysPollEvent kb).2 = k) ∨
      reply k (.pollEvent kb) = some (kb, 128, k.keyboard.keyboardBuffer) ∧
        accessOk accessBounds .verifyWrite kb (BitVec.ofNat 32 128) = true ∧
        (k.sysPollEvent kb).2 = k.copyToUser k.keyboard.keyboardBuffer kb 128 := by
  have hsize : (128 : Word) = BitVec.ofNat 32 128 := rfl
  cases hacc : accessOk accessBounds .verifyWrite kb (BitVec.ofNat 32 128) with
  | false =>
    have heq : k.sysPollEvent kb = (-EFAULT, k) := by
      rw [Kernel.sysPollEvent, hsize, hacc]
      rfl
    rw [reply, heq]
    exact Or.inl ⟨rfl, rfl⟩
  | true =>
    have heq : k.sysPollEvent kb = (0, k.copyToUser k.keyboard.keyboardBuffer kb 128) := by
      rw [Kernel.sysPollEvent, hsize, hacc]
      rfl
    refine Or.inr ⟨?_, rfl, by rw [heq]⟩
    rw [reply, heq]
    rfl

/-- **The operations without a reply**, `fork` apart, write to no frame and change no page table
of a process that stays. -/
theorem exec_silent {op : Op} (hr : Refines k a) (hf : Frames k a) (hop : op.isFork = false)
    (hrep : reply (k.enter .systemCallHandler) op = none) :
    (exec img k op).mm.mmu.mem = k.mm.mmu.mem ∧
      ∀ t, InUse (a.move (opMove img k op)) t →
        (exec img k op).mm.pagusrTable t = k.mm.pagusrTable t := by
  have hrin : Refines (k.enter .systemCallHandler) a := refines_quiet (quiet_enter _) hr
  have hrot : ∀ {k : Kernel} (c : SwitchCtx), Refines k a →
      ((k.updateProcessStateRr k.current (some .readyqueue)).schedNextRr img c).mm.mmu.mem =
          k.mm.mmu.mem ∧
        ((k.updateProcessStateRr k.current (some .readyqueue)).schedNextRr img c).mm.pagusrTable =
          k.mm.pagusrTable := by
    intro k c hr
    rw [(rotate_spec img c hr).mm]
    exact ⟨rfl, rfl⟩
  cases op with
  | clock c =>
    have hqt : Quiet k (ticked img k) := quiet_ticked
    have hrt : Refines (ticked img k).updateSchedDataRr a :=
      refines_quantum _ (refines_quiet hqt hr)
    have hmm : (ticked img k).updateSchedDataRr.mm = k.mm := hqt.mm
    rw [exec, clockHandler_eq, quiet_leave.mm, Kernel.schedule]
    rcases needsSchedRr_cases (ticked img k).updateSchedDataRr with ⟨heq, -, -⟩ | ⟨r, heq⟩
    · rw [heq]
      obtain ⟨h1, h2⟩ := hrot c hrt
      rw [hmm] at h1 h2
      exact ⟨h1, fun t _ => congrFun h2 t⟩
    · rw [heq, ← hmm]
      exact ⟨rfl, fun _ _ => rfl⟩
  | keyboard port =>
    rw [exec, (quiet_keyboardHandler port).mm]
    exact ⟨rfl, fun _ _ => rfl⟩
  | fork c => simp [Op.isFork] at hop
  | exit c =>
    have hrun := (running_notMem hr.wf).1
    have hpt : (k.enter .systemCallHandler).getPT (k.enter .systemCallHandler).current =
        a.running := by
      rw [hrin.current]
      exact getPT_eq (frames_quiet (quiet_enter _) hf) hrun
    rw [exec, quiet_leave.mm, sysExit_eq, (schedNextRr_spec img c (queued_exited hrin)).mm,
      exited_mm, hpt]
    obtain ⟨hmmu, htab⟩ := exitFree_other a.running k.mm
    refine ⟨show (Kernel.exitFree a.running k.mm).mmu.mem = _ by rw [hmmu], fun t ht => htab t ?_⟩
    -- the process that exits is no longer in use
    rintro rfl
    refine (inUse_next.mp ht).1 ?_
    simp
  | yield c =>
    rw [exec, quiet_leave.mm, Kernel.sysYield, Kernel.forceTaskSwitch]
    obtain ⟨h1, h2⟩ := hrot c hrin
    exact ⟨h1, fun t _ => congrFun h2 t⟩
  | getStats pid st =>
    rw [exec, quiet_leave.mm]
    rcases reply_getStats (k := k.enter .systemCallHandler) pid st with ⟨-, heq⟩ | ⟨x, hx, -, -⟩
    · rw [heq]
      exact ⟨rfl, fun _ _ => rfl⟩
    · exact absurd (hrep.symm.trans hx) (by simp)
  | pollEvent kb =>
    rw [exec, quiet_leave.mm]
    rcases reply_pollEvent (k := k.enter .systemCallHandler) kb with ⟨-, heq⟩ | ⟨hx, -, -⟩
    · rw [heq]
      exact ⟨rfl, fun _ _ => rfl⟩
    · exact absurd (hrep.symm.trans hx) (by simp)
  | touch page => exact ⟨Mmu.touch_mem, fun _ _ => rfl⟩

/-- **A system call that replies** copies its block to the memory of the caller. -/
theorem exec_reply {op : Op} {dest : Word} {n : Nat} {src : Nat → Byte}
    (hrep : reply (k.enter .systemCallHandler) op = some (dest, n, src)) :
    ∃ k', Quiet k k' ∧ n ≤ pageBytes ∧
      accessOk accessBounds .verifyWrite dest (BitVec.ofNat 32 n) = true ∧
      (exec img k op).mm = (k'.copyToUser src dest n).mm ∧
      opMove img k op = .stay := by
  cases op with
  | getStats pid st =>
    rcases reply_getStats (k := k.enter .systemCallHandler) pid st with ⟨hx, -⟩ | ⟨x, hx, hacc, heq⟩
    · exact absurd (hrep.symm.trans hx) (by simp)
    · rw [hrep, Option.some.injEq, Prod.mk.injEq, Prod.mk.injEq] at hx
      obtain ⟨rfl, rfl, rfl⟩ := hx
      refine ⟨reported (k.enter .systemCallHandler) x, (quiet_enter _).trans (quiet_reported x),
        by decide, hacc, ?_, rfl⟩
      rw [exec, quiet_leave.mm, heq]
  | pollEvent kb =>
    rcases reply_pollEvent (k := k.enter .systemCallHandler) kb with ⟨hx, -⟩ | ⟨hx, hacc, heq⟩
    · exact absurd (hrep.symm.trans hx) (by simp)
    · rw [hrep, Option.some.injEq, Prod.mk.injEq, Prod.mk.injEq] at hx
      obtain ⟨rfl, rfl, rfl⟩ := hx
      refine ⟨k.enter .systemCallHandler, quiet_enter _, by decide, hacc, ?_, rfl⟩
      rw [exec, quiet_leave.mm, heq]
  | _ => exact absurd hrep (by simp [reply])

/-- Delivering a block makes no code writable. -/
theorem deliver_codeWritable {dest : Word} {n : Nat} {src : Nat → Byte} :
    (w.deliver t dest n src).codeWritable = w.codeWritable := by
  refine forLoop_induction (I := fun _ (v : World) => v.codeWritable = w.codeWritable) rfl ?_
  intro i v _ hv
  rw [World.put]
  split <;> exact hv

/-- Nor does a store. -/
theorem store_codeWritable : (w.store t addr v).2.codeWritable = w.codeWritable := by
  rw [World.store]
  split
  · rw [World.put]
    split <;> rfl
  · rfl

theorem Granted.of_eq (h : Granted mm a w) (htab : mm'.pagusrTable = mm.pagusrTable) {w' : World}
    (hw : w'.codeWritable = w.codeWritable) : Granted mm' a w' where
  data := fun t ht i hi => by
    rw [dataEntry, htab]
    exact h.data t ht i hi
  code := fun t ht i hi => by
    rw [codeEntry, htab, hw]
    exact h.code t ht i hi

/-! ### A fork -/

/-- **The child of a fork** has the frames that the loops of `sys_fork` have filled. -/
theorem Keeps.fork {child : Task} {s' : Mmu} {fs : List Nat} {T : Table}
    (h : Keeps mm a s w) (ho : Owned mm (InUse a)) (hU : InUse a t) (hw : Wf a)
    {ts : List Task} (hf : a.free = child :: ts) (hlen : fs.length = numPagData) (hnd : fs.Nodup)
    (hfree : ∀ f ∈ fs, Slot f ∧ mm.physMem f = .freeFrame)
    (hcopy : WindowCopied T userLayout.pagLogInitData (userLayout.pagLogInitData + numPagData)
      numPagData (fun i => (dataEntry mm t i).base) (fun i => fs.getD i 0) s numPagData s') :
    Keeps (forkTabled mm t child fs) a.spawn s' (w.fork t child) := by
  have hchild : ¬InUse a child := fun hc => hc.1 (by simp [hf])
  have hget : ∀ i < numPagData, fs.getD i 0 ∈ fs := by
    intro i hi
    rw [List.getD_eq_getElem _ _ (by omega)]
    exact List.getElem_mem _
  have hself : ∀ i < numPagData,
      frameOf (forkTabled mm t child fs) (some child) i = fs.getD i 0 := by
    intro i hi
    have hd : childTable mm t child fs (userLayout.pagLogInitData + i) =
        ssEntry (fs.getD i 0 : Nat) := childTable_data hlen hi
    rw [frameOf, dataEntry, forkTabled]
    simp only [setTable_self]
    rw [hd, ssEntry_base (hfree _ (hget i hi)).1.2.1]
  have hused : ∀ p i, Has a p i → mm.physMem (frameOf mm p i) = .usedFrame := by
    rintro (_ | x) i hp
    · exact ho.codeUsed i hp
    · exact ho.used x hp.1 i hp.2
  have hnew : ∀ i < numPagData, ∀ p j, Has a p j → fs.getD i 0 ≠ frameOf mm p j := by
    intro i hi p j hp heq
    have hu := hused p j hp
    rw [← heq, (hfree _ (hget i hi)).2] at hu
    exact absurd hu (by simp)
  refine Represents.copy h (fun i hi => hchild hi.1) ?_ ?_ ?_ ?_ ?_ ?_
  · rintro (_ | x) i hp
    · exact Or.inl hp
    · rcases (inUse_spawn hw hf).mp hp.1 with hx | rfl
      · exact Or.inl ⟨hx, hp.2⟩
      · exact Or.inr ⟨rfl, hU, hp.2⟩
  · rintro (_ | x) i hne -
    · rfl
    · have hx : x ≠ child := fun he => hne (congrArg some he)
      rw [frameOf, dataEntry, forkTabled]
      simp only [setTable_of_ne hx]
      rfl
  · intro i j hi hj heq
    have h1 : i < numPagData := hi.2
    have h2 : j < numPagData := hj.2
    rw [hself i h1, hself j h2, List.getD_eq_getElem _ _ (by omega),
      List.getD_eq_getElem _ _ (by omega)] at heq
    exact (List.Nodup.getElem_inj_iff hnd).mp heq
  · intro i hi p j hp
    rw [hself i hi.2]
    exact hnew i hi.2 p j hp
  · intro p i hp o _
    rw [hcopy.outside _ fun j hj heq => hnew j hj p i hp heq.symm]
  · intro i hi o ho'
    rw [hself i hi.2]
    exact hcopy.copied i hi.2 o ho'

/-- **The page table of the child of a fork** grants everything. -/
theorem Granted.fork {child : Task} {fs : List Nat} (h : Granted mm a w) (hw : Wf a)
    {ts : List Task} (hf : a.free = child :: ts) (hlen : fs.length = numPagData) :
    Granted (forkTabled mm t child fs) a.spawn (w.fork t child) := by
  have htab : ∀ x, x ≠ child → (forkTabled mm t child fs).pagusrTable x = mm.pagusrTable x :=
    fun x hx => setTable_of_ne hx
  have hself : (forkTabled mm t child fs).pagusrTable child = childTable mm t child fs :=
    setTable_self
  constructor
  · intro x hx i hi
    by_cases hxc : x = child
    · subst hxc
      have hd : childTable mm t x fs (userLayout.pagLogInitData + i) =
          ssEntry (fs.getD i 0 : Nat) := childTable_data hlen hi
      rw [dataEntry, hself, hd]
      exact ⟨rfl, rfl⟩
    · rw [dataEntry, htab x hxc]
      exact h.data x (((inUse_spawn hw hf).mp hx).resolve_right hxc) i hi
  · intro x hx i hi
    by_cases hxc : x = child
    · subst hxc
      have hc : childTable mm t x fs (userLayout.pagLogInitCode + i) =
          ssEntry (codeEntry mm t i).base := childTable_code hi
      have hw' : (w.fork t x).codeWritable x = true := Function.update_self _ _ _
      rw [codeEntry, hself, hc, hw']
      exact ⟨rfl, rfl⟩
    · have hw' : (w.fork t child).codeWritable x = w.codeWritable x := Function.update_of_ne hxc _ _
      rw [codeEntry, htab x hxc, hw']
      exact h.code x (((inUse_spawn hw hf).mp hx).resolve_right hxc) i hi

/-! ### All steps -/

theorem holds_fork {c : ForkCtx} (hr : Refines k a) (hf : Frames k a) (hne : a.running ≠ a.idle)
    (h : Holds k.mm a w) : Holds (exec img k (.fork c)).mm a.spawn
      (World.step img w (k, .kernel (.fork c))) := by
  have hrin : Refines (k.enter .systemCallHandler) a := refines_quiet (quiet_enter _) hr
  have hfin : Frames (k.enter .systemCallHandler) a := frames_quiet (quiet_enter _) hf
  have hsucc := @forkSucceeds_iff k a img c hr hf
  have hstep : World.step img w (k, .kernel (.fork c)) =
      if forkSucceeds img (k, .fork c) then
        w.fork k.current (Kernel.listHeadToTaskStruct (listFirst k.links .freequeue))
      else w := rfl
  rw [exec, quiet_leave.mm, hstep]
  cases hfree : a.free with
  | nil =>
    have hspawn : a.spawn = a := by simp [Sched.spawn, hfree]
    rw [if_neg (by rw [hsucc, hfree]; simp), hspawn,
      sysFork_of_empty c ((listEmpty_freequeue hrin).mpr hfree)]
    exact h
  | cons child ts =>
    have hring := hr.free
    rw [hfree, List.map_cons] at hring
    have ht : child ∈ a.free := by simp [hfree]
    obtain ⟨s, hs, hcopy⟩ := forkCopy_spec hrin hfin hne ht (length_forkFrames hfin)
      nodup_forkFrames fun f => mem_forkFrames
    have hmm := forkMapped_mm img c hrin hfin ht
    rw [hs] at hmm
    rw [if_pos (by rw [hsucc, hfree]; simp), sysFork_eq_ok c hrin hfin hfree, listFirst_eq hring,
      hr.current]
    simp only [forkFinish_mm, hmm]
    have hk : Keeps (forkTabled k.mm a.running child (forkFrames k.mm)) a.spawn s
        (w.fork a.running child) :=
      h.keeps.fork hf.owned ⟨(running_notMem hr.wf).1, hne⟩ hr.wf hfree (length_forkFrames hf)
        nodup_forkFrames (fun f => mem_forkFrames) hcopy
    have hg : Granted (forkTabled k.mm a.running child (forkFrames k.mm)) a.spawn
        (w.fork a.running child) := h.granted.fork hr.wf hfree (length_forkFrames hf)
    refine ⟨hk, hg.of_eq ?_ ?_⟩ <;> rfl

/-- **The kernel does to memory what the world has it do.** -/
theorem holds_exec {op : Op} (hr : Refines k a) (hf : Frames k a) (he : Enabled k op)
    (h : Holds k.mm a w) : Holds (exec img k op).mm (a.move (opMove img k op))
      (World.step img w (k, .kernel op)) := by
  cases hop : op.isFork with
  | true =>
    cases op with
    | fork c =>
      have hne : a.running ≠ a.idle := by
        rw [← hr.current, ← hr.idleTask]
        exact he
      have hm : a.move (opMove img k (.fork c)) = a.spawn := forkMove_eq hf
      rw [hm]
      exact holds_fork hr hf hne h
    | _ => simp [Op.isFork] at hop
  | false =>
    have hstep : World.step img w (k, .kernel op) =
        match reply (k.enter .systemCallHandler) op with
        | some (dest, size, src) => w.deliver k.current dest size src
        | none => w := by
      cases op <;> first | rfl | simp [Op.isFork] at hop
    rw [hstep]
    cases hrep : reply (k.enter .systemCallHandler) op with
    | none =>
      obtain ⟨hmem, htab⟩ := @exec_silent _ _ img op hr hf hop hrep
      exact h.congr (fun t ht => (inUse_of_not_fork hop).1 t ht) hmem htab
    | some x =>
      obtain ⟨dest, n, src⟩ := x
      obtain ⟨k', hq, hn, hacc, hmm, hmove⟩ := @exec_reply _ img op dest n src hrep
      obtain ⟨h1, h2⟩ := (accessOk_iff hn).mp hacc
      have hne : a.running ≠ a.idle := by
        rw [← hr.current, ← hr.idleTask]
        cases op <;> first | exact he | simp [reply] at hrep
      have hk : Keeps (k'.copyToUser src dest n).mm a (k'.copyToUser src dest n).mm.mmu
          (w.deliver a.running dest n src) := by
        refine Keeps.copyToUser (frames_quiet hq hf) ⟨(running_notMem hr.wf).1, hne⟩ ?_ h1 h2
        rw [hq.mm]
        exact h.keeps
      rw [hmm, hmove, hr.current]
      have htab : (k'.copyToUser src dest n).mm.pagusrTable = k.mm.pagusrTable := by
        rw [← hq.mm]
        rfl
      exact ⟨hk, h.granted.of_eq htab deliver_codeWritable⟩

/-- The frames after boot. -/
theorem holds_boot : Holds (k.boot img).mm bootSched (bootWorld (k.boot img)) where
  keeps := ⟨fun p q i j hp hq heq => frameOf_inj frames_boot.owned p q i j hp hq heq,
    fun _ _ _ _ _ => rfl⟩
  granted := by
    have hone : ∀ t, InUse bootSched t → t = 1 := by decide
    have htab : (k.boot img).mm.pagusrTable =
        ((bootMm img k).setUserPages userLayout 1).pagusrTable := by
      rw [boot_mm]
      rfl
    constructor
    · intro t ht i hi
      obtain rfl := hone t ht
      have hd := (@setUserPages_entry img k i).2 hi
      rw [dataEntry] at hd
      rw [dataEntry, htab, hd]
      exact ⟨rfl, rfl⟩
    · intro t ht i hi
      obtain rfl := hone t ht
      have hc := (@setUserPages_entry img k i).1 hi
      rw [codeEntry] at hc
      rw [codeEntry, htab, hc]
      exact ⟨rfl, rfl⟩

/-- A step has the outcome it has in the world. -/
def AsInWorld (w : World) (x : Kernel × UserOp) : Prop :=
  match x.2 with
  | .kernel _ => True
  | .load addr r => r = w.load x.1.current addr.toNat
  | .store addr b ok => ok = (w.store x.1.current addr.toNat b).1

/-- **What holds in every run**: queues, frames and the world agree. -/
def Matches (k : Kernel) (w : World) : Prop := ∃ a, Refines k a ∧ Frames k a ∧ Holds k.mm a w

/-- **Every step agrees with the world** and keeps it in agreement. -/
theorem Matches.step {x : UserOp} (h : Matches k w) (hs : UserStep img k x k') :
    AsInWorld w (k, x) ∧ Matches k' (World.step img w (k, x)) := by
  obtain ⟨a, hr, hf, hw⟩ := h
  have hU : k.current ≠ k.idleTask → InUse a a.running := fun hne => by
    rw [hr.current, hr.idleTask] at hne
    exact ⟨(running_notMem hr.wf).1, hne⟩
  cases x with
  | kernel op =>
    obtain ⟨he, rfl⟩ := hs
    exact ⟨trivial, _, refines_exec hr he, frames_exec hr hf he, holds_exec hr hf he hw⟩
  | load addr r =>
    obtain ⟨⟨hne, hu⟩, heq⟩ := hs
    obtain ⟨hval, hmmu⟩ := userLoad_eq hf (hU hne) hw.granted hw.keeps hu
    rw [heq] at hval hmmu
    obtain rfl : (k.userLoad addr).2 = k' := congrArg Prod.snd heq
    refine ⟨?_, a, refines_mm _ hr, frames_mmu hf ?_, hw.congr (fun _ => id) ?_ fun _ _ => rfl⟩
    · rw [AsInWorld, hr.current]
      exact hval
    · rw [activeTable_eq hf]
      exact hf.fresh.userLoad
    · rw [hmmu, Mmu.touch_mem]
  | store addr b ok =>
    obtain ⟨⟨hne, hu⟩, heq⟩ := hs
    obtain ⟨hval, hkeep⟩ := userStore_eq (v := b) hf (hU hne) hw.granted hw.keeps hu
    rw [heq] at hval
    obtain rfl : (k.userStore addr b).2 = k' := congrArg Prod.snd heq
    refine ⟨?_, a, refines_mm _ hr, frames_mmu hf ?_, ?_⟩
    · rw [AsInWorld, hr.current]
      exact hval
    · rw [activeTable_eq hf]
      exact hf.fresh.userStore
    · have hstep : World.step img w (k, .store addr b ok) =
          (w.store k.current addr.toNat b).2 := rfl
      rw [hstep, hr.current]
      refine ⟨hkeep, hw.granted.of_eq ?_ store_codeWritable⟩
      rfl

variable {h : List (Kernel × UserOp)} {k₀ : Kernel}

/-- A run keeps kernel and world in agreement. -/
theorem matches_run (hp : Transition.Path (UserStep img) (k₀.boot img) h k) :
    Matches k (world img (k₀.boot img) h) := by
  refine hp.invariant (P := fun h k => Matches k (world img (k₀.boot img) h))
    ⟨bootSched, refines_boot, frames_boot, holds_boot⟩ ?_
  intro h k x k' _ hm hs
  rw [world, List.foldl_append]
  exact (hm.step hs).2

/-- What the data frames of a live process hold. -/
theorem Matches.data (hm : Matches k w) (ht : Live k t) {i o : Nat} (hi : i < numPagData)
    (ho : o < pageBytes) : k.mm.mmu.mem (frameOfData k t i) o = w.own (some t) i o := by
  obtain ⟨a, hr, hf, hw⟩ := hm
  have hU := (live_iff hr).mp ht
  rw [← hw.keeps.eq (some t) i ⟨hU, hi⟩ o ho, frameOfData, getPT_eq hf hU.1]
  rfl

/-- **Every process has a memory of its own**: along every run of the kernel and of programs
that keep to their user pages, every load and every store has the outcome it has in the world
that the history before it determines, and the data frames of every live process hold what
is its own there. -/
theorem private_memory (hp : Transition.Path (UserStep img) (k₀.boot img) h k) :
    Transition.Along (fun h x => AsInWorld (world img (k₀.boot img) h) x) h ∧
      ∀ t, Live k t → ∀ i < numPagData, ∀ o < pageBytes,
        k.mm.mmu.mem (frameOfData k t i) o =
          (world img (k₀.boot img) h).own (some t) i o := by
  refine ⟨?_, fun t ht i hi o ho => (matches_run hp).data ht hi ho⟩
  induction hp with
  | nil => exact Transition.along_nil
  | snoc hp hs ih => exact Transition.along_snoc.mpr ⟨ih, ((matches_run hp).step hs).1⟩

/-- A fork of the first process, and a store right after it. -/
theorem path_fork_store :
    let k := exec sampleImage (powerOn.boot sampleImage) (.fork sampleFork)
    Transition.Path (UserStep sampleImage) (powerOn.boot sampleImage)
        [(powerOn.boot sampleImage, UserOp.kernel (.fork sampleFork))] k ∧
      UserStep sampleImage k (.store 0x108000 7 (k.userStore 0x108000 7).1)
        (k.userStore 0x108000 7).2 := by
  intro k
  refine ⟨Transition.Path.nil.snoc (l := UserOp.kernel (.fork sampleFork)) step_fork, ⟨?_, ?_⟩, rfl⟩
  · rw [refines_fork.current, refines_fork.idleTask]
    decide
  · unfold UserAddr
    decide

/-- The memories of parent and child after a fork and a store. -/
theorem private_memory_fork :
    let k := exec sampleImage (powerOn.boot sampleImage) (.fork sampleFork)
    let k' := (k.userStore 0x108000 7).2
    let h := [(powerOn.boot sampleImage, UserOp.kernel (.fork sampleFork)),
      (k, .store 0x108000 7 (k.userStore 0x108000 7).1)]
    Transition.Along (fun h x => AsInWorld (world sampleImage (powerOn.boot sampleImage) h) x) h ∧
      ∀ t, Live k' t → ∀ i < numPagData, ∀ o < pageBytes,
        k'.mm.mmu.mem (frameOfData k' t i) o =
          (world sampleImage (powerOn.boot sampleImage) h).own (some t) i o :=
  private_memory (path_fork_store.1.snoc path_fork_store.2)

/-! ### Isolation -/

/-- What a process writes is not another one's. -/
theorem World.put_other {u : Task} (hne : u ≠ t) :
    (w.put t addr v).own (some u) = w.own (some u) := by
  rw [World.put]
  split
  · next p i hx =>
    refine Contents.write_of_ne ?_
    rintro rfl
    -- the page is the writer's or shared
    unfold userPage at hx
    split at hx
    · simp at hx
    · split at hx
      · exact hne (Option.some.inj (Prod.mk.inj (Option.some.inj hx)).1).symm
      · simp at hx
  · rfl

/-- **A step does nothing to the data of a process that does not run.** -/
theorem step_other {x : UserOp} (hr : Refines k a) (hf : Frames k a) (ht : InUse a t)
    (hne : t ≠ k.current) : (World.step img w (k, x)).own (some t) = w.own (some t) := by
  cases x with
  | load addr r => rfl
  | store addr b ok =>
    change ((w.store k.current addr.toNat b).2).own (some t) = _
    rw [World.store]
    split
    · exact World.put_other hne
    · rfl
  | kernel op =>
    have hreply : (match reply (k.enter .systemCallHandler) op with
        | some (dest, size, src) => w.deliver k.current dest size src
        | none => w).own (some t) = w.own (some t) := by
      split
      · refine forLoop_induction (I := fun _ (v : World) => v.own (some t) = w.own (some t)) rfl ?_
        intro o v _ hv
        rw [World.put_other hne, hv]
      · rfl
    cases op with
    | fork c =>
      change (if forkSucceeds img (k, .fork c) then
        w.fork k.current (Kernel.listHeadToTaskStruct (listFirst k.links .freequeue))
        else w).own (some t) = _
      split
      · next hsucc =>
        obtain ⟨child, ts, hfree⟩ :=
          List.exists_cons_of_ne_nil ((forkSucceeds_iff c hr hf).mp hsucc)
        have hring := hr.free
        rw [hfree, List.map_cons] at hring
        rw [listFirst_eq hring]
        refine Contents.copy_of_ne fun he => ht.1 ?_
        rw [Option.some.inj he, hfree]
        exact List.mem_cons_self
      · rfl
    | _ => exact hreply

end Zeos.Game
