import Zeos.Common.Library

/-!
# Entering and leaving the GAME kernel

`entry.S` and `sys_call_table.S`; the kernels under `EXAM/` have the same `entry.S`. System
calls come through `sysenter` only. The registers are saved in another order than in the other
kernels, so that the first three arguments of a service routine are `EBX`, `ECX` and `EDX`.
The handlers of interrupts account for the time that a process spends in the kernel, by calls
of `user_to_system` and `system_to_user`, around which they save `EAX` once more.

Interrupts are transparent (`Zeos.Game.Entry.accounted_transparent`), and a system call whose
service routine returns is answered (`Zeos.Game.Entry.answered`).
-/

namespace Zeos.Game.Entry

open ByteMem X86

/-! ### The table -/

/-- The service routines. -/
inductive Service
  /-- `sys_ni_syscall` -/
  | niSyscall
  /-- `sys_exit` -/
  | exit
  /-- `sys_fork` -/
  | fork
  /-- `sys_write` -/
  | write
  /-- `sys_pollEvent` -/
  | pollEvent
  /-- `sys_gettime` -/
  | gettime
  /-- `sys_yield` -/
  | yield
  /-- `sys_getpid` -/
  | getpid
  /-- `sys_get_stats` -/
  | getStats
deriving DecidableEq

/-- `sys_call_table` -/
def sysCallTable : List Service :=
  [.niSyscall, .exit, .fork, .niSyscall, .write, .pollEvent, .niSyscall, .niSyscall, .niSyscall,
    .niSyscall, .gettime, .niSyscall, .niSyscall, .yield, .niSyscall, .niSyscall, .niSyscall,
    .niSyscall, .niSyscall, .niSyscall, .getpid, .niSyscall, .niSyscall, .niSyscall, .niSyscall,
    .niSyscall, .niSyscall, .niSyscall, .niSyscall, .niSyscall, .niSyscall, .niSyscall, .niSyscall,
    .niSyscall, .niSyscall, .getStats]

/-- `MAX_SYSCALL` -/
def maxSyscall : Nat := sysCallTable.length

/-- The addresses of the handler, which `sysenter` leads to, and of what it calls. -/
abbrev Handlers := Zeos.Handlers Service

/-! ### The handlers -/

/-- The registers that `SAVE_ALL` and `RESTORE_ALL` are about. -/
def savedRegs : List AnyReg :=
  [.gen .ebx, .gen .ecx, .gen .edx, .gen .esi, .gen .edi, .gen .ebp, .gen .eax, .sel .ds, .sel .es,
    .sel .fs, .sel .gs]

/-- `SAVE_ALL` -/
def saveAll : List Instr :=
  [.pushS .gs, .pushS .fs, .pushS .es, .pushS .ds, .pushR .eax, .pushR .ebp, .pushR .edi,
    .pushR .esi, .pushR .edx, .pushR .ecx, .pushR .ebx, .movI kernelDS .edx, .movS .edx .ds,
    .movS .edx .es]

/-- `RESTORE_ALL` -/
def restoreAll : List Instr :=
  [.popR .ebx, .popR .ecx, .popR .edx, .popR .esi, .popR .edi, .popR .ebp, .popR .eax, .popS .ds,
    .popS .es, .popS .fs, .popS .gs]

section Syscall

variable (hd : Handlers) (code : Word → Machine → Machine) (esp0 : Word) (u : Machine)

/-- `system_call_handler` up to the number of the system call. -/
def head : List Instr := sysenterFrame ++ .pushM 4 .ebp :: saveAll

/-- `system_call_handler` from `sysenter_fin` on. -/
def tail : List Instr :=
  .store .eax 0x18 .esp ::
    (restoreAll ++ [.load 0 .esp .edx, .load 12 .esp .ecx, .sti, .sysexit kernelCS])

/-- The machine when the handler looks at the number. -/
def entered : Machine := X86.exec head (Gate.sysenter.entered hd esp0 u)

/-- **A system call**, from `sysenter` to the instruction that the program goes on with. The
number is compared with zero (`jl`), and with `MAX_SYSCALL` (`jg`). -/
def syscall : Option Machine :=
  let m := entered hd esp0 u
  let n := (m.reg .eax).toInt
  if n < 0 ∨ (maxSyscall : Int) < n then
    some (X86.exec tail (m.setReg .eax (BitVec.ofInt 32 (-ENOSYS))))
  else (callAt code (hd.entry sysCallTable n.toNat) (hd.afterCall .sysenter) m).map (X86.exec tail)

/-- The machine at the first instruction of a service routine. -/
def invoked (s : Service) : Machine :=
  step (entered hd esp0 u) (.call (hd.service s) (hd.afterCall .sysenter))

end Syscall

/-- The addresses of the interrupt handlers and of what they call. -/
structure Isr extends Zeos.Isr where
  /-- The address of `user_to_system`. -/
  userToSystem : Word
  /-- The address after its call. -/
  afterUserToSystem : Irq → Word
  /-- The address of `system_to_user`. -/
  systemToUser : Word
  /-- The address after its call. -/
  afterSystemToUser : Irq → Word

section Interrupts

variable (l : Isr) (code : Word → Machine → Machine) (g : Ring) (esp0 : Word) (u : Machine)

/-- What the handlers do between `SAVE_ALL` and `RESTORE_ALL`. -/
def Isr.acts (i : Irq) : List Act :=
  [.callSaving .eax l.userToSystem (l.afterUserToSystem i), .eoi,
    .call (l.routine i) (l.afterRoutine i),
    .callSaving .eax l.systemToUser (l.afterSystemToUser i)]

/-- What the handlers have in common. -/
def interruptHandler (i : Irq) : Option Machine :=
  ((l.acts i).foldlM (fun m (act : Act) => act.run code m)
      (X86.exec saveAll (g.interrupt kernelDS esp0 kernelCS (l.handler i) u))).map fun m =>
    g.iret (X86.exec restoreAll m)

/-- `clock_handler` -/
def clockHandler : Option Machine := interruptHandler l code g esp0 u .clock

/-- `keyboard_handler` -/
def keyboardHandler : Option Machine := interruptHandler l code g esp0 u .keyboard

/-- The two macros push and pop the same registers, in opposite orders. -/
theorem interruptHandler_eq (i : Irq) : interruptHandler l code g esp0 u i =
    handle code g kernelDS esp0 kernelCS (l.handler i) kernelDS savedRegs (l.acts i) u := rfl

end Interrupts

theorem complete_savedRegs : Complete savedRegs := by
  intro t
  cases t with
  | gen r => cases r <;> simp [savedRegs]
  | sel s => cases s <;> simp [savedRegs]

/-- **Interrupts are transparent**, also with the calls that account for the time. -/
theorem accounted_transparent (l : Isr) (code : Word → Machine → Machine) (keep : Word → Prop)
    (g : Ring) (esp0 : Word) (u : Machine)
    (hroutine : ∀ i, Returns routineWords keep (code (l.routine i)))
    (hin : Returns routineWords keep (code l.userToSystem))
    (hout : Returns routineWords keep (code l.systemToUser))
    (hkeep : OffStack (g.stack esp0 u) keep) :
    (∃ m, clockHandler l code g esp0 u = some m ∧ Resumed keep u m) ∧
      ∃ m, keyboardHandler l code g esp0 u = some m ∧ Resumed keep u m := by
  have hirq : ∀ i, ∃ m, interruptHandler l code g esp0 u i = some m ∧ Resumed keep u m := by
    intro i
    rw [interruptHandler_eq]
    refine handle_interrupt (n := routineWords) complete_savedRegs ?_ ?_ (by decide) (by decide)
      hkeep
    · intro act hact t ht
      simp only [Isr.acts, List.mem_cons, List.not_mem_nil, or_false] at hact
      rcases hact with rfl | rfl | rfl | rfl
      · obtain rfl := Option.some.inj ht
        exact hin
      · exact absurd ht (by simp [Act.target])
      · obtain rfl := Option.some.inj ht
        exact hroutine i
      · obtain rfl := Option.some.inj ht
        exact hout
    · intro act hact
      simp only [Isr.acts, List.mem_cons, List.not_mem_nil, or_false] at hact
      rcases hact with rfl | rfl | rfl | rfl <;> simp
  exact ⟨hirq .clock, hirq .keyboard⟩

/-- Possible addresses of the handlers. -/
def accountingIsr : Isr where
  toIsr := sampleIsr
  userToSystem := 0x16000
  afterUserToSystem := fun i => if i = .clock then 0x11220 else 0x11320
  systemToUser := 0x16100
  afterSystemToUser := fun i => if i = .clock then 0x11240 else 0x11340

/-- The idle process is interrupted in the kernel, on its own stack. -/
theorem accounted_transparent_kernel :
    (∃ m, clockHandler accountingIsr (fun _ => sampleRoutine) .kernel 0x20000 interruptedProgram =
        some m ∧ Resumed (fun x => x = 0x11bf00) interruptedProgram m) ∧
      ∃ m, keyboardHandler accountingIsr (fun _ => sampleRoutine) .kernel 0x20000
        interruptedProgram = some m ∧ Resumed (fun x => x = 0x11bf00) interruptedProgram m :=
  accounted_transparent accountingIsr (fun _ => sampleRoutine) _ .kernel 0x20000
    interruptedProgram (fun _ => returns_sampleRoutine _ _) (returns_sampleRoutine _ _)
    (returns_sampleRoutine _ _) fun x hx => by
      rw [hx]
      decide

/-! ### System calls -/

section Answer

variable {hd : Handlers} {code : Word → Machine → Machine} {esp0 ss : Word} {user : Word → Prop}
  {u m : Machine} {n : Nat} {s : Service}

/-- What is on the stack of the kernel while a service routine runs. -/
def context (hd : Handlers) (esp0 : Word) (u : Machine) : List Word :=
  savedRegs.map (AnyReg.value u) ++ (Gate.sysenter.hwContext hd esp0 u).words

theorem length_context (hd : Handlers) (esp0 : Word) (u : Machine) :
    (context hd esp0 u).length = 16 := by
  simp [context, savedRegs, HwContext.words]

/-- **The way in.** -/
theorem pushed_entered (hd : Handlers) (esp0 : Word) (u : Machine) :
    Pushed u.mem esp0 (context hd esp0 u) (entered hd esp0 u) ∧
      (entered hd esp0 u).reg .eax = u.reg .eax := by
  obtain ⟨hp, hr⟩ := pushed_sysenterFrame hd esp0 u
  set m₁ := X86.exec sysenterFrame (Gate.sysenter.entered hd esp0 u) with hm₁
  have hp₂ := hp.push (load32 m₁.mem (m₁.reg .ebp + 4)) (by simp)
  have hr₂ := hr.push (load32 m₁.mem (m₁.reg .ebp + 4))
  have hebp : m₁.reg .ebp = u.reg .ebp := hr.reg .ebp (by decide)
  set m₂ := m₁.push (load32 m₁.mem (m₁.reg .ebp + 4))
  have heq : entered hd esp0 u =
      X86.exec (loadSegments kernelDS) (X86.exec (save savedRegs) m₂) := by
    have hlist : saveAll = save savedRegs ++ loadSegments kernelDS := rfl
    have hstep : step m₁ (.pushM 4 .ebp) = m₂ := rfl
    rw [entered, head, exec_append, ← hm₁, exec_cons, hlist, exec_append, hstep]
  obtain ⟨hp₃, hu⟩ := pushed_save complete_savedRegs.esp_notMem hp₂ (by simp [savedRegs])
  have hvalue : savedRegs.map (AnyReg.value m₂) = savedRegs.map (AnyReg.value u) := by
    refine List.map_congr_left fun t ht => ?_
    obtain ⟨h1, h2, h3⟩ := (complete_savedRegs t).mp ht
    cases t with
    | gen r => exact hr₂.reg r fun h => h1 (by rw [h])
    | sel s => exact hr₂.seg s (fun h => h2 (by rw [h])) fun h => h3 (by rw [h])
  rw [hvalue, hebp] at hp₃
  rw [heq]
  obtain ⟨hreg, -, hmem⟩ := exec_loadSegments kernelDS (X86.exec (save savedRegs) m₂)
  refine ⟨hp₃.congr (hreg .esp (by decide)) hmem, ?_⟩
  exact ((hreg .eax (by decide)).trans (hu.reg .eax (by decide))).trans
    (hr₂.reg .eax (by decide))

/-- A service routine has its return address on top of the context. -/
theorem pushed_invoked (hd : Handlers) (esp0 : Word) (u : Machine) (s : Service) :
    Pushed u.mem esp0 (hd.afterCall .sysenter :: context hd esp0 u) (invoked hd esp0 u s) :=
  ((pushed_entered hd esp0 u).1.push (hd.afterCall .sysenter) (by
    rw [length_context]
    decide)).congr rfl rfl

/-- What is in the registers when the result has been stored. -/
def resultValue (u : Machine) (r : Word) (t : AnyReg) : Word :=
  if t = .gen .eax then r else t.value u

/-- **The result is stored** where `EAX` has been saved, and the registers come back. -/
theorem restored_result (h : Held user u.mem ss (esp0 - 64) (context hd esp0 u) m) :
    Restored savedRegs (resultValue u (m.reg .eax)) (step m (.store .eax 0x18 .esp))
        (X86.exec restoreAll (step m (.store .eax 0x18 .esp))) ∧
      Words (step m (.store .eax 0x18 .esp)).mem (esp0 - 64 + 44)
        (Gate.sysenter.hwContext hd esp0 u).words := by
  set m₁ := step m (.store .eax 0x18 .esp) with hm₁
  have hesp : m₁.reg .esp = esp0 - 64 := h.esp
  have hmem : m₁.mem = store32 m.mem (esp0 - 64 + BitVec.ofNat 32 (4 * 6)) (m.reg .eax) := by
    rw [hm₁, ← h.esp]
    rfl
  have hset := Words.set (v := m.reg .eax) [u.reg .ebx, u.reg .ecx, u.reg .edx, u.reg .esi,
    u.reg .edi, u.reg .ebp] (show Words m.mem (esp0 - 64) _ from h.words)
    (by simp [HwContext.words])
  have hv : savedRegs.map (resultValue u (m.reg .eax)) = [u.reg .ebx, u.reg .ecx, u.reg .edx,
      u.reg .esi, u.reg .edi, u.reg .ebp, m.reg .eax, u.seg .ds, u.seg .es, u.seg .fs,
      u.seg .gs] := by
    simp [savedRegs, resultValue, AnyReg.value]
  have hw : Words m₁.mem (esp0 - 64) (savedRegs.map (resultValue u (m.reg .eax)) ++
      (Gate.sysenter.hwContext hd esp0 u).words) := by
    rw [hmem, hv]
    exact hset
  have hlist : restoreAll = restore savedRegs := rfl
  rw [hlist]
  refine ⟨exec_restore complete_savedRegs.esp_notMem (hesp ▸ hw), (words_append.mp hw).2⟩

/-- The last four instructions. -/
def sysexitTail : List Instr := [.load 0 .esp .edx, .load 12 .esp .ecx, .sti, .sysexit kernelCS]

theorem exec_sysexitTail (m : Machine) :
    (X86.exec sysexitTail m).eip = load32 m.mem (m.reg .esp) ∧
      (X86.exec sysexitTail m).reg .esp = load32 m.mem (m.reg .esp + 12) ∧
      (∀ r, r ≠ .edx → r ≠ .ecx → r ≠ .esp → (X86.exec sysexitTail m).reg r = m.reg r) ∧
      (X86.exec sysexitTail m).seg .cs = userCS ∧ (X86.exec sysexitTail m).seg .ss = userDS ∧
      (∀ s, s ≠ .cs → s ≠ .ss → (X86.exec sysexitTail m).seg s = m.seg s) ∧
      (X86.exec sysexitTail m).mem = m.mem := by
  refine ⟨?_, ?_, fun r h1 h2 h3 => ?_, ?_, ?_, fun s h1 h2 => ?_, rfl⟩
  · simp [sysexitTail, step, Machine.setReg, Machine.setSeg]
  · simp [sysexitTail, step, Machine.setReg, Machine.setSeg]
  · simp [sysexitTail, step, Machine.setReg, Machine.setSeg, h1, h2, h3]
  · simp [sysexitTail, step, Machine.setReg, Machine.setSeg, kernelCS, userCS]
  · simp [sysexitTail, step, Machine.setReg, Machine.setSeg, kernelCS, userDS]
  · simp [sysexitTail, step, Machine.setReg, Machine.setSeg, h1, h2]

/-- **The way out**: `sysexit` leads to the address at `4(%EBP)`, with the stack at `EBP`. -/
theorem answered_tail (u : UserProgram)
    (h : Held user u.mem ss (esp0 - 64) (context hd esp0 u.toMachine) m)
    (hoff : ∀ x, user x → 68 ≤ (x - (esp0 - 68)).toNat)
    (hlink : ∀ x, (x - (u.reg .ebp + 4)).toNat < 4 → user x) :
    Answered .sysenter user u.toMachine (m.reg .eax) (X86.exec tail m) := by
  obtain ⟨hr, hw⟩ := restored_result h
  have htail : X86.exec tail m =
      X86.exec sysexitTail (X86.exec restoreAll (step m (.store .eax 0x18 .esp))) := by
    rw [tail, exec_cons, exec_append]
    rfl
  rw [htail]
  set m₁ := step m (.store .eax 0x18 .esp) with hm₁
  set m₂ := X86.exec restoreAll m₁
  obtain ⟨heip, hesp, hreg, hcs, hss, hseg, hmem⟩ := exec_sysexitTail m₂
  have hesp₂ : m₂.reg .esp = esp0 - 64 + 44 := by
    rw [hr.esp, hm₁, step, h.esp]
    rfl
  have hvalue : ∀ t, t ≠ .gen .esp → t ≠ .sel .cs → t ≠ .sel .ss →
      t.value m₂ = resultValue u.toMachine (m.reg .eax) t := fun t h1 h2 h3 => by
    rw [hr.value t h1, if_pos ((complete_savedRegs t).mpr ⟨h1, h2, h3⟩)]
  refine ⟨?_, ?_, ?_, fun r hmem => ?_, funext fun t => ?_, fun x hx => ?_⟩
  · rw [heip, hr.mem, hesp₂, hw.1]
    -- the handler has found the address in the memory of the program
    obtain ⟨hp, -⟩ := pushed_sysenterFrame hd esp0 u.toMachine
    refine load32_congr fun x hx => hp.below x ?_
    have := hoff x (hlink x hx)
    simp only [List.length_cons, List.length_nil]
    bv_omega
  · rw [hesp, hr.mem, hesp₂]
    exact Words.load [(Gate.sysenter.hwContext hd esp0 u.toMachine).eip,
      (Gate.sysenter.hwContext hd esp0 u.toMachine).cs,
      (Gate.sysenter.hwContext hd esp0 u.toMachine).eflags] hw
  · exact (hreg .eax (by decide) (by decide) (by decide)).trans
      (hvalue (.gen .eax) (by simp) (by simp) (by simp))
  · have hne : ∀ r ∈ calleeSaved, r ≠ .edx ∧ r ≠ .ecx ∧ r ≠ .esp ∧ r ≠ .eax := by decide
    obtain ⟨h1, h2, h3, h4⟩ := hne r hmem
    refine ((hreg r h1 h2 h3).trans (hvalue (.gen r) (by simp [h3]) (by simp) (by simp))).trans ?_
    simp [resultValue, AnyReg.value, h4]
  · by_cases h1 : t = .cs
    · rw [h1, hcs, u.cs]
    by_cases h2 : t = .ss
    · rw [h2, hss, u.ss]
    · refine ((hseg t h1 h2).trans
        (hvalue (.sel t) (by simp) (by simp [h1]) (by simp [h2]))).trans ?_
      simp [resultValue, AnyReg.value]
  · -- the store is in the context
    have hx₁ := hoff x hx
    have hstore : m₁.mem x = m.mem x := by
      refine store32_of_le ?_
      rw [h.esp]
      bv_omega
    rw [hmem, hr.mem, hstore]
    exact h.kept x hx

/-- **The kernel answers** a system call whose number is in the table, if the service routine
returns. -/
theorem answered (u : UserProgram) (hn : (u.reg .eax).toInt = n) (hs : sysCallTable[n]? = some s)
    (hcode : Returns 16 user (code (hd.service s)))
    (hoff : ∀ x, user x → 68 ≤ (x - (esp0 - 68)).toNat)
    (hlink : ∀ x, (x - (u.reg .ebp + 4)).toNat < 4 → user x) :
    ∃ m, syscall hd code esp0 u.toMachine = some m ∧ Answered .sysenter user u.toMachine
      ((code (hd.service s) (invoked hd esp0 u.toMachine s)).reg .eax) m := by
  obtain ⟨hp, heax⟩ := pushed_entered hd esp0 u.toMachine
  have hlen := length_context hd esp0 u.toMachine
  have hheld : Held user u.mem ((entered hd esp0 u.toMachine).seg .ss) (esp0 - 64)
      (context hd esp0 u.toMachine) (entered hd esp0 u.toMachine) := by
    have hesp : (entered hd esp0 u.toMachine).reg .esp = esp0 - 64 := by
      rw [hp.esp, hlen]
      rfl
    refine ⟨hesp, hesp ▸ hp.words, rfl, fun x hx => hp.below x ?_⟩
    have := hoff x hx
    rw [hlen]
    bv_omega
  obtain ⟨m, hm, hheld'⟩ :=
    hheld.callAt (hd.afterCall .sysenter) hcode (Nat.le_of_eq hlen) (by decide)
    fun x hx => by
      have := hoff x hx
      bv_omega
  have hlt : n < maxSyscall := (List.getElem?_eq_some_iff.mp hs).1
  have hentry : hd.entry sysCallTable n = hd.service s := by
    rw [Handlers.entry, hs]
  refine ⟨X86.exec tail m, ?_, ?_⟩
  · have hno : ¬((n : Int) < 0 ∨ (maxSyscall : Int) < n) := by omega
    simp only [syscall, heax, hn, Int.toNat_natCast, hentry, hm, Option.map_some]
    exact if_neg hno
  · have := answered_tail u hheld' hoff hlink
    rwa [eq_of_callAt code hm] at this ⊢

end Answer

end Zeos.Game.Entry
