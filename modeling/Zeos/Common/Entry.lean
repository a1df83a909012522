import Zeos.Lib.X86
import Zeos.Common.Task

/-!
# Entering and leaving the kernel

`entry.S`. A process makes a system call through one of two gates: `int 0x80`, where
the processor saves on the kernel stack where the program was, and `sysenter`, where
it saves nothing and the handler pushes five words in its place. From there on the
two handlers are alike. They save eleven registers, call the service routine, put
its result where `EAX` has been saved, and restore what they have saved; then the
first one leaves with `iret`, the second with `sysexit`. The kernels that have both
gates have the same text for them, but for the table of service routines and the
comparison that decides which numbers are looked up in it; these are left to the
kernels.

So both gates build the same sixteen words at the top of the kernel stack: the
registers (`Zeos.swContext`) and the five words of the processor
(`Zeos.Gate.hwContext`). `Zeos.pushed_head` is the way in. The way out,
`Zeos.backToUser_tail`, is stated for any stack on which the words of a context lie,
since a child leaves the kernel on a copy of the stack of its parent. Between the two
is the service routine, of which only the calling convention is known
(`Zeos.Routine`): `Zeos.leave_serve` says that the program gets its context back
whatever it does, provided that the table has been read inside its bounds.
-/

namespace Zeos

open ByteMem X86

/-! ### Segments and gates -/

/-- `__KERNEL_CS` -/
def kernelCS : Word := 0x10

/-- `__KERNEL_DS` -/
def kernelDS : Word := 0x18

/-- `__USER_CS` -/
def userCS : Word := 0x23

/-- `__USER_DS` -/
def userDS : Word := 0x2B

/-- The two ways to make a system call. -/
inductive Gate
  /-- `int 0x80` -/
  | int80
  /-- `sysenter` -/
  | sysenter
deriving DecidableEq

/-- The addresses of the handlers and of what they call, the service routines being
those of `S`. -/
structure Handlers (S : Type) where
  /-- The address of `system_call_handler`. -/
  systemCallHandler : Word
  /-- The address of `syscall_handler_sysenter`. -/
  syscallHandlerSysenter : Word
  /-- The addresses of the service routines. -/
  service : S → Word
  /-- The word after `sys_call_table`. -/
  pastTable : Word
  /-- The address of the instruction after the call of the service routine. -/
  afterCall : Gate → Word
  /-- The address of `fin`, or of `sysenter_fin`. -/
  fin : Gate → Word

/-- The word at an index of the table of service routines, or after it. -/
def Handlers.entry {S : Type} (hd : Handlers S) (table : List S) (n : Nat) : Word :=
  match table[n]? with
  | some s => hd.service s
  | none => hd.pastTable

/-! ### The handlers -/

/-- `SAVE_ALL` -/
def saveAll : List Instr :=
  [.pushS .gs, .pushS .fs, .pushS .es, .pushS .ds, .pushR .eax, .pushR .ebp, .pushR .edi,
    .pushR .esi, .pushR .ebx, .pushR .ecx, .pushR .edx, .movI kernelDS .edx, .movS .edx .ds,
    .movS .edx .es]

/-- `RESTORE_ALL` -/
def restoreAll : List Instr :=
  [.popR .edx, .popR .ecx, .popR .ebx, .popR .esi, .popR .edi, .popR .ebp, .popR .eax, .popS .ds,
    .popS .es, .popS .fs, .popS .gs]

/-- The first pushes of `syscall_handler_sysenter`, up to the one of the return
address, which it takes from the stack of the user. -/
def sysenterFrame : List Instr := [.pushI userDS, .pushR .ebp, .pushF, .pushI userCS]

namespace Gate

/-- The handler up to the number of the system call. -/
def head : Gate → List Instr
  | .int80 => saveAll
  | .sysenter => sysenterFrame ++ .pushM 4 .ebp :: saveAll

/-- The handler from `fin` on, where the instruction after the call jumps to. -/
def tail : Gate → List Instr
  | .int80 => .store .eax 0x18 .esp :: (restoreAll ++ [.iret])
  | .sysenter => .store .eax 0x18 .esp ::
      (restoreAll ++ [.load 0 .esp .edx, .load 12 .esp .ecx, .sti, .sysexit kernelCS])

variable {S : Type} (g : Gate) (hd : Handlers S) (esp0 : Word) (u : Machine)

/-- The machine at the first instruction of the handler. -/
def entered : Machine :=
  match g with
  | .int80 => u.interrupt kernelDS esp0 kernelCS hd.systemCallHandler
  | .sysenter => u.sysenter kernelCS esp0 hd.syscallHandlerSysenter

end Gate

/-! ### The context of a process -/

/-- The registers as `SAVE_ALL` leaves them on the stack, with the given value for
`EAX`. -/
def swContext (u : Machine) (eax : Word) : List Word :=
  [u.reg .edx, u.reg .ecx, u.reg .ebx, u.reg .esi, u.reg .edi, u.reg .ebp, eax, u.seg .ds,
    u.seg .es, u.seg .fs, u.seg .gs]

/-- The arguments of a system call, as the service routine finds them. -/
def arguments (u : Machine) : List Word :=
  [u.reg .edx, u.reg .ecx, u.reg .ebx, u.reg .esi, u.reg .edi, u.reg .ebp]

/-- Where the program was. -/
structure HwContext where
  /-- The instruction to return to. -/
  eip : Word
  /-- The code segment. -/
  cs : Word
  /-- The flags. -/
  eflags : Word
  /-- The user stack pointer. -/
  esp : Word
  /-- The stack segment. -/
  ss : Word

/-- The five words on the stack. -/
def HwContext.words (hw : HwContext) : List Word := [hw.eip, hw.cs, hw.eflags, hw.esp, hw.ss]

variable {S : Type}

/-- What the processor, or the handler in its place, saves. With `sysenter` the
program passes its stack pointer in `EBP`, and above it finds its return address. -/
def Gate.hwContext (g : Gate) (hd : Handlers S) (esp0 : Word) (u : Machine) : HwContext :=
  match g with
  | .int80 => ⟨u.eip, u.seg .cs, u.eflags, u.reg .esp, u.seg .ss⟩
  | .sysenter =>
    let m := exec sysenterFrame (Gate.sysenter.entered hd esp0 u)
    ⟨load32 m.mem (u.reg .ebp + 4), userCS, u.eflags &&& ~~~interruptFlag, u.reg .ebp, userDS⟩

/-- **The sixteen words of a saved context.** -/
def Gate.context (g : Gate) (hd : Handlers S) (esp0 : Word) (u : Machine) (eax : Word) :
    List Word :=
  swContext u eax ++ (g.hwContext hd esp0 u).words

/-- The general registers that the gate gives back to the program. -/
def Gate.userReg (g : Gate) (u : Machine) (hw : HwContext) (eax : Word) : Reg → Word
  | .eax => eax
  | .esp => hw.esp
  | .edx => if g = .sysenter then hw.eip else u.reg .edx
  | .ecx => if g = .sysenter then hw.esp else u.reg .ecx
  | r => u.reg r

/-- The segment registers that the program gets back. -/
def userSeg (u : Machine) (hw : HwContext) : Seg → Word
  | .cs => hw.cs
  | .ss => hw.ss
  | s => u.seg s

/-- **The program is back in user mode**, where the context says, with the given
value in `EAX`. -/
structure BackToUser (g : Gate) (u : Machine) (hw : HwContext) (eax : Word) (m : Machine) :
    Prop where
  /-- The program goes on after its system call. -/
  eip : m.eip = hw.eip
  /-- It has its registers, and the result. -/
  reg : m.reg = g.userReg u hw eax
  /-- It has its segments. -/
  seg : m.seg = userSeg u hw

/-! ### The way in -/

section Enter

variable {S : Type} {g : Gate} {hd : Handlers S} {esp0 : Word} {u m : Machine} {ws : List Word}
  {mem : Mem}

/-- `SAVE_ALL` pushes the registers. -/
theorem pushed_saveAll (h : Pushed mem esp0 ws m) (hlen : 4 * ws.length + 64 < 2 ^ 32) :
    Pushed mem esp0 (swContext m (m.reg .eax) ++ ws) (exec saveAll m) ∧
      (exec saveAll m).reg .eax = m.reg .eax := by
  have heq : exec saveAll m = (((swContext m (m.reg .eax)).reverse.foldl Machine.push m).setReg .edx
      kernelDS |>.setSeg .ds kernelDS |>.setSeg .es kernelDS) := by
    simp [saveAll, step, swContext, Machine.push_reg_of_ne]
  have hp := h.foldl_push (swContext m (m.reg .eax)).reverse (by
    simp only [swContext, List.length_reverse, List.length_cons, List.length_nil]
    omega)
  rw [List.reverse_reverse] at hp
  rw [heq]
  refine ⟨hp.congr ?_ rfl, ?_⟩ <;> simp only [Machine.setSeg_reg]
  · rw [Machine.setReg_reg_of_ne (by decide)]
  · rw [Machine.setReg_reg_of_ne (by decide), foldl_push_reg (by decide)]

/-- A machine whose registers are those of the program, but for the stack pointer and
the two segments that the processor changes. -/
structure SameRegs (u m : Machine) : Prop where
  /-- The general registers. -/
  reg : ∀ r, r ≠ .esp → m.reg r = u.reg r
  /-- The segment registers. -/
  seg : ∀ s, s ≠ .cs → s ≠ .ss → m.seg s = u.seg s

theorem SameRegs.swContext_eq (h : SameRegs u m) {eax : Word} :
    swContext m eax = swContext u eax := by
  simp only [swContext, h.reg _ (by decide : Reg.edx ≠ .esp), h.reg _ (by decide : Reg.ecx ≠ .esp),
    h.reg _ (by decide : Reg.ebx ≠ .esp), h.reg _ (by decide : Reg.esi ≠ .esp),
    h.reg _ (by decide : Reg.edi ≠ .esp), h.reg _ (by decide : Reg.ebp ≠ .esp),
    h.seg .ds (by decide) (by decide), h.seg .es (by decide) (by decide),
    h.seg .fs (by decide) (by decide), h.seg .gs (by decide) (by decide)]

theorem SameRegs.push (h : SameRegs u m) (w : Word) : SameRegs u (m.push w) :=
  ⟨fun r hr => (Machine.push_reg_of_ne hr).trans (h.reg r hr), h.seg⟩

theorem SameRegs.foldl_push (h : SameRegs u m) (vs : List Word) :
    SameRegs u (vs.foldl Machine.push m) := by
  induction vs generalizing m with
  | nil => exact h
  | cons v vs ih => exact ih (h.push v)

/-- The processor has changed to the stack of the kernel. -/
theorem sameRegs_kernel {w₁ w₂ : Word} : SameRegs u (((u.setSeg .ss w₁).setSeg .cs w₂).setReg .esp
    esp0) := by
  refine ⟨fun r hr => by rw [Machine.setReg_reg_of_ne hr]; rfl, fun s h1 h2 => ?_⟩
  simp [Machine.setSeg, h1, h2]

/-- The words that `syscall_handler_sysenter` pushes before it reads the return
address. -/
theorem pushed_sysenterFrame (hd : Handlers S) (esp0 : Word) (u : Machine) :
    Pushed u.mem esp0 [userCS, u.eflags &&& ~~~interruptFlag, u.reg .ebp, userDS]
        (exec sysenterFrame (Gate.sysenter.entered hd esp0 u)) ∧
      SameRegs u (exec sysenterFrame (Gate.sysenter.entered hd esp0 u)) := by
  set m₀ := Gate.sysenter.entered hd esp0 u with hm₀
  have h0 : Pushed u.mem esp0 [] m₀ :=
    Pushed.nil (by simp [hm₀, Gate.entered, Machine.sysenter]) rfl
  have hr0 : SameRegs u m₀ := by
    refine ⟨fun r hr => Machine.setReg_reg_of_ne hr, fun s h1 h2 => ?_⟩
    simp [hm₀, Gate.entered, Machine.sysenter, Machine.setSeg, h1, h2]
  set ws := [userDS, u.reg .ebp, u.eflags &&& ~~~interruptFlag, userCS] with hws
  have hframe : exec sysenterFrame m₀ = ws.foldl Machine.push m₀ := by
    have hebp := hr0.reg .ebp (by decide)
    have hfl : m₀.eflags = u.eflags &&& ~~~interruptFlag := rfl
    simp [sysenterFrame, step, hws, ← hebp, ← hfl, Machine.push_reg_of_ne]
  rw [hframe]
  exact ⟨h0.foldl_push ws (by simp [hws]), hr0.foldl_push ws⟩

/-- **Both gates save the same five words**, before `SAVE_ALL`. -/
theorem pushed_frame (g : Gate) (hd : Handlers S) (esp0 : Word) (u : Machine) :
    ∃ m, exec g.head (g.entered hd esp0 u) = exec saveAll m ∧
      Pushed u.mem esp0 (g.hwContext hd esp0 u).words m ∧ SameRegs u m := by
  cases g with
  | int80 =>
    refine ⟨Gate.int80.entered hd esp0 u, rfl, ?_, ?_⟩
    · have h0 : Pushed u.mem esp0 [] (((u.setSeg .ss kernelDS).setSeg .cs kernelCS).setReg .esp
          esp0) := Pushed.nil Machine.setReg_reg_self rfl
      exact (h0.foldl_push [u.seg .ss, u.reg .esp, u.eflags, u.seg .cs, u.eip] (by simp)).congr
        rfl rfl
    · have h0 : SameRegs u (((u.setSeg .ss kernelDS).setSeg .cs kernelCS).setReg .esp esp0) :=
        sameRegs_kernel
      have h1 := h0.foldl_push [u.seg .ss, u.reg .esp, u.eflags, u.seg .cs, u.eip]
      exact ⟨h1.reg, h1.seg⟩
  | sysenter =>
    obtain ⟨hp, hr⟩ := pushed_sysenterFrame hd esp0 u
    set m₁ := exec sysenterFrame (Gate.sysenter.entered hd esp0 u) with hm₁
    refine ⟨step m₁ (.pushM 4 .ebp), ?_, ?_, hr.push _⟩
    · rw [Gate.head, exec_append, exec_cons]
    · have h2 := hp.push (load32 m₁.mem (u.reg .ebp + 4)) (by simp)
      have hebp := hr.reg .ebp (by decide)
      rw [step, hebp]
      exact h2

/-- **The way in.** When the handler looks at the number of the system call, the
context is on the stack of the kernel. -/
theorem pushed_head (g : Gate) (hd : Handlers S) (esp0 : Word) (u : Machine) :
    Pushed u.mem esp0 (g.context hd esp0 u (u.reg .eax)) (exec g.head (g.entered hd esp0 u)) ∧
      (exec g.head (g.entered hd esp0 u)).reg .eax = u.reg .eax := by
  obtain ⟨m, hm, hp, hr⟩ := pushed_frame g hd esp0 u
  obtain ⟨h1, h2⟩ := pushed_saveAll hp (by simp [HwContext.words])
  have heax := hr.reg .eax (by decide)
  rw [heax, hr.swContext_eq] at h1
  rw [heax] at h2
  rw [hm]
  exact ⟨h1, h2⟩

end Enter

/-! ### The way out -/

section Leave

variable {g : Gate} {u m : Machine} {hw : HwContext} {v w : Word} {ws : List Word}

/-- `RESTORE_ALL` takes the registers off the stack. -/
theorem exec_restoreAll (h : Words m.mem (m.reg .esp) (swContext u v ++ ws)) :
    exec restoreAll m = { m with
      reg := fun r => if r = .esp then m.reg .esp + 44 else if r = .eax then v else u.reg r
      seg := fun s => if s = .cs ∨ s = .ss then m.seg s else u.seg s } := by
  obtain ⟨h1, h2, h3, h4, h5, h6, h7, h8, h9, h10, h11, -⟩ := h
  have hesp : m.reg .esp + 4 + 4 + 4 + 4 + 4 + 4 + 4 + 4 + 4 + 4 + 4 = m.reg .esp + 44 := by
    bv_omega
  simp only [restoreAll, exec_cons, exec_nil, step, Machine.pop, Machine.setReg, Machine.setSeg]
  simp only [Function.update_self, ne_eq, reduceCtorEq, not_false_eq_true, Function.update_of_ne,
    h1, h2, h3, h4, h5, h6, h7, h8, h9, h10, h11, hesp, Machine.mk.injEq, and_true]
  refine ⟨funext fun r => ?_, funext fun s => ?_⟩
  · cases r <;> simp
  · cases s <;> simp

/-- The first instruction from `fin` on puts the result into the context. -/
theorem words_store_eax (h : Words m.mem (m.reg .esp) (swContext u w ++ hw.words)) :
    Words (step m (.store .eax 0x18 .esp)).mem (m.reg .esp)
      (swContext u (m.reg .eax) ++ hw.words) := by
  have := Words.set (v := m.reg .eax) [u.reg .edx, u.reg .ecx, u.reg .ebx, u.reg .esi,
    u.reg .edi, u.reg .ebp] h (by simp [HwContext.words])
  exact this

/-- **The way out.** From `fin` on, with the words of a context at the stack pointer,
both handlers lead back to where the context says, with the result of the service in
`EAX`. -/
theorem backToUser_tail (h : Words m.mem (m.reg .esp) (swContext u w ++ hw.words))
    (hg : g = .sysenter → hw.cs = userCS ∧ hw.ss = userDS) :
    BackToUser g u hw (m.reg .eax) (exec g.tail m) := by
  set m₁ := step m (.store .eax 0x18 .esp) with hm₁
  have h1 : Words m₁.mem (m₁.reg .esp) (swContext u (m.reg .eax) ++ hw.words) :=
    words_store_eax h
  have h2 : Words m₁.mem (m.reg .esp + 44) hw.words := (words_append.mp h1).2
  have hesp : m₁.reg .esp = m.reg .esp := rfl
  have e0 : load32 m₁.mem (m.reg .esp + 44#32) = hw.eip := h2.1
  have e4 : load32 m₁.mem (m.reg .esp + 44#32 + 4#32) = hw.cs := h2.2.1
  have e12 : load32 m₁.mem (m.reg .esp + 44#32 + 12#32) = hw.esp :=
    Words.load [hw.eip, hw.cs, hw.eflags] h2
  have e16 : load32 m₁.mem (m.reg .esp + 44#32 + 16#32) = hw.ss :=
    Words.load [hw.eip, hw.cs, hw.eflags, hw.esp] h2
  cases g with
  | int80 =>
    rw [Gate.tail, exec_cons, ← hm₁, exec_append, exec_restoreAll h1]
    simp only [exec_cons, exec_nil, step, Machine.setReg, Machine.setSeg]
    refine ⟨?_, funext fun r => ?_, funext fun s => ?_⟩
    · simp [hesp, e0]
    · cases r <;> simp [Gate.userReg, hesp, e12]
    · cases s <;> simp [userSeg, hesp, e4, e16]
  | sysenter =>
    obtain ⟨hcs, hss⟩ := hg rfl
    rw [Gate.tail, exec_cons, ← hm₁, exec_append, exec_restoreAll h1]
    simp only [exec_cons, exec_nil, step, Machine.setReg, Machine.setSeg]
    refine ⟨?_, funext fun r => ?_, funext fun s => ?_⟩
    · simp [hesp, e0]
    · cases r <;> simp [Gate.userReg, hesp, e0, e12]
    · cases s <;> simp [userSeg, hcs, hss, kernelCS, userCS, userDS]

/-- `iret` gives the program its flags back as well. -/
theorem exec_tail_eflags (h : Words m.mem (m.reg .esp) (swContext u w ++ hw.words)) :
    (exec Gate.int80.tail m).eflags = hw.eflags := by
  set m₁ := step m (.store .eax 0x18 .esp) with hm₁
  have h1 : Words m₁.mem (m₁.reg .esp) (swContext u (m.reg .eax) ++ hw.words) :=
    words_store_eax h
  have h2 : Words m₁.mem (m.reg .esp + 44) hw.words := (words_append.mp h1).2
  have e8 : load32 m₁.mem (m.reg .esp + 44#32 + 8#32) = hw.eflags :=
    Words.load [hw.eip, hw.cs] h2
  have hesp : m₁.reg .esp = m.reg .esp := rfl
  rw [Gate.tail, exec_cons, ← hm₁, exec_append, exec_restoreAll h1]
  simp only [exec_cons, exec_nil, step, Machine.setReg, Machine.setSeg]
  simp [hesp, e8]

/-- On the way out the handlers write one word: the result, into the context. -/
theorem exec_tail_mem :
    (exec g.tail m).mem = store32 m.mem (m.reg .esp + 0x18) (m.reg .eax) := by
  cases g <;> rfl

/-- Until they leave, the handlers move the stack pointer up through the context. -/
theorem exec_tail_esp {n : Nat} (hn : n < g.tail.length) : ∃ j ≤ 11,
    (exec (g.tail.take n) m).reg .esp = m.reg .esp + BitVec.ofNat 32 (4 * j) := by
  have hall : ∀ g : Gate, ∀ n < g.tail.length, (∀ i ∈ g.tail.take n, i.unwinds.isSome) ∧
      ((g.tail.take n).map fun i => i.unwinds.getD 0).sum ≤ 11 := by
    intro g
    cases g <;> decide
  obtain ⟨h1, h2⟩ := hall g n hn
  exact ⟨_, h2, exec_unwinds h1⟩

end Leave

/-! ### Between the two -/

/-- The calling convention, as far as the handlers rely on it: the routine returns to
the address on top of the stack, which it takes off, and it leaves the sixteen words
above as they are. These are its arguments, and the rest of the context. -/
structure Routine (f : Machine → Machine) : Prop where
  /-- It returns to its caller. -/
  eip : ∀ m, (f m).eip = load32 m.mem (m.reg .esp)
  /-- It takes its return address off the stack. -/
  esp : ∀ m, (f m).reg .esp = m.reg .esp + 4
  /-- It leaves its arguments alone, and what is above them. -/
  mem : ∀ m x, (x - (m.reg .esp + 4)).toNat < 64 → (f m).mem x = m.mem x

/-- A routine that returns at once. -/
theorem routine_ret : Routine fun m => step m .ret where
  eip := fun _ => rfl
  esp := fun m => by simp [step, Machine.pop]
  mem := fun _ _ _ => rfl

/-- The code of the kernel: what there is to run at an address. The service routines
follow the calling convention. -/
structure Code {S : Type} (hd : Handlers S) where
  /-- What the code at an address does, from its first instruction to its return. -/
  run : Word → Machine → Machine
  /-- The service routines return to their caller. -/
  service : ∀ s, Routine (run (hd.service s))

/-- The handler with the index at which it is to read the table, if the comparison
has let one through: it calls the entry, or has an error to give back. -/
def Handlers.call {S : Type} (hd : Handlers S) (table : List S) (g : Gate) (i : Option Nat)
    (m : Machine) : Machine :=
  match i with
  | none => { m.setReg .eax (BitVec.ofInt 32 (-ENOSYS)) with eip := hd.fin g }
  | some n => step m (.call (hd.entry table n) (hd.afterCall g))

/-- What has been called is run. -/
def Code.serve {S : Type} {hd : Handlers S} (code : Code hd) (i : Option Nat) (m : Machine) :
    Machine :=
  match i with
  | none => m
  | some _ => code.run m.eip m

/-- What the handler does with the machine it gets back, or with the one it has kept:
the instruction after the call jumps to `fin`, and so leads the other branch. Nothing
is known of a routine that returns to some other place. -/
def Gate.leave {S : Type} (g : Gate) (hd : Handlers S) (m : Machine) : Option Machine :=
  if m.eip = hd.afterCall g ∨ m.eip = hd.fin g then some (exec g.tail m) else none

/-- A program in user mode. The descriptors for code and for data are the only ones
that it can have in `CS` and in `SS`. -/
structure UserProgram extends Machine where
  /-- The code segment. -/
  cs : seg .cs = userCS
  /-- The stack segment. -/
  ss : seg .ss = userDS

section Routine

variable {S : Type} {g : Gate} {hd : Handlers S} {table : List S} {esp0 v : Word} {u m : Machine}

theorem Gate.hwContext_sysenter (h : g = .sysenter) :
    (g.hwContext hd esp0 u).cs = userCS ∧ (g.hwContext hd esp0 u).ss = userDS := by
  subst h
  exact ⟨rfl, rfl⟩

/-- The number is refused: the error is in `EAX`. -/
theorem call_none (h : Pushed u.mem esp0 (g.context hd esp0 u v) m) :
    Pushed u.mem esp0 (g.context hd esp0 u v) (hd.call table g none m) ∧
      (hd.call table g none m).eip = hd.fin g ∧
      (hd.call table g none m).reg .eax = BitVec.ofInt 32 (-ENOSYS) :=
  ⟨h.congr (by simp [Handlers.call, Machine.setReg]) rfl, rfl,
    by simp [Handlers.call, Machine.setReg]⟩

/-- The number is looked up: the return address is on top of the context. -/
theorem call_some {n : Nat} {s : S} (h : Pushed u.mem esp0 (g.context hd esp0 u v) m)
    (hs : table[n]? = some s) :
    Pushed u.mem esp0 (hd.afterCall g :: g.context hd esp0 u v) (hd.call table g (some n) m) ∧
      (hd.call table g (some n) m).eip = hd.service s := by
  refine ⟨(h.push (hd.afterCall g) ?_).congr rfl rfl, ?_⟩
  · simp [Gate.context, swContext, HwContext.words]
  · simp [Handlers.call, step, Handlers.entry, hs]

/-- The arguments of the service routine lie above its return address. -/
theorem words_arguments (h : Pushed u.mem esp0 (hd.afterCall g :: g.context hd esp0 u v) m) :
    Words m.mem (m.reg .esp + 4) (arguments u) := by
  have hctx : Words m.mem (m.reg .esp + 4) (arguments u ++ (v :: [u.seg .ds, u.seg .es, u.seg .fs,
      u.seg .gs] ++ (g.hwContext hd esp0 u).words)) := h.words.2
  exact (words_append.mp hctx).1

/-- **When the routine returns, the context is where it was**, and so it is when there
has been no call. -/
theorem words_serve (code : Code hd) {i : Option Nat} (hi : ∀ n, i = some n → n < table.length)
    (h : Pushed u.mem esp0 (g.context hd esp0 u v) m) :
    Words (code.serve i (hd.call table g i m)).mem
        ((code.serve i (hd.call table g i m)).reg .esp) (g.context hd esp0 u v) ∧
      ((code.serve i (hd.call table g i m)).eip = hd.afterCall g ∨
        (code.serve i (hd.call table g i m)).eip = hd.fin g) := by
  cases i with
  | none =>
    obtain ⟨hp, heip, -⟩ := @call_none _ _ _ table _ _ _ _ h
    exact ⟨hp.words, .inr heip⟩
  | some n =>
    obtain ⟨s, hs⟩ : ∃ s, table[n]? = some s := ⟨_, List.getElem?_eq_getElem (hi n rfl)⟩
    obtain ⟨hp, heip⟩ := call_some h hs
    obtain ⟨hret, hctx⟩ := hp.words
    have hf := code.service s
    rw [Code.serve, heip]
    refine ⟨?_, .inl ((hf.eip _).trans hret)⟩
    rw [hf.esp]
    exact hctx.congr (by simp [Gate.context, swContext, HwContext.words])
      fun x hx => hf.mem _ x hx

/-- **A system call leads back to the program**, with what is in `EAX` at `fin`. -/
theorem leave_serve (code : Code hd) {i : Option Nat} (hi : ∀ n, i = some n → n < table.length)
    (h : Pushed u.mem esp0 (g.context hd esp0 u v) m) :
    ∃ m', g.leave hd (code.serve i (hd.call table g i m)) = some m' ∧
      BackToUser g u (g.hwContext hd esp0 u)
        ((code.serve i (hd.call table g i m)).reg .eax) m' ∧
      (g = .int80 → m'.eflags = u.eflags) := by
  obtain ⟨hctx, heip⟩ := words_serve code hi h
  refine ⟨_, if_pos heip, backToUser_tail hctx Gate.hwContext_sysenter, ?_⟩
  rintro rfl
  exact exec_tail_eflags hctx

end Routine

/-- Whatever the gate, the program gets back the registers a called function
preserves. -/
theorem BackToUser.reg_preserved {g : Gate} {u m : Machine} {hw : HwContext} {eax : Word}
    (h : BackToUser g u hw eax m) : ∀ r ∈ calleeSaved, m.reg r = u.reg r := by
  intro r hr
  rw [h.reg]
  simp only [calleeSaved, List.mem_cons, List.not_mem_nil, or_false] at hr
  rcases hr with rfl | rfl | rfl | rfl <;> rfl

/-- Whatever the gate, a program in user mode gets back its segments. -/
theorem BackToUser.seg_preserved {S : Type} {g : Gate} {u : UserProgram} {m : Machine}
    {hd : Handlers S} {esp0 eax : Word}
    (h : BackToUser g u.toMachine (g.hwContext hd esp0 u.toMachine) eax m) :
    m.seg = u.seg := by
  rw [h.seg]
  funext s
  cases g <;> cases s <;> simp [userSeg, Gate.hwContext, u.cs, u.ss]

end Zeos
