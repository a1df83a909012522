import Zeos.Base.Entry
import Zeos.Common.Library

/-!
# The system calls of the library

`wrappers.S`. The library has three functions that make a system call: `gettime` and `getpid`
do so with `int $0x80`, `write` with `sysenter`. `Zeos.Base.LibFunction.run` is such a
function as a whole, from its first instruction through the handler, the service routine and
back to its last.

The theorem is `Zeos.Base.library_call`: whoever calls one of the functions has its arguments
passed to the service routine of that name, in their order, and gets back what the routine
returns, or `-1` and `errno`; all registers that a function preserves, the segments, and the
memory apart from the frame of the function, are as they were. It puts together what the
wrappers, the two handlers and the table agree upon: the registers of the arguments, the
numbers, and for `sysenter` the two words at which the handler finds the way back.
-/

namespace Zeos.Base

open ByteMem X86

/-! ### What the kernel does -/

/-- The kernel answers the numbers of its table. -/
theorem syscall_eq {hd : Handlers} (code : Code hd) (g : Gate) (esp0 : Word) {n : Nat} {u : Machine}
    (hn : calledIndex (u.reg .eax) = some n) :
    syscall g hd code esp0 u = answer hd code sysCallTable g esp0 n u := by
  rw [syscall, served, enter, hn]
  rfl

/-! ### The wrappers -/

/-- `SAVE_REGISTERS` -/
def saveRegisters : List Instr :=
  [.pushR .ebp, .pushR .edi, .pushR .esi, .pushR .ebx, .pushR .ecx, .pushR .edx]

/-- `RESTORE_REGISTERS` -/
def restoreRegisters : List Instr :=
  [.popR .edx, .popR .ecx, .popR .ebx, .popR .esi, .popR .edi, .popR .ebp]

section Wrappers

variable (hd : Handlers) (code : Code hd) (esp0 : Gate → Word)

/-- `gettime` and `getpid` up to `int $0x80`. -/
def askInt (number : Word) (m : Machine) : Machine :=
  exec (prologue ++ saveRegisters ++ [.movI number .eax]) m

/-- What `gettime` and `getpid` have in common. -/
def intWrapper (number next errno : Word) (m : Machine) : Option Machine :=
  (trap (syscall .int80 hd code (esp0 .int80)) next (askInt number m)).map fun m =>
    exec (restoreRegisters ++ [.movR .ebp .esp, .popR .ebp, .ret]) (checkResult errno m)

/-- `gettime` -/
def gettime (next errno : Word) (m : Machine) : Option Machine :=
  intWrapper hd code esp0 10 next errno m

/-- `getpid` -/
def getpid (next errno : Word) (m : Machine) : Option Machine :=
  intWrapper hd code esp0 20 next errno m

/-- `write` up to `sysenter`, `writeRet` being the address of the instruction after it. -/
def askWrite (writeRet : Word) (m : Machine) : Machine :=
  exec (prologue ++ [.pushR .ebx, .pushR .esi, .pushR .edi, .pushR .ecx, .pushR .edx,
    .load 8 .ebp .edx, .load 12 .ebp .ecx, .load 16 .ebp .ebx, .movI 4 .eax, .movI writeRet .esi,
    .pushR .esi, .pushR .ebp, .movR .esp .ebp]) m

/-- `write`, which restores the registers before it checks the result. -/
def write (writeRet errno : Word) (m : Machine) : Option Machine :=
  (trap (syscall .sysenter hd code (esp0 .sysenter)) writeRet (askWrite writeRet m)).map fun m =>
    step (checkResult errno (exec [.addI 8 .esp, .popR .edx, .popR .ecx, .popR .edi, .popR .esi,
      .popR .ebx, .popR .ebp] m)) .ret

end Wrappers

/-- The functions of the library that make a system call. -/
inductive LibFunction
  | gettime | getpid | write
deriving DecidableEq

namespace LibFunction

/-- The service routine of the same name. -/
def service : LibFunction → Service
  | gettime => .gettime
  | getpid => .getpid
  | write => .write

/-- The number of its arguments. -/
def arity : LibFunction → Nat
  | gettime => 0
  | getpid => 0
  | write => 3

/-- **The function**, from its first instruction to its return. -/
def run (hd : Handlers) (code : Code hd) (esp0 : Gate → Word) (next errno : Word) (m : Machine) :
    LibFunction → Option Machine
  | gettime => Base.gettime hd code esp0 next errno m
  | getpid => Base.getpid hd code esp0 next errno m
  | write => Base.write hd code esp0 next errno m

end LibFunction

/-! ### The way to the kernel -/

section Ask

variable {user : Word → Prop} {cl : Caller user}

/-- The registers that are saved by `gettime` and `getpid`. -/
def wrapperRegs : List AnyReg :=
  [.gen .edx, .gen .ecx, .gen .ebx, .gen .esi, .gen .edi, .gen .ebp]

/-- `gettime` and `getpid` at `int $0x80`. -/
theorem asks_askInt (cl : Caller user) (number : Word) :
    Asks cl (wrapperRegs.map cl.frameValue ++ [cl.reg .ebp]) 0 number
      (askInt number cl.toMachine) := by
  obtain ⟨hp, -, -, hseg⟩ := pushed_prologue_save cl wrapperRegs (by decide) (by decide)
  have heq : askInt number cl.toMachine =
      (exec (prologue ++ save wrapperRegs) cl.toMachine).setReg .eax number := by
    rw [askInt, exec_append]
    rfl
  rw [heq]
  exact ⟨hp.congr (Machine.setReg_reg_of_ne (by decide)) rfl, by simp [wrapperRegs],
    Machine.setReg_reg_self, ⟨_, rfl⟩, hseg⟩

/-- The registers that are saved by `write`. -/
def writeRegs : List AnyReg := [.gen .edx, .gen .ecx, .gen .edi, .gen .esi, .gen .ebx]

/-- The arguments of `write`, its number, and the address after `sysenter`. -/
def loadWrite (writeRet : Word) : List Instr :=
  [.load 8 .ebp .edx, .load 12 .ebp .ecx, .load 16 .ebp .ebx, .movI 4 .eax, .movI writeRet .esi]

theorem exec_loadWrite (writeRet : Word) {m : Machine} {b : Word} (h : m.reg .ebp = b) :
    (exec (loadWrite writeRet) m).reg .edx = load32 m.mem (b + 8) ∧
      (exec (loadWrite writeRet) m).reg .ecx = load32 m.mem (b + 12) ∧
      (exec (loadWrite writeRet) m).reg .ebx = load32 m.mem (b + 16) ∧
      (exec (loadWrite writeRet) m).reg .eax = 4 ∧
      (exec (loadWrite writeRet) m).reg .esi = writeRet ∧
      (exec (loadWrite writeRet) m).reg .ebp = b ∧
      (exec (loadWrite writeRet) m).reg .esp = m.reg .esp := by
  subst h
  simp [loadWrite, step, Machine.setReg]

/-- The fake frame: the address after `sysenter`, and the frame pointer of the wrapper. -/
def fakeFrame : List Instr := [.pushR .esi, .pushR .ebp, .movR .esp .ebp]

theorem exec_fakeFrame (m : Machine) : exec fakeFrame m =
    ([m.reg .esi, m.reg .ebp].foldl Machine.push m).setReg .ebp (m.reg .esp - 4 - 4) := by
  simp [fakeFrame, step, Machine.push_reg_of_ne]

/-- `write` at `sysenter`: the fake frame is on top of the stack, and `EBP` points to it. -/
theorem asks_askWrite (cl : Caller user) (writeRet : Word) :
    Asks cl ([cl.reg .esp - 4, writeRet] ++ (writeRegs.map cl.frameValue ++ [cl.reg .ebp])) 3 4
        (askWrite writeRet cl.toMachine) ∧
      (askWrite writeRet cl.toMachine).reg .ebp = cl.reg .esp - 32 := by
  obtain ⟨hp, hebp, -, hseg⟩ := pushed_prologue_save cl writeRegs (by decide) (by decide)
  have hask : askWrite writeRet cl.toMachine =
      exec fakeFrame
        (exec (loadWrite writeRet) (exec (prologue ++ save writeRegs) cl.toMachine)) := by
    rw [← exec_append, ← exec_append]
    rfl
  rw [hask, exec_fakeFrame]
  set m := exec (prologue ++ save writeRegs) cl.toMachine
  have hlen : (writeRegs.map cl.frameValue ++ [cl.reg .ebp]).length ≤ 8 := by simp [writeRegs]
  have hesp : m.reg .esp = cl.reg .esp - 24 := hp.esp
  obtain ⟨h1, h2, h3, h4, h5, h6, h7⟩ := exec_loadWrite writeRet hebp
  have hp₁ : Pushed cl.mem (cl.reg .esp) _ (exec (loadWrite writeRet) m) := hp.congr h7 rfl
  set m₁ := exec (loadWrite writeRet) m
  have hargs : ∀ i < 3, m₁.reg ([Reg.edx, .ecx, .ebx].getD i .eax) =
      load32 cl.mem (cl.reg .esp + 4 + BitVec.ofNat 32 (4 * i)) := fun i hi => by
    refine Eq.trans ?_ (Caller.load_arg hp hlen (Nat.lt_of_lt_of_le hi (by decide)))
    have hcases : i = 0 ∨ i = 1 ∨ i = 2 := by omega
    rcases hcases with rfl | rfl | rfl
    · exact h1
    · exact h2
    · exact h3
  have hp₂ := hp₁.foldl_push [m₁.reg .esi, m₁.reg .ebp] (by simp [writeRegs])
  rw [h5, h6] at hp₂
  have h32 : m₁.reg .esp - 4 - 4 = cl.reg .esp - 32 := by
    rw [h7, hesp]
    bv_omega
  rw [h5, h6, h32]
  have hreg : ∀ r, r ≠ .ebp → r ≠ .esp → (([writeRet, cl.reg .esp - 4].foldl Machine.push
      m₁).setReg .ebp (cl.reg .esp - 32)).reg r = m₁.reg r := fun r g1 g2 =>
    (Machine.setReg_reg_of_ne g1).trans (foldl_push_reg g2 _ _)
  refine ⟨⟨hp₂.congr (Machine.setReg_reg_of_ne (by decide)) rfl, by simp [writeRegs],
    (hreg .eax (by decide) (by decide)).trans h4, ?_, hseg⟩, Machine.setReg_reg_self⟩
  -- the arguments are above the frame, where the caller has put them
  refine exists_arguments (Nat.le_refl 3) fun i hi => ?_
  obtain ⟨-, g1, g2⟩ := argReg_ne hi
  exact (hreg _ g1 g2).trans (hargs i hi)

end Ask

/-! ### The way back -/

section Library

variable {hd : Handlers} {code : Code hd} {esp0 : Gate → Word} {user : Word → Prop} {n : Nat}
  {s : Service}

/-- The end of a wrapper with `int $0x80`: the saved registers are on top of the stack. -/
theorem returned_intWrapper {cl : Caller user} {r : Word} {m : Machine} (hb : Back cl true r m)
    (hesp : m.reg .esp = cl.reg .esp - 28)
    (hw : Words m.mem (cl.reg .esp - 28) (wrapperRegs.map cl.frameValue ++ [cl.reg .ebp])) :
    Returned cl true r (exec (restoreRegisters ++ [.movR .ebp .esp, .popR .ebp, .ret]) m) := by
  have hr : Restored wrapperRegs cl.frameValue m (exec restoreRegisters m) :=
    exec_restore (by decide) (by rw [hesp]; exact hw)
  rw [exec_append, exec_cons]
  set m₁ := exec restoreRegisters m
  have hebp : m₁.reg .ebp = cl.reg .esp - 4 := hr.value (.gen .ebp) (by decide)
  have hlink : load32 m.mem (cl.reg .esp - 28 + BitVec.ofNat 32 (4 * 6)) = cl.reg .ebp :=
    (words_append.mp hw).2.1
  have h4 : cl.reg .esp - 28 + BitVec.ofNat 32 (4 * 6) = cl.reg .esp - 4 := by bv_omega
  have hne : ∀ r, r ≠ .esp → (step m₁ (.movR .ebp .esp)).reg r = m₁.reg r :=
    fun r h => Machine.setReg_reg_of_ne h
  have heax : m₁.reg .eax = m.reg .eax := hr.value (.gen .eax) (by decide)
  have hseg : m₁.seg = m.seg := funext fun t => hr.value (.sel t) (by simp)
  refine (hb.congr ((hne _ (by decide)).trans heax) hseg hr.mem).leave
    (Machine.setReg_reg_self.trans hebp) ?_ fun r hmem => ?_
  · rw [← h4, ← hlink]
    exact congrArg (load32 · _) hr.mem
  · simp only [List.mem_cons, List.not_mem_nil, or_false] at hmem
    rcases hmem with rfl | rfl | rfl
    · exact (hne _ (by decide)).trans (hr.value (.gen .ebx) (by decide))
    · exact (hne _ (by decide)).trans (hr.value (.gen .esi) (by decide))
    · exact (hne _ (by decide)).trans (hr.value (.gen .edi) (by decide))

/-- **A wrapper with `int $0x80`.** -/
theorem intWrapper_spec (h : KeepsProgram hd code esp0 user) (cl : Caller user) {number : Word}
    (next : Word) (hn : calledIndex number = some n) (hs : sysCallTable[n]? = some s) :
    ∃ e m, intWrapper hd code esp0 number next cl.errno cl.toMachine = some m ∧
      Invoked cl (hd.service s) 0 e ∧
      Returned cl true ((code.run (hd.service s) e).reg .eax) m := by
  have ha := asks_askInt cl number
  set u := askInt number cl.toMachine
  obtain ⟨e, m, hm, hinv, hans⟩ := ha.trap (g := .int80) h next hs
    (fun p hp => syscall_eq code .int80 (esp0 .int80) (by rw [hp, hn])) fun hg => absurd hg (by simp)
  have hp : Pushed cl.mem (cl.reg .esp) _ { u with eip := next } := ha.pushed.congr rfl rfl
  have hb := (Back.answered hans hp ha.seg ha.length).check
  have hw := Caller.words_check ha.length (Caller.words_answered hans hp ha.length)
  obtain ⟨-, -, hreg, -, -⟩ := checkResult_spec cl.errno m
  have hesp : (checkResult cl.errno m).reg .esp = cl.reg .esp - 28 := by
    rw [hreg .esp (by decide), hans.esp]
    exact hp.esp
  refine ⟨e, _, ?_, hinv, returned_intWrapper hb hesp hw⟩
  rw [intWrapper, hm, Option.map_some]

/-- The end of `write`: the fake frame is on top of the stack. -/
theorem returned_write {cl : Caller user} {r writeRet : Word} {m : Machine}
    (hb : Back cl false r m) (hesp : m.reg .esp = cl.reg .esp - 32)
    (hw : Words m.mem (cl.reg .esp - 32)
      ([cl.reg .esp - 4, writeRet] ++ (writeRegs.map cl.frameValue ++ [cl.reg .ebp]))) :
    Returned cl true r (step (checkResult cl.errno (exec [.addI 8 .esp, .popR .edx, .popR .ecx,
      .popR .edi, .popR .esi, .popR .ebx, .popR .ebp] m)) .ret) := by
  -- the two words of the fake frame are skipped
  set m₀ := step m (.addI 8 .esp) with hm₀
  have hesp₀ : m₀.reg .esp = cl.reg .esp - 24 := by
    have h24 : cl.reg .esp - 32 + 8 = cl.reg .esp - 24 := by bv_omega
    rw [hm₀, step, hesp, h24]
    exact Machine.setReg_reg_self
  have hw₀ : Words m₀.mem (m₀.reg .esp)
      ((writeRegs ++ [AnyReg.gen .ebp]).map (AnyReg.value cl.toMachine) ++ []) := by
    have h24 : cl.reg .esp - 24 = cl.reg .esp - 32 + BitVec.ofNat 32 (4 * 2) := by bv_omega
    have hmap : (writeRegs ++ [AnyReg.gen .ebp]).map (AnyReg.value cl.toMachine) ++ [] =
        writeRegs.map cl.frameValue ++ [cl.reg .ebp] := by
      simp [writeRegs, Caller.frameValue, AnyReg.value]
    rw [hesp₀, h24, hmap]
    exact (words_append.mp hw).2
  have hr := exec_restore (by decide) hw₀
  set m₁ := exec (restore (writeRegs ++ [AnyReg.gen .ebp])) m₀ with hm₁
  have hpops : exec [.addI 8 .esp, .popR .edx, .popR .ecx, .popR .edi, .popR .esi, .popR .ebx,
      .popR .ebp] m = m₁ := by
    have hlist : restore (writeRegs ++ [AnyReg.gen .ebp]) =
        [.popR .edx, .popR .ecx, .popR .edi, .popR .esi, .popR .ebx, .popR .ebp] := rfl
    rw [exec_cons, ← hm₀, ← hlist]
  have hesp₁ : m₁.reg .esp = cl.reg .esp := by
    have h24 : cl.reg .esp - 24 + BitVec.ofNat 32 (4 * 6) = cl.reg .esp := by bv_omega
    rw [hr.esp, hesp₀]
    exact h24
  have heax : m₁.reg .eax = m.reg .eax :=
    (hr.value (.gen .eax) (by decide)).trans (Machine.setReg_reg_of_ne (by decide))
  have hseg : m₁.seg = m.seg := funext fun t => hr.value (.sel t) (by simp)
  obtain ⟨-, -, hreg, -, -⟩ := checkResult_spec cl.errno m₁
  have hb₁ : Back cl false r m₁ := hb.congr heax hseg hr.mem
  have hesp₂ : (checkResult cl.errno m₁).reg .esp = cl.reg .esp :=
    (hreg .esp (by decide)).trans hesp₁
  rw [hpops]
  refine hb₁.check.ret hesp₂ fun r hmem => ?_
  simp only [calleeSaved, List.mem_cons, List.not_mem_nil, or_false] at hmem
  rcases hmem with rfl | rfl | rfl | rfl
  · exact (hreg _ (by decide)).trans (hr.value (.gen .ebx) (by decide))
  · exact (hreg _ (by decide)).trans (hr.value (.gen .esi) (by decide))
  · exact (hreg _ (by decide)).trans (hr.value (.gen .edi) (by decide))
  · exact (hreg _ (by decide)).trans (hr.value (.gen .ebp) (by decide))

/-- **From `sysenter` on**, with the fake frame on top of the stack. -/
theorem trap_write (h : KeepsProgram hd code esp0 user) {cl : Caller user} {writeRet : Word}
    {u : Machine} (ha : Asks cl ([cl.reg .esp - 4, writeRet] ++
      (writeRegs.map cl.frameValue ++ [cl.reg .ebp])) 3 4 u) (hebp : u.reg .ebp = cl.reg .esp - 32) :
    ∃ e m, trap (syscall .sysenter hd code (esp0 .sysenter)) writeRet u = some m ∧
      Invoked cl (hd.service .write) 3 e ∧
      Returned cl true ((code.run (hd.service .write) e).reg .eax)
        (step (checkResult cl.errno (exec [.addI 8 .esp, .popR .edx, .popR .ecx, .popR .edi,
          .popR .esi, .popR .ebx, .popR .ebp] m)) .ret) := by
  have hn : calledIndex 4 = some 4 := by decide
  -- the handler looks for the address above the frame pointer
  have hlink : load32 u.mem (u.reg .ebp + 4) = writeRet := by
    have hw := ha.pushed.words.2.1
    rw [ha.pushed.esp] at hw
    rw [hebp]
    exact hw
  have hs : sysCallTable[4]? = some .write := rfl
  obtain ⟨e, m, hm, hinv, hans⟩ := ha.trap (g := .sysenter) h writeRet hs
    (fun p hp => syscall_eq code .sysenter (esp0 .sysenter) (by rw [hp, hn]))
    fun _ => ⟨hebp, by simp [writeRegs], hlink⟩
  have hp : Pushed cl.mem (cl.reg .esp) _ { u with eip := writeRet } := ha.pushed.congr rfl rfl
  have hesp : m.reg .esp = cl.reg .esp - 32 := by
    rw [hans.esp]
    exact hebp
  exact ⟨e, m, hm, hinv, returned_write (Back.answered hans hp ha.seg ha.length) hesp
    (Caller.words_answered hans hp ha.length)⟩

/-- **The wrapper with `sysenter`.** -/
theorem write_spec (h : KeepsProgram hd code esp0 user) (cl : Caller user) (writeRet : Word) :
    ∃ e m, write hd code esp0 writeRet cl.errno cl.toMachine = some m ∧
      Invoked cl (hd.service .write) 3 e ∧
      Returned cl true ((code.run (hd.service .write) e).reg .eax) m := by
  obtain ⟨ha, hebp⟩ := asks_askWrite cl writeRet
  obtain ⟨e, m, hm, hinv, hret⟩ := trap_write h ha hebp
  refine ⟨e, _, ?_, hinv, hret⟩
  rw [write, hm, Option.map_some]

/-- **A call of a function of the library that makes a system call.** The service routine of
its name is called with the arguments, and the caller gets the result, or `-1` and `errno`;
everything else that is its own it finds as it was. -/
theorem library_call (f : LibFunction) (h : KeepsProgram hd code esp0 user) (cl : Caller user)
    (next : Word) : ∃ e m, f.run hd code esp0 next cl.errno cl.toMachine = some m ∧
      Invoked cl (hd.service f.service) f.arity e ∧
      Returned cl true ((code.run (hd.service f.service) e).reg .eax) m := by
  cases f with
  | gettime => exact intWrapper_spec h cl next (n := 10) (by decide) rfl
  | getpid => exact intWrapper_spec h cl next (n := 20) (by decide) rfl
  | write => exact write_spec h cl next

end Library

/-- Possible addresses of the handlers. -/
def wrapperHandlers : Handlers where
  systemCallHandler := 0x11000
  syscallHandlerSysenter := 0x11100
  service := fun s => if s = .write then 0x12000 else 0x13000
  pastTable := 0
  afterCall := fun g => if g = .int80 then 0x11040 else 0x11140
  fin := fun g => if g = .int80 then 0x11050 else 0x11150

/-- Service routines that return the error `EBADF` at once. -/
def failingCode : Code wrapperHandlers where
  run := fun _ m => step (m.setReg .eax (-9)) .ret
  service := fun _ => {
    eip := fun m => by simp [step, Machine.pop, Machine.setReg_reg_of_ne]
    esp := fun m => by simp [step, Machine.pop, Machine.setReg_reg_of_ne]
    mem := fun _ _ _ => rfl }

/-- Here `write` gets an error number, and its caller `-1`. -/
theorem library_call_write : ∃ e m,
    LibFunction.write.run wrapperHandlers failingCode (fun _ => 0x20000) 0x114200
      libraryCaller.errno libraryCaller.toMachine = some m ∧
    Invoked libraryCaller (wrapperHandlers.service .write) 3 e ∧
    Returned libraryCaller true ((failingCode.run (wrapperHandlers.service .write) e).reg .eax) m :=
  library_call .write
    { offStack := fun _ x hx => by
        obtain ⟨h1, h2⟩ := hx
        bv_omega
      kept := fun _ _ _ _ => rfl } libraryCaller 0x114200

end Zeos.Base
