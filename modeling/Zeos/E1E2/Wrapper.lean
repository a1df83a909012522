import Zeos.Lib.X86

/-!
# The system calls as the program sees them

`wrapper.S`. For every system call the library has two wrappers: `write`, `fork`, …
make it through `int 0x80`, and `write_f`, `fork_f`, … through `sysenter`. Both save
`EBX`, `ECX` and `EDX`, put the arguments there and the number in `EAX`, and turn a
negative result into `-1` and `errno`. Before `sysenter` the program also pushes the
address to return to and a copy of `EBP`, and makes `EBP` point to these, since that is
where the kernel looks for them.

Of the kernel it is known here that it delivers a result in `EAX`, and preserves all
but `ECX` and `EDX` (`Zeos.E1E2.Wrapper.int80`, `Zeos.E1E2.Wrapper.sysenter`).

The wrappers of one system call are interchangeable
(`Zeos.E1E2.Wrapper.Interchangeable`), but for `gettime_f`. It restores the saved
registers a second time, after the stack has been unwound: `EBX` becomes the word above
the return address, whatever that is in the frame of the caller. As `ESP` is then set
from `EBP`, the wrapper still returns to the right place.
-/

namespace Zeos.E1E2.Wrapper

open ByteMem X86

/-! ### The parts of a wrapper -/

/-- `SAVE_REG` -/
def saveReg : List Instr := [.pushR .ebx, .pushR .ecx, .pushR .edx]

/-- `RESTORE_REG` -/
def restoreReg : List Instr := [.popR .edx, .popR .ecx, .popR .ebx]

/-- The first two instructions of every wrapper. -/
def prologue : List Instr := [.pushR .ebp, .movR .esp .ebp]

/-- The last three instructions of every wrapper. -/
def epilogue : List Instr := [.movR .ebp .esp, .popR .ebp, .ret]

/-- The return address and the fake dynamic link. -/
def fakeLink (ret : Word) : List Instr := [.pushI ret, .pushR .ebp, .movR .esp .ebp]

/-- The argument at a displacement from `EBP` goes to a register. -/
def loadArgs (args : List (Word × Reg)) : List Instr := args.map fun a => .load a.1 .ebp a.2

/-- What follows `cmpl $0, %eax` and `jge`: a negative result is an error number. -/
def checkError (errno : Word) (m : Machine) : Machine :=
  if 0 ≤ (m.reg .eax).toInt then m else X86.exec [.neg .eax, .storeA .eax errno, .movI (-1) .eax] m

/-! ### The kernel -/

/-- What the kernel leaves in the two registers that it does not preserve. -/
structure Scratch where
  /-- `ECX` -/
  ecx : Word
  /-- `EDX` -/
  edx : Word

/-- `int $0x80`: the program goes on with the result in `EAX`. -/
def int80 (r : Word) (sc : Scratch) (m : Machine) : Machine :=
  ((m.setReg .eax r).setReg .ecx sc.ecx).setReg .edx sc.edx

/-- `SYSENTER`: the program goes on at the address at `4(%ebp)`, on the stack at
`EBP`. -/
def sysenter (r : Word) (sc : Scratch) (m : Machine) : Machine :=
  { (int80 r sc m).setReg .esp (m.reg .ebp) with eip := load32 m.mem (m.reg .ebp + 4) }

/-! ### The wrappers -/

/-- What the wrappers of a system call differ in. -/
structure Call where
  /-- The number of the system call. -/
  number : Word
  /-- Where the arguments are, and the registers they go to. -/
  args : List (Word × Reg)
  /-- Whether a negative result is treated as an error. -/
  checks : Bool

section Wrappers

variable (c : Call) (errno ret r : Word) (sc : Scratch) (m : Machine)

/-- The check of the result, in the wrappers that have one. -/
def Call.check : Machine := if c.checks then checkError errno m else m

/-- A wrapper up to `int $0x80`. -/
def Call.askSlow : Machine :=
  X86.exec (prologue ++ saveReg ++ loadArgs c.args ++ [.movI c.number .eax]) m

/-- A wrapper with `int $0x80`. -/
def Call.slow : Machine :=
  X86.exec (restoreReg ++ epilogue) (c.check errno (int80 r sc (c.askSlow m)))

/-- A wrapper up to `SYSENTER`. -/
def Call.askFast : Machine :=
  X86.exec (prologue ++ .movI c.number .eax :: saveReg ++ loadArgs c.args ++ fakeLink ret) m

/-- A wrapper from the address after `SYSENTER` to the check. -/
def Call.checkedFast : Machine :=
  c.check errno
    (X86.exec (.popR .ebp :: .addI 4 .esp :: restoreReg) (sysenter r sc (c.askFast ret m)))

/-- A wrapper with `SYSENTER`, the address after that being `ret`. -/
def Call.fast : Option Machine :=
  if (sysenter r sc (c.askFast ret m)).eip = ret then
    some (X86.exec epilogue (c.checkedFast errno ret r sc m))
  else none

end Wrappers

/-! ### The library -/

/-- The system calls with two wrappers. -/
inductive Name
  | write | gettime | fork | exit | block | unblock
deriving DecidableEq

/-- `write` and `write_f` -/
def writeCall : Call := ⟨4, [(8, .edx), (12, .ecx), (16, .ebx)], true⟩

/-- `gettime` and `gettime_f` -/
def gettimeCall : Call := ⟨10, [], true⟩

/-- `fork` and `fork_f` -/
def forkCall : Call := ⟨2, [], true⟩

/-- `exit` and `exit_f` -/
def exitCall : Call := ⟨1, [], false⟩

/-- `block` and `block_f` -/
def blockCall : Call := ⟨12, [], false⟩

/-- `unblock` and `unblock_f` -/
def unblockCall : Call := ⟨13, [(8, .edx)], true⟩

/-- The two wrappers have the same number and the same arguments. -/
def Name.call : Name → Call
  | .write => writeCall
  | .gettime => gettimeCall
  | .fork => forkCall
  | .exit => exitCall
  | .block => blockCall
  | .unblock => unblockCall

section Library

variable (errno ret r : Word) (sc : Scratch) (m : Machine)

/-- `write` -/
def write : Machine := writeCall.slow errno r sc m

/-- `gettime` -/
def gettime : Machine := gettimeCall.slow errno r sc m

/-- `fork` -/
def fork : Machine := forkCall.slow errno r sc m

/-- `exit` -/
def exit : Machine := exitCall.slow errno r sc m

/-- `block` -/
def block : Machine := blockCall.slow errno r sc m

/-- `unblock` -/
def unblock : Machine := unblockCall.slow errno r sc m

/-- `write_f` -/
def writeF : Option Machine := writeCall.fast errno ret r sc m

/-- `gettime_f`, which executes `RESTORE_REG` once more after the check. -/
def gettimeF : Option Machine :=
  if (sysenter r sc (gettimeCall.askFast ret m)).eip = ret then
    some (X86.exec (restoreReg ++ epilogue) (gettimeCall.checkedFast errno ret r sc m))
  else none

/-- `fork_f` -/
def forkF : Option Machine := forkCall.fast errno ret r sc m

/-- `exit_f` -/
def exitF : Option Machine := exitCall.fast errno ret r sc m

/-- `block_f` -/
def blockF : Option Machine := blockCall.fast errno ret r sc m

/-- `unblock_f` -/
def unblockF : Option Machine := unblockCall.fast errno ret r sc m

/-- The wrapper with `int $0x80`. -/
def Name.wrapper : Name → Machine
  | .write => Wrapper.write errno r sc m
  | .gettime => Wrapper.gettime errno r sc m
  | .fork => Wrapper.fork errno r sc m
  | .exit => Wrapper.exit errno r sc m
  | .block => Wrapper.block errno r sc m
  | .unblock => Wrapper.unblock errno r sc m

/-- The wrapper with `SYSENTER`. -/
def Name.wrapperF : Name → Option Machine
  | .write => writeF errno ret r sc m
  | .gettime => gettimeF errno ret r sc m
  | .fork => forkF errno ret r sc m
  | .exit => exitF errno ret r sc m
  | .block => blockF errno ret r sc m
  | .unblock => unblockF errno ret r sc m

end Library

/-! ### What a wrapper has to do -/

/-- A program that has just called a wrapper: the return address is at `ESP`. The
variable `errno` of the library is not on its stack, that is, neither in the six words
below `ESP` nor in the two from there on. -/
structure Caller extends Machine where
  /-- The address of `errno`. -/
  errno : Word
  /-- The variable is not on the stack. -/
  apart : ∀ x, (x - (reg .esp - 24)).toNat < 32 → 4 ≤ (x - errno).toNat

/-- Memory is as the program has left it, but for the frame of the wrapper and
`errno`. -/
def Caller.Unchanged (cl : Caller) (mem : Mem) : Prop :=
  ∀ x, 24 ≤ (x - (cl.reg .esp - 24)).toNat → 4 ≤ (x - cl.errno).toNat → mem x = cl.mem x

/-- **The wrapper has returned**, and has preserved what it has to. -/
structure Returned (cl : Caller) (m : Machine) : Prop where
  /-- It has returned to its caller. -/
  eip : m.eip = load32 cl.mem (cl.reg .esp)
  /-- It has taken its return address off the stack, and nothing else. -/
  esp : m.reg .esp = cl.reg .esp + 4
  /-- `EBX`, `ESI`, `EDI` and `EBP` are as they were. -/
  saved : ∀ r ∈ calleeSaved, m.reg r = cl.reg r
  /-- So is the stack above the return address, and all other memory but `errno`. -/
  stack : cl.Unchanged m.mem

/-- **The two wrappers of a system call are interchangeable**, when the kernel delivers
the result `r` through either gate. -/
structure Interchangeable (n : Name) (cl : Caller) (ret r : Word) (sc₁ sc₂ : Scratch) : Prop where
  /-- The wrapper with `int $0x80` returns. -/
  slow : Returned cl (n.wrapper cl.errno r sc₁ cl.toMachine)
  /-- The wrapper with `SYSENTER` returns, with the same result and `errno`. -/
  fast : ∃ m, n.wrapperF cl.errno ret r sc₂ cl.toMachine = some m ∧ Returned cl m ∧
    m.reg .eax = (n.wrapper cl.errno r sc₁ cl.toMachine).reg .eax ∧
    load32 m.mem cl.errno = load32 (n.wrapper cl.errno r sc₁ cl.toMachine).mem cl.errno

/-! ### The steps of a wrapper -/

section Steps

variable {c : Call} {cl : Caller} {m : Machine} {ret r : Word} {sc : Scratch}

/-- What holds inside a wrapper, once `EBP` points to its frame. -/
structure Framed (cl : Caller) (m : Machine) : Prop where
  /-- The frame pointer. -/
  ebp : m.reg .ebp = cl.reg .esp - 4
  /-- The frame pointer of the caller is in the frame. -/
  link : load32 m.mem (cl.reg .esp - 4) = cl.reg .ebp
  /-- So is the saved `EBX`. -/
  ebx : load32 m.mem (cl.reg .esp - 8) = cl.reg .ebx
  /-- The wrapper does not use `ESI`. -/
  esi : m.reg .esi = cl.reg .esi
  /-- The wrapper does not use `EDI`. -/
  edi : m.reg .edi = cl.reg .edi
  /-- Nothing else has been written. -/
  mem : cl.Unchanged m.mem

/-- The result of a wrapper. -/
def Call.outcome (c : Call) (r : Word) : Word :=
  if c.checks ∧ r.toInt < 0 then -1 else r

/-- The `errno` that a wrapper leaves. -/
def Call.errnoAfter (c : Call) (r errno : Word) : Word :=
  if c.checks ∧ r.toInt < 0 then -r else errno

/-- **The check of the result**: it writes `EAX` and `errno`. -/
theorem check_spec (c : Call) (errno : Word) (m : Machine) :
    (c.check errno m).reg .eax = c.outcome (m.reg .eax) ∧
      load32 (c.check errno m).mem errno =
        c.errnoAfter (m.reg .eax) (load32 m.mem errno) ∧
      (∀ r, r ≠ .eax → (c.check errno m).reg r = m.reg r) ∧
      ∀ x, 4 ≤ (x - errno).toNat → (c.check errno m).mem x = m.mem x := by
  rw [Call.check, Call.outcome, Call.errnoAfter]
  cases c.checks with
  | false => simp
  | true =>
    rw [checkError]
    by_cases h : 0 ≤ (m.reg .eax).toInt
    · have hn : ¬(m.reg .eax).toInt < 0 := by omega
      simp [h, hn]
    · have hn : (m.reg .eax).toInt < 0 := by omega
      simp only [if_true, if_neg h, hn, and_self, exec_cons, exec_nil, step]
      refine ⟨by simp, by simp, fun r hr => ?_, fun x hx => ?_⟩
      · rw [Machine.setReg_reg_of_ne hr]
        exact Machine.setReg_reg_of_ne hr
      · exact store32_of_le hx

/-- The check leaves the frame alone. -/
theorem Framed.check (h : Framed cl m) (c : Call) : Framed cl (c.check cl.errno m) := by
  obtain ⟨-, -, hreg, hmem⟩ := check_spec c cl.errno m
  refine ⟨(hreg _ (by decide)).trans h.ebp, ?_, ?_, (hreg _ (by decide)).trans h.esi,
    (hreg _ (by decide)).trans h.edi, fun x h1 h2 => (hmem x h2).trans (h.mem x h1 h2)⟩
  · rw [← h.link]
    exact load32_congr fun x hx => hmem x (cl.apart x (by bv_omega))
  · rw [← h.ebx]
    exact load32_congr fun x hx => hmem x (cl.apart x (by bv_omega))

/-- `RESTORE_REG` takes three words off the stack. -/
theorem exec_restoreReg :
    X86.exec restoreReg m = { m with
      reg := fun r => if r = .esp then m.reg .esp + 12
        else if r = .edx then load32 m.mem (m.reg .esp)
        else if r = .ecx then load32 m.mem (m.reg .esp + 4)
        else if r = .ebx then load32 m.mem (m.reg .esp + 8) else m.reg r } := by
  have h8 : m.reg .esp + 4 + 4 = m.reg .esp + 8 := by bv_omega
  have h12 : m.reg .esp + 8 + 4 = m.reg .esp + 12 := by bv_omega
  simp only [restoreReg, exec_cons, exec_nil, step, Machine.pop, Machine.setReg]
  simp only [Function.update_self, ne_eq, reduceCtorEq, not_false_eq_true, Function.update_of_ne,
    h8, h12, Machine.mk.injEq, and_true]
  funext r
  cases r <;> simp

/-- `RESTORE_REG` leaves the frame alone. -/
theorem Framed.restoreReg (h : Framed cl m) : Framed cl (X86.exec restoreReg m) := by
  rw [exec_restoreReg]
  exact ⟨h.ebp, h.link, h.ebx, h.esi, h.edi, h.mem⟩

/-- It finds the saved `EBX`, if the saved registers are on top of the stack. -/
theorem Framed.restoreReg_ebx (h : Framed cl m) (hesp : m.reg .esp = cl.reg .esp - 16) :
    (X86.exec Wrapper.restoreReg m).reg .ebx = cl.reg .ebx := by
  have h8 : cl.reg .esp - 16 + 8 = cl.reg .esp - 8 := by bv_omega
  rw [exec_restoreReg]
  change load32 m.mem (m.reg .esp + 8) = cl.reg .ebx
  rw [hesp, h8, h.ebx]

/-- **The way out of a wrapper**: the stack pointer comes from the frame pointer. -/
theorem Framed.epilogue (h : Framed cl m) :
    (Returned cl (X86.exec epilogue m) ↔ m.reg .ebx = cl.reg .ebx) ∧
      (X86.exec epilogue m).reg .eax = m.reg .eax ∧ (X86.exec epilogue m).mem = m.mem := by
  have hret : load32 m.mem (cl.reg .esp) = load32 cl.mem (cl.reg .esp) :=
    load32_congr fun x hx => h.mem x (by bv_omega) (cl.apart x (by bv_omega))
  have hesp : cl.reg .esp - 4 + 4 = cl.reg .esp := BitVec.sub_add_cancel _ _
  have heq : X86.exec Wrapper.epilogue m = { m with
      reg := fun r => if r = .esp then cl.reg .esp + 4
        else if r = .ebp then cl.reg .ebp else m.reg r
      eip := load32 cl.mem (cl.reg .esp) } := by
    simp only [Wrapper.epilogue, exec_cons, exec_nil, step, Machine.pop, Machine.setReg]
    simp only [Function.update_self, ne_eq, reduceCtorEq, not_false_eq_true,
      Function.update_of_ne, h.ebp, h.link, hesp, hret, Machine.mk.injEq, and_true]
    funext r
    cases r <;> simp
  rw [heq]
  refine ⟨⟨fun hr => hr.saved .ebx (by decide), fun hebx => ⟨rfl, rfl, fun r hr => ?_, h.mem⟩⟩,
    rfl, rfl⟩
  simp only [calleeSaved, List.mem_cons, List.not_mem_nil, or_false] at hr
  rcases hr with rfl | rfl | rfl | rfl
  · exact hebx
  · exact h.esi
  · exact h.edi
  · rfl

/-! ### The way to the kernel -/

/-- The wrappers put the arguments where they have saved the registers. -/
def Call.ArgsSaved (c : Call) : Prop := ∀ a ∈ c.args, a.2 ∈ [Reg.edx, .ecx, .ebx]

/-- Loading the arguments writes no other register, and no memory. -/
theorem exec_loadArgs {args : List (Word × Reg)} (h : ∀ a ∈ args, a.2 ∈ [Reg.edx, .ecx, .ebx])
    (m : Machine) : (X86.exec (loadArgs args) m).mem = m.mem ∧
      ∀ r, r ∉ [Reg.edx, .ecx, .ebx] → (X86.exec (loadArgs args) m).reg r = m.reg r := by
  induction args generalizing m with
  | nil => exact ⟨rfl, fun _ _ => rfl⟩
  | cons a args ih =>
    obtain ⟨h1, h2⟩ := ih (fun b hb => h b (List.mem_cons_of_mem a hb))
      (step m (.load a.1 .ebp a.2))
    refine ⟨h1, fun r hr => (h2 r hr).trans (Machine.setReg_reg_of_ne fun heq => hr ?_)⟩
    rw [heq]
    exact h a (List.mem_cons_self ..)

/-- The number can be put in `EAX` before the arguments are loaded, or after. -/
theorem exec_loadArgs_setReg {args : List (Word × Reg)}
    (h : ∀ a ∈ args, a.2 ∈ [Reg.edx, .ecx, .ebx]) (w : Word) (m : Machine) :
    X86.exec (loadArgs args) (m.setReg .eax w) = (X86.exec (loadArgs args) m).setReg .eax w := by
  induction args generalizing m with
  | nil => rfl
  | cons a args ih =>
    have ha : a.2 ≠ .eax := fun heq => by
      have := h a (List.mem_cons_self ..)
      rw [heq] at this
      exact absurd this (by decide)
    have hcomm : step (m.setReg .eax w) (.load a.1 .ebp a.2) =
        (step m (.load a.1 .ebp a.2)).setReg .eax w := by
      simp only [step, Machine.setReg, Function.update_comm ha]
      simp
    rw [loadArgs, List.map_cons, exec_cons, hcomm]
    exact ih (fun b hb => h b (List.mem_cons_of_mem a hb)) _

/-- The registers are saved. -/
theorem pushed_saveReg (cl : Caller) :
    Pushed cl.mem (cl.reg .esp) [cl.reg .edx, cl.reg .ecx, cl.reg .ebx, cl.reg .ebp]
        (X86.exec (prologue ++ saveReg) cl.toMachine) ∧
      (X86.exec (prologue ++ saveReg) cl.toMachine).reg .ebp = cl.reg .esp - 4 ∧
      ∀ r, r ≠ .ebp → r ≠ .esp →
        (X86.exec (prologue ++ saveReg) cl.toMachine).reg r = cl.reg r := by
  have h0 : Pushed cl.mem (cl.reg .esp) [] cl.toMachine := Pushed.nil rfl rfl
  have h1 := h0.foldl_push [cl.reg .ebp, cl.reg .ebx, cl.reg .ecx, cl.reg .edx] (by simp)
  have heq : X86.exec (prologue ++ saveReg) cl.toMachine =
      ([cl.reg .ebp, cl.reg .ebx, cl.reg .ecx, cl.reg .edx].foldl Machine.push
        cl.toMachine).setReg .ebp (cl.reg .esp - 4) := by
    simp [prologue, saveReg, step, Machine.push, Machine.setReg, Function.update_comm]
  rw [heq]
  refine ⟨h1.congr (Machine.setReg_reg_of_ne (by decide)) rfl, Machine.setReg_reg_self,
    fun r h1 h2 => ?_⟩
  rw [Machine.setReg_reg_of_ne h1, foldl_push_reg h2]

theorem askSlow_eq (c : Call) (m : Machine) : c.askSlow m =
    (X86.exec (loadArgs c.args) (X86.exec (prologue ++ saveReg) m)).setReg .eax c.number := by
  rw [Call.askSlow, exec_append, exec_append]
  rfl

/-- **At `int $0x80`** the frame is there, and the saved registers are on top of it. -/
theorem askSlow_spec (cl : Caller) (h : c.ArgsSaved) :
    Pushed cl.mem (cl.reg .esp) [cl.reg .edx, cl.reg .ecx, cl.reg .ebx, cl.reg .ebp]
        (c.askSlow cl.toMachine) ∧ Framed cl (c.askSlow cl.toMachine) := by
  obtain ⟨hp, hebp, hreg⟩ := pushed_saveReg cl
  obtain ⟨hmem, hsame⟩ := exec_loadArgs h (X86.exec (prologue ++ saveReg) cl.toMachine)
  have heq := askSlow_eq c cl.toMachine
  have hreg' : ∀ r, r ≠ .eax → r ∉ [Reg.edx, .ecx, .ebx] → (c.askSlow cl.toMachine).reg r =
      (X86.exec (prologue ++ saveReg) cl.toMachine).reg r := fun r h1 h2 => by
    rw [heq, Machine.setReg_reg_of_ne h1, hsame r h2]
  have hmem' : (c.askSlow cl.toMachine).mem =
      (X86.exec (prologue ++ saveReg) cl.toMachine).mem := by
    rw [heq, Machine.setReg_mem, hmem]
  have hp' := hp.congr (hreg' .esp (by decide) (by decide)) hmem'
  refine ⟨hp', (hreg' .ebp (by decide) (by decide)).trans hebp, ?_, ?_,
    (hreg' .esi (by decide) (by decide)).trans (hreg _ (by decide) (by decide)),
    (hreg' .edi (by decide) (by decide)).trans (hreg _ (by decide) (by decide)), ?_⟩
  · exact (@Pushed.words_right _ _ [cl.reg .edx, cl.reg .ecx, cl.reg .ebx] _ _ hp').1
  · exact (@Pushed.words_right _ _ [cl.reg .edx, cl.reg .ecx] _ _ hp').1
  · intro x hx _
    exact hp'.below x (by simp only [List.length_cons, List.length_nil]; bv_omega)

/-- **The wrapper with `SYSENTER` makes the same system call**, and leaves the address to
return to where the kernel looks for it. -/
theorem askFast_eq (ret : Word) (m : Machine) (h : c.ArgsSaved) :
    c.askFast ret m = X86.exec (fakeLink ret) (c.askSlow m) := by
  have hsave : X86.exec (prologue ++ .movI c.number .eax :: saveReg) m =
      (X86.exec (prologue ++ saveReg) m).setReg .eax c.number := by
    simp [prologue, saveReg, step, Machine.push, Machine.setReg, Function.update_comm]
  -- the number is put in `EAX` before the arguments here
  rw [Call.askFast, askSlow_eq, exec_append, exec_append, hsave, exec_loadArgs_setReg h]

/-! ### The way back -/

/-- The kernel leaves the frame alone. -/
theorem Framed.int80 (h : Framed cl m) : Framed cl (int80 r sc m) where
  ebp := by simpa [Wrapper.int80, Machine.setReg] using h.ebp
  link := h.link
  ebx := h.ebx
  esi := by simpa [Wrapper.int80, Machine.setReg] using h.esi
  edi := by simpa [Wrapper.int80, Machine.setReg] using h.edi
  mem := h.mem

/-- The frame does not reach `errno`. -/
theorem Caller.load_errno (cl : Caller) {mem : Mem} (h : OnlyBelow (cl.reg .esp) 24 cl.mem mem) :
    load32 mem cl.errno = load32 cl.mem cl.errno := by
  refine load32_congr fun x hx => h x ?_
  by_contra hlt
  have := cl.apart x (by bv_omega)
  omega

/-- **The wrapper with `int $0x80`.** -/
theorem slow_spec (cl : Caller) (h : c.ArgsSaved) (r : Word) (sc : Scratch) :
    Returned cl (c.slow cl.errno r sc cl.toMachine) ∧
      (c.slow cl.errno r sc cl.toMachine).reg .eax = c.outcome r ∧
      load32 (c.slow cl.errno r sc cl.toMachine).mem cl.errno =
        c.errnoAfter r (load32 cl.mem cl.errno) := by
  obtain ⟨hp, hf⟩ := askSlow_spec cl h
  set m₁ := int80 r sc (c.askSlow cl.toMachine) with hm₁
  have hf₁ : Framed cl m₁ := hf.int80
  have heax : m₁.reg .eax = r := by simp [hm₁, int80, Machine.setReg]
  obtain ⟨hc1, hc2, hreg, -⟩ := check_spec c cl.errno m₁
  have hesp : (c.check cl.errno m₁).reg .esp = cl.reg .esp - 16 := by
    rw [hreg _ (by decide)]
    simpa [hm₁, int80, Machine.setReg] using hp.esp
  have hf₂ := hf₁.check c
  obtain ⟨h1, h2, h3⟩ := hf₂.restoreReg.epilogue
  rw [Call.slow, exec_append]
  refine ⟨h1.mpr (hf₂.restoreReg_ebx hesp), ?_, ?_⟩
  · rw [h2, exec_restoreReg]
    simp [hc1, heax]
  · rw [h3, exec_restoreReg]
    change load32 (c.check cl.errno m₁).mem cl.errno = _
    rw [hc2, heax]
    exact congrArg _ (cl.load_errno (hp.below.mono (by simp)))

/-- The words on the stack at `SYSENTER`. -/
theorem pushed_fakeLink (cl : Caller) (h : c.ArgsSaved) (ret : Word) :
    Pushed cl.mem (cl.reg .esp) [cl.reg .esp - 4, ret, cl.reg .edx, cl.reg .ecx, cl.reg .ebx,
        cl.reg .ebp] (c.askFast ret cl.toMachine) ∧
      (c.askFast ret cl.toMachine).reg .ebp = cl.reg .esp - 24 ∧
      ∀ r, r ≠ .ebp → r ≠ .esp →
        (c.askFast ret cl.toMachine).reg r = (c.askSlow cl.toMachine).reg r := by
  obtain ⟨hp, hf⟩ := askSlow_spec cl h
  -- the fake link: where to return to, and the frame pointer
  have h2 := hp.foldl_push [ret, cl.reg .esp - 4] (by simp)
  have heq : c.askFast ret cl.toMachine = ([ret, cl.reg .esp - 4].foldl Machine.push
      (c.askSlow cl.toMachine)).setReg .ebp (cl.reg .esp - 24) := by
    have hesp : (c.askSlow cl.toMachine).reg .esp = cl.reg .esp - 16 := hp.esp
    have h24 : cl.reg .esp - 16 - 4 - 4 = cl.reg .esp - 24 := by bv_omega
    rw [askFast_eq ret cl.toMachine h]
    simp only [fakeLink, exec_cons, exec_nil, step, List.foldl_cons, List.foldl_nil,
      Machine.push_esp, hesp, h24, Machine.push_reg_of_ne (by decide : Reg.ebp ≠ .esp), hf.ebp]
  rw [heq]
  refine ⟨h2.congr (Machine.setReg_reg_of_ne (by decide)) rfl, Machine.setReg_reg_self,
    fun r h1 h2 => ?_⟩
  rw [Machine.setReg_reg_of_ne h1, foldl_push_reg h2]

/-- **After `SYSENTER`** the program is at the address it has left on the stack; the fake
link leads back to the frame. -/
theorem unlink_spec (cl : Caller) (h : c.ArgsSaved) (ret r : Word) (sc : Scratch) :
    (sysenter r sc (c.askFast ret cl.toMachine)).eip = ret ∧
      Framed cl (X86.exec [.popR .ebp, .addI 4 .esp] (sysenter r sc (c.askFast ret cl.toMachine))) ∧
      (X86.exec [.popR .ebp, .addI 4 .esp] (sysenter r sc (c.askFast ret cl.toMachine))).reg .esp =
        cl.reg .esp - 16 ∧
      (X86.exec [.popR .ebp, .addI 4 .esp] (sysenter r sc (c.askFast ret cl.toMachine))).reg .eax =
        r ∧
      (X86.exec [.popR .ebp, .addI 4 .esp] (sysenter r sc (c.askFast ret cl.toMachine))).mem =
        (c.askFast ret cl.toMachine).mem := by
  obtain ⟨hp, hebp, hreg⟩ := pushed_fakeLink cl h ret
  obtain ⟨-, hf⟩ := askSlow_spec cl h
  set m := c.askFast ret cl.toMachine with hm
  have hesp : m.reg .esp = cl.reg .esp - 24 := hp.esp
  -- the kernel comes back with `EBP` in the stack pointer, where the fake link is
  obtain ⟨h0, h4, -⟩ := hp.words
  rw [hesp, ← hebp] at h0 h4
  have h16 : cl.reg .esp - 24 + 4 + 4 = cl.reg .esp - 16 := by bv_omega
  refine ⟨h4, ⟨?_, ?_, ?_, ?_, ?_, ?_⟩, ?_, ?_, rfl⟩
  · simpa [step, Machine.pop, sysenter, int80, Machine.setReg] using h0
  · exact (@Pushed.words_right _ _ [cl.reg .esp - 4, ret, cl.reg .edx, cl.reg .ecx, cl.reg .ebx]
      _ _ hp).1
  · exact (@Pushed.words_right _ _ [cl.reg .esp - 4, ret, cl.reg .edx, cl.reg .ecx] _ _ hp).1
  · simpa [step, Machine.pop, sysenter, int80, Machine.setReg] using
      (hreg .esi (by decide) (by decide)).trans hf.esi
  · simpa [step, Machine.pop, sysenter, int80, Machine.setReg] using
      (hreg .edi (by decide) (by decide)).trans hf.edi
  · exact fun x hx _ => hp.below x hx
  · simpa [step, Machine.pop, sysenter, Machine.setReg, hebp] using h16
  · simp [step, Machine.pop, sysenter, int80, Machine.setReg]

/-- **A wrapper with `SYSENTER`, at the check**: the registers have been restored. -/
theorem checkedFast_spec (cl : Caller) (h : c.ArgsSaved) (ret r : Word) (sc : Scratch) :
    (sysenter r sc (c.askFast ret cl.toMachine)).eip = ret ∧
      Framed cl (c.checkedFast cl.errno ret r sc cl.toMachine) ∧
      (c.checkedFast cl.errno ret r sc cl.toMachine).reg .esp = cl.reg .esp - 4 ∧
      (c.checkedFast cl.errno ret r sc cl.toMachine).reg .ebx = cl.reg .ebx ∧
      (c.checkedFast cl.errno ret r sc cl.toMachine).reg .eax = c.outcome r ∧
      load32 (c.checkedFast cl.errno ret r sc cl.toMachine).mem cl.errno =
        c.errnoAfter r (load32 cl.mem cl.errno) := by
  obtain ⟨heip, hf, hesp, heax, hmem⟩ := unlink_spec cl h ret r sc
  obtain ⟨hp, -, -⟩ := pushed_fakeLink cl h ret
  set m₁ := X86.exec [.popR .ebp, .addI 4 .esp] (sysenter r sc (c.askFast ret cl.toMachine))
  have heq : c.checkedFast cl.errno ret r sc cl.toMachine =
      c.check cl.errno (X86.exec restoreReg m₁) :=
    congrArg (c.check cl.errno) (exec_append [.popR .ebp, .addI 4 .esp] restoreReg _)
  obtain ⟨hc1, hc2, hreg, -⟩ := check_spec c cl.errno (X86.exec restoreReg m₁)
  have heax' : (X86.exec restoreReg m₁).reg .eax = r := by
    rw [exec_restoreReg]
    exact heax
  have hmem' : (X86.exec restoreReg m₁).mem = (c.askFast ret cl.toMachine).mem := by
    rw [exec_restoreReg]
    exact hmem
  rw [heq]
  refine ⟨heip, hf.restoreReg.check c, ?_, ?_, ?_, ?_⟩
  · have h4 : cl.reg .esp - 16 + 12 = cl.reg .esp - 4 := by bv_omega
    rw [hreg _ (by decide), exec_restoreReg]
    change m₁.reg .esp + 12 = _
    rw [hesp, h4]
  · rw [hreg _ (by decide), hf.restoreReg_ebx hesp]
  · rw [hc1, heax']
  · rw [hc2, heax', hmem', cl.load_errno hp.below]

/-- **The wrapper with `SYSENTER`.** -/
theorem fast_spec (cl : Caller) (h : c.ArgsSaved) (ret r : Word) (sc : Scratch) :
    ∃ m, c.fast cl.errno ret r sc cl.toMachine = some m ∧ Returned cl m ∧
      m.reg .eax = c.outcome r ∧
      load32 m.mem cl.errno = c.errnoAfter r (load32 cl.mem cl.errno) := by
  obtain ⟨heip, hf, -, hebx, heax, herr⟩ := checkedFast_spec cl h ret r sc
  obtain ⟨h1, h2, h3⟩ := hf.epilogue
  refine ⟨_, if_pos heip, h1.mpr hebx, h2.trans heax, ?_⟩
  rw [h3, herr]

/-- **`gettime_f`** does the same, but for `EBX`, which becomes the word above the return
address. -/
theorem gettimeF_spec (cl : Caller) (ret r : Word) (sc : Scratch) :
    ∃ m, gettimeF cl.errno ret r sc cl.toMachine = some m ∧
      (Returned cl m ↔ cl.reg .ebx = load32 cl.mem (cl.reg .esp + 4)) ∧
      m.reg .eax = gettimeCall.outcome r ∧
      load32 m.mem cl.errno = gettimeCall.errnoAfter r (load32 cl.mem cl.errno) := by
  obtain ⟨heip, hf, hesp, -, heax, herr⟩ :=
    checkedFast_spec (c := gettimeCall) cl (by simp [Call.ArgsSaved, gettimeCall]) ret r sc
  set m₁ := gettimeCall.checkedFast cl.errno ret r sc cl.toMachine
  obtain ⟨h1, h2, h3⟩ := hf.restoreReg.epilogue
  -- the stack has been unwound: the third word from here is in the frame of the caller
  have hebx : (X86.exec restoreReg m₁).reg .ebx = load32 cl.mem (cl.reg .esp + 4) := by
    have h8 : cl.reg .esp - 4 + 8 = cl.reg .esp + 4 := by bv_omega
    rw [exec_restoreReg]
    change load32 m₁.mem (m₁.reg .esp + 8) = _
    rw [hesp, h8]
    exact load32_congr fun x hx => hf.mem x (by bv_omega) (cl.apart x (by bv_omega))
  refine ⟨_, if_pos heip, ?_, ?_, ?_⟩
  · rw [exec_append, h1, hebx, eq_comm]
  · rw [exec_append, h2, exec_restoreReg]
    exact heax
  · rw [exec_append, h3, exec_restoreReg]
    exact herr

end Steps

/-! ### The two wrappers -/

theorem Name.argsSaved (n : Name) : n.call.ArgsSaved := by
  cases n <;> simp [Call.ArgsSaved, Name.call, writeCall, gettimeCall, forkCall, exitCall,
    blockCall, unblockCall]

theorem Name.wrapper_eq (n : Name) (errno r : Word) (sc : Scratch) (m : Machine) :
    n.wrapper errno r sc m = n.call.slow errno r sc m := by
  cases n <;> rfl

theorem Name.wrapperF_eq {n : Name} (h : n ≠ .gettime) (errno ret r : Word) (sc : Scratch)
    (m : Machine) : n.wrapperF errno ret r sc m = n.call.fast errno ret r sc m := by
  cases n with
  | gettime => exact absurd rfl h
  | _ => rfl

/-- If the wrappers of `gettime` are interchangeable, it is by accident. -/
theorem Interchangeable.ebx_eq {cl : Caller} {ret r : Word} {sc₁ sc₂ : Scratch}
    (h : Interchangeable .gettime cl ret r sc₁ sc₂) :
    cl.reg .ebx = load32 cl.mem (cl.reg .esp + 4) := by
  obtain ⟨m, hm, hiff, -, -⟩ := gettimeF_spec cl ret r sc₂
  obtain ⟨m', hm', hret, -⟩ := h.fast
  obtain rfl := Option.some.inj (hm.symm.trans hm')
  exact hiff.mp hret

/-- **Every pair of wrappers is interchangeable, but for `gettime` and `gettime_f`.** These
are so in a caller that happens to have in `EBX` what is above the return address on its
stack. -/
theorem interchangeable_iff (n : Name) (cl : Caller) (ret r : Word) (sc₁ sc₂ : Scratch) :
    Interchangeable n cl ret r sc₁ sc₂ ↔
      (n = .gettime → cl.reg .ebx = load32 cl.mem (cl.reg .esp + 4)) := by
  obtain ⟨hret, heax, herr⟩ := slow_spec cl n.argsSaved r sc₁
  rw [← Name.wrapper_eq] at hret heax herr
  by_cases hn : n = .gettime
  · subst hn
    obtain ⟨m, hm, hiff, heax', herr'⟩ := gettimeF_spec cl ret r sc₂
    refine ⟨fun h _ => h.ebx_eq, fun h => ⟨hret, m, hm, hiff.mpr (h rfl), ?_, ?_⟩⟩
    · rw [heax', heax]
      rfl
    · rw [herr', herr]
      rfl
  · obtain ⟨m, hm, hret', heax', herr'⟩ := fast_spec cl n.argsSaved ret r sc₂
    rw [← Name.wrapperF_eq hn] at hm
    exact ⟨fun _ h => absurd h hn, fun _ => ⟨hret, m, hm, hret', heax'.trans heax.symm,
      herr'.trans herr.symm⟩⟩

/-- A program that has called `gettime_f`, with `7` in `EBX`. -/
def sampleCaller : Caller where
  reg := fun r => if r = .esp then 0x11bf00 else 7
  seg := fun _ => 0x2b
  eip := 0x114100
  eflags := 0x202
  mem := fun _ => 0
  errno := 0x100000
  apart := fun x hx => by
    simp only [if_true] at hx
    bv_omega

/-- **`gettime_f` changes `EBX`** under its caller, here from `7` to `0`. -/
theorem gettimeF_corrupts_ebx :
    ¬Interchangeable .gettime sampleCaller 0x114200 5 ⟨0, 0⟩ ⟨0, 0⟩ := by
  intro h
  have hebx : (7 : Word) = load32 (fun _ => 0) (0x11bf00 + 4) := h.ebx_eq
  exact absurd hebx (by decide)

end Zeos.E1E2.Wrapper
