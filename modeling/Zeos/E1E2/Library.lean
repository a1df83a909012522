import Zeos.Common.Library
import Zeos.E1E2.Entry
import Zeos.E1E2.Wrapper

/-!
# The library and the kernel

`wrapper.S` and `entry.S` together. In `Zeos.E1E2.Wrapper` the kernel between the two halves of
a wrapper is any kernel that delivers a result; here it is the one of `Zeos.E1E2.syscall`, and
with it what the wrappers and the handlers have to agree upon: the numbers, the registers of
the arguments, and for `SYSENTER` the two words on the stack of the program. The wrappers of
`getpid` are among them, only one of which checks the result.

All fourteen functions of the library have their service routine called with the arguments of
their caller, and give it the result; thirteen of them return with everything else as it was
(`Zeos.E1E2.Library.every_wrapper_answers`). The other one is `gettime_f`, which leaves in `EBX`
the word above the return address.
-/

namespace Zeos.E1E2.Library

open ByteMem X86

open Wrapper (Call saveReg restoreReg epilogue loadArgs writeCall gettimeCall forkCall exitCall
  blockCall unblockCall)

/-! ### The functions -/

section Functions

variable (hd : Handlers) (code : Code hd) (esp0 : Gate → Word) (c : Call) (next errno : Word)
  (m : Machine)

/-- A function that makes its system call with `int $0x80`. -/
def slow : Option Machine :=
  (trap (syscall .int80 hd code (esp0 .int80)) next (c.askSlow m)).map fun m =>
    X86.exec (restoreReg ++ epilogue) (c.check errno m)

/-- A function that makes its system call with `SYSENTER`, up to the end of the check. -/
def checkedFast : Option Machine :=
  (trap (syscall .sysenter hd code (esp0 .sysenter)) next (c.askFast next m)).map fun m =>
    c.check errno (X86.exec (.popR .ebp :: .addI 4 .esp :: restoreReg) m)

/-- A function that makes its system call with `SYSENTER`. -/
def fast : Option Machine :=
  (checkedFast hd code esp0 c next errno m).map (X86.exec epilogue)

end Functions

/-- `getpid`, which does not check the result. -/
def getpidCall : Call := ⟨20, [], false⟩

/-- `getpid_f` -/
def getpidFCall : Call := ⟨20, [], true⟩

/-- The functions of the library that make a system call. -/
inductive LibFunction
  | write | gettime | getpid | fork | exit | block | unblock
  | writeF | gettimeF | getpidF | forkF | exitF | blockF | unblockF
deriving DecidableEq

namespace LibFunction

/-- What distinguishes it. -/
def call : LibFunction → Call
  | write | writeF => writeCall
  | gettime | gettimeF => gettimeCall
  | getpid => getpidCall
  | getpidF => getpidFCall
  | fork | forkF => forkCall
  | exit | exitF => exitCall
  | block | blockF => blockCall
  | unblock | unblockF => unblockCall

/-- The service routine of the same name. -/
def service : LibFunction → Service
  | write | writeF => .write
  | gettime | gettimeF => .gettime
  | getpid | getpidF => .getpid
  | fork | forkF => .fork
  | exit | exitF => .exit
  | block | blockF => .block
  | unblock | unblockF => .unblock

/-- **The function**, from its first instruction to its return; `gettime_f` executes
`RESTORE_REG` once more after the check. -/
def run (hd : Handlers) (code : Code hd) (esp0 : Gate → Word) (next errno : Word) (m : Machine)
    (f : LibFunction) : Option Machine :=
  match f with
  | write | gettime | getpid | fork | exit | block | unblock =>
    slow hd code esp0 f.call next errno m
  | gettimeF =>
    (checkedFast hd code esp0 f.call next errno m).map (X86.exec (restoreReg ++ epilogue))
  | writeF | getpidF | forkF | exitF | blockF | unblockF =>
    fast hd code esp0 f.call next errno m

/-- The gate that it uses. -/
def gate : LibFunction → Gate
  | write | gettime | getpid | fork | exit | block | unblock => .int80
  | writeF | gettimeF | getpidF | forkF | exitF | blockF | unblockF => .sysenter

/-- The number of its arguments. -/
def arity (f : LibFunction) : Nat := f.call.args.length

end LibFunction

/-! ### The way to the kernel -/

/-- The registers of `SAVE_REG`. -/
def savedRegs : List AnyReg := [.gen .edx, .gen .ecx, .gen .ebx]

/-- Where the arguments are, and the registers that they go to. -/
def argRegs : List (Word × Reg) := [(8, .edx), (12, .ecx), (16, .ebx)]

/-- **The number and the arguments are passed** as the kernel expects them. -/
structure Passes (c : Call) (n : Nat) : Prop where
  /-- The number. -/
  number : calledIndex c.number = some n
  /-- The arguments. -/
  args : c.args = argRegs.take c.args.length
  /-- There are at most three. -/
  length : c.args.length ≤ 3

variable {hd : Handlers} {code : Code hd} {esp0 : Gate → Word} {user : Word → Prop}
  {cl : Caller user} {c : Call} {n : Nat} {s : Service}

theorem Passes.argsSaved (h : Passes c n) : c.ArgsSaved := by
  intro a ha
  rw [h.args] at ha
  have hmem : a ∈ argRegs := List.mem_of_mem_take ha
  simp only [argRegs, List.mem_cons, List.not_mem_nil, or_false] at hmem
  rcases hmem with rfl | rfl | rfl <;> decide

/-- Loading the arguments leaves the segments alone. -/
theorem exec_loadArgs_seg (args : List (Word × Reg)) (m : Machine) :
    (X86.exec (loadArgs args) m).seg = m.seg := by
  induction args generalizing m with
  | nil => rfl
  | cons a args ih => exact ih (step m (.load a.1 .ebp a.2))

/-- The arguments are in their registers. -/
theorem exec_argRegs {k : Nat} (hk : k ≤ 3) {m : Machine} {b : Word} (hb : m.reg .ebp = b)
    {i : Nat} (hi : i < k) :
    (X86.exec (loadArgs (argRegs.take k)) m).reg ([Reg.edx, .ecx, .ebx].getD i .eax) =
      load32 m.mem (b + BitVec.ofNat 32 (4 * i + 8)) := by
  subst hb
  have hcases : k = 1 ∨ k = 2 ∨ k = 3 := by omega
  have hcases' : i = 0 ∨ i = 1 ∨ i = 2 := by omega
  rcases hcases with rfl | rfl | rfl <;> rcases hcases' with rfl | rfl | rfl <;>
    first
    | omega
    | simp [argRegs, loadArgs, step, Machine.setReg]

/-- `ESI` and `EDI` are preserved by every gate, and used by no wrapper. -/
theorem unused_reg {r : Reg} (h : r ∈ [Reg.esi, .edi]) :
    r ∈ calleeSaved ∧ r ∉ [Reg.edx, .ecx, .ebx, .esp] ∧ r ≠ .eax ∧ r ≠ .ebp ∧ r ≠ .esp := by
  simp only [List.mem_cons, List.not_mem_nil, or_false] at h
  rcases h with rfl | rfl <;> decide

/-- What is on the stack of a wrapper, from the saved registers on. -/
def saved (cl : Caller user) : List Word := savedRegs.map cl.frameValue ++ [cl.reg .ebp]

/-- **At `int $0x80`** the registers are saved, and the arguments are passed. -/
theorem asks_askSlow (cl : Caller user) (h : Passes c n) :
    Asks cl (saved cl) c.args.length c.number (c.askSlow cl.toMachine) ∧
      (c.askSlow cl.toMachine).reg .ebp = cl.reg .esp - 4 ∧
      (∀ r ∈ [Reg.esi, .edi], (c.askSlow cl.toMachine).reg r = cl.reg r) ∧
      ∀ i < c.args.length, (c.askSlow cl.toMachine).reg ([Reg.edx, .ecx, .ebx].getD i .eax) =
        load32 cl.mem (cl.reg .esp + 4 + BitVec.ofNat 32 (4 * i)) := by
  obtain ⟨hp, hebp, hreg, hseg⟩ := pushed_prologue_save cl savedRegs (by decide) (by decide)
  have hlist : Wrapper.prologue ++ saveReg = prologue ++ save savedRegs := rfl
  rw [Wrapper.askSlow_eq, hlist]
  set m := X86.exec (prologue ++ save savedRegs) cl.toMachine
  obtain ⟨hmem, hsame⟩ := Wrapper.exec_loadArgs h.argsSaved m
  have hload : ∀ i < c.args.length,
      (X86.exec (loadArgs c.args) m).reg ([Reg.edx, .ecx, .ebx].getD i .eax) =
        load32 cl.mem (cl.reg .esp + 4 + BitVec.ofNat 32 (4 * i)) := fun i hi => by
    have hl := h.length
    rw [h.args, exec_argRegs hl hebp hi]
    exact Caller.load_arg hp (by simp [savedRegs]) (by omega)
  set m₁ := X86.exec (loadArgs c.args) m
  have hne : ∀ r, r ≠ .eax → (m₁.setReg .eax c.number).reg r = m₁.reg r :=
    fun r hr => Machine.setReg_reg_of_ne hr
  have hargs : ∀ i < c.args.length,
      (m₁.setReg .eax c.number).reg ([Reg.edx, .ecx, .ebx].getD i .eax) =
        load32 cl.mem (cl.reg .esp + 4 + BitVec.ofNat 32 (4 * i)) := fun i hi =>
    (hne _ (argReg_ne (Nat.lt_of_lt_of_le hi h.length)).1).trans (hload i hi)
  refine ⟨⟨hp.congr ((hne _ (by decide)).trans (hsame _ (by decide))) hmem,
    by simp [saved, savedRegs], Machine.setReg_reg_self, exists_arguments h.length hargs,
    (exec_loadArgs_seg _ _).trans hseg⟩,
    (hne _ (by decide)).trans ((hsame _ (by decide)).trans hebp), fun r hr => ?_, hargs⟩
  simp only [List.mem_cons, List.not_mem_nil, or_false] at hr
  rcases hr with rfl | rfl
  · exact (hne _ (by decide)).trans ((hsame _ (by decide)).trans (hreg _ (by decide) (by decide)))
  · exact (hne _ (by decide)).trans ((hsame _ (by decide)).trans (hreg _ (by decide) (by decide)))

/-- **At `SYSENTER`** the fake link is on top of the stack, and `EBP` points to it. -/
theorem asks_askFast (cl : Caller user) (h : Passes c n) (next : Word) :
    Asks cl ([cl.reg .esp - 4, next] ++ saved cl) c.args.length c.number
        (c.askFast next cl.toMachine) ∧
      (c.askFast next cl.toMachine).reg .ebp = cl.reg .esp - 24 ∧
      ∀ r ∈ [Reg.esi, .edi], (c.askFast next cl.toMachine).reg r = cl.reg r := by
  obtain ⟨ha, hebp, hkept, hargs⟩ := asks_askSlow cl h
  have hesp : (c.askSlow cl.toMachine).reg .esp = cl.reg .esp - 16 := ha.pushed.esp
  rw [Wrapper.askFast_eq next cl.toMachine h.argsSaved]
  set m := c.askSlow cl.toMachine
  have h24 : cl.reg .esp - 16 - 4 - 4 = cl.reg .esp - 24 := by bv_omega
  have heq : X86.exec (Wrapper.fakeLink next) m =
      ([next, cl.reg .esp - 4].foldl Machine.push m).setReg .ebp (cl.reg .esp - 24) := by
    simp only [Wrapper.fakeLink, exec_cons, exec_nil, step, List.foldl_cons, List.foldl_nil,
      Machine.push_esp, hesp, h24, Machine.push_reg_of_ne (by decide : Reg.ebp ≠ .esp), hebp]
  rw [heq]
  set m₁ := [next, cl.reg .esp - 4].foldl Machine.push m
  have hne : ∀ r, r ≠ .ebp → r ≠ .esp → (m₁.setReg .ebp (cl.reg .esp - 24)).reg r = m.reg r :=
    fun r h1 h2 => (Machine.setReg_reg_of_ne h1).trans (foldl_push_reg h2 _ _)
  refine ⟨⟨?_, by simp [saved, savedRegs], (hne _ (by decide) (by decide)).trans ha.eax,
    exists_arguments h.length fun i hi => ?_, ha.seg⟩, Machine.setReg_reg_self, fun r hr => ?_⟩
  · exact (ha.pushed.foldl_push [next, cl.reg .esp - 4] (by
      simp [saved, savedRegs])).congr (Machine.setReg_reg_of_ne (by decide)) rfl
  · obtain ⟨-, h1, h2⟩ := argReg_ne (Nat.lt_of_lt_of_le hi h.length)
    exact (hne _ h1 h2).trans (hargs i hi)
  · obtain ⟨-, -, -, h1, h2⟩ := unused_reg hr
    exact (hne _ h1 h2).trans (hkept r hr)

/-! ### The way back -/

section Way

variable {checks : Bool} {m : Machine} {r : Word}

/-- The result is checked, if the function does so. -/
theorem back_check (hb : Back cl false r m) : Back cl c.checks r (c.check cl.errno m) := by
  rw [Call.check]
  cases c.checks with
  | false => exact hb
  | true =>
    have heq : Wrapper.checkError cl.errno m = checkResult cl.errno m := by
      rw [Wrapper.checkError, checkResult]
      by_cases hneg : (m.reg .eax).toInt < 0
      · rw [if_neg (by omega), if_pos hneg]
      · rw [if_pos (by omega), if_neg hneg]
    rw [if_pos rfl, heq]
    exact hb.check

/-- The check leaves the stack of the function alone. -/
theorem words_check {ws : List Word} (hlen : ws.length ≤ 8)
    (h : Words m.mem (cl.reg .esp - BitVec.ofNat 32 (4 * ws.length)) ws) :
    Words (c.check cl.errno m).mem (cl.reg .esp - BitVec.ofNat 32 (4 * ws.length)) ws := by
  obtain ⟨-, -, -, hmem⟩ := Wrapper.check_spec c cl.errno m
  exact h.congr (by omega) fun x hx => hmem x (cl.stack x (by bv_omega)).2

/-- **At the end of a function**: all but the two registers of the stack is restored. -/
structure Ready (cl : Caller user) (checks : Bool) (r : Word) (m : Machine) : Prop extends
    Back cl checks r m where
  /-- The frame pointer is that of the function. -/
  ebp : m.reg .ebp = cl.reg .esp - 4
  /-- The registers that the function does not use. -/
  kept : ∀ r ∈ [Reg.esi, .edi], m.reg r = cl.reg r
  /-- The frame pointer of the caller is in the frame. -/
  link : load32 m.mem (cl.reg .esp - 4) = cl.reg .ebp

/-- **The end of every function**: the stack pointer comes from the frame pointer. -/
theorem Ready.returned (h : Ready cl checks r m) :
    (Returned cl checks r (X86.exec epilogue m) ↔ m.reg .ebx = cl.reg .ebx) ∧
      (X86.exec epilogue m).reg .eax = outcome checks r := by
  have hne : ∀ r, r ≠ .esp → (step m (.movR .ebp .esp)).reg r = m.reg r :=
    fun r h => Machine.setReg_reg_of_ne h
  have hlist : X86.exec epilogue m = X86.exec [.popR .ebp, .ret] (step m (.movR .ebp .esp)) := rfl
  have hother : ∀ r, r ≠ .esp → r ≠ .ebp → (X86.exec epilogue m).reg r = m.reg r := by
    intro r h1 h2
    rw [hlist]
    exact (Machine.setReg_reg_of_ne h1).trans ((Machine.setReg_reg_of_ne h2).trans
      ((Machine.setReg_reg_of_ne h1).trans (hne r h1)))
  refine ⟨⟨fun hret => ?_, fun hebx => ?_⟩, (hother _ (by decide) (by decide)).trans h.eax⟩
  · exact (hother _ (by decide) (by decide)).symm.trans (hret.saved .ebx (by decide))
  · rw [hlist]
    refine (h.toBack.congr (hne _ (by decide)) rfl rfl).leave
      (Machine.setReg_reg_self.trans h.ebp) h.link fun r hr => ?_
    rcases List.mem_cons.mp hr with rfl | hr'
    · exact (hne _ (by decide)).trans hebx
    · exact (hne r (unused_reg hr').2.2.2.2).trans (h.kept r hr')

/-- **`RESTORE_REG`**, with the saved registers on top of the stack. -/
theorem restoreReg_spec (hesp : m.reg .esp = cl.reg .esp - 16)
    (hw : Words m.mem (cl.reg .esp - 16) (saved cl)) :
    (X86.exec restoreReg m).reg .ebx = cl.reg .ebx ∧
      (X86.exec restoreReg m).reg .esp = cl.reg .esp - 4 ∧
      (∀ r, r ∉ [Reg.edx, .ecx, .ebx, .esp] → (X86.exec restoreReg m).reg r = m.reg r) ∧
      (X86.exec restoreReg m).seg = m.seg ∧ (X86.exec restoreReg m).mem = m.mem ∧
      load32 m.mem (cl.reg .esp - 4) = cl.reg .ebp := by
  have hr : Restored savedRegs cl.frameValue m (X86.exec (restore savedRegs) m) :=
    exec_restore (by decide) (by rw [hesp]; exact hw)
  have hlist : restoreReg = restore savedRegs := rfl
  have h4 : cl.reg .esp - 16 + BitVec.ofNat 32 (4 * 3) = cl.reg .esp - 4 := by bv_omega
  rw [hlist]
  refine ⟨hr.value (.gen .ebx) (by decide), ?_, fun r hr' => ?_,
    funext fun t => hr.value (.sel t) (by simp), hr.mem, ?_⟩
  · rw [hr.esp, hesp]
    exact h4
  · simp only [List.mem_cons, List.not_mem_nil, or_false, not_or] at hr'
    refine (hr.value (.gen r) (by simp [hr'.2.2.2])).trans (if_neg ?_)
    simp [savedRegs, hr'.1, hr'.2.1, hr'.2.2.1]
  · rw [← h4]
    exact (words_append.mp hw).2.1

/-- A function is ready when it has restored the registers. -/
theorem Ready.of_restored (hb : Back cl checks r m) (hesp : m.reg .esp = cl.reg .esp - 16)
    (hebp : m.reg .ebp = cl.reg .esp - 4) (hkept : ∀ r ∈ [Reg.esi, .edi], m.reg r = cl.reg r)
    (hw : Words m.mem (cl.reg .esp - 16) (saved cl)) :
    Ready cl checks r (X86.exec restoreReg m) ∧
      (X86.exec restoreReg m).reg .ebx = cl.reg .ebx ∧
      (X86.exec restoreReg m).reg .esp = cl.reg .esp - 4 := by
  obtain ⟨hebx, hesp', hreg, hseg, hmem, hlink⟩ := restoreReg_spec hesp hw
  refine ⟨⟨hb.congr (hreg _ (by decide)) hseg hmem, (hreg _ (by decide)).trans hebp,
    fun r hr => (hreg r (unused_reg hr).2.1).trans (hkept r hr), hmem ▸ hlink⟩, hebx, hesp'⟩

/-- The check leaves a function ready. -/
theorem Ready.check (h : Ready cl false r m) : Ready cl c.checks r (c.check cl.errno m) := by
  obtain ⟨-, -, hreg, hmem⟩ := Wrapper.check_spec c cl.errno m
  refine ⟨back_check h.toBack, (hreg _ (by decide)).trans h.ebp,
    fun r hr => (hreg r (unused_reg hr).2.2.1).trans (h.kept r hr), ?_⟩
  rw [← h.link]
  exact load32_congr fun x hx => hmem x (cl.stack x (by bv_omega)).2

end Way

/-! ### Every function -/

/-- The kernel answers the numbers of its table. -/
theorem syscall_eq (code : Code hd) (g : Gate) (top : Word) {u : Machine}
    (hn : calledIndex (u.reg .eax) = some n) :
    syscall g hd code top u = answer hd code sysCallTable g top n u := by
  rw [syscall, served, enter_eq, hn]
  rfl

/-- **A function with `int $0x80`.** -/
theorem slow_spec (hk : KeepsProgram hd code esp0 user) (cl : Caller user) (h : Passes c n)
    (hs : sysCallTable[n]? = some s) (next : Word) :
    ∃ e m, slow hd code esp0 c next cl.errno cl.toMachine = some m ∧
      Invoked cl (hd.service s) c.args.length e ∧
      Returned cl c.checks ((code.run (hd.service s) e).reg .eax) m := by
  obtain ⟨ha, hebp, hkept, -⟩ := asks_askSlow cl h
  set u := c.askSlow cl.toMachine
  obtain ⟨e, m, hm, hinv, hans⟩ := ha.trap (g := .int80) hk next hs
    (fun p hp => syscall_eq code .int80 (esp0 .int80) (by rw [hp, h.number]))
    fun hg => absurd hg (by simp)
  have hp : Pushed cl.mem (cl.reg .esp) _ { u with eip := next } := ha.pushed.congr rfl rfl
  obtain ⟨-, -, hreg, -⟩ := Wrapper.check_spec c cl.errno m
  have hesp : (c.check cl.errno m).reg .esp = cl.reg .esp - 16 := by
    rw [hreg _ (by decide), hans.esp]
    exact hp.esp
  obtain ⟨hready, hebx, -⟩ := Ready.of_restored
    (back_check (c := c) (Back.answered hans hp ha.seg ha.length)) hesp
    (((hreg _ (by decide)).trans (hans.saved .ebp (by decide))).trans hebp)
    (fun r hr => by
      obtain ⟨hsaved, -, h1, -⟩ := unused_reg hr
      exact ((hreg r h1).trans (hans.saved r hsaved)).trans (hkept r hr))
    (words_check ha.length (Caller.words_answered hans hp ha.length))
  refine ⟨e, _, ?_, hinv, hready.returned.1.mpr hebx⟩
  rw [slow, hm, Option.map_some, exec_append]

/-- The fake link is taken off the stack. -/
theorem unlink_spec {m : Machine} (hesp : m.reg .esp = cl.reg .esp - 24)
    (hw : load32 m.mem (cl.reg .esp - 24) = cl.reg .esp - 4) :
    (X86.exec [.popR .ebp, .addI 4 .esp] m).reg .esp = cl.reg .esp - 16 ∧
      (X86.exec [.popR .ebp, .addI 4 .esp] m).reg .ebp = cl.reg .esp - 4 ∧
      ∀ r, r ≠ .ebp → r ≠ .esp →
        (X86.exec [.popR .ebp, .addI 4 .esp] m).reg r = m.reg r := by
  have hpop : (step m (.popR .ebp)).reg .esp = m.reg .esp + 4 :=
    (Machine.setReg_reg_of_ne (by decide)).trans Machine.setReg_reg_self
  have h16 : cl.reg .esp - 24 + 4 + 4 = cl.reg .esp - 16 := by bv_omega
  refine ⟨Machine.setReg_reg_self.trans ?_,
    ((Machine.setReg_reg_of_ne (by decide)).trans Machine.setReg_reg_self).trans ?_,
    fun r h1 h2 => (Machine.setReg_reg_of_ne h2).trans
      ((Machine.setReg_reg_of_ne h1).trans (Machine.setReg_reg_of_ne h2))⟩
  · rw [hpop, hesp, h16]
  · change load32 m.mem (m.reg .esp) = _
    rw [hesp, hw]

/-- **A function with `SYSENTER`**, up to the end of the check. -/
theorem checkedFast_spec (hk : KeepsProgram hd code esp0 user) (cl : Caller user) (h : Passes c n)
    (hs : sysCallTable[n]? = some s) (next : Word) :
    ∃ e m, checkedFast hd code esp0 c next cl.errno cl.toMachine = some m ∧
      Invoked cl (hd.service s) c.args.length e ∧
      Ready cl c.checks ((code.run (hd.service s) e).reg .eax) m ∧
      m.reg .ebx = cl.reg .ebx ∧ m.reg .esp = cl.reg .esp - 4 := by
  obtain ⟨ha, hebp, hkept⟩ := asks_askFast cl h next
  set u := c.askFast next cl.toMachine
  -- the handler looks for the address above the frame pointer
  obtain ⟨hw0, hw1, -⟩ := ha.pushed.words
  have hesp : u.reg .esp = cl.reg .esp - 24 := ha.pushed.esp
  rw [hesp, ← hebp] at hw0 hw1
  obtain ⟨e, m, hm, hinv, hans⟩ := ha.trap (g := .sysenter) hk next hs
    (fun p hp => syscall_eq code .sysenter (esp0 .sysenter) (by rw [hp, h.number]))
    fun _ => ⟨hebp, by simp [saved, savedRegs], hw1⟩
  have hp : Pushed cl.mem (cl.reg .esp) _ { u with eip := next } := ha.pushed.congr rfl rfl
  have hw := Caller.words_answered hans hp ha.length
  have hesp₀ : m.reg .esp = cl.reg .esp - 24 := hans.esp.trans hebp
  obtain ⟨hesp₁, hebp₁, hne⟩ := unlink_spec hesp₀ hw.1
  have heq : X86.exec (.popR .ebp :: .addI 4 .esp :: restoreReg) m =
      X86.exec restoreReg (X86.exec [.popR .ebp, .addI 4 .esp] m) :=
    exec_append [.popR .ebp, .addI 4 .esp] restoreReg m
  have hmem : (X86.exec [.popR .ebp, .addI 4 .esp] m).mem = m.mem := rfl
  have hseg : (X86.exec [.popR .ebp, .addI 4 .esp] m).seg = m.seg := rfl
  set m₁ := X86.exec [.popR .ebp, .addI 4 .esp] m
  have hb := (Back.answered hans hp ha.seg ha.length).congr (hne .eax (by decide) (by decide))
    hseg hmem
  have hkept₁ : ∀ r ∈ [Reg.esi, .edi], m₁.reg r = cl.reg r := fun r hr => by
    obtain ⟨hsaved, -, -, h1, h2⟩ := unused_reg hr
    exact ((hne r h1 h2).trans (hans.saved r hsaved)).trans (hkept r hr)
  have hw₁ : Words m₁.mem (cl.reg .esp - 16) (saved cl) := by
    have h16 : cl.reg .esp - 24 + 4 + 4 = cl.reg .esp - 16 := by bv_omega
    rw [hmem, ← h16]
    exact hw.2.2
  obtain ⟨hready, hebx, hesp₂⟩ := Ready.of_restored hb hesp₁ hebp₁ hkept₁ hw₁
  obtain ⟨-, -, hreg, -⟩ := Wrapper.check_spec c cl.errno (X86.exec restoreReg m₁)
  refine ⟨e, _, ?_, hinv, hready.check, (hreg _ (by decide)).trans hebx,
    (hreg _ (by decide)).trans hesp₂⟩
  rw [checkedFast, hm, Option.map_some, heq]

/-- **`gettime_f`** restores the registers once more: `EBX` becomes the word above the return
address. -/
theorem Ready.restoredTwice {checks : Bool} {m : Machine} {r : Word} (h : Ready cl checks r m)
    (hesp : m.reg .esp = cl.reg .esp - 4)
    (hframe : ∀ x, (x - (cl.reg .esp + 4)).toNat < 4 → user x ∧ 4 ≤ (x - cl.errno).toNat) :
    (Returned cl checks r (X86.exec (restoreReg ++ epilogue) m) ↔
        cl.reg .ebx = load32 cl.mem (cl.reg .esp + 4)) ∧
      (X86.exec (restoreReg ++ epilogue) m).reg .eax = outcome checks r := by
  rw [exec_append, Wrapper.exec_restoreReg]
  set m₁ : Machine := { m with
    reg := fun r => if r = .esp then m.reg .esp + 12
      else if r = .edx then load32 m.mem (m.reg .esp)
      else if r = .ecx then load32 m.mem (m.reg .esp + 4)
      else if r = .ebx then load32 m.mem (m.reg .esp + 8) else m.reg r }
  have hready : Ready cl checks r m₁ := by
    refine ⟨h.toBack.congr rfl rfl rfl, h.ebp, fun r hr => ?_, h.link⟩
    refine Eq.trans ?_ (h.kept r hr)
    simp only [List.mem_cons, List.not_mem_nil, or_false] at hr
    rcases hr with rfl | rfl <;> rfl
  have hebx : m₁.reg .ebx = load32 cl.mem (cl.reg .esp + 4) := by
    have h8 : cl.reg .esp - 4 + 8 = cl.reg .esp + 4 := by bv_omega
    change load32 m.mem (m.reg .esp + 8) = _
    rw [hesp, h8]
    exact load32_congr fun x hx => h.mem x (hframe x hx).1 (by bv_omega) (hframe x hx).2
  obtain ⟨hret, heax⟩ := hready.returned
  rw [hret, hebx, eq_comm]
  exact ⟨Iff.rfl, heax⟩

/-- The numbers and the arguments of the functions are passed as the kernel expects them. -/
theorem LibFunction.passes (f : LibFunction) :
    ∃ n, Passes f.call n ∧ sysCallTable[n]? = some f.service := by
  cases f
  case write | writeF => exact ⟨4, ⟨by decide, rfl, by decide⟩, rfl⟩
  case gettime | gettimeF => exact ⟨10, ⟨by decide, rfl, by decide⟩, rfl⟩
  case getpid | getpidF => exact ⟨20, ⟨by decide, rfl, by decide⟩, rfl⟩
  case fork | forkF => exact ⟨2, ⟨by decide, rfl, by decide⟩, rfl⟩
  case exit | exitF => exact ⟨1, ⟨by decide, rfl, by decide⟩, rfl⟩
  case block | blockF => exact ⟨12, ⟨by decide, rfl, by decide⟩, rfl⟩
  case unblock | unblockF => exact ⟨13, ⟨by decide, rfl, by decide⟩, rfl⟩

/-- The functions but for `gettime_f` differ in the gate and in what is to be called. -/
theorem LibFunction.run_eq {f : LibFunction} (hf : f ≠ .gettimeF) {next errno : Word}
    {m : Machine} : f.run hd code esp0 next errno m =
      match f.gate with
      | .int80 => slow hd code esp0 f.call next errno m
      | .sysenter => fast hd code esp0 f.call next errno m := by
  cases f with
  | gettimeF => exact absurd rfl hf
  | _ => rfl

/-- **A call of any function of the library.** The service routine of its name is called with
the arguments; if it returns, the result is the one that the caller expects, and it finds
everything that is its own as it was – unless the function is `gettime_f`, and `EBX` is not by
accident the word above the return address. -/
theorem every_wrapper_answers (f : LibFunction) (hk : KeepsProgram hd code esp0 user)
    (cl : Caller user) (next : Word) (hframe : f = .gettimeF →
      ∀ x, (x - (cl.reg .esp + 4)).toNat < 4 → user x ∧ 4 ≤ (x - cl.errno).toNat) :
    ∃ e m, f.run hd code esp0 next cl.errno cl.toMachine = some m ∧
      Invoked cl (hd.service f.service) f.arity e ∧
      m.reg .eax = outcome f.call.checks ((code.run (hd.service f.service) e).reg .eax) ∧
      (Returned cl f.call.checks ((code.run (hd.service f.service) e).reg .eax) m ↔
        (f = .gettimeF → cl.reg .ebx = load32 cl.mem (cl.reg .esp + 4))) := by
  obtain ⟨n, h, hs⟩ := f.passes
  by_cases hf : f = .gettimeF
  · subst hf
    obtain ⟨e, m, hm, hinv, hready, -, hesp⟩ := checkedFast_spec hk cl h hs next
    obtain ⟨hret, heax⟩ := hready.restoredTwice hesp (hframe rfl)
    refine ⟨e, _, ?_, hinv, heax, hret.trans ⟨fun h _ => h, fun h => h rfl⟩⟩
    rw [LibFunction.run, hm, Option.map_some]
  · obtain ⟨e, m, hm, hinv, hret⟩ : ∃ e m, f.run hd code esp0 next cl.errno cl.toMachine = some m ∧
        Invoked cl (hd.service f.service) f.arity e ∧
        Returned cl f.call.checks ((code.run (hd.service f.service) e).reg .eax) m := by
      rw [LibFunction.run_eq hf]
      cases f.gate with
      | int80 => exact slow_spec hk cl h hs next
      | sysenter =>
        obtain ⟨e, m, hm, hinv, hready, hebx, -⟩ := checkedFast_spec hk cl h hs next
        refine ⟨e, _, ?_, hinv, hready.returned.1.mpr hebx⟩
        change fast hd code esp0 f.call next cl.errno cl.toMachine = _
        rw [fast, hm, Option.map_some]
    exact ⟨e, m, hm, hinv, hret.eax, fun _ h => absurd h hf, fun _ => hret⟩

/-- `unblock_f` answers, and so does `gettime_f`, but here it leaves its caller `0` in `EBX` in
the place of `7`. -/
theorem every_wrapper_answers_sample :
    (∃ e m, LibFunction.unblockF.run sampleHandlers sampleCode (fun _ => 0x20000) 0x114200
        libraryCaller.errno libraryCaller.toMachine = some m ∧
      Invoked libraryCaller (sampleHandlers.service .unblock) 1 e ∧
      Returned libraryCaller true
        ((sampleCode.run (sampleHandlers.service .unblock) e).reg .eax) m) ∧
    ∃ e m, LibFunction.gettimeF.run sampleHandlers sampleCode (fun _ => 0x20000) 0x114200
        libraryCaller.errno libraryCaller.toMachine = some m ∧
      Invoked libraryCaller (sampleHandlers.service .gettime) 0 e ∧
      ¬Returned libraryCaller true
        ((sampleCode.run (sampleHandlers.service .gettime) e).reg .eax) m := by
  have hk : KeepsProgram sampleHandlers sampleCode (fun _ => 0x20000) samplePages :=
    { offStack := fun _ x hx => by
        obtain ⟨h1, h2⟩ := hx
        bv_omega
      kept := fun _ _ _ _ => rfl }
  constructor
  · obtain ⟨e, m, hm, hinv, -, hret⟩ := every_wrapper_answers .unblockF hk libraryCaller 0x114200
      fun h => absurd h (by decide)
    exact ⟨e, m, hm, hinv, hret.mpr fun h => absurd h (by decide)⟩
  · obtain ⟨e, m, hm, hinv, -, hret⟩ := every_wrapper_answers .gettimeF hk libraryCaller 0x114200
      fun _ x hx => by
        have hesp : libraryCaller.reg .esp = 0x11bf00 := rfl
        have herr : libraryCaller.errno = 0x110000 := rfl
        rw [hesp] at hx
        rw [herr]
        exact ⟨by constructor <;> bv_omega, by bv_omega⟩
    refine ⟨e, m, hm, hinv, fun h => ?_⟩
    have hebx : (7 : Word) = load32 (fun _ => 0) (0x11bf00 + 4) := hret.mp h rfl
    exact absurd hebx (by decide)

end Zeos.E1E2.Library
