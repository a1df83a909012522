import Mathlib.Logic.Function.Basic
import Zeos.Lib.ByteMem

/-!
# Straight-line code on a 32-bit stack machine

The fragment of the x86 instruction set that entry stubs and context switches are
written in: moves between registers and memory, pushes and pops of general and
segment registers, calls, returns, and the two ways into the kernel and back to user
mode. A machine state is a register file and a memory; a list of instructions is executed from
left to right (`X86.exec`), and a control transfer only sets the instruction
pointer, so what runs next is decided by whoever resumes execution there.

Code of this kind is reasoned about through what lies on the stack, with
`ByteMem.Words`: `X86.Machine.words_push` extends the list of words at the stack
pointer, and `X86.Pushed` – the words pushed since some point, and memory as it was
everywhere else – is what is known after any number of pushes. On the way back
`X86.exec_unwinds` says where the stack pointer is.
-/

namespace X86

open ByteMem

/-- The general registers. -/
inductive Reg
  | eax | ebx | ecx | edx | esi | edi | ebp | esp
deriving DecidableEq

/-- The registers that a called function gives back as it has found them. -/
def calleeSaved : List Reg := [.ebx, .esi, .edi, .ebp]

/-- The segment registers. -/
inductive Seg
  | cs | ss | ds | es | fs | gs
deriving DecidableEq

/-- The state of the processor and of its memory. -/
structure Machine where
  /-- The general registers. -/
  reg : Reg → Word
  /-- The segment registers. -/
  seg : Seg → Word
  /-- The instruction pointer. -/
  eip : Word
  /-- The flags. -/
  eflags : Word
  /-- Memory. -/
  mem : Mem

namespace Machine

/-- Write a general register. -/
def setReg (m : Machine) (r : Reg) (w : Word) : Machine :=
  { m with reg := Function.update m.reg r w }

/-- Write a segment register. -/
def setSeg (m : Machine) (s : Seg) (w : Word) : Machine :=
  { m with seg := Function.update m.seg s w }

/-- Push a word on the stack. -/
def push (m : Machine) (w : Word) : Machine :=
  { m.setReg .esp (m.reg .esp - 4) with mem := store32 m.mem (m.reg .esp - 4) w }

/-- Take the word on top of the stack off it. -/
def pop (m : Machine) : Word × Machine :=
  (load32 m.mem (m.reg .esp), m.setReg .esp (m.reg .esp + 4))

end Machine

/-! ### Instructions -/

/-- The instructions, operands in the order of the assembler: source first. -/
inductive Instr
  /-- `pushl %r` -/
  | pushR (r : Reg)
  /-- `pushl %s` -/
  | pushS (s : Seg)
  /-- `pushl $w` -/
  | pushI (w : Word)
  /-- `pushl d(%b)` -/
  | pushM (d : Word) (b : Reg)
  /-- `pushfl` -/
  | pushF
  /-- `popl %r` -/
  | popR (r : Reg)
  /-- `popl %s` -/
  | popS (s : Seg)
  /-- `movl %src, %dst` -/
  | movR (src dst : Reg)
  /-- `movl $w, %dst` -/
  | movI (w : Word) (dst : Reg)
  /-- `movl %src, %dst` with a segment register as destination -/
  | movS (src : Reg) (dst : Seg)
  /-- `movl d(%b), %dst` -/
  | load (d : Word) (b dst : Reg)
  /-- `movl %src, d(%b)` -/
  | store (src : Reg) (d : Word) (b : Reg)
  /-- `movl %src, a` -/
  | storeA (src : Reg) (a : Word)
  /-- `addl $w, %r` -/
  | addI (w : Word) (r : Reg)
  /-- `negl %r` -/
  | neg (r : Reg)
  /-- `call target`, the instruction after it being at `ra` -/
  | call (target ra : Word)
  /-- `ret` -/
  | ret
  /-- `sti` -/
  | sti
  /-- `iret`, to user mode -/
  | iret
  /-- `sysexit`, the model specific register `0x174` holding `cs` -/
  | sysexit (cs : Word)
deriving DecidableEq

open Machine

/-- The flag that enables interrupts. -/
def interruptFlag : Word := 0x200

/-- The effect of one instruction. -/
def step (m : Machine) : Instr → Machine
  | .pushR r => m.push (m.reg r)
  | .pushS s => m.push (m.seg s)
  | .pushI w => m.push w
  | .pushM d b => m.push (load32 m.mem (m.reg b + d))
  | .pushF => m.push m.eflags
  | .popR r => m.pop.2.setReg r m.pop.1
  | .popS s => m.pop.2.setSeg s m.pop.1
  | .movR src dst => m.setReg dst (m.reg src)
  | .movI w dst => m.setReg dst w
  | .movS src dst => m.setSeg dst (m.reg src)
  | .load d b dst => m.setReg dst (load32 m.mem (m.reg b + d))
  | .store src d b => { m with mem := store32 m.mem (m.reg b + d) (m.reg src) }
  | .storeA src a => { m with mem := store32 m.mem a (m.reg src) }
  | .addI w r => m.setReg r (m.reg r + w)
  | .neg r => m.setReg r (-m.reg r)
  | .call target ra => { m.push ra with eip := target }
  | .ret => { m.pop.2 with eip := m.pop.1 }
  | .sti => { m with eflags := m.eflags ||| interruptFlag }
  | .iret =>
    let saved (d : Word) := load32 m.mem (m.reg .esp + d)
    let m' := ((m.setSeg .cs (saved 4)).setSeg .ss (saved 16)).setReg .esp (saved 12)
    { m' with eip := saved 0, eflags := saved 8 }
  | .sysexit cs =>
    let m' := (m.setSeg .cs ((cs + 16) ||| 3)).setSeg .ss ((cs + 24) ||| 3)
    { m'.setReg .esp (m.reg .ecx) with eip := m.reg .edx }

/-- Execute a list of instructions. -/
def exec (is : List Instr) (m : Machine) : Machine := is.foldl step m

@[simp] theorem exec_nil (m : Machine) : exec [] m = m := rfl

@[simp] theorem exec_cons (i : Instr) (is : List Instr) (m : Machine) :
    exec (i :: is) m = exec is (step m i) := rfl

theorem exec_append (is js : List Instr) (m : Machine) :
    exec (is ++ js) m = exec js (exec is m) := List.foldl_append

/-! ### Entering the kernel -/

namespace Machine

variable (m : Machine)

/-- An interrupt in user mode, through an interrupt gate: the processor changes to
the stack of the kernel and saves there where the program was. -/
def interrupt (ss esp cs eip : Word) : Machine :=
  let m' := ((m.setSeg .ss ss).setSeg .cs cs).setReg .esp esp
  { [m.seg .ss, m.reg .esp, m.eflags, m.seg .cs, m.eip].foldl push m' with
    eip := eip
    eflags := m.eflags &&& ~~~interruptFlag }

/-- `sysenter`: the processor changes to the stack of the kernel, and saves
nothing. -/
def sysenter (cs esp eip : Word) : Machine :=
  let m' := ((m.setSeg .cs cs).setSeg .ss (cs + 8)).setReg .esp esp
  { m' with eip := eip, eflags := m.eflags &&& ~~~interruptFlag }

end Machine

/-! ### The stack as a list of words -/

namespace Machine

variable {m : Machine} {w : Word} {ws : List Word} {r : Reg} {s : Seg}

@[simp] theorem setReg_reg_self : (m.setReg r w).reg r = w := by simp [setReg]

theorem setReg_reg_of_ne {r' : Reg} (h : r' ≠ r) : (m.setReg r w).reg r' = m.reg r' := by
  simp [setReg, h]

@[simp] theorem setReg_mem : (m.setReg r w).mem = m.mem := rfl

@[simp] theorem setReg_seg : (m.setReg r w).seg = m.seg := rfl

@[simp] theorem setReg_eip : (m.setReg r w).eip = m.eip := rfl

@[simp] theorem setSeg_reg : (m.setSeg s w).reg = m.reg := rfl

@[simp] theorem setSeg_mem : (m.setSeg s w).mem = m.mem := rfl

@[simp] theorem push_esp : (m.push w).reg .esp = m.reg .esp - 4 := by simp [push, setReg]

theorem push_reg_of_ne (h : r ≠ .esp) : (m.push w).reg r = m.reg r := by simp [push, setReg, h]

@[simp] theorem push_seg : (m.push w).seg = m.seg := rfl

@[simp] theorem push_eip : (m.push w).eip = m.eip := rfl

@[simp] theorem push_eflags : (m.push w).eflags = m.eflags := rfl

/-- **Pushing puts the word in front of what is on the stack.** -/
theorem words_push (hw : Words m.mem (m.reg .esp) ws) (hlen : 4 * ws.length + 4 ≤ 2 ^ 32) :
    Words (m.push w).mem ((m.push w).reg .esp) (w :: ws) := by
  rw [push_esp]
  exact hw.push hlen

end Machine

/-! ### What has been pushed -/

/-- The memories differ at most in the `n` bytes below `a`. -/
def OnlyBelow (a : Word) (n : Nat) (m m' : Mem) : Prop :=
  ∀ x, n ≤ (x - (a - BitVec.ofNat 32 n)).toNat → m' x = m x

theorem OnlyBelow.refl (a : Word) (m : Mem) : OnlyBelow a 0 m m := fun _ _ => rfl

/-- More bytes may differ. -/
theorem OnlyBelow.mono {a : Word} {n n' : Nat} {m m' : Mem} (h : OnlyBelow a n m m')
    (hle : n ≤ n') : OnlyBelow a n' m m' :=
  fun x hx => h x (by bv_omega)

/-- One more word pushed below what was already written. -/
theorem OnlyBelow.store32 {a w : Word} {n : Nat} {m m' : Mem} (h : OnlyBelow a n m m')
    (hn : n + 4 < 2 ^ 32) :
    OnlyBelow a (n + 4) m (store32 m' (a - BitVec.ofNat 32 n - 4) w) := by
  intro x hx
  rw [store32_of_le (by bv_omega)]
  exact h x (by bv_omega)

/-- **The words of `ws` have been pushed**, the last one first in the list, since
the stack pointer was `a` and memory was `m₀`, and nothing else has been
written. -/
structure Pushed (m₀ : Mem) (a : Word) (ws : List Word) (m : Machine) : Prop where
  /-- The stack pointer. -/
  esp : m.reg .esp = a - BitVec.ofNat 32 (4 * ws.length)
  /-- What is on the stack. -/
  words : Words m.mem (m.reg .esp) ws
  /-- Memory outside the words. -/
  below : OnlyBelow a (4 * ws.length) m₀ m.mem

namespace Pushed

variable {m₀ : Mem} {a w : Word} {ws vs : List Word} {m m' : Machine}

theorem nil (h : m.reg .esp = a) (hm : m.mem = m₀) : Pushed m₀ a [] m where
  esp := by simp [h]
  words := trivial
  below := by
    rw [hm]
    exact OnlyBelow.refl a m₀

/-- **Pushing one more word.** -/
theorem push (h : Pushed m₀ a ws m) (w : Word) (hlen : 4 * ws.length + 4 < 2 ^ 32) :
    Pushed m₀ a (w :: ws) (m.push w) where
  esp := by
    rw [Machine.push_esp, h.esp, List.length_cons]
    bv_omega
  words := Machine.words_push h.words (by omega)
  below := by
    have hmem : (m.push w).mem =
        ByteMem.store32 m.mem (a - BitVec.ofNat 32 (4 * ws.length) - 4) w := by
      rw [Machine.push, h.esp]
    rw [hmem, List.length_cons, Nat.mul_add]
    exact h.below.store32 hlen

/-- Only the stack pointer and memory matter. -/
theorem congr (h : Pushed m₀ a ws m) (he : m'.reg .esp = m.reg .esp) (hm : m'.mem = m.mem) :
    Pushed m₀ a ws m' where
  esp := he.trans h.esp
  words := by
    rw [he, hm]
    exact h.words
  below := hm ▸ h.below

/-- Pushing a list of words. -/
theorem foldl_push (h : Pushed m₀ a ws m) (vs : List Word)
    (hlen : 4 * (vs.length + ws.length) < 2 ^ 32) :
    Pushed m₀ a (vs.reverse ++ ws) (vs.foldl Machine.push m) := by
  induction vs generalizing ws m with
  | nil => exact h
  | cons v vs ih =>
    rw [List.length_cons] at hlen
    have := ih (h.push v (by omega)) (by rw [List.length_cons]; omega)
    rw [List.foldl_cons, List.reverse_cons, List.append_assoc, List.singleton_append]
    exact this

/-- The words pushed first are where they were put. -/
theorem words_right (h : Pushed m₀ a (ws ++ vs) m) :
    Words m.mem (a - BitVec.ofNat 32 (4 * vs.length)) vs := by
  have hw := (words_append.mp h.words).2
  rw [h.esp, List.length_append] at hw
  have : a - BitVec.ofNat 32 (4 * (ws.length + vs.length)) + BitVec.ofNat 32 (4 * ws.length) =
      a - BitVec.ofNat 32 (4 * vs.length) := by bv_omega
  rw [this] at hw
  exact hw

end Pushed

/-! ### Unwinding the stack -/

/-- The number of words that the instruction takes off the stack, if it is one that
does nothing else to the stack pointer. -/
def Instr.unwinds : Instr → Option Nat
  | .popR r => if r = .esp then none else some 1
  | .popS _ => some 1
  | .load _ _ dst => if dst = .esp then none else some 0
  | .store _ _ _ => some 0
  | .sti => some 0
  | _ => none

theorem step_unwinds {i : Instr} {n : Nat} {m : Machine} (h : i.unwinds = some n) :
    (step m i).reg .esp = m.reg .esp + BitVec.ofNat 32 (4 * n) := by
  have hz : ∀ w : Word, w + BitVec.ofNat 32 (4 * 0) = w := fun w => by bv_omega
  cases i with
  | popR r =>
    simp only [Instr.unwinds] at h
    split at h
    · exact absurd h (by simp)
    · next hr =>
      obtain rfl := Option.some.inj h
      rw [step, Machine.setReg_reg_of_ne (Ne.symm hr), Machine.pop]
      exact Machine.setReg_reg_self
  | popS s =>
    obtain rfl := Option.some.inj h
    rw [step, Machine.setSeg_reg, Machine.pop]
    exact Machine.setReg_reg_self
  | load d b dst =>
    simp only [Instr.unwinds] at h
    split at h
    · exact absurd h (by simp)
    · next hr =>
      obtain rfl := Option.some.inj h
      rw [step, Machine.setReg_reg_of_ne (Ne.symm hr), hz]
  | store src d b =>
    obtain rfl := Option.some.inj h
    exact (hz _).symm
  | sti =>
    obtain rfl := Option.some.inj h
    exact (hz _).symm
  | _ => exact absurd h (by simp [Instr.unwinds])

/-- **Unwinding moves the stack pointer up**, by a word for every pop. -/
theorem exec_unwinds {is : List Instr} {m : Machine} (h : ∀ i ∈ is, i.unwinds.isSome) :
    (exec is m).reg .esp =
      m.reg .esp + BitVec.ofNat 32 (4 * (is.map fun i => i.unwinds.getD 0).sum) := by
  induction is generalizing m with
  | nil =>
    simp only [exec_nil, List.map_nil, List.sum_nil]
    bv_omega
  | cons i is ih =>
    obtain ⟨n, hn⟩ := Option.isSome_iff_exists.mp (h i (List.mem_cons_self ..))
    rw [exec_cons, ih fun j hj => h j (List.mem_cons_of_mem i hj), step_unwinds hn,
      List.map_cons, List.sum_cons, hn, Option.getD_some]
    bv_omega

/-- Pushing leaves the other registers alone. -/
theorem foldl_push_reg {r : Reg} (h : r ≠ .esp) (vs : List Word) (m : Machine) :
    (vs.foldl Machine.push m).reg r = m.reg r := by
  induction vs generalizing m with
  | nil => rfl
  | cons v vs ih => exact (ih _).trans (Machine.push_reg_of_ne h)

/-! ### Division -/

section Division

variable {d high low : Word}

/-- `divl`, with `high` in `%edx` and `low` in `%eax`: the quotient and the remainder, or
nothing where the processor raises a divide error, because the divisor is zero or the
quotient too large for a word. -/
def divl (d high low : Word) : Option (Word × Word) :=
  let n := high.toNat * 2 ^ 32 + low.toNat
  if d = 0 ∨ 2 ^ 32 ≤ n / d.toNat then none
  else some (BitVec.ofNat 32 (n / d.toNat), BitVec.ofNat 32 (n % d.toNat))

/-- **`divl` divides if the high word is smaller than the divisor.** -/
theorem divl_of_lt (h : high < d)
    (hq : (high.toNat * 2 ^ 32 + low.toNat) / d.toNat < 2 ^ 32) :
    divl d high low = some (BitVec.ofNat 32 ((high.toNat * 2 ^ 32 + low.toNat) / d.toNat),
      BitVec.ofNat 32 ((high.toNat * 2 ^ 32 + low.toNat) % d.toNat)) := by
  have hd : d ≠ 0 := by
    rintro rfl
    exact absurd h (by simp)
  exact if_neg (not_or.mpr ⟨hd, Nat.not_le.mpr hq⟩)

end Division

end X86
