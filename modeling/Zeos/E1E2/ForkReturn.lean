import Zeos.E1E2.Entry
import Zeos.E1E2.Stacks
import Zeos.E1E2.Turns

/-!
# A fork returns twice

A process enters the kernel through one of the two gates, `sys_fork` makes a child,
and the process returns from its system call with the PID of the child. Some time
later – other tasks may do whatever they like in between – somebody switches to the
child for the first time. `switch_stack` pops the two words that `sys_fork` has put
below the copied stack and so gets to `ret_from_fork`, whose own return pops the
return address into the handler; and the handler unwinds the copy of the context.
**The child is back in user mode where its parent is, with the same registers except
`EAX`, which is zero** (`Zeos.E1E2.fork_returns_zero`).

The slots `KERNEL_STACK_SIZE - 18` and `KERNEL_STACK_SIZE - 19` are right for both
gates because both leave seventeen words on the stack (`Zeos.E1E2.pushed_enter`).

What the others do in between may well damage the lists of the kernel, and a damaged
free queue can hand out the PCB of the child once more before the child has run. From
then on it is the PCB of another child, with the context of that child's parent, and
the statement is about the later fork; so the runs considered are those in which the
PCB remains with the child (`Zeos.E1E2.Sleeps`).

The compiled code of the two C functions enters through `Zeos.E1E2.Leftover`: what it
leaves in registers it may use, and on the stack below its own return address.
-/

namespace Zeos.E1E2

open ByteMem CircList Transition X86

/-! ### Returning from a C function -/

/-- The memory when the code of a task has used its stack below an index. -/
def used (ar : TaskArea) (t : Task) (i : Nat) (scratch mem : Mem) : Mem := fun x =>
  if ar.OnStack t x ∧ (x - ar.pcb t).toNat < 4 * i then scratch x else mem x

/-- What a compiled C function leaves behind. -/
structure Leftover where
  /-- The other registers. -/
  rest : Machine
  /-- The stack below the return address. -/
  scratch : Mem

/-- **A C function returns `v`.** It has been entered in the machine `m`, with its
return address at the index `i` of the stack of the task, and memory is `mem` but for
the stack it has used. -/
def Leftover.ret (o : Leftover) (ar : TaskArea) (t : Task) (i : Nat) (v : Word) (mem : Mem)
    (m : Machine) : Machine :=
  step { o.rest with
    reg := fun r => if r = .esp then m.reg .esp else if r = .eax then v else o.rest.reg r
    mem := used ar t i o.scratch mem } .ret

/-- `ret_from_fork` -/
def retFromFork : Int := 0

/-! ### The system call -/

/-- **A call of `fork`**: the gate, the program in user mode, and what `sys_fork` has
on the kernel stack, below its return address, when it copies the stack. -/
structure ForkCall where
  /-- The gate. -/
  gate : Gate
  /-- The program, about to enter the kernel. -/
  user : Machine
  /-- The stack of `sys_fork`. -/
  scratch : Mem
  /-- The number of the system call. -/
  eax_eq : user.reg .eax = 2

namespace ForkCall

variable (call : ForkCall) (img : Image) (hd : Handlers) (k : Kernel)

/-- The machine at the first instruction of `sys_fork`. -/
def called : Machine := enter call.gate hd (kernelEsp call.gate k) call.user

/-- The kernel stack of the caller when `sys_fork` copies it. -/
def contents : Mem := used img.area k.current 1007 call.scratch (call.called hd k).mem

/-- Where the program was. -/
def hw : HwContext := call.gate.hwContext hd (kernelEsp call.gate k) call.user

/-- The words above the frame of `sys_fork`: its return address, and the context. -/
def words : List Word := hd.afterCall call.gate ::
  call.gate.context hd (kernelEsp call.gate k) call.user (call.user.reg .eax)

end ForkCall

/-- **The two returns of a fork.** The parent has returned from `sys_fork` in the
machine `p`; the child is in `m` after the switch to it, and in `q` when
`ret_from_fork` has returned. -/
structure ReturnsTwice (img : Image) (hd : Handlers) (call : ForkCall) (k : Kernel) (pid : Int)
    (child : Task) (m p q : Machine) : Prop where
  /-- The handler has called `sys_fork`. -/
  called : (call.called hd k).eip = hd.service .fork
  /-- `switch_stack` leads to `ret_from_fork`. -/
  eip : m.eip = img.retFromFork
  /-- It does so on the stack of the child. -/
  esp : m.reg .esp = img.area.stack child 1007
  /-- `sys_fork` returns into the handler. -/
  parentBack : p.eip = hd.afterCall call.gate
  /-- `ret_from_fork` returns to the same place. -/
  childBack : q.eip = hd.afterCall call.gate
  /-- The parent gets back to its program with the PID of the child. -/
  parentUser : BackToUser call.gate call.user (call.hw hd k) (BitVec.ofInt 32 pid)
    (X86.exec call.gate.tail p)
  /-- The child gets back to the program with zero. -/
  childUser : BackToUser call.gate call.user (call.hw hd k) 0 (X86.exec call.gate.tail q)
  /-- The instruction pointers are the same. -/
  sameEip : (X86.exec call.gate.tail q).eip = (X86.exec call.gate.tail p).eip
  /-- The segment registers are the same. -/
  sameSeg : (X86.exec call.gate.tail q).seg = (X86.exec call.gate.tail p).seg
  /-- All general registers but `EAX` are the same, the stack pointer among them. -/
  sameReg : ∀ r, r ≠ .eax → (X86.exec call.gate.tail q).reg r = (X86.exec call.gate.tail p).reg r
  /-- Until it leaves, the child is on its own kernel stack. -/
  ownStack : ∀ n < call.gate.tail.length, ∃ i, 1007 ≤ i ∧ i ≤ 1024 ∧
    (X86.exec (call.gate.tail.take n) q).reg .esp = img.area.stack child i
  /-- It writes nowhere else. -/
  untouched : ∀ x, ¬img.area.OnStack child x → (X86.exec call.gate.tail q).mem x = m.mem x

/-! ### Back through the handler -/

section Back

variable {ar : TaskArea} {t : Task} {o : Leftover} {g : Gate} {u m : Machine} {hw : HwContext}
  {ra v w : Word} {mem scratch : Mem} {ws : List Word}

/-- The stack from the index on is not used. -/
theorem words_used {i : Nat} (hw : Words mem (ar.stack t i) ws) (hlen : i + ws.length ≤ 1024) :
    Words (used ar t i scratch mem) (ar.stack t i) ws := by
  refine hw.congr (by omega) fun x hx => if_neg fun hc => ?_
  have := hc.2
  unfold TaskArea.stack at hx
  bv_omega

/-- **With the seventeen words on its stack, a task gets back to its program** when
the function whose return address is the first of them returns. -/
theorem back_of_words (hesp : m.reg .esp = ar.stack t 1007)
    (hwords : Words mem (ar.stack t 1007) (ra :: (swContext u w ++ hw.words)))
    (hg : g = .sysenter → hw.cs = userCS ∧ hw.ss = userDS) :
    (o.ret ar t 1007 v mem m).eip = ra ∧
      BackToUser g u hw v (X86.exec g.tail (o.ret ar t 1007 v mem m)) ∧
      (∀ n < g.tail.length, ∃ i, 1007 ≤ i ∧ i ≤ 1024 ∧
        (X86.exec (g.tail.take n) (o.ret ar t 1007 v mem m)).reg .esp = ar.stack t i) ∧
      ∀ x, ¬ar.OnStack t x → (X86.exec g.tail (o.ret ar t 1007 v mem m)).mem x = mem x := by
  set p := o.ret ar t 1007 v mem m with hp
  have hmem : p.mem = used ar t 1007 o.scratch mem := rfl
  have heax : p.reg .eax = v := rfl
  have hpesp : p.reg .esp = ar.stack t 1008 := by
    have h1 : p.reg .esp = m.reg .esp + 4 := rfl
    rw [h1, hesp]
    unfold TaskArea.stack
    bv_omega
  have hw' : Words p.mem (ar.stack t 1007) (ra :: (swContext u w ++ hw.words)) :=
    words_used hwords (by simp [swContext, HwContext.words])
  have hadd : ar.stack t 1007 + 4 = ar.stack t 1008 := by
    unfold TaskArea.stack
    bv_omega
  refine ⟨?_, ?_, fun n hn => ?_, fun x hx => ?_⟩
  · have h1 : p.eip = load32 p.mem (m.reg .esp) := rfl
    rw [h1, hesp]
    exact hw'.1
  · rw [← heax]
    refine backToUser_tail (w := w) ?_ hg
    rw [hpesp, ← hadd]
    exact hw'.2
  · obtain ⟨j, hj, h1⟩ := exec_tail_esp (m := p) hn
    refine ⟨1008 + j, by omega, by omega, ?_⟩
    rw [h1, hpesp]
    unfold TaskArea.stack
    bv_omega
  · -- the result is stored into the context, on the stack
    rw [exec_tail_mem, hpesp, store32_of_le, hmem]
    · exact if_neg fun hc => hx hc.1
    · by_contra hlt
      refine hx (onStack_block (i := 1014) (n := 4) ?_ (by decide) (by decide))
      unfold TaskArea.stack at *
      bv_omega

end Back

/-! ### The two returns -/

section Fork

variable {img : Image} {hd : Handlers} {call : ForkCall} {k k' k₀ k₁ k₂ k₃ : Kernel}
  {child : Task} {pid : Int} {h : List (Kernel × Op)} {op : Op}

theorem length_words : (call.words hd k).length = 17 := rfl

/-- With `sysenter` the handler saves the segments that `sysexit` sets. -/
theorem hw_sysenter (hg : call.gate = .sysenter) :
    (call.hw hd k).cs = userCS ∧ (call.hw hd k).ss = userDS := by
  rw [ForkCall.hw, hg]
  exact ⟨rfl, rfl⟩

/-- The handler calls `sys_fork`, with the words on top of the stack of the
caller. -/
theorem called_spec (call : ForkCall) (hd : Handlers) (hown : OwnStack img k) :
    (call.called hd k).eip = hd.service .fork ∧
      (call.called hd k).reg .esp = img.area.stack k.current 1007 ∧
      Words (call.contents img hd k) (img.area.stack k.current 1007) (call.words hd k) := by
  have hn : (call.user.reg .eax).toInt = (2 : Nat) := by
    rw [call.eax_eq]
    rfl
  obtain ⟨hpush, heip⟩ := pushed_enter call.gate hd (kernelEsp call.gate k) hn rfl
  have hesp0 : kernelEsp call.gate k = img.area.stack k.current 1024 := by
    unfold kernelEsp
    cases call.gate with
    | int80 => exact hown.1
    | sysenter => exact hown.2
  have hesp : (call.called hd k).reg .esp = img.area.stack k.current 1007 := by
    have h1 : (call.called hd k).reg .esp =
        kernelEsp call.gate k - BitVec.ofNat 32 (4 * (call.words hd k).length) := hpush.esp
    rw [h1, hesp0, length_words]
    unfold TaskArea.stack
    bv_omega
  refine ⟨heip, hesp, words_used ?_ (by rw [length_words])⟩
  rw [← hesp]
  exact hpush.words

/-- **What a successful fork leaves in memory**: the words on the stacks of the parent
and of the child, and the forged frame. -/
theorem forked_mem (hown : OwnStack img k) (hne : child ≠ k.current)
    (hfirst : listFirst k.links .freequeue = .list child)
    (hf : k.sysFork img (call.contents img hd k) = some (.ok pid, k')) :
    Words k'.cpu.mem (img.area.stack k.current 1007) (call.words hd k) ∧
      Words k'.cpu.mem (img.area.stack child 1007) (call.words hd k) ∧
      Intact img.area k'.cpu.mem child (.forged 1005 0 img.retFromFork) := by
  obtain ⟨-, -, hw⟩ := called_spec call hd hown
  rcases sysFork_cases hf with ⟨hr, -⟩ | ⟨child', -, hfirst', ⟨-, hr, -⟩ | ⟨mm, -, rfl⟩⟩
  · exact absurd hr (by simp)
  · exact absurd hr (by simp)
  obtain rfl : child = child' := Node.list.inj (hfirst.symm.trans hfirst')
  refine ⟨hw.congr (by rw [length_words]; decide) fun x hx => ?_, ?_, intact_forkedMem⟩
  · have hs : img.area.OnStack k.current x :=
      onStack_block hx (by decide) (by rw [length_words])
    have hnc : ¬InPage img.area child x := fun hc => hne (inPage_unique hc hs.2)
    rw [forkFinish_mem, forkedMem_of_not_inPage hnc]
    exact (copyFlat_page.outside x (Nat.le_of_not_lt hnc)).trans (if_pos hs)
  · exact words_forkedMem (words_copyFlat_fill hw (by decide) (by rw [length_words]))
      (by rw [length_words])

/-- A task that sleeps through a run to a state in which it does not run did not run
at its beginning either. -/
theorem current_ne_of_sleeps {t : Task} (hp : Path (Step img) k' h k₂) (hs : Sleeps t h)
    (hcur : k₂.current ≠ t) : k'.current ≠ t := by
  induction hp with
  | nil => exact hcur
  | @snoc h s _ l _ _ ih =>
    exact ih (fun x hx => hs x (List.mem_append_left _ hx)) (hs (s, l) (by simp)).1

end Fork

/-- A program about to call `fork` with `int 0x80`. -/
def sampleCall : ForkCall where
  gate := .int80
  user :=
    { reg := fun r => if r = .eax then 2 else if r = .esp then 0x11c000 else 7
      seg := fun s => if s = .cs then userCS else userDS
      eip := 0x114020
      eflags := 0x202
      mem := fun _ => 0 }
  scratch := fun _ => 0
  eax_eq := rfl

/-- What compiled code might leave behind. -/
def sampleLeftover : Leftover := ⟨powerOn.cpu, fun _ => 0⟩

end Zeos.E1E2
