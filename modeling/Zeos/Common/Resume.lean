import Zeos.Common.Switch

/-!
# What a context switch does

A task that is not running has left a *continuation* behind: the frame of its own
call of `task_switch`, or a frame that somebody has forged for it on a stack it
has never used. A continuation is intact (`Zeos.Intact`) when the PCB holds its
address and the stack holds its words. `task_switch` makes the continuation of the
task it switches away from (`Zeos.taskSwitch_intact_self`), leaves that of every
other task alone (`Zeos.taskSwitch_intact`), and continues where the one of the
task it switches to says (`Zeos.taskSwitch_continues`).

All of this supposes that the two tasks are different. When they are the same,
the stack pointer that is loaded is not the one that has just been stored:
`inner_task_switch` has read it before (`Zeos.loadedEsp_eq`), and the task
continues properly only if the stale value happens to be right
(`Zeos.taskSwitch_continues_self`).
-/

namespace Zeos

open ByteMem X86

variable {N : Nat}

/-! ### Addresses -/

section Addresses

variable {ar : TaskArea N} {t u : Fin N} {x y : Word}

theorem pcb_toNat (ar : TaskArea N) (t : Fin N) : (ar.pcb t).toNat = ar.base.toNat + 4096 * t := by
  have h1 := ar.base_le
  have h2 := t.isLt
  have h3 : 4096 * (t : Nat) < 2 ^ 32 := by omega
  rw [TaskArea.pcb, BitVec.toNat_add, BitVec.toNat_ofNat, Nat.mod_eq_of_lt h3]
  exact Nat.mod_eq_of_lt (by omega)

/-- The address belongs to the page of the task. -/
def InPage (ar : TaskArea N) (t : Fin N) (x : Word) : Prop := (x - ar.pcb t).toNat < 4096

/-- The memories agree on the page of the task. -/
def SamePage (ar : TaskArea N) (t : Fin N) (m m' : Mem) : Prop := ∀ x, InPage ar t x → m' x = m x

/-- Pages are disjoint. -/
theorem inPage_unique (ht : InPage ar t x) (hu : InPage ar u x) : t = u := by
  have h1 := ar.base_le
  have h2 := t.isLt
  have h3 := u.isLt
  have h4 := pcb_toNat ar t
  have h5 := pcb_toNat ar u
  unfold InPage at ht hu
  have h6 : x.toNat = (ar.pcb t).toNat + (x - ar.pcb t).toNat := by bv_omega
  have h7 : x.toNat = (ar.pcb u).toNat + (x - ar.pcb u).toNat := by bv_omega
  apply Fin.ext
  omega

/-- The bytes of the saved stack pointer are in the page, below the stack. -/
theorem inPage_espAddr (h : (x - ar.espAddr t).toNat < 4) : InPage ar t x ∧ ¬ar.OnStack t x := by
  have h1 := ar.espField_le
  unfold pcbBytes at h1
  unfold InPage TaskArea.OnStack TaskArea.espAddr pcbBytes at *
  constructor <;> bv_omega

/-- A block of the stack is on the stack. -/
theorem onStack_block {i n : Nat} (h : (x - ar.stack t i).toNat < n) (hi : pcbBytes ≤ 4 * i)
    (hn : 4 * i + n ≤ 4096) : ar.OnStack t x := by
  unfold TaskArea.OnStack TaskArea.stack pcbBytes at *
  constructor <;> bv_omega

/-- What is pushed on the stack of a task changes its stack only. -/
theorem onlyBelow_of_not_onStack {i n : Nat} {m m' : Mem} (h : OnlyBelow (ar.stack t i) n m m')
    (hi : i ≤ 1024) (hn : n + pcbBytes ≤ 4 * i) (hx : ¬ar.OnStack t x) : m' x = m x := by
  refine h x ?_
  unfold TaskArea.OnStack TaskArea.stack pcbBytes at *
  by_contra hlt
  exact hx (by constructor <;> bv_omega)

/-- A word of the stack does not meet the saved stack pointer. -/
theorem apart_espAddr {i : Nat} (h1 : pcbBytes ≤ 4 * i) (h2 : i ≤ 1023) :
    Apart (ar.stack t i) (ar.espAddr t) := by
  have := ar.espField_le
  unfold Apart TaskArea.stack TaskArea.espAddr pcbBytes at *
  constructor <;> bv_omega

/-- Copying a PCB with its stack. -/
theorem copyFlat_page {mem : Mem} :
    FlatCopied mem (ar.pcb t) (ar.pcb u) 4096 (copyFlat (ar.pcb t) (ar.pcb u) 4096 mem) := by
  have h1 := ar.base_le
  have h2 := pcb_toNat ar t
  have h3 := pcb_toNat ar u
  have h4 := t.isLt
  have h5 := u.isLt
  exact @copyFlat_spec mem (ar.pcb t) (ar.pcb u) 4096 (by decide) (by omega) (by omega) (by omega)

/-- **Filling in a stack and copying the page leaves the pages of all other tasks
alone.** -/
theorem samePage_copyFlat_fill {mem contents : Mem} {v : Fin N} (ht : v ≠ t) (hu : v ≠ u) :
    SamePage ar v mem (copyFlat (ar.pcb t) (ar.pcb u) 4096 (ar.fill t contents mem)) := by
  intro w hw
  have hwu : ¬InPage ar u w := fun h => hu (inPage_unique hw h)
  rw [copyFlat_page.outside w (Nat.le_of_not_lt hwu)]
  exact if_neg fun hs => ht (inPage_unique hw hs.2)

/-- The copy has the words of the stack that has been filled in. -/
theorem words_copyFlat_fill {mem contents : Mem} {i : Nat} {ws : List Word}
    (hw : Words contents (ar.stack t i) ws) (hi : pcbBytes ≤ 4 * i)
    (hlen : i + ws.length ≤ 1024) :
    Words (copyFlat (ar.pcb t) (ar.pcb u) 4096 (ar.fill t contents mem)) (ar.stack u i) ws := by
  refine hw.copy fun j hj => ?_
  have e : ∀ x, ar.stack x i + BitVec.ofNat 32 j = ar.pcb x + BitVec.ofNat 32 (4 * i + j) := by
    intro x
    unfold TaskArea.stack
    bv_omega
  rw [e u, copyFlat_page.copied _ (by omega), ← e t]
  refine if_pos (onStack_block (i := i) (n := 4 * ws.length) ?_ hi (by omega))
  bv_omega

end Addresses

/-! ### Up to the exchange of the stacks -/

section Before

variable {m₀ : Mem} {a : Word} {ws : List Word}

/-- `task_switch` saves the registers, passes its argument on and calls
`inner_task_switch`; its frame pointer is the stack pointer after the first
push. -/
theorem pushed_taskSwitchEntry {ar : TaskArea N} {m : Machine} {ret arg : Word}
    (h : Pushed m₀ a (ret :: arg :: ws) m) (hlen : 4 * ws.length + 64 < 2 ^ 32) :
    Pushed m₀ a (ar.afterInner :: arg :: m.reg .ebx :: m.reg .edi :: m.reg .esi :: m.reg .ebp ::
        ret :: arg :: ws) (exec (taskSwitchEntry ar) m) ∧
      (exec (taskSwitchEntry ar) m).reg .ebp = m.reg .esp - 4 := by
  -- the frame pointer of the caller, and the new one
  have h1 := h.push (m.reg .ebp) (by simp only [List.length_cons]; omega)
  set m₁ := (m.push (m.reg .ebp)).setReg .ebp (m.reg .esp - 4) with hm₁
  have h1' : Pushed m₀ a (m.reg .ebp :: ret :: arg :: ws) m₁ :=
    h1.congr (by rw [hm₁, Machine.setReg_reg_of_ne (by decide)]) rfl
  -- the other registers
  have h2 := ((h1'.push (m.reg .esi) (by simp only [List.length_cons]; omega)).push (m.reg .edi)
    (by simp only [List.length_cons]; omega)).push (m.reg .ebx)
    (by simp only [List.length_cons]; omega)
  set m₂ := ((m₁.push (m.reg .esi)).push (m.reg .edi)).push (m.reg .ebx) with hm₂
  have hebp : m₂.reg .ebp = m.reg .esp - 4 := by
    rw [hm₂, Machine.push_reg_of_ne (by decide), Machine.push_reg_of_ne (by decide),
      Machine.push_reg_of_ne (by decide), hm₁, Machine.setReg_reg_self]
  -- the argument, which is found above the return address
  have harg : load32 m₂.mem (m₂.reg .ebp + 8) = arg := by
    obtain ⟨-, -, -, -, -, hw, -⟩ := h2.words
    have hesp : m₂.reg .esp = m.reg .esp - 16 := by
      rw [h2.esp, h.esp]
      simp only [List.length_cons]
      bv_omega
    have haddr : m₂.reg .ebp + 8 = m₂.reg .esp + 4 + 4 + 4 + 4 + 4 := by
      rw [hebp, hesp]
      bv_omega
    rw [haddr]
    exact hw
  have h3 := (h2.push arg (by simp only [List.length_cons]; omega)).push ar.afterInner
    (by simp only [List.length_cons]; omega)
  have heq : exec (taskSwitchEntry ar) m =
      { (m₂.push arg).push ar.afterInner with eip := ar.innerTaskSwitch } := by
    rw [← harg]
    simp [taskSwitchEntry, step, hm₂, hm₁, Machine.push_reg_of_ne, Machine.setReg_reg_of_ne]
  rw [heq]
  refine ⟨h3.congr rfl rfl, ?_⟩
  change ((m₂.push arg).push ar.afterInner).reg .ebp = _
  rw [Machine.push_reg_of_ne (by decide), Machine.push_reg_of_ne (by decide), hebp]

/-- `inner_task_switch` sets up its own frame and uses what stack it needs. -/
theorem pushed_innerBody {c : SwitchCtx} {m : Machine} (h : Pushed m₀ a ws m)
    (hlen : 4 * ws.length + 128 < 2 ^ 32) :
    Pushed m₀ a (c.spill.reverse ++ m.reg .ebp :: ws) (innerBody c m) ∧
      (innerBody c m).reg .ebp = m.reg .esp - 4 := by
  have hsp := c.spill_le
  have h1 := h.push (m.reg .ebp) (by omega)
  set m₁ := exec [.pushR .ebp, .movR .esp .ebp] m with hm₁
  have he : m₁ = (m.push (m.reg .ebp)).setReg .ebp (m.reg .esp - 4) := by
    simp [hm₁, step]
  set m₂ : Machine := { m₁ with
    reg := fun r => if r = .esp ∨ r = .ebp then m₁.reg r else c.clobber r } with hm₂
  have h2 : Pushed m₀ a (m.reg .ebp :: ws) m₂ :=
    h1.congr (by simp [hm₂, he, Machine.setReg_reg_of_ne]) (by simp [hm₂, he])
  have heq : innerBody c m = c.spill.foldl Machine.push m₂ := rfl
  rw [heq]
  refine ⟨h2.foldl_push c.spill (by simp only [List.length_cons]; omega), ?_⟩
  rw [foldl_push_reg (by decide)]
  simp [hm₂, he]

variable (ar : TaskArea N) (c : SwitchCtx) (cur new : Fin N) (m : Machine)

/-- The machine when `inner_task_switch` is about to call `switch_stack`. -/
def beforeExchange : Machine :=
  innerBody c (exec (taskSwitchEntry ar)
    (exec [.pushI (ar.pcb new), .call ar.taskSwitch c.ret] (c.enter ar cur m)))

/-- The stack pointer `inner_task_switch` reads from the PCB of the new task. -/
def loadedEsp : Word := load32 (beforeExchange ar c cur new m).mem (ar.espAddr new)

/-- What has been pushed by then: the words of `inner_task_switch`, the frame, and
the argument of `task_switch`. -/
def pushedWords : List Word := c.spill.reverse ++ (c.frame ar cur new ++ [ar.pcb new])

variable {ar c cur new m}

theorem length_pushedWords : (pushedWords ar c cur new).length = c.spill.length + 9 := by
  simp [pushedWords, SwitchCtx.frame]

/-- **The state of the stack before the exchange**, and the frame pointer. -/
theorem pushed_beforeExchange :
    Pushed (ar.fill cur c.contents m.mem) (ar.stack cur c.sp) (pushedWords ar c cur new)
        (beforeExchange ar c cur new m) ∧
      (beforeExchange ar c cur new m).reg .ebp = c.framePtr ar cur := by
  have h0 : Pushed (ar.fill cur c.contents m.mem) (ar.stack cur c.sp) [] (c.enter ar cur m) :=
    Pushed.nil rfl rfl
  have h2 := (h0.push (ar.pcb new) (by simp)).push c.ret (by simp)
  set m₁ := exec [.pushI (ar.pcb new), .call ar.taskSwitch c.ret] (c.enter ar cur m) with hm₁
  have h2' : Pushed (ar.fill cur c.contents m.mem) (ar.stack cur c.sp) [c.ret, ar.pcb new] m₁ :=
    h2.congr rfl rfl
  have hregs : m₁.reg .ebx = c.ebx ∧ m₁.reg .edi = c.edi ∧ m₁.reg .esi = c.esi ∧
      m₁.reg .ebp = c.ebp := by
    simp [hm₁, step, Machine.push, Machine.setReg, SwitchCtx.enter]
  obtain ⟨h3, hebp3⟩ := @pushed_taskSwitchEntry _ _ _ _ ar _ _ _ h2' (by simp)
  obtain ⟨h4, hebp4⟩ := pushed_innerBody (c := c) h3 (by simp)
  obtain ⟨hbx, hdi, hsi, hbp⟩ := hregs
  have hebp : (exec (taskSwitchEntry ar) m₁).reg .ebp = ar.stack cur c.sp - 12 := by
    rw [hebp3, h2'.esp]
    simp only [List.length_cons, List.length_nil]
    bv_omega
  rw [hebp, hbx, hdi, hsi, hbp] at h4
  refine ⟨h4, ?_⟩
  rw [beforeExchange, ← hm₁, hebp4, h3.esp, SwitchCtx.framePtr]
  simp only [List.length_cons, List.length_nil]
  bv_omega

/-- Before the exchange, memory is as it was but for the stack of the outgoing
task. -/
theorem beforeExchange_mem {x : Word} (hx : ¬ar.OnStack cur x) :
    (beforeExchange ar c cur new m).mem x = m.mem x := by
  have hb := (@pushed_beforeExchange N ar c cur new m).1.below
  have h1 := c.room
  have h2 := c.spill_le
  rw [onlyBelow_of_not_onStack hb c.sp_le (by rw [length_pushedWords, pcbBytes]; omega) hx]
  exact if_neg hx

/-- **The stack pointer that is loaded is the one the PCB held before the call**,
also when the two tasks are the same. -/
theorem loadedEsp_eq : loadedEsp ar c cur new m = load32 m.mem (ar.espAddr new) := by
  refine load32_congr fun x hx => beforeExchange_mem fun hs => ?_
  obtain ⟨hp, hn⟩ := inPage_espAddr hx
  obtain rfl : cur = new := inPage_unique (Nat.lt_of_lt_of_le hs.2 (Nat.le_refl _)) hp
  exact hn hs

/-! ### The exchange -/

/-- What is known once `switch_stack` has returned, on the stack of the new
task. -/
structure Exchanged (ar : TaskArea N) (c : SwitchCtx) (cur new : Fin N) (m m' : Machine) :
    Prop where
  /-- Two words have been popped off the stack of the new task. -/
  esp : m'.reg .esp = loadedEsp ar c cur new m + 8
  /-- The frame pointer was the first of them. -/
  ebp : m'.reg .ebp = load32 m'.mem (loadedEsp ar c cur new m)
  /-- The return address was the second. -/
  eip : m'.eip = load32 m'.mem (loadedEsp ar c cur new m + 4)
  /-- The outgoing task has saved its frame pointer. -/
  saved : load32 m'.mem (ar.espAddr cur) = c.framePtr ar cur
  /-- The outgoing task has its frame on its stack. -/
  frame : Words m'.mem (c.framePtr ar cur) (c.frame ar cur new)
  /-- The pages of all other tasks are as they were. -/
  other : ∀ t, t ≠ cur → SamePage ar t m.mem m'.mem

/-- The frame of the outgoing task is on its stack. -/
theorem onStack_frame {x : Word} (h : (x - c.framePtr ar cur).toNat < 36) : ar.OnStack cur x := by
  have h1 := c.room
  have h2 := c.sp_le
  have heq : c.framePtr ar cur = ar.stack cur (c.sp - 9) := by
    unfold SwitchCtx.framePtr TaskArea.stack
    bv_omega
  rw [heq] at h
  exact onStack_block h (by unfold pcbBytes; omega) (by omega)

/-- Writing the saved stack pointer does not touch the stack. -/
theorem store_espAddr_of_onStack {mem : Mem} {w x : Word} (hx : ar.OnStack cur x) :
    store32 mem (ar.espAddr cur) w x = mem x := by
  refine store32_of_le ?_
  by_contra hlt
  exact (inPage_espAddr (by omega)).2 hx

/-- The machine at the first instruction of `switch_stack`. -/
def switchStackEntry (ar : TaskArea N) (c : SwitchCtx) (cur new : Fin N) (m : Machine) : Machine :=
  { ((((beforeExchange ar c cur new m).push (loadedEsp ar c cur new m)).push
      (ar.espAddr cur)).push ar.afterSwitch) with eip := ar.switchStack }

/-- The state of the stack there: the arguments of `switch_stack` and its return address
have been pushed. -/
theorem pushed_switchStackEntry :
    Pushed (ar.fill cur c.contents m.mem) (ar.stack cur c.sp)
        (ar.afterSwitch :: ar.espAddr cur :: loadedEsp ar c cur new m :: pushedWords ar c cur new)
        (switchStackEntry ar c cur new m) ∧
      (switchStackEntry ar c cur new m).reg .ebp = c.framePtr ar cur := by
  obtain ⟨hB, hebp⟩ := @pushed_beforeExchange N ar c cur new m
  have hspill := c.spill_le
  have hlen := @length_pushedWords N ar c cur new
  have hC := ((hB.push (loadedEsp ar c cur new m) (by omega)).push (ar.espAddr cur)
    (by simp only [List.length_cons]; omega)).push ar.afterSwitch
    (by simp only [List.length_cons]; omega)
  refine ⟨hC.congr rfl rfl, ?_⟩
  rw [switchStackEntry, Machine.push_reg_of_ne (by decide), Machine.push_reg_of_ne (by decide),
    Machine.push_reg_of_ne (by decide), hebp]

/-- **`switch_stack`**: the frame pointer is saved, the stack pointer is loaded, and two
words are popped off the new stack. -/
theorem switchStacks_eq :
    let mem' := store32 (switchStackEntry ar c cur new m).mem (ar.espAddr cur) (c.framePtr ar cur)
    (switchStacks ar c cur new m).mem = mem' ∧
      (switchStacks ar c cur new m).reg .esp = loadedEsp ar c cur new m + 8 ∧
      (switchStacks ar c cur new m).reg .ebp = load32 mem' (loadedEsp ar c cur new m) ∧
      (switchStacks ar c cur new m).eip = load32 mem' (loadedEsp ar c cur new m + 4) := by
  obtain ⟨hC, hebp⟩ := @pushed_switchStackEntry N ar c cur new m
  have hroom := c.room
  have hsp := c.sp_le
  have hspill := c.spill_le
  obtain ⟨-, hsave, hnew, -⟩ := hC.words
  -- the stack of the outgoing task reaches down to here
  have hesp : (switchStackEntry ar c cur new m).reg .esp =
      ar.stack cur (c.sp - (c.spill.length + 12)) := by
    rw [hC.esp]
    simp only [List.length_cons, length_pushedWords]
    unfold TaskArea.stack
    bv_omega
  set C := switchStackEntry ar c cur new m with hCdef
  set mem' := store32 C.mem (ar.espAddr cur) (c.framePtr ar cur) with hmem'
  have hnew' : load32 mem' (C.reg .esp + 8) = loadedEsp ar c cur new m := by
    have heq : C.reg .esp + 8 = C.reg .esp + 4 + 4 := by bv_omega
    rw [heq, ← hnew]
    refine load32_congr fun x hx => store_espAddr_of_onStack ?_
    refine onStack_block (i := c.sp - (c.spill.length + 12)) (n := 12) ?_
      (by unfold pcbBytes; omega) (by omega)
    rw [hesp] at hx
    bv_omega
  have heq : switchStacks ar c cur new m = exec switchStackCode C := rfl
  have hz : ar.espAddr cur + 0 = ar.espAddr cur := by bv_omega
  have h8 : loadedEsp ar c cur new m + 4 + 4 = loadedEsp ar c cur new m + 8 := by bv_omega
  rw [heq]
  simp only [switchStackCode, exec_cons, exec_nil, step, Machine.pop, Machine.setReg]
  simp only [Function.update_self, ne_eq, reduceCtorEq, not_false_eq_true,
    Function.update_of_ne, hsave, hz, hebp, ← hmem', hnew', h8, and_self]

/-- **Memory is as it was** but for the stack of the outgoing task and the saved stack
pointer in its PCB. -/
theorem switchStacks_mem {x : Word} (hs : ¬ar.OnStack cur x)
    (he : 4 ≤ (x - ar.espAddr cur).toNat) : (switchStacks ar c cur new m).mem x = m.mem x := by
  have hbelow := (@pushed_switchStackEntry N ar c cur new m).1.below
  have hroom := c.room
  have hspill := c.spill_le
  simp only [List.length_cons, length_pushedWords] at hbelow
  rw [(@switchStacks_eq N ar c cur new m).1, store32_of_le he,
    onlyBelow_of_not_onStack hbelow c.sp_le (by unfold pcbBytes; omega) hs]
  exact if_neg hs

/-- **The exchange of the stacks.** -/
theorem exchanged_switchStacks :
    Exchanged ar c cur new m (switchStacks ar c cur new m) := by
  obtain ⟨hC, -⟩ := @pushed_switchStackEntry N ar c cur new m
  obtain ⟨h1, h2, h3, h4⟩ := @switchStacks_eq N ar c cur new m
  refine ⟨h2, by rw [h1]; exact h3, by rw [h1]; exact h4, ?_, ?_, fun t ht x hx => ?_⟩
  · rw [h1]
    exact load32_store32 _ _ _
  · have hw : Words (switchStackEntry ar c cur new m).mem (c.framePtr ar cur)
        (c.frame ar cur new) := by
      have h5 : Pushed (ar.fill cur c.contents m.mem) (ar.stack cur c.sp)
          ((ar.afterSwitch :: ar.espAddr cur :: loadedEsp ar c cur new m :: c.spill.reverse) ++
            (c.frame ar cur new ++ [ar.pcb new])) (switchStackEntry ar c cur new m) := hC
      have h6 := h5.words_right
      rw [words_append] at h6
      have h7 : (c.frame ar cur new ++ [ar.pcb new]).length = 9 := rfl
      rw [h7] at h6
      exact h6.1
    rw [h1]
    refine hw.congr (by simp [SwitchCtx.frame]) fun x hx => store_espAddr_of_onStack ?_
    refine onStack_frame (c := c) ?_
    simp only [SwitchCtx.frame, List.length_cons, List.length_nil] at hx
    omega
  · refine switchStacks_mem (fun hs => ht (inPage_unique hx hs.2)) ?_
    by_contra hlt
    exact ht (inPage_unique hx (inPage_espAddr (by omega)).1)

/-- **The stack of the outgoing task is as it was at the call**, from the stack pointer at
the call, at which the argument is, up to its top. -/
theorem switchStacks_live {x : Word}
    (hx : (x - (ar.stack cur c.sp - 4)).toNat < 4096 - (4 * c.sp - 4)) :
    (switchStacks ar c cur new m).mem x =
      (exec [.pushI (ar.pcb new)] (c.enter ar cur m)).mem x := by
  obtain ⟨hC, -⟩ := @pushed_switchStackEntry N ar c cur new m
  have hroom := c.room
  have hsp := c.sp_le
  have hspill := c.spill_le
  have hs : ar.OnStack cur x := by
    unfold TaskArea.OnStack TaskArea.stack pcbBytes at *
    constructor <;> bv_omega
  rw [(@switchStacks_eq N ar c cur new m).1, store_espAddr_of_onStack hs]
  change _ = store32 (ar.fill cur c.contents m.mem) (ar.stack cur c.sp - 4) (ar.pcb new) x
  rcases Nat.lt_or_ge (x - (ar.stack cur c.sp - 4)).toNat 4 with hlt | hge
  · -- the argument itself
    refine eq_of_load32_eq ?_ hlt
    have h5 : Pushed (ar.fill cur c.contents m.mem) (ar.stack cur c.sp)
        ((ar.afterSwitch :: ar.espAddr cur :: loadedEsp ar c cur new m :: c.spill.reverse ++
          c.frame ar cur new) ++ [ar.pcb new]) (switchStackEntry ar c cur new m) := by
      rw [List.append_assoc]
      exact hC
    rw [load32_store32]
    exact h5.words_right.1
  · rw [store32_of_le hge]
    refine hC.below x ?_
    simp only [List.length_cons, length_pushedWords]
    unfold TaskArea.stack at *
    bv_omega

end Before

/-! ### Continuations -/

/-- Where a task that is not running will continue. -/
inductive Cont
  /-- After its own call of `task_switch`, made in the given context. -/
  | suspended (c : SwitchCtx)
  /-- At a frame forged on its stack: at the index `i` a frame pointer, and above
  it a return address. -/
  | forged (i : Nat) (ebp eip : Word)

/-- The stack pointer of a continuation: for a suspended task the frame pointer
that `switch_stack` has stored in the PCB. -/
def Cont.esp (ar : TaskArea N) (t : Fin N) : Cont → Word
  | .suspended c => c.framePtr ar t
  | .forged i _ _ => ar.stack t i

/-- **The continuation is intact**: the PCB holds its stack pointer, and the stack
its words. -/
def Intact (ar : TaskArea N) (m : Mem) (t : Fin N) (q : Cont) : Prop :=
  load32 m (ar.espAddr t) = q.esp ar t ∧
    match q with
    | .suspended c => ∃ new, Words m (c.framePtr ar t) (c.frame ar t new)
    | .forged i ebp eip => Words m (ar.stack t i) [ebp, eip] ∧ pcbBytes ≤ 4 * i ∧ i ≤ 1022 ∧
        eip ≠ ar.afterInner

/-- **The machine is where the continuation says**: a suspended task has returned
from `task_switch`, with the registers it had there; a forged frame has been popped
off the stack. -/
def Continues (ar : TaskArea N) (t : Fin N) (m : Machine) : Cont → Prop
  | .suspended c => m.eip = c.ret ∧ m.reg .esp = ar.stack t c.sp - 4 ∧ m.reg .ebp = c.ebp ∧
      m.reg .ebx = c.ebx ∧ m.reg .esi = c.esi ∧ m.reg .edi = c.edi
  | .forged i ebp eip => m.eip = eip ∧ m.reg .esp = ar.stack t i + 8 ∧ m.reg .ebp = ebp

section Cont

variable {ar : TaskArea N} {c : SwitchCtx} {cur new t : Fin N} {m : Machine} {q : Cont}

/-- The memories agree on what makes the continuation of the task: its kernel stack, and
the saved stack pointer in its PCB. -/
def SameContext (ar : TaskArea N) (t : Fin N) (mem mem' : Mem) : Prop :=
  ∀ x, ar.OnStack t x ∨ (x - ar.espAddr t).toNat < 4 → mem' x = mem x

theorem SamePage.sameContext {mem mem' : Mem} (h : SamePage ar t mem mem') :
    SameContext ar t mem mem' := by
  rintro x (hs | hx)
  · exact h x hs.2
  · exact h x (inPage_espAddr hx).1

/-- A continuation is intact as long as the stack and the saved stack pointer are. -/
theorem Intact.of_sameContext {mem mem' : Mem} (h : Intact ar mem t q)
    (hs : SameContext ar t mem mem') : Intact ar mem' t q := by
  obtain ⟨h1, h2⟩ := h
  refine ⟨(load32_congr fun x hx => hs x (Or.inr hx)).trans h1, ?_⟩
  cases q with
  | suspended c =>
    obtain ⟨new, hw⟩ := h2
    refine ⟨new, hw.congr (by simp [SwitchCtx.frame]) fun x hx =>
      hs x (Or.inl (onStack_frame (c := c) ?_))⟩
    simp only [SwitchCtx.frame, List.length_cons, List.length_nil] at hx
    omega
  | forged i ebp eip =>
    obtain ⟨hw, h3, h4, h5⟩ := h2
    refine ⟨hw.congr (by simp) fun x hx => hs x (Or.inl (onStack_block hx h3 ?_)), h3, h4, h5⟩
    simp only [List.length_cons, List.length_nil]
    omega

/-- A continuation is intact as long as the page of the task is. -/
theorem Intact.congr {mem mem' : Mem} (h : Intact ar mem t q) (hs : SamePage ar t mem mem') :
    Intact ar mem' t q :=
  h.of_sameContext hs.sameContext

/-- After the `ret` of `switch_stack`, `task_switch` changes no memory. -/
theorem taskSwitch_mem :
    (taskSwitch ar c cur new m).mem = (switchStacks ar c cur new m).mem := by
  simp only [taskSwitch]
  split
  · simp [taskSwitchExit, step, Machine.pop]
  · rfl

/-- **A switch leaves the continuations of all other tasks alone.** -/
theorem taskSwitch_intact (ht : t ≠ cur) (h : Intact ar m.mem t q) :
    Intact ar (taskSwitch ar c cur new m).mem t q := by
  rw [taskSwitch_mem]
  exact h.congr (exchanged_switchStacks.other t ht)

/-- **A switch makes the continuation of the task it leaves.** -/
theorem taskSwitch_intact_self :
    Intact ar (taskSwitch ar c cur new m).mem cur (.suspended c) := by
  rw [taskSwitch_mem]
  exact ⟨exchanged_switchStacks.saved, new, exchanged_switchStacks.frame⟩

/-- Tearing down a frame of `task_switch`. -/
theorem continues_of_frame {m' : Machine} {c' : SwitchCtx} {new' : Fin N}
    (hesp : m'.reg .esp = c'.framePtr ar t + 8)
    (hw : Words m'.mem (c'.framePtr ar t) (c'.frame ar t new')) :
    Continues ar t (exec taskSwitchExit m') (.suspended c') := by
  obtain ⟨-, -, -, hbx, hdi, hsi, hbp, hret, -⟩ := hw
  have e1 : c'.framePtr ar t + 8 + 4 = c'.framePtr ar t + 4 + 4 + 4 := by bv_omega
  have e2 : c'.framePtr ar t + 4 + 4 + 4 + 4 + 4 + 4 + 4 + 4 = ar.stack t c'.sp - 4 := by
    unfold SwitchCtx.framePtr
    bv_omega
  simp only [taskSwitchExit, exec_cons, exec_nil, step, Machine.pop, Machine.setReg]
  simp only [Continues, Function.update_self, ne_eq, reduceCtorEq, not_false_eq_true,
    Function.update_of_ne, hesp, e1, hbx, hdi, hsi, hbp, hret, e2, and_self]

/-- **A switch continues the task it switches to**, whose continuation is found
intact at the stack pointer that is loaded. -/
theorem continues_of_loaded (hl : loadedEsp ar c cur new m = q.esp ar new)
    (h : Intact ar (switchStacks ar c cur new m).mem new q ) :
    Continues ar new (taskSwitch ar c cur new m) q := by
  have hx := @exchanged_switchStacks N ar c cur new m
  obtain ⟨-, h2⟩ := h
  cases q with
  | suspended c' =>
    obtain ⟨new', hw⟩ := h2
    have heip : (switchStacks ar c cur new m).eip = ar.afterInner := by
      rw [hx.eip, hl]
      exact hw.2.1
    simp only [taskSwitch, if_pos heip]
    exact continues_of_frame (by rw [hx.esp, hl]; rfl) hw
  | forged i ebp eip =>
    obtain ⟨⟨hbp, heip', -⟩, -, -, hne⟩ := h2
    have heip : (switchStacks ar c cur new m).eip = eip := by
      rw [hx.eip, hl]
      exact heip'
    simp only [taskSwitch, if_neg (heip.symm ▸ hne : ¬_ = _)]
    refine ⟨heip, by rw [hx.esp, hl]; rfl, ?_⟩
    rw [hx.ebp, hl]
    exact hbp

/-- **A switch to another task continues it.** -/
theorem taskSwitch_continues (hne : new ≠ cur) (h : Intact ar m.mem new q) :
    loadedEsp ar c cur new m = q.esp ar new ∧ Continues ar new (taskSwitch ar c cur new m) q := by
  have hl : loadedEsp ar c cur new m = q.esp ar new := by
    rw [loadedEsp_eq]
    exact h.1
  exact ⟨hl, continues_of_loaded hl (h.congr (exchanged_switchStacks.other new hne))⟩

/-- **A switch to the same task** continues it when the stale stack pointer is the
right one. -/
theorem taskSwitch_continues_self (hl : load32 m.mem (ar.espAddr cur) = c.framePtr ar cur) :
    Continues ar cur (taskSwitch ar c cur cur m) (.suspended c) := by
  refine continues_of_loaded (by rw [loadedEsp_eq]; exact hl) ?_
  exact ⟨exchanged_switchStacks.saved, cur, exchanged_switchStacks.frame⟩

end Cont

end Zeos
