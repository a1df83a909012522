import Zeos.Lib.X86

/-!
# Saving registers, and giving them back

The frame of entry stubs and of library functions: registers are pushed one after the
other, and popped in the reverse order. What is popped is what lies on the stack, so that
the registers come back if the words do (`X86.exec_restore`), whatever has become of the
registers meanwhile. A list of registers is written in the order in which they are popped,
which is the order of the words on the stack.

Between the two an interrupt handler calls routines of which only the calling convention is
known (`X86.Returns`), and acknowledges the interrupt. `X86.Body` is such a piece of code,
and `X86.Body.run_eq` says that the frame is on top of the stack again after it. The
theorem of the module is `X86.handle_interrupt`: **the interrupt is transparent**, the code
that has been interrupted goes on where it was, with all its registers and flags.
-/

namespace X86

open ByteMem

/-! ### Lists of registers -/

/-- A register that can be pushed and popped. -/
inductive AnyReg
  /-- a general register -/
  | gen (r : Reg)
  /-- a segment register -/
  | sel (s : Seg)
deriving DecidableEq

namespace AnyReg

/-- The instruction that pushes the register. -/
def push : AnyReg → Instr
  | gen r => .pushR r
  | sel s => .pushS s

/-- The instruction that pops it. -/
def pop : AnyReg → Instr
  | gen r => .popR r
  | sel s => .popS s

/-- What is in the register. -/
def value (m : Machine) : AnyReg → Word
  | gen r => m.reg r
  | sel s => m.seg s

end AnyReg

/-- Push registers, the last one of the list first. -/
def save (ss : List AnyReg) : List Instr := ss.reverse.map AnyReg.push

/-- Pop them. -/
def restore (ss : List AnyReg) : List Instr := ss.map AnyReg.pop

section Save

variable {ss : List AnyReg} {m m₀ u : Machine} {mem : Mem} {a : Word} {ws : List Word}

/-- Machines that differ at most in the stack pointer and in memory. -/
structure UpToStack (u m : Machine) : Prop where
  /-- The general registers. -/
  reg : ∀ r, r ≠ .esp → m.reg r = u.reg r
  /-- The segment registers. -/
  seg : m.seg = u.seg
  /-- The instruction pointer. -/
  eip : m.eip = u.eip
  /-- The flags. -/
  eflags : m.eflags = u.eflags

theorem UpToStack.refl (m : Machine) : UpToStack m m := ⟨fun _ _ => rfl, rfl, rfl, rfl⟩

theorem UpToStack.push (h : UpToStack u m) (w : Word) : UpToStack u (m.push w) :=
  ⟨fun r hr => (Machine.push_reg_of_ne hr).trans (h.reg r hr), h.seg, h.eip, h.eflags⟩

theorem UpToStack.foldl_push (h : UpToStack u m) (vs : List Word) :
    UpToStack u (vs.foldl Machine.push m) := by
  induction vs generalizing m with
  | nil => exact h
  | cons v vs ih => exact ih (h.push v)

/-- Pushing registers other than the stack pointer pushes what was in them at first. -/
theorem exec_map_push (hss : AnyReg.gen .esp ∉ ss) (hm : UpToStack u m) :
    exec (ss.map AnyReg.push) m = (ss.map (AnyReg.value u)).foldl Machine.push m := by
  induction ss generalizing m with
  | nil => rfl
  | cons s ss ih =>
    rw [List.mem_cons, not_or] at hss
    have hs : step m s.push = m.push (s.value u) := by
      cases s with
      | gen r => exact congrArg m.push (hm.reg r fun h => hss.1 (by rw [h]))
      | sel s => exact congrArg m.push (congrFun hm.seg s)
    rw [List.map_cons, List.map_cons, exec_cons, List.foldl_cons, hs]
    exact ih hss.2 (hm.push _)

/-- **Saving registers** puts what is in them on the stack, and changes nothing else. -/
theorem pushed_save (hss : AnyReg.gen .esp ∉ ss) (h : Pushed mem a ws m)
    (hlen : 4 * (ss.length + ws.length) < 2 ^ 32) :
    Pushed mem a (ss.map (AnyReg.value m) ++ ws) (exec (save ss) m) ∧
      UpToStack m (exec (save ss) m) := by
  have hss' : AnyReg.gen .esp ∉ ss.reverse := by rwa [List.mem_reverse]
  rw [save, exec_map_push hss' (UpToStack.refl m)]
  have hp := h.foldl_push (ss.reverse.map (AnyReg.value m)) (by simpa using hlen)
  rw [List.map_reverse, List.reverse_reverse] at hp
  refine ⟨?_, (UpToStack.refl m).foldl_push _⟩
  rw [List.map_reverse]
  exact hp

/-- What popping a register does to the registers. -/
theorem value_step_pop (s : AnyReg) {t : AnyReg} (ht : t ≠ .gen .esp) :
    t.value (step m s.pop) = if t = s then load32 m.mem (m.reg .esp) else t.value m := by
  have hesp : ∀ r, t = .gen r → (m.setReg .esp (m.reg .esp + 4)).reg r = m.reg r := by
    rintro r rfl
    exact Machine.setReg_reg_of_ne fun h => ht (by rw [h])
  cases s with
  | gen r₀ =>
    cases t with
    | gen r =>
      simp only [AnyReg.gen.injEq]
      by_cases h : r = r₀
      · rw [if_pos h, h]
        exact Machine.setReg_reg_self
      · rw [if_neg h]
        exact (Machine.setReg_reg_of_ne h).trans (hesp r rfl)
    | sel s => rfl
  | sel s₀ =>
    cases t with
    | gen r => exact hesp r rfl
    | sel s =>
      simp only [AnyReg.sel.injEq]
      by_cases h : s = s₀
      · rw [if_pos h, h]
        exact Function.update_self ..
      · rw [if_neg h]
        exact Function.update_of_ne h ..

/-- **The registers have been taken off the stack**, on which there was `v`. -/
structure Restored (ss : List AnyReg) (v : AnyReg → Word) (m m' : Machine) : Prop where
  /-- The registers of the list have what was on the stack, the others are as they were. -/
  value : ∀ t, t ≠ .gen .esp → t.value m' = if t ∈ ss then v t else t.value m
  /-- The stack pointer has passed the words. -/
  esp : m'.reg .esp = m.reg .esp + BitVec.ofNat 32 (4 * ss.length)
  /-- Memory. -/
  mem : m'.mem = m.mem
  /-- The instruction pointer. -/
  eip : m'.eip = m.eip
  /-- The flags. -/
  eflags : m'.eflags = m.eflags

/-- **Restoring registers** puts what is on the stack into them. -/
theorem exec_restore {v : AnyReg → Word} (hss : AnyReg.gen .esp ∉ ss)
    (h : Words m.mem (m.reg .esp) (ss.map v ++ ws)) : Restored ss v m (exec (restore ss) m) := by
  induction ss generalizing m with
  | nil => exact ⟨fun _ _ => rfl, by simp [restore], rfl, rfl, rfl⟩
  | cons s ss ih =>
    rw [List.mem_cons, not_or] at hss
    obtain ⟨h1, h2⟩ := h
    have hmem : (step m s.pop).mem = m.mem := by cases s <;> rfl
    have hesp : (step m s.pop).reg .esp = m.reg .esp + 4 := by
      cases s with
      | gen r =>
        have hr : Reg.esp ≠ r := fun h => hss.1 (by rw [h])
        exact (Machine.setReg_reg_of_ne hr).trans Machine.setReg_reg_self
      | sel s =>
        change (m.setReg .esp (m.reg .esp + 4)).reg .esp = _
        exact Machine.setReg_reg_self
    have hr := ih hss.2 (m := step m s.pop) (by rw [hesp, hmem]; exact h2)
    rw [restore, List.map_cons, exec_cons, ← restore]
    refine ⟨fun t ht => ?_, ?_, hr.mem.trans hmem, hr.eip.trans (by cases s <;> rfl),
      hr.eflags.trans (by cases s <;> rfl)⟩
    · -- a register that is popped again further on has the same word there
      rw [hr.value t ht, value_step_pop s ht]
      by_cases h₁ : t ∈ ss
      · rw [if_pos h₁, if_pos (List.mem_cons_of_mem s h₁)]
      · rw [if_neg h₁]
        by_cases h₂ : t = s
        · rw [if_pos h₂, if_pos (by rw [h₂]; exact List.mem_cons_self ..), h₂]
          exact h1
        · rw [if_neg h₂, if_neg (by simp [h₁, h₂])]
    · rw [hr.esp, hesp, List.length_cons]
      bv_omega

end Save

/-! ### What is called in between -/

/-- **The calling convention**, for a routine that finds `n` words above its return address,
and that leaves the bytes of `keep` alone. -/
structure Returns (n : Nat) (keep : Word → Prop) (f : Machine → Machine) : Prop where
  /-- It returns to its caller. -/
  eip : ∀ m, (f m).eip = load32 m.mem (m.reg .esp)
  /-- It takes its return address off the stack. -/
  esp : ∀ m, (f m).reg .esp = m.reg .esp + 4
  /-- It stays on the stack it is on. -/
  ss : ∀ m, (f m).seg .ss = m.seg .ss
  /-- It leaves the words above its return address alone. -/
  mem : ∀ m x, (x - (m.reg .esp + 4)).toNat < 4 * n → (f m).mem x = m.mem x
  /-- It leaves those bytes alone. -/
  kept : ∀ m x, keep x → (f m).mem x = m.mem x

/-- What a handler does between saving the registers and restoring them. -/
inductive Act
  /-- The interrupt is acknowledged: `movb $0x20, %al`, and `%al` is sent to the port
  `0x20`. -/
  | eoi
  /-- `call target`, the instruction after it being at `ra` -/
  | call (target ra : Word)
  /-- The same between `pushl %r` and `popl %r`. -/
  | callSaving (r : Reg) (target ra : Word)

/-- The routine that is called. -/
def Act.target : Act → Option Word
  | .eoi => none
  | .call t _ => some t
  | .callSaving _ t _ => some t

section Acts

variable (code : Word → Machine → Machine)

/-- Call a routine, and go on after the call if it returns there. -/
def callAt (target ra : Word) (m : Machine) : Option Machine :=
  let m' := code target (step m (.call target ra))
  if m'.eip = ra then some m' else none

theorem eq_of_callAt {target ra : Word} {m m' : Machine} (h : callAt code target ra m = some m') :
    m' = code target (step m (.call target ra)) := by
  simp only [callAt] at h
  split at h
  · exact (Option.some.inj h).symm
  · exact absurd h (by simp)

/-- The effect of an act. -/
def Act.run (m : Machine) : Act → Option Machine
  | .eoi => some (m.setReg .eax (m.reg .eax &&& 0xFFFFFF00 ||| 0x20))
  | .call t ra => callAt code t ra m
  | .callSaving r t ra => (callAt code t ra (m.push (m.reg r))).map fun m' => step m' (.popR r)

end Acts

section Held

variable {code : Word → Machine → Machine} {keep : Word → Prop} {n : Nat} {m : Machine}
  {mem : Mem} {ss top : Word} {ws : List Word}

/-- **The words `ws` are on top of the stack**, at `top` in the segment `ss`, and memory is
`mem` as far as `keep` goes. -/
structure Held (keep : Word → Prop) (mem : Mem) (ss top : Word) (ws : List Word) (m : Machine) :
    Prop where
  /-- The stack pointer. -/
  esp : m.reg .esp = top
  /-- The words. -/
  words : Words m.mem top ws
  /-- The stack segment. -/
  ss : m.seg .ss = ss
  /-- Memory. -/
  kept : ∀ x, keep x → m.mem x = mem x

/-- One more word, where nothing is kept. -/
theorem Held.push (h : Held keep mem ss top ws m) (w : Word) (hlen : 4 * ws.length + 4 ≤ 2 ^ 32)
    (hk : ∀ x, keep x → 4 ≤ (x - (top - 4)).toNat) :
    Held keep mem ss (top - 4) (w :: ws) (m.push w) := by
  have hesp : (m.push w).reg .esp = top - 4 := by rw [Machine.push_esp, h.esp]
  refine ⟨hesp, ?_, h.ss, fun x hx => ?_⟩
  · rw [← hesp]
    exact Machine.words_push (by rw [h.esp]; exact h.words) hlen
  · rw [← h.kept x hx]
    refine store32_of_le ?_
    rw [h.esp]
    exact hk x hx

/-- **A routine that follows the convention** gives back what is on the stack. -/
theorem Held.callAt (h : Held keep mem ss top ws m) {t : Word} (ra : Word)
    (ht : Returns n keep (code t)) (hlen : ws.length ≤ n) (hn : 4 * n + 4 ≤ 2 ^ 32)
    (hk : ∀ x, keep x → 4 ≤ (x - (top - 4)).toNat) :
    ∃ m', X86.callAt code t ra m = some m' ∧ Held keep mem ss top ws m' := by
  have hp : Held keep mem ss (top - 4) (ra :: ws) (step m (.call t ra)) := by
    have := h.push ra (by omega) hk
    exact ⟨this.esp, this.words, this.ss, this.kept⟩
  set m₁ := step m (.call t ra)
  have heip : (code t m₁).eip = ra := by rw [ht.eip, hp.esp, hp.words.1]
  have h4 : top - 4 + 4 = top := BitVec.sub_add_cancel _ _
  have hwords : Words m₁.mem top ws := by
    have := hp.words.2
    rwa [h4] at this
  refine ⟨code t m₁, if_pos heip, ?_, ?_, (ht.ss _).trans hp.ss, fun x hx => ?_⟩
  · rw [ht.esp, hp.esp, h4]
  · refine hwords.congr (by omega) fun x hx => ht.mem _ _ ?_
    rw [hp.esp, h4]
    omega
  · exact (ht.kept _ _ hx).trans (hp.kept x hx)

/-- **An act gives back what is on the stack.** -/
theorem Held.run (h : Held keep mem ss top ws m) {act : Act}
    (ht : ∀ t, act.target = some t → Returns n keep (code t)) (hlen : ws.length + 1 ≤ n)
    (hn : 4 * n + 4 ≤ 2 ^ 32) (hesp : ∀ t ra, act ≠ .callSaving .esp t ra)
    (hk : ∀ x, keep x → 8 ≤ (x - (top - 8)).toNat) :
    ∃ m', act.run code m = some m' ∧ Held keep mem ss top ws m' := by
  have hk4 : ∀ x, keep x → 4 ≤ (x - (top - 4)).toNat := fun x hx => by
    have := hk x hx
    bv_omega
  cases act with
  | eoi => exact ⟨_, rfl, (Machine.setReg_reg_of_ne (by decide)).trans h.esp, h.words, h.ss, h.kept⟩
  | call t ra => exact h.callAt ra (ht t rfl) (by omega) hn hk4
  | callSaving r t ra =>
    have hr : Reg.esp ≠ r := fun heq => hesp t ra (by rw [heq])
    have hp := h.push (m.reg r) (by omega) hk4
    obtain ⟨m', hm', h'⟩ := hp.callAt ra (ht t rfl) (by rw [List.length_cons]; exact hlen) hn
      fun x hx => by
        have := hk x hx
        bv_omega
    have h4 : top - 4 + 4 = top := BitVec.sub_add_cancel _ _
    refine ⟨step m' (.popR r), ?_, ?_, ?_, h'.ss, h'.kept⟩
    · rw [Act.run, hm']
      rfl
    · have : (step m' (.popR r)).reg .esp = m'.reg .esp + 4 :=
        (Machine.setReg_reg_of_ne hr).trans Machine.setReg_reg_self
      rw [this, h'.esp, h4]
    · have := h'.words.2
      rw [h4] at this
      exact this

/-- **And so does any number of them.** -/
theorem Held.runs {acts : List Act} (h : Held keep mem ss top ws m)
    (ht : ∀ act ∈ acts, ∀ t, act.target = some t → Returns n keep (code t))
    (hlen : ws.length + 1 ≤ n) (hn : 4 * n + 4 ≤ 2 ^ 32)
    (hesp : ∀ act ∈ acts, ∀ t ra, act ≠ .callSaving .esp t ra)
    (hk : ∀ x, keep x → 8 ≤ (x - (top - 8)).toNat) :
    ∃ m', acts.foldlM (fun m (act : Act) => act.run code m) m = some m' ∧
      Held keep mem ss top ws m' := by
  induction acts generalizing m with
  | nil => exact ⟨m, rfl, h⟩
  | cons act acts ih =>
    obtain ⟨m₁, hm₁, h₁⟩ := h.run (ht act (List.mem_cons_self ..)) hlen hn
      (hesp act (List.mem_cons_self ..)) hk
    obtain ⟨m₂, hm₂, h₂⟩ := ih h₁ (fun a ha => ht a (List.mem_cons_of_mem act ha))
      fun a ha => hesp a (List.mem_cons_of_mem act ha)
    refine ⟨m₂, ?_, h₂⟩
    rw [List.foldlM_cons, hm₁]
    exact hm₂

end Held

/-! ### Interrupts -/

/-- Where an interrupt comes from: the processor changes to the stack of the kernel if the
program was in user mode, and stays on its stack if it was in the kernel. -/
inductive Ring
  | user | kernel
deriving DecidableEq

namespace Ring

/-- What the processor saves. -/
def frame (u : Machine) : Ring → List Word
  | user => [u.eip, u.seg .cs, u.eflags, u.reg .esp, u.seg .ss]
  | kernel => [u.eip, u.seg .cs, u.eflags]

/-- Where it saves it, `esp0` being the stack of the kernel. -/
def stack (esp0 : Word) (u : Machine) : Ring → Word
  | user => esp0
  | kernel => u.reg .esp

/-- An interrupt, through a gate with the address of a handler. -/
def interrupt (ss esp0 cs eip : Word) (u : Machine) : Ring → Machine
  | user => u.interrupt ss esp0 cs eip
  | kernel => { [u.eflags, u.seg .cs, u.eip].foldl Machine.push (u.setSeg .cs cs) with
      eip := eip
      eflags := u.eflags &&& ~~~interruptFlag }

/-- `iret` -/
def iret (m : Machine) : Ring → Machine
  | user => step m .iret
  | kernel =>
    let saved (d : Word) := load32 m.mem (m.reg .esp + d)
    { (m.setSeg .cs (saved 4)).setReg .esp (m.reg .esp + 12) with
      eip := saved 0
      eflags := saved 8 }

end Ring

/-- The selector of the data of the kernel goes to `ds` and `es`, by way of `edx`. -/
def loadSegments (ds : Word) : List Instr := [.movI ds .edx, .movS .edx .ds, .movS .edx .es]

theorem exec_loadSegments (ds : Word) (m : Machine) :
    (∀ r, r ≠ .edx → (exec (loadSegments ds) m).reg r = m.reg r) ∧
      (exec (loadSegments ds) m).seg .ss = m.seg .ss ∧
      (exec (loadSegments ds) m).mem = m.mem := by
  refine ⟨fun r hr => ?_, ?_, rfl⟩
  · simp [loadSegments, step, Machine.setReg_reg_of_ne hr]
  · simp [loadSegments, step, Machine.setSeg]

/-- **An interrupt handler**, from the interrupt to `iret`. -/
def handle (code : Word → Machine → Machine) (g : Ring) (ss esp0 cs eip ds : Word)
    (saved : List AnyReg) (acts : List Act) (u : Machine) : Option Machine :=
  (acts.foldlM (fun m (act : Act) => act.run code m)
      (exec (save saved ++ loadSegments ds) (g.interrupt ss esp0 cs eip u))).map fun m =>
    g.iret (exec (restore saved) m)

/-- **The code that was interrupted goes on as if nothing had happened.** -/
structure Resumed (keep : Word → Prop) (u m : Machine) : Prop where
  /-- It has its general registers. -/
  reg : m.reg = u.reg
  /-- It has its segments. -/
  seg : m.seg = u.seg
  /-- It goes on where it was. -/
  eip : m.eip = u.eip
  /-- It has its flags. -/
  eflags : m.eflags = u.eflags
  /-- It has its memory. -/
  kept : ∀ x, keep x → m.mem x = u.mem x

section Interrupt

variable {code : Word → Machine → Machine} {keep : Word → Prop} {g : Ring} {n : Nat}
  {ss esp0 cs eip ds top : Word} {saved : List AnyReg} {acts : List Act} {u m : Machine}

/-- The processor has saved what it saves. -/
theorem pushed_interrupt (g : Ring) (ss esp0 cs eip : Word) (u : Machine) :
    Pushed u.mem (g.stack esp0 u) (g.frame u) (g.interrupt ss esp0 cs eip u) ∧
      (∀ r, r ≠ .esp → (g.interrupt ss esp0 cs eip u).reg r = u.reg r) ∧
      (∀ s, s ≠ .cs → s ≠ .ss → (g.interrupt ss esp0 cs eip u).seg s = u.seg s) ∧
      (g = .kernel → (g.interrupt ss esp0 cs eip u).seg .ss = u.seg .ss) := by
  cases g with
  | user =>
    set m₀ := ((u.setSeg .ss ss).setSeg .cs cs).setReg .esp esp0 with hm₀
    have hp : Pushed u.mem esp0 [] m₀ := Pushed.nil Machine.setReg_reg_self rfl
    have hu := (UpToStack.refl m₀).foldl_push [u.seg .ss, u.reg .esp, u.eflags, u.seg .cs, u.eip]
    refine ⟨(hp.foldl_push [u.seg .ss, u.reg .esp, u.eflags, u.seg .cs, u.eip] (by simp)).congr
      rfl rfl, fun r hr => (hu.reg r hr).trans (Machine.setReg_reg_of_ne hr), fun s h1 h2 => ?_,
      fun h => absurd h (by simp)⟩
    refine (congrFun hu.seg s).trans ?_
    simp [hm₀, Machine.setSeg, h1, h2]
  | kernel =>
    have hp : Pushed u.mem (u.reg .esp) [] (u.setSeg .cs cs) := Pushed.nil rfl rfl
    have hu := (UpToStack.refl (u.setSeg .cs cs)).foldl_push [u.eflags, u.seg .cs, u.eip]
    refine ⟨(hp.foldl_push [u.eflags, u.seg .cs, u.eip] (by simp)).congr rfl rfl, hu.reg,
      fun s h1 _ => (congrFun hu.seg s).trans ?_, fun _ => (congrFun hu.seg .ss).trans ?_⟩
    · simp [Machine.setSeg, h1]
    · simp [Machine.setSeg]

/-- `iret`, with the frame on top of the stack. -/
theorem iret_spec (h : Words m.mem (m.reg .esp) (g.frame u))
    (hesp : m.reg .esp = g.stack esp0 u - BitVec.ofNat 32 (4 * (g.frame u).length)) :
    (∀ r, r ≠ .esp → (g.iret m).reg r = m.reg r) ∧ (g.iret m).reg .esp = u.reg .esp ∧
      (∀ s, s ≠ .cs → s ≠ .ss → (g.iret m).seg s = m.seg s) ∧
      (g.iret m).seg .cs = u.seg .cs ∧
      (g.iret m).seg .ss = (if g = .user then u.seg .ss else m.seg .ss) ∧
      (g.iret m).eip = u.eip ∧ (g.iret m).eflags = u.eflags ∧ (g.iret m).mem = m.mem := by
  cases g with
  | user =>
    have e0 : load32 m.mem (m.reg .esp + 0#32) = u.eip := by
      rw [BitVec.add_zero]
      exact h.1
    have e4 : load32 m.mem (m.reg .esp + 4#32) = u.seg .cs := h.2.1
    have e8 : load32 m.mem (m.reg .esp + 8#32) = u.eflags := Words.load [u.eip, u.seg .cs] h
    have e12 : load32 m.mem (m.reg .esp + 12#32) = u.reg .esp :=
      Words.load [u.eip, u.seg .cs, u.eflags] h
    have e16 : load32 m.mem (m.reg .esp + 16#32) = u.seg .ss :=
      Words.load [u.eip, u.seg .cs, u.eflags, u.reg .esp] h
    refine ⟨fun r hr => Machine.setReg_reg_of_ne hr, ?_, fun s h1 h2 => ?_, ?_, ?_, e0, e8, rfl⟩
    · simp [Ring.iret, step, Machine.setReg, e12]
    · simp [Ring.iret, step, Machine.setReg, Machine.setSeg, h1, h2]
    · simp [Ring.iret, step, Machine.setReg, Machine.setSeg, e4]
    · simp [Ring.iret, step, Machine.setReg, Machine.setSeg, e16]
  | kernel =>
    have e0 : load32 m.mem (m.reg .esp + 0#32) = u.eip := by
      rw [BitVec.add_zero]
      exact h.1
    have e4 : load32 m.mem (m.reg .esp + 4#32) = u.seg .cs := h.2.1
    have e8 : load32 m.mem (m.reg .esp + 8#32) = u.eflags := Words.load [u.eip, u.seg .cs] h
    have h12 : m.reg .esp + 12 = u.reg .esp := by
      rw [hesp]
      exact BitVec.sub_add_cancel _ _
    refine ⟨fun r hr => Machine.setReg_reg_of_ne hr, ?_, fun s h1 _ => ?_, ?_, ?_, e0, e8, rfl⟩
    · refine Eq.trans ?_ h12
      simp [Ring.iret, Machine.setReg]
    · simp [Ring.iret, Machine.setReg, Machine.setSeg, h1]
    · simp [Ring.iret, Machine.setReg, Machine.setSeg, e4]
    · simp [Ring.iret, Machine.setReg, Machine.setSeg]

/-- The registers that are saved: all but those that the processor saves. -/
def Complete (saved : List AnyReg) : Prop :=
  ∀ t, t ∈ saved ↔ t ≠ .gen .esp ∧ t ≠ .sel .cs ∧ t ≠ .sel .ss

/-- What is on the stack while the routines are called. -/
def Ring.context (g : Ring) (u : Machine) (saved : List AnyReg) : List Word :=
  saved.map (AnyReg.value u) ++ g.frame u

theorem Ring.length_context (g : Ring) (u : Machine) (saved : List AnyReg) :
    (g.context u saved).length = saved.length + (g.frame u).length := by
  rw [Ring.context, List.length_append, List.length_map]

theorem Ring.length_frame (g : Ring) (u : Machine) : (g.frame u).length ≤ 5 := by
  cases g <;> simp [Ring.frame]

theorem Complete.esp_notMem (h : Complete saved) : AnyReg.gen .esp ∉ saved := fun hm =>
  ((h _).mp hm).1 rfl

/-- **The way in**: the registers are saved as they were when the interrupt came. -/
theorem held_enter (hsaved : Complete saved) (hlen : saved.length + 6 ≤ n)
    (hn : 4 * n + 4 ≤ 2 ^ 32)
    (hk : ∀ x, keep x → 4 * n + 8 ≤ (x - (g.stack esp0 u - BitVec.ofNat 32 (4 * n + 8))).toNat) :
    Held keep u.mem ((g.interrupt ss esp0 cs eip u).seg .ss)
      (g.stack esp0 u - BitVec.ofNat 32 (4 * (g.context u saved).length)) (g.context u saved)
      (exec (save saved ++ loadSegments ds) (g.interrupt ss esp0 cs eip u)) := by
  obtain ⟨hp, hreg, hseg, -⟩ := pushed_interrupt g ss esp0 cs eip u
  set m₀ := g.interrupt ss esp0 cs eip u
  have hframe := g.length_frame u
  have hws := g.length_context u saved
  obtain ⟨hp₁, hu⟩ := pushed_save hsaved.esp_notMem hp (by omega)
  have hvalue : saved.map (AnyReg.value m₀) = saved.map (AnyReg.value u) := by
    refine List.map_congr_left fun t ht => ?_
    obtain ⟨h1, h2, h3⟩ := (hsaved t).mp ht
    cases t with
    | gen r => exact hreg r fun h => h1 (by rw [h])
    | sel s => exact hseg s (fun h => h2 (by rw [h])) fun h => h3 (by rw [h])
  rw [hvalue, ← Ring.context] at hp₁
  rw [exec_append]
  set m₁ := exec (save saved) m₀
  obtain ⟨hreg', hss, hmem⟩ := exec_loadSegments ds m₁
  refine ⟨(hreg' .esp (by decide)).trans hp₁.esp, ?_, hss.trans (congrFun hu.seg .ss),
    fun x hx => ?_⟩
  · have h := hp₁.words
    rw [hp₁.esp] at h
    rw [hmem]
    exact h
  · have := hk x hx
    rw [hmem]
    exact hp₁.below x (by bv_omega)

/-- **The way out**: the registers that are on the stack come back, and the processor restores
the rest. -/
theorem Held.leave (hsaved : Complete saved)
    (h : Held keep u.mem top (g.stack esp0 u - BitVec.ofNat 32 (4 * (g.context u saved).length))
      (g.context u saved) m) (hss : g = .kernel → top = u.seg .ss) :
    Resumed keep u (g.iret (exec (restore saved) m)) := by
  have hr : Restored saved (AnyReg.value u) m (exec (restore saved) m) :=
    exec_restore hsaved.esp_notMem (by rw [h.esp]; exact h.words)
  set m₁ := exec (restore saved) m
  have hesp : m₁.reg .esp = g.stack esp0 u - BitVec.ofNat 32 (4 * (g.frame u).length) := by
    rw [hr.esp, h.esp, g.length_context]
    bv_omega
  have hframe : Words m₁.mem (m₁.reg .esp) (g.frame u) := by
    have hw := (words_append.mp h.words).2
    rw [List.length_map] at hw
    rw [hr.mem, hr.esp, h.esp]
    exact hw
  obtain ⟨i1, i2, i3, i4, i5, i6, i7, i8⟩ := iret_spec hframe hesp
  refine ⟨funext fun r => ?_, funext fun s => ?_, i6, i7, fun x hx => ?_⟩
  · by_cases h1 : r = .esp
    · rw [h1, i2]
    · have := hr.value (.gen r) (by simp [h1])
      rw [if_pos ((hsaved _).mpr ⟨by simp [h1], by simp, by simp⟩)] at this
      exact (i1 r h1).trans this
  · by_cases h1 : s = .cs
    · rw [h1, i4]
    by_cases h2 : s = .ss
    · rw [h2, i5]
      cases g with
      | user => rfl
      | kernel =>
        have := hr.value (.sel .ss) (by simp)
        rw [if_neg fun hm => ((hsaved _).mp hm).2.2 rfl] at this
        exact (this.trans h.ss).trans (hss rfl)
    · have := hr.value (.sel s) (by simp)
      rw [if_pos ((hsaved _).mpr ⟨by simp, by simp [h1], by simp [h2]⟩)] at this
      exact (i3 s h1 h2).trans this
  · rw [i8, hr.mem]
    exact h.kept x hx

/-- **An interrupt is transparent**, if all registers are saved, but for those that the
processor saves, if the routines follow the calling convention, and if what is kept is not on
the stack. -/
theorem handle_interrupt (hsaved : Complete saved)
    (hacts : ∀ act ∈ acts, ∀ t, act.target = some t → Returns n keep (code t))
    (hesp : ∀ act ∈ acts, ∀ t ra, act ≠ .callSaving .esp t ra)
    (hlen : saved.length + 6 ≤ n) (hn : 4 * n + 4 ≤ 2 ^ 32)
    (hk : ∀ x, keep x → 4 * n + 8 ≤ (x - (g.stack esp0 u - BitVec.ofNat 32 (4 * n + 8))).toNat) :
    ∃ m, handle code g ss esp0 cs eip ds saved acts u = some m ∧ Resumed keep u m := by
  have hframe := g.length_frame u
  have hws := g.length_context u saved
  obtain ⟨-, -, -, hss⟩ := pushed_interrupt g ss esp0 cs eip u
  obtain ⟨m, hm, hheld⟩ := (held_enter hsaved hlen hn hk).runs hacts (by omega) hn hesp
    fun x hx => by
      have := hk x hx
      bv_omega
  refine ⟨_, ?_, hheld.leave hsaved hss⟩
  rw [handle, hm]
  rfl

end Interrupt

end X86
