import Mathlib.Data.Set.Insert
import Zeos.Lib.Transition
import Zeos.Common.Resume
import Zeos.Base.Boot

/-!
# The round trip of a context switch

`task_switch` leaves the processor to another process, and returns when somebody switches
back. In between there may be any number of switches among the other processes, and
whatever these do while they run.

A run (`Zeos.Base.Step`) is a sequence of calls of `task_switch` and of what happens
between them. The processes are a set `S` of frames, those of their PCBs. While a process
runs, anything may change but what the processes of `S` that do not run have left behind
(`Zeos.Base.SameTask`): their kernel stacks, their saved stack pointers, and the directories
that their PCBs name. The lists on which they wait, and their states, may change.

`Zeos.Base.switch_round_trip` says that a process that has called `task_switch` finds
everything as it was at the call the next time it is switched to. The contexts with which
the run begins are those of earlier calls, and the one that `init_idle` forges; boot leaves
such a set of processes behind (`Zeos.Base.boot_wellFormed`).
-/

namespace Zeos.Base

open ByteMem PageWalk Transition X86

/-! ### The switch -/

/-- The kernel while a process runs. -/
structure Running extends Kernel where
  /-- The process that runs, by the frame of its PCB. -/
  current : Frame

/-- `current()`: the address of the page that the stack pointer is in. -/
def currentTask (m : Machine) : Word := m.reg .esp &&& 0xfffff000#32

/-- **`task_switch(new)`**: `inner_task_switch` sets the stack pointers for the next entry of
the kernel and loads the directory, before it calls `switch_stack`. -/
def Running.taskSwitch (k : Running) (img : Image) (c : SwitchCtx) (new : Frame) : Running :=
  let task := img.area.pcb new
  { k with
    tssEsp0 := Kernel.kernelEsp task
    msrEsp := Kernel.kernelEsp task
    cr3 := load32 (beforeExchange img.area c k.current new k.cpu).mem (task + 4)
    cpu := Zeos.taskSwitch img.area c k.current new k.cpu
    current := new }

variable {img : Image} {c c' : SwitchCtx} {k k' k₀ : Running} {t new : Frame} {S : Set Frame}

theorem Running.taskSwitch_cpu :
    (k.taskSwitch img c new).cpu = Zeos.taskSwitch img.area c k.current new k.cpu := by
  rw [Running.taskSwitch]

theorem Running.taskSwitch_mem : (k.taskSwitch img c new).mem =
    (Zeos.taskSwitch img.area c k.current new k.cpu).mem := rfl

/-- What the switch sets besides. -/
theorem Running.taskSwitch_fields : (k.taskSwitch img c new).current = new ∧
    (k.taskSwitch img c new).tssEsp0 = Kernel.kernelEsp (img.area.pcb new) ∧
    (k.taskSwitch img c new).msrEsp = Kernel.kernelEsp (img.area.pcb new) := ⟨rfl, rfl, rfl⟩

/-- The PCBs are at the addresses of their frames. -/
theorem pcb_eq (t : Frame) : img.area.pcb t = frameAddr (t : Nat) := by
  rw [TaskArea.pcb, img.base_eq, frameAddr_eq, slot, Nat.mul_comm]
  simp

/-- **`current()` is the running process** when `inner_task_switch` calls it. -/
theorem currentTask_beforeExchange :
    currentTask (beforeExchange img.area c k.current new k.cpu) = img.area.pcb k.current := by
  obtain ⟨hB, -⟩ := @pushed_beforeExchange _ img.area c k.current new k.cpu
  have hroom := c.room
  have hsp := c.sp_le
  have hspill := c.spill_le
  have hlt := k.current.isLt
  have hpcb := pcb_toNat img.area k.current
  have hbase : img.area.base.toNat = 0 := by
    rw [img.base_eq]
    rfl
  -- the calls so far have not left the page of the PCB
  have hesp : ((beforeExchange img.area c k.current new k.cpu).reg .esp).toNat =
      4096 * k.current + 4 * (c.sp - (c.spill.length + 9)) := by
    rw [hB.esp, length_pushedWords, TaskArea.stack]
    bv_omega
  apply BitVec.eq_of_toNat_eq
  rw [currentTask, toNat_and_pageMask, hesp, hpcb]
  omega

/-- The directory that is loaded is the one the PCB named at the call. -/
theorem taskSwitch_cr3 : (k.taskSwitch img c new).cr3 = k.getDIR (img.area.pcb new) := by
  refine load32_congr fun x hx => beforeExchange_mem fun hs => ?_
  -- the field is in the PCB, and the stacks are not
  have hpage : InPage img.area new x := by
    unfold InPage
    bv_omega
  obtain heq : k.current = new := inPage_unique hs.2 hpage
  have hstack := hs.1
  rw [heq] at hstack
  unfold pcbBytes at hstack
  bv_omega

/-! ### Runs -/

/-- **What a process that does not run has left behind is unchanged**: its continuation, and
the directory that its PCB names. -/
structure SameTask (img : Image) (t : Frame) (mem mem' : Mem) : Prop where
  /-- The kernel stack and the saved stack pointer. -/
  context : SameContext img.area t mem mem'
  /-- The directory. -/
  dir : load32 mem' (img.area.pcb t + 4) = load32 mem (img.area.pcb t + 4)

/-- What happens in a run. -/
inductive Act
  /-- The process that runs does something, in user mode or in the kernel, or an interrupt
  is served. -/
  | work
  /-- `task_switch` is called. -/
  | switch (c : SwitchCtx) (new : Frame)

/-- **A step of a run with the processes of `S`.** -/
inductive Step (img : Image) (S : Set Frame) : Running → Act → Running → Prop
  /-- Work leaves alone what the other processes have left behind. -/
  | work {k k' : Running} (hcur : k'.current = k.current)
      (hother : ∀ t ∈ S, t ≠ k.current → SameTask img t k.mem k'.mem) : Step img S k .work k'
  /-- A switch goes to another process. -/
  | switch {k : Running} {c : SwitchCtx} {new : Frame} (hmem : new ∈ S) (hne : new ≠ k.current) :
      Step img S k (.switch c new) (k.taskSwitch img c new)

/-- The continuation of the idle process that `init_idle` forges. -/
def idleCont (img : Image) : Cont := .forged 1022 0 img.cpuIdle

/-- The process has a context: of an earlier call of `task_switch`, or forged by
`init_idle`. -/
def Saved (img : Image) (mem : Mem) (t : Frame) : Prop :=
  (∃ c, Intact img.area mem t (.suspended c)) ∨ Intact img.area mem t (idleCont img)

/-- **The contexts of the processes that do not run are well formed.** -/
structure WellFormed (img : Image) (S : Set Frame) (k : Running) : Prop where
  /-- The process that runs is one of them. -/
  current_mem : k.current ∈ S
  /-- The others have a context. -/
  saved : ∀ t ∈ S, t ≠ k.current → Saved img k.mem t

theorem SameTask.getDIR (h : SameTask img t k.mem k'.mem) :
    k'.getDIR (img.area.pcb t) = k.getDIR (img.area.pcb t) := h.dir

theorem SameTask.refl {mem : Mem} : SameTask img t mem mem := ⟨fun _ _ => rfl, rfl⟩

theorem SameTask.trans {mem mem' mem'' : Mem} (h : SameTask img t mem mem')
    (h' : SameTask img t mem' mem'') : SameTask img t mem mem'' :=
  ⟨fun x hx => (h'.context x hx).trans (h.context x hx), h'.dir.trans h.dir⟩

theorem Saved.congr {mem mem' : Mem} (h : Saved img mem t) (hs : SameTask img t mem mem') :
    Saved img mem' t := by
  rcases h with ⟨c, hi⟩ | hi
  · exact Or.inl ⟨c, hi.of_sameContext hs.context⟩
  · exact Or.inr (hi.of_sameContext hs.context)

/-- **A switch leaves every process alone but the one that runs.** -/
theorem taskSwitch_sameTask (ht : t ≠ k.current) :
    SameTask img t k.mem (k.taskSwitch img c new).mem := by
  have hpage : SamePage img.area t k.mem (k.taskSwitch img c new).mem := by
    rw [Running.taskSwitch_mem, Zeos.taskSwitch_mem]
    exact exchanged_switchStacks.other t ht
  refine ⟨hpage.sameContext, load32_congr fun x hx => hpage x ?_⟩
  unfold InPage
  bv_omega

/-- No switch changes which directory a PCB names, be it that of the process that runs. -/
theorem taskSwitch_getDIR :
    (k.taskSwitch img c new).getDIR (img.area.pcb t) = k.getDIR (img.area.pcb t) := by
  by_cases ht : t = k.current
  · subst ht
    have hfield := img.espField_eq
    refine load32_congr fun x hx => ?_
    rw [Running.taskSwitch_mem, Zeos.taskSwitch_mem]
    refine switchStacks_mem (fun hs => ?_) ?_
    · have hstack := hs.1
      unfold pcbBytes at hstack
      bv_omega
    · rw [TaskArea.espAddr, hfield]
      bv_omega
  -- a process that does not run is left alone
  · exact (taskSwitch_sameTask ht).dir

/-- **One step** leaves alone what the processes that do not run have left behind. -/
theorem step_sameTask {a : Act} (hs : Step img S k a k') (hmem : t ∈ S) (ht : t ≠ k.current) :
    SameTask img t k.mem k'.mem := by
  cases hs with
  | work hcur hother => exact hother t hmem ht
  | switch hnew hne => exact taskSwitch_sameTask ht

/-- **One step keeps the contexts well formed.** -/
theorem wellFormed_step {a : Act} (h : WellFormed img S k) (hs : Step img S k a k') :
    WellFormed img S k' := by
  cases hs with
  | work hcur hother =>
    refine ⟨hcur ▸ h.current_mem, fun t ht hne => ?_⟩
    rw [hcur] at hne
    exact (h.saved t ht hne).congr (hother t ht hne)
  | @switch c new hnew hne =>
    refine ⟨hnew, fun t ht hne' => ?_⟩
    by_cases htc : t = k.current
    · -- the process that has just been left
      rw [htc, Running.taskSwitch_mem]
      exact Or.inl ⟨c, taskSwitch_intact_self⟩
    · exact (h.saved t ht htc).congr (taskSwitch_sameTask htc)

/-- **Every run keeps the contexts well formed.** -/
theorem wellFormed_path {h : List (Running × Act)} (hwf : WellFormed img S k₀)
    (hp : Path (Step img S) k₀ h k) : WellFormed img S k :=
  hp.invariant (P := fun _ k => WellFormed img S k) hwf fun _ _ _ _ _ hk hs => wellFormed_step hk hs

/-! ### The round trip -/

/-- The machine at the call of `task_switch`, when the argument has been pushed. -/
def calledAt (img : Image) (c : SwitchCtx) (new : Frame) (k : Running) : Machine :=
  exec [.pushI (img.area.pcb new)] (c.enter img.area k.current k.cpu)

/-- **A process is back from its call of `task_switch`**, made in `k`: it continues after the
call, everything is as it was, and the processor is set up for it. -/
structure RoundTrip (img : Image) (c : SwitchCtx) (new : Frame) (k k' : Running) : Prop where
  /-- The process runs. -/
  current : k'.current = k.current
  /-- It continues right after the call. -/
  eip : k'.cpu.eip = c.ret
  /-- The registers that a call leaves alone are as they were. -/
  regs : ∀ r ∈ [Reg.esp, .ebp, .ebx, .esi, .edi], k'.cpu.reg r = (calledAt img c new k).reg r
  /-- The stack is as it was, from the stack pointer upwards. -/
  stack : ∀ x, InPage img.area k.current x → ((calledAt img c new k).reg .esp).toNat ≤ x.toNat →
    k'.mem x = (calledAt img c new k).mem x
  /-- Interrupts enter the kernel on its stack, -/
  tssEsp0 : k'.tssEsp0 = Kernel.kernelEsp (img.area.pcb k.current)
  /-- and so does `sysenter`. -/
  msrEsp : k'.msrEsp = Kernel.kernelEsp (img.area.pcb k.current)
  /-- Its directory is loaded, -/
  cr3 : k'.cr3 = k'.getDIR (img.area.pcb k.current)
  /-- which is still the same. -/
  dir : k'.getDIR (img.area.pcb k.current) = k.getDIR (img.area.pcb k.current)

/-- The registers at the call. -/
theorem calledAt_regs : (calledAt img c new k).reg .esp = img.area.stack k.current c.sp - 4 ∧
    (calledAt img c new k).reg .ebp = c.ebp ∧ (calledAt img c new k).reg .ebx = c.ebx ∧
    (calledAt img c new k).reg .esi = c.esi ∧ (calledAt img c new k).reg .edi = c.edi := by
  simp [calledAt, step, Machine.push, Machine.setReg, SwitchCtx.enter]

/-- **A switch leaves the stack above the call alone.** -/
theorem taskSwitch_live {x : Word} (hx : InPage img.area k.current x)
    (hge : ((calledAt img c new k).reg .esp).toNat ≤ x.toNat) :
    img.area.OnStack k.current x ∧
      (k.taskSwitch img c new).mem x = (calledAt img c new k).mem x := by
  have hroom := c.room
  have hsp := c.sp_le
  have hlt := k.current.isLt
  have hpcb := pcb_toNat img.area k.current
  have hbase := img.area.base_le
  rw [calledAt_regs.1, TaskArea.stack] at hge
  unfold InPage at hx
  refine ⟨⟨?_, hx⟩, ?_⟩
  · unfold pcbBytes
    bv_omega
  · rw [Running.taskSwitch_mem, Zeos.taskSwitch_mem]
    refine switchStacks_live ?_
    rw [TaskArea.stack]
    bv_omega

/-- **While others run**, a process that has called `task_switch` keeps what it has left
behind. -/
theorem away_path {h : List (Running × Act)} (hmem : t ∈ S) (ht : t ≠ k₀.current)
    (hp : Path (Step img S) k₀ h k) (hout : ∀ x ∈ h, ∀ c, x.2 ≠ .switch c t) :
    SameTask img t k₀.mem k.mem ∧ t ≠ k.current := by
  refine hp.invariant_of_forall (P := fun _ k => SameTask img t k₀.mem k.mem ∧ t ≠ k.current)
    (C := fun _ a => ∀ c, a ≠ .switch c t) hout ⟨SameTask.refl, ht⟩ ?_
  rintro - k a k' - ⟨hsame, hne⟩ hC hs
  refine ⟨hsame.trans (step_sameTask hs hmem hne), ?_⟩
  cases hs with
  | work hcur hother =>
    rw [hcur]
    exact hne
  | @switch c new hnew hne' =>
    -- a switch back to the process ends the run
    intro heq
    exact hC c (by rw [heq]; rfl)

/-! ### After boot -/

section Boot

variable {di pi : Nat} {fr : Frames} {K : Kernel}

/-- The stack of a process by the words of its frame. -/
theorem stack_eq (t : Frame) (i : Nat) : img.area.stack t i = slot t i := by
  rw [TaskArea.stack, pcb_eq, frameAddr_add]

/-- **The context that `init_idle` has forged is intact after boot.** -/
theorem Booted.intact (h : Booted img di pi fr K) (hpi : pi < 2 ^ 20) :
    Intact img.area K.mem ⟨pi, hpi⟩ (idleCont img) := by
  have hesp : img.area.espAddr ⟨pi, hpi⟩ = slot pi 5 := by
    rw [TaskArea.espAddr, img.espField_eq, pcb_eq]
    exact frameAddr_add pi 5
  have hadd : slot pi 1022 + 4 = slot pi 1023 := by
    rw [← frameAddr_add, ← frameAddr_add, BitVec.add_assoc]
    rfl
  refine ⟨?_, ⟨?_, ?_, trivial⟩, by decide, by decide, img.cpuIdle_ne⟩
  · rw [hesp, h.idle_esp]
    exact (stack_eq ⟨pi, hpi⟩ 1022).symm
  · rw [stack_eq]
    exact h.idle_ebp
  · rw [stack_eq]
    change load32 K.mem (slot pi 1022 + 4) = _
    rw [hadd, h.idle_eip]

/-- **Boot leaves well formed contexts behind**: the first process runs, and the idle one
has its forged context. -/
theorem boot_wellFormed (h : Booted img di pi fr K) (hpi : pi < 2 ^ 20) (hpcb : fr.pcb < 2 ^ 20) :
    WellFormed img {⟨fr.pcb, hpcb⟩, ⟨pi, hpi⟩} { toKernel := K, current := ⟨fr.pcb, hpcb⟩ } := by
  refine ⟨Set.mem_insert _ _, fun t ht hne => ?_⟩
  obtain rfl : t = ⟨pi, hpi⟩ := (Set.mem_insert_iff.mp ht).resolve_left hne
  exact Or.inr (h.intact hpi)

/-- The two processes after boot with the sample image. -/
theorem sample_booted : Booted sampleImage 0x14 0x15
    (framesOf 0x16 0x17 0x18 0x19 (sampleLoaded.initMm.allocatable.drop 6))
    (sampleLoaded.main sampleImage) :=
  sampleLoaded.booted (by decide +kernel) (by decide +kernel)

/-- The machine with the first process running. -/
def sampleRunning : Running where
  toKernel := sampleLoaded.main sampleImage
  current := 0x19

/-- A call of `task_switch` near the top of the stack. -/
def sampleSwitch : SwitchCtx where
  sp := 1010
  ebp := 0x19fd8
  ebx := 1
  esi := 2
  edi := 3
  ret := 0x10800
  contents := fun _ => 0
  spill := [0, 0]
  clobber := fun _ => 0
  room := by decide
  sp_le := by decide
  spill_le := by decide

end Boot

/-! ### Every process comes back -/

/-- **The round trip of a context switch.** A process that has called `task_switch` continues
right after the call when it is switched to again, with its registers and its stack as they
were, whatever the processes between have done. -/
theorem switch_round_trip {ka k₁ kb : Running} {h₁ h₂ : List (Running × Act)}
    (hwf : WellFormed img S k₀) (hp₁ : Path (Step img S) k₀ h₁ ka)
    (hcall : Step img S ka (.switch c new) k₁) (hp₂ : Path (Step img S) k₁ h₂ kb)
    (hout : ∀ x ∈ h₂, ∀ c, x.2 ≠ .switch c ka.current)
    (hback : Step img S kb (.switch c' ka.current) k') :
    RoundTrip img c new ka k' ∧ WellFormed img S k' := by
  have hwfa := wellFormed_path hwf hp₁
  have hwfb := wellFormed_path (wellFormed_step hwfa hcall) hp₂
  refine ⟨?_, wellFormed_step hwfb hback⟩
  have hmem := hwfa.current_mem
  cases hcall with
  | switch hnew hne =>
  cases hback with
  | switch hmem' hne' =>
  -- what the switch has saved is still there when somebody switches back
  obtain ⟨hsame, -⟩ := away_path hmem (Ne.symm hne) hp₂ hout
  have hintact : Intact img.area kb.mem ka.current (.suspended c) :=
    Intact.of_sameContext (by rw [Running.taskSwitch_mem]; exact taskSwitch_intact_self)
      hsame.context
  obtain ⟨-, heip, hesp, hebp, hebx, hesi, hedi⟩ := taskSwitch_continues (c := c') hne' hintact
  have hsame' := hsame.trans (@taskSwitch_sameTask img c' kb ka.current ka.current hne')
  obtain ⟨hesp', hebp', hebx', hesi', hedi'⟩ := @calledAt_regs img c ka new
  obtain ⟨hcur, htss, hmsr⟩ := @Running.taskSwitch_fields img c' kb ka.current
  -- the saved registers are those at the call
  rw [← Running.taskSwitch_cpu] at heip hesp hebp hebx hesi hedi
  refine ⟨hcur, heip, fun r hr => ?_, fun x hx hge => ?_, htss, hmsr, ?_, ?_⟩
  · simp only [List.mem_cons, List.not_mem_nil, or_false] at hr
    rcases hr with rfl | rfl | rfl | rfl | rfl
    · exact hesp.trans hesp'.symm
    · exact hebp.trans hebp'.symm
    · exact hebx.trans hebx'.symm
    · exact hesi.trans hesi'.symm
    · exact hedi.trans hedi'.symm
  · obtain ⟨hs, hlive⟩ := taskSwitch_live hx hge
    rw [hsame'.context x (Or.inl hs), hlive]
  · rw [taskSwitch_cr3, taskSwitch_getDIR]
  · rw [hsame'.getDIR, taskSwitch_getDIR]

/-- The first process gives the processor to the idle one, and gets it back. -/
theorem switch_round_trip_idle :
    ∃ k₁ k₂, WellFormed sampleImage {0x19, 0x15} sampleRunning ∧
      Step sampleImage {0x19, 0x15} sampleRunning (.switch sampleSwitch 0x15) k₁ ∧
      Step sampleImage {0x19, 0x15} k₁ (.switch sampleSwitch 0x19) k₂ ∧
      RoundTrip sampleImage sampleSwitch 0x15 sampleRunning k₂ := by
  have hwf : WellFormed sampleImage {0x19, 0x15} sampleRunning :=
    boot_wellFormed sample_booted (by decide) (by decide)
  have h1 : Step sampleImage {0x19, 0x15} sampleRunning (.switch sampleSwitch 0x15)
      (sampleRunning.taskSwitch sampleImage sampleSwitch 0x15) :=
    .switch (Set.mem_insert_of_mem _ rfl) (by decide)
  have h2 : Step sampleImage {0x19, 0x15}
      (sampleRunning.taskSwitch sampleImage sampleSwitch 0x15) (.switch sampleSwitch 0x19)
      ((sampleRunning.taskSwitch sampleImage sampleSwitch 0x15).taskSwitch sampleImage
        sampleSwitch 0x19) :=
    .switch (Set.mem_insert _ _) (by decide)
  exact ⟨_, _, hwf, h1, h2,
    (switch_round_trip hwf .nil h1 .nil (fun x hx => absurd hx (by simp)) h2).1⟩

end Zeos.Base
