import Zeos.Common.Resume
import Zeos.Game.Frames

/-!
# Every task resumes where it left

A run of the kernel determines, for every task, where it is to continue the next
time it is dispatched (`Zeos.Game.conts`): a task that has given the processor away
after its own call of `task_switch`, a child that has never run at the frame that
`sys_fork` has forged, the idle task at the one of `init_idle`. The question is
whether each dispatch of the run, `Zeos.Game.Resumes`, does continue it there.

For all dispatches of another task it does. But `sys_yield` puts the caller on the
ready queue first, so with nobody else there `sched_next_rr` chooses the caller
itself, and then the stack pointer that `switch_stack` loads is the one of some
earlier suspension, or of none at all. **A run resumes every task properly exactly
when each `yield` made with an empty ready queue finds in the PCB the stack pointer
that it is about to store** (`Zeos.Game.resumes_iff`).
-/

namespace Zeos.Game

open ByteMem CircList RoundRobin X86

variable {k k' : Kernel} {a : Sched Task} {img : Image}

/-! ### The memory a fork writes -/

section Fork

variable {c : ForkCtx} {t : Task} {mem : Mem}

/-- The stores of `sys_fork` to the page of the child, after the PCB has been
copied. -/
def forkedMem (img : Image) (c : ForkCtx) (t : Task) (mem : Mem) : Mem :=
  let registerEbp := img.area.stack t c.fp
  store32 (store32 (store32 mem (img.area.espAddr t) (registerEbp - 4)) registerEbp
    img.retFromFork) (registerEbp - 4) (load32 mem registerEbp)

/-- The memory of the task array after a fork. -/
theorem forkFinish_mem :
    (k.forkFinish img c t).cpu.mem = forkedMem img c t k.cpu.mem := rfl

/-- The stores to the page of the child stay in it. -/
theorem forkedMem_of_not_inPage {x : Word} (hx : ¬InPage img.area t x) :
    forkedMem img c t mem x = mem x := by
  have h1 := c.room
  have h2 := c.fp_le
  have hfp : ∀ w, (w - img.area.stack t c.fp).toNat < 4 → InPage img.area t w := fun w hw =>
    (onStack_block hw (by unfold pcbBytes; omega) (by omega)).2
  have hfp' : ∀ w, (w - (img.area.stack t c.fp - 4)).toNat < 4 → InPage img.area t w := by
    intro w hw
    have heq : img.area.stack t c.fp - 4 = img.area.stack t (c.fp - 1) := by
      unfold TaskArea.stack
      bv_omega
    rw [heq] at hw
    exact (onStack_block hw (by unfold pcbBytes; omega) (by omega)).2
  rw [forkedMem, store32_of_le, store32_of_le, store32_of_le]
  · by_contra hlt
    exact hx (inPage_espAddr (by omega)).1
  · by_contra hlt
    exact hx (hfp x (by omega))
  · by_contra hlt
    exact hx (hfp' x (by omega))

/-- **A fork leaves the pages of all tasks but the parent and the child alone.** -/
theorem samePage_fork {x parent : Task} (hx : x ≠ parent) (hxt : x ≠ t) :
    SamePage img.area x mem (forkedMem img c t (copyFlat (img.area.pcb parent) (img.area.pcb t)
      4096 (img.area.fill parent c.contents mem))) := by
  intro w hw
  rw [forkedMem_of_not_inPage fun h => hxt (inPage_unique hw h)]
  exact samePage_copyFlat_fill hx hxt w hw

/-- The continuation `sys_fork` forges for the child of `parent`. -/
def forkCont (img : Image) (c : ForkCtx) (parent : Task) : Cont :=
  .forged (c.fp - 1) (load32 c.contents (img.area.stack parent c.fp)) img.retFromFork

/-- **The child of a fork has the forged continuation.** -/
theorem intact_fork {parent : Task} :
    Intact img.area (forkedMem img c t (copyFlat (img.area.pcb parent) (img.area.pcb t) 4096
      (img.area.fill parent c.contents mem))) t (forkCont img c parent) := by
  have h1 := c.room
  have h2 := c.fp_le
  set mem' := copyFlat (img.area.pcb parent) (img.area.pcb t) 4096
    (img.area.fill parent c.contents mem) with hmem'
  have hsub : img.area.stack t c.fp - 4 = img.area.stack t (c.fp - 1) := by
    unfold TaskArea.stack
    bv_omega
  have hadd : img.area.stack t (c.fp - 1) + 4 = img.area.stack t c.fp := by
    unfold TaskArea.stack
    bv_omega
  -- the frame pointer of the caller, as the copy has it
  have hebp : load32 mem' (img.area.stack t c.fp) =
      load32 c.contents (img.area.stack parent c.fp) := by
    have hw : Words c.contents (img.area.stack parent c.fp)
        [load32 c.contents (img.area.stack parent c.fp)] := ⟨rfl, trivial⟩
    exact (words_copyFlat_fill hw (by unfold pcbBytes; omega) (by simp; omega)).1
  have happ' : Apart (img.area.stack t (c.fp - 1)) (img.area.stack t c.fp) := by
    rw [← hadd]
    unfold Apart
    constructor <;> bv_omega
  have hesp : ∀ i, 16 ≤ i → i ≤ 1023 → Apart (img.area.stack t i) (img.area.espAddr t) :=
    fun i hi hi' => apart_espAddr (by unfold pcbBytes; omega) hi'
  refine ⟨?_, ⟨?_, ?_, trivial⟩, by unfold pcbBytes; omega, by omega, img.retFromFork_ne⟩
  · rw [forkedMem, hsub, load32_store32_of_apart (hesp _ (by omega) (by omega)),
      load32_store32_of_apart (hesp _ (by omega) (by omega)), load32_store32]
    rfl
  · rw [forkedMem, hsub, load32_store32, hebp]
  · rw [hadd, forkedMem, hsub, load32_store32_of_apart happ', load32_store32]

end Fork

/-! ### Where each task is to continue -/

/-- The context of the call of `task_switch` that an operation makes, if it makes
one. -/
def dispatchCtx (img : Image) (k : Kernel) : Op → Option SwitchCtx
  | .clock c => if (ticked img k).updateSchedDataRr.needsSchedRr.1 then some c else none
  | .exit c => some c
  | .yield c => some c
  | _ => none

/-- What a step adds to the record of continuations: a task that is preempted or
yields will continue after its call of `task_switch`, the child of a fork at its
forged frame. -/
def contsStep (img : Image) (g : Task → Option Cont) (x : Kernel × Op) : Task → Option Cont :=
  match x.2 with
  | .clock c =>
    if (ticked img x.1).updateSchedDataRr.needsSchedRr.1 then
      Function.update g x.1.current (some (.suspended c))
    else g
  | .yield c => Function.update g x.1.current (some (.suspended c))
  | .fork c =>
    if forkSucceeds img x then
      Function.update g (Kernel.listHeadToTaskStruct (listFirst x.1.links .freequeue))
        (some (forkCont img c x.1.current))
    else g
  | _ => g

/-- The continuation of the idle task that `init_idle` forges. -/
def idleCont (img : Image) : Cont := .forged 1022 0 img.cpuIdle

/-- **Where each task is to continue after a run**, if it is not running. -/
def conts (img : Image) (h : List (Kernel × Op)) : Task → Option Cont :=
  h.foldl (contsStep img) fun t => if t = bootSched.idle then some (idleCont img) else none

/-- **The dispatch of a step, if there is one, continues the task it chooses**: the
stack pointer that is loaded is that of its continuation, and the machine goes on
there. The continuations are those after the step, so that they include the
suspension the step itself begins with. -/
def Resumes (img : Image) (g : Task → Option Cont) (x : Kernel × Op) : Prop :=
  ∀ c, dispatchCtx img x.1 x.2 = some c →
    let t := (exec img x.1 x.2).current
    ∃ q, g t = some q ∧
      loadedEsp img.area c x.1.current t x.1.cpu = q.esp img.area t ∧
      Continues img.area t (exec img x.1 x.2).cpu q

/-- Every dispatch of the run continues the task it chooses. -/
def AllResume (img : Image) : List (Kernel × Op) → Prop :=
  Transition.Along fun h x => Resumes img (conts img (h ++ [x])) x

/-- A `yield` with an empty ready queue finds in the PCB of the caller the stack
pointer that it is about to store there. -/
def YieldAlone (img : Image) (x : Kernel × Op) : Prop :=
  ∀ c, x.2 = .yield c → listEmpty x.1.links .readyqueue = true →
    x.1.registerEsp img x.1.current = c.framePtr img.area x.1.current

/-! ### One step -/

/-- Every task that waits for the processor has its continuation intact. -/
def Resumable (img : Image) (g : Task → Option Cont) (k : Kernel) (a : Sched Task) : Prop :=
  ∀ t, a.Waiting t → ∃ q, g t = some q ∧ Intact img.area k.cpu.mem t q

variable {g : Task → Option Cont} {c : SwitchCtx}

/-- Giving the processor away is a switch to the next task. -/
theorem rotate_cpu (hr : Refines k a) :
    ((k.updateProcessStateRr k.current (some .readyqueue)).schedNextRr img c).cpu =
      Zeos.taskSwitch img.area c k.current a.rotate.running k.cpu := by
  exact (rotate_spec img c hr).cpu

theorem exit_cpu (hr : Refines k a) :
    (k.sysExit img c).cpu = Zeos.taskSwitch img.area c k.current a.leave.running k.cpu := by
  rw [sysExit_eq, (schedNextRr_spec img c (queued_exited hr)).cpu]
  rfl

/-- **A switch keeps the continuations intact**, and makes that of the task it
leaves. -/
theorem resumable_switch {b : Sched Task} {new : Task} (h : Resumable img g k a)
    (hr : Refines k a) (hcpu : k'.cpu = Zeos.taskSwitch img.area c k.current new k.cpu)
    (hb : ∀ t, b.Waiting t → t = a.running ∨ a.Waiting t) :
    Resumable img (Function.update g k.current (some (.suspended c))) k' b := by
  intro t ht
  rw [hcpu]
  by_cases htc : t = k.current
  · subst htc
    exact ⟨.suspended c, by rw [Function.update_self], taskSwitch_intact_self⟩
  · obtain ⟨q, hq, hi⟩ := h t ((hb t ht).resolve_left (hr.current ▸ htc))
    exact ⟨q, by rw [Function.update_of_ne htc, hq], taskSwitch_intact htc hi⟩

/-- A task that leaves for good needs no continuation. -/
theorem resumable_leave {new : Task} (h : Resumable img g k a) (hr : Refines k a)
    (hne : a.running ≠ a.idle)
    (hcpu : k'.cpu = Zeos.taskSwitch img.area c k.current new k.cpu) :
    Resumable img g k' a.leave := by
  intro t ht
  have hw := waiting_leave hne ht
  obtain ⟨q, hq, hi⟩ := h t hw
  rw [hcpu]
  exact ⟨q, hq, taskSwitch_intact (hr.current ▸ hr.wf.ne_running hw) hi⟩

/-- **A dispatch of a waiting task continues it.** -/
theorem resumes_of_waiting {op : Op} {new : Task} (h : Resumable img g k a) (hr : Refines k a)
    (hnew : (exec img k op).current = new) (hw : a.Waiting new)
    (hcpu : ∀ c, dispatchCtx img k op = some c →
      (exec img k op).cpu = Zeos.taskSwitch img.area c k.current new k.cpu)
    (hg : contsStep img g (k, op) new = g new) : Resumes img (contsStep img g (k, op)) (k, op) := by
  intro c hc
  obtain ⟨q, hq, hi⟩ := h new hw
  have hne : new ≠ k.current := hr.current ▸ hr.wf.ne_running hw
  obtain ⟨h1, h2⟩ := taskSwitch_continues (c := c) hne hi
  refine ⟨q, ?_, ?_, ?_⟩
  · rw [hnew, hg, hq]
  · rw [hnew]
    exact h1
  · rw [hnew, hcpu c hc]
    exact h2

/-- **A step that gives the processor away** resumes the next task, if the caller
finds the right stack pointer in the case that it is the next task itself. -/
theorem resumes_rotate {op : Op} (h : Resumable img g k a) (hr : Refines k a)
    (hne : a.running ≠ a.idle) (hcur : (exec img k op).current = a.rotate.running)
    (hctx : dispatchCtx img k op = some c)
    (hcpu : (exec img k op).cpu = Zeos.taskSwitch img.area c k.current a.rotate.running k.cpu)
    (hg : contsStep img g (k, op) = Function.update g k.current (some (.suspended c)))
    (halone : a.ready = [] → k.registerEsp img k.current = c.framePtr img.area k.current) :
    Resumable img (contsStep img g (k, op)) (exec img k op) a.rotate ∧
      Resumes img (contsStep img g (k, op)) (k, op) := by
  constructor
  · rw [hg]
    exact resumable_switch h hr hcpu fun t => waiting_rotate hne
  · rcases rotate_running (s := a) with ⟨hemp, hself⟩ | ⟨-, hw⟩
    · intro c' hc'
      obtain rfl : c = c' := Option.some.inj (hctx.symm.trans hc')
      have hnew : (exec img k op).current = k.current := by rw [hcur, hself, hr.current]
      have hl := halone hemp
      refine ⟨.suspended c, ?_, ?_, ?_⟩
      · rw [hnew, hg, Function.update_self]
      · rw [hnew, loadedEsp_eq]
        exact hl
      · rw [hnew, hcpu, ← hcur, hnew]
        exact taskSwitch_continues_self hl
    · refine resumes_of_waiting h hr hcur hw (fun c' hc' => ?_) ?_
      · obtain rfl : c = c' := Option.some.inj (hctx.symm.trans hc')
        exact hcpu
      · rw [hg, Function.update_of_ne (hr.current ▸ hr.wf.ne_running hw)]

/-- A step without a dispatch that leaves the memory of the task array alone. -/
theorem resumes_stay {op : Op} (h : Resumable img g k a) (hctx : dispatchCtx img k op = none)
    (hcpu : (exec img k op).cpu = k.cpu) (hg : contsStep img g (k, op) = g)
    (hm : opMove img k op = .stay) :
    Resumable img (contsStep img g (k, op)) (exec img k op) (a.move (opMove img k op)) ∧
      Resumes img (contsStep img g (k, op)) (k, op) := by
  rw [hm, hg]
  refine ⟨fun t ht => ?_, fun c hc => absurd (hctx.symm.trans hc) (by simp)⟩
  rw [hcpu]
  exact h t ht

/-- A fork gives the child its forged continuation. -/
theorem resumable_fork (c : ForkCtx) (h : Resumable img g k a) (hr : Refines k a)
    (hf : Frames k a) :
    Resumable img (contsStep img g (k, .fork c)) (exec img k (.fork c)) a.spawn := by
  have hrin : Refines (k.enter .systemCallHandler) a := refines_quiet (quiet_enter _) hr
  have hfin : Frames (k.enter .systemCallHandler) a := frames_quiet (quiet_enter _) hf
  have hsucc : forkSucceeds img (k, .fork c) = true ↔ a.free ≠ [] := forkSucceeds_iff c hr hf
  cases hfree : a.free with
  | nil =>
    have hs : a.spawn = a := by simp [Sched.spawn, hfree]
    have hcpu : (exec img k (.fork c)).cpu = k.cpu := by
      rw [exec, quiet_leave.cpu, sysFork_of_empty c ((listEmpty_freequeue hrin).mpr hfree)]
      rfl
    have hg : contsStep img g (k, .fork c) = g := if_neg fun hc => hsucc.mp hc hfree
    rw [hs, hg]
    intro t ht
    rw [hcpu]
    exact h t ht
  | cons child ts =>
    have hring := hr.free
    rw [hfree, List.map_cons] at hring
    have hg : contsStep img g (k, .fork c) =
        Function.update g child (some (forkCont img c k.current)) := by
      refine (if_pos (hsucc.mpr (by simp [hfree]))).trans ?_
      rw [listFirst_eq hring]
      rfl
    have hmem : (exec img k (.fork c)).cpu.mem = forkedMem img c child
        (copyFlat (img.area.pcb k.current) (img.area.pcb child) 4096
          (img.area.fill k.current c.contents k.cpu.mem)) := by
      rw [exec, quiet_leave.cpu, sysFork_eq_ok c hrin hfin hfree]
      exact forkFinish_mem
    rw [hg]
    intro t ht
    rw [hmem]
    by_cases htc : t = child
    · subst htc
      exact ⟨forkCont img c k.current, by rw [Function.update_self], intact_fork⟩
    · have hw := (waiting_spawn hfree ht).resolve_left htc
      obtain ⟨q, hq, hi⟩ := h t hw
      refine ⟨q, by rw [Function.update_of_ne htc, hq], hi.congr ?_⟩
      exact samePage_fork (hr.current ▸ hr.wf.ne_running hw) htc

/-- **One step**: a `yield` that meets the condition, and every other operation,
resumes the task it dispatches and keeps the other continuations intact. -/
theorem resumes_exec {op : Op} (h : Resumable img g k a) (hr : Refines k a) (hf : Frames k a)
    (he : Enabled k op) (hy : YieldAlone img (k, op)) :
    Resumable img (contsStep img g (k, op)) (exec img k op) (a.move (opMove img k op)) ∧
      Resumes img (contsStep img g (k, op)) (k, op) := by
  have hrin : Refines (k.enter .systemCallHandler) a := refines_quiet (quiet_enter _) hr
  have hcur : (exec img k op).current = _ := (refines_exec hr he).current
  have hne : k.current ≠ k.idleTask → a.running ≠ a.idle := by
    rw [hr.current, hr.idleTask]
    exact id
  cases op with
  | clock c =>
    have hrt : Refines (ticked img k).updateSchedDataRr a :=
      refines_quantum _ (refines_quiet quiet_ticked hr)
    rcases needsSchedRr_cases (ticked img k).updateSchedDataRr with ⟨heq, -, hemp⟩ | ⟨r, heq⟩
    · have hm : opMove img k (.clock c) = .rotate := by simp [opMove, tickMove, heq]
      have hready : a.ready ≠ [] := fun hc => by
        rw [(listEmpty_readyqueue hrt).mpr hc] at hemp
        simp at hemp
      rw [hm] at hcur ⊢
      refine resumes_rotate (c := c) h hr (fun hri => hready (hr.wf.idle_alone hri)) hcur
        (by simp [dispatchCtx, heq]) ?_ (by simp [contsStep, heq]) fun hc => absurd hc hready
      rw [exec, clockHandler_eq, quiet_leave.cpu, Kernel.schedule, heq]
      simp only [if_true]
      rw [rotate_cpu hrt]
      simp only [Kernel.updateSchedDataRr, quiet_ticked.current, quiet_ticked.cpu]
    · refine resumes_stay h (by simp [dispatchCtx, heq]) ?_ (by simp [contsStep, heq])
        (by simp [opMove, tickMove, heq])
      rw [exec, clockHandler_eq, quiet_leave.cpu, Kernel.schedule, heq]
      exact (quiet_ticked : Quiet k (ticked img k)).cpu
  | keyboard port => exact resumes_stay h rfl (quiet_keyboardHandler port).cpu rfl rfl
  | fork c =>
    have hm : a.move (opMove img k (.fork c)) = a.spawn := forkMove_eq hf
    rw [hm]
    exact ⟨resumable_fork c h hr hf, fun c' hc' => absurd hc' (by simp [dispatchCtx])⟩
  | exit c =>
    have hcpu : (exec img k (.exit c)).cpu =
        Zeos.taskSwitch img.area c k.current a.leave.running k.cpu := by
      rw [exec, quiet_leave.cpu, exit_cpu hrin]
      rfl
    refine ⟨resumable_leave h hr (hne he) hcpu,
      resumes_of_waiting h hr hcur (leave_running (hne he)) (fun c' hc' => ?_) rfl⟩
    obtain rfl : c = c' := Option.some.inj hc'
    exact hcpu
  | yield c =>
    refine resumes_rotate (c := c) h hr (hne he) hcur rfl ?_ rfl fun hemp => ?_
    · rw [exec, quiet_leave.cpu, Kernel.sysYield, Kernel.forceTaskSwitch, rotate_cpu hrin]
      rfl
    · exact hy c rfl ((listEmpty_readyqueue hr).mpr hemp)
  | getStats pid st =>
    refine resumes_stay h rfl ?_ rfl rfl
    rw [exec, quiet_leave.cpu]
    rcases sysGetStats_cases (k := k.enter .systemCallHandler) pid st with heq | ⟨t, heq⟩
    · rw [heq]
      rfl
    · rw [heq]
      exact (quiet_reported t).cpu
  | pollEvent kb =>
    refine resumes_stay h rfl ?_ rfl rfl
    rw [exec, quiet_leave.cpu]
    rcases sysPollEvent_cases (k := k.enter .systemCallHandler) kb with heq | heq <;> rw [heq] <;>
      rfl
  | touch page => exact resumes_stay h rfl rfl rfl rfl

/-- **Conversely**, a `yield` with an empty ready queue that resumes the caller has
found the stack pointer that it stores. -/
theorem yieldAlone_of_resumes {op : Op} (hr : Refines k a) (he : Enabled k op)
    (h : Resumes img (contsStep img g (k, op)) (k, op)) : YieldAlone img (k, op) := by
  rintro c rfl hemp
  have hcur : (exec img k (.yield c)).current = _ := (refines_exec hr he).current
  have hemp' : a.ready = [] := (listEmpty_readyqueue hr).mp hemp
  have hself : (a.move (opMove img k (.yield c))).running = a.running := by
    simp [opMove, Sched.move, Sched.rotate, Sched.next, hemp']
  have hnew : (exec img k (.yield c)).current = k.current := by rw [hcur, hself, hr.current]
  obtain ⟨q, hq, hl, -⟩ := h c rfl
  rw [hnew] at hq hl
  obtain rfl : Cont.suspended c = q := by
    simpa [contsStep] using hq
  rw [loadedEsp_eq] at hl
  exact hl

/-! ### Runs -/

/-- The idle task starts with its forged continuation. -/
theorem resumable_boot : Resumable img (conts img []) (k.boot img) bootSched := by
  intro t ht
  obtain rfl : t = 0 := by
    rcases ht with ht | ⟨ht, -⟩
    · simp [bootSched] at ht
    · exact ht
  refine ⟨idleCont img, rfl, ?_⟩
  rw [boot_cpu_mem]
  have happ' : Apart (img.area.stack 0 1022) (img.area.stack 0 1023) := by
    unfold Apart TaskArea.stack
    constructor <;> bv_omega
  have hadd : img.area.stack 0 1022 + 4 = img.area.stack 0 1023 := by
    unfold TaskArea.stack
    bv_omega
  refine ⟨load32_store32 _ _ _, ⟨?_, ?_, trivial⟩, by decide, by decide, img.cpuIdle_ne⟩
  · rw [load32_store32_of_apart (apart_espAddr (by decide) (by decide)).symm]
    exact load32_store32 _ _ _
  · rw [hadd, load32_store32_of_apart (apart_espAddr (by decide) (by decide)).symm,
      load32_store32_of_apart happ', load32_store32]

theorem conts_snoc {h : List (Kernel × Op)} {x : Kernel × Op} :
    conts img (h ++ [x]) = contsStep img (conts img h) x := by
  rw [conts, List.foldl_append]
  rfl

/-- **A run resumes every task properly exactly when each `yield` with an empty
ready queue finds the right stack pointer.** -/
theorem resumes_iff {h : List (Kernel × Op)} {k₀ : Kernel}
    (hp : Transition.Path (Step img) (k₀.boot img) h k) :
    AllResume img h ↔ ∀ x ∈ h, YieldAlone img x := by
  have key : ∃ a, Refines k a ∧ Frames k a ∧
      ((∀ x ∈ h, YieldAlone img x) → Resumable img (conts img h) k a) ∧
      (AllResume img h ↔ ∀ x ∈ h, YieldAlone img x) := by
    refine hp.invariant (P := fun h k => ∃ a, Refines k a ∧ Frames k a ∧
      ((∀ x ∈ h, YieldAlone img x) → Resumable img (conts img h) k a) ∧
      (AllResume img h ↔ ∀ x ∈ h, YieldAlone img x)) ?_ ?_
    · exact ⟨bootSched, refines_boot, frames_boot, fun _ => resumable_boot,
        iff_of_true Transition.along_nil (by simp)⟩
    · rintro h k op k' - ⟨a, hr, hf, hres, hiff⟩ ⟨he, rfl⟩
      refine ⟨_, refines_exec hr he, frames_exec hr hf he, fun hy => ?_, ?_⟩
      · simp only [List.mem_append, List.mem_singleton, or_imp, forall_and, forall_eq] at hy
        rw [conts_snoc]
        exact (resumes_exec (hres hy.1) hr hf he hy.2).1
      · rw [AllResume, Transition.along_snoc]
        simp only [List.mem_append, List.mem_singleton, or_imp, forall_and, forall_eq]
        rw [conts_snoc]
        exact ⟨fun ⟨h1, h2⟩ => ⟨hiff.mp h1, yieldAlone_of_resumes hr he h2⟩,
          fun ⟨h1, h2⟩ => ⟨hiff.mpr h1, (resumes_exec (hres h1) hr hf he h2).2⟩⟩
  obtain ⟨-, -, -, -, hiff⟩ := key
  exact hiff

/-- The condition of a run of one `fork`. -/
theorem resumes_iff_fork :
    AllResume sampleImage [(powerOn.boot sampleImage, .fork sampleFork)] ↔
      ∀ x ∈ [(powerOn.boot sampleImage, Op.fork sampleFork)], YieldAlone sampleImage x :=
  resumes_iff (Transition.Path.nil.snoc step_fork)

/-- The stack pointer in the PCB of the first process, which nobody has written
yet. -/
theorem registerEsp_powerOn : (powerOn.boot sampleImage).registerEsp sampleImage 1 = 0 := by
  rw [Kernel.registerEsp, boot_cpu_mem]
  decide

/-- **The first process is lost when it yields alone**: right after boot, a `yield`
loads the stack pointer zero. -/
theorem yield_alone_lost :
    ∃ k, Transition.Path (Step sampleImage) (powerOn.boot sampleImage)
        [(powerOn.boot sampleImage, .yield sampleSwitch)] k ∧
      ¬AllResume sampleImage [(powerOn.boot sampleImage, .yield sampleSwitch)] := by
  have hstep : Step sampleImage (powerOn.boot sampleImage) (.yield sampleSwitch)
      (exec sampleImage (powerOn.boot sampleImage) (.yield sampleSwitch)) := ⟨step_fork.1, rfl⟩
  refine ⟨_, Transition.Path.nil.snoc hstep, fun hall => ?_⟩
  have hres := (Transition.along_snoc (h := []).mp hall).2
  have hy := yieldAlone_of_resumes (g := conts sampleImage []) refines_boot hstep.1
    (by rw [← conts_snoc]; exact hres) sampleSwitch rfl
    ((listEmpty_readyqueue refines_boot).mpr rfl)
  rw [boot_current, registerEsp_powerOn] at hy
  exact absurd hy (by decide)

end Zeos.Game
