import Zeos.Game.Frames
import Zeos.Exam.Kernel

/-!
# Who owns the pipes

Every process is to have a pipe of its own: a frame in use that nobody else uses and
that is given back when the process exits, and a list of writers with its head in the
process's own PCB (`Zeos.Exam.PipesOwned`). Of the three places where this has to be
seen to, `init_task1` does it; `sys_fork` leaves the child with a copy of the pipe of
its parent, and `sys_exit` leaves the frame in use. So there is one frame for the pipes
of all processes, ever, and one list of writers, that of the slot of the first process:
**the pipes are owned exactly as long as the first process is the only one**
(`Zeos.Exam.pipes_owned_iff`).
-/

namespace Zeos.Exam

open ByteMem CircList Loop Paging RoundRobin Transition X86

/-! ### A frame that is never given back -/

/-- The first frame above the kernel is in use, and no page is mapped to it. -/
structure Reserved (mm : Mm) : Prop where
  /-- It is in use. -/
  used : mm.physMem numPagKernel = .usedFrame
  /-- No page is mapped to it, and every entry has a frame number of its size. -/
  base : ∀ t p, p < totalPages →
    (mm.pagusrTable t p).base ≠ numPagKernel ∧ (mm.pagusrTable t p).base < 2 ^ 20

section Reserved

variable {mm mm' : Mm} {t pt : Task} {p : Nat} {e : Entry} {frame : Int}

theorem reserved_congr (h : Reserved mm) (hp : mm'.physMem = mm.physMem)
    (ht : mm'.pagusrTable = mm.pagusrTable) : Reserved mm' :=
  ⟨hp ▸ h.used, ht ▸ h.base⟩

theorem reserved_setCr3 {dir : Task} (h : Reserved mm) : Reserved (mm.setCr3 dir) :=
  reserved_congr h rfl rfl

theorem reserved_setEntry (h : Reserved mm) (he : e.base ≠ numPagKernel ∧ e.base < 2 ^ 20) :
    Reserved (mm.setEntry pt p e) := by
  refine ⟨h.used, fun t q hq => ?_⟩
  rw [Mm.setEntry]
  by_cases ht : t = pt
  · subst ht
    by_cases hqp : q = p
    · subst hqp
      simpa using he
    · simpa [hqp] using h.base t q hq
  · simpa [ht] using h.base t q hq

theorem pbaseAddr_lt : Mm.pbaseAddr frame < 2 ^ 20 := by
  unfold Mm.pbaseAddr
  omega

theorem reserved_setSsPag (h : Reserved mm) (hf : Mm.pbaseAddr frame ≠ numPagKernel) :
    Reserved (mm.setSsPag pt p frame) :=
  reserved_setEntry h ⟨hf, pbaseAddr_lt⟩

theorem reserved_delSsPag (h : Reserved mm) : Reserved (mm.delSsPag pt p) :=
  reserved_setEntry h (by decide)

/-- A frame some page is mapped to. -/
theorem pbaseAddr_getFrame (h : Reserved mm) (hp : p < totalPages) :
    Mm.pbaseAddr (mm.getFrame pt p) ≠ numPagKernel := by
  obtain ⟨hne, hlt⟩ := h.base pt p hp
  have heq : Mm.pbaseAddr (mm.getFrame pt p) = mm.getFrame pt p := by
    unfold Mm.pbaseAddr Mm.getFrame
    omega
  rw [heq]
  exact hne

/-- `free_frame` does not take it back. -/
theorem reserved_freeFrame {f : Nat} (h : Reserved mm) : Reserved (mm.freeFrame f) := by
  unfold Mm.freeFrame
  split
  · next hf =>
    exact ⟨(Function.update_of_ne (by omega) _ _).trans h.used, h.base⟩
  · exact h

/-- `alloc_frame` does not give it out. -/
theorem reserved_allocFrame (h : Reserved mm) :
    Reserved mm.allocFrame.2 ∧ Mm.pbaseAddr mm.allocFrame.1 ≠ numPagKernel := by
  rcases allocFrame_cases mm with ⟨f, hs, hfree, -, heq⟩ | ⟨-, heq⟩
  · have hne : f ≠ numPagKernel := by
      rintro rfl
      rw [h.used] at hfree
      exact absurd hfree (by simp)
    rw [heq]
    refine ⟨⟨(Function.update_of_ne hne.symm _ _).trans h.used, h.base⟩, ?_⟩
    rw [pbaseAddr_of_lt hs.2.1]
    exact hne
  · rw [heq]
    refine ⟨h, ?_⟩
    change Mm.pbaseAddr (-1) ≠ numPagKernel
    decide

theorem reserved_copyThrough {pag window : Nat} (h : Reserved mm)
    (hf : Mm.pbaseAddr frame ≠ numPagKernel) :
    Reserved (mm.copyThrough pt pag window frame) :=
  reserved_delSsPag (reserved_congr (reserved_setSsPag h hf) rfl rfl)

/-- Giving data pages back. -/
theorem reserved_exitFree (h : Reserved mm) : Reserved (Game.Kernel.exitFree pt mm) :=
  forLoop_induction (I := fun _ mm => Reserved mm) h fun _ _ _ h =>
    reserved_delSsPag (reserved_freeFrame h)

theorem reserved_forkAlloc {n pag : Nat} (h : Reserved mm) :
    Reserved (Game.Kernel.forkAlloc pt n pag mm).2 := by
  induction n generalizing pag mm with
  | zero => exact h
  | succ n ih =>
    obtain ⟨ha, hf⟩ := reserved_allocFrame h
    rw [Game.Kernel.forkAlloc]
    dsimp only
    split
    · exact ih (reserved_setSsPag ha hf)
    · exact forLoop_induction (I := fun _ mm => Reserved mm) ha fun _ _ _ h =>
        reserved_delSsPag (reserved_freeFrame h)

theorem reserved_forkShare (h : Reserved mm) : Reserved (Game.Kernel.forkShare pt t mm) := by
  unfold Game.Kernel.forkShare
  refine forLoop_induction (I := fun _ mm => Reserved mm) (forLoop_induction
    (I := fun _ mm => Reserved mm) h ?_) ?_
  · exact fun i mm hi h => reserved_setSsPag h (pbaseAddr_getFrame h (by
      unfold numPagKernel at hi
      unfold totalPages
      omega))
  · exact fun i mm hi h => reserved_setSsPag h (pbaseAddr_getFrame h (by
      rw [Game.pagLogInitCode_eq]
      unfold numPagCode at hi
      unfold totalPages
      omega))

theorem reserved_forkCopy (h : Reserved mm) : Reserved (Game.Kernel.forkCopy pt t mm) :=
  forLoop_induction (I := fun _ mm => Reserved mm) h fun i mm hi h =>
    reserved_copyThrough h (pbaseAddr_getFrame h (by
      unfold numPagData at hi
      unfold numPagKernel numPagCode totalPages
      omega))

theorem reserved_setUserPages (h : Reserved mm) : Reserved (mm.setUserPages Game.userLayout pt) := by
  have hpage : ∀ mm : Mm, Reserved mm → ∀ p b, Reserved (mm.allocFrame.2.setEntry pt p
      { base := Mm.pbaseAddr mm.allocFrame.1, present := true, rw := b, user := true }) :=
    fun mm h p b => reserved_setEntry (reserved_allocFrame h).1
      ⟨(reserved_allocFrame h).2, pbaseAddr_lt⟩
  exact forLoop_induction (I := fun _ mm => Reserved mm) (forLoop_induction
    (I := fun _ mm => Reserved mm) h fun _ mm _ h => hpage mm h _ _) fun _ mm _ h => hpage mm h _ _

end Reserved

/-! ### The operations of the GAME kernel -/

section Game

variable {g : Game.Kernel} {img : Game.Image} {a : Sched Task} {t : Task}

/-- `schedule` changes the loaded directory at most. -/
theorem schedule_mm (c : SwitchCtx) (hr : Game.Refines g a) :
    (g.schedule img c).mm = g.mm ∨ ∃ dir, (g.schedule img c).mm = g.mm.setCr3 dir := by
  have hr' : Game.Refines g.updateSchedDataRr a := Game.refines_quantum _ hr
  rw [Game.Kernel.schedule]
  rcases Game.needsSchedRr_cases g.updateSchedDataRr with ⟨heq, -, -⟩ | ⟨r, heq⟩
  · rw [heq]
    exact Or.inr ⟨_, (Game.rotate_spec img c hr').mm⟩
  · rw [heq]
    exact Or.inl rfl

/-- With frames for a child, `sys_fork` makes one. -/
theorem forkMove_of_enough (h : numPagData ≤ (freeSlots g.mm.physMem).length) :
    Game.forkMove g = .spawn := by
  simp only [Game.forkMove, Game.forkAlloc_eq _ _ _ _ h, if_true]

theorem reserved_sysExit (c : SwitchCtx) (hr : Game.Refines g a) (h : Reserved g.mm) :
    Reserved (g.sysExit img c).mm := by
  rw [Game.sysExit_eq, (Game.schedNextRr_spec img c (Game.queued_exited hr)).mm, Game.exited_mm]
  exact reserved_setCr3 (reserved_exitFree h)

theorem reserved_sysFork (c : Game.ForkCtx) (hr : Game.Refines g a) (h : Reserved g.mm) :
    Reserved (g.sysFork img c).2.mm := by
  cases hf : a.free with
  | nil =>
    rw [Game.sysFork_of_empty c ((Game.listEmpty_freequeue hr).mpr hf)]
    exact h
  | cons t ts =>
    have ha : ∀ pt, Reserved (Game.Kernel.forkAlloc pt numPagData 0 g.mm).2 :=
      fun _ => reserved_forkAlloc h
    rw [Game.sysFork_eq c hr hf]
    specialize ha ((Game.forkBegun img c g t).getPT t)
    cases hx : Game.Kernel.forkAlloc ((Game.forkBegun img c g t).getPT t) numPagData 0 g.mm with
    | mk ok mm =>
      rw [hx] at ha
      cases ok with
      | false => exact ha
      | true =>
        change Reserved ((Game.forkMapped img c g t mm).forkFinish img c t).mm
        rw [Game.forkFinish_mm]
        exact reserved_setCr3 (reserved_forkCopy (reserved_forkShare ha))

/-- What a move brings into use. -/
theorem inUse_of_inUse_move {m : Move} (hw : Wf a) (h : Game.InUse (a.move m) t) :
    Game.InUse a t ∨ m = .spawn ∧ ∃ ts, a.free = t :: ts := by
  cases m with
  | stay => exact Or.inl h
  | rotate =>
    exact Or.inl ((Game.inUse_next (a := { a with ready := a.ready ++ [a.running] })).mp h)
  | spawn =>
    cases hf : a.free with
    | nil =>
      rw [Sched.move, Sched.spawn, hf] at h
      exact Or.inl h
    | cons x ts =>
      rcases (Game.inUse_spawn hw hf).mp h with h | rfl
      · exact Or.inl h
      · exact Or.inr ⟨rfl, ts, rfl⟩
  | giveBack =>
    left
    obtain ⟨h1, h2⟩ := h
    rw [Sched.move, Sched.giveBack] at h1 h2
    split at h1
    · next hf => exact ⟨h1, by simpa [hf] using h2⟩
    · next x ts hf =>
      refine ⟨?_, by simpa [hf] using h2⟩
      rw [hf]
      simpa [or_comm] using h1
  | leave =>
    left
    obtain ⟨h1, h2⟩ := Game.inUse_next.mp h
    exact ⟨fun hm => h1 (List.mem_append_left _ hm), h2⟩

/-- Only an exit takes a task out of use. -/
theorem inUse_move {m : Move} (hw : Wf a) (hm : m ≠ .leave) (h : Game.InUse a t) :
    Game.InUse (a.move m) t := by
  cases m with
  | stay => exact h
  | rotate => exact (Game.inUse_next (a := { a with ready := a.ready ++ [a.running] })).mpr h
  | spawn =>
    cases hf : a.free with
    | nil =>
      rw [Sched.move, Sched.spawn, hf]
      exact h
    | cons x ts => exact (Game.inUse_spawn hw hf).mpr (Or.inl h)
  | giveBack =>
    obtain ⟨h1, h2⟩ := h
    rw [Sched.move, Sched.giveBack]
    split
    · exact ⟨h1, h2⟩
    · next x ts hf =>
      rw [hf] at h1
      exact ⟨by simpa [or_comm] using h1, h2⟩
  | leave => exact absurd rfl hm

end Game

/-! ### One pipe for all -/

variable {k k' k₀ : Kernel} {img : Game.Image} {a : Sched Task} {t : Task} {op : Op}
  {h : List (Kernel × Op)}

/-- The pipe of the first process, or a copy of it. -/
structure FirstPipe (p : Pipe) : Prop where
  /-- The first frame above the kernel. -/
  frame : p.frame = numPagKernel
  /-- The list of writers of the first process. -/
  writers : p.writers = { next := .writers 1, prev := .writers 1 }

/-- **All processes share the pipe of the first one**, in a state that stands for the
abstract state `a`. -/
structure Shared (k : Kernel) (a : Sched Task) : Prop where
  /-- The queues are in order. -/
  refines : Game.Refines k.game a
  /-- The frame of the pipe is nobody's page. -/
  reserved : Reserved k.game.mm
  /-- Every process, and the PCB of the first one, has the pipe. -/
  pipe : ∀ t, t = 1 ∨ Game.InUse a t → FirstPipe (k.pipeinfo t)

/-- An operation that leaves the pipes alone and brings nobody into use. -/
theorem shared_of_move {g : Game.Kernel} {m : Move} (hs : Shared k a) (hm : m ≠ .spawn)
    (hr : Game.Refines g (a.move m)) (hmm : Reserved g.mm) :
    Shared { k with game := g } (a.move m) := by
  refine ⟨hr, hmm, fun t ht => hs.pipe t (ht.imp_right fun hu => ?_)⟩
  exact (inUse_of_inUse_move hs.refines.wf hu).resolve_right fun h => hm h.1

theorem shared_quiet {g : Game.Kernel} (hs : Shared k a) (hq : Game.Quiet k.game g) :
    Shared { k with game := g } a :=
  shared_of_move (m := .stay) hs (by simp) (Game.refines_quiet hq hs.refines)
    (hq.mm.symm ▸ hs.reserved)

theorem shared_leave (hs : Shared k a) : Shared k.leave a := shared_quiet hs Game.quiet_leave

/-- `sys_fork` gives the child the pipe of its parent. -/
theorem shared_sysFork (c : Game.ForkCtx) (hs : Shared k a) (hne : a.running ≠ a.idle) :
    Shared (k.sysFork img c).2 (a.move (Game.forkMove k.game)) := by
  have hr : Game.Refines (k.game.sysFork img c).2 (a.move (Game.forkMove k.game)) :=
    Game.refines_sysFork c hs.refines hne
  have hmm : Reserved (k.game.sysFork img c).2.mm :=
    reserved_sysFork c hs.refines hs.reserved
  cases hf : a.free with
  | nil =>
    have hemp := (Game.listEmpty_freequeue hs.refines).mpr hf
    have hcopy : k.copyPipe = k.pipeinfo := if_pos hemp
    refine ⟨hr, hmm, fun t ht => ?_⟩
    change FirstPipe (k.copyPipe t)
    rw [hcopy]
    refine hs.pipe t (ht.imp_right fun hu => ?_)
    refine (inUse_of_inUse_move hs.refines.wf hu).resolve_right ?_
    rintro ⟨-, ts, h⟩
    rw [hf] at h
    exact absurd h (by simp)
  | cons x ts =>
    have hring := hs.refines.free
    rw [hf, List.map_cons] at hring
    have hcopy : k.copyPipe = Function.update k.pipeinfo x (k.pipeinfo k.game.current) := by
      rw [Kernel.copyPipe, listEmpty_cons hring, listFirst_eq hring]
      rfl
    refine ⟨hr, hmm, fun t ht => ?_⟩
    change FirstPipe (k.copyPipe t)
    rw [hcopy]
    by_cases htx : t = x
    · subst htx
      rw [Function.update_self, hs.refines.current]
      exact hs.pipe _ (Or.inr ⟨(running_notMem hs.refines.wf).1, hne⟩)
    · rw [Function.update_of_ne htx]
      refine hs.pipe t (ht.imp_right fun hu => ?_)
      refine (inUse_of_inUse_move hs.refines.wf hu).resolve_right ?_
      rintro ⟨-, ts', h⟩
      rw [hf] at h
      exact htx (List.cons.inj h).1.symm

/-- A clock interrupt: the running task goes on, or to the end of the ready queue. -/
theorem shared_clock (c : SwitchCtx) (hs : Shared k a) :
    ∃ m, (m = .stay ∨ m = .rotate) ∧ Shared (exec img k (.clock c)) (a.move m) ∧
      (exec img k (.clock c)).game.mm.physMem = k.game.mm.physMem := by
  -- the state in which `clock_routine` calls `schedule`
  set g : Game.Kernel := { (k.game.enter .clockHandler).userToSystem with
    zeosTicks := wrapInt ((k.game.enter .clockHandler).userToSystem.zeosTicks + 1) } with hg
  have hq : Game.Quiet k.game g :=
    ((Game.quiet_enter _).trans (Game.quiet_updateStats _ _)).trans (Game.quiet_device _ _)
  have hs' : Shared { k with game := g } a := shared_quiet hs hq
  have hm : Game.tickMove g = .stay ∨ Game.tickMove g = .rotate := by
    unfold Game.tickMove
    split <;> simp
  have hmm := @schedule_mm g img a c hs'.refines
  have hres : Reserved (g.schedule img c).mm := by
    rcases hmm with heq | ⟨dir, heq⟩
    · rw [heq]
      exact hs'.reserved
    · rw [heq]
      exact reserved_setCr3 hs'.reserved
  have hr : Game.Refines (g.schedule img c) (a.move (Game.tickMove g)) :=
    Game.refines_schedule c hs'.refines
  have hspawn : Game.tickMove g ≠ .spawn := by
    rcases hm with h | h <;> rw [h] <;> simp
  have hsched := shared_of_move hs' hspawn hr hres
  refine ⟨_, hm, shared_leave hsched, ?_⟩
  have hphys : (g.schedule img c).mm.physMem = g.mm.physMem := by
    rcases hmm with heq | ⟨dir, heq⟩ <;> rw [heq]
    rfl
  exact (congrArg Mm.physMem Game.quiet_leave.mm).trans (hphys.trans (congrArg Mm.physMem hq.mm))

/-- `yield`: the running process goes to the end of the ready queue. -/
theorem shared_yield (c : SwitchCtx) (hs : Shared k a) (hne : a.running ≠ a.idle) :
    Shared (exec img k (.yield c)) (a.move .rotate) ∧
      (exec img k (.yield c)).game.mm.physMem = k.game.mm.physMem := by
  have hin : Shared (k.enter .systemCallHandler) a := shared_quiet hs (Game.quiet_enter _)
  have hmm : ((k.game.enter .systemCallHandler).sysYield img c).mm = _ :=
    (Game.rotate_spec img c hin.refines).mm
  have hres : Reserved ((k.game.enter .systemCallHandler).sysYield img c).mm := by
    rw [hmm]
    exact reserved_setCr3 hin.reserved
  have hrot := shared_of_move (m := .rotate) hin (by simp)
    (Game.refines_rotate c hin.refines hne) hres
  have hphys : ((k.game.enter .systemCallHandler).sysYield img c).mm.physMem =
      k.game.mm.physMem := by
    rw [hmm]
    rfl
  exact ⟨shared_leave hrot, (congrArg Mm.physMem Game.quiet_leave.mm).trans hphys⟩

/-- `exit`: the running process is gone. -/
theorem shared_exit (c : SwitchCtx) (hs : Shared k a) (hne : a.running ≠ a.idle) :
    Shared (exec img k (.exit c)) (a.move .leave) := by
  have hin : Shared (k.enter .systemCallHandler) a := shared_quiet hs (Game.quiet_enter _)
  exact shared_leave (shared_of_move hin (by simp) (Game.refines_sysExit c hin.refines hne)
    (reserved_sysExit c hin.refines hin.reserved))

/-- `fork`: there is a child, or there is none. -/
theorem shared_fork (c : Game.ForkCtx) (hs : Shared k a) (hne : a.running ≠ a.idle) :
    Shared (exec img k (.fork c)) (a.move (Game.forkMove k.game)) :=
  shared_leave (shared_sysFork c (shared_quiet hs (Game.quiet_enter .systemCallHandler)) hne)

/-- A system call is not made by the idle task. -/
theorem running_ne_idle (hs : Shared k a) (h : k.game.current ≠ k.game.idleTask) :
    a.running ≠ a.idle := by
  rwa [hs.refines.current, hs.refines.idleTask] at h

/-- **One step**: all processes still share the pipe, and only an exit takes one out of
use. -/
theorem shared_exec (hs : Shared k a) (he : Enabled k op) :
    ∃ m, Shared (exec img k op) (a.move m) ∧ (m = .leave → ∃ c, op = .exit c) := by
  cases op with
  | clock c =>
    obtain ⟨m, hm, hs', -⟩ := @shared_clock k img a c hs
    refine ⟨m, hs', ?_⟩
    rintro rfl
    exact absurd hm (by simp)
  | fork c =>
    refine ⟨_, shared_fork c hs (running_ne_idle hs he), fun h => absurd h ?_⟩
    unfold Game.forkMove
    dsimp only
    split <;> simp
  | exit c => exact ⟨.leave, shared_exit c hs (running_ne_idle hs he), fun _ => ⟨c, rfl⟩⟩
  | yield c =>
    exact ⟨.rotate, (shared_yield c hs (running_ne_idle hs he)).1, fun h => absurd h (by simp)⟩

/-! ### After boot -/

/-- The tables before the first process has its pages. -/
theorem base_bootMm {g : Game.Kernel} {p : Nat} (hp : p < totalPages) :
    ((Game.bootMm img g).pagusrTable t p).base < numPagKernel := by
  have hi : (Mm.initEntry p).base < numPagKernel := by
    unfold Mm.initEntry
    split
    · next h => exact h.2
    · decide
  have heq : (Game.bootMm img g).pagusrTable t p =
      if p = img.lowGuard ∨ p = img.highGuard then { Mm.initEntry p with present := false }
      else Mm.initEntry p := if_pos hp
  rw [heq]
  split <;> exact hi

/-- `alloc_frame` gives the first pipe the first frame. -/
theorem allocFrame_bootMm (img : Game.Image) (g : Game.Kernel) :
    (Game.bootMm img g).allocFrame = ((numPagKernel : Int), { Game.bootMm img g with
      physMem := Function.update (Game.bootMm img g).physMem numPagKernel .usedFrame }) := by
  have hs : slots = numPagKernel :: slots.tail := rfl
  exact allocFrame_of_cons (Game.freeSlots_bootMm.trans hs)

/-- That frame is reserved before the first process gets its pages. -/
theorem reserved_bootMm (img : Game.Image) (g : Game.Kernel) :
    Reserved (Game.bootMm img g).allocFrame.2 := by
  rw [allocFrame_bootMm]
  constructor
  · simp
  · intro t p hp
    have hlt : ((Game.bootMm img g).pagusrTable t p).base < numPagKernel := base_bootMm hp
    exact ⟨hlt.ne, hlt.trans (by decide)⟩

/-- There are frames for a second process. -/
theorem freeSlots_pages (img : Game.Image) (g : Game.Kernel) :
    numPagData ≤ (freeSlots
      ((Game.bootMm img g).allocFrame.2.setUserPages Game.userLayout t).physMem).length := by
  have hs : freeSlots (Game.bootMm img g).physMem = numPagKernel :: slots.tail :=
    Game.freeSlots_bootMm
  have htail : freeSlots (Game.bootMm img g).allocFrame.2.physMem = slots.tail := by
    rw [allocFrame_bootMm]
    exact freeSlots_update hs
  have hlen : slots.tail.length = 383 := by rw [List.length_tail, length_slots]
  rw [freeSlots_setUserPages _ _ _ (by rw [htail, hlen]; decide), htail, List.length_drop, hlen]
  decide

/-- The first process, whose PCB is `t`, and its pipe: `init_task1` gets a frame for the
pipe before it gets the frames of the pages. -/
theorem initTask1_eq {ts : List Task}
    (hr : IsRing k.game.links .freequeue ((t :: ts).map .task)) :
    k.initTask1 img =
      { game := { Game.initTask1At img t k.game with
          mm := (k.game.mm.allocFrame.2.setUserPages Game.userLayout
            (k.game.mm.allocFrame.2.dirPages t).table).setCr3 t }
        pipeinfo := Function.update k.pipeinfo t
          { frame := k.game.mm.allocFrame.1
            numbytes := 0
            readingFrom := none
            writers := { next := .writers t, prev := .writers t } } } := by
  rw [Kernel.initTask1, Game.takeFree_eq hr]
  simp [Game.initTask1At, Kernel.initializeData, Game.Kernel.modifyTask,
    Game.Kernel.allocateDIR, Game.Kernel.initStats, Game.Kernel.getTicks, Game.Kernel.getPT,
    Game.Kernel.getDIR]

/-- **The booted kernel**: that of the GAME kernel, but for memory management and the
keyboard, and the pipe of the first process. -/
theorem boot_eq (img : Game.Image) (k : Kernel) : ∃ mm kb, Reserved mm ∧
    numPagData ≤ (freeSlots mm.physMem).length ∧
    k.boot img =
      { game := { k.game.boot img with mm := mm, keyboard := kb }
        pipeinfo := Function.update k.pipeinfo 1
          { frame := numPagKernel
            numbytes := 0
            readingFrom := none
            writers := { next := .writers 1, prev := .writers 1 } } } := by
  have hidle : (k.game.initMm img).initSched.initIdle img =
      Game.initIdleAt img 0 (Game.scheduled img k.game) :=
    Game.initIdle_eq Game.isRing_scheduled
  have hmm : (Game.initIdleAt img 0 (Game.scheduled img k.game)).mm = Game.bootMm img k.game := by
    change (Game.scheduled img k.game).mm = _
    exact Game.initSched_mm
  have hboot := @Game.boot_eq k.game img
  have hring := @Game.isRing_idle k.game img
  rw [Kernel.boot, hidle, hboot]
  generalize Game.initIdleAt img 0 (Game.scheduled img k.game) = g at hmm hring ⊢
  have hinit := @initTask1_eq { k with game := g } img 1 _ hring
  rw [hmm] at hinit
  have hframe : (Game.bootMm img k.game).allocFrame.1 = numPagKernel := by
    rw [allocFrame_bootMm]
  rw [hframe] at hinit
  exact ⟨_, _, reserved_setCr3 (reserved_setUserPages (reserved_bootMm img k.game)),
    freeSlots_pages img k.game, hinit⟩

/-- The processes in use after boot. -/
theorem inUse_bootSched : Game.InUse Game.bootSched t ↔ t = 1 := by
  revert t
  decide

/-- The first process has its pipe. -/
theorem shared_boot (img : Game.Image) (k : Kernel) : Shared (k.boot img) Game.bootSched := by
  obtain ⟨mm, kb, hmm, -, heq⟩ := boot_eq img k
  have hr : Game.Refines (k.game.boot img) Game.bootSched := Game.refines_boot
  rw [heq]
  generalize k.game.boot img = g at hr ⊢
  refine ⟨⟨hr.free, hr.ready, hr.current, hr.idleTask, hr.stReady, hr.stRun, hr.wf⟩, hmm,
    fun t ht => ?_⟩
  obtain rfl : t = 1 := ht.elim id inUse_bootSched.mp
  change FirstPipe (Function.update k.pipeinfo 1 _ 1)
  rw [Function.update_self]
  exact ⟨rfl, rfl⟩

/-- Another process needs frames, and there are enough. -/
theorem enough_boot (img : Game.Image) (k : Kernel) :
    numPagData ≤ (freeSlots (k.boot img).game.mm.physMem).length := by
  obtain ⟨mm, kb, -, hfree, heq⟩ := boot_eq img k
  rw [heq]
  exact hfree

/-- After the first `fork` there are two processes. -/
theorem shared_first_fork (img : Game.Image) (k : Kernel) (c : Game.ForkCtx) :
    Shared (exec img (k.boot img) (.fork c)) Game.bootSched.spawn := by
  have hs : Shared (exec img (k.boot img) (.fork c))
      (Game.bootSched.move (Game.forkMove (k.boot img).game)) :=
    shared_fork c (shared_boot img k) (by decide)
  rwa [forkMove_of_enough (enough_boot img k)] at hs

theorem enabled_boot (img : Game.Image) (k : Kernel) (c : Game.ForkCtx) :
    Enabled (k.boot img) (.fork c) := by
  have hb := (shared_boot img k).refines
  change (k.boot img).game.current ≠ (k.boot img).game.idleTask
  rw [hb.current, hb.idleTask]
  decide

/-! ### Who owns a pipe -/

/-- The frame is mapped to a code or data page of the process. -/
def Maps (k : Kernel) (t : Task) (f : Nat) : Prop :=
  ∃ p, Game.userLayout.pagLogInitCode ≤ p ∧ p < Game.userLayout.pagLogInitData + numPagData ∧
    (k.game.mm.pagusrTable (k.game.getPT t) p).present = true ∧
    k.game.mm.getFrame (k.game.getPT t) p = f

/-- **Every process owns its pipe**, after a run with the history `h`. -/
structure PipesOwned (h : List (Kernel × Op)) (k : Kernel) : Prop where
  /-- Different processes have different frames. -/
  distinct : ∀ t u, Game.Live k.game t → Game.Live k.game u →
    (k.pipeinfo t).frame = (k.pipeinfo u).frame → t = u
  /-- The frame of a pipe is in use, and it is no code or data page. -/
  used : ∀ t, Game.Live k.game t → ∃ f : Nat, (k.pipeinfo t).frame = f ∧
    k.game.mm.physMem f = .usedFrame ∧ ∀ u, ¬Maps k u f
  /-- The list of writers of a process has its head in the process's own PCB. -/
  writers : ∀ t, Game.Live k.game t → ∃ l, IsRing k.links (.writers t) l
  /-- The frame of the pipe of a process that has exited is free, or someone else's. -/
  released : ∀ s c, (s, .exit c) ∈ h → ∀ f : Nat, (s.pipeinfo s.game.current).frame = f →
    k.game.mm.physMem f = .usedFrame →
    ∃ t, Game.Live k.game t ∧ ((k.pipeinfo t).frame = f ∨ Maps k t f)

/-- The list of writers of the first process is empty, and its head is in slot 1. -/
theorem isRing_writers {l : List Node} (hs : Shared k a) (hu : Game.InUse a t)
    (hr : IsRing k.links (.writers t) l) : t = 1 := by
  have h1 : (k.pipeinfo 1).writers = { next := .writers 1, prev := .writers 1 } :=
    (hs.pipe 1 (Or.inl rfl)).writers
  have ht : (k.pipeinfo t).writers = { next := .writers 1, prev := .writers 1 } :=
    (hs.pipe t (Or.inr hu)).writers
  -- the node after the head is that of slot 1, and so is the one before that
  have hback := hr.prev_next_head
  simp only [Kernel.links, ht, h1] at hback
  exact (Node.writers.inj hback).symm

theorem isRing_writers_one (hs : Shared k a) : IsRing k.links (.writers 1) [] := by
  have h1 : k.links (.writers 1) = { next := .writers 1, prev := .writers 1 } :=
    (hs.pipe 1 (Or.inl rfl)).writers
  exact ⟨by simp [Chain, h1], by simp⟩

/-- The frame of the pipe is nobody's page. -/
theorem not_maps (hs : Shared k a) : ¬Maps k t numPagKernel := by
  rintro ⟨p, -, hp, -, hf⟩
  refine (hs.reserved.base _ p (hp.trans ?_)).1 hf
  rw [Game.pagLogInitData_eq]
  decide

/-- What the history tells: whoever has exited had the pipe of the first process, and
until someone exits the first process is alive. -/
structure Told (h : List (Kernel × Op)) (a : Sched Task) : Prop where
  /-- The pipes of those who have exited. -/
  frame : ∀ s c, (s, .exit c) ∈ h → (s.pipeinfo s.game.current).frame = numPagKernel
  /-- The first process is alive. -/
  first : (∀ s c, (s, Op.exit c) ∉ h) → Game.InUse a 1

/-- **Every reachable state** has one pipe for all. -/
theorem path_shared (hp : Path (Step img) (k₀.boot img) h k) :
    ∃ a, Shared k a ∧ Told h a := by
  refine hp.invariant (P := fun h k => ∃ a, Shared k a ∧ Told h a) ?_ ?_
  · exact ⟨_, shared_boot img k₀, fun s c hm => absurd hm (by simp),
      fun _ => inUse_bootSched.mpr rfl⟩
  · rintro h k op k' - ⟨a, hs, ht⟩ ⟨he, rfl⟩
    obtain ⟨m, hs', hm⟩ := @shared_exec _ img _ _ hs he
    refine ⟨_, hs', ⟨fun s c hx => ?_, fun hno => ?_⟩⟩
    · rcases List.mem_append.mp hx with hx | hx
      · exact ht.frame s c hx
      · -- the process that exits now
        obtain ⟨rfl, rfl⟩ : s = k ∧ Op.exit c = op := by simpa using hx
        rw [hs.refines.current]
        refine (hs.pipe _ (Or.inr ⟨(running_notMem hs.refines.wf).1, fun hid => he ?_⟩)).frame
        rw [hs.refines.current, hs.refines.idleTask]
        exact hid
    · have hfirst := ht.first fun s c hx => hno s c (List.mem_append_left _ hx)
      refine inUse_move hs.refines.wf (fun hl => ?_) hfirst
      obtain ⟨c, rfl⟩ := hm hl
      exact hno k c (by simp)

/-- The first process alone owns its pipe. -/
theorem pipesOwned_of_alone (hs : Shared k a) (ht : Told h a)
    (hl : ∀ t, Game.Live k.game t ↔ t = 1) : PipesOwned h k := by
  have hframe : (k.pipeinfo 1).frame = numPagKernel := (hs.pipe 1 (Or.inl rfl)).frame
  refine ⟨fun t u h1 h2 _ => ?_, fun t h1 => ?_, fun t h1 => ?_, fun s c hx f hf _ => ?_⟩
  · rw [(hl t).mp h1, (hl u).mp h2]
  · obtain rfl := (hl t).mp h1
    exact ⟨numPagKernel, hframe, hs.reserved.used, fun _ => not_maps hs⟩
  · obtain rfl := (hl t).mp h1
    exact ⟨[], isRing_writers_one hs⟩
  · refine ⟨1, (hl 1).mpr rfl, Or.inl ?_⟩
    rw [hframe, ← hf, ht.frame s c hx]

/-- Nobody else owns a pipe. -/
theorem alone_of_pipesOwned (hs : Shared k a) (ht : Told h a) (ho : PipesOwned h k) :
    ∀ t, Game.Live k.game t ↔ t = 1 := by
  have hone : ∀ t, Game.Live k.game t → t = 1 := by
    intro t hl
    obtain ⟨l, hr⟩ := ho.writers t hl
    exact isRing_writers hs ((Game.live_iff hs.refines).mp hl) hr
  refine fun t => ⟨hone t, ?_⟩
  rintro rfl
  by_contra hdead
  -- then someone has exited, and nobody owns the frame
  have hexit : ¬∀ s c, (s, Op.exit c) ∉ h := fun hno =>
    hdead ((Game.live_iff hs.refines).mpr (ht.first hno))
  push Not at hexit
  obtain ⟨s, c, hx⟩ := hexit
  obtain ⟨t, hl, -⟩ := ho.released s c hx numPagKernel (ht.frame s c hx) hs.reserved.used
  obtain rfl := hone t hl
  exact hdead hl

/-- In every reachable state, every process owns its pipe exactly if the first one is
alone. -/
theorem pipesOwned_iff_alone (hp : Path (Step img) (k₀.boot img) h k) :
    PipesOwned h k ↔ ∀ t, Game.Live k.game t ↔ t = 1 := by
  obtain ⟨a, hs, ht⟩ := path_shared hp
  exact ⟨alone_of_pipesOwned hs ht, pipesOwned_of_alone hs ht⟩

/-! ### Runs in which the pipes are owned all the time -/

/-- The operation changes at most who runs. -/
def Op.Schedules : Op → Prop
  | .clock _ | .yield _ => True
  | .fork _ | .exit _ => False

/-- **The first process is alone**, and there are frames for a child. -/
structure Solo (k : Kernel) (a : Sched Task) : Prop extends Shared k a where
  /-- It is the only process. -/
  alone : ∀ t, Game.InUse a t ↔ t = 1
  /-- The frames. -/
  enough : numPagData ≤ (freeSlots k.game.mm.physMem).length

theorem solo_boot (img : Game.Image) (k : Kernel) : Solo (k.boot img) Game.bootSched where
  toShared := shared_boot img k
  alone := fun _ => inUse_bootSched
  enough := enough_boot img k

theorem Solo.live_iff (hs : Solo k a) (t : Task) : Game.Live k.game t ↔ t = 1 :=
  (Game.live_iff hs.refines).trans (hs.alone t)

/-- Only the running task changes. -/
theorem Solo.of_move {m : Move} (hs : Solo k a) (hm : m = .stay ∨ m = .rotate)
    (hs' : Shared k' (a.move m)) (hphys : k'.game.mm.physMem = k.game.mm.physMem) :
    Solo k' (a.move m) where
  toShared := hs'
  alone := fun t => by
    rw [← hs.alone t]
    refine ⟨fun hu => (inUse_of_inUse_move hs.refines.wf hu).resolve_right ?_,
      inUse_move hs.refines.wf ?_⟩ <;> rcases hm with rfl | rfl <;> simp
  enough := by
    rw [hphys]
    exact hs.enough

/-- A child is not alone. -/
theorem Solo.not_alone_fork (c : Game.ForkCtx) (hs : Solo k a) (hne : a.running ≠ a.idle) :
    ¬∀ t, Game.Live (exec img k (.fork c)).game t ↔ t = 1 := by
  intro hl
  have hf : Shared (exec img k (.fork c)) (a.move (Game.forkMove k.game)) :=
    shared_fork c hs.toShared hne
  rw [forkMove_of_enough hs.enough] at hf
  have hone : (1 : Task) ∉ a.free := ((hs.alone 1).mpr rfl).1
  cases hfree : a.free with
  | nil =>
    -- two slots are not the idle task's, and both are in use
    have huse : ∀ t, t ≠ a.idle → t = 1 := fun t ht => (hs.alone t).mp ⟨by simp [hfree], ht⟩
    have hall : ∀ i : Task, ∃ t, t ≠ i ∧ t ≠ 1 := by decide
    obtain ⟨t, ht, ht1⟩ := hall a.idle
    exact ht1 (huse t ht)
  | cons x ts =>
    have hx : Game.InUse a.spawn x := (Game.inUse_spawn hs.refines.wf hfree).mpr (Or.inr rfl)
    obtain rfl := (hl x).mp ((Game.live_iff hf.refines).mpr hx)
    exact hone (by simp [hfree])

/-- A process that is alone and exits leaves nobody. -/
theorem Solo.not_alone_exit (c : SwitchCtx) (hs : Solo k a) (hne : a.running ≠ a.idle) :
    ¬∀ t, Game.Live (exec img k (.exit c)).game t ↔ t = 1 := by
  intro hl
  have hx : Shared (exec img k (.exit c)) (a.move .leave) := shared_exit c hs.toShared hne
  have hrun : a.running = 1 := (hs.alone _).mp ⟨(running_notMem hs.refines.wf).1, hne⟩
  have hu : Game.InUse (a.move .leave) 1 := (Game.live_iff hx.refines).mp ((hl 1).mpr rfl)
  exact (Game.inUse_next.mp hu).1 (by simp [hrun])

/-- **One step** leaves the first process alone exactly if it changes at most who runs. -/
theorem Solo.step (hs : Solo k a) (he : Enabled k op) :
    (op.Schedules → ∃ a', Solo (exec img k op) a') ∧
      ((∀ t, Game.Live (exec img k op).game t ↔ t = 1) → op.Schedules) := by
  cases op with
  | clock c =>
    obtain ⟨m, hm, hs', hphys⟩ := @shared_clock k img a c hs.toShared
    exact ⟨fun _ => ⟨_, hs.of_move hm hs' hphys⟩, fun _ => trivial⟩
  | fork c =>
    exact ⟨False.elim, fun hl => hs.not_alone_fork c (running_ne_idle hs.toShared he) hl⟩
  | exit c =>
    exact ⟨False.elim, fun hl => hs.not_alone_exit c (running_ne_idle hs.toShared he) hl⟩
  | yield c =>
    obtain ⟨hs', hphys⟩ := @shared_yield k img a c hs.toShared (running_ne_idle hs.toShared he)
    exact ⟨fun _ => ⟨_, hs.of_move (Or.inr rfl) hs' hphys⟩, fun _ => trivial⟩

/-- **Pipes are owned exactly as long as the first process is alone**: in every reachable
state, every process owns its pipe if and only if the process in the slot of the first
one is the only user process alive, and in all states of a run if and only if nobody
forks or exits. -/
theorem pipes_owned_iff (hp : Path (Step img) (k₀.boot img) h k) :
    (PipesOwned h k ↔ ∀ t, Game.Live k.game t ↔ t = 1) ∧
      ((Along (fun h x => PipesOwned h x.1) h ∧ PipesOwned h k) ↔
        ∀ x ∈ h, x.2.Schedules) := by
  refine ⟨pipesOwned_iff_alone hp, ?_⟩
  refine hp.along_iff (I := fun k => ∃ a, Solo k a) ⟨?_, _, solo_boot img k₀⟩ ?_
  · exact (pipesOwned_iff_alone .nil).mpr (solo_boot img k₀).live_iff
  · rintro h s op t hp ⟨a, hs⟩ hstep
    rw [pipesOwned_iff_alone (hp.snoc hstep)]
    obtain ⟨he, rfl⟩ := hstep
    obtain ⟨hgood, hbad⟩ := @Solo.step _ img _ _ hs he
    refine ⟨fun hc => ?_, hbad⟩
    obtain ⟨a', hs'⟩ := hgood hc
    exact ⟨hs'.live_iff, a', hs'⟩

/-- A machine with the kernel just loaded. -/
def powerOn : Kernel where
  game := Game.powerOn
  pipeinfo := fun _ =>
    { frame := 0, numbytes := 0, readingFrom := none,
      writers := { next := .queue .null, prev := .queue .null } }

/-- The run in which the first process forks once. -/
theorem path_fork : Path (Step Game.sampleImage) (powerOn.boot Game.sampleImage)
    [(powerOn.boot Game.sampleImage, .fork Game.sampleFork)]
    (exec Game.sampleImage (powerOn.boot Game.sampleImage) (.fork Game.sampleFork)) :=
  Path.nil.snoc ⟨enabled_boot _ _ _, rfl⟩

/-- The pipes after the first `fork`. -/
theorem pipes_owned_iff_fork :
    let k := powerOn.boot Game.sampleImage
    let k' := exec Game.sampleImage k (.fork Game.sampleFork)
    let h := [(k, Op.fork Game.sampleFork)]
    (PipesOwned h k' ↔ ∀ t, Game.Live k'.game t ↔ t = 1) ∧
      ((Along (fun h x => PipesOwned h x.1) h ∧ PipesOwned h k') ↔ ∀ x ∈ h, x.2.Schedules) :=
  pipes_owned_iff path_fork

/-- **The pipes are not always owned**: after the first `fork`, parent and child have
the same frame. -/
theorem pipes_not_owned : ¬∀ (img : Game.Image) (k₀ k : Kernel) (h : List (Kernel × Op)),
    Path (Step img) (k₀.boot img) h k → PipesOwned h k := by
  intro hall
  have ho := hall _ _ _ _ path_fork
  have hs := shared_first_fork Game.sampleImage powerOn Game.sampleFork
  have hu : ∀ t : Task, t = 1 ∨ t = 2 → Game.InUse Game.bootSched.spawn t := by decide
  have hlive := fun t ht => (Game.live_iff hs.refines).mpr (hu t ht)
  have hframe := fun t ht => (hs.pipe t (Or.inr (hu t ht))).frame
  have heq := ho.distinct 1 2 (hlive 1 (by simp)) (hlive 2 (by simp))
    ((hframe 1 (by simp)).trans (hframe 2 (by simp)).symm)
  exact absurd heq (by decide)

end Zeos.Exam
