import Zeos.Game.Frames

/-!
# PIDs identify processes

`sys_get_stats` looks for a PID in all ten PCBs, the free ones included, so what
it finds depends on the PID every path leaves in a PCB: `-1` on the free queue,
and otherwise a number nobody else has. Here it matters that a fork never fails
half way (`Zeos.Game.sysFork_eq_ok`): the failure path of `sys_fork` would put a
PCB on the free queue that still carries the PID of the parent.

PIDs come from a counter that starts at `1000` and is never reset. The statements
are therefore about runs in which the counter has not left the range of `int`: the
number of forks that have succeeded is read off the history of the run
(`Zeos.Game.forks`).
-/

namespace Zeos.Game

open ByteMem CircList Loop Paging RoundRobin X86

variable {k k' : Kernel} {a : Sched Task} {img : Image}

/-! ### The invariant -/

/-- **The PIDs of the PCBs in use are distinct, the others are `-1`.** -/
structure Pids (k : Kernel) (a : Sched Task) : Prop where
  /-- Free PCBs have no PID. -/
  free : ∀ t, t ∈ a.free → (k.task t).PID = -1
  /-- The PIDs in use have been given out by the counter. -/
  range : ∀ t, t ∉ a.free → 0 ≤ (k.task t).PID ∧ (k.task t).PID ≤ k.globalPID
  /-- No PID is in use twice. -/
  inj : ∀ t u, t ∉ a.free → u ∉ a.free → (k.task t).PID = (k.task u).PID → t = u

/-- The PIDs depend on the PIDs, the counter and the free slots. -/
theorem pids_congr {b : Sched Task} (h : Pids k a) (hp : ∀ t, (k'.task t).PID = (k.task t).PID)
    (hg : k'.globalPID = k.globalPID) (hf : b.free = a.free) : Pids k' b where
  free := fun t ht => (hp t).trans (h.free t (hf ▸ ht))
  range := fun t ht => by
    rw [hp, hg]
    exact h.range t (hf ▸ ht)
  inj := fun t u ht hu heq => h.inj t u (hf ▸ ht) (hf ▸ hu) (by rw [← hp, ← hp, heq])

theorem pids_quiet (hq : Quiet k k') (h : Pids k a) : Pids k' a :=
  pids_congr h hq.PID hq.globalPID rfl

theorem pids_boot (hl : Loaded k) : Pids (k.boot img) bootSched where
  free := by
    intro t ht
    rw [boot_PID]
    revert t
    decide
  range := by
    intro t ht
    rw [boot_PID, boot_globalPID, hl.globalPID]
    revert t
    decide
  inj := by
    intro t u ht hu
    rw [boot_PID, boot_PID]
    revert t u
    decide

/-! ### Dispatching and leaving -/

theorem pids_rotate (c : SwitchCtx) (hr : Refines k a) (h : Pids k a) :
    Pids ((k.updateProcessStateRr k.current (some .readyqueue)).schedNextRr img c)
      a.rotate := by
  have hd := rotate_spec img c hr
  exact pids_congr h hd.PID hd.globalPID next_free

theorem pids_schedule (c : SwitchCtx) (hr : Refines k a) (h : Pids k a) :
    Pids (k.schedule img c) (a.move (tickMove k)) := by
  have hr' : Refines k.updateSchedDataRr a := refines_quantum _ hr
  have h' : Pids k.updateSchedDataRr a := pids_congr h (fun _ => rfl) rfl rfl
  rw [Kernel.schedule, tickMove]
  rcases needsSchedRr_cases k.updateSchedDataRr with ⟨heq, -, -⟩ | ⟨r, heq⟩
  · rw [heq]
    exact pids_rotate c hr' h'
  · rw [heq]
    exact pids_congr h (fun _ => rfl) rfl rfl

theorem pids_sysExit (c : SwitchCtx) (hr : Refines k a) (h : Pids k a) :
    Pids (k.sysExit img c) a.leave := by
  have hex : Pids (exited k) { a with free := a.free ++ [a.running] } := by
    refine ⟨fun t ht => ?_, fun t ht => ?_, fun t u ht hu => ?_⟩
    · simp only [List.mem_append, List.mem_singleton] at ht
      by_cases htc : t = k.current
      · subst htc
        exact exited_PID_self
      · rw [exited_PID_of_ne htc]
        exact h.free t (ht.resolve_right (hr.current ▸ htc))
    · simp only [List.mem_append, List.mem_singleton, not_or, ← hr.current] at ht
      rw [exited_PID_of_ne ht.2]
      exact h.range t ht.1
    · simp only [List.mem_append, List.mem_singleton, not_or, ← hr.current] at ht hu
      rw [exited_PID_of_ne ht.2, exited_PID_of_ne hu.2]
      exact h.inj t u ht.1 hu.1
  have hd := schedNextRr_spec img c (queued_exited hr)
  rw [sysExit_eq]
  exact pids_congr hex hd.PID hd.globalPID next_free

/-! ### `sys_fork` -/

theorem forkFinish_globalPID (c : ForkCtx) (t : Task) :
    (k.forkFinish img c t).globalPID = wrapInt (k.globalPID + 1) := rfl

theorem forkMapped_globalPID (c : ForkCtx) (t : Task) (mm : Mm) :
    (forkMapped img c k t mm).globalPID = k.globalPID := rfl

/-- The child gets a PID that nobody has. -/
theorem pids_sysFork (c : ForkCtx) (hr : Refines k a) (hf : Frames k a) (h : Pids k a)
    (h0 : 0 ≤ k.globalPID) (h1 : k.globalPID + 1 < 2 ^ 31) :
    Pids (k.sysFork img c).2 a.spawn := by
  cases hfree : a.free with
  | nil =>
    have hs : a.spawn = a := by simp [Sched.spawn, hfree]
    rw [sysFork_of_empty c ((listEmpty_freequeue hr).mpr hfree), hs]
    exact h
  | cons t ts =>
    have hs : a.spawn.free = ts := by simp [Sched.spawn, hfree]
    have hnd := nodup_free hr.wf
    rw [hfree, List.nodup_cons] at hnd
    rw [sysFork_eq_ok c hr hf hfree]
    set mm := k.mm.grant t userLayout.pagLogInitData (forkFrames k.mm) ssEntry
    have hw : wrapInt (k.globalPID + 1) = k.globalPID + 1 := wrapInt_of_lt (by omega) h1
    have hself : (((forkMapped img c k t mm).forkFinish img c t).task t).PID =
        k.globalPID + 1 := by
      rw [(forkFinish_self c t).1, forkMapped_globalPID, hw]
    have hother : ∀ x, x ≠ t →
        (((forkMapped img c k t mm).forkFinish img c t).task x).PID = (k.task x).PID := by
      intro x hx
      rw [forkFinish_of_ne c hx, forkMapped_task, forkBegun_of_ne c hx]
    have hold : ∀ x, x ≠ t → x ∉ ts → x ∉ a.free := by
      intro x hx hxt
      rw [hfree]
      simp [hx, hxt]
    refine ⟨fun x hx => ?_, fun x hx => ?_, fun x y hx hy heq => ?_⟩
    · rw [hs] at hx
      have hxt : x ≠ t := fun he => hnd.1 (he ▸ hx)
      refine (hother x hxt).trans (h.free x ?_)
      rw [hfree]
      exact List.mem_cons_of_mem _ hx
    · rw [hs] at hx
      simp only [forkFinish_globalPID, forkMapped_globalPID, hw]
      by_cases hxt : x = t
      · subst hxt
        rw [hself]
        omega
      · rw [hother x hxt]
        have := h.range x (hold x hxt hx)
        omega
    · rw [hs] at hx hy
      simp only at heq
      by_cases hxt : x = t
      · by_cases hyt : y = t
        · rw [hxt, hyt]
        · rw [hxt, hself, hother y hyt] at heq
          have := h.range y (hold y hyt hy)
          omega
      · by_cases hyt : y = t
        · rw [hyt, hself, hother x hxt] at heq
          have := h.range x (hold x hxt hx)
          omega
        · rw [hother x hxt, hother y hyt] at heq
          exact h.inj x y (hold x hxt hx) (hold y hyt hy) heq

/-! ### Runs -/

/-- The number of forks of a run that have succeeded. -/
def forks (img : Image) (h : List (Kernel × Op)) : Nat := h.countP (forkSucceeds img)

/-- The counter after a fork. -/
theorem sysFork_globalPID (c : ForkCtx) (hr : Refines k a) (hf : Frames k a) :
    (k.sysFork img c).2.globalPID =
      if a.free = [] then k.globalPID else wrapInt (k.globalPID + 1) := by
  cases hfree : a.free with
  | nil => rw [sysFork_of_empty c ((listEmpty_freequeue hr).mpr hfree), if_pos rfl]
  | cons t ts =>
    rw [sysFork_eq_ok c hr hf hfree, if_neg (by simp)]
    rfl

theorem sysGetStats_PID (pid : Int) (st : Word) :
    (∀ t, ((k.sysGetStats pid st).2.task t).PID = (k.task t).PID) ∧
      (k.sysGetStats pid st).2.globalPID = k.globalPID := by
  rcases sysGetStats_cases (k := k) pid st with heq | ⟨t, heq⟩
  · rw [heq]
    exact ⟨fun _ => rfl, rfl⟩
  · rw [heq]
    exact ⟨(quiet_reported t).PID, (quiet_reported t).globalPID⟩

theorem sysPollEvent_PID (keyboard : Word) :
    (∀ t, ((k.sysPollEvent keyboard).2.task t).PID = (k.task t).PID) ∧
      (k.sysPollEvent keyboard).2.globalPID = k.globalPID := by
  rcases sysPollEvent_cases (k := k) keyboard with heq | heq <;>
    rw [heq] <;> exact ⟨fun _ => rfl, rfl⟩

/-- Giving the processor away does not touch the counter. -/
theorem schedule_globalPID (c : SwitchCtx) (hr : Refines k a) :
    (k.schedule img c).globalPID = k.globalPID := by
  have hr' : Refines k.updateSchedDataRr a := refines_quantum _ hr
  rw [Kernel.schedule]
  rcases needsSchedRr_cases k.updateSchedDataRr with ⟨heq, -, -⟩ | ⟨r, heq⟩
  · rw [heq]
    exact (rotate_spec img c hr').globalPID
  · rw [heq]
    rfl

/-- **One step**: the PIDs stay distinct, and the counter counts the forks that
succeed. -/
theorem pids_exec {op : Op} (hr : Refines k a) (hf : Frames k a) (h : Pids k a)
    (he : Enabled k op) (h0 : 0 ≤ k.globalPID) (h1 : k.globalPID + 1 < 2 ^ 31) :
    Pids (exec img k op) (a.move (opMove img k op)) ∧
      (exec img k op).globalPID =
        k.globalPID + if forkSucceeds img (k, op) then 1 else 0 := by
  have hrin : Refines (k.enter .systemCallHandler) a := refines_quiet (quiet_enter _) hr
  have hfin : Frames (k.enter .systemCallHandler) a := frames_quiet (quiet_enter _) hf
  have hin : Pids (k.enter .systemCallHandler) a := pids_quiet (quiet_enter _) h
  cases op with
  | clock c =>
    have hrt : Refines (ticked img k) a := refines_quiet quiet_ticked hr
    rw [exec, clockHandler_eq]
    refine ⟨pids_quiet quiet_leave (pids_schedule c hrt (pids_quiet quiet_ticked h)), ?_⟩
    rw [quiet_leave.globalPID, schedule_globalPID c hrt, quiet_ticked.globalPID]
    simp [forkSucceeds]
  | keyboard port =>
    have hq := quiet_keyboardHandler (k := k) port
    exact ⟨pids_quiet hq h, by simp [exec, hq.globalPID, forkSucceeds]⟩
  | fork c =>
    have hm : a.move (opMove img k (.fork c)) = a.spawn := forkMove_eq hf
    rw [hm]
    refine ⟨pids_quiet quiet_leave (pids_sysFork c hrin hfin hin h0 h1), ?_⟩
    have hg : (k.enter .systemCallHandler).globalPID = k.globalPID := rfl
    rw [exec, quiet_leave.globalPID, sysFork_globalPID c hrin hfin, hg,
      wrapInt_of_lt (by omega) h1]
    by_cases hfree : a.free = []
    · have hns : ¬forkSucceeds img (k, .fork c) = true := fun hc =>
        (forkSucceeds_iff c hr hf).mp hc hfree
      rw [if_pos hfree, if_neg hns, Int.add_zero]
    · rw [if_neg hfree, if_pos ((forkSucceeds_iff c hr hf).mpr hfree)]
  | exit c =>
    refine ⟨pids_quiet quiet_leave (pids_sysExit c hrin hin), ?_⟩
    rw [exec, quiet_leave.globalPID, sysExit_eq,
      (schedNextRr_spec img c (queued_exited hrin)).globalPID]
    simp [exited, Kernel.modifyTask, Kernel.enter, forkSucceeds]
  | yield c =>
    refine ⟨pids_quiet quiet_leave (pids_rotate c hrin hin), ?_⟩
    rw [exec, quiet_leave.globalPID, Kernel.sysYield, Kernel.forceTaskSwitch,
      (rotate_spec img c hrin).globalPID]
    simp [Kernel.enter, forkSucceeds]
  | getStats pid st =>
    obtain ⟨hp, hg⟩ := sysGetStats_PID (k := k.enter .systemCallHandler) pid st
    refine ⟨pids_quiet quiet_leave (pids_congr hin hp hg rfl), ?_⟩
    rw [exec, quiet_leave.globalPID, hg]
    simp [Kernel.enter, forkSucceeds]
  | pollEvent kb =>
    obtain ⟨hp, hg⟩ := sysPollEvent_PID (k := k.enter .systemCallHandler) kb
    refine ⟨pids_quiet quiet_leave (pids_congr hin hp hg rfl), ?_⟩
    rw [exec, quiet_leave.globalPID, hg]
    simp [Kernel.enter, forkSucceeds]
  | touch page =>
    exact ⟨pids_congr h (fun _ => rfl) rfl rfl, by simp [exec, forkSucceeds]⟩

/-- **Runs**: as long as the counter has not left the range of `int`, the PIDs are
distinct. -/
theorem pids_path {h : List (Kernel × Op)} {k₀ : Kernel} (hl : Loaded k₀)
    (hp : Transition.Path (Step img) (k₀.boot img) h k) (hn : forks img h < 2 ^ 31 - 1001) :
    ∃ a, Refines k a ∧ Frames k a ∧ Pids k a ∧ k.globalPID = 1000 + forks img h := by
  refine hp.invariant (P := fun h k => forks img h < 2 ^ 31 - 1001 →
    ∃ a, Refines k a ∧ Frames k a ∧ Pids k a ∧ k.globalPID = 1000 + forks img h) ?_ ?_ hn
  · intro _
    refine ⟨bootSched, refines_boot, frames_boot, pids_boot hl, ?_⟩
    rw [boot_globalPID, hl.globalPID]
    rfl
  · rintro h k op k' - ih ⟨he, rfl⟩ hn
    have hcount : forks img (h ++ [(k, op)]) =
        forks img h + if forkSucceeds img (k, op) then 1 else 0 := by
      rw [forks, List.countP_append, List.countP_singleton]
      rfl
    rw [hcount] at hn ⊢
    obtain ⟨a, hr, hf, hpids, hg⟩ := ih (by omega)
    obtain ⟨h1, h2⟩ := @pids_exec _ _ img _ hr hf hpids he (by omega) (by omega)
    refine ⟨_, refines_exec hr he, frames_exec hr hf he, h1, ?_⟩
    rw [h2, hg]
    split <;> push_cast <;> omega

/-! ### `sys_get_stats` -/

/-- The search of `sys_get_stats` finds a task exactly when it has the PID. -/
theorem find_PID (h : Pids k a) {pid : Int} (hpid : 0 ≤ pid) (t : Task) :
    (List.finRange nrTasks).find? (fun i => (k.task i).PID = pid) = some t ↔
      t ∉ a.free ∧ (k.task t).PID = pid := by
  have hfree : ∀ x, (k.task x).PID = pid → x ∉ a.free := by
    intro x hx hm
    rw [h.free x hm] at hx
    omega
  constructor
  · intro hf
    have := List.find?_some hf
    simp only [decide_eq_true_eq] at this
    exact ⟨hfree t this, this⟩
  · rintro ⟨ht, hp⟩
    cases hf : (List.finRange nrTasks).find? fun i => (k.task i).PID = pid with
    | none =>
      have := List.find?_eq_none.mp hf t (List.mem_finRange t)
      simp [hp] at this
    | some u =>
      have := List.find?_some hf
      simp only [decide_eq_true_eq] at this
      rw [h.inj u t (hfree u this) ht (this.trans hp.symm)]

/-- A block inside the data pages is accepted by `access_ok`. -/
theorem accessOk_data {st : Word} {n : Nat}
    (h1 : userLayout.pagLogInitData * pageBytes ≤ st.toNat)
    (h2 : st.toNat + n ≤ (userLayout.pagLogInitData + numPagData) * pageBytes) :
    accessOk accessBounds .verifyWrite st (BitVec.ofNat 32 n) = true := by
  rw [pagLogInitData_eq] at h1 h2
  unfold numPagData pageBytes at *
  have hadd : (st + BitVec.ofNat 32 n).toNat = st.toNat + n := by bv_omega
  simp only [accessOk, accessBounds, hadd, pageBytes]
  rw [if_neg (by omega), if_pos (by omega)]

/-- Where the byte at a logical address of the running process lies. -/
def userLocation (k : Kernel) (addr : Nat) : Nat × Nat :=
  location (k.mm.pagusrTable k.mm.activeTable) addr

/-- **`sys_get_stats` has reported a task**: its statistics are in the memory of
the caller, and nothing has changed but that memory, the translation cache and the
`remaining_ticks` of the task. -/
structure Reported (k : Kernel) (t : Task) (st : Word) (k' : Kernel) : Prop where
  /-- The kernel state. -/
  kernel : k' = { reported k t with mm := { k.mm with mmu := k'.mm.mmu } }
  /-- The bytes reported. -/
  copied : ∀ o < sizeofStats,
    k'.mm.mmu.mem (userLocation k (st.toNat + o)).1 (userLocation k (st.toNat + o)).2 =
      ((reported k t).task t).pStats.byte o
  /-- The bytes of memory outside the report. -/
  outside : ∀ f x, (∀ o < sizeofStats, userLocation k (st.toNat + o) ≠ (f, x)) →
    k'.mm.mmu.mem f x = k.mm.mmu.mem f x
  /-- No access has faulted. -/
  fault : k'.mm.mmu.fault = k.mm.mmu.fault

/-- The address lies in the user pages of a process. -/
def UserAddr (x : Nat) : Prop :=
  userLayout.pagLogInitCode * pageBytes ≤ x ∧
    x < (userLayout.pagLogInitData + numPagData) * pageBytes

/-- A user page is a code page or a data page. -/
theorem userAddr_page {x : Nat} (h : UserAddr x) :
    (∃ i < numPagCode, x / pageBytes = userLayout.pagLogInitCode + i) ∨
      ∃ i < numPagData, x / pageBytes = userLayout.pagLogInitData + i := by
  obtain ⟨h1, h2⟩ := h
  rw [pagLogInitData_eq, pagLogInitCode_eq] at *
  unfold pageBytes numPagData numPagCode at *
  by_cases hx : x < 264 * 4096
  · exact Or.inl ⟨x / 4096 - 256, by omega, by omega⟩
  · exact Or.inr ⟨x / 4096 - 264, by omega, by omega⟩

/-- **The user pages of the running process are mapped, to different places.** -/
theorem userLocation_user (hr : Refines k a) (hf : Frames k a) (hne : a.running ≠ a.idle)
    {x : Nat} (hx : UserAddr x) :
    (k.mm.pagusrTable a.running (x / pageBytes)).present = true ∧
      ∀ y, UserAddr y → location (k.mm.pagusrTable a.running) x =
        location (k.mm.pagusrTable a.running) y → x = y := by
  have hU : InUse a a.running := ⟨(running_notMem hr.wf).1, hne⟩
  have hcode := fun i hi => hf.owned.code _ hU i hi
  have hslot := fun i hi => (hf.owned.slot _ hU i hi).2
  simp only [codeEntry, dataEntry] at hcode hslot
  have hlt : ∀ i < numPagCode, codeFrame i < codeFrame numPagCode := fun i hi => by
    unfold codeFrame
    omega
  refine ⟨?_, fun y hy heq => ?_⟩
  · rcases userAddr_page hx with ⟨i, hi, hxi⟩ | ⟨i, hi, hxi⟩
    · rw [hxi]
      exact (hcode i hi).1
    · rw [hxi]
      exact hf.owned.mapped _ hU i hi
  · have hfst := congrArg Prod.fst heq
    have hsnd : x % pageBytes = y % pageBytes := congrArg Prod.snd heq
    have hpage : x / pageBytes = y / pageBytes := by
      rcases userAddr_page hx with ⟨i, hi, hxi⟩ | ⟨i, hi, hxi⟩ <;>
        rcases userAddr_page hy with ⟨j, hj, hyj⟩ | ⟨j, hj, hyj⟩ <;>
        simp only [location, hxi, hyj] at hfst
      · rw [(hcode i hi).2, (hcode j hj).2, codeFrame, codeFrame] at hfst
        omega
      · rw [(hcode i hi).2] at hfst
        have h1 := hlt i hi
        have h2 := hslot j hj
        omega
      · rw [(hcode j hj).2] at hfst
        have h1 := hlt j hj
        have h2 := hslot i hi
        omega
      · obtain ⟨-, rfl⟩ := hf.owned.inj _ _ hU hU i hi j hj hfst
        rw [hxi, hyj]
    rw [← Nat.div_add_mod x pageBytes, ← Nat.div_add_mod y pageBytes, hpage, hsnd]

/-- The copy loop of `copy_to_user`, on the table of the running process. -/
theorem copyToUser_mmu {src : Nat → Byte} {st : Word} {n : Nat} (hf : Frames k a) :
    (k.copyToUser src st n).mm.mmu = copyData (fun o s => (src o, s))
      (fun o => Mmu.storeByte (k.mm.pagusrTable a.running) (st + BitVec.ofNat 32 o).toNat)
      n k.mm.mmu := by
  simp only [Kernel.copyToUser, activeTable_eq hf]

/-- **Copying to a block inside the user pages of the running process** writes the bytes of
that block and no others. -/
theorem copyToUser_user {src : Nat → Byte} {st : Word} {n : Nat} (hr : Refines k a)
    (hf : Frames k a) (hne : a.running ≠ a.idle)
    (h1 : userLayout.pagLogInitCode * pageBytes ≤ st.toNat)
    (h2 : st.toNat + n ≤ (userLayout.pagLogInitData + numPagData) * pageBytes) :
    CopiedOut (k.mm.pagusrTable a.running) src (fun o => st.toNat + o) k.mm.mmu n
      (k.copyToUser src st n).mm.mmu := by
  have hbound : (userLayout.pagLogInitData + numPagData) * pageBytes < 2 ^ 32 := by decide
  have haddr : ∀ o < n, (st + BitVec.ofNat 32 o).toNat = st.toNat + o := by
    intro o ho
    bv_omega
  have huser : ∀ o < n, UserAddr (st.toNat + o) := fun o ho =>
    ⟨Nat.le_trans h1 (Nat.le_add_right _ _), Nat.lt_of_lt_of_le (Nat.add_lt_add_left ho _) h2⟩
  have hc := copyData_out src (fun o => (st + BitVec.ofNat 32 o).toNat) n hf.fresh ?_ ?_
  · rw [← copyToUser_mmu hf] at hc
    refine ⟨fun o ho => ?_, fun f x h => hc.outside f x fun o ho => ?_, hc.fault, hc.fresh⟩
    · have := hc.written o ho
      simpa only [haddr o ho] using this
    · simpa only [haddr o ho] using h o ho
  · intro o ho
    rw [haddr o ho]
    exact (userLocation_user hr hf hne (huser o ho)).1
  · intro i hi j hj heq
    simp only [haddr i hi, haddr j hj] at heq
    have := (userLocation_user hr hf hne (huser i hi)).2 _ (huser j hj) heq
    omega

/-- Copying to a block inside the data pages. -/
theorem copyToUser_data {src : Nat → Byte} {st : Word} {n : Nat} (hr : Refines k a)
    (hf : Frames k a) (hne : a.running ≠ a.idle)
    (h1 : userLayout.pagLogInitData * pageBytes ≤ st.toNat)
    (h2 : st.toNat + n ≤ (userLayout.pagLogInitData + numPagData) * pageBytes) :
    CopiedOut (k.mm.pagusrTable a.running) src (fun o => st.toNat + o) k.mm.mmu n
      (k.copyToUser src st n).mm.mmu :=
  copyToUser_user hr hf hne (Nat.le_trans (by decide) h1) h2

/-- `sys_get_stats` reports the task it finds. -/
theorem sysGetStats_found {pid : Int} {st : Word} {t : Task} (hr : Refines k a) (hf : Frames k a)
    (hne : a.running ≠ a.idle) (hpid : 0 ≤ pid)
    (h1 : userLayout.pagLogInitData * pageBytes ≤ st.toNat)
    (h2 : st.toNat + sizeofStats ≤ (userLayout.pagLogInitData + numPagData) * pageBytes)
    (ht : (List.finRange nrTasks).find? (fun i => (k.task i).PID = pid) = some t) :
    (k.sysGetStats pid st).1 = 0 ∧ Reported k t st (k.sysGetStats pid st).2 := by
  have heq : k.sysGetStats pid st =
      (0, (reported k t).copyToUser ((reported k t).task t).pStats.byte st sizeofStats) := by
    rw [Kernel.sysGetStats, accessOk_data h1 h2, if_neg (by simp), if_neg (by omega), ht]
    rfl
  have hact : k.mm.activeTable = a.running := activeTable_eq hf
  have hc : CopiedOut ((reported k t).mm.pagusrTable a.running) ((reported k t).task t).pStats.byte
      (fun o => st.toNat + o) (reported k t).mm.mmu sizeofStats _ :=
    copyToUser_data (refines_quiet (quiet_reported t) hr) (frames_quiet (quiet_reported t) hf)
      hne h1 h2
  rw [heq]
  refine ⟨rfl, rfl, fun o ho => ?_, fun f x h => hc.outside f x fun o ho => ?_, hc.fault⟩
  · rw [userLocation, hact]
    exact hc.written o ho
  · have := h o ho
    rw [userLocation, hact] at this
    exact this

/-- **PIDs identify processes.** In every run in which fewer than `2 ^ 31 - 1001`
forks have succeeded: the PIDs of the PCBs that are not free are distinct and not
negative, the PID of a free PCB is `-1`; so `sys_get_stats`, called by a process
with a block inside its data pages, reports the process with the PID if there is
one, and otherwise fails without any effect. -/
theorem pids_identify {h : List (Kernel × Op)} {k₀ : Kernel} (hl : Loaded k₀)
    (hp : Transition.Path (Step img) (k₀.boot img) h k) (hn : forks img h < 2 ^ 31 - 1001) :
    (∀ t u, ¬OnFree k t → ¬OnFree k u → (k.task t).PID = (k.task u).PID → t = u) ∧
    (∀ t, ¬OnFree k t → 0 ≤ (k.task t).PID) ∧
    (∀ t, OnFree k t → (k.task t).PID = -1) ∧
    (k.current ≠ k.idleTask → ∀ (pid : Int) (st : Word), 0 ≤ pid →
      userLayout.pagLogInitData * pageBytes ≤ st.toNat →
      st.toNat + sizeofStats ≤ (userLayout.pagLogInitData + numPagData) * pageBytes →
      (∀ t, ¬OnFree k t → (k.task t).PID = pid →
        ((k.enter .systemCallHandler).sysGetStats pid st).1 = 0 ∧
        Reported (k.enter .systemCallHandler) t st
          ((k.enter .systemCallHandler).sysGetStats pid st).2) ∧
      ((∀ t, ¬OnFree k t → (k.task t).PID ≠ pid) →
        (k.enter .systemCallHandler).sysGetStats pid st =
          (-ESRCH, k.enter .systemCallHandler))) := by
  obtain ⟨a, hr, hf, hpids, -⟩ := pids_path hl hp hn
  have hrin : Refines (k.enter .systemCallHandler) a := refines_quiet (quiet_enter _) hr
  have hfin : Frames (k.enter .systemCallHandler) a := frames_quiet (quiet_enter _) hf
  have hin : Pids (k.enter .systemCallHandler) a := pids_quiet (quiet_enter _) hpids
  have hfree : ∀ t, OnFree k t ↔ t ∈ a.free := fun t => onFree_iff hr
  simp only [hfree]
  refine ⟨hpids.inj, fun t ht => (hpids.range t ht).1, hpids.free, ?_⟩
  intro hcur pid st hpid h1 h2
  rw [hr.current, hr.idleTask] at hcur
  constructor
  · intro t ht htp
    exact sysGetStats_found hrin hfin hcur hpid h1 h2 ((find_PID hin hpid t).mpr ⟨ht, htp⟩)
  · intro hnone
    have hfind : (List.finRange nrTasks).find?
        (fun i => ((k.enter .systemCallHandler).task i).PID = pid) = none := by
      cases hfd : (List.finRange nrTasks).find?
          (fun i => ((k.enter .systemCallHandler).task i).PID = pid) with
      | none => rfl
      | some t =>
        obtain ⟨ht, htp⟩ := (find_PID hin hpid t).mp hfd
        exact absurd htp (hnone t ht)
    rw [Kernel.sysGetStats, accessOk_data h1 h2, if_neg (by simp), if_neg (by omega), hfind]

/-- The PIDs after the first `fork`. -/
theorem pids_identify_fork :
    let k := exec sampleImage (powerOn.boot sampleImage) (.fork sampleFork)
    (∀ t u, ¬OnFree k t → ¬OnFree k u → (k.task t).PID = (k.task u).PID → t = u) ∧
    (∀ t, ¬OnFree k t → 0 ≤ (k.task t).PID) ∧
    (∀ t, OnFree k t → (k.task t).PID = -1) ∧
    (k.current ≠ k.idleTask → ∀ (pid : Int) (st : Word), 0 ≤ pid →
      userLayout.pagLogInitData * pageBytes ≤ st.toNat →
      st.toNat + sizeofStats ≤ (userLayout.pagLogInitData + numPagData) * pageBytes →
      (∀ t, ¬OnFree k t → (k.task t).PID = pid →
        ((k.enter .systemCallHandler).sysGetStats pid st).1 = 0 ∧
        Reported (k.enter .systemCallHandler) t st
          ((k.enter .systemCallHandler).sysGetStats pid st).2) ∧
      ((∀ t, ¬OnFree k t → (k.task t).PID ≠ pid) →
        (k.enter .systemCallHandler).sysGetStats pid st =
          (-ESRCH, k.enter .systemCallHandler))) :=
  pids_identify loaded_powerOn (Transition.Path.nil.snoc step_fork)
    (Nat.lt_of_le_of_lt List.countP_le_length (by decide))

end Zeos.Game
