import Zeos.Common.Ticks
import Zeos.Game.Turns

/-!
# Ticks are charged once

`update_stats` reads the time-stamp counter and charges what has passed since the last
reading to one of the counters of a PCB. It does so from five places – the two halves
of an interrupt, the queueing of the outgoing task, and twice in `sched_next_rr` – on
the current, the outgoing and the incoming task, which may all be the same one.

Whatever the counter reads, one call moves the same amount into a counter and into
`elapsed_total_ticks`, so the *balance* of a PCB, the sum of its counters less the
reading (`Zeos.Game.Stats.balance`), never changes. What starts an account is
`init_stats`. `Zeos.Game.ledger` keeps the books of a run: the reading that the last
`init_stats` gave each PCB, and how often the task has been dispatched since.
**The PCBs of all live tasks, the idle one included, agree with the books**
(`Zeos.Game.tick_accounting`).
-/

namespace Zeos.Game

open ByteMem CircList RoundRobin X86

variable {k k' k'' : Kernel} {a : Sched Task} {img : Image} {t u : Task} {op : Op}

/-! ### The balance of a PCB -/

/-- What has been charged to the counters, less the reading it has been charged up
to. -/
def Stats.balance (s : Stats) : Word :=
  s.userTicks + s.systemTicks + s.readyTicks + s.blockedTicks - s.elapsedTotalTicks

/-- The balance, the ready ticks and the number of dispatches of a task are the
same. -/
structure SameCounts (task task' : Task → TaskStruct) (t : Task) : Prop where
  /-- The balance. -/
  balance : (task' t).pStats.balance = (task t).pStats.balance
  /-- `ready_ticks` -/
  ready : (task' t).pStats.readyTicks = (task t).pStats.readyTicks
  /-- `total_trans` -/
  dispatches : (task' t).pStats.totalTrans = (task t).pStats.totalTrans

theorem SameCounts.refl {task : Task → TaskStruct} : SameCounts task task t := ⟨rfl, rfl, rfl⟩

theorem SameCounts.trans {task task' task'' : Task → TaskStruct} (h : SameCounts task task' t)
    (h' : SameCounts task' task'' t) : SameCounts task task'' t :=
  ⟨h'.balance.trans h.balance, h'.ready.trans h.ready, h'.dispatches.trans h.dispatches⟩

/-- A PCB that has the same statistics. -/
theorem sameCounts_of_eq {task task' : Task → TaskStruct}
    (h : (task' t).pStats = (task t).pStats) : SameCounts task task' t := by
  refine ⟨?_, ?_, ?_⟩ <;> rw [h]

theorem sameCounts_setState (u : Task) (st : StateT) : SameCounts k.task (k.setState u st).task t :=
  sameCounts_of_eq (modifyTask_field TaskStruct.pStats fun _ => rfl)

theorem updateStats_self (v : Counter) : ((k.updateStats v t).task t).pStats =
    { (k.task t).pStats.add v (k.tsc k.now - (k.task t).pStats.elapsedTotalTicks) with
      elapsedTotalTicks := k.tsc k.now } := by
  rw [Kernel.updateStats, modifyTask_self]
  rfl

theorem updateStats_of_ne (v : Counter) (h : t ≠ u) : (k.updateStats v u).task t = k.task t := by
  rw [Kernel.updateStats, modifyTask_of_ne h]
  rfl

/-- The `n`-th call of `get_ticks` finds the time-stamp counter at the words `s n`, the low
one first. -/
def ReadsStamps (k : Kernel) (s : Nat → Word × Word) : Prop :=
  ∀ n, getTicks (s n).1 (s n).2 = some (k.tsc n)

/-- **`update_stats` charges the time that has passed** since the call of `get_ticks` whose
result it finds in the PCB, in ticks, if that is less than `2 ^ 32` of them. -/
theorem updateStats_charge {s : Nat → Word × Word} {j : Nat} (v : Counter)
    (hs : ReadsStamps k s) (hj : (k.task t).pStats.elapsedTotalTicks = k.tsc j)
    (hle : stamp (s j).1 (s j).2 ≤ stamp (s k.now).1 (s k.now).2)
    (hlt : stamp (s k.now).1 (s k.now).2 / cyclesPerTick.toNat <
      stamp (s j).1 (s j).2 / cyclesPerTick.toNat + 2 ^ 32) :
    ∃ d : Word, ((k.updateStats v t).task t).pStats =
        { (k.task t).pStats.add v d with elapsedTotalTicks := k.tsc k.now } ∧
      d.toNat = stamp (s k.now).1 (s k.now).2 / cyclesPerTick.toNat -
        stamp (s j).1 (s j).2 / cyclesPerTick.toNat := by
  refine ⟨k.tsc k.now - k.tsc j, ?_, getTicks_sub (hs j) (hs k.now) hle hlt⟩
  rw [updateStats_self, hj]

/-- **A charge leaves the balance as it was.** -/
theorem balance_charge (s : Stats) (v : Counter) (now : Word) :
    { s.add v (now - s.elapsedTotalTicks) with elapsedTotalTicks := now }.balance =
      s.balance := by
  cases v <;> simp only [Stats.balance, Stats.add] <;> grind

theorem balance_updateStats (v : Counter) (u : Task) :
    ((k.updateStats v u).task t).pStats.balance = (k.task t).pStats.balance := by
  by_cases h : t = u
  · subst h
    rw [updateStats_self, balance_charge]
  · rw [updateStats_of_ne v h]

theorem totalTrans_updateStats (v : Counter) (u : Task) :
    ((k.updateStats v u).task t).pStats.totalTrans = (k.task t).pStats.totalTrans := by
  by_cases h : t = u
  · subst h
    rw [updateStats_self]
    cases v <;> rfl
  · rw [updateStats_of_ne v h]

/-- Charging another counter than `ready_ticks`, or another task. -/
theorem sameCounts_updateStats {v : Counter} (h : v ≠ .ready ∨ t ≠ u) :
    SameCounts k.task (k.updateStats v u).task t := by
  refine ⟨balance_updateStats v u, ?_, totalTrans_updateStats v u⟩
  by_cases htu : t = u
  · subst htu
    rw [updateStats_self]
    cases v with
    | ready => exact absurd rfl (h.resolve_right (not_not.mpr rfl))
    | user => rfl
    | system => rfl
  · rw [updateStats_of_ne v htu]

/-! ### The functions of the scheduler -/

theorem sameCounts_leave : SameCounts k.task k.leave.task t := by
  unfold Kernel.leave
  cases k.entered k.current with
  | clockHandler => exact sameCounts_updateStats (Or.inl (by decide))
  | keyboardHandler => exact sameCounts_updateStats (Or.inl (by decide))
  | systemCallHandler => exact SameCounts.refl
  | cpuIdle => exact SameCounts.refl

theorem sameCounts_ticked (img : Image) : SameCounts k.task (ticked img k).task t :=
  sameCounts_updateStats (k := k.enter .clockHandler) (v := .user) (Or.inl (by decide))

theorem sameCounts_updateProcessStateRr {q : Option Node} :
    SameCounts k.task (k.updateProcessStateRr u q).task t := by
  have hleave : SameCounts k.task (k.leaveQueue u).task t := by
    unfold Kernel.leaveQueue
    split <;> exact SameCounts.refl
  unfold Kernel.updateProcessStateRr
  cases q with
  | none => exact hleave.trans (sameCounts_setState _ _)
  | some q =>
    dsimp only
    split
    · exact hleave.trans (sameCounts_setState _ _)
    · refine hleave.trans (SameCounts.trans ?_ (sameCounts_setState _ _))
      exact sameCounts_updateStats (k := { k.leaveQueue u with
        links := listAddTail (k.leaveQueue u).links (.task u) q }) (Or.inl (by decide))

theorem sameCounts_exited : SameCounts k.task (exited k).task t :=
  sameCounts_of_eq (modifyTask_field TaskStruct.pStats fun _ => rfl)

/-- What `sched_next_rr` does to the statistics, without the count of the
dispatch. -/
def charged (k : Kernel) (u : Task) : Kernel :=
  ({ k.setState u .stRun with
    remainingQuantum := (k.setState u .stRun).getQuantum u }.updateStats .system
      k.current).updateStats .ready u

theorem dispatch_eq (u : Task) : k.dispatch u = (charged k u).modifyTask u fun s =>
    { s with pStats := { s.pStats with totalTrans := s.pStats.totalTrans + 1 } } := rfl

/-- Up to the last charge, to the ready ticks of the chosen task, the counts are the
same. -/
theorem sameCounts_system : SameCounts k.task ({ k.setState u .stRun with
    remainingQuantum := (k.setState u .stRun).getQuantum u }.updateStats .system
      k.current).task t :=
  (sameCounts_setState u .stRun).trans
    (sameCounts_updateStats (k := { k.setState u .stRun with
      remainingQuantum := (k.setState u .stRun).getQuantum u }) (Or.inl (by decide)))

/-- **A dispatch** leaves the counts of all other tasks alone. -/
theorem sameCounts_dispatch (h : t ≠ u) : SameCounts k.task (k.dispatch u).task t := by
  refine (sameCounts_system (u := u)).trans
    ((sameCounts_updateStats (v := .ready) (Or.inr h)).trans (sameCounts_of_eq ?_))
  rw [dispatch_eq, modifyTask_of_ne h]
  rfl

/-- **A dispatch** keeps the balance of the chosen task, and counts. -/
theorem dispatch_self (u : Task) :
    ((k.dispatch u).task u).pStats.balance = (k.task u).pStats.balance ∧
      ((k.dispatch u).task u).pStats.totalTrans = (k.task u).pStats.totalTrans + 1 := by
  have hs := sameCounts_system (k := k) (u := u) (t := u)
  rw [dispatch_eq, modifyTask_self]
  constructor
  · exact (balance_updateStats .ready u).trans hs.balance
  · exact congrArg (· + 1) ((totalTrans_updateStats .ready u).trans hs.dispatches)

/-- `sched_next_rr`, as far as the PCBs are concerned. -/
theorem schedNextRr_task {c : SwitchCtx} :
    (k.schedNextRr img c).task = (k.pickNext.2.dispatch k.pickNext.1).task := rfl

theorem pickNext_task : k.pickNext.2.task = k.task := by
  unfold Kernel.pickNext
  split <;> rfl

/-- `sched_next_rr` leaves the counts of the tasks it does not choose alone. -/
theorem sameCounts_schedNextRr {c : SwitchCtx} (h : t ≠ k.pickNext.1) :
    SameCounts k.task (k.schedNextRr img c).task t := by
  have hd := sameCounts_dispatch (k := k.pickNext.2) h
  refine ⟨?_, ?_, ?_⟩ <;> rw [schedNextRr_task]
  · rw [hd.balance, pickNext_task]
  · rw [hd.ready, pickNext_task]
  · rw [hd.dispatches, pickNext_task]

/-- `sched_next_rr` keeps the balance of the task it chooses, and counts. -/
theorem schedNextRr_self (img : Image) (c : SwitchCtx) (h : t = k.pickNext.1) :
    ((k.schedNextRr img c).task t).pStats.balance = (k.task t).pStats.balance ∧
      ((k.schedNextRr img c).task t).pStats.totalTrans = (k.task t).pStats.totalTrans + 1 := by
  obtain ⟨h1, h2⟩ := dispatch_self (k := k.pickNext.2) k.pickNext.1
  rw [pickNext_task] at h1 h2
  rw [schedNextRr_task, h]
  exact ⟨h1, h2⟩

/-- Nothing before the call of `sched_next_rr` changes the counts. -/
theorem sameCounts_schedCalls {k₁ : Kernel} (h : k₁ ∈ schedCalls img k op) :
    SameCounts k.task k₁.task t := by
  cases op with
  | clock c =>
    rw [schedCalls] at h
    rcases needsSchedRr_cases (ticked img k).updateSchedDataRr with ⟨heq, -, -⟩ | ⟨r, heq⟩
    · simp only [heq, if_true, List.mem_singleton] at h
      subst h
      exact (sameCounts_ticked img).trans (sameCounts_updateProcessStateRr
        (k := (ticked img k).updateSchedDataRr))
    · simp [heq] at h
  | exit c =>
    obtain rfl := List.mem_singleton.mp h
    exact sameCounts_exited (k := k.enter .systemCallHandler)
  | yield c =>
    obtain rfl := List.mem_singleton.mp h
    exact sameCounts_updateProcessStateRr (k := k.enter .systemCallHandler)
  | _ => exact absurd h List.not_mem_nil

/-! ### The books -/

/-- The state in which `sys_fork` calls `init_stats`. -/
def forkNamed (img : Image) (c : ForkCtx) (k : Kernel) (child : Task) : Kernel :=
  let k := { k with globalPID := wrapInt (k.globalPID + 1) }
  let k := k.modifyTask child fun s => { s with PID := k.globalPID, state := .stReady }
  k.forkStack img c child

/-- The calls of `init_stats` that an operation makes, each with the state it is made
in and the task. -/
def initStatsCalls (img : Image) (k : Kernel) : Op → List (Kernel × Task)
  | .fork c =>
    let k := k.enter .systemCallHandler
    let child := Kernel.listHeadToTaskStruct (listFirst k.links .freequeue)
    if listEmpty k.links .freequeue then []
    else match Kernel.forkAlloc ((forkBegun img c k child).getPT child) numPagData 0 k.mm with
      | (false, _) => []
      | (true, mm) => [(forkNamed img c (forkMapped img c k child mm) child, child)]
  | _ => []

/-- The calls of `init_stats` that `init_idle` and `init_task1` make. -/
def bootStatsCalls (img : Image) (k₀ : Kernel) : List (Kernel × Task) :=
  let k := (k₀.initMm img).initSched
  let (c, k₁) := k.takeFree
  let k₁ := k₁.modifyTask c fun s => { s with PID := 0, totalQuantum := defaultQuantum }
  let (d, k₂) := (k.initIdle img).takeFree
  let k₂ := k₂.modifyTask d fun s =>
    { s with PID := 1, totalQuantum := defaultQuantum, state := .stRun }
  let k₂ := { k₂ with remainingQuantum := (k₂.task d).totalQuantum }
  [(k₁, c), (k₂, d)]

/-- The account of a task. -/
structure Account where
  /-- The `elapsed_total_ticks` that `init_stats` has given it. -/
  born : Word
  /-- How often it has been dispatched since. -/
  dispatches : Nat

/-- `init_stats` opens an account. -/
def openAccount (g : Task → Account) (x : Kernel × Task) : Task → Account :=
  Function.update g x.2
    { born := ((x.1.initStats x.2).task x.2).pStats.elapsedTotalTicks, dispatches := 0 }

/-- A dispatch is entered in the account. -/
def countDispatch (g : Task → Account) (t : Task) : Task → Account :=
  Function.update g t { g t with dispatches := (g t).dispatches + 1 }

/-- What one operation enters in the books. -/
def ledgerStep (img : Image) (g : Task → Account) (x : Kernel × Op) : Task → Account :=
  ((schedCalls img x.1 x.2).map fun k => k.pickNext.1).foldl countDispatch
    ((initStatsCalls img x.1 x.2).foldl openAccount g)

/-- **The books of a run** from the boot of the machine `k₀` on. -/
def ledger (img : Image) (k₀ : Kernel) (h : List (Kernel × Op)) : Task → Account :=
  h.foldl (ledgerStep img)
    ((bootStatsCalls img k₀).foldl openAccount fun _ => { born := 0, dispatches := 0 })

/-- **The PCB agrees with the account.** -/
def Agrees (s : Stats) (acc : Account) : Prop :=
  s.balance = -acc.born ∧ s.totalTrans = BitVec.ofNat 32 acc.dispatches

/-- `init_stats` sets the counters to zero. -/
theorem agrees_initStats (s : Stats) (g : Task → Account)
    (hs : s = ((k.initStats t).task t).pStats) : Agrees s (openAccount g (k, t) t) := by
  have heq : ((k.initStats t).task t).pStats =
      { userTicks := 0, systemTicks := 0, blockedTicks := 0, readyTicks := 0,
        elapsedTotalTicks := k.tsc k.now, totalTrans := 0,
        remainingTicks := k.tsc (k.now + 1) } := by
    rw [Kernel.initStats, modifyTask_self]
    rfl
  simp only [Agrees, openAccount, Function.update_self, hs, heq, Stats.balance]
  exact ⟨by simp, rfl⟩

/-- A PCB whose counts are the same agrees with the same account. -/
theorem SameCounts.agrees {task task' : Task → TaskStruct} {acc : Account}
    (h : SameCounts task task' t) (hag : Agrees (task t).pStats acc) :
    Agrees (task' t).pStats acc :=
  ⟨h.balance.trans hag.1, h.dispatches.trans hag.2⟩

/-! ### Operations without a dispatch -/

theorem sameCounts_reported : SameCounts k.task (reported k u).task t := by
  by_cases h : t = u
  · subst h
    refine ⟨?_, ?_, ?_⟩ <;> rw [reported, modifyTask_self]
    rfl
  · refine sameCounts_of_eq ?_
    rw [reported, modifyTask_of_ne h]

theorem sameCounts_schedule {c : SwitchCtx}
    (h : k.updateSchedDataRr.needsSchedRr.1 = false) :
    SameCounts k.task (k.schedule img c).task t := by
  rw [Kernel.schedule]
  rcases needsSchedRr_cases k.updateSchedDataRr with ⟨heq, -, -⟩ | ⟨r, heq⟩
  · rw [heq] at h
    exact absurd h (by simp)
  · rw [heq]
    exact SameCounts.refl

/-- **An operation that is no `fork` and calls no `sched_next_rr`** changes no
count. -/
theorem sameCounts_exec (h : schedCalls img k op = []) (hf : ∀ c, op ≠ .fork c) :
    SameCounts k.task (exec img k op).task t := by
  cases op with
  | clock c =>
    have hn : (ticked img k).updateSchedDataRr.needsSchedRr.1 = false := by
      rw [schedCalls] at h
      rcases needsSchedRr_cases (ticked img k).updateSchedDataRr with ⟨heq, -, -⟩ | ⟨r, heq⟩
      · simp [heq] at h
      · rw [heq]
    exact (sameCounts_ticked img).trans ((sameCounts_schedule hn).trans sameCounts_leave)
  | keyboard port =>
    have h1 : SameCounts k.task (k.enter .keyboardHandler).userToSystem.task t :=
      sameCounts_updateStats (k := k.enter .keyboardHandler) (v := .user) (Or.inl (by decide))
    exact h1.trans (sameCounts_leave (k := { (k.enter .keyboardHandler).userToSystem with
      keyboard := (k.enter .keyboardHandler).userToSystem.keyboard.keyboardRoutine port }))
  | fork c => exact absurd rfl (hf c)
  | exit c => exact absurd h (by simp [schedCalls])
  | yield c => exact absurd h (by simp [schedCalls])
  | getStats pid st =>
    refine SameCounts.trans ?_ sameCounts_leave
    rcases sysGetStats_cases (k := k.enter .systemCallHandler) pid st with heq | ⟨u, heq⟩
    · rw [heq]
      exact SameCounts.refl
    · rw [heq]
      exact sameCounts_reported (k := k.enter .systemCallHandler)
  | pollEvent kb =>
    refine SameCounts.trans ?_ sameCounts_leave
    rcases sysPollEvent_cases (k := k.enter .systemCallHandler) kb with heq | heq
    · rw [heq]
      exact SameCounts.refl
    · rw [heq]
      exact SameCounts.refl
  | touch page => exact SameCounts.refl

/-! ### Forks -/

/-- The call of `init_stats` for the first free PCB. -/
theorem initStatsCalls_eq {c : ForkCtx} {ts : List Task} (h : Refines k a)
    (hf : a.free = u :: ts) : initStatsCalls img k (.fork c) =
      match Kernel.forkAlloc ((forkBegun img c (k.enter .systemCallHandler) u).getPT u)
        numPagData 0 k.mm with
      | (false, _) => []
      | (true, mm) =>
        [(forkNamed img c (forkMapped img c (k.enter .systemCallHandler) u mm) u, u)] := by
  have hring := h.free
  rw [hf, List.map_cons] at hring
  have hfirst : listFirst (k.enter .systemCallHandler).links .freequeue = .task u :=
    listFirst_eq hring
  have hne : ¬listEmpty (k.enter .systemCallHandler).links .freequeue = true := by
    change ¬listEmpty k.links .freequeue = true
    rw [listEmpty_freequeue h, hf]
    simp
  simp only [initStatsCalls, if_neg hne, hfirst]
  rfl

/-- **A fork changes the counts of no task in use.** -/
theorem sameCounts_fork {c : ForkCtx} (h : Refines k a) (ht : t ∉ a.free) :
    SameCounts k.task (exec img k (.fork c)).task t := by
  have hin : Refines (k.enter .systemCallHandler) a := refines_quiet (quiet_enter _) h
  refine SameCounts.trans (sameCounts_of_eq ?_) sameCounts_leave
  cases hf : a.free with
  | nil =>
    rw [sysFork_of_empty c ((listEmpty_freequeue hin).mpr hf)]
    rfl
  | cons u ts =>
    have htu : t ≠ u := fun he => ht (by simp [hf, he])
    have hb : (forkBegun img c (k.enter .systemCallHandler) u).task t = k.task t :=
      forkBegun_of_ne c htu
    rw [sysFork_eq c hin hf]
    cases Kernel.forkAlloc ((forkBegun img c (k.enter .systemCallHandler) u).getPT u)
        numPagData 0 (k.enter .systemCallHandler).mm with
    | mk ok mm =>
      cases ok with
      | false => exact congrArg TaskStruct.pStats hb
      | true =>
        refine congrArg TaskStruct.pStats (Eq.trans ?_ hb)
        exact forkFinish_of_ne c htu

/-- The statistics of a child whose fork succeeds are those of `init_stats`. -/
theorem forkFinish_pStats {c : ForkCtx} : ((k.forkFinish img c u).task u).pStats =
    (((forkNamed img c k u).initStats u).task u).pStats := by
  have h : (k.forkFinish img c u).task =
      (((forkNamed img c k u).initStats u).setState u .stReady).task := rfl
  rw [h, Kernel.setState, modifyTask_self]

/-- **A fork opens an account for the task it takes from the free queue.** -/
theorem agrees_fork {c : ForkCtx} {g : Task → Account} (h : Refines k a)
    (hag : ∀ t, t ∉ a.free → Agrees (k.task t).pStats (g t))
    (ht : t ∉ (a.move (opMove img k (.fork c))).free) :
    Agrees ((exec img k (.fork c)).task t).pStats (ledgerStep img g (k, .fork c) t) := by
  have hin : Refines (k.enter .systemCallHandler) a := refines_quiet (quiet_enter _) h
  have hstep : ledgerStep img g (k, .fork c) =
      (initStatsCalls img k (.fork c)).foldl openAccount g := rfl
  rw [hstep]
  cases hf : a.free with
  | nil =>
    have hcalls : initStatsCalls img k (.fork c) = [] := if_pos ((listEmpty_freequeue hin).mpr hf)
    rw [hcalls]
    exact (sameCounts_fork h (by simp [hf])).agrees (hag t (by simp [hf]))
  | cons u ts =>
    have hring := h.free
    rw [hf, List.map_cons] at hring
    have hmove : opMove img k (.fork c) = if (Kernel.forkAlloc ((forkBegun img c
        (k.enter .systemCallHandler) u).getPT u) numPagData 0 k.mm).1 then .spawn
        else .giveBack := by
      rw [opMove, forkMove, listFirst_eq hring, forkBegun_getPT_self]
      rfl
    have hsys := @sysFork_eq _ a img u ts c hin hf
    have hmm : (k.enter .systemCallHandler).mm = k.mm := rfl
    rw [hmm] at hsys
    rw [initStatsCalls_eq h hf]
    rw [hmove] at ht
    cases halloc : Kernel.forkAlloc ((forkBegun img c (k.enter .systemCallHandler) u).getPT u)
        numPagData 0 k.mm with
    | mk ok mm =>
      rw [halloc] at ht hsys
      cases ok with
      | false =>
        -- the PCB goes back to the free queue, and no account is opened
        have htf : t ∉ a.free := by
          simp only [Bool.false_eq_true, if_false, Sched.move, Sched.giveBack, hf] at ht
          simp only [hf, List.mem_cons]
          simp only [List.mem_append, List.mem_singleton] at ht
          tauto
        exact (sameCounts_fork h htf).agrees (hag t htf)
      | true =>
        by_cases htu : t = u
        · subst htu
          rw [exec, hsys]
          refine SameCounts.agrees sameCounts_leave ?_
          exact agrees_initStats _ _ forkFinish_pStats
        · have htf : t ∉ a.free := by
            simp only [if_true, Sched.move, Sched.spawn, hf] at ht
            simp only [hf, List.mem_cons, not_or]
            exact ⟨htu, ht⟩
          have hopen : openAccount g (forkNamed img c (forkMapped img c
              (k.enter .systemCallHandler) u mm) u, u) t = g t := Function.update_of_ne htu _ _
          simp only [List.foldl_cons, List.foldl_nil, hopen]
          exact (sameCounts_fork h htf).agrees (hag t htf)

/-! ### Dispatches -/

/-- There is at most one call of `sched_next_rr`, and if there is one, no account is
opened. -/
theorem schedCalls_cases (img : Image) (k : Kernel) (op : Op) : schedCalls img k op = [] ∨
    (∃ k₁, schedCalls img k op = [k₁]) ∧ initStatsCalls img k op = [] := by
  cases op with
  | clock c =>
    rw [schedCalls]
    rcases needsSchedRr_cases (ticked img k).updateSchedDataRr with ⟨heq, -, -⟩ | ⟨r, heq⟩
    · rw [heq]
      exact Or.inr ⟨⟨_, rfl⟩, rfl⟩
    · rw [heq]
      exact Or.inl rfl
  | exit c => exact Or.inr ⟨⟨_, rfl⟩, rfl⟩
  | yield c => exact Or.inr ⟨⟨_, rfl⟩, rfl⟩
  | _ => exact Or.inl rfl

/-- **A dispatch is entered in the account of the task that is dispatched.** -/
theorem agrees_dispatch {k₁ : Kernel} {g : Task → Account} (h : schedCalls img k op = [k₁])
    (hi : initStatsCalls img k op = []) (hag : Agrees (k.task t).pStats (g t)) :
    Agrees ((exec img k op).task t).pStats (ledgerStep img g (k, op) t) := by
  have hmem : k₁ ∈ schedCalls img k op := by simp [h]
  obtain ⟨c, -, hexec⟩ := exec_of_schedCalls hmem
  have hstep : ledgerStep img g (k, op) = countDispatch g k₁.pickNext.1 := by
    simp [ledgerStep, h, hi]
  have hag₁ := (sameCounts_schedCalls hmem).agrees hag
  rw [hexec, hstep]
  refine SameCounts.agrees sameCounts_leave ?_
  by_cases ht : t = k₁.pickNext.1
  · obtain ⟨h1, h2⟩ := schedNextRr_self img c ht
    rw [← ht, countDispatch, Function.update_self]
    refine ⟨h1.trans hag₁.1, ?_⟩
    rw [h2, hag₁.2, BitVec.ofNat_add]
    rfl
  · rw [countDispatch, Function.update_of_ne ht]
    exact (sameCounts_schedNextRr ht).agrees hag₁

/-! ### Runs -/

/-- A slot that a move other than those of `fork` does not make free was not free
before. -/
theorem free_subset_move (hm : opMove img k op ≠ .spawn ∧ opMove img k op ≠ .giveBack)
    (ht : t ∉ (a.move (opMove img k op)).free) : t ∉ a.free := by
  have hn : ∀ b : Sched Task, b.next.free = b.free := by
    intro b
    cases hr : b.ready <;> simp [Sched.next, hr]
  intro htf
  refine ht ?_
  cases hop : opMove img k op with
  | stay => exact htf
  | rotate => exact (hn _).symm ▸ htf
  | leave => exact (hn _).symm ▸ List.mem_append_left _ htf
  | spawn => exact absurd hop hm.1
  | giveBack => exact absurd hop hm.2

/-- **One step**: the PCBs in use agree with the books. -/
theorem agrees_exec {g : Task → Account} (h : Refines k a)
    (hag : ∀ t, t ∉ a.free → Agrees (k.task t).pStats (g t))
    (ht : t ∉ (a.move (opMove img k op)).free) :
    Agrees ((exec img k op).task t).pStats (ledgerStep img g (k, op) t) := by
  by_cases hf : ∃ c, op = .fork c
  · obtain ⟨c, rfl⟩ := hf
    exact agrees_fork h hag ht
  · have hm : opMove img k op ≠ .spawn ∧ opMove img k op ≠ .giveBack := by
      cases op with
      | clock c =>
        rw [opMove, tickMove]
        split <;> simp
      | fork c => exact absurd ⟨c, rfl⟩ hf
      | _ => simp [opMove]
    have htf := free_subset_move hm ht
    rcases schedCalls_cases img k op with hs | ⟨⟨k₁, hs⟩, hi⟩
    · have hi : initStatsCalls img k op = [] := by
        cases op with
        | fork c => exact absurd ⟨c, rfl⟩ hf
        | _ => rfl
      have hstep : ledgerStep img g (k, op) = g := by simp [ledgerStep, hs, hi]
      rw [hstep]
      exact (sameCounts_exec hs fun c hc => hf ⟨c, hc⟩).agrees (hag t htf)
    · exact agrees_dispatch hs hi (hag t htf)

/-- The state in which `init_idle` calls `init_stats`, for the PCB `t`. -/
def idleNamed (k : Kernel) (t : Task) : Kernel :=
  { k with links := listDel k.links .null (.task t) }.modifyTask t fun s =>
    { s with PID := 0, totalQuantum := defaultQuantum }

/-- The state in which `init_task1` calls `init_stats`, for the PCB `t`. -/
def task1Named (k : Kernel) (t : Task) : Kernel :=
  let k := { k with links := listDel k.links .null (.task t) }.modifyTask t fun s =>
    { s with PID := 1, totalQuantum := defaultQuantum, state := .stRun }
  { k with remainingQuantum := (k.task t).totalQuantum }

theorem bootStatsCalls_eq (img : Image) (k₀ : Kernel) : bootStatsCalls img k₀ =
    [(idleNamed (scheduled img k₀) 0, 0),
      (task1Named (initIdleAt img 0 (scheduled img k₀)) 1, 1)] := by
  have h1 : ((k₀.initMm img).initSched).takeFree =
      (0, { scheduled img k₀ with links := listDel (scheduled img k₀).links .null (.task 0) }) :=
    takeFree_eq isRing_scheduled
  have h2 : ((k₀.initMm img).initSched).initIdle img = initIdleAt img 0 (scheduled img k₀) :=
    initIdle_eq isRing_scheduled
  have h3 := takeFree_eq (@isRing_idle k₀ img)
  simp only [bootStatsCalls, h1, h2, h3]
  rfl

theorem initIdleAt_pStats (img : Image) : ((initIdleAt img t k).task t).pStats =
    (((idleNamed k t).initStats t).task t).pStats :=
  modifyTask_field (k := (idleNamed k t).initStats t) (t := t)
    (f := fun s => { s with dirPagesBaseAddr := t }) TaskStruct.pStats fun _ => rfl

theorem initTask1At_pStats (img : Image) : ((initTask1At img t k).task t).pStats =
    (((task1Named k t).initStats t).task t).pStats :=
  modifyTask_field (k := (task1Named k t).initStats t) (t := t)
    (f := fun s => { s with dirPagesBaseAddr := t }) TaskStruct.pStats fun _ => rfl

/-- **After boot** the idle task and the first process agree with the books. -/
theorem agrees_boot {k₀ : Kernel} (ht : t ∉ bootSched.free) :
    Agrees ((k₀.boot img).task t).pStats (ledger img k₀ [] t) := by
  have h01 : t = 0 ∨ t = 1 := by
    revert ht
    revert t
    decide
  rw [ledger, List.foldl_nil, bootStatsCalls_eq, List.foldl_cons, List.foldl_cons, List.foldl_nil,
    boot_eq]
  rcases h01 with rfl | rfl
  · have hne : (0 : Task) ≠ 1 := by decide
    have hopen : ∀ g : Task → Account, openAccount g
        (task1Named (initIdleAt img 0 (scheduled img k₀)) 1, 1) 0 = g 0 :=
      fun g => Function.update_of_ne hne _ _
    rw [hopen, initTask1At_of_ne (by decide)]
    exact agrees_initStats _ _ (initIdleAt_pStats img)
  · exact agrees_initStats _ _ (initTask1At_pStats img)

/-- **Every run**: the PCBs in use agree with the books. -/
theorem agrees_path {k₀ : Kernel} {h : List (Kernel × Op)}
    (hp : Transition.Path (Step img) (k₀.boot img) h k) :
    ∃ a, Refines k a ∧ ∀ t, t ∉ a.free → Agrees (k.task t).pStats (ledger img k₀ h t) := by
  refine hp.invariant (P := fun h k => ∃ a, Refines k a ∧
    ∀ t, t ∉ a.free → Agrees (k.task t).pStats (ledger img k₀ h t))
    ⟨bootSched, refines_boot, fun t ht => agrees_boot ht⟩ ?_
  rintro h k op k' - ⟨a, hr, hag⟩ ⟨he, rfl⟩
  refine ⟨_, refines_exec hr he, fun t ht => ?_⟩
  have hsnoc : ledger img k₀ (h ++ [(k, op)]) = ledgerStep img (ledger img k₀ h) (k, op) := by
    rw [ledger, List.foldl_append]
    rfl
  rw [hsnoc]
  exact agrees_exec hr hag ht

/-! ### The accounts -/

/-- `p->p_stats.ready_ticks` -/
def readyTicks (k : Kernel) (t : Task) : Word := (k.task t).pStats.readyTicks

/-- **An operation changes the ready ticks of a task in the call of `sched_next_rr`
that dispatches it, and nowhere else**: not before the call, not after it, not in it
when it chooses another task, and not at all if there is no call. -/
def ReadyOnlyOnDispatch (img : Image) (k : Kernel) (op : Op) (t : Task) : Prop :=
  (schedCalls img k op = [] → readyTicks (exec img k op) t = readyTicks k t) ∧
    ∀ k₁ ∈ schedCalls img k op, ∀ c, switchCtx op = some c →
      readyTicks k₁ t = readyTicks k t ∧
      (t ≠ k₁.pickNext.1 → readyTicks (k₁.schedNextRr img c) t = readyTicks k₁ t) ∧
      readyTicks (exec img k op) t = readyTicks (k₁.schedNextRr img c) t

theorem readyOnlyOnDispatch (h : Refines k a) (ht : t ∉ a.free) :
    ReadyOnlyOnDispatch img k op t := by
  constructor
  · intro hs
    by_cases hf : ∃ c, op = .fork c
    · obtain ⟨c, rfl⟩ := hf
      exact (sameCounts_fork h ht).ready
    · exact (sameCounts_exec hs fun c hc => hf ⟨c, hc⟩).ready
  · intro k₁ hk₁ c hc
    obtain ⟨c', hc', hexec⟩ := exec_of_schedCalls hk₁
    obtain rfl : c' = c := Option.some.inj (hc'.symm.trans hc)
    refine ⟨(sameCounts_schedCalls hk₁).ready, fun hne => (sameCounts_schedNextRr hne).ready, ?_⟩
    rw [hexec]
    exact sameCounts_leave.ready

/-- **Tick accounting is conserved**: after every run, whatever `get_ticks` has
returned, the counters of a task in use sum up to what has passed since `init_stats`
read the counter for it, `total_trans` is the number of its dispatches since then, and
the next operation changes its ready ticks only by dispatching it. -/
theorem tick_accounting {k₀ : Kernel} {h : List (Kernel × Op)}
    (hp : Transition.Path (Step img) (k₀.boot img) h k) (ht : ¬OnFree k t) :
    let s := (k.task t).pStats
    let acc := ledger img k₀ h t
    s.userTicks + s.systemTicks + s.readyTicks + s.blockedTicks =
        s.elapsedTotalTicks - acc.born ∧
      s.totalTrans = BitVec.ofNat 32 acc.dispatches ∧
      ∀ op, Enabled k op → ReadyOnlyOnDispatch img k op t := by
  intro s acc
  obtain ⟨a, hr, hag⟩ := agrees_path hp
  rw [onFree_iff hr] at ht
  obtain ⟨hbal, htrans⟩ := hag t ht
  refine ⟨?_, htrans, fun op _ => readyOnlyOnDispatch hr ht⟩
  have hb : s.userTicks + s.systemTicks + s.readyTicks + s.blockedTicks - s.elapsedTotalTicks =
      -acc.born := hbal
  grind

/-- The accounts of the first process after it has forked. -/
theorem tick_accounting_fork :
    let k := exec sampleImage (powerOn.boot sampleImage) (.fork sampleFork)
    let s := (k.task 1).pStats
    let acc := ledger sampleImage powerOn [(powerOn.boot sampleImage, .fork sampleFork)] 1
    ¬OnFree k 1 ∧
      s.userTicks + s.systemTicks + s.readyTicks + s.blockedTicks =
        s.elapsedTotalTicks - acc.born ∧
      s.totalTrans = BitVec.ofNat 32 acc.dispatches ∧
      ∀ op, Enabled k op → ReadyOnlyOnDispatch sampleImage k op 1 := by
  have hlive : ¬OnFree (exec sampleImage (powerOn.boot sampleImage) (.fork sampleFork)) 1 := by
    rw [onFree_iff refines_fork]
    decide
  exact ⟨hlive, tick_accounting (Transition.Path.nil.snoc step_fork) hlive⟩

end Zeos.Game
