import Mathlib.Data.List.FinRange
import Zeos.Game.Frames

/-!
# Whose turn it is

The order in which the GAME kernel serves its tasks. `Zeos.Game.schedCalls` are the
calls of `sched_next_rr` that an operation makes, each with the state it is made in,
and `Zeos.Game.dispatched` are the tasks that the calls of a whole run choose. Since
every operation is a move of the round robin scheduler, they are the tasks that the
scheduler dispatches (`Zeos.Game.pickNext_schedCalls`), and two statements about whole runs
follow.

* **The tasks on the ready queue are dispatched in the order of the queue**
  (`Zeos.Game.round_robin_order`), whatever else is forked, preempted or ended in the
  meantime.
* **The idle task runs only when there is nothing else to run, and then for ever**
  (`Zeos.Game.idle_runs_alone`). No code checks this: `schedule` would put the idle
  task on the ready queue like any other one. But it is chosen only when the ready
  queue is empty, and as it makes no system calls the queue stays empty.
-/

namespace Zeos.Game

open CircList RoundRobin X86

variable {k k' : Kernel} {a : Sched Task} {img : Image} {op : Op}

/-! ### The calls of `sched_next_rr` -/

/-- The states in which an operation calls `sched_next_rr`. -/
def schedCalls (img : Image) (k : Kernel) : Op → List Kernel
  | .clock _ =>
    let (needed, k) := (ticked img k).updateSchedDataRr.needsSchedRr
    if needed then [k.updateProcessStateRr k.current (some .readyqueue)] else []
  | .exit _ => [exited (k.enter .systemCallHandler)]
  | .yield _ =>
    let k := k.enter .systemCallHandler
    [k.updateProcessStateRr k.current (some .readyqueue)]
  | _ => []

/-- The context in which an operation calls `task_switch`, if it does. -/
def switchCtx : Op → Option SwitchCtx
  | .clock c => some c
  | .exit c => some c
  | .yield c => some c
  | _ => none

/-- **The tasks dispatched in a run**, in their order. -/
def dispatched (img : Image) (h : List (Kernel × Op)) : List Task :=
  h.flatMap fun x => (schedCalls img x.1 x.2).map fun k => k.pickNext.1

theorem dispatched_snoc {h : List (Kernel × Op)} : dispatched img (h ++ [(k, op)]) =
    dispatched img h ++ (schedCalls img k op).map fun k => k.pickNext.1 := by
  rw [dispatched, List.flatMap_append, List.flatMap_singleton]
  rfl

/-- An operation that calls `sched_next_rr` ends with it, and leaves the kernel. -/
theorem exec_of_schedCalls {k₁ : Kernel} (h : k₁ ∈ schedCalls img k op) :
    ∃ c, switchCtx op = some c ∧ exec img k op = (k₁.schedNextRr img c).leave := by
  cases op with
  | clock c =>
    refine ⟨c, rfl, ?_⟩
    rw [schedCalls] at h
    rw [exec, clockHandler_eq, Kernel.schedule]
    rcases needsSchedRr_cases (ticked img k).updateSchedDataRr with ⟨heq, -, -⟩ | ⟨r, heq⟩
    · simp only [heq, if_true, List.mem_singleton] at h
      rw [heq, h]
      rfl
    · simp [heq] at h
  | exit c =>
    obtain rfl := List.mem_singleton.mp h
    exact ⟨c, rfl, rfl⟩
  | yield c =>
    obtain rfl := List.mem_singleton.mp h
    exact ⟨c, rfl, rfl⟩
  | _ => exact absurd h List.not_mem_nil

/-- The chosen task is the one the abstract scheduler runs next. -/
theorem pickNext_fst (h : Queued k a) : k.pickNext.1 = a.next.running := by
  rw [pickNext_eq h]
  cases hr : a.ready <;> simp [Sched.next, hr]

/-- **One operation dispatches what its move dispatches.** -/
theorem pickNext_schedCalls (h : Refines k a) :
    ((schedCalls img k op).map fun k => k.pickNext.1) =
      (a.dispatched (opMove img k op)).toList := by
  have hin : Refines (k.enter .systemCallHandler) a := refines_quiet (quiet_enter _) h
  cases op with
  | clock c =>
    have h' : Refines (ticked img k).updateSchedDataRr a :=
      refines_quantum _ (refines_quiet quiet_ticked h)
    rw [schedCalls, opMove, tickMove]
    rcases needsSchedRr_cases (ticked img k).updateSchedDataRr with ⟨heq, -, -⟩ | ⟨r, heq⟩
    · simp only [heq, if_true, List.map_cons, List.map_nil, Sched.dispatched, Option.toList_some]
      rw [pickNext_fst (queued_rotate h')]
      rfl
    · simp [heq, Sched.dispatched]
  | exit c => exact congrArg (fun t => [t]) (pickNext_fst (queued_exited hin))
  | yield c => exact congrArg (fun t => [t]) (pickNext_fst (queued_rotate hin))
  | fork c =>
    change [] = _
    rw [opMove, forkMove]
    split <;> rfl
  | _ => rfl

/-! ### Runs of the scheduler -/

/-- **The line in front of the processor**: along a run, the tasks that have been
dispatched followed by those that are ready begin with the ones that were ready at
its start. -/
theorem line_path {h : List (Kernel × Op)} (hp : Transition.Path (Step img) k h k')
    (hr : Refines k a) : ∃ a', Refines k' a' ∧ a.ready <+: dispatched img h ++ a'.ready := by
  refine hp.invariant (P := fun h k' => ∃ a', Refines k' a' ∧
    a.ready <+: dispatched img h ++ a'.ready) ⟨a, hr, List.prefix_refl _⟩ ?_
  rintro h s op t - ⟨b, hb, hpre⟩ ⟨he, rfl⟩
  refine ⟨_, refines_exec hb he, ?_⟩
  rw [dispatched_snoc, pickNext_schedCalls hb]
  exact prefix_move hpre _

/-- **Round robin**: the `i`-th task that is dispatched in a run is the `i`-th one that
was on the ready queue at its start, if there were as many. -/
theorem round_robin_order {ps : List Task} {h : List (Kernel × Op)} (hr : Reachable img k)
    (hps : IsRing k.links .readyqueue (ps.map .task)) (hp : Transition.Path (Step img) k h k')
    {i : Nat} (hi : i < ps.length) (hd : i < (dispatched img h).length) :
    (dispatched img h)[i] = ps[i] := by
  obtain ⟨a, ha⟩ := reachable_refines hr
  obtain rfl : ps = a.ready :=
    List.map_injective_iff.mpr (fun _ _ => Node.task.inj) (hps.unique ha.ready)
  obtain ⟨a', -, hpre⟩ := line_path hp ha
  have hget := List.prefix_iff_getElem?.mp hpre i hi
  rw [List.getElem?_append_left hd, List.getElem?_eq_getElem hd] at hget
  exact Option.some.inj hget

/-- The queues after the first fork. -/
theorem refines_fork : Refines (exec sampleImage (powerOn.boot sampleImage) (.fork sampleFork))
    { bootSched with free := [3, 4, 5, 6, 7, 8, 9], ready := [2] } := by
  have hm : bootSched.move
      (opMove sampleImage (powerOn.boot sampleImage) (.fork sampleFork)) = bootSched.spawn :=
    forkMove_eq frames_boot
  have h : Refines (exec sampleImage (powerOn.boot sampleImage) (.fork sampleFork))
      (bootSched.move (opMove sampleImage (powerOn.boot sampleImage) (.fork sampleFork))) :=
    refines_exec refines_boot step_fork.1
  rw [hm] at h
  exact h

/-- The child of the first fork is dispatched when its parent yields. -/
theorem round_robin_order_fork :
    let k := exec sampleImage (powerOn.boot sampleImage) (.fork sampleFork)
    IsRing k.links .readyqueue [.task 2] ∧ Enabled k (.yield sampleSwitch) ∧
      (dispatched sampleImage [(k, .yield sampleSwitch)]).length = 1 ∧
      (dispatched sampleImage [(k, .yield sampleSwitch)])[0]? = some 2 := by
  intro k
  have hen : Enabled k (.yield sampleSwitch) := by
    change k.current ≠ k.idleTask
    rw [refines_fork.current, refines_fork.idleTask]
    decide
  have hp : Transition.Path (Step sampleImage) k [(k, .yield sampleSwitch)]
      (exec sampleImage k (.yield sampleSwitch)) := Transition.Path.nil.snoc ⟨hen, rfl⟩
  have hd : 0 < (dispatched sampleImage [(k, .yield sampleSwitch)]).length := Nat.zero_lt_one
  have hring : IsRing k.links .readyqueue (([2] : List Task).map .task) := refines_fork.ready
  refine ⟨hring, hen, rfl, ?_⟩
  rw [List.getElem?_eq_getElem hd]
  exact congrArg some (round_robin_order reachable_fork hring hp Nat.zero_lt_one hd)

/-! ### The idle task -/

/-- Once the idle task runs, it runs for ever: it makes no move. -/
theorem idle_path {h : List (Kernel × Op)} (hp : Transition.Path (Step img) k h k')
    (hr : Refines k a) (hi : a.running = a.idle) : Refines k' a := by
  refine hp.invariant (P := fun _ k' => Refines k' a) hr ?_
  rintro h s op t - hs ⟨he, rfl⟩
  have hstay : opMove img s op = .stay := by
    cases op with
    | clock c =>
      have h' : Refines (ticked img s).updateSchedDataRr a :=
        refines_quantum _ (refines_quiet quiet_ticked hs)
      rw [opMove, tickMove]
      rcases needsSchedRr_cases (ticked img s).updateSchedDataRr with ⟨-, -, hemp⟩ | ⟨r, heq⟩
      · rw [(listEmpty_readyqueue h').mpr (hs.wf.idle_alone hi)] at hemp
        exact absurd hemp (by simp)
      · simp [heq]
    | keyboard port => rfl
    | touch page => rfl
    | getStats pid st => rfl
    | pollEvent kb => rfl
    | _ =>
      refine absurd ?_ he
      rw [hs.current, hs.idleTask, hi]
  have hexec : Refines (exec img s op) (a.move (opMove img s op)) := refines_exec hs he
  rw [hstay] at hexec
  exact hexec

/-- **The idle task runs only when there is nothing else to run**: it is never on the
ready queue, and when it runs, the ready queue is empty and all other PCBs are on the
free queue; and then it runs in every state that follows. -/
theorem idle_runs_alone (h : Reachable img k) :
    ∃ free ready : List Task,
      IsRing k.links .freequeue (free.map .task) ∧
      IsRing k.links .readyqueue (ready.map .task) ∧
      k.idleTask ∉ ready ∧
      (k.current = k.idleTask →
        ready = [] ∧ (k.idleTask :: free).Perm (List.finRange nrTasks) ∧
        ∀ hist k', Transition.Path (Step img) k hist k' →
          k'.current = k.idleTask ∧ k'.idleTask = k.idleTask) := by
  obtain ⟨a, ha⟩ := reachable_refines h
  refine ⟨a.free, a.ready, ha.free, ha.ready, ?_, fun hc => ?_⟩
  · rw [ha.idleTask]
    exact idle_notMem_ready ha.wf
  · rw [ha.current, ha.idleTask] at hc
    obtain ⟨hnd, hall⟩ := ha.wf.free_of_idle hc
    rw [ha.idleTask]
    refine ⟨ha.wf.idle_alone hc, ?_, fun hist k' hp => ?_⟩
    · exact (List.perm_ext_iff_of_nodup hnd (List.nodup_finRange _)).mpr fun t => by simp [hall t]
    · have hk' := idle_path hp ha hc
      exact ⟨hk'.current.trans hc, hk'.idleTask⟩

/-- When the first process exits, the idle task runs. -/
theorem idle_runs_alone_exit :
    let k := exec sampleImage (powerOn.boot sampleImage) (.exit sampleSwitch)
    k.current = k.idleTask ∧ ∃ free ready : List Task,
      IsRing k.links .freequeue (free.map .task) ∧
      IsRing k.links .readyqueue (ready.map .task) ∧
      k.idleTask ∉ ready ∧
      (k.current = k.idleTask →
        ready = [] ∧ (k.idleTask :: free).Perm (List.finRange nrTasks) ∧
        ∀ hist k', Transition.Path (Step sampleImage) k hist k' →
          k'.current = k.idleTask ∧ k'.idleTask = k.idleTask) := by
  intro k
  have hk : Refines k bootSched.leave := refines_exec refines_boot step_fork.1
  refine ⟨?_, idle_runs_alone ⟨powerOn, loaded_powerOn,
    Transition.Reachable.refl.next (l := .exit sampleSwitch) ⟨step_fork.1, rfl⟩⟩⟩
  rw [hk.current, hk.idleTask]
  rfl

end Zeos.Game
