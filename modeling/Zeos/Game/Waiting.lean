import Zeos.Game.Quantum

/-!
# How long a process waits

The tasks on the ready queue of the GAME kernel are dispatched in the order of the queue, and
while some wait, the running one has the processor for no more ticks than its quantum. Hence
nobody starves: **a task with `i` others before it on the ready queue is dispatched after
`i` quanta and what is left of the running one's, at the latest**, whatever is forked, ended or
given up in the meantime (`Zeos.Game.bounded_waiting`).

The argument is a potential, the ticks that may still pass before the task is dispatched: what
is left of the running task's quantum, and a quantum for each task that will be dispatched
before it. A tick takes one off, or at least one when it ends a slice; other operations take
off the rest of a slice, or nothing (`Zeos.Game.potential_exec`).
-/

namespace Zeos.Game

open CircList RoundRobin X86

variable {k k' : Kernel} {a : Sched Task} {img : Image} {op : Op} {h : List (Kernel × Op)}

/-- The ticks that may pass before the task at position `i` of the ready queue is
dispatched. -/
def potential (k : Kernel) (i : Nat) : Int := k.remainingQuantum + i * defaultQuantum

/-- What an operation dispatches is one task, or none. -/
theorem dispatched_cases (hr : Refines k a) :
    (opMove img k op ≠ .rotate ∧ opMove img k op ≠ .leave ∧
        (schedCalls img k op).map (fun k => k.pickNext.1) = []) ∨
      ((opMove img k op = .rotate ∨ opMove img k op = .leave) ∧
        ((schedCalls img k op).map fun k => k.pickNext.1).length = 1) := by
  rw [pickNext_schedCalls hr]
  cases opMove img k op with
  | rotate => exact Or.inr ⟨Or.inl rfl, rfl⟩
  | leave => exact Or.inr ⟨Or.inr rfl, rfl⟩
  | stay => exact Or.inl ⟨nofun, nofun, rfl⟩
  | spawn => exact Or.inl ⟨nofun, nofun, rfl⟩
  | giveBack => exact Or.inl ⟨nofun, nofun, rfl⟩

/-- **One operation uses up the potential**: by the tick it is, at least. -/
theorem potential_exec {i d : Nat} (hr : Refines k a) (hq : Quanta k a) (he : Enabled k op)
    (hready : a.ready ≠ [])
    (hd : ((schedCalls img k op).map fun k => k.pickNext.1).length = d) (hi : d ≤ i) :
    potential (exec img k op) (i - d) + ((if op.isClock then 1 else 0 : Nat) : Int) ≤
      potential k i := by
  have hq' : Quanta (exec img k op) (a.move (opMove img k op)) := quanta_exec hr hq he
  have hQ : (defaultQuantum : Int) = 10 := rfl
  unfold potential
  rcases @dispatched_cases k a img op hr with ⟨hrot, hlv, hnil⟩ | ⟨-, hone⟩
  · rw [hnil] at hd
    obtain rfl : d = 0 := hd.symm
    rw [quantum_exec hr hq hready hrot hlv, Nat.sub_zero]
    omega
  · rw [hone] at hd
    subst hd
    obtain ⟨j, rfl⟩ := Nat.exists_eq_add_of_le hi
    have h1 := hq.pos
    have h2 := hq'.le
    rw [Nat.add_sub_cancel_left, hQ]
    rw [hQ] at h2
    split <;> push_cast <;> omega

/-- **As long as the task has not been dispatched**, the ticks of the run and the potential are
not more than the potential was at the start. -/
theorem potential_path {i : Nat} (hr : Refines k a) (hq : Quanta k a)
    (hp : Transition.Path (Step img) k h k') (hi : i < a.ready.length)
    (hd : (dispatched img h).length ≤ i) :
    ∃ a', Refines k' a' ∧ Quanta k' a' ∧
      potential k' (i - (dispatched img h).length) + clockTicks h ≤ potential k i := by
  refine hp.invariant (P := fun h k' => (dispatched img h).length ≤ i → ∃ a', Refines k' a' ∧
    Quanta k' a' ∧ potential k' (i - (dispatched img h).length) + clockTicks h ≤ potential k i)
    ?_ ?_ hd
  · intro _
    exact ⟨a, hr, hq, by simp [dispatched, clockTicks]⟩
  · rintro h s op t hp ih ⟨he, rfl⟩ hlen
    rw [dispatched_snoc, List.length_append] at hlen
    obtain ⟨b, hb, hqb, hle⟩ := ih (by omega)
    -- the task is still waiting, so the ready queue is not empty
    obtain ⟨b', hb', hpre⟩ := line_path hp hr
    obtain rfl := refines_unique hb hb'
    have hready : b.ready ≠ [] := by
      intro hnil
      have := hpre.length_le
      rw [hnil, List.append_nil] at this
      omega
    have hstep := @potential_exec s b img op (i - (dispatched img h).length) _ hb hqb he hready
      rfl (by omega)
    rw [dispatched_snoc, List.length_append, clockTicks_snoc, Nat.sub_add_eq]
    refine ⟨_, refines_exec hb he, quanta_exec hb hqb he, ?_⟩
    push_cast at hstep ⊢
    omega

/-- **Nobody starves**: in every run from a reachable state, a task with `i` others before it on
the ready queue has been dispatched, as the one after those, when as many ticks have passed as
were left of the running task's quantum and `i` quanta more. -/
theorem bounded_waiting {ps : List Task} (hr : Reachable img k)
    (hps : IsRing k.links .readyqueue (ps.map .task)) (hp : Transition.Path (Step img) k h k')
    {i : Nat} (hi : i < ps.length)
    (hticks : k.remainingQuantum + i * defaultQuantum ≤ clockTicks h) :
    (dispatched img h)[i]? = some ps[i] := by
  obtain ⟨a, ha, hq⟩ := reachable_quanta hr
  obtain rfl : ps = a.ready :=
    List.map_injective_iff.mpr (fun _ _ => Node.task.inj) (hps.unique ha.ready)
  have hlt : i < (dispatched img h).length := by
    by_contra hge
    obtain ⟨a', -, hq', hle⟩ := potential_path ha hq hp hi (not_lt.mp hge)
    have hpos := hq'.pos
    have hQ : (0 : Int) ≤ (i - (dispatched img h).length : Nat) * defaultQuantum :=
      Int.mul_nonneg (Int.natCast_nonneg _) (by decide)
    unfold potential at hle
    omega
  obtain ⟨a', -, hpre⟩ := line_path hp ha
  have hget := List.prefix_iff_getElem?.mp hpre i hi
  rwa [List.getElem?_append_left hlt] at hget

/-- The clock can always tick. -/
theorem exists_ticks (img : Image) (k : Kernel) (n : Nat) :
    ∃ h k', Transition.Path (Step img) k h k' ∧ clockTicks h = n := by
  induction n with
  | zero => exact ⟨[], k, .nil, rfl⟩
  | succ n ih =>
    obtain ⟨h, s, hp, hn⟩ := ih
    have hs : Step img s (.clock sampleSwitch) (exec img s (.clock sampleSwitch)) := ⟨trivial, rfl⟩
    exact ⟨_, _, hp.snoc hs, by rw [clockTicks_snoc, hn]; rfl⟩

/-- The child of the first fork is dispatched after the ticks left to its parent. -/
theorem bounded_waiting_fork :
    let k := exec sampleImage (powerOn.boot sampleImage) (.fork sampleFork)
    ∃ h k', Transition.Path (Step sampleImage) k h k' ∧
      clockTicks h = k.remainingQuantum.toNat ∧ (dispatched sampleImage h)[0]? = some 2 := by
  intro k
  obtain ⟨h, k', hp, hn⟩ := exists_ticks sampleImage k k.remainingQuantum.toNat
  have hring : IsRing k.links .readyqueue ([(2 : Task)].map .task) := refines_fork.ready
  refine ⟨h, k', hp, hn, bounded_waiting reachable_fork hring hp Nat.zero_lt_one ?_⟩
  rw [hn]
  show k.remainingQuantum + 0 ≤ (k.remainingQuantum.toNat : Int)
  rw [Int.add_zero]
  exact Int.self_le_toNat _

end Zeos.Game
