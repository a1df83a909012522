import Mathlib.Data.List.Perm.Basic
import Mathlib.Data.List.Nodup
import Mathlib.Data.List.Count

/-!
# Round robin over a pool of slots

What a scheduler with a fixed number of process slots is for, without a word about
how its queues are stored: a slot is free, ready, running, or the idle slot
waiting for its turn. The scheduler moves slots between these places –
`RoundRobin.Move` lists the ways – and never loses one or has one twice
(`RoundRobin.Wf`, kept by every move: `RoundRobin.Wf.move`).

The idle slot is special in one way only: it runs when nothing is ready, and
nobody but a running slot other than the idle one makes a move.

The ready slots are served in their order. `RoundRobin.Sched.dispatched` is the slot
that a move gives the processor to, and the slots dispatched so far followed by those
still waiting only ever grow at the end (`RoundRobin.prefix_move`).
-/

namespace RoundRobin

variable {τ : Type*}

/-- The places of the slots. -/
structure Sched (τ : Type*) where
  /-- The slots in no use, the next one to be used first. -/
  free : List τ
  /-- The slots ready to run, the next one to run first. -/
  ready : List τ
  /-- The running slot. -/
  running : τ
  /-- The idle slot. -/
  idle : τ

namespace Sched

variable (s : Sched τ)

/-- Run the first ready slot, or the idle one. -/
def next : Sched τ :=
  match s.ready with
  | [] => { s with running := s.idle }
  | t :: ts => { s with ready := ts, running := t }

/-- The running slot goes to the end of the ready queue. -/
def rotate : Sched τ := next { s with ready := s.ready ++ [s.running] }

/-- A free slot becomes ready. -/
def spawn : Sched τ :=
  match s.free with
  | [] => s
  | t :: ts => { s with free := ts, ready := s.ready ++ [t] }

/-- A free slot is taken and given back. -/
def giveBack : Sched τ :=
  match s.free with
  | [] => s
  | t :: ts => { s with free := ts ++ [t] }

/-- The running slot becomes free. -/
def leave : Sched τ := next { s with free := s.free ++ [s.running] }

end Sched

/-- The moves of the scheduler. -/
inductive Move
  /-- Nothing moves. -/
  | stay
  /-- The running slot waits for its next turn. -/
  | rotate
  /-- A slot comes into use. -/
  | spawn
  /-- A slot is taken and given back. -/
  | giveBack
  /-- The running slot is given up. -/
  | leave

/-- The effect of a move. -/
def Sched.move (s : Sched τ) : Move → Sched τ
  | .stay => s
  | .rotate => s.rotate
  | .spawn => s.spawn
  | .giveBack => s.giveBack
  | .leave => s.leave

/-- Dispatching changes neither the free slots nor the idle one. -/
theorem next_free {s : Sched τ} : s.next.free = s.free := by
  unfold Sched.next
  split <;> rfl

theorem next_idle {s : Sched τ} : s.next.idle = s.idle := by
  unfold Sched.next
  split <;> rfl

section Places

variable [DecidableEq τ] {s : Sched τ}

/-- Where the slots are: free, ready, running, or idle and waiting. -/
def Sched.places (s : Sched τ) : List τ :=
  s.free ++ s.ready ++ (if s.running = s.idle then [s.running] else [s.running, s.idle])

/-- The kinds of places a slot can be in. -/
inductive Place
  /-- In no use. -/
  | free
  /-- Ready to run. -/
  | ready
  /-- Running. -/
  | running
  /-- The idle slot, while another one runs. -/
  | idle
deriving DecidableEq

/-- The slot is in a place of the given kind. -/
def Sched.At (s : Sched τ) (t : τ) : Place → Prop
  | .free => t ∈ s.free
  | .ready => t ∈ s.ready
  | .running => t = s.running
  | .idle => t = s.idle ∧ s.running ≠ s.idle

/-- **Every slot is in exactly one place**, and the idle slot runs only when no
other slot is ready. -/
structure Wf (s : Sched τ) : Prop where
  /-- No slot is in two places. -/
  nodup : s.places.Nodup
  /-- No slot is lost. -/
  complete : ∀ t, t ∈ s.places
  /-- The idle slot runs when nothing is ready. -/
  idle_alone : s.running = s.idle → s.ready = []

/-- A rearrangement of the places is well-formed if the idle slot behaves. -/
theorem Wf.of_perm {s' : Sched τ} (hw : Wf s) (hp : s'.places.Perm s.places)
    (hi : s'.running = s'.idle → s'.ready = []) : Wf s' :=
  ⟨hp.nodup_iff.mpr hw.nodup, fun t => hp.mem_iff.mpr (hw.complete t), hi⟩

/-- The places of a scheduler whose running slot is not the idle one. -/
theorem places_of_ne (h : s.running ≠ s.idle) :
    s.places = s.free ++ s.ready ++ [s.running, s.idle] := by
  rw [Sched.places, if_neg h]

theorem idle_notMem_free (hw : Wf s) : s.idle ∉ s.free := by
  have h := hw.nodup
  by_cases hri : s.running = s.idle
  · rw [Sched.places, if_pos hri, hri] at h
    intro hm
    rw [List.append_assoc, List.nodup_append] at h
    exact h.2.2 _ hm _ (by simp) rfl
  · rw [places_of_ne hri] at h
    intro hm
    rw [List.append_assoc, List.nodup_append] at h
    exact h.2.2 _ hm _ (by simp) rfl

theorem idle_notMem_ready (hw : Wf s) : s.idle ∉ s.ready := by
  have h := hw.nodup
  by_cases hri : s.running = s.idle
  · rw [hw.idle_alone hri]
    simp
  · rw [places_of_ne hri] at h
    intro hm
    rw [List.nodup_append] at h
    exact h.2.2 _ (List.mem_append_right _ hm) _ (by simp) rfl

theorem running_notMem (hw : Wf s) : s.running ∉ s.free ∧ s.running ∉ s.ready := by
  have h := hw.nodup
  have hmem : s.running ∈ (if s.running = s.idle then [s.running] else [s.running, s.idle]) := by
    split <;> simp
  rw [Sched.places, List.nodup_append] at h
  exact ⟨fun hm => h.2.2 _ (List.mem_append_left _ hm) _ hmem rfl,
    fun hm => h.2.2 _ (List.mem_append_right _ hm) _ hmem rfl⟩

theorem disjoint_free_ready (hw : Wf s) {t : τ} (hf : t ∈ s.free) : t ∉ s.ready := by
  have h := hw.nodup
  rw [Sched.places, List.append_assoc, List.nodup_append] at h
  exact fun hr => h.2.2 _ hf _ (List.mem_append_left _ hr) rfl

theorem nodup_free (hw : Wf s) : s.free.Nodup := by
  have h := hw.nodup
  rw [Sched.places, List.append_assoc, List.nodup_append] at h
  exact h.1

/-- **Every slot is in a place of exactly one kind.** -/
theorem Wf.existsUnique_at (hw : Wf s) (t : τ) : ∃! p, s.At t p := by
  have hfree := idle_notMem_free hw
  have hready := idle_notMem_ready hw
  obtain ⟨hrf, hrr⟩ := running_notMem hw
  have hcases : t ∈ s.free ∨ t ∈ s.ready ∨ t = s.running ∨ (t = s.idle ∧ s.running ≠ s.idle) := by
    have hm := hw.complete t
    by_cases hri : s.running = s.idle
    · simpa [Sched.places, hri, or_assoc] using hm
    · simpa [places_of_ne hri, hri, or_assoc] using hm
  rcases hcases with ht | ht | rfl | ⟨rfl, hri⟩
  · refine ⟨.free, ht, fun p hp => ?_⟩
    cases p with
    | free => rfl
    | ready => exact absurd hp (disjoint_free_ready hw ht)
    | running => exact absurd (hp ▸ ht) hrf
    | idle => exact absurd (hp.1 ▸ ht) hfree
  · refine ⟨.ready, ht, fun p hp => ?_⟩
    cases p with
    | free => exact absurd ht (disjoint_free_ready hw hp)
    | ready => rfl
    | running => exact absurd (hp ▸ ht) hrr
    | idle => exact absurd (hp.1 ▸ ht) hready
  · refine ⟨.running, rfl, fun p hp => ?_⟩
    cases p with
    | free => exact absurd hp hrf
    | ready => exact absurd hp hrr
    | running => rfl
    | idle => exact absurd hp.1 hp.2
  · refine ⟨.idle, ⟨rfl, hri⟩, fun p hp => ?_⟩
    cases p with
    | free => exact absurd hp hfree
    | ready => exact absurd hp hready
    | running => exact absurd hp.symm hri
    | idle => rfl

/-- Dispatching, from a scheduler whose running slot has just been put at the end
of one of the queues. -/
theorem Wf.next (hw : Wf s) (free ready : List τ) (hne : s.running ≠ s.idle)
    (hp : (free ++ ready).Perm (s.free ++ s.ready ++ [s.running])) (hi : s.idle ∉ ready) :
    Wf (Sched.next { s with free := free, ready := ready }) := by
  have hpl : s.places.Perm (free ++ ready ++ [s.idle]) := by
    rw [places_of_ne hne]
    have := hp.symm.append_right [s.idle]
    simpa using this
  cases ready with
  | nil =>
    refine hw.of_perm ?_ fun _ => rfl
    simpa [Sched.next, Sched.places] using hpl.symm
  | cons t ts =>
    have hti : t ≠ s.idle := fun he => hi (by simp [he])
    refine hw.of_perm (List.Perm.trans ?_ hpl.symm) fun he => absurd he hti
    have hpl' : (Sched.next { s with free := free, ready := t :: ts }).places =
        free ++ ts ++ [t, s.idle] := places_of_ne hti
    rw [hpl', List.perm_iff_count]
    intro a
    simp only [List.count_append, List.count_cons, List.count_nil]
    omega

/-- **Every move keeps every slot in exactly one place.** -/
theorem Wf.move (hw : Wf s) (m : Move) (hne : m = .stay ∨ s.running ≠ s.idle) :
    Wf (s.move m) := by
  rcases hne with rfl | hne
  · exact hw
  have hidle := idle_notMem_ready hw
  cases m with
  | stay => exact hw
  | rotate =>
    refine hw.next s.free (s.ready ++ [s.running]) hne (by rw [List.append_assoc]) ?_
    simp only [List.mem_append, List.mem_singleton, not_or]
    exact ⟨hidle, hne.symm⟩
  | leave =>
    refine hw.next (s.free ++ [s.running]) s.ready hne ?_ hidle
    rw [List.perm_iff_count]
    intro a
    simp only [List.count_append]
    omega
  | spawn =>
    simp only [Sched.move, Sched.spawn]
    cases hf : s.free with
    | nil => exact hw
    | cons t ts =>
      refine hw.of_perm ?_ fun he => absurd he hne
      rw [List.perm_iff_count]
      intro a
      simp only [Sched.places, if_neg hne, hf, List.count_append, List.count_cons,
        List.count_nil]
      omega
  | giveBack =>
    simp only [Sched.move, Sched.giveBack]
    cases hf : s.free with
    | nil => exact hw
    | cons t ts =>
      refine hw.of_perm ?_ fun he => absurd he hne
      rw [List.perm_iff_count]
      intro a
      simp only [Sched.places, if_neg hne, hf, List.count_append, List.count_cons,
        List.count_nil]
      omega

/-- When the idle slot runs, all the others are free. -/
theorem Wf.free_of_idle (hw : Wf s) (hri : s.running = s.idle) :
    (s.idle :: s.free).Nodup ∧ ∀ t, t ∈ s.idle :: s.free := by
  have hpl : s.places.Perm (s.idle :: s.free) := by
    rw [Sched.places, if_pos hri, hw.idle_alone hri, hri, List.append_nil]
    exact List.perm_append_comm
  exact ⟨hpl.nodup_iff.mp hw.nodup, fun t => hpl.mem_iff.mp (hw.complete t)⟩

/-! ### Whose turn it is -/

/-- The slot that a move gives the processor to. -/
def Sched.dispatched (s : Sched τ) : Move → Option τ
  | .rotate => some s.rotate.running
  | .leave => some s.leave.running
  | _ => none

omit [DecidableEq τ] in
/-- Dispatching takes the first ready slot. -/
theorem prefix_next (s : Sched τ) : s.ready <+: s.next.running :: s.next.ready := by
  cases hr : s.ready with
  | nil => exact List.nil_prefix
  | cons t ts => simp [Sched.next, hr]

omit [DecidableEq τ] in
/-- **First come, first served**: what was in front of the line, of those served and
those waiting, stays there. -/
theorem prefix_move {l served : List τ} (h : l <+: served ++ s.ready) (m : Move) :
    l <+: served ++ (s.dispatched m).toList ++ (s.move m).ready := by
  cases m with
  | stay => simpa [Sched.dispatched, Sched.move] using h
  | rotate =>
    have hn : s.ready <+: s.rotate.running :: s.rotate.ready :=
      (List.prefix_append s.ready [s.running]).trans
        (prefix_next { s with ready := s.ready ++ [s.running] })
    simpa [Sched.dispatched, Sched.move] using h.trans ((List.prefix_append_right_inj _).mpr hn)
  | spawn =>
    have hn : s.ready <+: s.spawn.ready := by
      cases hf : s.free with
      | nil => simp [Sched.spawn, hf]
      | cons t ts => simp [Sched.spawn, hf]
    simpa [Sched.dispatched, Sched.move] using h.trans ((List.prefix_append_right_inj _).mpr hn)
  | giveBack =>
    have hn : s.ready = s.giveBack.ready := by
      cases hf : s.free <;> simp [Sched.giveBack, hf]
    simpa [Sched.dispatched, Sched.move, ← hn] using h
  | leave =>
    have hn : s.ready <+: s.leave.running :: s.leave.ready :=
      prefix_next { s with free := s.free ++ [s.running] }
    simpa [Sched.dispatched, Sched.move] using h.trans ((List.prefix_append_right_inj _).mpr hn)

/-! ### Who waits for the processor -/

/-- The slot will run again without anybody doing anything about it: it is ready,
or it is the idle slot while another one runs. -/
def Sched.Waiting (s : Sched τ) (t : τ) : Prop :=
  t ∈ s.ready ∨ (t = s.idle ∧ s.running ≠ s.idle)

variable {t x : τ} {ts : List τ}

theorem Wf.ne_running (hw : Wf s) (ht : s.Waiting t) : t ≠ s.running := by
  rcases ht with ht | ⟨rfl, hne⟩
  · rintro rfl
    exact (running_notMem hw).2 ht
  · exact hne.symm

omit [DecidableEq τ] in
/-- After a rotation a slot waits because it did so before, or because it was the
running one. -/
theorem waiting_rotate (hne : s.running ≠ s.idle) (ht : s.rotate.Waiting t) :
    t = s.running ∨ s.Waiting t := by
  cases hr : s.ready with
  | nil =>
    simp only [Sched.Waiting, Sched.rotate, Sched.next, hr, List.nil_append] at ht
    simp only [List.not_mem_nil, false_or] at ht
    exact Or.inr (Or.inr ht)
  | cons x xs =>
    simp only [Sched.Waiting, Sched.rotate, Sched.next, hr, List.cons_append, List.mem_append,
      List.mem_singleton] at ht
    rcases ht with (ht | ht) | ⟨ht, -⟩
    · exact Or.inr (Or.inl (by simp [hr, ht]))
    · exact Or.inl ht
    · exact Or.inr (Or.inr ⟨ht, hne⟩)

omit [DecidableEq τ] in
/-- A rotation runs a waiting slot, or the same one if nobody is ready. -/
theorem rotate_running : (s.ready = [] ∧ s.rotate.running = s.running) ∨
    (s.ready ≠ [] ∧ s.Waiting s.rotate.running) := by
  cases hr : s.ready with
  | nil => exact Or.inl ⟨rfl, by simp [Sched.rotate, Sched.next, hr]⟩
  | cons x xs =>
    refine Or.inr ⟨by simp, Or.inl ?_⟩
    simp [Sched.rotate, Sched.next, hr]

omit [DecidableEq τ] in
/-- When the running slot leaves, a slot that waits did so before. -/
theorem waiting_leave (hne : s.running ≠ s.idle) (ht : s.leave.Waiting t) : s.Waiting t := by
  cases hr : s.ready with
  | nil =>
    simp only [Sched.Waiting, Sched.leave, Sched.next, hr] at ht
    simp at ht
  | cons x xs =>
    simp only [Sched.Waiting, Sched.leave, Sched.next, hr] at ht
    rcases ht with ht | ⟨ht, -⟩
    · exact Or.inl (by simp [hr, ht])
    · exact Or.inr ⟨ht, hne⟩

omit [DecidableEq τ] in
/-- When the running slot leaves, a waiting one runs. -/
theorem leave_running (hne : s.running ≠ s.idle) : s.Waiting s.leave.running := by
  cases hr : s.ready with
  | nil =>
    refine Or.inr ⟨?_, hne⟩
    simp [Sched.leave, Sched.next, hr]
  | cons x xs =>
    refine Or.inl ?_
    simp [Sched.leave, Sched.next, hr]

omit [DecidableEq τ] in
/-- A slot that comes into use waits. -/
theorem waiting_spawn (hf : s.free = x :: ts) (ht : s.spawn.Waiting t) :
    t = x ∨ s.Waiting t := by
  simp only [Sched.Waiting, Sched.spawn, hf, List.mem_append, List.mem_singleton] at ht
  rcases ht with (ht | ht) | ht
  · exact Or.inr (Or.inl ht)
  · exact Or.inl ht
  · exact Or.inr (Or.inr ht)

/-! ### Who keeps the processor -/

omit [DecidableEq τ] in
/-- A slot that comes into use leaves the others where they are. -/
theorem notMem_of_spawn (hf : s.free = x :: ts) (hx : t ≠ x) (ht : t ∉ s.spawn.free) :
    t ∉ s.free := by
  simp only [Sched.spawn, hf] at ht
  simp [hf, hx, ht]

omit [DecidableEq τ] in
/-- A slot that is given back is free as it was before. -/
theorem notMem_of_giveBack (hf : s.free = x :: ts) (ht : t ∉ s.giveBack.free) : t ∉ s.free := by
  simp only [Sched.giveBack, hf, List.mem_append, List.mem_singleton, not_or] at ht
  simp [hf, ht]

omit [DecidableEq τ] in
/-- The slot that runs next is one of the ready ones, if there are any. -/
theorem next_running_mem (hr : s.ready ≠ []) : s.next.running ∈ s.ready := by
  cases h : s.ready with
  | nil => exact absurd h hr
  | cons x xs => simp [Sched.next, h]

/-- **A slot keeps the processor over a move only if it does not hand it over**, when
others are waiting; and then they wait on. -/
theorem Wf.keeps_running (hw : Wf s) (hr : s.ready ≠ []) (m : Move)
    (hm : (s.move m).running = s.running) :
    m ≠ .rotate ∧ m ≠ .leave ∧ (s.move m).ready ≠ [] := by
  have hrun := (running_notMem hw).2
  cases m with
  | stay => exact ⟨nofun, nofun, hr⟩
  | rotate =>
    obtain ⟨x, xs, hx⟩ := List.exists_cons_of_ne_nil hr
    have hne : x ≠ s.running := fun he => hrun (by simp [hx, he])
    have hnext : (s.move .rotate).running = x := by
      simp [Sched.move, Sched.rotate, Sched.next, hx]
    exact absurd (hnext.symm.trans hm) hne
  | spawn =>
    refine ⟨nofun, nofun, ?_⟩
    cases hf : s.free <;> simp [Sched.move, Sched.spawn, hf, hr]
  | giveBack =>
    refine ⟨nofun, nofun, ?_⟩
    cases hf : s.free <;> simp [Sched.move, Sched.giveBack, hf, hr]
  | leave =>
    have hmem : (s.move .leave).running ∈ s.ready :=
      next_running_mem (s := { s with free := s.free ++ [s.running] }) hr
    exact absurd (hm ▸ hmem) hrun

end Places

end RoundRobin
