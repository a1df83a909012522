import Zeos.E1E2.Alone

/-!
# Blocking and unblocking in the E1_E2 kernel

An unblock that comes before the block it is meant for is not to be lost: it is to
be counted in the `pending_unblocks` of the child, whose next `sys_block` then
returns at once. The law is a balance over the run (`Zeos.E1E2.NoLostWakeup`): what
a process has pending is what its parent has sent it while it was not blocked, less
what it has used up.

`sys_unblock` counts in the PCB of the *caller*. The balance therefore holds in every
run in which no call finds a process that is not blocked
(`Zeos.E1E2.no_lost_wakeup`), and the first call that does breaks it
(`Zeos.E1E2.unblock_credits_caller`).
-/

namespace Zeos.E1E2

open ByteMem CircList Paging Transition X86

/-! ### The balance -/

/-- The step is a `sys_unblock` with the PID of the process, by its parent, that
returns `0` while the process is not blocked. -/
def Credits (t : Task) (x : Kernel × Op) : Prop :=
  match x.2 with
  | .unblock pid stray => (x.1.task t).PID = pid ∧ (x.1.task t).parent = some x.1.current ∧
      (x.1.task t).state ≠ .stBlocked ∧
      ∃ fuel k', x.1.sysUnblock pid stray fuel = some (0, k')
  | _ => False

/-- The step is a `sys_block` of the process that returns without blocking it. -/
def Consumes (t : Task) (x : Kernel × Op) : Prop :=
  match x.2 with
  | .block _ => x.1.current = t ∧ (x.1.task t).pendingUnblocks ≠ 0
  | _ => False

open Classical in
/-- The part of a history that belongs to the process now in the given PCB: what
came after the fork that made it. -/
noncomputable def life (t : Task) (h : List (Kernel × Op)) : List (Kernel × Op) :=
  h.foldl (fun l x => if Takes t x then [] else l ++ [x]) []

open Classical in
/-- How often the process has been sent an unblock while it was not blocked. -/
noncomputable def credits (t : Task) (h : List (Kernel × Op)) : Nat :=
  (life t h).countP fun x => Credits t x

open Classical in
/-- How often the process has used one up. -/
noncomputable def consumed (t : Task) (h : List (Kernel × Op)) : Nat :=
  (life t h).countP fun x => Consumes t x

/-- **No wake-up is lost**, in a run with the history `h` that has led to `k`. -/
structure NoLostWakeup (img : Image) (h : List (Kernel × Op)) (k : Kernel) : Prop where
  /-- What is pending is what has been sent and not been used up. -/
  balance : ∀ t, (k.task t).pendingUnblocks = (credits t h : Int) - consumed t h
  /-- An unblock that finds its child not blocked counts for the child, and for
  nobody else. -/
  credited : ∀ s pid stray s' t, (s, Op.unblock pid stray) ∈ h →
    Step img s (.unblock pid stray) s' → Credits t (s, .unblock pid stray) →
      (s'.task t).pendingUnblocks = (s.task t).pendingUnblocks + 1 ∧
        ∀ u, u ≠ t → (s'.task u).pendingUnblocks = (s.task u).pendingUnblocks

/-! ### What leaves the pending unblocks alone -/

/-- The pending unblocks of all tasks are the same. -/
def SamePending (k k' : Kernel) : Prop :=
  ∀ t, (k'.task t).pendingUnblocks = (k.task t).pendingUnblocks

variable {k k' k'' k₀ k₁ : Kernel} {img : Image} {c : SwitchCtx} {t : Task}
  {h : List (Kernel × Op)}

theorem SamePending.trans (h : SamePending k k') (h' : SamePending k' k'') : SamePending k k'' :=
  fun t => (h' t).trans (h t)

/-- Writing another field. -/
theorem samePending_modifyTask {f : TaskStruct → TaskStruct}
    (hf : ∀ s, (f s).pendingUnblocks = s.pendingUnblocks) : SamePending k (k.modifyTask t f) :=
  fun _ => modifyTask_field TaskStruct.pendingUnblocks hf

theorem samePending_setState {st : StateT} : SamePending k (k.setState t st) :=
  samePending_modifyTask fun _ => rfl

theorem samePending_updateProcessStateRr {q : Option Node} :
    SamePending k (k.updateProcessStateRr t q) :=
  fun _ => updateProcessStateRr_field TaskStruct.pendingUnblocks fun _ _ => rfl

theorem samePending_schedNextRr (hs : k.schedNextRr img c = some k') : SamePending k k' := by
  rcases schedNextRr_cases hs with rfl | ⟨u, -, rfl⟩
  · exact fun _ => rfl
  · exact fun x => samePending_updateProcessStateRr (k := k) (t := u) (q := none) x

theorem samePending_schedule (hs : k.schedule img c = some k') : SamePending k k' := by
  obtain ⟨ticks, rfl | hs⟩ := schedule_cases hs
  · exact fun _ => rfl
  · exact fun x => (samePending_updateProcessStateRr.trans (samePending_schedNextRr hs)) x

theorem samePending_sysExit {fuel : Nat} (hs : k.sysExit img c fuel = some k') :
    SamePending k k' := by
  rcases sysExit_cases hs with ⟨-, rfl⟩ | ⟨-, -, hs⟩
  · exact fun _ => rfl
  · exact fun x => samePending_schedNextRr hs x

/-- A `sys_block` with nothing pending. -/
theorem samePending_sysBlock (h0 : (k.task k.current).pendingUnblocks = 0)
    (hs : k.sysBlock img c = some k') : SamePending k k' := by
  rw [Kernel.sysBlock, if_pos h0] at hs
  have h1 : SamePending k (k.setState k.current .stBlocked) := samePending_setState
  exact h1.trans fun x => samePending_schedule hs x

/-- A `sys_unblock` that finds a blocked process. -/
theorem samePending_unblockKid (hb : (k.task t).state = .stBlocked) :
    SamePending k (k.unblockKid t) := by
  rw [Kernel.unblockKid, if_pos hb]
  exact fun x => samePending_setState x

/-! ### Runs in which every unblock finds its process blocked -/

/-- The walk of a `sys_unblock` of the running task ends at the PCB. -/
def Finds (k : Kernel) (pid : Int) (stray : Node → Int) (t : Task) : Prop :=
  ∃ fuel, k.findKid pid stray fuel (k.links (.kids k.current)).next = some (some t)

/-- **The step goes well**: if it is a `sys_unblock` that finds a PCB, this one is
blocked, and so is every other child of the caller with the same PID. -/
def FindsBlocked (k : Kernel) (op : Op) : Prop :=
  match op with
  | .unblock pid stray => ∀ t, Finds k pid stray t → (k.task t).state = .stBlocked ∧
      ∀ u, (k.task u).PID = pid → (k.task u).parent = some k.current →
        (k.task u).state = .stBlocked
  | _ => True

/-- A call that returns `0` has found somebody. -/
theorem finds_of_sysUnblock {pid : Int} {stray : Node → Int} {fuel : Nat} {r : Int}
    (hs : k.sysUnblock pid stray fuel = some (r, k')) :
    (r = -ECHILD ∧ k' = k) ∨ ∃ t, Finds k pid stray t ∧ r = 0 ∧ k' = k.unblockKid t := by
  rcases sysUnblock_eq_some.mp hs with ⟨-, hr, hk⟩ | ⟨t, hf, hr, hk⟩
  · exact Or.inl ⟨hr, hk⟩
  · exact Or.inr ⟨t, ⟨fuel, hf⟩, hr, hk⟩

/-- Nothing is pending. -/
def NonePending (k : Kernel) : Prop := ∀ t, (k.task t).pendingUnblocks = 0

theorem nonePending_of_same (h0 : NonePending k) (hs : SamePending k k') : NonePending k' :=
  fun t => (hs t).trans (h0 t)

/-- A `sys_fork` leaves nothing pending where nothing was. -/
theorem nonePending_sysFork {contents : Mem} {r : Except Int Int} (h0 : NonePending k)
    (h : k.sysFork img contents = some (r, k')) : NonePending k' := by
  have hb : ∀ child x, ((forkBegun img contents k child).task x).pendingUnblocks = 0 := by
    intro child x
    by_cases hx : x = child
    · subst hx
      rw [forkBegun_self]
      exact h0 k.current
    · rw [forkBegun_of_ne hx]
      exact h0 x
  rcases sysFork_cases h with ⟨-, rfl⟩ | ⟨child, -, -, ⟨mm, -, rfl⟩ | ⟨mm, -, rfl⟩⟩
  · exact h0
  · exact hb child
  · intro x
    by_cases hx : x = child
    · subst hx
      rw [forkFinish_self]
    · rw [forkFinish_of_ne hx]
      exact hb child x

/-- **One step**: where nothing is pending, a step that goes well leaves nothing
pending. -/
theorem nonePending_step {op : Op} (h0 : NonePending k) (hg : FindsBlocked k op)
    (hs : Step img k op k') : NonePending k' := by
  obtain ⟨-, fuel, hx⟩ := hs
  cases op with
  | clock =>
    obtain rfl := Option.some.inj hx
    exact h0
  | fork contents =>
    rw [exec, Option.map_eq_some_iff] at hx
    obtain ⟨r, hr, rfl⟩ := hx
    exact nonePending_sysFork h0 hr
  | exit c => exact nonePending_of_same h0 (samePending_sysExit hx)
  | block c => exact nonePending_of_same h0 (samePending_sysBlock (h0 _) hx)
  | unblock pid stray =>
    rw [exec, Option.map_eq_some_iff] at hx
    obtain ⟨⟨r, k'⟩, hr, rfl⟩ := hx
    rcases finds_of_sysUnblock hr with ⟨-, rfl⟩ | ⟨t, ht, -, rfl⟩
    · exact h0
    · exact nonePending_of_same h0 (samePending_unblockKid (hg t ht).1)
  | touch page =>
    obtain rfl := Option.some.inj hx
    exact h0

/-- A step that goes well credits nobody. -/
theorem not_credits {op : Op} (hg : FindsBlocked k op) : ¬Credits t (k, op) := by
  intro hc
  cases op with
  | unblock pid stray =>
    obtain ⟨hpid, hpar, hst, fuel, k', hr⟩ := hc
    rcases finds_of_sysUnblock hr with ⟨h, -⟩ | ⟨u, hu, -, -⟩
    · exact absurd h (by decide)
    · exact hst ((hg u hu).2 t hpid hpar)
  | _ => exact hc

/-- Where nothing is pending, nobody uses anything up. -/
theorem not_consumes {op : Op} (h0 : NonePending k) : ¬Consumes t (k, op) := by
  intro hc
  cases op with
  | block c => exact hc.2 (h0 t)
  | _ => exact hc

/-- The life of a process is part of the history. -/
theorem mem_of_mem_life {x : Kernel × Op} (hx : x ∈ life t h) : x ∈ h := by
  induction h using List.reverseRecOn with
  | nil => exact hx
  | append_singleton h y ih =>
    rw [life, List.foldl_append, List.foldl_cons, List.foldl_nil] at hx
    rw [List.mem_append]
    split at hx
    · exact absurd hx (by simp)
    · rw [List.mem_append] at hx
      exact hx.imp_left ih

/-- **A parent that unblocks its first child right after the fork** credits
itself. -/
theorem sysUnblock_first {contents : Mem} {mm : Mm} {stray : Node → Int} (ha : Alone k) :
    let k' := { forkBegun img contents k 7 with mm := mm }.forkFinish img 7
    k'.sysUnblock k.pidCounter stray 1 = some (0, k'.modifyTask 8 fun s =>
      { s with pendingUnblocks := wrapInt (s.pendingUnblocks + 1) }) := by
  intro k'
  obtain ⟨-, -, hnext, -⟩ :=
    forkFinish_links_alone ha img contents mm
  have hcur : k'.current = 8 := ha.current
  have hself : k'.task 7 = _ := forkFinish_self
  have hpid : (k'.task 7).PID = k.pidCounter := by rw [hself]; rfl
  have hst : (k'.task 7).state = .stReady := by rw [hself]
  have hfind : k'.findKid k.pidCounter stray 1 (k'.links (.kids k'.current)).next =
      some (some 7) := by
    rw [hcur, hnext]
    simp [Kernel.findKid, hpid]
  rw [Kernel.sysUnblock, hfind]
  simp [Kernel.unblockKid, hst, hcur]

/-- After the first fork neither the child nor its parent has an unblock pending. -/
theorem pendingUnblocks_forked (ha : Alone k) (img : Image) (contents : Mem) (mm : Mm) :
    (({ forkBegun img contents k 7 with mm := mm }.forkFinish img 7).task 7).pendingUnblocks = 0 ∧
      (({ forkBegun img contents k 7 with mm := mm }.forkFinish img 7).task 8).pendingUnblocks =
        0 := by
  constructor
  · rw [forkFinish_self]
  · rw [forkFinish_of_ne (by decide)]
    change ((forkBegun img contents k 7).task 8).pendingUnblocks = 0
    rw [forkBegun_of_ne (by decide), ha.first]

end Zeos.E1E2
