import Mathlib.Data.List.Induction

/-!
# Runs of a labelled transition system

A system is a relation `step s l t` between a state, the label of an operation
and the state after it. `Transition.Path step s₀ h t` is a run from `s₀` to `t`,
with its history `h`: the list of the steps taken, each as the state it was taken
in and its label. The history is what lets a property of a *run* be stated – a
count of past events, a condition on every step – and not only a property of the
states it visits.

`Transition.Path.invariant` is the induction rule every safety statement below
goes through, `Transition.Path.invariant_of_forall` the same rule for runs whose
steps all meet a condition.
-/

namespace Transition

variable {σ ℓ : Type*} {step : σ → ℓ → σ → Prop} {s₀ s t : σ} {l : ℓ}
  {h h₁ h₂ : List (σ × ℓ)}

/-- **A run from `s₀` to `t`**, with the list of its steps, oldest first. -/
inductive Path (step : σ → ℓ → σ → Prop) (s₀ : σ) : List (σ × ℓ) → σ → Prop
  /-- The empty run. -/
  | nil : Path step s₀ [] s₀
  /-- A run extended by one step at its end. -/
  | snoc {h : List (σ × ℓ)} {s t : σ} {l : ℓ} :
      Path step s₀ h s → step s l t → Path step s₀ (h ++ [(s, l)]) t

/-- The states some run leads to. -/
def Reachable (step : σ → ℓ → σ → Prop) (s₀ t : σ) : Prop := ∃ h, Path step s₀ h t

/-- The states a run visits, its last one included. -/
def visited (h : List (σ × ℓ)) (t : σ) : List σ := h.map Prod.fst ++ [t]

theorem Reachable.refl : Reachable step s₀ s₀ := ⟨[], .nil⟩

theorem Reachable.next (hr : Reachable step s₀ s) (hs : step s l t) : Reachable step s₀ t := by
  obtain ⟨h, hp⟩ := hr
  exact ⟨_, hp.snoc hs⟩

/-- The last step of a run. -/
theorem Path.last (hp : Path step s₀ (h ++ [(s, l)]) t) : Path step s₀ h s ∧ step s l t := by
  generalize hh : h ++ [(s, l)] = h' at hp
  cases hp with
  | nil => simp at hh
  | snoc hp hs =>
    obtain ⟨rfl, heq⟩ := List.append_inj' hh rfl
    obtain ⟨rfl, rfl⟩ := Prod.mk.inj (List.singleton_inj.mp heq)
    exact ⟨hp, hs⟩

/-- **The invariant rule**: what holds initially and is preserved by every step
holds in every state reached. -/
theorem Reachable.invariant {P : σ → Prop} (hr : Reachable step s₀ t) (h₀ : P s₀)
    (hstep : ∀ s l t, P s → step s l t → P t) : P t := by
  obtain ⟨h, hp⟩ := hr
  induction hp with
  | nil => exact h₀
  | snoc _ hs ih => exact hstep _ _ _ ih hs

/-- The invariant rule for runs, with the history at hand. -/
theorem Path.invariant {P : List (σ × ℓ) → σ → Prop} (hp : Path step s₀ h t) (h₀ : P [] s₀)
    (hstep : ∀ h s l t, Path step s₀ h s → P h s → step s l t → P (h ++ [(s, l)]) t) :
    P h t := by
  induction hp with
  | nil => exact h₀
  | snoc hp hs ih => exact hstep _ _ _ _ hp ih hs

/-- The invariant rule for runs whose steps all meet a condition. -/
theorem Path.invariant_of_forall {P : List (σ × ℓ) → σ → Prop} {C : σ → ℓ → Prop}
    (hp : Path step s₀ h t) (hC : ∀ x ∈ h, C x.1 x.2) (h₀ : P [] s₀)
    (hstep : ∀ h s l t, Path step s₀ h s → P h s → C s l → step s l t → P (h ++ [(s, l)]) t) :
    P h t := by
  induction hp with
  | nil => exact h₀
  | @snoc h s t l hp hs ih =>
    have hC' : ∀ x ∈ h, C x.1 x.2 := fun x hx => hC x (List.mem_append_left _ hx)
    exact hstep _ _ _ _ hp (ih hC') (hC (s, l) (by simp)) hs

/-- A run visits the state it starts in. -/
theorem Path.head_mem_visited (hp : Path step s₀ h t) : s₀ ∈ visited h t := by
  induction hp with
  | nil => exact List.mem_singleton.mpr rfl
  | snoc _ _ ih =>
    rw [visited, List.map_append]
    exact List.mem_append_left _ ih

/-- A condition that every step of a history meets, given the history before
it. -/
def Along (P : List (σ × ℓ) → σ × ℓ → Prop) (h : List (σ × ℓ)) : Prop :=
  ∀ h₁ x h₂, h = h₁ ++ x :: h₂ → P h₁ x

theorem along_nil {P : List (σ × ℓ) → σ × ℓ → Prop} : Along P [] :=
  fun h₁ x h₂ heq => absurd heq.symm (by simp)

/-- A history with one more step. -/
theorem along_snoc {P : List (σ × ℓ) → σ × ℓ → Prop} {x : σ × ℓ} :
    Along P (h ++ [x]) ↔ Along P h ∧ P h x := by
  constructor
  · intro hal
    refine ⟨fun h₁ y h₂ heq => hal h₁ y (h₂ ++ [x]) (by rw [heq]; simp), hal h x [] rfl⟩
  · rintro ⟨hal, hx⟩ h₁ y h₂ heq
    rcases List.eq_nil_or_concat h₂ with rfl | ⟨h₃, z, rfl⟩
    · obtain ⟨rfl, hxy⟩ := List.append_inj' heq rfl
      obtain rfl := List.singleton_inj.mp hxy
      exact hx
    · rw [List.concat_eq_append, ← List.cons_append, ← List.append_assoc] at heq
      obtain ⟨rfl, -⟩ := List.append_inj' heq rfl
      exact hal h₁ y h₃ rfl

/-- A condition that does not look at the history. -/
theorem along_const {P : σ × ℓ → Prop} : Along (fun _ => P) h ↔ ∀ x ∈ h, P x := by
  constructor
  · intro hal x hx
    obtain ⟨h₁, h₂, heq⟩ := List.append_of_mem hx
    exact hal h₁ x h₂ heq
  · rintro hall h₁ x h₂ rfl
    exact hall x (by simp)

/-- **Exactly the runs whose steps all meet a condition go well all the time**, if a
step that meets it leads from an invariant to an invariant good state, and a step that
does not leads to a bad one. -/
theorem Path.along_iff {Q : List (σ × ℓ) → σ → Prop} {I : σ → Prop} {C : σ × ℓ → Prop}
    (hp : Path step s₀ h t) (h₀ : Q [] s₀ ∧ I s₀)
    (hstep : ∀ h s l t, Path step s₀ h s → I s → step s l t →
      (C (s, l) → Q (h ++ [(s, l)]) t ∧ I t) ∧ (Q (h ++ [(s, l)]) t → C (s, l))) :
    (Along (fun h x => Q h x.1) h ∧ Q h t) ↔ ∀ x ∈ h, C x := by
  have key : ((∀ x ∈ h, C x) → I t) ∧
      ((Along (fun h x => Q h x.1) h ∧ Q h t) ↔ ∀ x ∈ h, C x) := by
    refine hp.invariant (P := fun h t => ((∀ x ∈ h, C x) → I t) ∧
      ((Along (fun h x => Q h x.1) h ∧ Q h t) ↔ ∀ x ∈ h, C x)) ?_ ?_
    · exact ⟨fun _ => h₀.2, iff_of_true ⟨along_nil, h₀.1⟩ (by simp)⟩
    · rintro h s l t hp ⟨hI, hiff⟩ hs
      simp only [along_snoc, List.mem_append, List.mem_singleton, or_imp, forall_and, forall_eq,
        hiff]
      refine ⟨fun hC => ((hstep h s l t hp (hI hC.1) hs).1 hC.2).2, fun hQ => ⟨hQ.1, ?_⟩,
        fun hC => ⟨hC.1, ?_⟩⟩
      · exact (hstep h s l t hp (hI hQ.1) hs).2 hQ.2
      · exact ((hstep h s l t hp (hI hC.1) hs).1 hC.2).1
  exact key.2

/-- The same rule for what a state is good for by itself. -/
theorem Path.forall_visited_iff {Q I : σ → Prop} {C : σ × ℓ → Prop} (hp : Path step s₀ h t)
    (h₀ : Q s₀ ∧ I s₀)
    (hstep : ∀ s l t, I s → step s l t → (C (s, l) → Q t ∧ I t) ∧ (Q t → C (s, l))) :
    (∀ s ∈ visited h t, Q s) ↔ ∀ x ∈ h, C x := by
  rw [← hp.along_iff (Q := fun _ => Q) h₀ fun _ s l t _ => hstep s l t, along_const]
  simp [visited, or_imp, forall_and]

end Transition
