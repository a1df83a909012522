import Mathlib.Data.Finset.Card
import Mathlib.Order.Bounds.Basic
import Mathlib.Data.Finset.Option

/-!
# Pools of slots

An allocator that keeps no record of what it has handed out: a slot is taken from the
state, the least free one, and given back to it, and it is up to the callers to give
back only what they have. `Pool.Step` puts that record beside the state, as the set of
the slots that are held.

An allocator conserves its slots as long as every slot is either free or held
(`Pool.Kept`). Taking keeps that (`Pool.Kept.take`), giving back keeps it if the slot is
free afterwards (`Pool.Kept.give`); a slot that is given back and not free afterwards
is lost for good (`Pool.Kept.lost`).
-/

namespace Pool

variable {σ φ : Type*} [LinearOrder φ]

/-- **An allocator**: how a slot is taken from a state, and how one is given back. -/
structure Allocator (σ φ : Type*) [LinearOrder φ] where
  /-- Take a slot, if there is one. -/
  take : σ → Option φ × σ
  /-- Give a slot back. -/
  give : φ → σ → σ
  /-- The slots that can be taken. -/
  free : σ → Finset φ
  /-- The least free slot is taken. -/
  take_spec : ∀ s, (free s = ∅ ∧ take s = (none, s)) ∨
    ∃ f, IsLeast (free s : Set φ) f ∧ (take s).1 = some f ∧ free (take s).2 = (free s).erase f

/-- The first element of an increasing list is the least one, and the others are left
without it. -/
theorem isLeast_head {f : φ} {fs : List φ} (h : (f :: fs).Pairwise (· < ·)) :
    IsLeast ((f :: fs).toFinset : Set φ) f ∧ (f :: fs).toFinset.erase f = fs.toFinset := by
  have hlt := (List.pairwise_cons.mp h).1
  refine ⟨⟨by simp, fun g hg => ?_⟩, ?_⟩
  · rw [Finset.mem_coe, List.mem_toFinset, List.mem_cons] at hg
    rcases hg with rfl | hg
    · exact le_refl g
    · exact (hlt g hg).le
  · rw [List.toFinset_cons, Finset.erase_insert]
    rw [List.mem_toFinset]
    exact fun hm => (hlt f hm).false

/-- A call of the allocator. -/
inductive Call (φ : Type*)
  /-- A slot is taken. -/
  | take
  /-- A slot is given back. -/
  | give (f : φ)

/-- **One call**, with the slots held before and after it; only a slot that is held is
given back. -/
def Step (A : Allocator σ φ) (x : σ × Finset φ) : Call φ → σ × Finset φ → Prop
  | .take, y => y = ((A.take x.1).2, x.2 ∪ (A.take x.1).1.toFinset)
  | .give f, y => f ∈ x.2 ∧ y = (A.give f x.1, x.2.erase f)

/-- **Every slot is either free or held.** -/
structure Kept (A : Allocator σ φ) (slots : Finset φ) (s : σ) (held : Finset φ) : Prop where
  /-- Only slots are held. -/
  subset : held ⊆ slots
  /-- The others are free. -/
  free : A.free s = slots \ held

variable {A : Allocator σ φ} {slots held : Finset φ} {s : σ} {f : φ}

/-- The free and the held slots are all there are. -/
theorem Kept.card (h : Kept A slots s held) : (A.free s).card + held.card = slots.card := by
  rw [h.free]
  exact Finset.card_sdiff_add_card_eq_card h.subset

/-- **Taking fails only when all slots are held.** -/
theorem Kept.take_eq_none (h : Kept A slots s held) : (A.take s).1 = none ↔ slots ⊆ held := by
  rw [← Finset.sdiff_eq_empty_iff_subset, ← h.free]
  rcases A.take_spec s with ⟨hempty, heq⟩ | ⟨f, hleast, heq, -⟩
  · simp [hempty, heq]
  · have hne : A.free s ≠ ∅ := Finset.ne_empty_of_mem (Finset.mem_coe.mp hleast.1)
    simp [heq, hne]

/-- **The slot taken is the least one that is not held.** -/
theorem Kept.take_eq_some (h : Kept A slots s held) (hf : (A.take s).1 = some f) :
    IsLeast {g | g ∈ slots ∧ g ∉ held} f := by
  rcases A.take_spec s with ⟨-, heq⟩ | ⟨g, hleast, heq, -⟩
  · simp [heq] at hf
  · obtain rfl : g = f := Option.some.inj (heq.symm.trans hf)
    have hset : {g | g ∈ slots ∧ g ∉ held} = (A.free s : Set φ) := by
      ext x
      simp [h.free]
    rw [hset]
    exact hleast

/-- Taking a slot loses none. -/
theorem Kept.take (h : Kept A slots s held) :
    Kept A slots (A.take s).2 (held ∪ (A.take s).1.toFinset) := by
  rcases A.take_spec s with ⟨-, heq⟩ | ⟨f, hleast, heq, hfree⟩
  · rw [heq]
    simpa using h
  · have hmem : f ∈ slots := (h.take_eq_some heq).1.1
    rw [heq, Option.toFinset_some]
    refine ⟨Finset.union_subset h.subset (Finset.singleton_subset_iff.mpr hmem), ?_⟩
    ext g
    simp only [hfree, h.free, Finset.mem_erase, Finset.mem_sdiff, Finset.mem_union,
      Finset.mem_singleton, not_or]
    constructor
    · rintro ⟨hne, hs, hh⟩
      exact ⟨hs, hh, hne⟩
    · rintro ⟨hs, hh, hne⟩
      exact ⟨hne, hs, hh⟩

/-- Giving a slot back that is free afterwards loses none. -/
theorem Kept.give (h : Kept A slots s held) (hf : f ∈ held)
    (hfree : A.free (A.give f s) = insert f (A.free s)) :
    Kept A slots (A.give f s) (held.erase f) := by
  refine ⟨(Finset.erase_subset f held).trans h.subset, ?_⟩
  ext g
  simp only [hfree, h.free, Finset.mem_insert, Finset.mem_sdiff, Finset.mem_erase, not_and]
  constructor
  · rintro (rfl | ⟨hs, hh⟩)
    · exact ⟨h.subset hf, fun hne => absurd rfl hne⟩
    · exact ⟨hs, fun _ => hh⟩
  · rintro ⟨hs, hh⟩
    by_cases hg : g = f
    · exact Or.inl hg
    · exact Or.inr ⟨hs, hh hg⟩

/-- **A slot that is given back and not free afterwards is lost.** -/
theorem Kept.lost (h : Kept A slots s held) (hf : f ∈ held)
    (hfree : A.free (A.give f s) = A.free s) :
    (A.free (A.give f s)).card + (held.erase f).card < slots.card := by
  rw [hfree, ← h.card]
  exact Nat.add_lt_add_left (Finset.card_erase_lt_of_mem hf) _

/-- **A call loses no slot** unless it is one that gives back a slot in vain. -/
theorem Kept.step {x y : σ × Finset φ} {l : Call φ} (h : Kept A slots x.1 x.2)
    (hs : Step A x l y)
    (hgive : ∀ f, l = .give f → f ∈ slots → A.free (A.give f x.1) = insert f (A.free x.1)) :
    Kept A slots y.1 y.2 := by
  cases l with
  | take =>
    obtain rfl := hs
    exact h.take
  | give f =>
    obtain ⟨hf, rfl⟩ := hs
    exact h.give hf (hgive f rfl (h.subset hf))

end Pool
