import Mathlib.Logic.Function.Basic
import Zeos.Lib.CircList

/-!
# Several rings in one heap

Any number of circular lists share a heap of links. `CircList.Rings σ h l` says that the
heap holds a whole family of them – for every index `i` the ring with the head `h i` and
the nodes `l i` – and that no node is on two of them.

The edits of `CircList` change one ring at a time. `CircList.Edited` is what such an edit
is for the family, and `CircList.Rings.edit` the one rule for it: the ring that is edited
has new nodes, all of which were on it or on no ring before, and the links of the other
rings are those they were.
-/

namespace CircList

variable {α ι : Type*} {σ σ' : Heap α} {h : ι → α} {l : ι → List α} {i j : ι} {k : List α} {x : α}

/-- **A family of rings**, no two of which have a node in common. -/
structure Rings (σ : Heap α) (h : ι → α) (l : ι → List α) : Prop where
  /-- Each of them is a ring. -/
  ring : ∀ i, IsRing σ (h i) (l i)
  /-- No node is on two of them. -/
  disjoint : ∀ i j, i ≠ j → ∀ x ∈ h i :: l i, x ∉ h j :: l j

/-- The node is on no ring of the family, and it is no head. -/
def OnNone (h : ι → α) (l : ι → List α) (x : α) : Prop := ∀ i, x ∉ h i :: l i

/-- **One ring of a family is edited**: it has the nodes `k` now, and the other rings have
the links they had. -/
structure Edited [DecidableEq ι] (σ σ' : Heap α) (h : ι → α) (l : ι → List α) (i : ι)
    (k : List α) : Prop where
  /-- The family after the edit. -/
  rings : Rings σ' h (Function.update l i k)
  /-- The links of the others. -/
  others : ∀ j, j ≠ i → ∀ x ∈ h j :: l j, σ' x = σ x

variable [DecidableEq ι]

/-- **The rule for an edit of one ring.** -/
theorem Rings.edit (hr : Rings σ h l) (hi : IsRing σ' (h i) k)
    (hk : ∀ x ∈ k, x ∈ l i ∨ OnNone h l x)
    (hothers : ∀ j, j ≠ i → ∀ x ∈ h j :: l j, σ' x = σ x) : Edited σ σ' h l i k := by
  -- a node of the edited ring is on no other one
  have hnew : ∀ j, j ≠ i → ∀ x ∈ h i :: k, x ∉ h j :: l j := by
    intro j hj x hx
    rcases List.mem_cons.mp hx with rfl | hx
    · exact hr.disjoint i j hj.symm _ List.mem_cons_self
    · rcases hk x hx with hold | hnone
      · exact hr.disjoint i j hj.symm x (List.mem_cons_of_mem _ hold)
      · exact hnone j
  refine ⟨⟨fun j => ?_, fun a b hab x ha => ?_⟩, hothers⟩
  · by_cases hj : j = i
    · subst hj
      rw [Function.update_self]
      exact hi
    · rw [Function.update_of_ne hj]
      exact (hr.ring j).congr (hothers j hj)
  · by_cases hai : a = i
    · subst hai
      rw [Function.update_self] at ha
      rw [Function.update_of_ne hab.symm]
      exact hnew b hab.symm x ha
    · rw [Function.update_of_ne hai] at ha
      by_cases hbi : b = i
      · subst hbi
        rw [Function.update_self]
        exact fun hb => hnew a hai x hb ha
      · rw [Function.update_of_ne hbi]
        exact hr.disjoint a b hab x ha

/-- A node that an edit has left out is on no ring. -/
theorem Edited.onNone (he : Edited σ σ' h l i k) (hr : Rings σ h l) (hx : x ∈ h i :: l i)
    (hxk : x ∉ h i :: k) : OnNone h (Function.update l i k) x := by
  intro j
  by_cases hj : j = i
  · subst hj
    rwa [Function.update_self]
  · rw [Function.update_of_ne hj]
    exact hr.disjoint i j (Ne.symm hj) x hx

end CircList
