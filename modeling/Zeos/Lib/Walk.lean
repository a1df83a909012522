import Mathlib.Logic.Relation
import Zeos.Lib.CircList

/-!
# Walks along the links of a heap

A loop over a linked list follows `next` from node to node, with nothing but the
links and a test of the node it stands on to end it. What it visits is defined
whether or not the links form lists: `CircList.Leads σ go a b` says that the walk
from `a` comes to `b`, if it goes on from the nodes that meet `go`.

* `CircList.Leads.closed` is the rule for what a walk does not visit: a set of nodes
  that no step leaves.
* `CircList.Leads.congr` is its frame rule: the walk only reads the links of nodes it
  goes on from.
* On a ring, a walk visits the members (`CircList.IsRing.leads_mem`) and comes home
  (`CircList.IsRing.leads_head`), so two rings with different heads have no node in
  common (`CircList.IsRing.disjoint`).
-/

namespace CircList

open Relation

variable {α : Type*} {σ σ' : Heap α} {go go' : α → Prop} {S : Set α} {a b g h x : α}
  {l l₁ l₂ k : List α}

/-- **The walk from `a` comes to `b`**: following `next` leads there, through nodes
from which the walk goes on. -/
def Leads (σ : Heap α) (go : α → Prop) : α → α → Prop :=
  ReflTransGen fun a b => go a ∧ (σ a).next = b

theorem Leads.refl : Leads σ go a a := ReflTransGen.refl

/-- A walk begins with a step. -/
theorem Leads.head (ha : go a) (hw : Leads σ go (σ a).next b) : Leads σ go a b :=
  ReflTransGen.head ⟨ha, rfl⟩ hw

/-- A walk ends with a step. -/
theorem Leads.tail (hw : Leads σ go a b) (hb : go b) : Leads σ go a (σ b).next :=
  ReflTransGen.tail hw ⟨hb, rfl⟩

theorem Leads.trans (h₁ : Leads σ go a x) (h₂ : Leads σ go x b) : Leads σ go a b :=
  ReflTransGen.trans h₁ h₂

/-- **The rule for what a walk does not visit**: it stays in a set that no step
leaves. -/
theorem Leads.closed (hw : Leads σ go a b) (ha : a ∈ S)
    (hS : ∀ x ∈ S, go x → (σ x).next ∈ S) : b ∈ S := by
  induction hw with
  | refl => exact ha
  | tail _ hs ih =>
    obtain ⟨hgo, rfl⟩ := hs
    exact hS _ ih hgo

/-- **The frame rule**: a heap with the same links where the walk goes on carries
the same walk. -/
theorem Leads.congr (hw : Leads σ go a b)
    (heq : ∀ x, Leads σ go a x → go x → go' x ∧ (σ' x).next = (σ x).next) :
    Leads σ' go' a b := by
  induction hw with
  | refl => exact Leads.refl
  | tail hw hs ih =>
    obtain ⟨hgo, rfl⟩ := hs
    obtain ⟨hgo', hnext⟩ := heq _ hw hgo
    rw [← hnext]
    exact ih.tail hgo'

/-- A walk that comes to a node of a set comes to a first one, and goes on from
there. -/
theorem Leads.first (hw : Leads σ go a b) (hb : b ∈ S) :
    ∃ c ∈ S, Leads σ (fun x => go x ∧ x ∉ S) a c ∧ Leads σ go c b := by
  induction hw using ReflTransGen.head_induction_on with
  | refl => exact ⟨b, hb, Leads.refl, Leads.refl⟩
  | @head x y hs hw ih =>
    obtain ⟨hgo, rfl⟩ := hs
    by_cases hx : x ∈ S
    · exact ⟨x, hx, Leads.refl, Leads.head hgo hw⟩
    · obtain ⟨c, hc, hwc, hcb⟩ := ih
      exact ⟨c, hc, hwc.head ⟨hgo, hx⟩, hcb⟩

/-! ### Walks along chains and rings -/

/-- A walk runs through a chain. -/
theorem Chain.leads (hc : Chain σ a l b) (hgo : ∀ x ∈ a :: l, go x) : Leads σ go a b := by
  induction l generalizing a with
  | nil =>
    obtain ⟨rfl, -⟩ := hc
    exact Leads.refl.tail (hgo a (by simp))
  | cons x l ih =>
    obtain ⟨rfl, -, hc⟩ := hc
    exact (ih hc fun y hy => hgo y (List.mem_cons_of_mem _ hy)).head (hgo a (by simp))

/-- A walk runs from any node of a chain to its end. -/
theorem Chain.leads_of_mem (hc : Chain σ a l b) (hx : x ∈ a :: l) (hgo : ∀ y ∈ a :: l, go y) :
    Leads σ go x b := by
  rcases List.mem_cons.mp hx with rfl | hx
  · exact hc.leads hgo
  · obtain ⟨l₁, l₂, rfl⟩ := List.append_of_mem hx
    refine (chain_append.mp hc).2.leads fun y hy => hgo y ?_
    exact List.mem_cons_of_mem _ (List.mem_append_right _ hy)

/-- The walk over a chain, from its first inner node on. -/
theorem Chain.leads_next (hc : Chain σ a l b) (hgo : ∀ x ∈ l, go x) :
    Leads σ go (σ a).next b := by
  cases l with
  | nil =>
    rw [hc.1]
    exact Leads.refl
  | cons x l =>
    rw [hc.1]
    exact hc.2.2.leads hgo

/-- **The walk over a ring visits its members.** -/
theorem IsRing.leads_mem (hr : IsRing σ h l) (hx : x ∈ l) (hgo : ∀ y ∈ l, go y) :
    Leads σ go (σ h).next x := by
  obtain ⟨l₁, l₂, rfl⟩ := List.append_of_mem hx
  exact (chain_append.mp hr.chain).1.leads_next fun y hy => hgo y (List.mem_append_left _ hy)

/-- **From any node of a ring a walk comes home.** -/
theorem IsRing.leads_head (hr : IsRing σ h l) (hx : x ∈ h :: l) (hgo : ∀ y ∈ l, go y) :
    Leads σ go x h := by
  rcases List.mem_cons.mp hx with rfl | hx
  · exact Leads.refl
  · obtain ⟨l₁, l₂, rfl⟩ := List.append_of_mem hx
    exact (chain_append.mp hr.chain).2.leads fun y hy => hgo y (List.mem_append_right _ hy)

/-- A walk that has come to a ring stays in it. -/
theorem IsRing.mem_of_leads (hr : IsRing σ h l) (hw : Leads σ go a b) (ha : a ∈ h :: l) :
    b ∈ h :: l :=
  hw.closed (S := {x | x ∈ h :: l}) ha fun _ hx _ => hr.next_mem hx

/-- **Rings with different heads have no node in common**, the head of neither being
a member of the other. -/
theorem IsRing.disjoint (hr : IsRing σ h l) (hg : IsRing σ g k) (hne : g ∉ h :: l)
    (hx : x ∈ g :: k) : x ∉ h :: l := by
  have hhome : Leads σ (fun _ => True) x g := hg.leads_head hx fun _ _ => trivial
  exact fun hxh => hne (hr.mem_of_leads hhome hxh)

end CircList
