import Mathlib.Data.List.Basic
import Mathlib.Data.List.Nodup
import Mathlib.Data.List.Infix

/-!
# Circular doubly linked lists in a heap of links

An intrusive list is threaded through nodes that live elsewhere: every node
carries a `next` and a `prev` pointer, a list is a distinguished *head* node
whose pointers close the circle, and the head carries no element. A heap is a
function from nodes to their two pointers, so any number of lists – and any
number of nodes on no list at all – share it.

`CircList.Chain σ a l b` says that following `next` from `a` runs through the
nodes of `l` and arrives at `b`, with `prev` inverting every one of these steps;
`CircList.IsRing σ h l` is the chain from a head `h` back to itself, with
pairwise distinct nodes. The three edits a list module performs are then

| edit | elements before | elements after | theorem |
|---|---|---|---|
| link before the head | `l` | `l ++ [n]` | `CircList.IsRing.linkLast` |
| link after the head | `l` | `n :: l` | `CircList.IsRing.linkFirst` |
| unlink a member | `l₁ ++ e :: l₂` | `l₁ ++ l₂` | `CircList.IsRing.unlink` |

and each of them leaves alone every ring that does not contain the edited nodes
(`CircList.IsRing.congr`).
-/

namespace CircList

/-- The two pointers of a node. -/
@[ext]
structure Link (α : Type*) where
  /-- The next node of the circle. -/
  next : α
  /-- The previous node of the circle. -/
  prev : α

/-- A heap of links: the pointers of every node. -/
abbrev Heap (α : Type*) := α → Link α

variable {α : Type*}

/-! ### Chains and rings -/

/-- Following `next` from `a` runs through `l` and arrives at `b`, and `prev`
inverts every step. -/
def Chain (σ : Heap α) : α → List α → α → Prop
  | a, [], b => (σ a).next = b ∧ (σ b).prev = a
  | a, x :: l, b => (σ a).next = x ∧ (σ x).prev = a ∧ Chain σ x l b

/-- **A well-formed circular list**: the chain from the head back to itself,
through pairwise distinct nodes. -/
structure IsRing (σ : Heap α) (h : α) (l : List α) : Prop where
  /-- The circle closes on its head. -/
  chain : Chain σ h l h
  /-- No node occurs twice. -/
  nodup : (h :: l).Nodup

variable {σ σ' : Heap α} {a b h x : α} {l l₁ l₂ : List α}

theorem chain_nil : Chain σ a [] b ↔ (σ a).next = b ∧ (σ b).prev = a := Iff.rfl

theorem chain_cons :
    Chain σ a (x :: l) b ↔ (σ a).next = x ∧ (σ x).prev = a ∧ Chain σ x l b := Iff.rfl

/-- A chain splits at any of its inner nodes. -/
theorem chain_append :
    Chain σ a (l₁ ++ x :: l₂) b ↔ Chain σ a l₁ x ∧ Chain σ x l₂ b := by
  induction l₁ generalizing a with
  | nil =>
    rw [List.nil_append, chain_cons, chain_nil, and_assoc]
  | cons y l₁ ih =>
    rw [List.cons_append, chain_cons, chain_cons, ih, and_assoc, and_assoc]

/-- A chain only reads the `next` of its start and inner nodes and the `prev` of
its inner nodes and its end. -/
theorem Chain.congr (hc : Chain σ a l b)
    (hn : ∀ y ∈ a :: l, (σ' y).next = (σ y).next)
    (hp : ∀ y ∈ l ++ [b], (σ' y).prev = (σ y).prev) : Chain σ' a l b := by
  induction l generalizing a with
  | nil =>
    obtain ⟨h1, h2⟩ := hc
    exact ⟨(hn a (by simp)).trans h1, (hp b (by simp)).trans h2⟩
  | cons y l ih =>
    obtain ⟨h1, h2, h3⟩ := hc
    refine ⟨(hn a (by simp)).trans h1, (hp y (by simp)).trans h2, ih h3 ?_ ?_⟩
    · exact fun z hz => hn z (List.mem_cons_of_mem _ hz)
    · exact fun z hz => hp z (by
        rw [List.cons_append]
        exact List.mem_cons_of_mem _ hz)

/-- **The frame rule**: a heap that agrees with another on the nodes of a ring
carries the same ring. -/
theorem IsRing.congr (hr : IsRing σ h l) (heq : ∀ y ∈ h :: l, σ' y = σ y) :
    IsRing σ' h l := by
  refine ⟨hr.chain.congr (fun y hy => by rw [heq y hy]) (fun y hy => ?_), hr.nodup⟩
  rw [heq y]
  simpa [or_comm] using hy

/-- A ring is empty exactly when its head points at itself. -/
theorem IsRing.next_eq_self_iff (hr : IsRing σ h l) : (σ h).next = h ↔ l = [] := by
  obtain ⟨hc, hd⟩ := hr
  cases l with
  | nil => simpa using hc.1
  | cons x l =>
    have hxh : x ≠ h := by
      rintro rfl
      simp at hd
    simpa [hc.1] using hxh

/-- The first element is where the head points. -/
theorem IsRing.next_head (hr : IsRing σ h (x :: l)) : (σ h).next = x := hr.chain.1

/-- The first element occurs once. -/
theorem IsRing.notMem_tail (hr : IsRing σ h (x :: l)) : x ∉ l :=
  (List.nodup_cons.mp (List.nodup_cons.mp hr.nodup).2).1

/-- `prev` inverts the `next` of the head. -/
theorem IsRing.prev_next_head (hr : IsRing σ h l) : (σ (σ h).next).prev = h := by
  cases l with
  | nil =>
    rw [hr.chain.1]
    exact hr.chain.2
  | cons x l =>
    rw [hr.chain.1]
    exact hr.chain.2.1

/-- Two rings of one heap with the same head have the same elements. -/
theorem IsRing.unique (h₁ : IsRing σ h l₁) (h₂ : IsRing σ h l₂) : l₁ = l₂ := by
  have key : ∀ (l₁ l₂ : List α) (a : α), Chain σ a l₁ h → Chain σ a l₂ h →
      h ∉ l₁ → h ∉ l₂ → l₁ = l₂ := by
    intro l₁
    induction l₁ with
    | nil =>
      intro l₂ a hc₁ hc₂ _ hn₂
      cases l₂ with
      | nil => rfl
      | cons y l₂ =>
        refine absurd ?_ hn₂
        rw [← hc₁.1, hc₂.1]
        exact List.mem_cons_self
    | cons x l₁ ih =>
      intro l₂ a hc₁ hc₂ hn₁ hn₂
      cases l₂ with
      | nil =>
        refine absurd ?_ hn₁
        rw [← hc₂.1, hc₁.1]
        exact List.mem_cons_self
      | cons y l₂ =>
        obtain rfl : x = y := hc₁.1.symm.trans hc₂.1
        rw [ih l₂ x hc₁.2.2 hc₂.2.2 (fun hm => hn₁ (List.mem_cons_of_mem _ hm))
          (fun hm => hn₂ (List.mem_cons_of_mem _ hm))]
  exact key l₁ l₂ h h₁.chain h₂.chain (List.nodup_cons.mp h₁.nodup).1
    (List.nodup_cons.mp h₂.nodup).1

/-! ### Writing one pointer -/

section Edit

variable [DecidableEq α] {n e p q y : α}

/-- The heap after `a->next = b`. -/
def setNext (σ : Heap α) (a b : α) : Heap α := Function.update σ a { σ a with next := b }

/-- The heap after `a->prev = b`. -/
def setPrev (σ : Heap α) (a b : α) : Heap α := Function.update σ a { σ a with prev := b }

@[simp] theorem next_setNext : (setNext σ a b y).next = if y = a then b else (σ y).next := by
  by_cases hy : y = a
  · subst hy
    simp [setNext]
  · simp [setNext, hy]

@[simp] theorem prev_setNext : (setNext σ a b y).prev = (σ y).prev := by
  by_cases hy : y = a
  · subst hy
    simp [setNext]
  · simp [setNext, hy]

@[simp] theorem prev_setPrev : (setPrev σ a b y).prev = if y = a then b else (σ y).prev := by
  by_cases hy : y = a
  · subst hy
    simp [setPrev]
  · simp [setPrev, hy]

@[simp] theorem next_setPrev : (setPrev σ a b y).next = (σ y).next := by
  by_cases hy : y = a
  · subst hy
    simp [setPrev]
  · simp [setPrev, hy]

theorem setNext_of_ne (hy : y ≠ a) : setNext σ a b y = σ y := Function.update_of_ne hy _ _

theorem setPrev_of_ne (hy : y ≠ a) : setPrev σ a b y = σ y := Function.update_of_ne hy _ _

/-! ### Linking a node in -/

/-- Link `n` between the neighbours `p` and `q`. -/
def linkBetween (σ : Heap α) (n p q : α) : Heap α :=
  setNext (setPrev (setNext (setPrev σ q n) n q) n p) p n

/-- Linking writes the new node and its two neighbours only. -/
theorem linkBetween_of_ne (hn : y ≠ n) (hp : y ≠ p) (hq : y ≠ q) :
    linkBetween σ n p q y = σ y := by
  rw [linkBetween, setNext_of_ne hp, setPrev_of_ne hn, setNext_of_ne hn, setPrev_of_ne hq]

@[simp] theorem next_linkBetween : (linkBetween σ n p q y).next =
    if y = p then n else if y = n then q else (σ y).next := by
  simp [linkBetween]

@[simp] theorem prev_linkBetween : (linkBetween σ n p q y).prev =
    if y = n then p else if y = q then n else (σ y).prev := by
  simp [linkBetween]

/-- **Linking before the head appends.** -/
theorem IsRing.linkLast (hr : IsRing σ h l) (hn : n ∉ h :: l) :
    IsRing (linkBetween σ n (σ h).prev h) h (l ++ [n]) := by
  obtain ⟨hc, hd⟩ := hr
  have hnh : n ≠ h := fun he => hn (by simp [he])
  constructor
  · rcases List.eq_nil_or_concat l with rfl | ⟨l', x, rfl⟩
    · simp [Chain, hc.2, hnh, hnh.symm]
    · rw [List.concat_eq_append] at hc hd hn ⊢
      rw [chain_append] at hc
      obtain ⟨hc', hx⟩ := hc
      rw [List.append_assoc, List.singleton_append, chain_append]
      simp only [List.nodup_cons, List.mem_append, List.nodup_append, List.mem_cons] at hd hn
      have hxh : x ≠ h := fun he => hd.1 (by simp [he])
      refine ⟨hc'.congr (fun y hy => ?_) (fun y hy => ?_), ?_⟩
      · rw [next_linkBetween, hx.2, if_neg, if_neg]
        · grind
        · grind
      · rw [prev_linkBetween, if_neg, if_neg]
        · grind
        · grind
      · have hxn : x ≠ n := by grind
        simp [Chain, hx.2, hnh.symm, hxn.symm]
  · rw [List.mem_cons, not_or] at hn
    simp only [List.nodup_cons, List.nodup_append] at hd ⊢
    grind

/-- **Linking after the head prepends.** -/
theorem IsRing.linkFirst (hr : IsRing σ h l) (hn : n ∉ h :: l) :
    IsRing (linkBetween σ n h (σ h).next) h (n :: l) := by
  obtain ⟨hc, hd⟩ := hr
  have hnh : n ≠ h := fun he => hn (by simp [he])
  constructor
  · cases l with
    | nil => simp [Chain, hc.1, hnh, hnh.symm]
    | cons x l =>
      obtain ⟨h1, h2, h3⟩ := hc
      have hxn : x ≠ n := fun he => hn (by simp [he])
      have hxh : x ≠ h := fun he => by simp [he] at hd
      refine ⟨by simp, by simp, by simp [h1, hnh], by simp [h1, hxn], h3.congr ?_ ?_⟩
      · intro y hy
        rw [next_linkBetween, if_neg, if_neg]
        · rintro rfl
          exact hn (List.mem_cons_of_mem _ hy)
        · rintro rfl
          exact (List.nodup_cons.mp hd).1 hy
      · intro y hy
        rw [prev_linkBetween, h1, if_neg, if_neg]
        · grind
        · grind
  · grind

/-! ### Unlinking a node -/

/-- Make the neighbours `p` and `q` point at each other. -/
def bypass (σ : Heap α) (p q : α) : Heap α := setNext (setPrev σ q p) p q

@[simp] theorem next_bypass : (bypass σ p q y).next = if y = p then q else (σ y).next := by
  simp [bypass]

@[simp] theorem prev_bypass : (bypass σ p q y).prev = if y = q then p else (σ y).prev := by
  simp [bypass]

/-- A bypass writes the two neighbours only. -/
theorem bypass_of_ne (hp : y ≠ p) (hq : y ≠ q) : bypass σ p q y = σ y := by
  rw [bypass, setNext_of_ne hp, setPrev_of_ne hq]

omit [DecidableEq α] in
/-- The predecessor of a chain's end is its last inner node, or its start. -/
theorem Chain.prev_mem (hc : Chain σ a l b) : (σ b).prev ∈ a :: l := by
  induction l generalizing a with
  | nil => simp [hc.2]
  | cons x l ih => exact List.mem_cons_of_mem _ (ih hc.2.2)

omit [DecidableEq α] in
/-- The successor of a chain's start is its first inner node, or its end. -/
theorem Chain.next_mem (hc : Chain σ a l b) : (σ a).next ∈ l ++ [b] := by
  cases l with
  | nil => simp [hc.1]
  | cons x l => simp [hc.1]

/-- Redirecting the last pointer of a chain to another end. -/
theorem Chain.redirect (hc : Chain σ a l b) (hd : (a :: l).Nodup)
    (hq : q ∉ l) : Chain (bypass σ (σ b).prev q) a l q := by
  induction l generalizing a with
  | nil => simp [Chain, hc.2]
  | cons x l ih =>
    obtain ⟨h1, h2, h3⟩ := hc
    have hmem := h3.prev_mem
    have hax : a ≠ (σ b).prev := fun he => (List.nodup_cons.mp hd).1 (he ▸ hmem)
    have hxq : x ≠ q := fun he => hq (by simp [he])
    refine ⟨by simp [hax, h1], by simp [hxq, h2], ih h3 (List.nodup_cons.mp hd).2 ?_⟩
    exact fun hm => hq (List.mem_cons_of_mem _ hm)

/-- **Unlinking removes exactly the node**, whatever is then written into it. -/
theorem IsRing.unlink (hr : IsRing σ h (l₁ ++ e :: l₂))
    (heq : ∀ y, y ≠ e → σ' y = bypass σ (σ e).prev (σ e).next y) :
    IsRing σ' h (l₁ ++ l₂) := by
  obtain ⟨hc, hd⟩ := hr
  have hd' : (h :: (l₁ ++ l₂)).Nodup := by
    refine List.Nodup.sublist ?_ hd
    exact List.Sublist.cons_cons _ (List.Sublist.append_left (List.sublist_cons_self _ _) _)
  have he : e ∉ h :: (l₁ ++ l₂) := by
    simp only [List.nodup_cons, List.mem_append, List.nodup_append, List.mem_cons] at hd ⊢
    grind
  refine IsRing.congr (σ := bypass σ (σ e).prev (σ e).next) ⟨?_, hd'⟩ fun y hy => heq y ?_
  · rw [chain_append] at hc
    obtain ⟨hc₁, hc₂⟩ := hc
    have hd₁ : (h :: l₁).Nodup := by
      refine List.Nodup.sublist ?_ hd'
      exact List.Sublist.cons_cons _ (List.sublist_append_left _ _)
    cases l₂ with
    | nil =>
      rw [List.append_nil, hc₂.1]
      exact hc₁.redirect hd₁ (List.nodup_cons.mp hd₁).1
    | cons y l₂ =>
      obtain ⟨h1, h2, h3⟩ := hc₂
      simp only [List.nodup_cons, List.mem_append, List.nodup_append, List.mem_cons] at hd'
      rw [chain_append, h1]
      have hp := hc₁.prev_mem
      refine ⟨hc₁.redirect hd₁ (by grind), h3.congr (fun z hz => ?_) (fun z hz => ?_)⟩
      · rw [next_bypass, if_neg]
        grind
      · rw [prev_bypass, if_neg]
        grind
  · rintro rfl
    exact he hy

omit [DecidableEq α] in
/-- A member's neighbours belong to its ring. -/
theorem IsRing.neighbours_mem (hr : IsRing σ h l) (he : e ∈ l) :
    (σ e).prev ∈ h :: l ∧ (σ e).next ∈ h :: l := by
  obtain ⟨l₁, l₂, rfl⟩ := List.append_of_mem he
  obtain ⟨hc₁, hc₂⟩ := chain_append.mp hr.chain
  have h1 := hc₁.prev_mem
  have h2 := hc₂.next_mem
  simp only [List.mem_cons, List.mem_append, List.not_mem_nil, or_false] at h1 h2 ⊢
  exact ⟨by tauto, by tauto⟩

omit [DecidableEq α] in
/-- The head's predecessor belongs to its ring. -/
theorem IsRing.prev_head_mem (hr : IsRing σ h l) : (σ h).prev ∈ h :: l := hr.chain.prev_mem

omit [DecidableEq α] in
/-- The links of a ring stay in it. -/
theorem IsRing.next_mem (hr : IsRing σ h l) (hx : x ∈ h :: l) : (σ x).next ∈ h :: l := by
  rcases List.mem_cons.mp hx with rfl | hx
  · have hm := hr.chain.next_mem
    simpa [or_comm] using hm
  · exact (hr.neighbours_mem hx).2

omit [DecidableEq α] in
/-- The links back stay in it, too. -/
theorem IsRing.prev_mem (hr : IsRing σ h l) (hx : x ∈ h :: l) : (σ x).prev ∈ h :: l := by
  rcases List.mem_cons.mp hx with rfl | hx
  · exact hr.prev_head_mem
  · exact (hr.neighbours_mem hx).1

end Edit

end CircList
