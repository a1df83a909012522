import Zeos.Lib.Rings
import Zeos.Common.List

/-!
# Lists that share a heap

`list.c` and the loops of `list.h` on any number of lists at once. The kernels never have
one list alone: PCBs go from queue to queue, and every operation writes to nodes it only
knows by their links. In terms of the sequences of entries of a family of lists
(`CircList.Rings`), each operation is the obvious one, and touches one sequence only
(`Zeos.list_operations`).

`list_for_each` reads the links of the entry it has just visited, so its body must leave
them alone. `list_for_each_safe` has read them before: the body may unlink the entry and put
it on another list (`Zeos.Fate`), and the loop still visits the entries the list began with,
each of them once.
-/

namespace Zeos

open CircList

variable {α β ι : Type*} [DecidableEq α] [DecidableEq ι]

/-! ### The loops of `list.h` -/

/-- The loop of `list_for_each` from the entry `pos` on. Its body, `visit`, works on data
other than the links. -/
def forEachFrom (σ : Heap α) (visit : α → β → β) (head : α) : Nat → α → β → Option β
  | 0, _, _ => none
  | fuel + 1, pos, s =>
    if pos = head then some s
    else forEachFrom σ visit head fuel (σ pos).next (visit pos s)

/-- `list_for_each` -/
def listForEach (σ : Heap α) (visit : α → β → β) (head : α) (fuel : Nat) (s : β) : Option β :=
  forEachFrom σ visit head fuel (σ head).next s

/-- The loop of `list_for_each_safe` from the entry `pos` on, `n` being the one after it. -/
def forEachSafeFrom (body : α → Heap α × β → Heap α × β) (head : α) :
    Nat → α → α → Heap α × β → Option (Heap α × β)
  | 0, _, _, _ => none
  | fuel + 1, pos, n, s =>
    if pos = head then some s
    else
      let s := body pos s
      forEachSafeFrom body head fuel n (s.1 n).next s

/-- `list_for_each_safe` -/
def listForEachSafe (body : α → Heap α × β → Heap α × β) (head : α) (fuel : Nat)
    (s : Heap α × β) : Option (Heap α × β) :=
  let pos := (s.1 head).next
  forEachSafeFrom body head fuel pos (s.1 pos).next s

/-- What the body of a loop does with the entry it visits. -/
inductive Fate (ι : Type*)
  /-- Leave it where it is. -/
  | stay
  /-- Delete it. -/
  | delete
  /-- Delete it, and append it to another list. -/
  | move (j : ι)
deriving DecidableEq

/-- Do it. -/
def Fate.perform (null : α) (h : ι → α) (e : α) : Fate ι → Heap α → Heap α
  | .stay, σ => σ
  | .delete, σ => listDel σ null e
  | .move j, σ => listAddTail (listDel σ null e) e (h j)

/-! ### The operations of `list.c` -/

section Operations

variable {σ : Heap α} {h : ι → α} {l : ι → List α} {i : ι} {null n e : α}

/-- **`list_add` prepends.** -/
theorem edited_listAdd (hr : Rings σ h l) (hn : OnNone h l n) :
    Edited σ (listAdd σ n (h i)) h l i (n :: l i) := by
  refine hr.edit (isRing_listAdd (hr.ring i) (hn i)) (fun x hx => ?_) fun j hj x hx => ?_
  · rcases List.mem_cons.mp hx with rfl | hx
    · exact Or.inr hn
    · exact Or.inl hx
  · refine listAdd_of_notMem (hr.ring i) ?_ (hr.disjoint j i hj x hx)
    rintro rfl
    exact hn j hx

/-- **`list_add_tail` appends.** -/
theorem edited_listAddTail (hr : Rings σ h l) (hn : OnNone h l n) :
    Edited σ (listAddTail σ n (h i)) h l i (l i ++ [n]) := by
  refine hr.edit (isRing_listAddTail (hr.ring i) (hn i)) (fun x hx => ?_) fun j hj x hx => ?_
  · rcases List.mem_append.mp hx with hx | hx
    · exact Or.inl hx
    · rw [List.mem_singleton.mp hx]
      exact Or.inr hn
  · refine listAddTail_of_notMem (hr.ring i) ?_ (hr.disjoint j i hj x hx)
    rintro rfl
    exact hn j hx

/-- **`list_del` removes exactly its entry.** -/
theorem edited_listDel (null : α) (hr : Rings σ h l) (he : e ∈ l i) :
    Edited σ (listDel σ null e) h l i ((l i).erase e) := by
  have hnd := (List.nodup_cons.mp (hr.ring i).nodup).2
  refine hr.edit ?_ (fun x hx => Or.inl (List.mem_of_mem_erase hx)) fun j hj x hx =>
    listDel_of_notMem (hr.ring i) he (hr.disjoint j i hj x hx)
  obtain ⟨l₁, l₂, heq⟩ := List.append_of_mem he
  have hring := hr.ring i
  rw [heq] at hring hnd ⊢
  rw [List.erase_append_right _ fun hm => (List.nodup_append.mp hnd).2.2 _ hm _ (by simp) rfl,
    List.erase_cons_head]
  exact isRing_listDel hring

/-- An entry that has been deleted is on no list. -/
theorem onNone_listDel (hr : Rings σ h l) (he : e ∈ l i) :
    OnNone h (Function.update l i ((l i).erase e)) e := by
  have hnd := (hr.ring i).nodup
  have hmem : e ∈ h i :: l i := List.mem_cons_of_mem _ he
  refine (edited_listDel e hr he).onNone hr hmem fun hm => ?_
  rcases List.mem_cons.mp hm with rfl | hm
  · exact (List.nodup_cons.mp hnd).1 he
  · exact (List.Nodup.not_mem_erase (List.nodup_cons.mp hnd).2) hm

omit [DecidableEq α] in
/-- **The entry after an entry**, or the head. -/
theorem next_eq_headD {l₁ l₂ : List α} {head : α} (hr : IsRing σ head (l₁ ++ e :: l₂)) :
    (σ e).next = l₂.headD head := by
  obtain ⟨-, hc⟩ := chain_append.mp hr.chain
  cases l₂ with
  | nil => exact hc.1
  | cons x l₂ => exact hc.1

/-- **`list_is_last` decides the last position.** -/
theorem listIsLast_iff {head : α} {k : List α} (hr : IsRing σ head k) (he : e ∈ k) :
    listIsLast σ e head = true ↔ k.getLast? = some e := by
  obtain ⟨l₁, l₂, rfl⟩ := List.append_of_mem he
  have hnd := hr.nodup
  rw [listIsLast, decide_eq_true_iff, next_eq_headD hr, List.getLast?_append,
    List.getLast?_cons, Option.some_or, Option.some_inj]
  cases l₂ with
  | nil => simp
  | cons x l₂ =>
    rw [List.headD_cons, List.getLast?_eq_some_getLast (List.cons_ne_nil x l₂), Option.getD_some]
    have hx : x ≠ head := by
      rintro rfl
      simp at hnd
    have hlast : (x :: l₂).getLast (List.cons_ne_nil x l₂) ≠ e := by
      intro heq
      have hmem := List.getLast_mem (List.cons_ne_nil x l₂)
      rw [heq] at hmem
      rw [List.nodup_cons, List.nodup_append, List.nodup_cons] at hnd
      exact hnd.2.2.1.1 hmem
    exact iff_of_false hx hlast

end Operations

/-! ### The loops -/

section Loops

variable {σ : Heap α} {h : ι → α} {l : ι → List α} {i : ι} {null e head : α}
  {done todo k : List α}

omit [DecidableEq α] in
/-- An entry is not the head. -/
theorem headD_ne (hr : IsRing σ head (done ++ e :: todo)) : e ≠ head := by
  rintro rfl
  exact (List.nodup_cons.mp hr.nodup).1 (by simp)

/-- **`list_for_each` visits the entries of its list, in order**, and ends. -/
theorem forEachFrom_eq (visit : α → β → β) (hr : IsRing σ head (done ++ todo)) {fuel : Nat}
    (hfuel : todo.length < fuel) (s : β) :
    forEachFrom σ visit head fuel (todo.headD head) s =
      some (todo.foldl (fun s x => visit x s) s) := by
  induction todo generalizing done fuel s with
  | nil =>
    obtain ⟨fuel, rfl⟩ := Nat.exists_eq_succ_of_ne_zero (Nat.ne_of_gt hfuel)
    rw [forEachFrom, List.headD_nil, if_pos rfl]
    rfl
  | cons e todo ih =>
    obtain ⟨fuel, rfl⟩ := Nat.exists_eq_succ_of_ne_zero (Nat.ne_of_gt (Nat.zero_lt_of_lt hfuel))
    rw [forEachFrom, List.headD_cons, if_neg (headD_ne hr), next_eq_headD hr]
    have hr' : IsRing σ head ((done ++ [e]) ++ todo) := by rwa [List.append_assoc]
    exact ih hr' (by simpa using hfuel) (visit e s)

omit [DecidableEq α] in
/-- The first entry of a list, or its head. -/
theorem next_head_eq_headD (hr : IsRing σ head k) : (σ head).next = k.headD head := by
  cases k with
  | nil => exact hr.chain.1
  | cons x k => exact hr.next_head

/-- The lists when the body has dealt with one entry: it may be on another list now. -/
structure Dealt (σ σ' : Heap α) (h : ι → α) (l l' : ι → List α) (i : ι) (e : α)
    (fate : Fate ι) (done todo : List α) : Prop where
  /-- The lists. -/
  rings : Rings σ' h l'
  /-- The list of the loop. -/
  here : l' i = done ++ ([e].filter fun _ => fate = .stay) ++ todo
  /-- The other lists. -/
  there : ∀ j, j ≠ i → l' j = l j ++ [e].filter fun _ => fate = .move j
  /-- The links of the lists that have got nothing. -/
  others : ∀ j, j ≠ i → fate ≠ .move j → ∀ x ∈ h j :: l j, σ' x = σ x

/-- **One round of `list_for_each_safe`.** -/
theorem dealt_perform (null : α) (hr : Rings σ h l) (hl : l i = done ++ e :: todo)
    (fate : Fate ι) (hfate : fate ≠ .move i) :
    ∃ l', Dealt σ (fate.perform null h e σ) h l l' i e fate done todo := by
  have hmem : e ∈ l i := by simp [hl]
  have hdel := edited_listDel null hr hmem
  have hnone := onNone_listDel hr hmem
  have herase : (l i).erase e = done ++ todo := by
    have hnd := (List.nodup_cons.mp (hr.ring i).nodup).2
    rw [hl] at hnd ⊢
    rw [List.erase_append_right _ fun hm => (List.nodup_append.mp hnd).2.2 _ hm _ (by simp) rfl,
      List.erase_cons_head]
  rw [herase] at hdel hnone
  cases fate with
  | stay => exact ⟨l, hr, by simp [hl], fun j _ => by simp, fun _ _ _ _ _ => rfl⟩
  | delete =>
    refine ⟨_, hdel.rings, by simp, fun j hj => ?_, fun j hj _ => hdel.others j hj⟩
    rw [Function.update_of_ne hj]
    simp
  | move j =>
    have hji : j ≠ i := fun he => hfate (by rw [he])
    have hadd := edited_listAddTail (i := j) hdel.rings hnone
    rw [Function.update_of_ne hji] at hadd
    refine ⟨_, hadd.rings, ?_, fun a ha => ?_, fun a ha hne x hx => ?_⟩
    · rw [Function.update_of_ne hji.symm, Function.update_self]
      simp
    · by_cases haj : a = j
      · subst haj
        rw [Function.update_self]
        simp
      · rw [Function.update_of_ne haj, Function.update_of_ne ha]
        simp [Ne.symm haj]
    · have haj : a ≠ j := fun he => hne (by rw [he])
      refine Eq.trans (hadd.others a haj x ?_) (hdel.others a ha x hx)
      rwa [Function.update_of_ne ha]

/-- **`list_for_each_safe` visits the entries its list began with, in order**, and ends,
whatever the body does with each of them. -/
theorem forEachSafeFrom_eq (null : α) (fate : α → Fate ι) (visit : α → β → β)
    (hr : Rings σ h l) (hl : l i = done ++ todo) (hfate : ∀ e ∈ todo, fate e ≠ .move i)
    {fuel : Nat} (hfuel : todo.length < fuel) (s : β) :
    ∃ σ', forEachSafeFrom (fun e s => ((fate e).perform null h e s.1, visit e s.2)) (h i) fuel
          (todo.headD (h i)) (σ (todo.headD (h i))).next (σ, s) =
        some (σ', todo.foldl (fun s x => visit x s) s) ∧
      Rings σ' h (fun j => if j = i then done ++ todo.filter fun e => fate e = .stay
        else l j ++ todo.filter fun e => fate e = .move j) ∧
      ∀ j, j ≠ i → (∀ e ∈ todo, fate e ≠ .move j) → ∀ x ∈ h j :: l j, σ' x = σ x := by
  induction todo generalizing σ l done fuel s with
  | nil =>
    obtain ⟨fuel, rfl⟩ := Nat.exists_eq_succ_of_ne_zero (Nat.ne_of_gt hfuel)
    refine ⟨σ, by rw [forEachSafeFrom, List.headD_nil, if_pos rfl]; rfl, ?_, fun _ _ _ _ _ => rfl⟩
    have heq : (fun j => if j = i then done ++ ([].filter fun e => fate e = .stay)
        else l j ++ [].filter fun e => fate e = .move j) = l := by
      funext j
      by_cases hj : j = i
      · subst hj
        simp [hl]
      · simp [hj]
    rwa [heq]
  | cons e todo ih =>
    obtain ⟨fuel, rfl⟩ := Nat.exists_eq_succ_of_ne_zero (Nat.ne_of_gt (Nat.zero_lt_of_lt hfuel))
    have hring := hr.ring i
    rw [hl] at hring
    obtain ⟨l', hd⟩ := dealt_perform null hr hl (fate e) (hfate e List.mem_cons_self)
    obtain ⟨σ', hrun, hrings, hothers⟩ := ih hd.rings hd.here
      (fun x hx => hfate x (List.mem_cons_of_mem _ hx)) (by simpa using hfuel) (visit e s)
    refine ⟨σ', ?_, ?_, fun j hj hne x hx => ?_⟩
    · rw [forEachSafeFrom, List.headD_cons, if_neg (headD_ne hring), next_eq_headD hring]
      exact hrun
    · have heq : (fun j => if j = i then done ++ ((e :: todo).filter fun e => fate e = .stay)
          else l j ++ (e :: todo).filter fun e => fate e = .move j) =
          fun j => if j = i then done ++ ([e].filter fun _ => fate e = .stay) ++
            (todo.filter fun e => fate e = .stay)
          else l' j ++ todo.filter fun e => fate e = .move j := by
        funext j
        by_cases hj : j = i
        · simp only [hj, if_true, List.append_assoc]
          by_cases hst : fate e = .stay <;> simp [hst]
        · simp only [hj, if_false, hd.there j hj, List.append_assoc]
          by_cases hmv : fate e = .move j <;> simp [hmv]
      rwa [heq]
    · have hsame := hd.others j hj (hne e List.mem_cons_self)
      refine Eq.trans (hothers j hj (fun y hy => hne y (List.mem_cons_of_mem _ hy)) x ?_)
        (hsame x hx)
      rw [hd.there j hj]
      rcases List.mem_cons.mp hx with rfl | hx
      · exact List.mem_cons_self
      · exact List.mem_cons_of_mem _ (List.mem_append_left _ hx)

/-- **The operations on lists are those on sequences**, on any number of lists that share
a heap. -/
theorem list_operations (hr : Rings σ h l) (null : α) (i : ι) :
    (∀ n, OnNone h l n → Edited σ (listAdd σ n (h i)) h l i (n :: l i) ∧
      Edited σ (listAddTail σ n (h i)) h l i (l i ++ [n])) ∧
    (∀ e ∈ l i, Edited σ (listDel σ null e) h l i ((l i).erase e) ∧
      listDel σ null e e = ⟨null, null⟩ ∧
      (listIsLast σ e (h i) = true ↔ (l i).getLast? = some e)) ∧
    (listEmpty σ (h i) = true ↔ l i = []) ∧
    (∀ (visit : α → β → β) (s : β) (fuel : Nat), (l i).length < fuel →
      listForEach σ visit (h i) fuel s = some ((l i).foldl (fun s x => visit x s) s)) ∧
    ∀ (fate : α → Fate ι) (visit : α → β → β) (s : β) (fuel : Nat),
      (∀ e ∈ l i, fate e ≠ .move i) → (l i).length < fuel →
      ∃ σ', listForEachSafe (fun e s => ((fate e).perform null h e s.1, visit e s.2)) (h i)
            fuel (σ, s) = some (σ', (l i).foldl (fun s x => visit x s) s) ∧
        Rings σ' h (fun j => if j = i then (l i).filter fun e => fate e = .stay
          else l j ++ (l i).filter fun e => fate e = .move j) ∧
        ∀ j, j ≠ i → (∀ e ∈ l i, fate e ≠ .move j) → ∀ x ∈ h j :: l j, σ' x = σ x := by
  refine ⟨fun n hn => ⟨edited_listAdd hr hn, edited_listAddTail hr hn⟩, fun e he =>
    ⟨edited_listDel null hr he, listDel_self, listIsLast_iff (hr.ring i) he⟩,
    listEmpty_iff (hr.ring i), fun visit s fuel hfuel => ?_, fun fate visit s fuel hfate hfuel => ?_⟩
  · rw [listForEach, next_head_eq_headD (hr.ring i)]
    have hring : IsRing σ (h i) ([] ++ l i) := hr.ring i
    exact forEachFrom_eq visit hring hfuel s
  · have hl : l i = [] ++ l i := rfl
    have hrun := forEachSafeFrom_eq null fate visit hr hl hfate hfuel s
    rw [← next_head_eq_headD (hr.ring i)] at hrun
    exact hrun

end Loops

/-! ### Two lists -/

/-- The heads of two lists. -/
def sampleHead (b : Bool) : Nat := if b then 10 else 0

/-- The first list has two entries, and the second one none. -/
def sampleHeap : Heap Nat := listAddTail (listAddTail (fun n => ⟨n, n⟩) 1 0) 2 0

theorem rings_sample : Rings sampleHeap sampleHead fun b => if b then [] else [1, 2] := by
  have h₀ : Rings (fun n => ⟨n, n⟩) sampleHead fun _ => [] := by
    refine ⟨fun b => ⟨⟨rfl, rfl⟩, by simp⟩, fun a b hab x hx hx' => hab ?_⟩
    rw [List.mem_singleton] at hx hx'
    have hinj : ∀ a b, sampleHead a = sampleHead b → a = b := by decide
    exact hinj a b (hx.symm.trans hx')
  have hfree : ∀ n, n ≠ 0 → n ≠ 10 → ∀ b, n ≠ sampleHead b := by
    rintro n h0 h10 (_ | _)
    · exact h0
    · exact h10
  have h₁ := (edited_listAddTail (n := 1) (i := false) h₀ fun b => by
    simpa using hfree 1 (by decide) (by decide) b).rings
  have h₂ := (edited_listAddTail (n := 2) (i := false) h₁ fun b => by
    cases b <;> simp [sampleHead]).rings
  have heq : Function.update (Function.update (fun _ : Bool => ([] : List Nat)) false [1]) false
      [1, 2] = fun b => if b then [] else [1, 2] := by
    funext b
    cases b <;> rfl
  rw [← heq]
  exact h₂

/-- Both entries are moved to the second list. -/
theorem list_operations_move : ∃ σ',
    listForEachSafe (fun e s => ((Fate.move true).perform 99 sampleHead e s.1, s.2 ++ [e])) 0 3
      (sampleHeap, []) = some (σ', [1, 2]) ∧
    Rings σ' sampleHead fun b => if b = false then [] else [1, 2] := by
  obtain ⟨-, -, -, -, hsafe⟩ := list_operations (β := List Nat) rings_sample 99 false
  obtain ⟨σ', hrun, hrings, -⟩ := hsafe (fun _ => .move true) (fun e s => s ++ [e]) [] 3
    (by simp) (by simp)
  refine ⟨σ', hrun, ?_⟩
  have heq : (fun b : Bool => if b = false then [] else [1, 2]) = fun j => if j = false then
      (if false then [] else [1, 2]).filter fun _ => (Fate.move true : Fate Bool) = .stay
      else (if j then [] else [1, 2]) ++
        (if false then [] else [1, 2]).filter fun _ => (Fate.move true : Fate Bool) = .move j := by
    funext b
    cases b <;> rfl
  rw [heq]
  exact hrings

end Zeos
