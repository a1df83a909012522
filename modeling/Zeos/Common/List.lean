import Zeos.Lib.CircList

/-!
# The kernel's list module

`list.c` is the same file in every kernel of the repository: intrusive circular
doubly linked lists, used for the queue of free PCBs, the ready queue, the queue
of blocked processes and – in one kernel – the children of a process. The
functions below are written pointer by pointer as the C code is, over an
arbitrary type of nodes with a distinguished `null`; a pointer to a node *is* the
node, so `NULL` is a node like any other and a write through it is a write to its
cell.

What each function does to a well-formed list is read off the edits of
`CircList`: `Zeos.isRing_listAddTail`, `Zeos.isRing_listAdd` and
`Zeos.isRing_listDel` for the list it is applied to,
`Zeos.isRing_listAddTail_other` and `Zeos.isRing_listDel_other` for every list it
is not.
-/

namespace Zeos

open CircList

variable {α : Type*} [DecidableEq α] (σ : Heap α)

/-! ### The functions of `list.c` -/

/-- `INIT_LIST_HEAD`: the empty list. -/
def initListHead (list : α) : Heap α := setPrev (setNext σ list list) list list

/-- `__list_add`: insert `new` between two known consecutive entries. -/
def rawListAdd (new prev next : α) : Heap α :=
  let σ := setPrev σ next new
  let σ := setNext σ new next
  let σ := setPrev σ new prev
  setNext σ prev new

/-- `list_add`: insert a new entry after the head. -/
def listAdd (new head : α) : Heap α := rawListAdd σ new head (σ head).next

/-- `list_add_tail`: insert a new entry before the head. -/
def listAddTail (new head : α) : Heap α := rawListAdd σ new (σ head).prev head

/-- `__list_del`: make the neighbours of an entry point at each other. -/
def rawListDel (prev next : α) : Heap α :=
  let σ := setPrev σ next prev
  setNext σ prev next

/-- `list_del`: unlink an entry and clear its links. -/
def listDel (null entry : α) : Heap α :=
  let σ := rawListDel σ (σ entry).prev (σ entry).next
  let σ := setNext σ entry null
  setPrev σ entry null

/-- `list_is_last`: whether an entry is the last one of a list. -/
def listIsLast (list head : α) : Bool := (σ list).next = head

/-- `list_empty`: whether a list has no entry. -/
def listEmpty (head : α) : Bool := (σ head).next = head

/-- `list_first`: the first entry of a list. -/
def listFirst (head : α) : α := (σ head).next

/-! ### What they do to the list they are applied to -/

variable {σ} {null h g n e : α} {l l₁ l₂ k : List α}

/-- An initialised head is an empty list. -/
theorem isRing_initListHead : IsRing (initListHead σ h) h [] :=
  ⟨by simp [Chain, initListHead], by simp⟩

theorem initListHead_of_ne {y : α} (hy : y ≠ h) : initListHead σ h y = σ y := by
  rw [initListHead, setPrev_of_ne hy, setNext_of_ne hy]

/-- **`list_add_tail` appends.** -/
theorem isRing_listAddTail (hr : IsRing σ h l) (hn : n ∉ h :: l) :
    IsRing (listAddTail σ n h) h (l ++ [n]) :=
  hr.linkLast hn

/-- **`list_add` prepends.** -/
theorem isRing_listAdd (hr : IsRing σ h l) (hn : n ∉ h :: l) :
    IsRing (listAdd σ n h) h (n :: l) :=
  hr.linkFirst hn

/-- Away from the entry it clears, `list_del` is the bypass of its neighbours. -/
theorem listDel_of_ne {y : α} (hy : y ≠ e) :
    listDel σ null e y = bypass σ (σ e).prev (σ e).next y := by
  rw [listDel, setPrev_of_ne hy, setNext_of_ne hy]
  rfl

/-- The entry has no links any more. -/
theorem listDel_self : listDel σ null e e = ⟨null, null⟩ := by
  simp [listDel, setNext, setPrev]

/-- **`list_del` removes exactly its entry.** -/
theorem isRing_listDel (hr : IsRing σ h (l₁ ++ e :: l₂)) :
    IsRing (listDel σ null e) h (l₁ ++ l₂) :=
  hr.unlink fun _ hy => listDel_of_ne hy

/-- Deleting the first entry leaves the rest. -/
theorem isRing_listDel_first (hr : IsRing σ h (e :: l)) : IsRing (listDel σ null e) h l := by
  have hr' : IsRing σ h ([] ++ e :: l) := hr
  exact isRing_listDel hr'

/-- **`list_empty` decides emptiness.** -/
theorem listEmpty_iff (hr : IsRing σ h l) : listEmpty σ h = true ↔ l = [] := by
  rw [listEmpty, decide_eq_true_iff]
  exact hr.next_eq_self_iff

/-- A list with an entry is not empty. -/
theorem listEmpty_cons (hr : IsRing σ h (e :: l)) : listEmpty σ h = false := by
  rw [← Bool.not_eq_true, listEmpty_iff hr]
  exact List.cons_ne_nil e l

omit [DecidableEq α] in
theorem listFirst_eq (hr : IsRing σ h (e :: l)) : listFirst σ h = e := hr.next_head

/-! ### What they do to the other lists -/

/-- `list_add_tail` writes the new entry and nodes of its list only. -/
theorem listAddTail_of_notMem {y : α} (hr : IsRing σ h l) (hn : y ≠ n) (hy : y ∉ h :: l) :
    listAddTail σ n h y = σ y := by
  refine linkBetween_of_ne hn ?_ ?_
  · rintro rfl
    exact hy hr.prev_head_mem
  · rintro rfl
    exact hy List.mem_cons_self

/-- `list_add` writes the new entry and nodes of its list only. -/
theorem listAdd_of_notMem {y : α} (hr : IsRing σ h l) (hn : y ≠ n) (hy : y ∉ h :: l) :
    listAdd σ n h y = σ y := by
  refine linkBetween_of_ne hn ?_ ?_
  · rintro rfl
    exact hy List.mem_cons_self
  · rintro rfl
    refine hy ?_
    have := hr.chain.next_mem
    simpa [or_comm] using this

/-- `list_del` writes nodes of the list of its entry only. -/
theorem listDel_of_notMem {y : α} (hr : IsRing σ h l) (he : e ∈ l) (hy : y ∉ h :: l) :
    listDel σ null e y = σ y := by
  obtain ⟨hp, hq⟩ := hr.neighbours_mem he
  have hye : y ≠ e := by
    rintro rfl
    exact hy (List.mem_cons_of_mem _ he)
  rw [listDel_of_ne hye, bypass_of_ne]
  · rintro rfl
    exact hy hp
  · rintro rfl
    exact hy hq

/-- Appending to one list leaves every list disjoint from it alone. -/
theorem isRing_listAddTail_other (hg : IsRing σ g k) (hr : IsRing σ h l)
    (hd : ∀ y ∈ g :: k, y ∉ h :: l) (hn : n ∉ g :: k) : IsRing (listAddTail σ n h) g k := by
  refine hg.congr fun y hy => listAddTail_of_notMem hr ?_ (hd y hy)
  rintro rfl
  exact hn hy

/-- Deleting from one list leaves every list disjoint from it alone. -/
theorem isRing_listDel_other (hg : IsRing σ g k) (hr : IsRing σ h l) (he : e ∈ l)
    (hd : ∀ y ∈ g :: k, y ∉ h :: l) : IsRing (listDel σ null e) g k :=
  hg.congr fun y hy => listDel_of_notMem hr he (hd y hy)

/-! ### An entry that is put on an empty list and taken off again -/

theorem isRing_listAddTail_nil (hr : IsRing σ h []) (hn : n ≠ h) :
    IsRing (listAddTail σ n h) h [n] :=
  isRing_listAddTail hr (by simpa using hn)

/-- The list is empty again. -/
theorem isRing_listDel_listAddTail (hr : IsRing σ h []) (hn : n ≠ h) :
    IsRing (listDel (listAddTail σ n h) null n) h [] :=
  isRing_listDel_first (isRing_listAddTail_nil hr hn)

/-- No other node has changed. -/
theorem listDel_listAddTail_of_ne {y : α} (hr : IsRing σ h []) (hn : n ≠ h) (hy : y ≠ h)
    (hyn : y ≠ n) : listDel (listAddTail σ n h) null n y = σ y := by
  rw [listDel_of_notMem (isRing_listAddTail_nil hr hn) (by simp) (by simp [hy, hyn]),
    listAddTail_of_notMem hr hyn (by simpa using hy)]

/-! ### An entry that is put on a second list -/

/-- If the two lists have the same last node, the entry is where it would be without the
first one. -/
theorem listAddTail_listAddTail {g y : α} (hgh : h ≠ g) (hnh : n ≠ h)
    (hprev : (σ g).prev = (σ h).prev) (hy : y ≠ g) :
    listAddTail (listAddTail σ n g) n h y = listAddTail σ n h y := by
  have hl : ∀ (σ : Heap α) (q : α), listAddTail σ n q = linkBetween σ n (σ q).prev q :=
    fun _ _ => rfl
  have hp : (linkBetween σ n (σ g).prev g h).prev = (σ h).prev := by
    rw [prev_linkBetween, if_neg hnh.symm, if_neg hgh]
  rw [hl, hl, hp, hl]
  ext
  · simp only [next_linkBetween, hprev]
    split
    · rfl
    · split <;> rfl
  · simp only [prev_linkBetween, if_neg hy]
    by_cases hyn : y = n
    · rw [if_pos hyn, if_pos hyn]
    · rw [if_neg hyn, if_neg hyn, if_neg hyn]

/-- The first list begins where it began. -/
theorem next_listAddTail_listAddTail {g : α} (hgh : h ≠ g) (hng : n ≠ g) (hnh : n ≠ h)
    (hprev : (σ g).prev = (σ h).prev) (hpg : (σ h).prev ≠ g) :
    (listAddTail (listAddTail σ n g) n h g).next = (σ g).next := by
  have hl : ∀ (σ : Heap α) (q : α), listAddTail σ n q = linkBetween σ n (σ q).prev q :=
    fun _ _ => rfl
  have hp : (linkBetween σ n (σ g).prev g h).prev = (σ h).prev := by
    rw [prev_linkBetween, if_neg hnh.symm, if_neg hgh]
  rw [hl, hl, hp, next_linkBetween, if_neg hpg.symm, if_neg hng.symm, next_linkBetween, hprev,
    if_neg hpg.symm, if_neg hng.symm]

end Zeos
