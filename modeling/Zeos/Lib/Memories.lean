import Mathlib.Logic.Function.Basic

/-!
# Private memories in one store

Owners – processes, or whatever else has memory – have pages, and every page is kept in some
frame of a common store. The store *represents* what the owners have if no frame keeps two
pages and each frame holds the contents of its page (`Memories.Represents`). That is all an
owner can tell about it: as long as the store represents their memories, owners may as well
have memories of their own.

The rules say which changes of the store amount to which changes of the memories: writing a
cell of a frame (`Memories.Represents.write`), filling the frames of a new owner with copies
of those of another one (`Memories.Represents.copy`), and whatever is done to frames that
nobody has (`Memories.Represents.congr`).
-/

namespace Memories

variable {P I F V : Type*}

/-- What the owners have: the cells of each page of each owner. -/
abbrev Contents (P I V : Type*) := P → I → Nat → V

namespace Contents

variable [DecidableEq P] {own : Contents P I V} {p q r : P} {i j : I} {o o' : Nat} {v : V}

/-- `q` gets a copy of what `p` has. -/
def copy (own : Contents P I V) (p q : P) : Contents P I V := Function.update own q (own p)

theorem copy_self : own.copy p q q = own p := Function.update_self _ _ _

theorem copy_of_ne (h : r ≠ q) : own.copy p q r = own r := Function.update_of_ne h _ _

variable [DecidableEq I]

/-- An owner writes a cell. -/
def write (own : Contents P I V) (p : P) (i : I) (o : Nat) (v : V) : Contents P I V :=
  Function.update own p (Function.update (own p) i (Function.update (own p i) o v))

theorem write_apply : own.write p i o v q j o' =
    if q = p ∧ j = i ∧ o' = o then v else own q j o' := by
  unfold write
  by_cases hq : q = p
  · subst hq
    rw [Function.update_self]
    by_cases hj : j = i
    · subst hj
      rw [Function.update_self, Function.update_apply]
      simp
    · rw [Function.update_of_ne hj, if_neg (by simp [hj])]
  · rw [Function.update_of_ne hq, if_neg (by simp [hq])]

/-- **What an owner writes does not concern another one.** -/
theorem write_of_ne (h : q ≠ p) : own.write p i o v q = own q := Function.update_of_ne h _ _

end Contents

variable {has has' : P → I → Prop} {frame frame' : P → I → F} {store store' : F → Nat → V}
  {own : Contents P I V} {p q : P} {i : I} {o n : Nat} {v : V}

/-- **The store represents the memories** of the owners, whose pages have `n` cells. -/
structure Represents (has : P → I → Prop) (frame : P → I → F) (n : Nat) (store : F → Nat → V)
    (own : Contents P I V) : Prop where
  /-- No frame keeps two pages. -/
  inj : ∀ p q i j, has p i → has q j → frame p i = frame q j → p = q ∧ i = j
  /-- Every frame holds the contents of its page. -/
  eq : ∀ p i, has p i → ∀ o < n, store (frame p i) o = own p i o

/-- Nothing else counts. -/
theorem Represents.congr (h : Represents has frame n store own)
    (hhas : ∀ p i, has' p i → has p i ∧ frame' p i = frame p i)
    (hstore : ∀ p i, has' p i → ∀ o < n, store' (frame p i) o = store (frame p i) o) :
    Represents has' frame' n store' own where
  inj := fun p q i j hp hq heq => by
    rw [(hhas p i hp).2, (hhas q j hq).2] at heq
    exact h.inj p q i j (hhas p i hp).1 (hhas q j hq).1 heq
  eq := fun p i hp o ho => by
    rw [(hhas p i hp).2, hstore p i hp o ho]
    exact h.eq p i (hhas p i hp).1 o ho

variable [DecidableEq P]

/-- **Filling the frames of a new owner** with copies of the frames of another. -/
theorem Represents.copy (h : Represents has frame n store own) (hq : ∀ i, ¬has q i)
    (hhas : ∀ r i, has' r i → has r i ∨ r = q ∧ has p i)
    (hframe : ∀ r i, r ≠ q → has' r i → frame' r i = frame r i)
    (hinj : ∀ i j, has' q i → has' q j → frame' q i = frame' q j → i = j)
    (hnew : ∀ i, has' q i → ∀ r j, has r j → frame' q i ≠ frame r j)
    (hold : ∀ r i, has r i → ∀ o < n, store' (frame r i) o = store (frame r i) o)
    (hcopy : ∀ i, has' q i → ∀ o < n, store' (frame' q i) o = store (frame p i) o) :
    Represents has' frame' n store' (own.copy p q) where
  inj := fun r s i j hr hs heq => by
    by_cases hrq : r = q <;> by_cases hsq : s = q
    · subst hrq hsq
      exact ⟨rfl, hinj i j hr hs heq⟩
    · subst hrq
      have hs' : has s j := (hhas s j hs).resolve_right fun h => hsq h.1
      rw [hframe s j hsq hs] at heq
      exact absurd heq (hnew i hr s j hs')
    · subst hsq
      have hr' : has r i := (hhas r i hr).resolve_right fun h => hrq h.1
      rw [hframe r i hrq hr] at heq
      exact absurd heq.symm (hnew j hs r i hr')
    · rw [hframe r i hrq hr, hframe s j hsq hs] at heq
      exact h.inj r s i j ((hhas r i hr).resolve_right fun h => hrq h.1)
        ((hhas s j hs).resolve_right fun h => hsq h.1) heq
  eq := fun r i hr o ho => by
    by_cases hrq : r = q
    · subst hrq
      have hp : has p i := ((hhas r i hr).resolve_left (hq i)).2
      rw [Contents.copy_self, hcopy i hr o ho, h.eq p i hp o ho]
    · have hr' : has r i := (hhas r i hr).resolve_right fun h => hrq h.1
      rw [Contents.copy_of_ne hrq, hframe r i hrq hr, hold r i hr' o ho, h.eq r i hr' o ho]

variable [DecidableEq I] [DecidableEq F]

/-- **Writing a cell of a frame** writes the cell of the page it keeps. -/
theorem Represents.write (h : Represents has frame n store own) (hp : has p i) :
    Represents has frame n
      (Function.update store (frame p i) (Function.update (store (frame p i)) o v))
      (own.write p i o v) where
  inj := h.inj
  eq := fun q j hq o' ho' => by
    rw [Contents.write_apply]
    by_cases hf : frame q j = frame p i
    · obtain ⟨rfl, rfl⟩ := h.inj q p j i hq hp hf
      rw [Function.update_self, Function.update_apply]
      by_cases ho : o' = o
      · rw [if_pos ho, if_pos ⟨rfl, rfl, ho⟩]
      · rw [if_neg ho, if_neg (by simp [ho]), h.eq q j hq o' ho']
    · rw [Function.update_of_ne hf, if_neg, h.eq q j hq o' ho']
      rintro ⟨rfl, rfl, -⟩
      exact hf rfl

end Memories
