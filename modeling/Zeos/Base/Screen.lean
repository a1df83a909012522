import Zeos.Base.UserMain

/-!
# Clearing the screen, and keys

`clear_screen` (`io.c`), which `main` calls before the first process runs, and
`keyboard_routine` (`interrupt.c`), which shows the character of the key in the corner of the
screen. Both go through `printc_xy`, and so does nothing else that happens to the corner until
the cursor gets there.

Whatever keys are pressed and released, **the corner shows the last one, and nothing else is on
the screen** (`Zeos.Base.corner_shows_last_key`). A key whose number is past the end of
`char_map` has some character nevertheless, the one that is in memory there; if that is a
newline, the corner does not show it.
-/

namespace Zeos.Base

open ByteMem

/-! ### The functions -/

/-- `char_map`, letters that are not in ASCII being the last byte of their encoding. -/
def charMap : List Byte :=
  [0, 0, 49, 50, 51, 52, 53, 54, 55, 56, 57, 48, 39, 189, 0, 0,
   113, 119, 101, 114, 116, 121, 117, 105, 111, 112, 96, 43, 0, 0, 97, 115,
   100, 102, 103, 104, 106, 107, 108, 189, 0, 189, 0, 189, 122, 120, 99, 118,
   98, 110, 109, 44, 46, 45, 0, 42, 0, 0, 0, 0, 0, 0, 0, 0,
   0, 0, 0, 0, 0, 0, 0, 55, 56, 57, 45, 52, 53, 54, 43, 49,
   50, 51, 48, 0, 0, 0, 60, 0, 0, 0, 0, 0, 0, 0, 0, 0,
   0, 0]

/-- `char_map[code]`, `past` being what is in memory after the array. -/
def charAt (past : Nat → Byte) (code : Nat) : Byte :=
  (charMap[code]?).getD (past (code - charMap.length))

/-- The arguments of `printc_xy` for the corner. -/
def corner (c : Byte) : PrintAt := ⟨0, 0, c, Nat.zero_lt_succ 79, Nat.zero_lt_succ 24⟩

/-- The calls of `clear_screen`, column by column. -/
def clearCalls : List PrintAt :=
  (List.finRange numColumns).flatMap fun i : Fin numColumns =>
    (List.finRange numRows).map fun j : Fin numRows =>
    { mx := BitVec.ofNat 8 i
      my := BitVec.ofNat 8 j
      c := 32
      mx_lt := by
        have h : (i : Nat) < 80 := i.isLt
        rw [BitVec.toNat_ofNat, Nat.mod_eq_of_lt (by omega)]
        exact i.isLt
      my_lt := by
        have h : (j : Nat) < 25 := j.isLt
        rw [BitVec.toNat_ofNat, Nat.mod_eq_of_lt (by omega)]
        exact j.isLt }

section Functions

variable (con : Console)

/-- `clear_screen` -/
def clearScreen (t : Term) : Term := run con (clearCalls.map .printcXy) t

/-- `keyboard_routine`, the byte being the one that is read from the port. -/
def keyboardRoutine (past : Nat → Byte) (kbReg : Byte) (t : Term) : Term :=
  let isMake := kbReg &&& 0x80
  let code := kbReg &&& 0x7F
  if isMake = 0 then
    let c := charAt past code.toNat
    if c ≠ 0 then printcXy con (corner c) t else printcXy con (corner 67) t
  else t

/-- Keys are pressed and released. -/
def keys (past : Nat → Byte) (ks : List Byte) (t : Term) : Term :=
  ks.foldl (fun t k => keyboardRoutine con past k t) t

end Functions

/-! ### What a key shows -/

/-- The character that is printed for a byte from the keyboard, if one is. -/
def typed (past : Nat → Byte) (k : Byte) : Option Byte :=
  if k &&& 0x80 = 0 then
    let c := charAt past (k &&& 0x7F).toNat
    some (if c ≠ 0 then c else 67)
  else none

/-- The last character that can be seen: newlines cannot. -/
def lastSeen (past : Nat → Byte) (ks : List Byte) : Byte :=
  (((ks.filterMap (typed past)).filter (· ≠ 10)).getLast?).getD 32

/-- A screen with a character in the corner, and blank otherwise. -/
def blankBut (pos : Fin (numColumns * numRows)) (c : Byte) : Screen where
  pos := pos
  cells := fun i => if (i : Nat) = 0 then (c, 0x02) else (32, 0x02)

theorem blankBut_cells {pos i : Fin (numColumns * numRows)} {c : Byte} :
    (blankBut pos c).cells i = if (i : Nat) = 0 then (c, 0x02) else (32, 0x02) := rfl

variable {con : Console} {past : Nat → Byte} {t : Term} {T : Screen} {k : Byte}

/-- **A byte from the keyboard** prints at most one character, in the corner. -/
theorem keyboardRoutine_eq :
    keyboardRoutine con past k t =
      run con (((typed past k).toList.map corner).map .printcXy) t := by
  rw [keyboardRoutine, typed]
  by_cases hk : k &&& 0x80 = 0
  · rw [if_pos hk, if_pos hk]
    dsimp only
    split <;> rfl
  · rw [if_neg hk, if_neg hk]
    rfl

/-- Keys make the calls one after the other. -/
theorem keys_eq (ks : List Byte) :
    keys con past ks t =
      run con (((ks.filterMap (typed past)).map corner).map .printcXy) t := by
  induction ks generalizing t with
  | nil => rfl
  | cons k ks ih =>
    refine (ih (t := keyboardRoutine con past k t)).trans ?_
    rw [keyboardRoutine_eq]
    cases h : typed past k with
    | none => rw [List.filterMap_cons_none h]; rfl
    | some c => rw [List.filterMap_cons_some h]; rfl

/-! ### What is on the screen -/

/-- Calls of `printc_xy` that print no newline put characters into their cells. -/
theorem foldl_onTerminal (ps : List PrintAt) {c : Byte} (hc : c ≠ 10) (hps : ∀ p ∈ ps, p.c = c) :
    (ps.map Call.printcXy).foldl (fun T cl => cl.onTerminal T) T =
      (ps.map PrintAt.cell).foldl (fun T i => T.putAt i (c, 0x02)) T := by
  induction ps generalizing T with
  | nil => rfl
  | cons p ps ih =>
    rw [List.forall_mem_cons] at hps
    have hp : (Call.printcXy p).onTerminal T = T.putAt p.cell (c, 0x02) := by
      rw [Call.onTerminal, hps.1, if_neg hc]
    rw [List.map_cons, List.map_cons, List.foldl_cons, List.foldl_cons, hp]
    exact ih hps.2

theorem mem_clearCalls {p : PrintAt} : p ∈ clearCalls → p.c = 32 := by
  intro hp
  obtain ⟨i, -, hp⟩ := List.mem_flatMap.mp hp
  obtain ⟨j, -, rfl⟩ := List.mem_map.mp hp
  rfl

theorem length_clearCalls : clearCalls.length = 2000 := by
  simp only [clearCalls, List.length_flatMap, List.length_map, List.length_finRange,
    List.map_const', List.sum_replicate]
  rfl

/-- **The loops reach every cell.** -/
theorem cell_mem_clearCalls (i : Fin (numColumns * numRows)) : i ∈ clearCalls.map PrintAt.cell := by
  have hi : (i : Nat) < 2000 := i.isLt
  have hx : (i : Nat) % 80 < 80 := Nat.mod_lt _ (by decide)
  have hy : (i : Nat) / 80 < 25 := by omega
  refine List.mem_map.mpr ⟨_, List.mem_flatMap.mpr ⟨⟨i % 80, hx⟩, List.mem_finRange _,
    List.mem_map.mpr ⟨⟨i / 80, hy⟩, List.mem_finRange _, rfl⟩⟩, Fin.ext ?_⟩
  simp only [PrintAt.cell, Terminal.index, BitVec.toNat_ofNat, numColumns]
  omega

/-- **`clear_screen` leaves a blank screen**, with the cursor where it was. -/
theorem Shows.clearScreen (h : Shows con t.mem T) :
    Shows con (clearScreen con t).mem (blankBut T.pos 32) := by
  have hrun := h.run (clearCalls.map .printcXy)
  rw [foldl_onTerminal clearCalls (by decide) fun p hp => mem_clearCalls hp] at hrun
  obtain ⟨hpos, hcells, -⟩ := T.foldl_putAt (clearCalls.map PrintAt.cell) ((32, 0x02) : Byte × Byte)
  have heq :
      (clearCalls.map PrintAt.cell).foldl (fun T i => T.putAt i ((32, 0x02) : Byte × Byte)) T =
      blankBut T.pos 32 := by
    refine Terminal.ext hpos (funext fun i => ?_)
    rw [hcells i (cell_mem_clearCalls i), blankBut_cells, ite_self]
  rwa [heq] at hrun

/-- It sends a space for each cell. -/
theorem clearScreen_sent : (clearScreen con t).sent = t.sent ++ List.replicate 2000 32 := by
  have hspaces : clearCalls.map (·.c) = List.replicate 2000 32 := by
    refine List.eq_replicate_iff.mpr ⟨?_, fun c hc => ?_⟩
    · rw [List.length_map, length_clearCalls]
    · obtain ⟨p, hp, rfl⟩ := List.mem_map.mp hc
      exact mem_clearCalls hp
  rw [← hspaces]
  exact User.run_printcXy_sent clearCalls t

/-- A character in the corner. -/
theorem onTerminal_corner (pos : Fin (numColumns * numRows)) (c d : Byte) :
    (Call.printcXy (corner c)).onTerminal (blankBut pos d) =
      blankBut pos (if c = 10 then d else c) := by
  have hchar : (corner c).c = c := rfl
  rw [Call.onTerminal, hchar]
  by_cases hc : c = 10
  · rw [if_pos hc, if_pos hc]
  · rw [if_neg hc, if_neg hc]
    refine Terminal.ext rfl (funext fun i => ?_)
    have hcell : ((corner c).cell : Nat) = 0 := rfl
    show Function.update (blankBut pos d).cells (corner c).cell (c, 0x02) i =
      (blankBut pos c).cells i
    by_cases hi : i = (corner c).cell
    · rw [hi, Function.update_self, blankBut_cells, if_pos hcell]
    · have hi' : ¬(i : Nat) = 0 := fun h => hi (Fin.ext (h.trans hcell.symm))
      rw [Function.update_of_ne hi, blankBut_cells, blankBut_cells, if_neg hi', if_neg hi']

/-- Characters in the corner, one after the other: the last one that can be seen stays. -/
theorem foldl_corner (pos : Fin (numColumns * numRows)) (cs : List Byte) (d : Byte) :
    ((cs.map corner).map Call.printcXy).foldl (fun T cl => cl.onTerminal T) (blankBut pos d) =
      blankBut pos (((cs.filter (· ≠ 10)).getLast?).getD d) := by
  induction cs generalizing d with
  | nil => rfl
  | cons c cs ih =>
    rw [List.map_cons, List.map_cons, List.foldl_cons, onTerminal_corner, ih]
    by_cases hc : c = 10
    · rw [if_pos hc, List.filter_cons_of_neg (by simp [hc])]
    · rw [if_neg hc, List.filter_cons_of_pos (by simpa using hc), List.getLast?_cons,
        Option.getD_some]

/-- The keys of the array have characters that can be seen. -/
theorem charAt_ne_newline {code : Nat} (h : code < charMap.length) : charAt past code ≠ 10 := by
  have hall : (10 : Byte) ∉ charMap := by decide +kernel
  rw [charAt, List.getElem?_eq_getElem h, Option.getD_some]
  exact fun h10 => hall (h10 ▸ List.getElem_mem h)

/-- If only such keys are used, the last character is seen. -/
theorem lastSeen_eq {ks : List Byte} (h : ∀ k ∈ ks, (k &&& 0x7F).toNat < charMap.length) :
    lastSeen past ks = ((ks.filterMap (typed past)).getLast?).getD 32 := by
  have hall : ∀ c ∈ ks.filterMap (typed past), c ≠ 10 := by
    intro c hc
    obtain ⟨k, hk, hck⟩ := List.mem_filterMap.mp hc
    rw [typed] at hck
    split at hck
    · obtain rfl := Option.some.inj hck
      split
      · exact charAt_ne_newline (h k hk)
      · decide
    · exact absurd hck (by simp)
  rw [lastSeen, List.filter_eq_self.mpr fun c hc => decide_eq_true (hall c hc)]

/-- **The corner shows the last key**, and nothing else is on the screen: after `clear_screen`,
whatever is pressed and released, with the cursor where it was and the rest of memory as it
was. -/
theorem corner_shows_last_key (con : Console) (past : Nat → Byte) (ks : List Byte) (t : Term)
    (h : OnScreen con t.mem) :
    let t' := keys con past ks (clearScreen con t)
    (∃ h' : OnScreen con t'.mem,
        view con t'.mem h' = blankBut (view con t.mem h).pos (lastSeen past ks)) ∧
      t'.sent = t.sent ++ List.replicate 2000 32 ++ ks.filterMap (typed past) ∧
      (∀ a, OffScreen con a → t'.mem a = t.mem a) ∧
      ((∀ k ∈ ks, (k &&& 0x7F).toNat < charMap.length) →
        lastSeen past ks = ((ks.filterMap (typed past)).getLast?).getD 32) := by
  intro t'
  have hkeys : t' = run con (((ks.filterMap (typed past)).map corner).map .printcXy)
      (clearScreen con t) := keys_eq ks
  have hclear : Shows con (clearScreen con t).mem (blankBut (view con t.mem h).pos 32) :=
    (shows_view h).clearScreen
  have hshows : Shows con t'.mem (blankBut (view con t.mem h).pos (lastSeen past ks)) := by
    have hrun := hclear.run (((ks.filterMap (typed past)).map corner).map .printcXy)
    rw [foldl_corner] at hrun
    rw [hkeys]
    exact hrun
  refine ⟨⟨hshows.cursor, hshows.view_eq⟩, ?_, fun a ha => ?_, lastSeen_eq⟩
  · have hcorner : ((ks.filterMap (typed past)).map corner).map (·.c) =
        ks.filterMap (typed past) := by
      rw [List.map_map]
      exact List.map_id _
    rw [hkeys, User.run_printcXy_sent, hcorner, clearScreen_sent]
  · rw [hkeys, run_offScreen ha hclear.cursor, clearScreen]
    exact run_offScreen ha h _

/-- Two keys are pressed, the second one without a character, and the first one is released. -/
theorem corner_shows_last_key_sample :
    let t' := keys sampleConsole (fun _ => 0) [0x1e, 0x01, 0x9e]
      (clearScreen sampleConsole sampleServing.term)
    (∃ h' : OnScreen sampleConsole t'.mem, view sampleConsole t'.mem h' =
        blankBut (view sampleConsole sampleServing.term.mem sampleServing.cursor).pos 67) ∧
      t'.sent = List.replicate 2000 32 ++ [97, 67] := by
  obtain ⟨h1, h2, -, -⟩ := corner_shows_last_key sampleConsole (fun _ => 0) [0x1e, 0x01, 0x9e]
    sampleServing.term sampleServing.cursor
  exact ⟨h1, h2⟩

end Zeos.Base
