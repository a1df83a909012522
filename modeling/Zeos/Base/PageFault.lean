import Zeos.Lib.Positional
import Zeos.Base.Console
import Zeos.Base.Idt

/-!
# Page faults

The kernel under `zeos/` does not survive a page fault. It reports where it was and what the
processor says about it, and stops: `my_page_fault_handler` (`entry.S`),
`my_page_fault_routine` and `hex_convertor` (`interrupt.c`), and `printk` (`io.c`). The handler
saves no registers, since nothing is resumed. It finds the error code and the address of the
instruction on the stack, where the processor has left them, and with its only instruction
makes them the arguments of the routine.

**The report is true** (`Zeos.Base.page_fault_report`): whatever the page fault is, in a
program or in the kernel itself, what is sent to the console and what is on the screen in the
end are the address and the error code of this page fault, in eight hexadecimal digits each.
No interrupt prints anything in between, and no program can have a report of its own.

What raises page faults is not part of this: `main` leaves paging off
(`Zeos.Base.main_paging_off`), and the gate waits for a kernel that turns it on. The pages of
the kernel are mapped to themselves then, so that memory is read and written here as it is.
-/

namespace Zeos.Base

open ByteMem Loop Positional X86

/-! ### Hexadecimal numbers -/

/-- The character of a digit. -/
def hexChar (digit : Nat) : Byte :=
  if digit < 10 then BitVec.ofNat 8 (48 + digit) else BitVec.ofNat 8 (65 + digit - 10)

/-- A round of the loop of `hex_convertor`, on the address that is left. -/
def hexRound (s : Word) (i : Nat) (st : Word × Mem) : Word × Mem :=
  (st.1 / 16, Function.update st.2 (s + BitVec.ofNat 32 i) (hexChar (st.1 % 16).toNat))

/-- `hex_convertor`, with `i` going down from 7. -/
def hexConvertor (address s : Word) (m : Mem) : Mem :=
  (forLoop 8 (fun k => hexRound s (7 - k)) (address, Function.update m (s + 8) 0)).2

/-- **The text of a word**: its eight hexadecimal digits. -/
def Hex (w : Word) (cs : List Byte) : Prop := ∃ ds, IsFixed 16 8 w.toNat ds ∧ cs = ds.map hexChar

theorem Hex.length {w : Word} {cs : List Byte} (h : Hex w cs) : cs.length = 8 := by
  obtain ⟨ds, hds, rfl⟩ := h
  rw [List.length_map, hds.length]

/-- A digit has a character. -/
theorem hexChar_ne_zero {d : Nat} (h : d < 16) : hexChar d ≠ 0 := by
  intro h0
  have hnat := congrArg BitVec.toNat h0
  rw [hexChar] at hnat
  split at hnat <;> rw [BitVec.toNat_ofNat] at hnat <;> simp at hnat <;> omega

/-- **`hex_convertor` makes a string of the eight digits**, and writes nothing else. -/
theorem hexConvertor_spec (address s : Word) (m : Mem) :
    (∃ cs, Hex address cs ∧ CString (hexConvertor address s m) s cs) ∧
      ∀ x, (∀ i ≤ 8, x ≠ s + BitVec.ofNat 32 i) → hexConvertor address s m x = m x := by
  -- after `k` rounds the last `k` digits are a string
  have hloop := @forLoop_induction (Word × Mem) (fun k => hexRound s (7 - k)) 8
    (address, Function.update m (s + 8) 0)
    (fun k st => st.1.toNat = address.toNat / 16 ^ k ∧
      (∃ ds, IsFixed 16 k (address.toNat % 16 ^ k) ds ∧
        CString st.2 (s + BitVec.ofNat 32 (8 - k)) (ds.map hexChar)) ∧
      ∀ x, (∀ i ≤ 8, x ≠ s + BitVec.ofNat 32 i) → st.2 x = m x) ?_ ?_
  · obtain ⟨-, ⟨ds, hds, hstring⟩, hframe⟩ := hloop
    have h8 : s + BitVec.ofNat 32 (8 - 8) = s := BitVec.add_zero s
    have hmod : address.toNat % 16 ^ 8 = address.toNat := Nat.mod_eq_of_lt address.isLt
    rw [h8] at hstring
    rw [hmod] at hds
    exact ⟨⟨_, ⟨ds, hds, rfl⟩, hstring⟩, hframe⟩
  · refine ⟨by rw [pow_zero, Nat.div_one], ⟨[], isFixed_nil, ?_⟩, fun x hx => ?_⟩
    · exact CString.nil_iff.mpr (Function.update_self ..)
    · exact Function.update_of_ne (hx 8 (Nat.le_refl 8)) ..
  · rintro k ⟨a, m'⟩ hk ⟨ha, ⟨ds, hds, hstring⟩, hframe⟩
    have hdigit : (a % 16).toNat = address.toNat / 16 ^ k % 16 := by
      rw [BitVec.toNat_umod, ← ha]
      rfl
    have hat : s + BitVec.ofNat 32 (8 - (k + 1)) = s + BitVec.ofNat 32 (7 - k) := by
      rw [Nat.add_comm k 1, ← Nat.sub_sub]
    refine ⟨?_, ⟨_, hds.cons (by decide), ?_⟩, fun x hx => ?_⟩
    · change (a / 16).toNat = _
      rw [BitVec.toNat_udiv, ha, Nat.pow_succ, ← Nat.div_div_eq_div_mul]
      rfl
    · rw [List.map_cons, CString.cons_iff, hat, ← hdigit]
      refine ⟨Function.update_self .., hexChar_ne_zero ?_, ?_⟩
      · rw [hdigit]
        exact Nat.mod_lt _ (by decide)
      · -- the digits before it are further on
        have hnext : s + BitVec.ofNat 32 (7 - k) + 1 = s + BitVec.ofNat 32 (8 - k) := by bv_omega
        rw [hnext]
        refine hstring.congr fun i hi => Function.update_of_ne ?_ ..
        rw [List.length_map, hds.length] at hi
        bv_omega
    · exact (Function.update_of_ne (hx _ (by omega)) ..).trans (hframe x hx)

/-! ### Printing strings -/

section Printk

variable (con : Console)

/-- The character `i` of a string is the null character. -/
def atEnd (string : Word) : Nat × Term → Bool
  | (i, t) => t.mem (string + BitVec.ofNat 32 i) == 0

/-- The character `i` is printed. -/
def printNext (string : Word) : Nat × Term → Nat × Term
  | (i, t) => (i + 1, printc con (t.mem (string + BitVec.ofNat 32 i)) t)

/-- `printk`, for strings of at most `fuel` characters. -/
def printk (fuel : Nat) (string : Word) (t : Term) : Option Term :=
  (whileLoop (atEnd string) (printNext con string) fuel (0, t)).map Prod.snd

/-- **The kernel has printed `out`**, on a screen that was `T`, from a memory that is `m`
where printing does not change it. -/
structure Told (m : Mem) (T : Screen) (out : List Byte) (t : Term) : Prop extends
    Printed con m out [] t where
  /-- The screen. -/
  shows : Shows con t.mem (out.foldl (fun T c => (Call.printc c).onTerminal T) T)

end Printk

section Told

variable {con : Console} {m m' : Mem} {T : Screen} {out cs : List Byte} {t : Term} {a : Word}

theorem Told.printc (h : Told con m T out t) (c : Byte) :
    Told con m T (out ++ [c]) (printc con c t) := by
  refine ⟨h.toPrinted.printc, ?_⟩
  rw [List.foldl_append]
  exact h.shows.printc

/-- What is printed is only what is neither the cursor nor on the screen. -/
theorem Shows.congr (h : Shows con m T) (hm : ∀ a, ¬Quiet con a → m' a = m a) :
    Shows con m' T := by
  have hx : m' con.x = m con.x := hm _ fun hq => hq.1 rfl
  have hy : m' con.y = m con.y := hm _ fun hq => hq.2.1 rfl
  refine ⟨?_, ?_, fun i => ?_⟩
  · rw [OnScreen, hx, hy]
    exact h.cursor
  · rw [hx, hy]
    exact h.pos
  · have hi : (i : Nat) < 2000 := i.isLt
    obtain ⟨h1, h2⟩ := cellAddr_toNat i.isLt
    rw [h.cells i, cellOf, cellOf, hm _ fun hq => ?_, hm _ fun hq => ?_]
    · have := hq.2.2
      omega
    · have := hq.2.2
      omega

/-- Memory is changed elsewhere. -/
theorem Told.withMem (h : Told con m T out t) (hm : ∀ a, ¬Quiet con a → m' a = t.mem a) :
    Told con m' T out { t with mem := m' } := by
  have hshows := h.shows.congr hm
  exact ⟨⟨fun _ _ => rfl, hshows.cursor, h.sent, h.copies⟩, hshows⟩

/-- The loop of `printk`, from some character on. -/
theorem Told.printk_loop {fuel i : Nat} (h : Told con m T out t)
    (hs : CString m (a + BitVec.ofNat 32 i) cs)
    (hq : ∀ j ≤ cs.length, Quiet con (a + BitVec.ofNat 32 (i + j))) (hfuel : cs.length ≤ fuel) :
    ∃ st, whileLoop (atEnd a) (printNext con a) fuel (i, t) = some st ∧
      Told con m T (out ++ cs) st.2 := by
  induction cs generalizing i out t fuel with
  | nil =>
    refine ⟨(i, t), whileLoop_of_done ?_, by rw [List.append_nil]; exact h⟩
    rw [atEnd, beq_iff_eq]
    exact (h.mem _ (hq 0 (Nat.zero_le _))).trans (CString.nil_iff.mp hs)
  | cons c cs ih =>
    obtain ⟨hc, hne, hrest⟩ := CString.cons_iff.mp hs
    obtain ⟨fuel, rfl⟩ := Nat.exists_eq_add_one.mpr (Nat.lt_of_lt_of_le (Nat.zero_lt_succ _) hfuel)
    have hnext : a + BitVec.ofNat 32 i + 1 = a + BitVec.ofNat 32 (i + 1) := by
      rw [BitVec.ofNat_add, BitVec.add_assoc]
      rfl
    rw [hnext] at hrest
    have hread : t.mem (a + BitVec.ofNat 32 i) = c :=
      (h.mem _ (hq 0 (Nat.zero_le _))).trans hc
    obtain ⟨st, hst, htold⟩ := ih (h.printc c) hrest
      (fun j hj => by
        rw [Nat.add_assoc, Nat.add_comm 1 j]
        exact hq (j + 1) (Nat.succ_le_succ hj))
      (Nat.le_of_succ_le_succ hfuel)
    refine ⟨st, ?_, by rw [List.append_cons]; exact htold⟩
    have hgo : atEnd a (i, t) = false := by
      rw [atEnd, hread]
      exact beq_eq_false_iff_ne.mpr hne
    rw [whileLoop_succ hgo, printNext, hread]
    exact hst

/-- **`printk` prints the string** that it is given, if it is neither the cursor nor on the
screen. -/
theorem Told.printk (h : Told con m T out t) (fuel : Nat) (hs : CString m a cs)
    (hq : ∀ i ≤ cs.length, Quiet con (a + BitVec.ofNat 32 i)) (hfuel : cs.length ≤ fuel) :
    ∃ t', printk con fuel a t = some t' ∧ Told con m T (out ++ cs) t' := by
  obtain ⟨st, hst, htold⟩ := h.printk_loop (i := 0) (by rw [BitVec.add_zero]; exact hs)
    (fun j hj => by rw [Nat.zero_add]; exact hq j hj) hfuel
  refine ⟨st.2, ?_, htold⟩
  rw [Base.printk, hst]
  rfl

end Told

/-! ### The report -/

/-- The bytes of a string literal. -/
def chars (s : String) : List Byte := s.toList.map fun c => BitVec.ofNat 8 c.toNat

/-- The first line of the report. -/
def exceptionText : List Byte := chars "Process generates a PAGE FAULT exception\n"

/-- What is before the address. -/
def eipText : List Byte := chars "    EIP: 0x"

/-- What is before the error code. -/
def errorText : List Byte := chars "    Error Code: 0x"

/-- The addresses of the literals of `my_page_fault_routine`. -/
structure FaultLiterals where
  /-- The address of the first one. -/
  exception : Word
  /-- The address of the second one. -/
  eip : Word
  /-- The address of the third one. -/
  errorCode : Word

/-- The literals, with their addresses. -/
def FaultLiterals.all (l : FaultLiterals) : List (Word × List Byte) :=
  [(l.exception, exceptionText), (l.eip, eipText), (l.errorCode, errorText)]

/-- The address is one of a literal. -/
def FaultLiterals.At (l : FaultLiterals) (a : Word) : Prop :=
  ∃ p ∈ l.all, ∃ i ≤ p.2.length, a = p.1 + BitVec.ofNat 32 i

/-- **The compiled code for page faults.** -/
structure FaultRoutine (con : Console) extends FaultLiterals where
  /-- The address of `my_page_fault_routine`. -/
  address : Word
  /-- The address of the instruction after the call. -/
  afterCall : Word
  /-- The distance of `s` from the return address, below which it is. -/
  frame : Nat
  /-- There is room for `s`. -/
  le_frame : 16 ≤ frame
  /-- The frame fits in the stack. -/
  frame_le : frame ≤ 4096
  /-- The literals are neither the cursor nor on the screen. -/
  quiet : ∀ a, toFaultLiterals.At a → Quiet con a

section Routine

variable {con : Console} (r : FaultRoutine con)

/-- `my_page_fault_routine` up to the endless loop, the array `s` being at the address `s`. -/
def myPageFaultRoutine (fuel : Nat) (error eip s : Word) (t : Term) : Option Term := do
  let t := { t with mem := hexConvertor eip s t.mem }
  let t ← printk con fuel r.exception t
  let t ← printk con fuel r.eip t
  let t ← printk con fuel s t
  let t := printc con 10 t
  let t := { t with mem := hexConvertor error s t.mem }
  let t ← printk con fuel r.errorCode t
  let t ← printk con fuel s t
  some (printc con 10 t)

/-- `my_page_fault_handler` -/
def myPageFaultHandler : List Instr := [.call r.address r.afterCall]

/-- A page fault up to the first instruction of the routine, if it gets to the handler. -/
def pageFault (hd : IdtHandlers) (t : IdtTable) (g : Ring) (esp0 error : Word) (u : Machine) :
    Option Machine := do
  let gate ← t.gate .processor 14
  let m := g.exception kernelDS esp0 gate.selector gate.offset error u
  if m.eip = hd.myPageFaultHandler then some (exec (myPageFaultHandler r) m) else none

/-- The routine takes its arguments from the stack. -/
def reported (fuel : Nat) (m : Machine) : Option Term :=
  myPageFaultRoutine r fuel (load32 m.mem (m.reg .esp + 4)) (load32 m.mem (m.reg .esp + 8))
    (m.reg .esp - BitVec.ofNat 32 r.frame) ⟨m.mem, [], []⟩

/-- **The text of the report**, for an address and an error code. -/
def Report (eip error : Word) (out : List Byte) : Prop :=
  ∃ a b, Hex eip a ∧ Hex error b ∧
    out = exceptionText ++ eipText ++ a ++ [10] ++ errorText ++ b ++ [10]

/-- The literals are where they should be. -/
def FaultRoutine.Texts (m : Mem) : Prop := ∀ p ∈ r.all, CString m p.1 p.2

/-- What the report needs in memory: the literals, the cursor and the screen. -/
def FaultRoutine.Needs (a : Word) : Prop := ¬Quiet con a ∨ r.At a

variable {r} {m m' : Mem} {T : Screen} {out cs : List Byte} {t : Term} {s : Word} {fuel : Nat}

/-- Only the bytes of the literals matter. -/
theorem FaultRoutine.Texts.congr (h : r.Texts m) (hm : ∀ a, r.At a → m' a = m a) : r.Texts m' :=
  fun p hp => (h p hp).congr fun i hi => hm _ ⟨p, hp, i, hi, rfl⟩

/-- A literal is printed. -/
theorem Told.literal (h : Told con m T out t) (fuel : Nat) (htexts : r.Texts m) {a : Word}
    (hp : (a, cs) ∈ r.all) (hfuel : cs.length ≤ fuel) :
    ∃ t', Base.printk con fuel a t = some t' ∧ Told con m T (out ++ cs) t' :=
  h.printk fuel (htexts _ hp) (fun i hi => r.quiet _ ⟨_, hp, i, hi, rfl⟩) hfuel

/-- A word is converted, where nothing is that the report needs. -/
theorem Told.convert (h : Told con m T out t) (htexts : r.Texts m)
    (hs : ∀ i ≤ 8, ¬r.Needs (s + BitVec.ofNat 32 i)) (w : Word) :
    ∃ cs, Hex w cs ∧ CString (hexConvertor w s t.mem) s cs ∧ r.Texts (hexConvertor w s t.mem) ∧
      Told con (hexConvertor w s t.mem) T out { t with mem := hexConvertor w s t.mem } := by
  obtain ⟨⟨cs, hhex, hstring⟩, hframe⟩ := hexConvertor_spec w s t.mem
  have hneeds : ∀ a, r.Needs a → hexConvertor w s t.mem a = t.mem a := fun a ha =>
    hframe a fun i hi heq => hs i hi (heq ▸ ha)
  refine ⟨cs, hhex, hstring, htexts.congr fun a ha => ?_,
    h.withMem fun a ha => hneeds a (Or.inl ha)⟩
  exact (hneeds a (Or.inr ha)).trans (h.mem a (r.quiet a ha))

/-- **The routine prints the report**, if the array `s` is where nothing is that it needs. -/
theorem myPageFaultRoutine_spec (htexts : r.Texts m) (hcur : OnScreen con m)
    (hs : ∀ i ≤ 8, ¬r.Needs (s + BitVec.ofNat 32 i)) (hfuel : 41 ≤ fuel) (error eip : Word) :
    ∃ t out m', myPageFaultRoutine r fuel error eip s ⟨m, [], []⟩ = some t ∧ Report eip error out ∧
      Told con m' (view con m hcur) out t := by
  have h₀ : Told con m (view con m hcur) [] ⟨m, [], []⟩ :=
    ⟨⟨fun _ _ => rfl, hcur, rfl, rfl⟩, shows_view hcur⟩
  have hquiet : ∀ i ≤ 8, Quiet con (s + BitVec.ofNat 32 i) := fun i hi =>
    not_not.mp fun hq => hs i hi (Or.inl hq)
  obtain ⟨a, ha, hsa, htexts₁, h₁⟩ := h₀.convert htexts hs eip
  obtain ⟨t₂, e₂, h₂⟩ := h₁.literal fuel htexts₁ (List.mem_cons_self ..) hfuel
  obtain ⟨t₃, e₃, h₃⟩ := h₂.literal fuel htexts₁
    (List.mem_cons_of_mem _ (List.mem_cons_self ..))
    (show 11 ≤ fuel by omega)
  obtain ⟨t₄, e₄, h₄⟩ := h₃.printk fuel hsa (by rw [ha.length]; exact hquiet)
    (by rw [ha.length]; omega)
  -- the second word, with the first line of the report printed
  obtain ⟨b, hb, hsb, htexts₅, h₅⟩ := (h₄.printc 10).convert htexts₁ hs error
  obtain ⟨t₆, e₆, h₆⟩ := h₅.literal fuel htexts₅
    (List.mem_cons_of_mem _ (List.mem_cons_of_mem _ (List.mem_cons_self ..)))
    (show 18 ≤ fuel by omega)
  obtain ⟨t₇, e₇, h₇⟩ := h₆.printk fuel hsb (by rw [hb.length]; exact hquiet)
    (by rw [hb.length]; omega)
  refine ⟨_, _, _, ?_, ⟨a, b, ha, hb, rfl⟩, h₇.printc 10⟩
  rw [myPageFaultRoutine]
  simp only [e₂, e₃, e₄, e₆, e₇, Option.bind_eq_bind, Option.bind_some]

end Routine

/-! ### The way to the report -/

/-- Nothing that the report needs is in the part of the stack that is used. -/
def OffFaultStack {con : Console} (r : FaultRoutine con) (top : Word) : Prop :=
  ∀ a, r.Needs a → 28 + r.frame ≤ (a - (top - BitVec.ofNat 32 (28 + r.frame))).toNat

/-- **The machine at the first instruction of the routine.** -/
structure Faulted {con : Console} (r : FaultRoutine con) (top error : Word) (u m : Machine) : Prop
    where
  /-- The routine begins. -/
  eip : m.eip = r.address
  /-- Interrupts are disabled. -/
  eflags : m.eflags &&& interruptFlag = 0
  /-- The first argument. -/
  arg₁ : load32 m.mem (m.reg .esp + 4) = error
  /-- The second argument. -/
  arg₂ : load32 m.mem (m.reg .esp + 8) = u.eip
  /-- The array `s` is not among the bytes that the report needs. -/
  local_s : ∀ i ≤ 8, ¬r.Needs (m.reg .esp - BitVec.ofNat 32 r.frame + BitVec.ofNat 32 i)
  /-- Those are as they were. -/
  mem : ∀ a, r.Needs a → m.mem a = u.mem a

section Fault

variable {con : Console} {r : FaultRoutine con} {g : Ring} {esp0 : Word} {u : Machine}

/-- **Every page fault gets to the routine.** -/
theorem pageFault_spec (hd : IdtHandlers) (setHandlers : Idt → Idt) (idt : Idt) (error : Word)
    (hstack : OffFaultStack r (g.stack esp0 u)) :
    ∃ m, pageFault r hd (setIdt hd setHandlers idt) g esp0 error u = some m ∧
      Faulted r (g.stack esp0 u) error u m := by
  set gate := (setIdt hd setHandlers idt).gates 14
  set top := g.stack esp0 u
  obtain ⟨-, -, hlead, -⟩ := setIdt_gates hd setHandlers idt
  have hp := pushed_exception g kernelDS esp0 gate.selector gate.offset error u
  obtain ⟨heip, hflags⟩ := exception_eip g kernelDS esp0 gate.selector gate.offset error u
  set m₁ := g.exception kernelDS esp0 gate.selector gate.offset error u
  have hlen := g.length_frame u
  have hcall : Pushed u.mem top (r.afterCall :: error :: g.frame u)
      (exec (myPageFaultHandler r) m₁) := by
    have := hp.push r.afterCall (by rw [List.length_cons]; omega)
    exact this.congr rfl rfl
  set m := exec (myPageFaultHandler r) m₁
  obtain ⟨ws, hws, -⟩ := g.frame_eq_cons u
  have hle := r.le_frame
  have hle' := r.frame_le
  refine ⟨m, ?_, rfl, hflags, hcall.words.2.1, ?_, fun i hi hneeds => ?_, fun a ha => ?_⟩
  · rw [pageFault, (hlead.gate_eq (by decide)).1]
    exact if_pos (heip.trans hlead.offset)
  · have hw := hcall.words.2.2
    rw [hws] at hw
    have h8 : m.reg .esp + 4 + 4 = m.reg .esp + 8 := by bv_omega
    rw [← h8]
    exact hw.1
  · have hoff := hstack _ hneeds
    rw [hcall.esp, List.length_cons, List.length_cons] at hoff
    bv_omega
  · have hused : 4 * (r.afterCall :: error :: g.frame u).length ≤ 28 + r.frame := by
      rw [List.length_cons, List.length_cons]
      omega
    exact hcall.below.mono hused a (hstack a ha)

/-- **The report of a page fault is true**, and it is the last thing that is printed: its
address and error code are those of the page fault, it is sent to the console and is on the
screen, and interrupts are disabled from the page fault on. No program gets to the report by
an instruction. -/
theorem page_fault_report (con : Console) (r : FaultRoutine con) (hd : IdtHandlers)
    (setHandlers : Idt → Idt) (idt : Idt) (g : Ring) (esp0 error : Word) (u : Machine) {fuel : Nat}
    (hfuel : 41 ≤ fuel) (htexts : r.Texts u.mem) (hcur : OnScreen con u.mem)
    (hstack : OffFaultStack r (g.stack esp0 u)) :
    (∃ m t, pageFault r hd (setIdt hd setHandlers idt) g esp0 error u = some m ∧
      m.eip = r.address ∧ m.eflags &&& interruptFlag = 0 ∧ reported r fuel m = some t ∧
      Report u.eip error t.sent ∧ ∃ h : OnScreen con t.mem, view con t.mem h =
        t.sent.foldl (fun T c => (Call.printc c).onTerminal T) (view con u.mem hcur)) ∧
      (setIdt hd setHandlers idt).gate (.program 3) 14 = none := by
  obtain ⟨-, -, hlead, -⟩ := setIdt_gates hd setHandlers idt
  refine ⟨?_, ((hlead.gate_eq (by decide)).2 3).trans (if_neg (by decide))⟩
  obtain ⟨m, hm, hf⟩ := pageFault_spec hd setHandlers idt error hstack
  have hshows : Shows con m.mem (view con u.mem hcur) :=
    (shows_view hcur).congr fun a ha => hf.mem a (Or.inl ha)
  have htexts' : r.Texts m.mem := htexts.congr fun a ha => hf.mem a (Or.inr ha)
  obtain ⟨t, out, m', ht, hreport, htold⟩ :=
    myPageFaultRoutine_spec htexts' hshows.cursor hf.local_s hfuel error u.eip
  rw [hshows.view_eq] at htold
  refine ⟨m, t, hm, hf.eip, hf.eflags, ?_, ?_, htold.cursor, ?_⟩
  · rw [reported, hf.arg₁, hf.arg₂]
    exact ht
  · rw [htold.sent]
    exact hreport
  · rw [htold.sent]
    exact htold.shows.view_eq

end Fault

/-- Possible addresses of the handlers. -/
def sampleIdtHandlers : IdtHandlers where
  clockHandler := 0x11200
  keyboardHandler := 0x11300
  myPageFaultHandler := 0x11400
  systemCallHandler := 0x11000

/-- Possible addresses of the literals. -/
def sampleLiterals : FaultLiterals := ⟨0x12200, 0x12300, 0x12400⟩

/-- All of them are in one page of the kernel image. -/
theorem sampleLiterals_at {a : Word} (h : sampleLiterals.At a) :
    0x12200 ≤ a.toNat ∧ a.toNat < 0x12500 := by
  obtain ⟨p, hp, i, hi, rfl⟩ := h
  simp only [FaultLiterals.all, sampleLiterals, List.mem_cons, List.not_mem_nil, or_false] at hp
  rcases hp with rfl | rfl | rfl
  · have hi' : i ≤ 41 := hi
    bv_omega
  · have hi' : i ≤ 11 := hi
    bv_omega
  · have hi' : i ≤ 18 := hi
    bv_omega

/-- A possible place of the routine. -/
def sampleFaultRoutine : FaultRoutine sampleConsole where
  toFaultLiterals := sampleLiterals
  address := 0x11800
  afterCall := 0x11405
  frame := 40
  le_frame := by decide
  frame_le := by decide
  quiet := fun a ha => by
    have hat := sampleLiterals_at ha
    refine ⟨?_, ?_, Or.inl (by unfold screen; omega)⟩ <;> rintro rfl <;> revert hat <;> decide

/-- A memory with the literals. -/
def sampleTexts : Mem :=
  fill (fill (fill (fun _ => 0) 0x12200 41 fun i => exceptionText.getD i 0) 0x12300 11
    fun i => eipText.getD i 0) 0x12400 18 fun i => errorText.getD i 0

/-- A program that jumps to an address without a page. -/
def faultingProgram : Machine where
  reg := fun r => if r = .esp then 0x11bf00 else 0
  seg := fun s => if s = .cs then userCS else userDS
  eip := 0xdeadbeef
  eflags := 0x202
  mem := sampleTexts

/-- The literals are there. -/
theorem texts_sample : sampleFaultRoutine.Texts faultingProgram.mem := by
  intro p hp
  change p ∈ [((0x12200 : Word), exceptionText), (0x12300, eipText), (0x12400, errorText)] at hp
  simp only [List.mem_cons, List.not_mem_nil, or_false] at hp
  rcases hp with rfl | rfl | rfl
  all_goals exact ⟨by decide +kernel, by decide +kernel, by decide +kernel⟩

/-- The program faults with the error code of an access to a page that is not present. -/
theorem page_fault_report_jump :
    (∃ m t, pageFault sampleFaultRoutine sampleIdtHandlers
        (setIdt sampleIdtHandlers id fun _ => ⟨0, 0, 0, 0⟩) .user 0x20000 4 faultingProgram =
          some m ∧
      m.eip = 0x11800 ∧ m.eflags &&& interruptFlag = 0 ∧ reported sampleFaultRoutine 41 m = some t ∧
      Report 0xdeadbeef 4 t.sent ∧ ∃ h : OnScreen sampleConsole t.mem,
        view sampleConsole t.mem h = t.sent.foldl (fun T c => (Call.printc c).onTerminal T)
          (view sampleConsole sampleTexts (by unfold OnScreen; decide +kernel))) ∧
      (setIdt sampleIdtHandlers id fun _ => ⟨0, 0, 0, 0⟩).gate (.program 3) 14 = none :=
  page_fault_report sampleConsole sampleFaultRoutine sampleIdtHandlers id _ .user 0x20000 4
    faultingProgram (Nat.le_refl 41) texts_sample (by unfold OnScreen; decide +kernel)
    fun a ha => by
      have hstack : sampleFaultRoutine.frame = 40 := rfl
      by_contra hlt
      have htop : Ring.user.stack 0x20000 faultingProgram = 0x20000 := rfl
      rw [hstack, htop] at hlt
      have hrange : 0x1ffbc ≤ a.toNat ∧ a.toNat < 0x20000 := by bv_omega
      rcases ha with ha | ha
      · refine ha ⟨?_, ?_, Or.inl (by unfold screen; omega)⟩ <;> rintro rfl <;> revert hrange <;>
          decide
      · have := sampleLiterals_at ha
        omega

end Zeos.Base
