import Zeos.Lib.Gates
import Zeos.Common.Interrupt

/-!
# The interrupt table

`setIdt` (`interrupt.c`) of the kernel under `zeos/`. The table is filled by `set_handlers`,
which is part of a library, and then `setIdt` sets four gates in it: those of the clock, of the
keyboard and of page faults, which programs may not use, and the one of the system calls, which
they may.

`Zeos.Base.setIdt_delivers` says where the four interrupts lead: to the machines from which the
handlers start in `Zeos.clockHandler`, `Zeos.keyboardHandler` and `Zeos.Gate.entered`, with
interrupts disabled. A program that raises one of the other three by an instruction gets
nowhere, so that no program can pretend that time passes or a key is pressed.
-/

namespace Zeos.Base

open ByteMem X86

/-! ### The table -/

/-- The addresses of the handlers (`entry.S`). -/
structure IdtHandlers where
  /-- The address of `clock_handler`. -/
  clockHandler : Word
  /-- The address of `keyboard_handler`. -/
  keyboardHandler : Word
  /-- The address of `my_page_fault_handler`. -/
  myPageFaultHandler : Word
  /-- The address of `system_call_handler`. -/
  systemCallHandler : Word

/-- `IDT_ENTRIES` -/
def idtEntries : Nat := 256

/-- `lowWord` -/
def lowWord (address : Word) : BitVec 16 := (address &&& 0xFFFF).setWidth 16

/-- `highWord` -/
def highWord (address : Word) : BitVec 16 := ((address >>> 16) &&& 0xFFFF).setWidth 16

/-- The array `idt`. -/
abbrev Idt := Nat → GateDescriptor

/-- What `setInterruptHandler` and `setTrapHandler` have in common. -/
def setHandler (idt : Idt) (vector : Nat) (handler : Word) (maxAccessibleFromPL : Nat) : Idt :=
  let flags : BitVec 16 := BitVec.ofNat 16 (maxAccessibleFromPL <<< 13)
  Function.update idt vector
    { lowOffset := lowWord handler
      segmentSelector := kernelCS.setWidth 16
      flags := flags ||| 0x8E00
      highOffset := highWord handler }

/-- `setInterruptHandler` -/
def setInterruptHandler : Idt → Nat → Word → Nat → Idt := setHandler

/-- `setTrapHandler`, which makes an interrupt gate, too. -/
def setTrapHandler : Idt → Nat → Word → Nat → Idt := setHandler

/-- `setIdt`, with whatever `set_handlers` does to the array. -/
def setIdt (hd : IdtHandlers) (setHandlers : Idt → Idt) (idt : Idt) : IdtTable :=
  let idt := setHandlers idt
  let idt := setInterruptHandler idt 32 hd.clockHandler 0
  let idt := setInterruptHandler idt 33 hd.keyboardHandler 0
  let idt := setInterruptHandler idt 14 hd.myPageFaultHandler 0
  let idt := setTrapHandler idt 0x80 hd.systemCallHandler 3
  { gates := idt
    limit := BitVec.ofNat 16 (idtEntries * GateDescriptor.size - 1) }

/-- **The gate leads to the handler**, and is open to programs up to a privilege level. -/
structure LeadsTo (g : GateDescriptor) (handler : Word) (level : Nat) : Prop where
  /-- The address. -/
  offset : g.offset = handler
  /-- The segment is the code of the kernel. -/
  selector : g.selector = kernelCS
  /-- The gate is present. -/
  present : g.present = true
  /-- It disables interrupts. -/
  isInterrupt : g.isInterrupt = true
  /-- The privilege level. -/
  dpl : g.dpl = level

/-- The low half of an address, the mask changing nothing. -/
theorem setWidth_and_mask (a : Word) : (a &&& 0xFFFF).setWidth 16 = a.setWidth 16 := by
  rw [BitVec.setWidth_and]
  exact BitVec.and_allOnes

/-- The flags that are set for a privilege level. -/
theorem flags_spec {level : Nat} (h : level < 4) :
    let flags := BitVec.ofNat 16 (level <<< 13) ||| 0x8E00
    flags.getLsbD 15 = true ∧ (flags.toNat / 2 ^ 8 % 32 == 14) = true ∧
      flags.toNat / 2 ^ 13 % 4 = level := by
  have hlevel : level = 0 ∨ level = 1 ∨ level = 2 ∨ level = 3 := by omega
  rcases hlevel with rfl | rfl | rfl | rfl <;> decide

/-- Setting a gate makes it lead to the handler. -/
theorem leadsTo_setHandler {idt : Idt} {v level : Nat} {handler : Word} (h : level < 4) :
    LeadsTo (setHandler idt v handler level v) handler level := by
  obtain ⟨hpresent, hkind, hdpl⟩ := flags_spec h
  rw [setHandler, Function.update_self]
  constructor
  · exact GateDescriptor.offset_eq (setWidth_and_mask _) (setWidth_and_mask _)
  · exact show (kernelCS.setWidth 16).setWidth 32 = kernelCS by decide
  · exact hpresent
  · exact hkind
  · exact hdpl

/-- The other gates stay as they are. -/
theorem setHandler_of_ne {idt : Idt} {v w level : Nat} {handler : Word} (h : w ≠ v) :
    setHandler idt v handler level w = idt w := Function.update_of_ne h ..

section SetIdt

variable (hd : IdtHandlers) (setHandlers : Idt → Idt) (idt : Idt)

/-- **The four gates that `setIdt` sets**, whatever `set_handlers` has done. -/
theorem setIdt_gates :
    LeadsTo ((setIdt hd setHandlers idt).gates 32) hd.clockHandler 0 ∧
      LeadsTo ((setIdt hd setHandlers idt).gates 33) hd.keyboardHandler 0 ∧
      LeadsTo ((setIdt hd setHandlers idt).gates 14) hd.myPageFaultHandler 0 ∧
      LeadsTo ((setIdt hd setHandlers idt).gates 0x80) hd.systemCallHandler 3 := by
  simp only [setIdt, setInterruptHandler, setTrapHandler]
  refine ⟨?_, ?_, ?_, leadsTo_setHandler (by decide)⟩
  -- a gate is not set again once it has been set
  · rw [setHandler_of_ne (by decide), setHandler_of_ne (by decide), setHandler_of_ne (by decide)]
    exact leadsTo_setHandler (by decide)
  · rw [setHandler_of_ne (by decide), setHandler_of_ne (by decide)]
    exact leadsTo_setHandler (by decide)
  · rw [setHandler_of_ne (by decide)]
    exact leadsTo_setHandler (by decide)

/-- The gates that `setIdt` does not set are those of `set_handlers`. -/
theorem setIdt_others {v : Nat} (hv : v ∉ [14, 32, 33, 0x80]) :
    (setIdt hd setHandlers idt).gates v = setHandlers idt v := by
  simp only [List.mem_cons, List.not_mem_nil, or_false, not_or] at hv
  obtain ⟨h14, h32, h33, h80⟩ := hv
  simp only [setIdt, setInterruptHandler, setTrapHandler]
  rw [setHandler_of_ne h80, setHandler_of_ne h14, setHandler_of_ne h33, setHandler_of_ne h32]

/-- The limit covers every entry. -/
theorem setIdt_limit {v : Nat} (hv : v < idtEntries) :
    v * GateDescriptor.size + 7 ≤ (setIdt hd setHandlers idt).limit.toNat := by
  have hlimit : (setIdt hd setHandlers idt).limit.toNat = 2047 := rfl
  unfold idtEntries at hv
  unfold GateDescriptor.size
  omega

variable {hd setHandlers idt}

/-- **Who gets through a gate**: the processor always does, a program if its privilege level is
low enough. -/
theorem LeadsTo.gate_eq {v level : Nat} {a : Word}
    (h : LeadsTo ((setIdt hd setHandlers idt).gates v) a level) (hv : v < idtEntries) :
    (setIdt hd setHandlers idt).gate .processor v = some ((setIdt hd setHandlers idt).gates v) ∧
      ∀ cpl, (setIdt hd setHandlers idt).gate (.program cpl) v =
        if cpl ≤ level then some ((setIdt hd setHandlers idt).gates v) else none := by
  have hlimit := setIdt_limit hd setHandlers idt hv
  refine ⟨if_pos ⟨hlimit, h.present, h.isInterrupt, rfl⟩, fun cpl => ?_⟩
  by_cases hle : cpl ≤ level
  · rw [if_pos hle]
    refine if_pos ⟨hlimit, h.present, h.isInterrupt, decide_eq_true ?_⟩
    rw [h.dpl]
    exact hle
  · rw [if_neg hle]
    refine if_neg fun hall => hle ?_
    have := of_decide_eq_true hall.2.2.2
    rwa [h.dpl] at this

end SetIdt


/-! ### Delivery -/

/-- **The machine at the first instruction of a handler**, if the interrupt is delivered. -/
def delivered (t : IdtTable) (r : Raised) (v : Nat) (g : Ring) (esp0 : Word) (u : Machine) :
    Option Machine :=
  (t.gate r v).map fun gate => g.interrupt kernelDS esp0 gate.selector gate.offset u

section Delivered

variable (hd : IdtHandlers) (setHandlers : Idt → Idt) (idt : Idt) (g : Ring) (esp0 : Word)
  (u : Machine)

/-- **The interrupts of devices** lead to their handlers, from programs and from the kernel. -/
theorem setIdt_delivers_irq (l : Isr) (hclock : l.handler .clock = hd.clockHandler)
    (hkeyboard : l.handler .keyboard = hd.keyboardHandler) :
    delivered (setIdt hd setHandlers idt) .processor 32 g esp0 u =
        some (g.interrupt kernelDS esp0 kernelCS (l.handler .clock) u) ∧
      delivered (setIdt hd setHandlers idt) .processor 33 g esp0 u =
        some (g.interrupt kernelDS esp0 kernelCS (l.handler .keyboard) u) := by
  obtain ⟨h32, h33, -, -⟩ := setIdt_gates hd setHandlers idt
  constructor
  · rw [delivered, (h32.gate_eq (by decide)).1, Option.map_some, h32.selector, h32.offset, hclock]
  · rw [delivered, (h33.gate_eq (by decide)).1, Option.map_some, h33.selector, h33.offset,
      hkeyboard]

/-- **`int $0x80` in a program** leads to `system_call_handler`; the vectors of the clock, of the
keyboard and of page faults lead nowhere. -/
theorem setIdt_delivers_int {S : Type} (h : Zeos.Handlers S)
    (hcall : h.systemCallHandler = hd.systemCallHandler) :
    delivered (setIdt hd setHandlers idt) (.program 3) 0x80 .user esp0 u =
        some (Gate.int80.entered h esp0 u) ∧
      ∀ v ∈ [14, 32, 33],
        delivered (setIdt hd setHandlers idt) (.program 3) v .user esp0 u = none := by
  obtain ⟨h32, h33, h14, h80⟩ := setIdt_gates hd setHandlers idt
  constructor
  · rw [delivered, (h80.gate_eq (by decide)).2, if_pos (by decide), Option.map_some, h80.selector,
      h80.offset, ← hcall]
    rfl
  · intro v hv
    simp only [List.mem_cons, List.not_mem_nil, or_false] at hv
    rcases hv with rfl | rfl | rfl
    · rw [delivered, (h14.gate_eq (by decide)).2, if_neg (by decide), Option.map_none]
    · rw [delivered, (h32.gate_eq (by decide)).2, if_neg (by decide), Option.map_none]
    · rw [delivered, (h33.gate_eq (by decide)).2, if_neg (by decide), Option.map_none]

end Delivered

end Zeos.Base
