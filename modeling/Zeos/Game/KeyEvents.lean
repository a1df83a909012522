import Zeos.Lib.RingBuffer
import Zeos.Game.Boot

/-!
# The key events of a run

The keyboard interrupt produces key events and the clock interrupt consumes them, in
any interleaving, and the two indices of `k_buffer` run round it separately. What the
buffer is for is said by the history of a run: the bytes whose events were stored
(`Zeos.Game.accepted`) and the events that were taken out (`Zeos.Game.taken`).

**The buffer is a queue of bounded size** (`Zeos.Game.key_events_fifo`): the events taken,
followed by those still in it, are the events accepted, in the order of their arrival, and
an event is dropped exactly when all slots but one are full.

The key of an event ends up as an index into `char_map`, which has an entry for some of
the keys a keyboard can send only. **The lookups stay inside the table as long as no key
beyond its end is pressed** (`Zeos.Game.key_indices`).
-/

namespace Zeos.Game

open ByteMem

variable {k k' k₀ : Kernel} {kb : Keyboard} {img : Image} {op : Op} {port : Byte}

/-! ### The buffer as a queue -/

/-- The event that a byte from the keyboard stands for. -/
def keyEvent (port : Byte) : Event := { pressed := !port.getLsbD 7, scancode := port &&& 0x7F }

/-- `k_buffer`, as a ring buffer. -/
def KeyboardBuffer.ring (b : KeyboardBuffer) : RingBuffer Event :=
  { slots := b.events, head := b.head, tail := b.tail }

/-- The events between `tail` and `head`, the oldest one first. -/
def KeyboardBuffer.pending (b : KeyboardBuffer) : List Event := b.ring.contents kbBufferSize

/-- The indices of `k_buffer` are in range. -/
def Indexed (kb : Keyboard) : Prop := kb.kBuffer.ring.Wf kbBufferSize

/-- Whether `keyboard_routine` stores the event it gets. -/
def Keyboard.accepts (kb : Keyboard) (port : Byte) : Bool :=
  (kb.keyboardRoutine port).kBuffer.head != kb.kBuffer.head

/-- Whether `clock_routine` takes an event. -/
def Keyboard.takes (kb : Keyboard) (beyond : Nat → Byte) : Bool :=
  (kb.consume beyond).kBuffer.tail != kb.kBuffer.tail

/-- A key code without its highest bit is itself, if the bit is clear. -/
theorem scancode_eq : (if port.getLsbD 7 then port &&& 0x7F else port) = port &&& 0x7F := by
  split
  · rfl
  · next hbit =>
    have hlow : ∀ i < 8, i ≠ 7 → BitVec.getLsbD (0x7F : Byte) i = true := by decide
    refine BitVec.eq_of_getLsbD_eq fun i hi => ?_
    rw [BitVec.getLsbD_and]
    by_cases h7 : i = 7
    · subst h7
      rw [Bool.not_eq_true] at hbit
      rw [hbit, Bool.false_and]
    · rw [hlow i hi h7, Bool.and_true]

/-- `keyboard_routine` on a full buffer. -/
theorem keyboardRoutine_of_full (h : (kb.kBuffer.head + 1) % kbBufferSize = kb.kBuffer.tail) :
    kb.keyboardRoutine port = kb := by
  simp only [Keyboard.keyboardRoutine, ne_eq, h, not_true_eq_false, if_false]

/-- `keyboard_routine` on a buffer that is not full. -/
theorem keyboardRoutine_of_not_full
    (h : (kb.kBuffer.head + 1) % kbBufferSize ≠ kb.kBuffer.tail) :
    (kb.keyboardRoutine port).kBuffer.ring = kb.kBuffer.ring.push kbBufferSize (keyEvent port) := by
  simp only [Keyboard.keyboardRoutine, ne_eq, h, not_false_eq_true, if_true, scancode_eq]
  rfl

/-- Printing does not touch the buffer. -/
theorem consume_kBuffer (beyond : Nat → Byte) : (kb.consume beyond).kBuffer =
    if kb.kBuffer.head ≠ kb.kBuffer.tail then
      { kb.kBuffer with tail := (kb.kBuffer.tail + 1) % kbBufferSize }
    else kb.kBuffer := by
  unfold Keyboard.consume
  split
  · dsimp only
    split
    · split <;> rfl
    · rfl
  · rfl

/-- `clock_routine` on an empty buffer. -/
theorem consume_of_empty (beyond : Nat → Byte) (h : kb.kBuffer.head = kb.kBuffer.tail) :
    (kb.consume beyond).kBuffer = kb.kBuffer := by
  rw [consume_kBuffer, if_neg (not_not.mpr h)]

/-- `clock_routine` on a buffer that is not empty. -/
theorem consume_of_not_empty (beyond : Nat → Byte) (h : kb.kBuffer.head ≠ kb.kBuffer.tail) :
    (kb.consume beyond).kBuffer.ring = kb.kBuffer.ring.pop kbBufferSize := by
  rw [consume_kBuffer, if_pos h]
  rfl

/-- The next index is another one. -/
theorem next_ne (i : Nat) : (i + 1) % kbBufferSize ≠ i := by
  unfold kbBufferSize
  omega

/-- **An event is stored unless the buffer is full.** -/
theorem accepts_iff : kb.accepts port = true ↔
    (kb.kBuffer.head + 1) % kbBufferSize ≠ kb.kBuffer.tail := by
  rw [Keyboard.accepts, bne_iff_ne]
  by_cases hfull : (kb.kBuffer.head + 1) % kbBufferSize = kb.kBuffer.tail
  · rw [keyboardRoutine_of_full hfull]
    simp [hfull]
  · have hhead : (kb.keyboardRoutine port).kBuffer.head = (kb.kBuffer.head + 1) % kbBufferSize :=
      congrArg RingBuffer.head (keyboardRoutine_of_not_full hfull)
    rw [hhead]
    exact iff_of_true (next_ne _) hfull

/-- **An event is taken unless the buffer is empty.** -/
theorem takes_iff (beyond : Nat → Byte) : kb.takes beyond = true ↔
    kb.kBuffer.head ≠ kb.kBuffer.tail := by
  rw [Keyboard.takes, bne_iff_ne]
  by_cases hempty : kb.kBuffer.head = kb.kBuffer.tail
  · rw [consume_of_empty beyond hempty]
    simp [hempty]
  · have htail : (kb.consume beyond).kBuffer.tail = (kb.kBuffer.tail + 1) % kbBufferSize :=
      congrArg RingBuffer.tail (consume_of_not_empty beyond hempty)
    rw [htail]
    exact iff_of_true (next_ne _) hempty

/-! ### One step -/

/-- The keyboard after an operation. -/
def keyboardAfter (img : Image) (kb : Keyboard) : Op → Keyboard
  | .clock _ => kb.consume img.afterCharMap
  | .keyboard port => kb.keyboardRoutine port
  | _ => kb

theorem leave_keyboard : k.leave.keyboard = k.keyboard := by
  unfold Kernel.leave
  split <;> rfl

theorem schedNextRr_keyboard {c : SwitchCtx} : (k.schedNextRr img c).keyboard = k.keyboard := by
  have hpick : k.pickNext.2.keyboard = k.keyboard := by
    unfold Kernel.pickNext
    split <;> rfl
  rw [← hpick]
  rfl

theorem updateProcessStateRr_keyboard {t : Task} {q : Option Node} :
    (k.updateProcessStateRr t q).keyboard = k.keyboard := by
  have hleave : (k.leaveQueue t).keyboard = k.keyboard := by
    unfold Kernel.leaveQueue
    split <;> rfl
  rw [← hleave]
  unfold Kernel.updateProcessStateRr
  cases q with
  | none => rfl
  | some q =>
    dsimp only
    split <;> rfl

theorem schedule_keyboard {c : SwitchCtx} : (k.schedule img c).keyboard = k.keyboard := by
  have hneeds : k.updateSchedDataRr.needsSchedRr.2.keyboard = k.keyboard := by
    unfold Kernel.needsSchedRr
    split
    · rfl
    · split <;> rfl
  rw [← hneeds]
  unfold Kernel.schedule
  dsimp only
  split
  · rw [schedNextRr_keyboard, updateProcessStateRr_keyboard]
  · rfl

theorem sysFork_keyboard {c : ForkCtx} : (k.sysFork img c).2.keyboard = k.keyboard := by
  unfold Kernel.sysFork
  split
  · rfl
  · dsimp only
    split <;> rfl

/-- **Only the two interrupts touch the keyboard.** -/
theorem exec_keyboard : (exec img k op).keyboard = keyboardAfter img k.keyboard op := by
  cases op with
  | clock c =>
    rw [exec, Kernel.clockHandler, leave_keyboard, Kernel.clockRoutine, schedule_keyboard]
    rfl
  | keyboard port => exact leave_keyboard
  | fork c => exact leave_keyboard.trans sysFork_keyboard
  | exit c => exact leave_keyboard.trans schedNextRr_keyboard
  | yield c =>
    exact leave_keyboard.trans (schedNextRr_keyboard.trans updateProcessStateRr_keyboard)
  | getStats pid st =>
    refine leave_keyboard.trans ?_
    rcases sysGetStats_cases (k := k.enter .systemCallHandler) pid st with h | ⟨t, h⟩ <;>
      rw [h] <;> rfl
  | pollEvent b =>
    refine leave_keyboard.trans ?_
    rcases sysPollEvent_cases (k := k.enter .systemCallHandler) b with h | h <;> rw [h] <;> rfl
  | touch page => rfl

/-! ### Runs -/

/-- **The bytes whose events a run has stored**, in the order of their arrival. -/
def accepted (h : List (Kernel × Op)) : List Byte :=
  h.flatMap fun x =>
    match x.2 with
    | .keyboard port => if x.1.keyboard.accepts port then [port] else []
    | _ => []

/-- **The events that a run has taken out of the buffer**, in their order. -/
def taken (img : Image) (h : List (Kernel × Op)) : List Event :=
  h.flatMap fun x =>
    match x.2 with
    | .clock _ =>
      let b := x.1.keyboard.kBuffer
      if x.1.keyboard.takes img.afterCharMap then [b.events b.tail] else []
    | _ => []

/-- The buffer holds what has been accepted and not yet taken. -/
structure Fifo (img : Image) (h : List (Kernel × Op)) (kb : Keyboard) : Prop where
  /-- The indices are in range. -/
  indexed : Indexed kb
  /-- Nothing is lost, doubled or reordered. -/
  fifo : taken img h ++ kb.kBuffer.pending = (accepted h).map keyEvent

/-- The buffer is empty after boot. -/
theorem fifo_boot : Fifo img [] (k₀.boot img).keyboard where
  indexed := ⟨Nat.zero_lt_succ _, Nat.zero_lt_succ _⟩
  fifo := rfl

/-- **One step keeps the order.** -/
theorem fifo_exec {h : List (Kernel × Op)} (hf : Fifo img h k.keyboard) :
    Fifo img (h ++ [(k, op)]) (exec img k op).keyboard := by
  obtain ⟨hi, hfifo⟩ := hf
  have happ : taken img (h ++ [(k, op)]) = taken img h ++ taken img [(k, op)] :=
    List.flatMap_append
  have happ' : accepted (h ++ [(k, op)]) = accepted h ++ accepted [(k, op)] :=
    List.flatMap_append
  rw [exec_keyboard]
  cases op with
  | keyboard port =>
    by_cases hacc : k.keyboard.accepts port = true
    · have hfull := accepts_iff.mp hacc
      have hring := @keyboardRoutine_of_not_full _ port hfull
      constructor
      · rw [keyboardAfter, Indexed, hring]
        exact RingBuffer.wf_push hi
      · have hpush := RingBuffer.contents_push (x := keyEvent port) hi hfull
        have hnew : accepted [(k, Op.keyboard port)] = [port] := by simp [accepted, hacc]
        rw [happ, happ', hnew, List.map_append, ← hfifo, keyboardAfter, KeyboardBuffer.pending,
          hring, hpush]
        simp [taken, KeyboardBuffer.pending]
    · have hfull := not_not.mp (mt accepts_iff.mpr hacc)
      have hnone : accepted [(k, Op.keyboard port)] = [] := by simp [accepted, hacc]
      rw [keyboardAfter, keyboardRoutine_of_full hfull]
      refine ⟨hi, ?_⟩
      rw [happ, happ', hnone, List.append_nil, ← hfifo]
      simp [taken]
  | clock c =>
    have hnone : accepted [(k, Op.clock c)] = [] := rfl
    by_cases htak : k.keyboard.takes img.afterCharMap = true
    · have hempty := (takes_iff _).mp htak
      have hring := consume_of_not_empty img.afterCharMap hempty
      constructor
      · rw [keyboardAfter, Indexed, hring]
        exact RingBuffer.wf_pop hi
      · have hpop := RingBuffer.contents_pop hi hempty
        rw [happ, happ', hnone, List.append_nil, ← hfifo, keyboardAfter, KeyboardBuffer.pending,
          KeyboardBuffer.pending, hring, hpop, List.append_assoc]
        simp [taken, htak, KeyboardBuffer.ring]
    · have hempty := not_not.mp (mt (takes_iff _).mpr htak)
      have hsame := consume_of_empty img.afterCharMap hempty
      constructor
      · rw [keyboardAfter, Indexed, hsame]
        exact hi
      · rw [happ, happ', hnone, List.append_nil, ← hfifo, keyboardAfter, hsame]
        simp [taken, htak]
  | _ =>
    refine ⟨hi, ?_⟩
    change _ ++ k.keyboard.kBuffer.pending = _
    rw [happ, happ', List.map_append, ← hfifo]
    simp [taken, accepted]

/-- **The keyboard buffer is a bounded queue**: along every run, the indices stay in
range, the events taken followed by the events in the buffer are those accepted, in the
order of their arrival, and an event is dropped, without any effect, exactly when all
slots but one are full. -/
theorem key_events_fifo {h : List (Kernel × Op)}
    (hp : Transition.Path (Step img) (k₀.boot img) h k) :
    k.keyboard.kBuffer.head < kbBufferSize ∧ k.keyboard.kBuffer.tail < kbBufferSize ∧
      taken img h ++ k.keyboard.kBuffer.pending = (accepted h).map keyEvent ∧
      ∀ port, (k.keyboard.accepts port = false ↔
          k.keyboard.kBuffer.pending.length = kbBufferSize - 1) ∧
        (k.keyboard.accepts port = false → k.keyboard.keyboardRoutine port = k.keyboard) := by
  have hf : Fifo img h k.keyboard := by
    refine hp.invariant (P := fun h k => Fifo img h k.keyboard) fifo_boot ?_
    rintro h s op t - hf ⟨-, rfl⟩
    exact fifo_exec hf
  refine ⟨hf.indexed.head_lt, hf.indexed.tail_lt, hf.fifo, fun port => ?_⟩
  have hacc : k.keyboard.accepts port = false ↔
      (k.keyboard.kBuffer.head + 1) % kbBufferSize = k.keyboard.kBuffer.tail := by
    rw [← Bool.not_eq_true, accepts_iff, not_not]
  exact ⟨hacc.trans (RingBuffer.full_iff hf.indexed),
    fun h => keyboardRoutine_of_full (hacc.mp h)⟩

/-- A key is pressed, and the next tick takes its event. -/
theorem key_events_fifo_press :
    let k := exec sampleImage (powerOn.boot sampleImage) (.keyboard 0x1E)
    taken sampleImage [(powerOn.boot sampleImage, .keyboard 0x1E), (k, .clock sampleSwitch)] ++
        (exec sampleImage k (.clock sampleSwitch)).keyboard.kBuffer.pending =
      (accepted [(powerOn.boot sampleImage, .keyboard 0x1E), (k, .clock sampleSwitch)]).map
        keyEvent := by
  intro k
  have h1 : Step sampleImage (powerOn.boot sampleImage) (.keyboard 0x1E) k := ⟨trivial, rfl⟩
  have h2 : Step sampleImage k (.clock sampleSwitch)
      (exec sampleImage k (.clock sampleSwitch)) := ⟨trivial, rfl⟩
  exact (key_events_fifo ((Transition.Path.nil.snoc h1).snoc h2)).2.2.1

/-! ### Indices -/

/-- The indices at which an interrupt accesses `k_buffer.events`. -/
def eventIndices (kb : Keyboard) : Op → List Nat
  | .keyboard _ =>
    if (kb.kBuffer.head + 1) % kbBufferSize ≠ kb.kBuffer.tail then [kb.kBuffer.head] else []
  | .clock _ => if kb.kBuffer.head ≠ kb.kBuffer.tail then [kb.kBuffer.tail] else []
  | _ => []

/-- The indices at which an interrupt accesses `char_map`. -/
def charLookups (kb : Keyboard) : Op → List Nat
  | .clock _ =>
    if kb.kBuffer.head ≠ kb.kBuffer.tail then
      let ev := kb.kBuffer.events kb.kBuffer.tail
      if ev.pressed then [ev.scancode.toNat] else []
    else []
  | _ => []

/-- What lies behind `char_map` matters to those lookups only that go beyond its end. -/
theorem consume_congr {c : SwitchCtx} (beyond beyond' : Nat → Byte)
    (h : ∀ i ∈ charLookups kb (.clock c), i < charMap.length) :
    kb.consume beyond = kb.consume beyond' := by
  unfold Keyboard.consume
  by_cases hempty : kb.kBuffer.head ≠ kb.kBuffer.tail
  · rw [if_pos hempty, if_pos hempty]
    by_cases hpressed : (kb.kBuffer.events kb.kBuffer.tail).pressed = true
    · have hlt := h (kb.kBuffer.events kb.kBuffer.tail).scancode.toNat (by
        simp [charLookups, hempty, hpressed])
      simp only [hpressed, if_true, List.getElem?_eq_getElem hlt, Option.getD_some]
    · simp only [hpressed]
      rfl
  · rw [if_neg hempty, if_neg hempty]

/-- The highest bit of a byte. -/
theorem getLsbD_seven : port.getLsbD 7 = decide (128 ≤ port.toNat) := by
  have hmsb := BitVec.msb_eq_decide port
  rw [BitVec.msb_eq_getLsbD_last] at hmsb
  exact hmsb

/-- A byte that stands for a press is the key. -/
theorem keyEvent_pressed : (keyEvent port).pressed = true ↔ port.toNat < 128 := by
  rw [keyEvent, getLsbD_seven]
  simp

theorem keyEvent_scancode (h : port.toNat < 128) : (keyEvent port).scancode = port := by
  have hbit : port.getLsbD 7 = false := by
    rw [getLsbD_seven]
    simpa using h
  have heq := @scancode_eq port
  rw [hbit] at heq
  exact heq.symm

/-- **A lookup is for a key that has been pressed.** -/
theorem charLookups_of_fifo {h : List (Kernel × Op)} (hf : Fifo img h k.keyboard) {i : Nat}
    (hi : i ∈ charLookups k.keyboard op) :
    ∃ port ∈ accepted h, port.toNat < 128 ∧ i = port.toNat := by
  cases op with
  | clock c =>
    rw [charLookups] at hi
    split at hi
    · next hempty =>
      have hmem : k.keyboard.kBuffer.events k.keyboard.kBuffer.tail ∈
          k.keyboard.kBuffer.pending := by
        rw [KeyboardBuffer.pending, RingBuffer.contents_pop hf.indexed hempty]
        exact List.mem_cons_self
      have hacc : k.keyboard.kBuffer.events k.keyboard.kBuffer.tail ∈
          (accepted h).map keyEvent := by
        rw [← hf.fifo]
        exact List.mem_append_right _ hmem
      obtain ⟨port, hport, heq⟩ := List.mem_map.mp hacc
      dsimp only at hi
      rw [← heq] at hi
      split at hi
      · next hpressed =>
        have hlt := keyEvent_pressed.mp hpressed
        rw [keyEvent_scancode hlt, List.mem_singleton] at hi
        exact ⟨port, hport, hlt, hi⟩
      · exact absurd hi List.not_mem_nil
    · exact absurd hi List.not_mem_nil
  | _ => exact absurd hi List.not_mem_nil

/-- An accepted byte has come from the keyboard. -/
theorem mem_of_accepted {h : List (Kernel × Op)} (hm : port ∈ accepted h) :
    ∃ x ∈ h, x.2 = .keyboard port := by
  obtain ⟨x, hx, hport⟩ := List.mem_flatMap.mp hm
  refine ⟨x, hx, ?_⟩
  obtain ⟨s, op⟩ := x
  cases op with
  | keyboard p =>
    dsimp only at hport
    split at hport
    · rw [List.mem_singleton.mp hport]
    · exact absurd hport List.not_mem_nil
  | _ => exact absurd hport List.not_mem_nil

/-- The accesses of one step to the ring. -/
theorem eventIndices_lt (h : Indexed kb) {i : Nat} (hi : i ∈ eventIndices kb op) :
    i < kbBufferSize := by
  cases op with
  | keyboard port =>
    rw [eventIndices] at hi
    split at hi
    · rw [List.mem_singleton.mp hi]
      exact h.head_lt
    · exact absurd hi List.not_mem_nil
  | clock c =>
    rw [eventIndices] at hi
    split at hi
    · rw [List.mem_singleton.mp hi]
      exact h.tail_lt
    · exact absurd hi List.not_mem_nil
  | _ => exact absurd hi List.not_mem_nil

/-- **The indices of a run**: the ring is accessed inside, and `char_map` at keys that
have been pressed. -/
theorem indices_path {h : List (Kernel × Op)}
    (hp : Transition.Path (Step img) (k₀.boot img) h k) :
    ∀ x ∈ h, (∀ i ∈ eventIndices x.1.keyboard x.2, i < kbBufferSize) ∧
      ∀ i ∈ charLookups x.1.keyboard x.2, ∃ y ∈ h, ∃ port, y.2 = .keyboard port ∧
        port.toNat < 128 ∧ i = port.toNat := by
  have key : Fifo img h k.keyboard ∧
      ∀ x ∈ h, (∀ i ∈ eventIndices x.1.keyboard x.2, i < kbBufferSize) ∧
        ∀ i ∈ charLookups x.1.keyboard x.2, ∃ y ∈ h, ∃ port, y.2 = .keyboard port ∧
          port.toNat < 128 ∧ i = port.toNat := by
    refine hp.invariant (P := fun h k => Fifo img h k.keyboard ∧
      ∀ x ∈ h, (∀ i ∈ eventIndices x.1.keyboard x.2, i < kbBufferSize) ∧
        ∀ i ∈ charLookups x.1.keyboard x.2, ∃ y ∈ h, ∃ port, y.2 = .keyboard port ∧
          port.toNat < 128 ∧ i = port.toNat) ⟨fifo_boot, fun x hx => absurd hx (by simp)⟩ ?_
    rintro h s op t - ⟨hf, hall⟩ ⟨-, rfl⟩
    refine ⟨fifo_exec hf, fun x hx => ?_⟩
    rcases List.mem_append.mp hx with hx | hx
    · obtain ⟨h1, h2⟩ := hall x hx
      refine ⟨h1, fun i hi => ?_⟩
      obtain ⟨y, hy, hport⟩ := h2 i hi
      exact ⟨y, List.mem_append_left _ hy, hport⟩
    · obtain rfl := List.mem_singleton.mp hx
      refine ⟨fun i hi => eventIndices_lt hf.indexed hi, fun i hi => ?_⟩
      obtain ⟨port, hport, hlt, rfl⟩ := charLookups_of_fifo hf hi
      obtain ⟨y, hy, hyp⟩ := mem_of_accepted hport
      exact ⟨y, List.mem_append_left _ hy, port, hyp, hlt, rfl⟩
  exact key.2

/-- A key that is pressed while the buffer is empty is looked up at the next tick. -/
theorem charLookups_press {c : SwitchCtx} (hempty : kb.kBuffer.head = kb.kBuffer.tail)
    (hlt : port.toNat < 128) :
    charLookups (kb.keyboardRoutine port) (.clock c) = [port.toNat] := by
  have hfull : (kb.kBuffer.head + 1) % kbBufferSize ≠ kb.kBuffer.tail := by
    rw [← hempty]
    exact next_ne _
  have hring := @keyboardRoutine_of_not_full _ port hfull
  have hhead : (kb.keyboardRoutine port).kBuffer.head = (kb.kBuffer.head + 1) % kbBufferSize :=
    congrArg RingBuffer.head hring
  have htail : (kb.keyboardRoutine port).kBuffer.tail = kb.kBuffer.tail :=
    congrArg RingBuffer.tail hring
  have hevent : (kb.keyboardRoutine port).kBuffer.events kb.kBuffer.tail = keyEvent port := by
    have hslots := congrArg RingBuffer.slots hring
    have hat := congrFun hslots kb.kBuffer.tail
    rw [RingBuffer.push, ← hempty] at hat
    rw [← hempty]
    exact hat.trans (Function.update_self ..)
  rw [charLookups, hhead, htail, if_pos hfull]
  dsimp only
  rw [hevent, if_pos (keyEvent_pressed.mpr hlt), keyEvent_scancode hlt]

/-- The run in which a key is pressed and a tick follows. -/
theorem path_press (c : SwitchCtx) (port : Byte) :
    Transition.Path (Step img) (k₀.boot img)
      [(k₀.boot img, .keyboard port), (exec img (k₀.boot img) (.keyboard port), .clock c)]
      (exec img (exec img (k₀.boot img) (.keyboard port)) (.clock c)) :=
  (Transition.Path.nil.snoc ⟨trivial, rfl⟩).snoc ⟨trivial, rfl⟩

/-- In that run the key is looked up. -/
theorem charLookups_path_press {c : SwitchCtx} (hlt : port.toNat < 128) :
    charLookups (exec img (k₀.boot img) (.keyboard port)).keyboard (.clock c) =
      [port.toNat] := by
  rw [exec_keyboard]
  exact charLookups_press rfl hlt

end Zeos.Game
