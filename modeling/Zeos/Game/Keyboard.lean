import Mathlib.Logic.Function.Basic
import Zeos.Lib.ByteMem

/-!
# The keyboard of the GAME kernel

Interrupts store key events in a ring buffer of `KB_BUFFER_SIZE` entries, of which
one always stays unused so that a full buffer can be told from an empty one; the
clock interrupt takes at most one event out of it and prints what it got. The
system call that reports the state of the keyboard copies another buffer,
`keyboard_buffer`, to the caller.
-/

namespace Zeos.Game

open ByteMem

/-- `struct event_t` -/
structure Event where
  /-- Whether the key was pressed or released. -/
  pressed : Bool
  /-- The key. -/
  scancode : Byte
deriving DecidableEq

/-- `KB_BUFFER_SIZE` -/
def kbBufferSize : Nat := 16

/-- `struct keyboard_buffer` -/
structure KeyboardBuffer where
  /-- The ring. -/
  events : Nat → Event
  /-- Where the next event is stored. -/
  head : Nat
  /-- Where the next event is taken from. -/
  tail : Nat

/-- The keyboard and what the interrupt routines print. -/
structure Keyboard where
  /-- `k_buffer` -/
  kBuffer : KeyboardBuffer
  /-- `keyboard_buffer` -/
  keyboardBuffer : Nat → Byte
  /-- The bytes handed to `printc`, oldest first. -/
  console : List Byte

/-- `char_map` -/
def charMap : List Byte :=
  [0, 0, 49, 50, 51, 52, 53, 54, 55, 56, 57, 48, 39, 161, 0, 0,
   113, 119, 101, 114, 116, 121, 117, 105, 111, 112, 96, 43, 0, 0, 97, 115,
   100, 102, 103, 104, 106, 107, 108, 177, 0, 186, 0, 167, 122, 120, 99, 118,
   98, 110, 109, 44, 46, 45, 0, 42, 0, 0, 0, 0, 0, 0, 0, 0,
   0, 0, 0, 0, 0, 0, 0, 55, 56, 57, 45, 52, 53, 54, 43, 49,
   50, 51, 48, 0, 0, 0, 60, 0, 0, 0, 0, 0, 0, 0, 0, 0,
   0, 0]

namespace Keyboard

variable (kb : Keyboard)

/-- `keyboard_init` -/
def keyboardInit : Keyboard :=
  { kb with kBuffer := { kb.kBuffer with head := 0, tail := 0 } }

/-- `printc`, as far as the kernel above it can see. -/
def printc (c : Byte) : Keyboard := { kb with console := kb.console ++ [c] }

/-- `printk`, on the bytes of a string. -/
def printk (string : String) : Keyboard :=
  { kb with console := kb.console ++ string.toList.map fun c => BitVec.ofNat 8 c.toNat }

/-- `keyboard_routine`, the byte being the one read from port `0x60`. -/
def keyboardRoutine (port : Byte) : Keyboard :=
  let make := !port.getLsbD 7
  let c := if port.getLsbD 7 then port &&& 0x7F else port
  let nextHead := (kb.kBuffer.head + 1) % kbBufferSize
  if nextHead ≠ kb.kBuffer.tail then
    { kb with kBuffer :=
        { kb.kBuffer with
          events := Function.update kb.kBuffer.events kb.kBuffer.head
            { pressed := make, scancode := c }
          head := nextHead } }
  else kb

/-- The part of `clock_routine` that takes an event out of the ring and reports
it; a key beyond the end of `char_map` reads whatever lies there. -/
def consume (beyond : Nat → Byte) : Keyboard :=
  if kb.kBuffer.head ≠ kb.kBuffer.tail then
    let ev := kb.kBuffer.events kb.kBuffer.tail
    let kb := { kb with kBuffer :=
      { kb.kBuffer with tail := (kb.kBuffer.tail + 1) % kbBufferSize } }
    if ev.pressed then
      let c := (charMap[ev.scancode.toNat]?).getD (beyond ev.scancode.toNat)
      if c ≠ 0 then ((kb.printk "Buffer OK: ").printc c).printc 10
      else kb.printk "Buffer OK: [Special Key]\n"
    else kb
  else kb

end Keyboard

end Zeos.Game
