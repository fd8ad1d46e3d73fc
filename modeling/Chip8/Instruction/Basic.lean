import Chip8.Instruction.Opcode

/-!
The instruction set. Instructions that differ only in what they compute or test share a
constructor, so that a law about the family is one case.
-/

namespace Chip8

/-- How two registers are combined into the first of them. -/
inductive Arithmetic where
  | copy
  | or
  | and
  | xor
  | add
  | sub
  /-- The second register less the first. -/
  | subFrom
  deriving DecidableEq, Repr

/-- What a skip asks. -/
inductive Condition where
  | isByte (x : Nibble) (kk : UInt8)
  | isNotByte (x : Nibble) (kk : UInt8)
  | same (x y : Nibble)
  | differ (x y : Nibble)
  /-- The key whose number is in `x` is held. -/
  | keyHeld (x : Nibble)
  | keyFree (x : Nibble)
  deriving DecidableEq, Repr

/-- Registers are named `x` and `y`, an immediate byte is `kk`. -/
inductive Instruction where
  | clear
  | ret
  | jump (target : Address)
  | call (target : Address)
  | skipIf (condition : Condition)
  | setByte (x : Nibble) (kk : UInt8)
  | addByte (x : Nibble) (kk : UInt8)
  | combine (op : Arithmetic) (x y : Nibble)
  | shiftRight (x : Nibble)
  | shiftLeft (x : Nibble)
  | setIndex (target : Address)
  /-- Jump to `base` plus register 0. -/
  | jumpFrom (base : Address)
  /-- A random byte, masked with `kk`. -/
  | random (x : Nibble) (kk : UInt8)
  /-- Draw a sprite of `height` rows at the position that `x` and `y` hold. -/
  | draw (x y : Nibble) (height : Nibble)
  | getDelay (x : Nibble)
  /-- Wait until some key is held. -/
  | awaitKey (x : Nibble)
  | setDelay (x : Nibble)
  | setSound (x : Nibble)
  | addIndex (x : Nibble)
  /-- Point the index at the glyph of the digit in `x`. -/
  | glyph (x : Nibble)
  /-- Write the three decimal digits of `x` to memory. -/
  | digits (x : Nibble)
  /-- Write the registers before `x` to memory. -/
  | save (x : Nibble)
  /-- Read the registers before `x` from memory. -/
  | restore (x : Nibble)
  /-- No instruction has this opcode; it does nothing. -/
  | unknown (op : Opcode)
  deriving DecidableEq, Repr

end Chip8
