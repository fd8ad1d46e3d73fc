import Chip8.Text.Hex

/-!
The faults that halt a machine, each with the value that caused it, and their wording.
-/

namespace Chip8

open Text (hex)

inductive Fault where
  | stackOverflow
  | stackUnderflow
  /-- An access through the index register met an address outside memory. -/
  | addressOutOfRange (address : Nat)
  /-- There is no whole instruction at the program counter. -/
  | counterOutOfRange (counter : UInt16)
  | keyOutOfRange (key : UInt8)
  deriving DecidableEq, Repr

def Fault.message : Fault → String
  | .stackOverflow => "call stack overflow (subroutines nested deeper than 15)"
  | .stackUnderflow => "return with an empty call stack"
  | .addressOutOfRange address => s!"memory access out of range at 0x{hex 4 address}"
  | .counterOutOfRange counter => s!"program counter out of range at 0x{hex 4 counter.toNat}"
  | .keyOutOfRange key => s!"key 0x{hex 2 key.toNat} does not exist"

end Chip8
