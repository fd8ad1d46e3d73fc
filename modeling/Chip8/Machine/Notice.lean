import Chip8.Instruction.Opcode
import Chip8.Log
import Chip8.RegisterFile

/-!
What a machine has to say about its work, and how it is worded in a log.
-/

namespace Chip8

inductive Notice where
  /-- A program of `size` bytes was loaded. -/
  | loaded (size : Nat)
  /-- An opcode was fetched; the registers are those from before the cycle. -/
  | fetched (op : Opcode) (registers : RegisterFile)
  | unknownOpcode (op : Opcode) (address : UInt16)
  | beep
  | halting (fault : Fault)
  deriving DecidableEq, Repr

namespace Notice

def level : Notice → Level
  | .loaded _ => .info
  | .fetched _ _ => .trace
  | .unknownOpcode _ _ => .warn
  | .beep => .debug
  | .halting _ => .error

def text : Notice → String
  | .loaded size => s!"loaded {size} byte program"
  | .fetched op r =>
    let v := ", ".intercalate (r.v.toList.map Text.hexByte)
    s!"{op.text} v[{v}] i{Text.hexWord r.index} pc{Text.hexWord r.counter}"
  | .unknownOpcode op address => s!"unknown opcode {op.text} at {Text.hexWord address}"
  | .beep => "beep"
  | .halting fault => s!"halting: {fault.message}"

def record (n : Notice) : LogRecord := ⟨n.level, n.text⟩

end Notice

end Chip8
