import Chip8.RegisterFile
import Chip8.Screen.Basic
import Chip8.Timers
import Chip8.Keypad.Basic

/-!
All that a program can read or write: registers, memory, screen, timers and keypad.
-/

namespace Chip8

structure State where
  registers : RegisterFile
  memory : Memory
  screen : Screen
  timers : Timers
  keypad : Keypad
  deriving DecidableEq

namespace State

def initial : State := ⟨.initial, .initial, .dark, .stopped, .released⟩

/-- The opcode at the program counter. -/
def fetch (s : State) : Except Fault Opcode :=
  let counter := s.registers.counter
  match s.memory.byte? counter.toNat, s.memory.byte? (counter.toNat + 1) with
  | some high, some low => .ok (.ofBytes high low)
  | _, _ => .error (.counterOutOfRange counter)

/-- The state in which the instruction that was fetched is executed. -/
def advance (s : State) : State :=
  { s with registers := s.registers.skip, screen := s.screen.shown }

def tick (s : State) : State := { s with timers := s.timers.tick }

end State

end Chip8
