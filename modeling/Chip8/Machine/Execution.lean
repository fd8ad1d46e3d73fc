import Chip8.Instruction.Decoding
import Chip8.Machine.Work

/-!
What each instruction does. The program counter has been moved past the instruction before.
-/

namespace Chip8

/-- An address as the content of a 16-bit register. -/
def Address.word (a : Address) : UInt16 := UInt16.ofNat a.val

namespace State

def setRegisters (s : State) (r : RegisterFile) : State := { s with registers := r }

@[simp] theorem registers_setRegisters (s : State) (r : RegisterFile) :
    (s.setRegisters r).registers = r := rfl

@[simp] theorem memory_setRegisters (s : State) (r : RegisterFile) :
    (s.setRegisters r).memory = s.memory := rfl

@[simp] theorem screen_setRegisters (s : State) (r : RegisterFile) :
    (s.setRegisters r).screen = s.screen := rfl

def setRegister (s : State) (x : Nibble) (b : UInt8) : State :=
  s.setRegisters (s.registers.set x b)

def jump (s : State) (target : UInt16) : State :=
  s.setRegisters { s.registers with counter := target }

/-- Jumps to `base` plus register 0. -/
def jumpFrom (s : State) (base : UInt16) : State :=
  s.jump (base + (s.registers.get 0).toUInt16)

def setIndex (s : State) (target : UInt16) : State :=
  s.setRegisters { s.registers with index := target }

/-- Points the index at the glyph of a digit. -/
def pointAtGlyph (s : State) (digit : UInt8) : State :=
  s.setIndex (digit.toUInt16 * UInt16.ofNat glyphHeight)

def test (s : State) : Condition → Except Fault Bool
  | .isByte x kk => .ok (s.registers.get x == kk)
  | .isNotByte x kk => .ok (s.registers.get x != kk)
  | .same x y => .ok (s.registers.get x == s.registers.get y)
  | .differ x y => .ok (s.registers.get x != s.registers.get y)
  | .keyHeld x => s.keypad.isHeld (s.registers.get x)
  | .keyFree x => (s.keypad.isHeld (s.registers.get x)).map (!·)

end State

/-- The decimal digits of a byte, hundreds first. -/
def decimalDigits (b : UInt8) : List UInt8 := [b / 100, b / 10 % 10, b % 10]

namespace Work

variable {σ : Type}

def call (target : UInt16) : Work σ Ending := do
  let registers := (← state).registers
  let pushed ← registers.push registers.counter
  update (·.setRegisters pushed)
  finish (·.jump target)

def ret : Work σ Ending := do
  let (a, popped) ← (← state).registers.pop
  update (·.setRegisters popped)
  finish (·.jump a)

def skipIf (condition : Condition) : Work σ Ending := do
  if ← (← state).test condition then
    update fun s => s.setRegisters s.registers.skip
  return .done

/-- The sprite is read from the index on, and drawn where the registers point before the flag is
set. -/
def draw (x y height : Nibble) : Work σ Ending := do
  let s ← state
  let column := s.registers.get x
  let row := s.registers.get y
  let sprite ← s.memory.readRange s.registers.index.toNat height
  update fun s => { s with screen := s.screen.draw column row sprite }
  finish fun t => t.setRegisters (t.registers.setFlag (s.screen.drawFlag column row sprite))

/-- Takes the lowest key held; with none held the instruction is next again. -/
def awaitKey (x : Nibble) : Work σ Ending := do
  match (← state).keypad.lowest? with
  | some key => finish (·.setRegister x (UInt8.ofNat key.val))
  | none =>
    update fun s => s.setRegisters s.registers.rewind
    return .awaitingKey

def writeAtIndex (data : List UInt8) : Work σ Ending := do
  let s ← state
  let memory ← s.memory.writeRange s.registers.index.toNat data
  finish fun s => { s with memory }

def restore (x : Nibble) : Work σ Ending := do
  let s ← state
  let data ← s.memory.readRange s.registers.index.toNat x
  finish fun s => s.setRegisters (s.registers.setFirst data)

/-- Does nothing but note the opcode and its address, which the program counter has passed. -/
def passOver (op : Opcode) : Work σ Ending := do
  note (.unknownOpcode op (← state).registers.rewind.counter)
  return .done

/-- Executes an instruction. -/
def execute [ByteSource σ] : Instruction → Work σ Ending
  | .clear => finish fun s => { s with screen := s.screen.clear }
  | .ret => ret
  | .jump target => finish (·.jump target.word)
  | .call target => call target.word
  | .skipIf condition => skipIf condition
  | .setByte x kk => finish (·.setRegister x kk)
  | .addByte x kk => finish fun s => s.setRegister x (s.registers.get x + kk)
  | .combine op x y => finish fun s => s.setRegisters (s.registers.combine op x y)
  | .shiftRight x => finish fun s => s.setRegisters (s.registers.shiftRight x)
  | .shiftLeft x => finish fun s => s.setRegisters (s.registers.shiftLeft x)
  | .setIndex target => finish (·.setIndex target.word)
  | .jumpFrom base => finish (·.jumpFrom base.word)
  | .random x kk => do
    let b ← nextByte
    finish (·.setRegister x (b &&& kk))
  | .draw x y height => draw x y height
  | .getDelay x => finish fun s => s.setRegister x s.timers.delay
  | .awaitKey x => awaitKey x
  | .setDelay x => finish fun s => { s with timers.delay := s.registers.get x }
  | .setSound x => finish fun s => { s with timers.sound := s.registers.get x }
  | .addIndex x => finish fun s => s.setIndex (s.registers.index + (s.registers.get x).toUInt16)
  | .glyph x => finish fun s => s.pointAtGlyph (s.registers.get x)
  | .digits x => do writeAtIndex (decimalDigits ((← state).registers.get x))
  | .save x => do writeAtIndex ((← state).registers.before x)
  | .restore x => restore x
  | .unknown op => passOver op

end Work

end Chip8
