import Chip8.Instruction.Basic

/-!
Which instruction an opcode stands for. The two shifts ignore the digit `y`; every other digit of a
known opcode is either fixed or part of its instruction.
-/

namespace Chip8

namespace Instruction

/-- The family `8xy_`, told apart by its last digit. -/
def decodeArithmetic (op : Opcode) : Instruction :=
  match op.n.val with
  | 0x0 => .combine .copy op.x op.y
  | 0x1 => .combine .or op.x op.y
  | 0x2 => .combine .and op.x op.y
  | 0x3 => .combine .xor op.x op.y
  | 0x4 => .combine .add op.x op.y
  | 0x5 => .combine .sub op.x op.y
  | 0x6 => .shiftRight op.x
  | 0x7 => .combine .subFrom op.x op.y
  | 0xE => .shiftLeft op.x
  | _ => .unknown op

/-- The family `Fx__`, told apart by its low byte. -/
def decodeDevice (op : Opcode) : Instruction :=
  match op.kk.toNat with
  | 0x07 => .getDelay op.x
  | 0x0A => .awaitKey op.x
  | 0x15 => .setDelay op.x
  | 0x18 => .setSound op.x
  | 0x1E => .addIndex op.x
  | 0x29 => .glyph op.x
  | 0x33 => .digits op.x
  | 0x55 => .save op.x
  | 0x65 => .restore op.x
  | _ => .unknown op

def decode (op : Opcode) : Instruction :=
  match op.kind.val with
  | 0x0 =>
    if op.address = 0x0E0 then .clear else if op.address = 0x0EE then .ret else .unknown op
  | 0x1 => .jump op.address
  | 0x2 => .call op.address
  | 0x3 => .skipIf (.isByte op.x op.kk)
  | 0x4 => .skipIf (.isNotByte op.x op.kk)
  | 0x5 => if op.n = 0 then .skipIf (.same op.x op.y) else .unknown op
  | 0x6 => .setByte op.x op.kk
  | 0x7 => .addByte op.x op.kk
  | 0x8 => decodeArithmetic op
  | 0x9 => if op.n = 0 then .skipIf (.differ op.x op.y) else .unknown op
  | 0xA => .setIndex op.address
  | 0xB => .jumpFrom op.address
  | 0xC => .random op.x op.kk
  | 0xD => .draw op.x op.y op.n
  | 0xE =>
    if op.kk = 0x9E then .skipIf (.keyHeld op.x)
    else if op.kk = 0xA1 then .skipIf (.keyFree op.x)
    else .unknown op
  | _ => decodeDevice op

end Instruction

end Chip8
