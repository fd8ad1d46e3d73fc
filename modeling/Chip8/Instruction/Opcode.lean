import Chip8.Nibble
import Chip8.Text.Hex

/-!
Opcodes and their fields. An opcode is two bytes, high byte first; its four hexadecimal digits are
`kind`, `x`, `y` and `n`, its low byte is `kk` and its low twelve bits are `address`.
-/

namespace Chip8

/-- An address that an instruction can name. -/
abbrev Address := Fin 0x1000

instance Address.neZero : @NeZero Nat Zero.ofOfNat0 0x1000 := Nat.instNeZeroSucc

structure Opcode where
  word : UInt16
  deriving DecidableEq, Repr

namespace Opcode

def ofBytes (high low : UInt8) : Opcode := ⟨UInt16.ofNat (high.toNat * 0x100 + low.toNat)⟩

/-- The leading digit, which tells the families of instructions apart. -/
def kind (op : Opcode) : Nibble := .lowest (op.word.toNat / 0x1000)

def x (op : Opcode) : Nibble := .lowest (op.word.toNat / 0x100)

def y (op : Opcode) : Nibble := .lowest (op.word.toNat / 0x10)

def n (op : Opcode) : Nibble := .lowest op.word.toNat

def kk (op : Opcode) : UInt8 := UInt8.ofNat op.word.toNat

def address (op : Opcode) : Address := Fin.ofNat 0x1000 op.word.toNat

def text (op : Opcode) : String := Text.hexWord op.word

theorem toNat_ofBytes (high low : UInt8) :
    (ofBytes high low).word.toNat = high.toNat * 0x100 + low.toNat := by
  have := high.toNat_lt
  have := low.toNat_lt
  exact UInt16.toNat_ofNat_of_lt' (by show _ < 65536; omega)

end Opcode

end Chip8
