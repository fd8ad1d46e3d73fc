/-!
Hexadecimal digits. There are sixteen registers, keys and call slots, so one digit names each.
-/

namespace Chip8

/-- One hexadecimal digit: the name of a register or a key, or the height of a sprite. -/
abbrev Nibble := Fin 16

/-- What every digit that is written as a literal rests on. -/
instance Nibble.neZero : @NeZero Nat Zero.ofOfNat0 16 := Nat.instNeZeroSucc

/-- The lowest digit of a number. -/
def Nibble.lowest (n : Nat) : Nibble := Fin.ofNat 16 n

end Chip8
