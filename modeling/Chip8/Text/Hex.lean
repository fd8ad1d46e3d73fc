/-!
Fixed-width hexadecimal fields: upper-case digits, padded with zeros on the left. A number that
needs more digits than the field has keeps all of them.
-/

namespace Chip8.Text

/-- The text of `n` in base sixteen, at least `width` digits long. -/
def hex (width n : Nat) : String :=
  let digits := (Nat.toDigits 16 n).map Char.toUpper
  String.ofList (List.replicate (width - digits.length) '0' ++ digits)

/-- The field of a byte. -/
def hexByte (b : UInt8) : String := hex 2 b.toNat

/-- The field of a 16-bit word. -/
def hexWord (w : UInt16) : String := hex 4 w.toNat

end Chip8.Text
