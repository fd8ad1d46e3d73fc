/-!
Unsigned decimal numbers as people type them: an optional plus sign, then one or more ASCII digits.
Leading zeros are fine; blanks, other signs and other digits are not.
-/

namespace Chip8.Text.Decimal

/-- The value of an ASCII digit. -/
def digit? (c : Char) : Option Nat :=
  if '0' ≤ c ∧ c ≤ '9' then some (c.toNat - '0'.toNat) else none

/-- The number that the digits continue when `n` has been read before them. -/
def continue? (n : Nat) : List Char → Option Nat
  | [] => some n
  | c :: rest => (digit? c).bind fun d => continue? (10 * n + d) rest

/-- The number that a non-empty row of digits denotes. -/
def ofDigits? : List Char → Option Nat
  | [] => none
  | cs => continue? 0 cs

/-- Reads a number of any size. -/
def read? : List Char → Option Nat
  | '+' :: cs => ofDigits? cs
  | cs => ofDigits? cs

/-- Reads a number that fits in 64 bits. -/
def readUInt64? (s : String) : Option UInt64 :=
  (read? s.toList).bind fun n => if n < UInt64.size then some (UInt64.ofNat n) else none

end Chip8.Text.Decimal
