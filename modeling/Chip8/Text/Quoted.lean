import Chip8.Text.Unprintable

/-!
A character in single quotes. The quote, the backslash and the commonest controls are written with
a backslash and a letter of their own, other unprintable characters by the number of their code
point.
-/

namespace Chip8.Text

/-- The characters that a backslash and one other character stand for. -/
def shortEscapes : List (Char × Char) :=
  [('\x00', '0'), ('\t', 't'), ('\r', 'r'), ('\n', 'n'), ('\\', '\\'), ('\x27', '\x27')]

/-- A code point in lower-case hexadecimal, without leading zeros. -/
def codePoint (c : Char) : List Char := Nat.toDigits 16 c.toNat

def escape (c : Char) : List Char :=
  match shortEscapes.lookup c with
  | some letter => ['\\', letter]
  | none =>
    if isUnprintable c then ['\\', 'u', '\x7b'] ++ codePoint c ++ ['\x7d'] else [c]

def quote (c : Char) : String := String.ofList ('\x27' :: escape c ++ ['\x27'])

end Chip8.Text
