import Chip8.Keypad.Basic

/-!
The keypad on a keyboard: the four left columns of the keyboard stand for the four columns of keys.
Letters are read in either case; no character beyond ASCII stands for a key.

    1 2 3 C        1 2 3 4
    4 5 6 D        Q W E R
    7 8 9 E        A S D F
    A 0 B F        Z X C V
-/

namespace Chip8.Keypad

/-- Each key with the character that stands for it, letters in lower case. -/
def layout : List (Char × Nibble) :=
  [('1', 0x1), ('2', 0x2), ('3', 0x3), ('4', 0xC),
   ('q', 0x4), ('w', 0x5), ('e', 0x6), ('r', 0xD),
   ('a', 0x7), ('s', 0x8), ('d', 0x9), ('f', 0xE),
   ('z', 0xA), ('x', 0x0), ('c', 0xB), ('v', 0xF)]

def keyOf? (c : Char) : Option Nibble := layout.lookup c.toLower

theorem mem_layout (key : Nibble) : key ∈ layout.map (·.2) := by decide +revert

end Chip8.Keypad
