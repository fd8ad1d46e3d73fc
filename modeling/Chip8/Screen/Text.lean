import Chip8.Screen.Basic

/-!
The picture as text: one line per row, a hash mark for a lit pixel and a blank for a dark one.
-/

namespace Chip8.Screen

def pixelChar (lit : Bool) : Char := if lit then '#' else ' '

def lineChars (s : Screen) (y : Fin 32) : List Char :=
  (List.finRange 64).map fun x => pixelChar (s.pixel x y)

def lines (s : Screen) : List String :=
  (List.finRange 32).map fun y => String.ofList (s.lineChars y)

/-- The lines with a line break between each two. -/
def text (s : Screen) : String := "\n".intercalate s.lines

end Chip8.Screen
