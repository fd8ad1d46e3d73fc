import Chip8.Screen.Text

/-!
The picture with a byte for each pixel: 1 if it is lit and 0 if it is dark. Here a sprite is drawn
bit by bit. Each bit is combined with the byte of the pixel it falls on by exclusive or, and the
flag is raised by every byte that is then 1.
-/

namespace Chip8

structure Raster where
  /-- Row after row, each from the left. -/
  bytes : Vector UInt8 2048
  redraw : Bool
  deriving DecidableEq

namespace Raster

/-- Where the byte of a pixel is stored. -/
def cell (x : Fin 64) (y : Fin 32) : Fin 2048 := ⟨y.val * 64 + x.val, by omega⟩

def dark : Raster := ⟨Vector.replicate 2048 0, false⟩

def clear (_ : Raster) : Raster := ⟨Vector.replicate 2048 0, true⟩

/-- Draws bit number `k` from the left of a row of a sprite, with the row falling on row `y` of the
screen and its first bit on column `x`. -/
def drawBit (bits x : UInt8) (y : Nat) (s : Vector UInt8 2048 × Bool) (k : Nat) :
    Vector UInt8 2048 × Bool :=
  let c := cell (Screen.columnAt (x.toNat + k)) (Screen.rowAt y)
  let b := s.1.get c ^^^ ((bits >>> UInt8.ofNat (7 - k)) &&& 1)
  (s.1.set c.val b c.isLt, s.2 || b == 1)

def drawRow (bits x : UInt8) (y : Nat) (s : Vector UInt8 2048 × Bool) : Vector UInt8 2048 × Bool :=
  (List.range 8).foldl (drawBit bits x y) s

def drawRows (x : UInt8) (y : Nat) :
    List UInt8 → Vector UInt8 2048 × Bool → Vector UInt8 2048 × Bool
  | [], s => s
  | bits :: rest, s => drawRows x (y + 1) rest (drawRow bits x y s)

/-- Draws a sprite with its upper left corner at column `x` of row `y`, and tells the flag. -/
def draw (r : Raster) (x y : UInt8) (sprite : List UInt8) : Raster × Bool :=
  let s := drawRows x y.toNat sprite (r.bytes, false)
  (⟨s.1, true⟩, s.2)

/-- The bytes cut into rows of 64. -/
def rows (r : Raster) : List (List UInt8) :=
  (List.range 32).map fun y => (r.bytes.toList.drop (y * 64)).take 64

def lineChars (row : List UInt8) : List Char := row.map fun b => Screen.pixelChar (b == 1)

/-- The rows as lines of text with a line break between each two. -/
def text (r : Raster) : String := "\n".intercalate (r.rows.map fun row => .ofList (lineChars row))

end Raster

end Chip8
