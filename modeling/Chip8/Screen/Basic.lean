/-!
The screen: 32 rows of 64 pixels. A row is a word whose most significant bit is its leftmost pixel.
Sprites are eight pixels wide and of any height; they are combined with the picture by exclusive or
and wrap around both edges.
-/

namespace Chip8

structure Screen where
  rows : Vector (BitVec 64) 32
  /-- The picture was cleared or drawn on and should be shown again. -/
  redraw : Bool
  deriving DecidableEq, Repr

namespace Screen

def dark : Screen := ⟨Vector.replicate 32 0, false⟩

/-- The pixel in column `x`, counted from the left, of row `y`, counted from the top. -/
def pixel (s : Screen) (x : Fin 64) (y : Fin 32) : Bool := s.rows[y].getMsbD x

/-- The same picture with no redraw requested. -/
def shown (s : Screen) : Screen := { s with redraw := false }

def clear (_ : Screen) : Screen := ⟨Vector.replicate 32 0, true⟩

/-- A row that is dark but for the eight pixels from column `x` on, wrapped around the edge. -/
def band (x : UInt8) (bits : UInt8) : BitVec 64 :=
  (bits.toBitVec.setWidth 64 <<< 56).rotateRight x.toNat

/-- The row of the screen on which a sprite row with the number `y` falls. -/
def rowAt (y : Nat) : Fin 32 := Fin.ofNat 32 y

/-- The column of the screen on which a pixel with the number `x` falls. -/
def columnAt (x : Nat) : Fin 64 := Fin.ofNat 64 x

/-- Combines the rows of a sprite with the rows of the picture from row `y` on. -/
def paint (rows : Vector (BitVec 64) 32) (x : UInt8) (y : Nat) :
    List UInt8 → Vector (BitVec 64) 32
  | [] => rows
  | bits :: rest => paint (rows.set (rowAt y) (rows[rowAt y] ^^^ band x bits)) x (y + 1) rest

/-- Some row of the sprite, once combined, leaves a pixel of its eight columns lit. A row that a
taller sprite meets again counts each time. -/
def leavesLit (rows : Vector (BitVec 64) 32) (x : UInt8) (y : Nat) : List UInt8 → Bool
  | [] => false
  | bits :: rest =>
    let row := rows[rowAt y] ^^^ band x bits
    row &&& band x 0xFF != 0 || leavesLit (rows.set (rowAt y) row) x (y + 1) rest

/-- Draws a sprite with its upper left corner at column `x` of row `y`. -/
def draw (s : Screen) (x y : UInt8) (sprite : List UInt8) : Screen :=
  ⟨paint s.rows x y.toNat sprite, true⟩

/-- The flag that drawing the sprite leaves behind. -/
def drawFlag (s : Screen) (x y : UInt8) (sprite : List UInt8) : Bool :=
  leavesLit s.rows x y.toNat sprite

/-- The lit pixels, row after row. -/
def litPixels (s : Screen) : List (Fin 64 × Fin 32) :=
  (List.finRange 32).flatMap fun y =>
    (List.finRange 64).filterMap fun x => if s.pixel x y then some (x, y) else none

@[simp] theorem redraw_draw (s : Screen) (x y : UInt8) (sprite : List UInt8) :
    (s.draw x y sprite).redraw = true := rfl

@[simp] theorem redraw_shown (s : Screen) : s.shown.redraw = false := rfl

@[simp] theorem redraw_clear (s : Screen) : s.clear.redraw = true := rfl

@[simp] theorem pixel_dark (x : Fin 64) (y : Fin 32) : dark.pixel x y = false := by
  simp [pixel, dark]

@[simp] theorem pixel_clear (s : Screen) (x : Fin 64) (y : Fin 32) : s.clear.pixel x y = false := by
  simp [pixel, clear]

/-- A pixel of a band that begins in column `a` is the bit of its byte at the distance from `a` to
the pixel, counted to the right and around the edge. -/
theorem getMsbD_band (a bits : UInt8) (x : Fin 64) :
    (band a bits).getMsbD x = bits.toBitVec.getMsbD ((x.val + 64 - a.toNat % 64) % 64) := by
  have hx := x.isLt
  have ha : a.toNat % 64 < 64 := Nat.mod_lt _ (by decide)
  have shift (k : Nat) (hk : k < 64) :
      (bits.toBitVec.setWidth 64 <<< 56).getMsbD k = bits.toBitVec.getMsbD k := by
    simp only [BitVec.getMsbD_eq_getLsbD, BitVec.getLsbD_shiftLeft, BitVec.getLsbD_setWidth]
    by_cases h : k < 8
    · simp [hk, h, show 64 - 1 - k < 64 by omega, show ¬ 64 - 1 - k < 56 by omega,
        show 64 - 1 - k - 56 = 7 - k by omega, show 7 - k < 64 by omega]
    · simp [h, show 64 - 1 - k < 56 by omega]
  rw [band, BitVec.getMsbD_rotateRight]
  by_cases h : x.val < a.toNat % 64
  · simp only [h, hx, decide_true, Bool.true_and, if_true]
    rw [shift _ (by omega)]
    congr 1; omega
  · simp only [h, hx, decide_true, Bool.true_and, if_false]
    rw [shift _ (by omega)]
    congr 1; omega

end Screen

end Chip8
