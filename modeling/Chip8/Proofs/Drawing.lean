import Chip8.Screen.Basic

/-!
What sprites do to the picture. A row of a sprite strikes the pixels under its set bits, and a pixel
is inverted if it is struck an odd number of times (`Screen.pixel_draw`). Sprites that are drawn one
after another add up their strikes (`Screen.pixel_drawAll`), so neither their order matters nor what
is drawn twice.
-/

namespace Chip8

namespace Screen

/-- How far column `px` lies to the right of column `x`, around the edge. -/
def distance (x : UInt8) (px : Fin 64) : Nat := (((px.val : Int) - x.toNat) % 64).toNat

/-- The number of rows of a sprite that have bit number `bit` set and fall on row `py` of the
screen, its first row being drawn on row `y`. -/
def strikes (sprite : List UInt8) (y bit : Nat) (py : Fin 32) : Nat :=
  (sprite.zipIdx y).countP fun row => row.2 % 32 == py.val && row.1.toNat.testBit bit

/-- A sprite that is drawn at column `x` of row `y` strikes the pixel an odd number of times. -/
def inverts (x : UInt8) (y : Nat) (sprite : List UInt8) (px : Fin 64) (py : Fin 32) : Bool :=
  distance x px < 8 && strikes sprite y (7 - distance x px) py % 2 == 1

theorem distance_eq (x : UInt8) (px : Fin 64) :
    distance x px = (px.val + 64 - x.toNat % 64) % 64 := by
  unfold distance
  omega

theorem distance_congr {x x' : UInt8} (h : x.toNat % 64 = x'.toNat % 64) (px : Fin 64) :
    distance x px = distance x' px := by
  rw [distance_eq, distance_eq, h]

/-- From the left the bits of a byte are those with the numbers 7 to 0. -/
theorem getMsbD_toBitVec (bits : UInt8) (d : Nat) :
    bits.toBitVec.getMsbD d = (decide (d < 8) && bits.toNat.testBit (7 - d)) := by
  rw [BitVec.getMsbD_eq_getLsbD]
  rfl

theorem getMsbD_band_eq (x bits : UInt8) (px : Fin 64) :
    (band x bits).getMsbD px =
      (decide (distance x px < 8) && bits.toNat.testBit (7 - distance x px)) := by
  rw [getMsbD_band, ← distance_eq, getMsbD_toBitVec]

theorem odd_add (a b : Nat) : ((a + b) % 2 == 1) = ((a % 2 == 1) ^^ (b % 2 == 1)) := by
  rcases Nat.mod_two_eq_zero_or_one a with ha | ha <;>
  · rcases Nat.mod_two_eq_zero_or_one b with hb | hb <;> simp [Nat.add_mod, ha, hb]

theorem odd_toNat (b : Bool) : (b.toNat % 2 == 1) = b := by
  cases b <;> rfl

section Strikes

variable (sprite rest : List UInt8) (y bit : Nat) (py : Fin 32)

theorem strikes_cons (bits : UInt8) :
    strikes (bits :: rest) y bit py =
      strikes rest (y + 1) bit py + (y % 32 == py.val && bits.toNat.testBit bit).toNat := by
  rw [strikes, List.zipIdx_cons, List.countP_cons, ← strikes]
  cases y % 32 == py.val && bits.toNat.testBit bit <;> rfl

theorem strikes_append :
    strikes (sprite ++ rest) y bit py =
      strikes sprite y bit py + strikes rest (y + sprite.length) bit py := by
  rw [strikes, List.zipIdx_append, List.countP_append, strikes, strikes]

variable {y py} in
/-- Only the distance between a sprite and a row of the screen matters, around the edge. -/
theorem strikes_congr {y' : Nat} {py' : Fin 32}
    (h : ∀ k, (y + k) % 32 = py.val ↔ (y' + k) % 32 = py'.val) :
    strikes sprite y bit py = strikes sprite y' bit py' := by
  induction sprite generalizing y y' with
  | nil => rfl
  | cons bits rest ih =>
    have hrow : (y % 32 == py.val) = (y' % 32 == py'.val) := by
      rw [Bool.eq_iff_iff, beq_iff_eq, beq_iff_eq]
      exact h 0
    have hrest (k : Nat) : (y + 1 + k) % 32 = py.val ↔ (y' + 1 + k) % 32 = py'.val := by
      rw [Nat.add_assoc, Nat.add_assoc]
      exact h (1 + k)
    rw [strikes_cons, strikes_cons, ih hrest, hrow]

variable {sprite y py} in
theorem strikes_eq_zero (h : ∀ k < sprite.length, (y + k) % 32 ≠ py.val) :
    strikes sprite y bit py = 0 := by
  induction sprite generalizing y with
  | nil => rfl
  | cons bits rest ih =>
    have hrow : (y % 32 == py.val) = false := beq_false_of_ne (h 0 (Nat.zero_lt_succ _))
    have hrest (k : Nat) (hk : k < rest.length) : (y + 1 + k) % 32 ≠ py.val := by
      rw [Nat.add_right_comm, Nat.add_assoc]
      exact h (k + 1) (Nat.succ_lt_succ hk)
    rw [strikes_cons, ih hrest, hrow]
    rfl

end Strikes

theorem inverts_nil (x : UInt8) (y : Nat) (px : Fin 64) (py : Fin 32) :
    inverts x y [] px py = false :=
  Bool.and_false _

theorem inverts_cons (x bits : UInt8) (rest : List UInt8) (y : Nat) (px : Fin 64) (py : Fin 32) :
    inverts x y (bits :: rest) px py =
      ((y % 32 == py.val && (band x bits).getMsbD px) ^^ inverts x (y + 1) rest px py) := by
  rw [inverts, strikes_cons, odd_add, odd_toNat, getMsbD_band_eq, inverts]
  cases decide (distance x px < 8) with
  | false => simp
  | true => simp [Bool.xor_comm]

theorem inverts_congr {x x' : UInt8} {y y' : Nat} (hx : x.toNat % 64 = x'.toNat % 64)
    (hy : y % 32 = y' % 32) (sprite : List UInt8) :
    inverts x y sprite = inverts x' y' sprite := by
  funext px py
  have hrow (k : Nat) : (y + k) % 32 = py.val ↔ (y' + k) % 32 = py.val := by omega
  rw [inverts, inverts, distance_congr hx, strikes_congr sprite _ hrow]

/-- A sprite is painted row by row. -/
theorem paint_cons (rows : Vector (BitVec 64) 32) (x : UInt8) (y : Nat) (bits : UInt8)
    (rest : List UInt8) :
    paint rows x y (bits :: rest) = paint (paint rows x y [bits]) x (y + 1) rest := rfl

theorem pixel_paint_row (rows : Vector (BitVec 64) 32) (x : UInt8) (y : Nat) (bits : UInt8)
    (redraw : Bool) (px : Fin 64) (py : Fin 32) :
    (Screen.mk (paint rows x y [bits]) redraw).pixel px py =
      ((Screen.mk rows redraw).pixel px py ^^ (y % 32 == py.val && (band x bits).getMsbD px)) := by
  have hset : paint rows x y [bits] = rows.set (rowAt y) (rows[rowAt y] ^^^ band x bits) := rfl
  rw [hset]
  by_cases hy : y % 32 = py.val
  · have hrow : rowAt y = py := Fin.ext hy
    subst hrow
    simp [pixel, hy]
  · have hrow : (rowAt y).val ≠ py.val := hy
    simp [pixel, hrow, beq_false_of_ne hy]

/-- Painting inverts the pixels that the sprite strikes an odd number of times. -/
theorem pixel_paint (rows : Vector (BitVec 64) 32) (x : UInt8) (y : Nat) (sprite : List UInt8)
    (redraw : Bool) (px : Fin 64) (py : Fin 32) :
    (Screen.mk (paint rows x y sprite) redraw).pixel px py =
      ((Screen.mk rows redraw).pixel px py ^^ inverts x y sprite px py) := by
  induction sprite generalizing rows y with
  | nil =>
    rw [inverts_nil, Bool.xor_false]
    rfl
  | cons bits rest ih => rw [paint_cons, ih, pixel_paint_row, inverts_cons, Bool.xor_assoc]

theorem pixel_draw (s : Screen) (x y : UInt8) (sprite : List UInt8) (px : Fin 64) (py : Fin 32) :
    (s.draw x y sprite).pixel px py = (s.pixel px py ^^ inverts x y.toNat sprite px py) :=
  pixel_paint s.rows x y.toNat sprite true px py

theorem paint_append (rows : Vector (BitVec 64) 32) (x : UInt8) (y : Nat)
    (sprite rest : List UInt8) :
    paint rows x y (sprite ++ rest) =
      paint (paint rows x y sprite) x (y + sprite.length) rest := by
  induction sprite generalizing rows y with
  | nil => rfl
  | cons bits sprite ih =>
    rw [List.cons_append, paint_cons, ih, ← paint_cons, List.length_cons, Nat.add_right_comm,
      Nat.add_assoc]

/-- A sprite comes to lie on the same rows if it is drawn 32 rows further down. -/
theorem paint_add_height (rows : Vector (BitVec 64) 32) (x : UInt8) (y : Nat)
    (sprite : List UInt8) : paint rows x (y + 32) sprite = paint rows x y sprite := by
  induction sprite generalizing rows y with
  | nil => rfl
  | cons bits rest ih =>
    have hset (k : Nat) :
        paint rows x k [bits] = rows.set (rowAt k) (rows[rowAt k] ^^^ band x bits) := rfl
    have hrow : rowAt (y + 32) = rowAt y := Fin.ext (Nat.add_mod_right y 32)
    have hfirst : paint rows x (y + 32) [bits] = paint rows x y [bits] := by
      simp only [hset, hrow]
    rw [paint_cons, Nat.add_right_comm, ih, hfirst, ← paint_cons]

/-- Drawing inverts a pixel of the eight columns of the sprite if an odd number of the sprite's rows
fall on its row and have the bit for its column set, and it leaves all other pixels alone; columns
and rows are counted around the edges. A redraw is requested. What a sprite has beyond its first 32
rows is drawn over these. -/
theorem draw_inverts_pixels (s : Screen) (x y : UInt8) (sprite : List UInt8) :
    (∀ px py, (s.draw x y sprite).pixel px py =
      if distance x px < 8 then
        s.pixel px py ^^ strikes sprite y.toNat (7 - distance x px) py % 2 == 1
      else s.pixel px py) ∧
    (s.draw x y sprite).redraw = true ∧
    ∀ top rest, top.length = 32 →
      s.draw x y (top ++ rest) = (s.draw x y top).draw x y rest := by
  refine ⟨fun px py => ?_, s.redraw_draw x y sprite, fun top rest htop => ?_⟩
  · rw [pixel_draw, inverts]
    by_cases hd : distance x px < 8
    · simp [hd]
    · simp [hd]
  · have hrows : paint s.rows x y.toNat (top ++ rest) =
        paint (paint s.rows x y.toNat top) x y.toNat rest := by
      rw [paint_append, htop, paint_add_height]
    simp only [draw, hrows]

end Screen

/-- A sprite with the place where it is drawn. -/
structure Stamp where
  column : UInt8
  row : UInt8
  sprite : List UInt8

namespace Stamp

/-- The same place named by a column and a row of the screen. -/
def wrapped (d : Stamp) : Stamp := { d with column := d.column % 64, row := d.row % 32 }

def inverts (d : Stamp) : Fin 64 → Fin 32 → Bool :=
  Screen.inverts d.column d.row.toNat d.sprite

theorem inverts_wrapped (d : Stamp) : d.wrapped.inverts = d.inverts := by
  refine Screen.inverts_congr ?_ ?_ d.sprite
  · change (d.column % 64).toNat % 64 = d.column.toNat % 64
    rw [UInt8.toNat_mod]
    exact Nat.mod_mod _ 64
  · change (d.row % 32).toNat % 32 = d.row.toNat % 32
    rw [UInt8.toNat_mod]
    exact Nat.mod_mod _ 32

end Stamp

namespace Screen

/-- Draws some sprites, the first one first. -/
def drawAll (s : Screen) (stamps : List Stamp) : Screen :=
  stamps.foldl (fun s d => s.draw d.column d.row d.sprite) s

/-- Of some sprites an odd number inverts the pixel. -/
def invertedBy (stamps : List Stamp) (px : Fin 64) (py : Fin 32) : Bool :=
  stamps.countP (·.inverts px py) % 2 == 1

theorem pixel_drawAll (s : Screen) (stamps : List Stamp) (px : Fin 64) (py : Fin 32) :
    (s.drawAll stamps).pixel px py = (s.pixel px py ^^ invertedBy stamps px py) := by
  induction stamps generalizing s with
  | nil => simp [drawAll, invertedBy]
  | cons d rest ih =>
    have hcount : (d :: rest).countP (·.inverts px py) =
        (d.inverts px py).toNat + rest.countP (·.inverts px py) := by
      rw [List.countP_cons, Nat.add_comm]
      cases d.inverts px py <;> rfl
    rw [invertedBy, hcount, odd_add, odd_toNat, ← invertedBy, ← Bool.xor_assoc]
    exact (ih (s.draw d.column d.row d.sprite)).trans
      (congrArg (· ^^ _) (s.pixel_draw d.column d.row d.sprite px py))

/-- What sprites make of a picture is told by which pixels an odd number of them inverts. -/
theorem pixel_drawAll_congr (s : Screen) {a b : List Stamp}
    (h : ∀ px py, a.countP (·.inverts px py) % 2 = b.countP (·.inverts px py) % 2) :
    (s.drawAll a).pixel = (s.drawAll b).pixel := by
  funext px py
  rw [pixel_drawAll, pixel_drawAll, invertedBy, invertedBy, h]

/-- Drawing is an exclusive or. The picture that some sprites leave does not depend on the order in
which they are drawn, it is the same without two that are equal, wherever these stand, and it is the
same if the place of one is named by its remainders. So a sprite that is drawn a second time is gone
without a trace, whatever was drawn in between. -/
theorem draws_commute_and_cancel (s : Screen) :
    (∀ a b : List Stamp, a.Perm b → (s.drawAll a).pixel = (s.drawAll b).pixel) ∧
    (∀ (a b c : List Stamp) (d : Stamp),
      (s.drawAll (a ++ d :: (b ++ d :: c))).pixel = (s.drawAll (a ++ (b ++ c))).pixel) ∧
    (∀ (a b : List Stamp) (d : Stamp),
      (s.drawAll (a ++ d.wrapped :: b)).pixel = (s.drawAll (a ++ d :: b)).pixel) ∧
    (∀ (b : List Stamp) (d : Stamp),
      (s.drawAll (d :: (b ++ [d]))).pixel = (s.drawAll b).pixel) := by
  refine ⟨fun a b h => ?_, fun a b c d => ?_, fun a b d => ?_, fun b d => ?_⟩
  · exact s.pixel_drawAll_congr fun px py => by rw [h.countP_eq]
  · refine s.pixel_drawAll_congr fun px py => ?_
    simp only [List.countP_append, List.countP_cons]
    omega
  · refine s.pixel_drawAll_congr fun px py => ?_
    simp only [List.countP_append, List.countP_cons, Stamp.inverts_wrapped]
  · refine s.pixel_drawAll_congr fun px py => ?_
    simp only [List.countP_append, List.countP_cons, List.countP_nil]
    omega

end Screen

end Chip8
