import Chip8.Proofs.DrawFlag
import Chip8.Screen.Raster

/-!
The two forms of a picture, rows of bits and a byte for each pixel. Drawing bit by bit on the bytes
does what drawing row by row on the bits does, and raises the same flag (`Screen.draw_raster`). So
whatever is drawn the bytes are those of the bits (`Raster.painted_eq`), and no byte is ever
anything but 0 or 1.
-/

namespace Chip8

namespace Raster

open Screen (rowAt columnAt distance band paint)

/-- The bytes of a picture with the rows given. -/
def bytesOf (rows : Vector (BitVec 64) 32) : Vector UInt8 2048 :=
  Vector.ofFn fun k =>
    ((Screen.mk rows false).pixel (columnAt k.val) (rowAt (k.val / 64))).toUInt8

/-- Every byte is that of a pixel. -/
theorem exists_cell (k : Fin 2048) : ∃ x y, k = cell x y := by
  refine ⟨⟨k.val % 64, Nat.mod_lt _ (by decide)⟩, ⟨k.val / 64, by omega⟩, Fin.ext ?_⟩
  exact (Nat.div_add_mod' k.val 64).symm

theorem cell_inj {x x' : Fin 64} {y y' : Fin 32} : cell x y = cell x' y' ↔ x = x' ∧ y = y' := by
  constructor
  · intro h
    have hv : y.val * 64 + x.val = y'.val * 64 + x'.val := congrArg Fin.val h
    exact ⟨Fin.ext (by omega), Fin.ext (by omega)⟩
  · rintro ⟨rfl, rfl⟩
    rfl

theorem ext_cell {a b : Vector UInt8 2048} (h : ∀ x y, a.get (cell x y) = b.get (cell x y)) :
    a = b := by
  refine Vector.ext fun k hk => ?_
  obtain ⟨x, y, hc⟩ := exists_cell ⟨k, hk⟩
  have hxy := h x y
  rw [← hc] at hxy
  exact hxy

theorem get_bytesOf (rows : Vector (BitVec 64) 32) (redraw : Bool) (x : Fin 64) (y : Fin 32) :
    (bytesOf rows).get (cell x y) = ((Screen.mk rows redraw).pixel x y).toUInt8 := by
  have hx : columnAt (cell x y).val = x := Fin.ext (by simp [columnAt, cell])
  have hy : rowAt ((cell x y).val / 64) = y := Fin.ext (by simp [cell, rowAt]; omega)
  change (bytesOf rows)[(cell x y).val] = _
  simp only [bytesOf, Vector.getElem_ofFn, hx, hy]
  rfl

theorem get_set_cell (v : Vector UInt8 2048) (b : UInt8) (x x' : Fin 64) (y y' : Fin 32) :
    (v.set (cell x' y').val b (cell x' y').isLt).get (cell x y) =
      if x = x' ∧ y = y' then b else v.get (cell x y) := by
  have hcell : (cell x' y').val = (cell x y).val ↔ x = x' ∧ y = y' := by
    rw [← Fin.ext_iff, eq_comm, cell_inj]
  change (v.set (cell x' y').val b (cell x' y').isLt)[(cell x y).val] = _
  simp only [Vector.getElem_set, hcell]
  rfl

theorem xor_toUInt8 (a b : Bool) : a.toUInt8 ^^^ b.toUInt8 = (a ^^ b).toUInt8 := by
  cases a <;> cases b <;> rfl

theorem toUInt8_beq_one (a : Bool) : (a.toUInt8 == 1) = a := by
  cases a <;> rfl

/-- A bit that is moved to the end of its byte, with the rest cut off. -/
theorem shiftRight_and_one (bits : UInt8) {k : Nat} (hk : k < 8) :
    (bits >>> UInt8.ofNat k) &&& 1 = (bits.toNat.testBit k).toUInt8 := by
  have hshift : (UInt8.ofNat k).toNat % 8 = k := by
    rw [UInt8.toNat_ofNat_of_lt' (by show _ < 256; omega)]
    omega
  have hbit (b : Bool) : b.toUInt8.toNat = b.toNat := by cases b <;> rfl
  apply UInt8.toNat_inj.mp
  rw [UInt8.toNat_and, UInt8.toNat_shiftRight, hshift, hbit]
  change bits.toNat >>> k &&& 1 = (1 &&& bits.toNat >>> k != 0).toNat
  rw [Nat.and_comm]
  rcases Nat.mod_two_eq_zero_or_one (bits.toNat >>> k) with h | h <;>
    simp [Nat.one_and_eq_mod_two, h]

section Row

variable (bits x : UInt8) (y : Nat) (s : Vector UInt8 2048 × Bool)

/-- The byte that bit number `k` from the left makes of the byte `b`. -/
def struck (b : UInt8) (k : Nat) : UInt8 := b ^^^ (bits.toNat.testBit (7 - k)).toUInt8

theorem drawBit_of_lt {k : Nat} (hk : k < 8) :
    drawBit bits x y s k =
      (s.1.set (cell (columnAt (x.toNat + k)) (rowAt y)).val
          (struck bits (s.1.get (cell (columnAt (x.toNat + k)) (rowAt y))) k)
          (cell (columnAt (x.toNat + k)) (rowAt y)).isLt,
        s.2 || struck bits (s.1.get (cell (columnAt (x.toNat + k)) (rowAt y))) k == 1) := by
  rw [struck, ← shiftRight_and_one bits (by omega)]
  rfl

theorem drawBits_succ (n : Nat) :
    (List.range (n + 1)).foldl (drawBit bits x y) s =
      drawBit bits x y ((List.range n).foldl (drawBit bits x y) s) n := by
  rw [List.range_succ, List.foldl_append]
  rfl

theorem eq_columnAt_iff {k : Nat} (hk : k < 8) (px : Fin 64) :
    px = columnAt (x.toNat + k) ↔ distance x px = k := by
  constructor
  · rintro rfl
    exact Screen.distance_columnAt x hk
  · rintro rfl
    exact (Screen.columnAt_distance x px).symm

/-- After `n` bits those bytes have changed that are less than `n` columns away. -/
theorem get_drawBits {n : Nat} (hn : n ≤ 8) (px : Fin 64) (py : Fin 32) :
    ((List.range n).foldl (drawBit bits x y) s).1.get (cell px py) =
      if py = rowAt y ∧ distance x px < n then
        struck bits (s.1.get (cell px py)) (distance x px)
      else s.1.get (cell px py) := by
  induction n generalizing px py with
  | zero => simp
  | succ n ih =>
    have hlt : n < 8 := by omega
    rw [drawBits_succ, drawBit_of_lt bits x y _ hlt, get_set_cell, ih (by omega), ih (by omega)]
    simp only [eq_columnAt_iff x hlt, Screen.distance_columnAt x hlt, Nat.lt_irrefl, and_false,
      if_false]
    by_cases hy : py = rowAt y
    · subst hy
      by_cases hd : distance x px = n
      · subst hd
        simp [Screen.columnAt_distance]
      · simp [hd, show distance x px < n + 1 ↔ distance x px < n by omega]
    · simp [hy]

/-- After `n` bits the flag is up if one of the bytes that they left is 1. -/
theorem flag_drawBits {n : Nat} (hn : n ≤ 8) :
    ((List.range n).foldl (drawBit bits x y) s).2 =
      (s.2 || (List.range n).any fun k =>
        struck bits (s.1.get (cell (columnAt (x.toNat + k)) (rowAt y))) k == 1) := by
  induction n with
  | zero => simp
  | succ n ih =>
    have hlt : n < 8 := by omega
    rw [drawBits_succ, drawBit_of_lt bits x y _ hlt, ih (by omega), get_drawBits _ _ _ _ (by omega),
      if_neg (by simp [Screen.distance_columnAt x hlt]), List.range_succ, List.any_append]
    simp [Bool.or_assoc]

end Row

section Rows

variable (rows : Vector (BitVec 64) 32) (bits x : UInt8) (y : Nat)

theorem get_bytesOf_paint_row (px : Fin 64) (py : Fin 32) :
    (bytesOf (paint rows x y [bits])).get (cell px py) =
      if py = rowAt y ∧ distance x px < 8 then
        struck bits ((bytesOf rows).get (cell px py)) (distance x px)
      else (bytesOf rows).get (cell px py) := by
  have hrow : (y % 32 == py.val) = decide (py = rowAt y) := by
    rw [Bool.eq_iff_iff, beq_iff_eq, decide_eq_true_iff, Fin.ext_iff, eq_comm]
    rfl
  rw [get_bytesOf _ false, get_bytesOf _ false, Screen.pixel_paint_row, Screen.getMsbD_band_eq,
    struck, xor_toUInt8, hrow]
  by_cases hin : py = rowAt y ∧ distance x px < 8
  · simp [hin]
  · rw [if_neg hin, ← Bool.and_assoc, ← Bool.decide_and, decide_eq_false hin]
    simp

/-- Drawing a row bit by bit is combining it with its row of bits. -/
theorem drawRow_bytesOf (flag : Bool) :
    drawRow bits x y (bytesOf rows, flag) =
      (bytesOf (paint rows x y [bits]),
        flag || (paint rows x y [bits]).get (rowAt y) &&& band x 0xFF != 0) := by
  refine Prod.ext (ext_cell fun px py => ?_) ?_
  · rw [drawRow, get_drawBits _ _ _ _ (Nat.le_refl 8), get_bytesOf_paint_row]
  · have hlit {k : Nat} (hk : k < 8) :
        (struck bits ((bytesOf rows).get (cell (columnAt (x.toNat + k)) (rowAt y))) k == 1) =
          ((paint rows x y [bits]).get (rowAt y)).getMsbD (columnAt (x.toNat + k)) := by
      have hbyte := get_bytesOf_paint_row rows bits x y (columnAt (x.toNat + k)) (rowAt y)
      rw [Screen.distance_columnAt x hk, if_pos ⟨rfl, hk⟩, get_bytesOf _ false] at hbyte
      rw [← hbyte, toUInt8_beq_one]
      rfl
    rw [drawRow, flag_drawBits _ _ _ _ (Nat.le_refl 8)]
    congr 1
    rw [Bool.eq_iff_iff, List.any_eq_true, Screen.and_band_ne_zero_iff]
    refine exists_congr fun k => ?_
    rw [List.mem_range]
    exact and_congr_right fun hk => by rw [hlit hk]

theorem drawRows_bytesOf (sprite : List UInt8) (flag : Bool) :
    drawRows x y sprite (bytesOf rows, flag) =
      (bytesOf (paint rows x y sprite), flag || Screen.leavesLit rows x y sprite) := by
  induction sprite generalizing rows y flag with
  | nil =>
    change (bytesOf rows, flag) = (bytesOf rows, flag || false)
    rw [Bool.or_false]
  | cons bits rest ih =>
    rw [drawRows, drawRow_bytesOf, ih, Screen.leavesLit_cons, ← Screen.paint_cons, Bool.or_assoc]

end Rows

end Raster

/-- The picture with a byte for each pixel. -/
def Screen.raster (s : Screen) : Raster := ⟨Raster.bytesOf s.rows, s.redraw⟩

namespace Screen

theorem get_raster (s : Screen) (x : Fin 64) (y : Fin 32) :
    s.raster.bytes.get (Raster.cell x y) = (s.pixel x y).toUInt8 :=
  Raster.get_bytesOf s.rows s.redraw x y

/-- A sprite can be drawn on the bits or on the bytes, with the same flag. -/
theorem draw_raster (s : Screen) (x y : UInt8) (sprite : List UInt8) :
    s.raster.draw x y sprite = ((s.draw x y sprite).raster, s.drawFlag x y sprite) := by
  simp only [Raster.draw, raster, Raster.drawRows_bytesOf, Bool.false_or]
  rfl

theorem raster_of_unlit (s : Screen) (h : ∀ x y, s.pixel x y = false) :
    s.raster = ⟨Vector.replicate 2048 0, s.redraw⟩ := by
  refine congrArg (Raster.mk · s.redraw) (Raster.ext_cell fun x y => ?_)
  have hbyte : (s.pixel x y).toUInt8 = 0 := by rw [h]; rfl
  exact (s.get_raster x y).trans (hbyte.trans (Vector.getElem_replicate _).symm)

theorem raster_dark : dark.raster = .dark :=
  dark.raster_of_unlit pixel_dark

theorem raster_clear (s : Screen) : s.clear.raster = s.raster.clear :=
  s.clear.raster_of_unlit s.pixel_clear

end Screen

/-- What changes a picture. -/
inductive Stroke where
  | clear
  | draw (stamp : Stamp)

def Screen.stroke (s : Screen) : Stroke → Screen
  | .clear => s.clear
  | .draw d => s.draw d.column d.row d.sprite

/-- The dark screen after some strokes, the first one first. -/
def Screen.painted (strokes : List Stroke) : Screen := strokes.foldl Screen.stroke .dark

namespace Raster

def stroke (r : Raster) : Stroke → Raster
  | .clear => r.clear
  | .draw d => (r.draw d.column d.row d.sprite).1

def painted (strokes : List Stroke) : Raster := strokes.foldl stroke .dark

theorem stroke_raster (s : Screen) (k : Stroke) : s.raster.stroke k = (s.stroke k).raster := by
  cases k with
  | clear => rw [stroke, Screen.stroke, Screen.raster_clear]
  | draw d => rw [stroke, Screen.stroke, Screen.draw_raster]

theorem foldl_stroke_raster (s : Screen) (strokes : List Stroke) :
    strokes.foldl stroke s.raster = (strokes.foldl Screen.stroke s).raster := by
  induction strokes generalizing s with
  | nil => rfl
  | cons k rest ih => rw [List.foldl_cons, stroke_raster, ih, List.foldl_cons]

/-- Whatever is drawn, the bytes are those of the bits. -/
theorem painted_eq (strokes : List Stroke) : painted strokes = (Screen.painted strokes).raster := by
  rw [painted, ← Screen.raster_dark, foldl_stroke_raster, Screen.painted]

end Raster

end Chip8
