import Chip8.Proofs.Drawing
import Chip8.Proofs.Faults

/-!
What the flag says after a sprite is drawn: that some pixel of the sprite's rectangle was lit just
after its row had been drawn (`Screen.drawFlag_iff`). No row of the screen is met twice by a sprite
of at most 32 rows, so that then it is the picture at the end that counts, and an instruction draws
no more than fifteen rows.
-/

namespace Chip8

namespace Screen

/-- Some pixel is lit of the rectangle of eight columns and `height` rows with its upper left corner
at column `x` of row `y`, wrapped around both edges. -/
def LitWithin (s : Screen) (x y : UInt8) (height : Nat) : Prop :=
  ∃ r < height, ∃ b < 8, s.pixel (columnAt (x.toNat + b)) (rowAt (y.toNat + r)) = true

theorem distance_columnAt (x : UInt8) {b : Nat} (hb : b < 8) :
    distance x (columnAt (x.toNat + b)) = b := by
  rw [distance_eq]
  change ((x.toNat + b) % 64 + 64 - x.toNat % 64) % 64 = b
  omega

theorem columnAt_distance (x : UInt8) (px : Fin 64) :
    columnAt (x.toNat + distance x px) = px := by
  apply Fin.ext
  rw [distance_eq]
  change (x.toNat + (px.val + 64 - x.toNat % 64) % 64) % 64 = px.val
  omega

/-- The eight columns of a sprite are those of the band that is all set. -/
theorem getMsbD_band_full (x : UInt8) (px : Fin 64) :
    (band x 0xFF).getMsbD px = decide (distance x px < 8) := by
  have hset : ∀ k < 8, (0xFF : UInt8).toNat.testBit (7 - k) = true := by decide
  rw [getMsbD_band_eq]
  by_cases hd : distance x px < 8
  · rw [hset _ hd, Bool.and_true]
  · simp [hd]

theorem and_band_ne_zero_iff (row : BitVec 64) (x : UInt8) :
    (row &&& band x 0xFF != 0) = true ↔
      ∃ b < 8, row.getMsbD (columnAt (x.toNat + b)) = true := by
  have hzero (k : Nat) : (0 : BitVec 64).getMsbD k = false := BitVec.getMsbD_zero
  rw [bne_iff_ne]
  constructor
  · intro hne
    obtain ⟨k, hk, hbit⟩ : ∃ k, ∃ hk : k < 64, (row &&& band x 0xFF).getMsbD k = true := by
      refine Classical.byContradiction fun hno => hne (BitVec.eq_of_getMsbD_eq fun k hk => ?_)
      rw [hzero]
      exact Bool.eq_false_iff.mpr fun hbit => hno ⟨k, hk, hbit⟩
    rw [BitVec.getMsbD_and, Bool.and_eq_true, getMsbD_band_full x ⟨k, hk⟩,
      decide_eq_true_eq] at hbit
    refine ⟨distance x ⟨k, hk⟩, hbit.2, ?_⟩
    rw [columnAt_distance]
    exact hbit.1
  · rintro ⟨b, hb, hbit⟩ hnone
    have hband := getMsbD_band_full x (columnAt (x.toNat + b))
    rw [distance_columnAt x hb, decide_eq_true hb] at hband
    have hboth : (row &&& band x 0xFF).getMsbD (columnAt (x.toNat + b)) = true := by
      rw [BitVec.getMsbD_and, hbit, hband]
      rfl
    rw [hnone, hzero] at hboth
    cases hboth

theorem leavesLit_cons (rows : Vector (BitVec 64) 32) (x : UInt8) (y : Nat) (bits : UInt8)
    (rest : List UInt8) :
    leavesLit rows x y (bits :: rest) =
      ((paint rows x y [bits]).get (rowAt y) &&& band x 0xFF != 0 ||
        leavesLit (paint rows x y [bits]) x (y + 1) rest) := by
  have hrow : (paint rows x y [bits]).get (rowAt y) = rows[rowAt y] ^^^ band x bits :=
    Vector.getElem_set_self _
  rw [hrow]
  rfl

/-- The flag is raised by a row that leaves one of its eight pixels lit. -/
theorem leavesLit_iff (rows : Vector (BitVec 64) 32) (x : UInt8) (y : Nat) (sprite : List UInt8) :
    leavesLit rows x y sprite = true ↔
      ∃ r < sprite.length, ∃ b < 8,
        ((paint rows x y (sprite.take (r + 1))).get (rowAt (y + r))).getMsbD
          (columnAt (x.toNat + b)) = true := by
  induction sprite generalizing rows y with
  | nil =>
    constructor
    · intro h
      cases h
    · rintro ⟨r, hr, -⟩
      cases hr
  | cons bits rest ih =>
    have hrow (r : Nat) : y + 1 + r = y + (r + 1) := by omega
    rw [leavesLit_cons, Bool.or_eq_true, and_band_ne_zero_iff, ih]
    simp only [hrow, ← paint_cons]
    constructor
    · rintro (⟨b, hb, hlit⟩ | ⟨r, hr, b, hb, hlit⟩)
      · exact ⟨0, Nat.zero_lt_succ _, b, hb, hlit⟩
      · exact ⟨r + 1, Nat.succ_lt_succ hr, b, hb, hlit⟩
    · rintro ⟨r, hr, b, hb, hlit⟩
      cases r with
      | zero => exact Or.inl ⟨b, hb, hlit⟩
      | succ r => exact Or.inr ⟨r, Nat.lt_of_succ_lt_succ hr, b, hb, hlit⟩

theorem drawFlag_iff (s : Screen) (x y : UInt8) (sprite : List UInt8) :
    s.drawFlag x y sprite = true ↔ ∃ r < sprite.length, ∃ b < 8,
      (s.draw x y (sprite.take (r + 1))).pixel (columnAt (x.toNat + b)) (rowAt (y.toNat + r)) =
        true :=
  leavesLit_iff s.rows x y.toNat sprite

/-- A pixel of the sprite's rectangle in terms of the sprite alone. -/
theorem pixel_draw_within (s : Screen) (x y : UInt8) (sprite : List UInt8) (r : Nat) {b : Nat}
    (hb : b < 8) :
    (s.draw x y sprite).pixel (columnAt (x.toNat + b)) (rowAt (y.toNat + r)) =
      (s.pixel (columnAt (x.toNat + b)) (rowAt (y.toNat + r)) ^^
        strikes sprite 0 (7 - b) (rowAt r) % 2 == 1) := by
  have hrow (k : Nat) :
      (y.toNat + k) % 32 = (rowAt (y.toNat + r)).val ↔ (0 + k) % 32 = (rowAt r).val := by
    change (y.toNat + k) % 32 = (y.toNat + r) % 32 ↔ (0 + k) % 32 = r % 32
    omega
  rw [pixel_draw, inverts, distance_columnAt x hb, decide_eq_true hb, Bool.true_and,
    strikes_congr sprite (7 - b) hrow]

/-- In a sprite of at most 32 rows no row meets that of another. -/
theorem strikes_take (sprite : List UInt8) (bit : Nat) {r : Nat} (hr : r < sprite.length)
    (hlen : sprite.length ≤ 32) :
    strikes (sprite.take (r + 1)) 0 bit (rowAt r) = strikes sprite 0 bit (rowAt r) := by
  have hrest : ∀ k < (sprite.drop (r + 1)).length,
      (0 + (sprite.take (r + 1)).length + k) % 32 ≠ (rowAt r).val := by
    intro k hk
    rw [List.length_drop] at hk
    rw [List.length_take]
    change _ ≠ r % 32
    omega
  conv => rhs; rw [← List.take_append_drop (r + 1) sprite]
  rw [strikes_append, strikes_eq_zero bit hrest]
  exact (Nat.add_zero _).symm

theorem drawFlag_iff_litWithin (s : Screen) (x y : UInt8) {sprite : List UInt8}
    (hlen : sprite.length ≤ 32) :
    s.drawFlag x y sprite = true ↔ (s.draw x y sprite).LitWithin x y sprite.length := by
  rw [drawFlag_iff]
  refine exists_congr fun r => and_congr_right fun hr => exists_congr fun b =>
    and_congr_right fun hb => ?_
  rw [pixel_draw_within s x y _ r hb, strikes_take sprite _ hr hlen,
    pixel_draw_within s x y _ r hb]

end Screen

namespace Machine

variable {σ : Type} [ByteSource σ] {m : Machine σ} {x y n : Nibble}

/-- What a cycle that draws leaves of screen and registers. -/
theorem draw_of_isOk (hok : m.cycle.answer.isOk = true) (hd : m.state.Meets 0xD x y n) :
    ∃ sprite : List UInt8, sprite.length = n.val ∧
      m.cycle.machine.state.screen =
        m.state.screen.draw (m.state.registers.get x) (m.state.registers.get y) sprite ∧
      m.cycle.machine.state.registers =
        m.state.registers.skip.setFlag (m.state.screen.drawFlag
          (m.state.registers.get x) (m.state.registers.get y) sprite) := by
  obtain ⟨ending, t, he, ht⟩ := executes_of_table hok hd (.draw x y n)
  rw [ht]
  cases he with
  | draw _ _ _ hs => exact ⟨_, Memory.length_readRange hs, rfl, rfl⟩

end Machine

/-- The flag of a drawing is raised just if some pixel of the sprite's rectangle is lit once its row
has been drawn, which the rows up to this one decide that come to lie on the same row of the screen.
For a sprite of at most 32 rows it is raised just if some pixel of the rectangle is lit in the end,
whether its bit in the sprite is set or not. So an instruction that draws leaves the flag at one if
the rectangle at the place that the registers held before has a lit pixel, else at zero, and it
changes neither the index nor any other register. -/
theorem flag_tells_lit_pixel (s : Screen) (column row : UInt8) (sprite : List UInt8) :
    (s.drawFlag column row sprite = true ↔ ∃ r < sprite.length, ∃ b < 8,
      (s.draw column row (sprite.take (r + 1))).pixel
        (Screen.columnAt (column.toNat + b)) (Screen.rowAt (row.toNat + r)) = true) ∧
    (∀ r < sprite.length, ∀ b < 8,
      (s.draw column row (sprite.take (r + 1))).pixel
          (Screen.columnAt (column.toNat + b)) (Screen.rowAt (row.toNat + r)) =
        (s.pixel (Screen.columnAt (column.toNat + b)) (Screen.rowAt (row.toNat + r)) ^^
          Screen.strikes (sprite.take (r + 1)) 0 (7 - b) (Screen.rowAt r) % 2 == 1)) ∧
    (sprite.length ≤ 32 →
      (s.drawFlag column row sprite = true ↔
        (s.draw column row sprite).LitWithin column row sprite.length)) ∧
    (∀ {σ : Type} [ByteSource σ] (m : Machine σ) (x y n : Nibble),
      m.cycle.answer.isOk = true → m.state.Meets 0xD x y n →
      (m.cycle.machine.state.screen.LitWithin
          (m.state.registers.get x) (m.state.registers.get y) n →
        m.cycle.machine.state.registers.flag = 1) ∧
      (¬ m.cycle.machine.state.screen.LitWithin
          (m.state.registers.get x) (m.state.registers.get y) n →
        m.cycle.machine.state.registers.flag = 0) ∧
      m.cycle.machine.state.registers.index = m.state.registers.index ∧
      ∀ z ≠ 0xF, m.cycle.machine.state.registers.get z = m.state.registers.get z) := by
  refine ⟨s.drawFlag_iff column row sprite, fun r _ b hb => s.pixel_draw_within column row _ r hb,
    fun hlen => s.drawFlag_iff_litWithin column row hlen, fun m x y n hok hd => ?_⟩
  obtain ⟨data, hlen, hscreen, hregisters⟩ := m.draw_of_isOk hok hd
  have hlit := m.state.screen.drawFlag_iff_litWithin (m.state.registers.get x)
    (m.state.registers.get y) (show data.length ≤ 32 by omega)
  rw [hlen] at hlit
  rw [hscreen, hregisters, ← hlit]
  refine ⟨fun hon => ?_, fun hoff => ?_, rfl, fun z hz => ?_⟩
  · rw [RegisterFile.flag, RegisterFile.get_setFlag, if_pos rfl, hon]
    rfl
  · rw [RegisterFile.flag, RegisterFile.get_setFlag, if_pos rfl, Bool.eq_false_iff.mpr hoff]
    rfl
  · rw [RegisterFile.get_setFlag, if_neg (Ne.symm hz)]
    rfl

/-- Of a taller sprite the rows beyond the first 32 can put out a pixel that raised the flag. -/
example :
    Screen.dark.drawFlag 0 0 (0x80 :: List.replicate 31 0 ++ [0x80]) = true ∧
    (Screen.dark.draw 0 0 (0x80 :: List.replicate 31 0 ++ [0x80])).rows = Screen.dark.rows := by
  decide +kernel

end Chip8
