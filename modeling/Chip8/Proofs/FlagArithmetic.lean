import Chip8.Machine.Execution
import Chip8.Proofs.Decoding

/-!
Arithmetic that sets the flag. The flag is a register like the others and can be an operand too. A
sum is stored before its carry, so that of a sum in the flag register only the carry remains; for
differences and shifts the flag is stored first, and an operand in the flag register is read after
that (`Workspace.flag_arithmetic`).
-/

namespace Chip8

theorem toNat_toUInt8_decide (p : Prop) [Decidable p] :
    (decide p).toUInt8.toNat = if p then 1 else 0 := by
  by_cases h : p
  · rw [if_pos h, decide_eq_true h]
    rfl
  · rw [if_neg h, decide_eq_false h]
    rfl

theorem toNat_sub_byte (a b : UInt8) : (a - b).toNat = (a.toNat + 256 - b.toNat) % 256 := by
  have hb := b.toNat_lt
  rw [UInt8.toNat_sub]
  omega

namespace RegisterFile

/-- One if the sum of two registers is more than a byte can hold. -/
def carry (r : RegisterFile) (x y : Nibble) : Nat :=
  if 0xFF < (r.get x).toNat + (r.get y).toNat then 1 else 0

/-- One if the first of two registers holds more than the second. -/
def excess (r : RegisterFile) (x y : Nibble) : Nat :=
  if (r.get y).toNat < (r.get x).toNat then 1 else 0

/-- What is read from register `x` after `flag` was stored in the flag. -/
def operand (r : RegisterFile) (flag : Nat) (x : Nibble) : Nat :=
  if x = 0xF then flag else (r.get x).toNat

/-- Registers `t` are `r` with `result` in register `x` and with `flag` in the flag, unless that is
register `x` itself. -/
structure Stores (r : RegisterFile) (x : Nibble) (result flag : Nat) (t : RegisterFile) :
    Prop where
  result_eq : (t.get x).toNat = result
  flag_eq : x ≠ 0xF → t.flag.toNat = flag
  others : ∀ z, z ≠ x → z ≠ 0xF → t.get z = r.get z
  index_eq : t.index = r.index
  counter_eq : t.counter = r.counter
  calls_eq : t.calls = r.calls

section

variable (r : RegisterFile) (x y : Nibble) (a flag : UInt8)

/-- The flag is stored last and takes the place of a result in the flag register. -/
theorem stores_result_first :
    r.Stores x (if x = 0xF then flag.toNat else a.toNat) flag.toNat
      ((r.set x a).set 0xF flag) where
  result_eq := by
    by_cases hx : x = 0xF
    · rw [if_pos hx, hx, get_set_self]
    · rw [if_neg hx, get_set_of_ne _ hx, get_set_self]
  flag_eq _ := congrArg UInt8.toNat (get_set_self _ 0xF flag)
  others z hx hf := by rw [get_set_of_ne _ hf, get_set_of_ne _ hx]
  index_eq := rfl
  counter_eq := rfl
  calls_eq := rfl

/-- The result is stored last and takes the place of the flag in the flag register. -/
theorem stores_flag_first : r.Stores x a.toNat flag.toNat ((r.set 0xF flag).set x a) where
  result_eq := congrArg UInt8.toNat (get_set_self _ x a)
  flag_eq hx := by rw [RegisterFile.flag, get_set_of_ne _ (Ne.symm hx), get_set_self]
  others z hx hf := by rw [get_set_of_ne _ hx, get_set_of_ne _ hf]
  index_eq := rfl
  counter_eq := rfl
  calls_eq := rfl

theorem toNat_get_set_flag : ((r.set 0xF flag).get x).toNat = r.operand flag.toNat x := by
  rw [operand]
  by_cases hx : x = 0xF
  · rw [if_pos hx, hx, get_set_self]
  · rw [if_neg hx, get_set_of_ne _ hx]

theorem stores_add :
    r.Stores x (if x = 0xF then r.carry x y else ((r.get x).toNat + (r.get y).toNat) % 256)
      (r.carry x y) (r.combine .add x y) := by
  have h := r.stores_result_first x (r.get x + r.get y)
    (decide (0xFF < (r.get x).toNat + (r.get y).toNat)).toUInt8
  rw [toNat_toUInt8_decide, UInt8.toNat_add] at h
  exact h

/-- A difference, stored in register `z`, of two registers that are read after the flag is set. -/
theorem stores_difference (z : Nibble) :
    r.Stores z ((r.operand flag.toNat x + 256 - r.operand flag.toNat y) % 256) flag.toNat
      ((r.set 0xF flag).set z ((r.set 0xF flag).get x - (r.set 0xF flag).get y)) := by
  have h := r.stores_flag_first z ((r.set 0xF flag).get x - (r.set 0xF flag).get y) flag
  rwa [toNat_sub_byte, toNat_get_set_flag, toNat_get_set_flag] at h

theorem toNat_excess : (decide (r.get y < r.get x)).toUInt8.toNat = r.excess x y := by
  simp only [toNat_toUInt8_decide, UInt8.lt_iff_toNat_lt, excess]

theorem stores_sub :
    r.Stores x ((r.operand (r.excess x y) x + 256 - r.operand (r.excess x y) y) % 256)
      (r.excess x y) (r.combine .sub x y) := by
  have h := r.stores_difference x y (decide (r.get y < r.get x)).toUInt8 x
  rw [toNat_excess] at h
  exact h

/-- The flag as an operand is the new one: zero less a flag that was nine is zero. -/
example : ((initial.set 0xF 9).combine .sub 0 0xF).get 0 = 0 := by decide

theorem stores_subFrom :
    r.Stores x ((r.operand (r.excess y x) y + 256 - r.operand (r.excess y x) x) % 256)
      (r.excess y x) (r.combine .subFrom x y) := by
  have h := r.stores_difference y x (decide (r.get x < r.get y)).toUInt8 x
  rw [toNat_excess] at h
  exact h

theorem stores_shiftRight :
    r.Stores x (if x = 0xF then 0 else (r.get x).toNat / 2) ((r.get x).toNat % 2)
      (r.shiftRight x) := by
  have hflag : (r.get x &&& 1).toNat = (r.get x).toNat % 2 := by
    rw [UInt8.toNat_and]
    exact Nat.and_one_is_mod _
  have hshift (b : UInt8) : (b >>> 1).toNat = b.toNat / 2 := by
    rw [UInt8.toNat_shiftRight]
    exact Nat.shiftRight_eq_div_pow _ 1
  have h := r.stores_flag_first x ((r.set 0xF (r.get x &&& 1)).get x >>> 1) (r.get x &&& 1)
  rw [hshift, toNat_get_set_flag, hflag, operand, apply_ite (· / 2)] at h
  have hzero : (r.get x).toNat % 2 / 2 = 0 := by omega
  rw [hzero] at h
  exact h

theorem stores_shiftLeft :
    r.Stores x (if x = 0xF then 2 * ((r.get x).toNat / 128) else 2 * (r.get x).toNat % 256)
      ((r.get x).toNat / 128) (r.shiftLeft x) := by
  have hflag : (r.get x >>> 7).toNat = (r.get x).toNat / 128 := by
    rw [UInt8.toNat_shiftRight]
    exact Nat.shiftRight_eq_div_pow _ 7
  have hshift (b : UInt8) : (b <<< 1).toNat = 2 * b.toNat % 256 := by
    rw [UInt8.toNat_shiftLeft, Nat.mul_comm 2]
    exact congrArg (· % 256) (Nat.shiftLeft_eq _ 1)
  have h := r.stores_flag_first x ((r.set 0xF (r.get x >>> 7)).get x <<< 1) (r.get x >>> 7)
  rw [hshift, toNat_get_set_flag, hflag, operand, apply_ite (2 * · % 256)] at h
  have hsmall : 2 * ((r.get x).toNat / 128) % 256 = 2 * ((r.get x).toNat / 128) := by
    have := (r.get x).toNat_lt
    omega
  rw [hsmall] at h
  exact h

theorem excess_eq_zero {r : RegisterFile} {x y : Nibble} (h : r.get x = r.get y) :
    r.excess x y = 0 := by
  rw [excess, h, if_neg (Nat.lt_irrefl _)]

end

end RegisterFile

namespace Workspace

open Work (execute)

variable {σ : Type} [ByteSource σ] (w : Workspace σ)

/-- The opcode is executed without a fault. It stores a result and a flag in the registers and does
nothing else. -/
def Stores (op : Opcode) (x : Nibble) (result flag : Nat) : Prop :=
  ∃ t, (execute (.decode op)).run w = .ok .done { w with state := w.state.setRegisters t } ∧
    w.state.registers.Stores x result flag t

theorem stores_of_table {a b c d x : Nibble} {i : Instruction} {t : RegisterFile}
    {result flag : Nat} (ht : Instruction.Table a b c d i)
    (hi : (execute i).run w = .ok .done { w with state := w.state.setRegisters t })
    (hs : w.state.registers.Stores x result flag t) :
    w.Stores (.ofDigits a b c d) x result flag := by
  refine ⟨t, ?_, hs⟩
  rw [Instruction.decode_of_table ht]
  exact hi

/-- What the five instructions that set the flag store, whichever registers they name. Of a sum in
the flag register only the carry remains. Operands of a difference in the flag register are read as
the flag, and equal ones do not set it. A shift takes its bit from the register before anything is
stored, and it ignores the second of the two registers. -/
theorem flag_arithmetic (w : Workspace σ) (x y : Nibble) :
    w.Stores (.ofDigits 8 x y 4) x
      (if x = 0xF then w.state.registers.carry x y
        else ((w.state.registers.get x).toNat + (w.state.registers.get y).toNat) % 256)
      (w.state.registers.carry x y) ∧
    w.Stores (.ofDigits 8 x y 5) x
      ((w.state.registers.operand (w.state.registers.excess x y) x + 256 -
        w.state.registers.operand (w.state.registers.excess x y) y) % 256)
      (w.state.registers.excess x y) ∧
    w.Stores (.ofDigits 8 x y 7) x
      ((w.state.registers.operand (w.state.registers.excess y x) y + 256 -
        w.state.registers.operand (w.state.registers.excess y x) x) % 256)
      (w.state.registers.excess y x) ∧
    w.Stores (.ofDigits 8 x y 6) x
      (if x = 0xF then 0 else (w.state.registers.get x).toNat / 2)
      ((w.state.registers.get x).toNat % 2) ∧
    w.Stores (.ofDigits 8 x y 0xE) x
      (if x = 0xF then 2 * ((w.state.registers.get x).toNat / 128)
        else 2 * (w.state.registers.get x).toNat % 256)
      ((w.state.registers.get x).toNat / 128) ∧
    (∀ z, Instruction.decode (.ofDigits 8 x z 6) = Instruction.decode (.ofDigits 8 x y 6) ∧
      Instruction.decode (.ofDigits 8 x z 0xE) = Instruction.decode (.ofDigits 8 x y 0xE)) ∧
    (w.state.registers.get x = w.state.registers.get y →
      w.Stores (.ofDigits 8 x y 5) x
        ((w.state.registers.operand 0 x + 256 - w.state.registers.operand 0 y) % 256) 0 ∧
      w.Stores (.ofDigits 8 x y 7) x
        ((w.state.registers.operand 0 y + 256 - w.state.registers.operand 0 x) % 256) 0) := by
  have hsub := w.stores_of_table (.sub x y) rfl (w.state.registers.stores_sub x y)
  have hsubFrom := w.stores_of_table (.subFrom x y) rfl (w.state.registers.stores_subFrom x y)
  refine ⟨?_, hsub, hsubFrom, ?_, ?_, fun z => ⟨?_, ?_⟩, fun h => ⟨?_, ?_⟩⟩
  · exact w.stores_of_table (.add x y) rfl (RegisterFile.stores_add ..)
  · exact w.stores_of_table (.shiftRight x y) rfl (RegisterFile.stores_shiftRight ..)
  · exact w.stores_of_table (.shiftLeft x y) rfl (RegisterFile.stores_shiftLeft ..)
  · rw [Instruction.decode_of_table (.shiftRight x z), Instruction.decode_of_table (.shiftRight x y)]
  · rw [Instruction.decode_of_table (.shiftLeft x z), Instruction.decode_of_table (.shiftLeft x y)]
  · rwa [RegisterFile.excess_eq_zero h] at hsub
  · rwa [RegisterFile.excess_eq_zero h.symm] at hsubFrom

end Workspace

end Chip8
