import Chip8.Fault
import Chip8.Instruction.Opcode

/-!
Sixteen keys, each held down or not. Setting a key that does not exist does nothing; asking for it
is a fault.
-/

namespace Chip8

structure Keypad where
  held : Vector Bool 16
  deriving DecidableEq, Repr

namespace Keypad

def released : Keypad := ⟨Vector.replicate 16 false⟩

def set (k : Keypad) (key : UInt8) (down : Bool) : Keypad := ⟨k.held.setIfInBounds key.toNat down⟩

def press (k : Keypad) (key : UInt8) : Keypad := k.set key true

def release (k : Keypad) (key : UInt8) : Keypad := k.set key false

def isHeld (k : Keypad) (key : UInt8) : Except Fault Bool :=
  match k.held[key.toNat]? with
  | some down => .ok down
  | none => .error (.keyOutOfRange key)

/-- The keys held, lowest first. -/
def heldKeys (k : Keypad) : List Nibble := (List.finRange 16).filter k.held.get

def lowest? (k : Keypad) : Option Nibble := (List.finRange 16).find? k.held.get

theorem lowest?_eq_head? (k : Keypad) : k.lowest? = k.heldKeys.head? := by
  rw [lowest?, heldKeys, List.head?_filter]

theorem isHeld_set (k : Keypad) (key other : UInt8) (down : Bool) :
    (k.set key down).isHeld other =
      if key = other ∧ other < 16 then .ok down else k.isHeld other := by
  simp only [isHeld, set, Vector.getElem?_setIfInBounds, UInt8.toNat_inj, UInt8.lt_iff_toNat_lt]
  by_cases h : key = other
  · subst h
    by_cases hk : key.toNat < 16 <;> simp [hk]
  · simp [h]

theorem isHeld_eq_error_iff (k : Keypad) (key : UInt8) (f : Fault) :
    k.isHeld key = .error f ↔ 15 < key.toNat ∧ f = .keyOutOfRange key := by
  unfold isHeld
  by_cases hk : key.toNat < 16
  · rw [Vector.getElem?_eq_getElem hk]
    exact ⟨nofun, fun h => by omega⟩
  · rw [Vector.getElem?_eq_none (by omega)]
    constructor
    · intro h
      cases h
      exact ⟨by omega, rfl⟩
    · rintro ⟨-, rfl⟩
      rfl

end Keypad

end Chip8
