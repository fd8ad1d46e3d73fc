/-!
Two counters that count down once per cycle until they reach zero. A beep is due when the sound
counter goes from one to zero.
-/

namespace Chip8

structure Timers where
  delay : UInt8
  sound : UInt8
  deriving DecidableEq, Repr

namespace Timers

def stopped : Timers := ⟨0, 0⟩

/-- One less, but not below zero. -/
def countDown (t : UInt8) : UInt8 := if t = 0 then 0 else t - 1

def tick (t : Timers) : Timers := ⟨countDown t.delay, countDown t.sound⟩

/-- The next tick is the one that ends the sound. -/
def beeps (t : Timers) : Bool := t.sound = 1

theorem toNat_countDown (t : UInt8) : (countDown t).toNat = t.toNat - 1 := by
  unfold countDown
  split
  · subst t; rfl
  · rename_i h
    have : 1 ≤ t := by
      rw [UInt8.le_iff_toNat_le]
      have : t.toNat ≠ 0 := fun e => h (UInt8.toNat_inj.mp e)
      simp; omega
    rw [UInt8.toNat_sub_of_le _ _ this]; rfl

end Timers

end Chip8
