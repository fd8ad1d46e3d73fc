import Chip8.Fault
import Chip8.Nibble

/-!
The return addresses of the calls in progress. There are sixteen slots and a depth; a push raises
the depth and then stores, so slot 0 is never written and at most fifteen addresses are held. A pop
leaves its slot as it was: `toList` is the content, the slots above it are leftovers.
-/

namespace Chip8

structure CallStack where
  slots : Vector UInt16 16
  depth : Nibble
  deriving DecidableEq, Repr

namespace CallStack

def empty : CallStack := ⟨Vector.replicate 16 0, 0⟩

/-- The addresses held, oldest first. -/
def toList (s : CallStack) : List UInt16 := (s.slots.toList.drop 1).take s.depth

def push (s : CallStack) (a : UInt16) : Except Fault CallStack :=
  if h : s.depth.val + 1 < 16 then
    .ok ⟨s.slots.set (s.depth.val + 1) a, ⟨s.depth.val + 1, h⟩⟩
  else .error .stackOverflow

def pop (s : CallStack) : Except Fault (UInt16 × CallStack) :=
  if s.depth = 0 then .error .stackUnderflow
  else .ok (s.slots[s.depth], ⟨s.slots, s.depth - 1⟩)

@[simp] theorem toList_empty : empty.toList = [] := rfl

@[simp] theorem length_toList (s : CallStack) : s.toList.length = s.depth := by
  have := s.depth.isLt
  simp [toList]; omega

theorem getElem?_toList (s : CallStack) (k : Nat) :
    s.toList[k]? = if k < s.depth.val then s.slots[k + 1]? else none := by
  simp [toList, List.getElem?_take]

/-- A push appends the address. -/
theorem toList_push {s t : CallStack} {a : UInt16} (h : s.push a = .ok t) :
    t.toList = s.toList ++ [a] := by
  unfold push at h
  split at h
  · rename_i hd
    cases h
    apply List.ext_getElem?
    intro k
    rw [getElem?_toList, List.getElem?_append, length_toList, getElem?_toList]
    simp only [Vector.getElem?_set]
    by_cases hk : k < s.depth.val
    · have : ¬ s.depth.val = k := by omega
      simp [hk, this, show k < s.depth.val + 1 by omega]
    · by_cases he : k = s.depth.val
      · subst he; simp
      · rw [if_neg (by omega), if_neg hk, List.getElem?_eq_none (by simp; omega)]
  · cases h

/-- A pop takes the address pushed last. -/
theorem toList_pop {s t : CallStack} {a : UInt16} (h : s.pop = .ok (a, t)) :
    s.toList = t.toList ++ [a] := by
  unfold pop at h
  split at h
  · cases h
  · rename_i hd
    cases h
    have hpos : s.depth.val ≠ 0 := fun e => hd (Fin.ext e)
    have hp : (s.depth - 1).val = s.depth.val - 1 := Fin.coe_sub_iff_le.mpr (by
      rw [Fin.le_def]; simp; omega)
    apply List.ext_getElem?
    intro k
    rw [getElem?_toList, List.getElem?_append, length_toList, getElem?_toList]
    simp only [hp]
    by_cases hk : k < s.depth.val - 1
    · simp [hk, show k < s.depth.val by omega]
    · by_cases he : k = s.depth.val - 1
      · subst he
        have e : s.depth.val - 1 + 1 = s.depth.val := by omega
        simp [e, show s.depth.val - 1 < s.depth.val by omega]
      · rw [if_neg (by omega), if_neg hk, List.getElem?_eq_none (by simp; omega)]

/-- A push writes to the slot above the depth and to no other. -/
theorem getElem?_slots_push {s t : CallStack} {a : UInt16} (h : s.push a = .ok t) {k : Nat}
    (hk : k ≠ s.depth.val + 1) : t.slots[k]? = s.slots[k]? := by
  unfold push at h
  split at h
  · cases h
    rw [Vector.getElem?_set, if_neg (Ne.symm hk)]
  · cases h

theorem bottom_push {s t : CallStack} {a : UInt16} (h : s.push a = .ok t) :
    t.slots[0]? = s.slots[0]? :=
  getElem?_slots_push h (Nat.succ_ne_zero _).symm

theorem depth_push {s t : CallStack} {a : UInt16} (h : s.push a = .ok t) :
    t.depth.val = s.depth.val + 1 := by
  unfold push at h
  split at h
  · cases h
    rfl
  · cases h

theorem slots_pop {s t : CallStack} {a : UInt16} (h : s.pop = .ok (a, t)) : t.slots = s.slots := by
  unfold pop at h
  split at h <;> cases h
  rfl

theorem depth_pop {s t : CallStack} {a : UInt16} (h : s.pop = .ok (a, t)) :
    s.depth.val = t.depth.val + 1 := by
  rw [← length_toList, toList_pop h, List.length_append, length_toList]
  rfl

theorem push_eq_error_iff (s : CallStack) (a : UInt16) (f : Fault) :
    s.push a = .error f ↔ s.toList.length = 15 ∧ f = .stackOverflow := by
  have := s.depth.isLt
  rw [length_toList]
  unfold push
  split
  · exact ⟨nofun, fun h => by omega⟩
  · exact ⟨fun h => by cases h; exact ⟨by omega, rfl⟩, fun h => by rw [h.2]⟩

theorem pop_eq_error_iff (s : CallStack) (f : Fault) :
    s.pop = .error f ↔ s.toList = [] ∧ f = .stackUnderflow := by
  rw [← List.length_eq_zero_iff, length_toList]
  unfold pop
  split
  · rename_i h
    exact ⟨fun e => by cases e; exact ⟨congrArg Fin.val h, rfl⟩, fun e => by rw [e.2]⟩
  · rename_i h
    exact ⟨nofun, fun e => absurd (Fin.ext e.1) h⟩

end CallStack

end Chip8
