import Mathlib.Data.Finset.Erase
import Mathlib.Data.Finset.Insert
import Chip8.Proofs.HeldKeys

/-!
The keypad over any history. Whatever has been pressed, released and set, the keypad is the set to
which the same keys have been added and from which the same keys have been taken
(`Keypad.keys_touchAll`), and it answers for each key by what was done to that key last
(`Keypad.isHeld_touchAll`).
-/

namespace Chip8.Keypad

/-- What a host does with one key. -/
inductive Touch where
  | press (key : UInt8)
  | release (key : UInt8)
  | set (key : UInt8) (down : Bool)
  deriving DecidableEq, Repr

namespace Touch

/-- The key that is named, whether there is such a key or not. -/
def key : Touch → UInt8
  | press key | release key | set key _ => key

/-- Whether the key is to be held from then on. -/
def down : Touch → Bool
  | press _ => true
  | release _ => false
  | set _ down => down

/-- What becomes of a set of keys. -/
def onSet (s : Finset Nibble) (t : Touch) : Finset Nibble :=
  if h : t.key.toNat < 16 then
    if t.down then insert ⟨t.key.toNat, h⟩ s else s.erase ⟨t.key.toNat, h⟩
  else s

theorem mem_onSet (s : Finset Nibble) (t : Touch) (j : Nibble) :
    j ∈ t.onSet s ↔ if t.key.toNat = j.val then t.down = true else j ∈ s := by
  unfold onSet
  split
  · rename_i hkey
    have hj : j = ⟨t.key.toNat, hkey⟩ ↔ t.key.toNat = j.val := by rw [Fin.ext_iff, eq_comm]
    cases t.down with
    | true =>
      rw [if_pos rfl, Finset.mem_insert, hj]
      by_cases h : t.key.toNat = j.val <;> simp [h]
    | false =>
      rw [if_neg Bool.false_ne_true, Finset.mem_erase, ne_eq, hj]
      by_cases h : t.key.toNat = j.val <;> simp [h]
  · -- no key has such a number
    rw [if_neg (by have := j.isLt; omega)]

end Touch

def touch (k : Keypad) : Touch → Keypad
  | .press key => k.press key
  | .release key => k.release key
  | .set key down => k.set key down

/-- The keypad after a history of touches. -/
def touchAll (k : Keypad) (ts : List Touch) : Keypad := ts.foldl touch k

theorem touchAll_cons (k : Keypad) (t : Touch) (rest : List Touch) :
    k.touchAll (t :: rest) = (k.touch t).touchAll rest := rfl

theorem touch_eq_set (k : Keypad) (t : Touch) : k.touch t = k.set t.key t.down := by
  cases t <;> rfl

theorem touch_of_le (k : Keypad) {t : Touch} (h : 16 ≤ t.key) : k.touch t = k := by
  have hle : 16 ≤ t.key.toNat := h
  rw [touch_eq_set, set, Vector.setIfInBounds_eq_of_size_le hle]

/-! ## The set of keys -/

/-- The set that the keypad stands for. -/
def keys (k : Keypad) : Finset Nibble := k.heldKeys.toFinset

theorem mem_keys (k : Keypad) (j : Nibble) : j ∈ k.keys ↔ j ∈ k.heldKeys := List.mem_toFinset

theorem keys_inj {k k' : Keypad} : k.keys = k'.keys ↔ k = k' := by
  constructor
  · intro h
    refine ext_heldKeys fun j => ?_
    rw [← mem_keys, h, mem_keys]
  · rintro rfl
    rfl

theorem keys_touch (k : Keypad) (t : Touch) : (k.touch t).keys = t.onSet k.keys := by
  ext j
  rw [mem_keys, mem_heldKeys, touch_eq_set, get_held_set, Touch.mem_onSet, mem_keys, mem_heldKeys]
  split <;> rfl

theorem keys_touchAll (k : Keypad) (ts : List Touch) :
    (k.touchAll ts).keys = ts.foldl Touch.onSet k.keys := by
  induction ts generalizing k with
  | nil => rfl
  | cons t rest ih => rw [touchAll_cons, ih, keys_touch, List.foldl_cons]

theorem touch_comm (k : Keypad) {t u : Touch} (h : t.key ≠ u.key) :
    (k.touch t).touch u = (k.touch u).touch t := by
  rw [← keys_inj]
  ext j
  simp only [keys_touch, Touch.mem_onSet]
  by_cases ht : t.key.toNat = j.val
  · have hu : u.key.toNat ≠ j.val := fun hu => h (UInt8.toNat_inj.mp (ht.trans hu.symm))
    rw [if_pos ht, if_pos ht, if_neg hu]
  · rw [if_neg ht, if_neg ht]

theorem lowest?_eq_none_iff_keys (k : Keypad) : k.lowest? = none ↔ k.keys = ∅ := by
  rw [lowest?_eq_none_iff, keys, List.toFinset_eq_empty_iff]

theorem lowest?_eq_some_iff_keys (k : Keypad) (j : Nibble) :
    k.lowest? = some j ↔ j ∈ k.keys ∧ ∀ i ∈ k.keys, j ≤ i := by
  simp only [lowest?_eq_some_iff, mem_keys]

/-- A key that exists answers whether it is in the set. -/
theorem isHeld_of_val_eq (k : Keypad) {key : UInt8} {j : Nibble} (h : key.toNat = j.val) :
    k.isHeld key = .ok (decide (j ∈ k.keys)) := by
  have hget : k.held[key.toNat]? = some (k.held.get j) := by
    rw [h]
    exact Vector.getElem?_eq_getElem j.isLt
  have hmem : decide (j ∈ k.keys) = k.held.get j := by
    rw [Bool.eq_iff_iff, decide_eq_true_iff, mem_keys, mem_heldKeys]
  rw [hmem, isHeld, hget]

/-! ## The last touch -/

/-- The last touch of a history that names the key. -/
def lastTouch? (ts : List Touch) (key : UInt8) : Option Touch :=
  (ts.filter (·.key = key)).getLast?

theorem lastTouch?_cons (t : Touch) (rest : List Touch) (key : UInt8) :
    lastTouch? (t :: rest) key =
      (lastTouch? rest key).or (if t.key = key then some t else none) := by
  unfold lastTouch?
  rw [List.filter_cons]
  by_cases h : t.key = key
  · rw [if_pos (decide_eq_true h), if_pos h, List.getLast?_cons]
    cases (rest.filter (·.key = key)).getLast? <;> rfl
  · rw [if_neg (by rwa [decide_eq_true_iff]), if_neg h, Option.or_none]

theorem isHeld_touch (k : Keypad) (t : Touch) {key : UInt8} (hkey : key < 16) :
    (k.touch t).isHeld key = if t.key = key then .ok t.down else k.isHeld key := by
  rw [touch_eq_set, isHeld_set]
  simp only [hkey, and_true]

/-- A key answers what it was left at by the last touch of it, and what it answered before if there
was none. -/
theorem isHeld_touchAll (k : Keypad) (ts : List Touch) {key : UInt8} (hkey : key < 16) :
    (k.touchAll ts).isHeld key =
      (lastTouch? ts key).elim (k.isHeld key) (fun t => .ok t.down) := by
  induction ts generalizing k with
  | nil => rfl
  | cons t rest ih =>
    rw [touchAll_cons, ih, isHeld_touch k t hkey, lastTouch?_cons]
    cases lastTouch? rest key with
    | some u => rfl
    | none =>
      by_cases h : t.key = key
      · rw [if_pos h, if_pos h]
        rfl
      · rw [if_neg h, if_neg h]
        rfl

theorem isHeld_released {key : UInt8} (hkey : key < 16) : released.isHeld key = .ok false := by
  have hnone : released.keys = ∅ := by decide
  rw [released.isHeld_of_val_eq (j := ⟨key.toNat, hkey⟩) rfl, hnone]
  rfl

/-- After any history of presses, releases and settings the keypad of the start is a set of the
sixteen keys, and no other keypad is that set. It is the set that the same history makes of the
empty one. A key that exists is held if it is in the set, which is if the last touch of it left it
so. To ask for another is a fault, and to touch another changes nothing. The lowest key is the least
of the set, and there is none just if the set is empty. Which of two different keys is touched first
does not matter. -/
theorem keypad_is_set (ts : List Touch) :
    ∃ k s, released.touchAll ts = k ∧ ts.foldl Touch.onSet ∅ = s ∧
      (∀ k' : Keypad, k'.keys = s ↔ k' = k) ∧
      (∀ (key : UInt8) (j : Nibble), key.toNat = j.val → k.isHeld key = .ok (decide (j ∈ s))) ∧
      (∀ key < 16, k.isHeld key = .ok ((lastTouch? ts key).any Touch.down)) ∧
      (∀ key, 16 ≤ key → k.isHeld key = .error (.keyOutOfRange key)) ∧
      (∀ t : Touch, 16 ≤ t.key → k.touch t = k) ∧
      (∀ j, k.lowest? = some j ↔ j ∈ s ∧ ∀ i ∈ s, j ≤ i) ∧
      (k.lowest? = none ↔ s = ∅) ∧
      ∀ t u : Touch, t.key ≠ u.key → (k.touch t).touch u = (k.touch u).touch t := by
  have hkeys : (released.touchAll ts).keys = ts.foldl Touch.onSet ∅ :=
    released.keys_touchAll ts
  refine ⟨_, _, rfl, hkeys.symm, fun k' => keys_inj, fun key j => isHeld_of_val_eq _,
    fun key hkey => ?_, fun key hkey => ?_, fun t => touch_of_le _, lowest?_eq_some_iff_keys _,
    lowest?_eq_none_iff_keys _, fun t u => touch_comm _⟩
  · rw [isHeld_touchAll _ _ hkey, isHeld_released hkey]
    cases lastTouch? ts key <;> rfl
  · exact (isHeld_eq_error_iff _ _ _).mpr ⟨hkey, rfl⟩

example : (released.touchAll [.press 0xB, .set 0x3 true, .release 0x13, .release 0x3]).lowest? =
    some 0xB := by decide

end Chip8.Keypad
