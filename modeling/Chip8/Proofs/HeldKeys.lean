import Chip8.Keypad.Layout

/-!
The keypad as the set of the keys that are held. A press adds its key to the set, if there is such a
key (`mem_heldKeys_press`), and the lowest key is the least of the set (`lowest?_eq_some_iff`).
-/

namespace Chip8.Keypad

theorem mem_heldKeys (k : Keypad) (j : Nibble) : j ∈ k.heldKeys ↔ k.held.get j = true := by
  simp [heldKeys]

/-- A keypad is the set of the keys that are held. -/
theorem ext_heldKeys {k k' : Keypad} (h : ∀ j, j ∈ k.heldKeys ↔ j ∈ k'.heldKeys) : k = k' := by
  have hheld : k.held = k'.held := by
    apply Vector.ext
    intro i hi
    have hj := h ⟨i, hi⟩
    rw [mem_heldKeys, mem_heldKeys] at hj
    exact Bool.eq_iff_iff.mpr hj
  cases k
  cases k'
  exact congrArg Keypad.mk hheld

/-- A key that exists is held if it is in the set. -/
theorem exists_heldKeys_iff {k : Keypad} {key : UInt8} {down : Bool}
    (h : k.isHeld key = .ok down) :
    (∃ j ∈ k.heldKeys, j.val = key.toNat) ↔ down = true := by
  unfold isHeld at h
  split at h
  · rename_i b hb
    cases h
    obtain ⟨hlt, hb⟩ := Vector.getElem?_eq_some_iff.mp hb
    subst hb
    constructor
    · rintro ⟨j, hj, hv⟩
      have hkey : j = ⟨key.toNat, hlt⟩ := Fin.ext hv
      rw [mem_heldKeys, hkey] at hj
      exact hj
    · intro hd
      exact ⟨⟨key.toNat, hlt⟩, (k.mem_heldKeys _).mpr hd, rfl⟩
  · cases h

theorem get_held_set (k : Keypad) (key : UInt8) (down : Bool) (j : Nibble) :
    (k.set key down).held.get j = if key.toNat = j.val then down else k.held.get j := by
  change (k.held.setIfInBounds key.toNat down)[j.val] = if _ then _ else k.held[j.val]
  rw [Vector.getElem_setIfInBounds]

theorem mem_heldKeys_press (k : Keypad) (key : UInt8) (j : Nibble) :
    j ∈ (k.press key).heldKeys ↔ key.toNat = j.val ∨ j ∈ k.heldKeys := by
  rw [mem_heldKeys, press, get_held_set, mem_heldKeys]
  by_cases h : key.toNat = j.val
  · simp [h]
  · simp [h]

/-- After some presses a key is held if it was held before or is one of those pressed. -/
theorem mem_heldKeys_foldl_press (k : Keypad) (keys : List UInt8) (j : Nibble) :
    j ∈ (keys.foldl press k).heldKeys ↔ (∃ key ∈ keys, key.toNat = j.val) ∨ j ∈ k.heldKeys := by
  induction keys generalizing k with
  | nil => simp
  | cons key rest ih =>
    rw [List.foldl_cons, ih, mem_heldKeys_press]
    simp only [List.mem_cons, exists_eq_or_imp]
    rw [or_left_comm, or_assoc]

theorem lowest?_eq_none_iff (k : Keypad) : k.lowest? = none ↔ k.heldKeys = [] := by
  rw [lowest?_eq_head?, List.head?_eq_none_iff]

theorem pairwise_heldKeys (k : Keypad) : k.heldKeys.Pairwise (· < ·) :=
  (List.pairwise_lt_finRange 16).filter _

theorem lowest?_eq_some_iff (k : Keypad) (j : Nibble) :
    k.lowest? = some j ↔ j ∈ k.heldKeys ∧ ∀ i ∈ k.heldKeys, j ≤ i := by
  have hs := k.pairwise_heldKeys
  rw [lowest?_eq_head?]
  cases hk : k.heldKeys with
  | nil => simp
  | cons a rest =>
    rw [hk, List.pairwise_cons] at hs
    simp only [List.head?_cons, Option.some.injEq, List.mem_cons]
    constructor
    · rintro rfl
      refine ⟨Or.inl rfl, ?_⟩
      rintro i (rfl | hi)
      · exact Fin.le_refl _
      · exact Nat.le_of_lt (hs.1 i hi)
    · rintro ⟨rfl | hj, hle⟩
      · rfl
      · exact absurd (hle a (Or.inl rfl)) (Fin.not_le.mpr (hs.1 j hj))

/-- Pressing keys with none held before makes the lowest of them the lowest key. -/
theorem lowest?_foldl_press {k : Keypad} (hk : k.heldKeys = []) {keys : List UInt8}
    (h : ∃ key ∈ keys, key < 16) :
    ∃ key ∈ keys, (∀ other ∈ keys, key ≤ other) ∧
      ∃ j : Nibble, (keys.foldl press k).lowest? = some j ∧ UInt8.ofNat j.val = key := by
  obtain ⟨key, hkey, hlt⟩ := h
  have hmem (j : Nibble) : j ∈ (keys.foldl press k).heldKeys ↔ ∃ key ∈ keys, key.toNat = j.val := by
    rw [mem_heldKeys_foldl_press, hk]
    simp
  cases hl : (keys.foldl press k).lowest? with
  | none =>
    rw [lowest?_eq_none_iff] at hl
    have hin := (hmem ⟨key.toNat, hlt⟩).mpr ⟨key, hkey, rfl⟩
    rw [hl] at hin
    cases hin
  | some j =>
    obtain ⟨hj, hleast⟩ := (lowest?_eq_some_iff _ j).mp hl
    obtain ⟨low, hlow, he⟩ := (hmem j).mp hj
    refine ⟨low, hlow, fun other ho => ?_, j, rfl, ?_⟩
    · rw [UInt8.le_iff_toNat_le, he]
      -- a number beyond the keys is greater than any key
      by_cases ho16 : other.toNat < 16
      · exact hleast ⟨other.toNat, ho16⟩ ((hmem _).mpr ⟨other, ho, rfl⟩)
      · have := j.isLt
        omega
    · rw [← he, UInt8.ofNat_toNat]

end Chip8.Keypad
