/-!
What a computation that can fail comes to, by what its parts come to.
-/

namespace Chip8

variable {ε α β : Type} {r : Except ε α} {b : β}

/-- What is made of the value of a computation changes nothing about its failure. -/
theorem map_eq_error_iff {g : α → β} {e : ε} : r.map g = .error e ↔ r = .error e := by
  cases r with
  | ok a => exact ⟨nofun, nofun⟩
  | error e =>
    constructor <;>
    · intro h
      cases h
      rfl

theorem map_eq_ok_iff {g : α → β} : r.map g = .ok b ↔ ∃ a, r = .ok a ∧ g a = b := by
  cases r with
  | ok a =>
    constructor
    · intro h
      cases h
      exact ⟨a, rfl, rfl⟩
    · rintro ⟨c, h, rfl⟩
      cases h
      rfl
  | error e => exact ⟨nofun, nofun⟩

theorem bind_eq_ok_iff {g : α → Except ε β} :
    r >>= g = .ok b ↔ ∃ a, r = .ok a ∧ g a = .ok b := by
  cases r with
  | ok a =>
    constructor
    · intro h
      exact ⟨a, rfl, h⟩
    · rintro ⟨c, h, hg⟩
      cases h
      exact hg
  | error e => exact ⟨nofun, nofun⟩

end Chip8
