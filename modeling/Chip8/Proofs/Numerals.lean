import Mathlib.Data.Nat.Digits.Defs
import Chip8.Text.Decimal

/-!
What texts are numbers. A text denotes a number if it is a row of digits with that value in base
ten, with a plus sign before it or without (`Denotes`). Reading a number accepts exactly the texts
that denote one that is small enough (`readUInt64?_eq_some_iff`), and every number has such a text
(`exists_denotes`).
-/

namespace Chip8.Text.Decimal

def IsDigit (c : Char) : Prop := '0' ≤ c ∧ c ≤ '9'

instance (c : Char) : Decidable (IsDigit c) := inferInstanceAs (Decidable ('0' ≤ c ∧ c ≤ '9'))

/-- How far above the first digit a character stands. -/
def weight (c : Char) : Nat := c.toNat - '0'.toNat

/-- The value of a row of digits, the last of which counts for ones. -/
def value (digits : List Char) : Nat := Nat.ofDigits 10 (digits.reverse.map weight)

/-- The text is one digit or more, and a plus sign may stand before them. -/
def Denotes (text : String) (n : Nat) : Prop :=
  ∃ sign digits, (sign = [] ∨ sign = ['+']) ∧ digits ≠ [] ∧ (∀ c ∈ digits, IsDigit c) ∧
    text.toList = sign ++ digits ∧ n = value digits

theorem digit?_eq_some_iff (c : Char) (d : Nat) : digit? c = some d ↔ IsDigit c ∧ d = weight c := by
  unfold digit?
  split
  · rename_i h
    rw [Option.some.injEq]
    exact ⟨fun e => ⟨h, e.symm⟩, fun e => e.2.symm⟩
  · rename_i h
    exact ⟨nofun, fun e => absurd e.1 h⟩

@[simp] theorem value_nil : value [] = 0 := rfl

theorem value_cons (c : Char) (rest : List Char) :
    value (c :: rest) = weight c * 10 ^ rest.length + value rest := by
  unfold value
  rw [List.reverse_cons, List.map_append, Nat.ofDigits_append, List.length_map, List.length_reverse,
    List.map_singleton, Nat.ofDigits_singleton, Nat.mul_comm, Nat.add_comm]

theorem value_append_singleton (digits : List Char) (c : Char) :
    value (digits ++ [c]) = 10 * value digits + weight c := by
  unfold value
  rw [List.reverse_append, List.reverse_singleton, List.singleton_append, List.map_cons,
    Nat.ofDigits_cons, Nat.add_comm]

/-- Digits that follow others count for as much as they do alone, and lift those before them. -/
theorem continue?_eq_some_iff (n m : Nat) (cs : List Char) :
    continue? n cs = some m ↔ (∀ c ∈ cs, IsDigit c) ∧ m = n * 10 ^ cs.length + value cs := by
  induction cs generalizing n with
  | nil => simp [continue?, eq_comm]
  | cons c rest ih =>
    have hsum (d : Nat) : (10 * n + d) * 10 ^ rest.length + value rest =
        n * 10 ^ (rest.length + 1) + (d * 10 ^ rest.length + value rest) := by
      rw [Nat.add_mul, Nat.pow_succ, Nat.mul_comm 10 n, Nat.mul_assoc, Nat.mul_comm 10,
        Nat.add_assoc]
    simp only [continue?, Option.bind_eq_some_iff, digit?_eq_some_iff, ih, List.forall_mem_cons,
      List.length_cons, value_cons]
    constructor
    · rintro ⟨d, ⟨hc, rfl⟩, hrest, rfl⟩
      exact ⟨⟨hc, hrest⟩, hsum _⟩
    · rintro ⟨⟨hc, hrest⟩, rfl⟩
      exact ⟨_, ⟨hc, rfl⟩, hrest, (hsum _).symm⟩

theorem ofDigits?_eq_some_iff (n : Nat) (cs : List Char) :
    ofDigits? cs = some n ↔ cs ≠ [] ∧ (∀ c ∈ cs, IsDigit c) ∧ n = value cs := by
  cases cs with
  | nil => exact ⟨nofun, fun h => absurd rfl h.1⟩
  | cons c rest =>
    have hzero : 0 * 10 ^ (c :: rest).length + value (c :: rest) = value (c :: rest) := by
      rw [Nat.zero_mul, Nat.zero_add]
    rw [ofDigits?, continue?_eq_some_iff, hzero]
    · exact (and_iff_right (List.cons_ne_nil c rest)).symm
    · exact List.cons_ne_nil c rest

theorem read?_eq_some_iff (n : Nat) (text : String) :
    read? text.toList = some n ↔ Denotes text n := by
  have hplus : ¬ IsDigit '+' := by decide
  unfold Denotes read?
  split
  · rename_i cs h
    rw [ofDigits?_eq_some_iff]
    constructor
    · rintro ⟨hne, hdigits, hn⟩
      exact ⟨['+'], cs, Or.inr rfl, hne, hdigits, h, hn⟩
    · rintro ⟨sign, digits, rfl | rfl, hne, hdigits, hl, hn⟩
      · rw [List.nil_append] at hl
        exact absurd (hdigits '+' (hl ▸ h ▸ List.mem_cons_self)) hplus
      · cases h.symm.trans hl
        exact ⟨hne, hdigits, hn⟩
  · rename_i hsigned
    rw [ofDigits?_eq_some_iff]
    constructor
    · rintro ⟨hne, hdigits, hn⟩
      exact ⟨[], text.toList, Or.inl rfl, hne, hdigits, rfl, hn⟩
    · rintro ⟨sign, digits, rfl | rfl, hne, hdigits, hl, hn⟩
      · rw [hl]
        exact ⟨hne, hdigits, hn⟩
      · exact absurd hl (hsigned digits)

theorem readUInt64?_eq_some_iff (text : String) (n : UInt64) :
    readUInt64? text = some n ↔ Denotes text n.toNat := by
  rw [← read?_eq_some_iff]
  unfold readUInt64?
  simp only [Option.bind_eq_some_iff]
  constructor
  · rintro ⟨k, hk, h⟩
    split at h
    · rename_i hlt
      cases h
      rw [UInt64.toNat_ofNat_of_lt' hlt]
      exact hk
    · cases h
  · intro h
    refine ⟨n.toNat, h, ?_⟩
    rw [if_pos n.toNat_lt, UInt64.ofNat_toNat]

/-- A row of digits for every number: those of a tenth of it, and one more. -/
theorem exists_digits (n : Nat) :
    ∃ digits, digits ≠ [] ∧ (∀ c ∈ digits, IsDigit c) ∧ value digits = n := by
  have hdigit : ∀ d < 10, IsDigit (Char.ofNat (d + 48)) ∧ weight (Char.ofNat (d + 48)) = d := by
    decide
  induction n using Nat.strongRecOn with
  | ind n ih =>
    obtain ⟨hd, hw⟩ := hdigit (n % 10) (Nat.mod_lt n (by decide))
    by_cases hn : n < 10
    · refine ⟨[Char.ofNat (n % 10 + 48)], List.cons_ne_nil _ _, ?_, ?_⟩
      · exact List.forall_mem_singleton.mpr hd
      · rw [← List.nil_append [_], value_append_singleton, hw, value_nil]
        omega
    · obtain ⟨digits, -, hall, hv⟩ := ih (n / 10) (by omega)
      refine ⟨digits ++ [Char.ofNat (n % 10 + 48)], List.concat_ne_nil _ _, ?_, ?_⟩
      · rw [List.forall_mem_append]
        exact ⟨hall, List.forall_mem_singleton.mpr hd⟩
      · rw [value_append_singleton, hv, hw]
        exact Nat.div_add_mod n 10

theorem exists_denotes (n : Nat) : ∃ text, Denotes text n := by
  obtain ⟨digits, hne, hall, hv⟩ := exists_digits n
  exact ⟨String.ofList digits, [], digits, Or.inl rfl, hne, hall, String.toList_ofList, hv.symm⟩

end Chip8.Text.Decimal
