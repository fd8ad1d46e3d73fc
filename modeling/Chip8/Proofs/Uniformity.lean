import Mathlib.SetTheory.Cardinal.Finite
import Chip8.Proofs.Randomness
import Chip8.Random.Generator

/-!
How seeded bytes are spread. Each byte from 0 to 254 is given by the words of one interval
(`Generator.byteOf?_eq_some_iff`), and all these intervals have the same length. One word is left
over and gives none.
-/

namespace Chip8

namespace Generator

/-- The number of words that give a byte, a 255th of all words but one. -/
def share : Nat := 16843009

/-- The first word that gives the byte. The one that gives none lies behind those that give 0. -/
def firstWord (b : UInt8) : Nat := if b = 0 then 0 else b.toNat * share + 1

theorem ne_top_iff (b : UInt8) : b ≠ 0xFF ↔ b.toNat < 255 := by
  have hlt : b.toNat < 256 := b.toNat_lt
  rw [ne_eq, ← UInt8.toNat_inj]
  change ¬ b.toNat = 255 ↔ _
  omega

/-- The drawing rule, in terms of numbers. -/
theorem byteOf?_eq_some_iff_product (w : UInt32) (b : UInt8) :
    byteOf? w = some b ↔
      w.toNat * 255 % 4294967296 ≠ 4294967295 ∧ b.toNat = w.toNat * 255 / 4294967296 := by
  have hw : w.toNat < 4294967296 := w.toNat_lt
  have hquotient : w.toNat * 255 / 4294967296 < 256 := by omega
  have hbyte : (UInt8.ofNat (w.toNat * 255 / 4294967296)).toNat = w.toNat * 255 / 4294967296 :=
    UInt8.toNat_ofNat_of_lt' hquotient
  unfold byteOf?
  change (if w.toNat * 255 % 4294967296 = 4294967295 then none
    else some (UInt8.ofNat (w.toNat * 255 / 4294967296))) = some b ↔ _
  split
  · rename_i hrejected
    exact ⟨nofun, fun h => absurd hrejected h.1⟩
  · rename_i hkept
    rw [Option.some.injEq, ← UInt8.toNat_inj, hbyte, eq_comm]
    exact ⟨fun h => ⟨hkept, h⟩, And.right⟩

/-- The words that give a byte are those of an interval. -/
theorem byteOf?_eq_some_iff (w : UInt32) (b : UInt8) :
    byteOf? w = some b ↔
      b ≠ 0xFF ∧ firstWord b ≤ w.toNat ∧ w.toNat < firstWord b + share := by
  have hw : w.toNat < 4294967296 := w.toNat_lt
  have hzero : b = 0 ↔ b.toNat = 0 := UInt8.toNat_inj.symm
  rw [byteOf?_eq_some_iff_product, ne_top_iff, firstWord, share]
  simp only [hzero]
  split <;> omega

theorem byteOf?_eq_none_iff (w : UInt32) : byteOf? w = none ↔ w.toNat = share := by
  have hw : w.toNat < 4294967296 := w.toNat_lt
  unfold byteOf? share
  simp only [ite_eq_left_iff, reduceCtorEq, imp_false, Decidable.not_not]
  change w.toNat * 255 % 4294967296 = 4294967295 ↔ _
  omega

/-- The words of an interval, numbered from its first. -/
def intervalEquiv (a n : Nat) (h : a + n ≤ UInt32.size) :
    {w : UInt32 // a ≤ w.toNat ∧ w.toNat < a + n} ≃ Fin n where
  toFun w := ⟨w.1.toNat - a, by have := w.2; omega⟩
  invFun k := ⟨UInt32.ofNat (a + k), by
    have hk : a + k.1 < UInt32.size := by omega
    rw [UInt32.toNat_ofNat_of_lt' hk]
    omega⟩
  left_inv w := by
    have hadd : a + (w.1.toNat - a) = w.1.toNat := by have := w.2; omega
    apply Subtype.ext
    change UInt32.ofNat (a + (w.1.toNat - a)) = w.1
    rw [hadd, UInt32.ofNat_toNat]
  right_inv k := by
    have hk : a + k.1 < UInt32.size := by omega
    apply Fin.ext
    change (UInt32.ofNat (a + k)).toNat - a = k
    rw [UInt32.toNat_ofNat_of_lt' hk, Nat.add_sub_cancel_left]

/-- Words that a rule picks are as many as the interval they form is long. -/
theorem card_of_iff_interval {P : UInt32 → Prop} {a n : Nat} (h : a + n ≤ UInt32.size)
    (hP : ∀ w, P w ↔ a ≤ w.toNat ∧ w.toNat < a + n) : Nat.card {w // P w} = n :=
  Nat.card_eq_of_equiv_fin ((Equiv.subtypeEquivRight hP).trans (intervalEquiv a n h))

theorem card_byteOf?_eq_none : Nat.card {w // byteOf? w = none} = 1 := by
  have hsize : share + 1 ≤ UInt32.size := by decide
  refine card_of_iff_interval hsize fun w => ?_
  rw [byteOf?_eq_none_iff]
  omega

theorem card_byteOf?_eq_some {b : UInt8} (hb : b ≠ 0xFF) :
    Nat.card {w // byteOf? w = some b} = share := by
  have hlt := (ne_top_iff b).mp hb
  have hsize : firstWord b + share ≤ UInt32.size := by
    change _ ≤ 4294967296
    unfold firstWord share
    split <;> omega
  refine card_of_iff_interval hsize fun w => ?_
  rw [byteOf?_eq_some_iff]
  exact and_iff_right hb

variable (g : Generator)

/-- The words that come next. -/
def upcoming : Nat → Generator → List UInt32
  | 0, _ => []
  | n + 1, g => g.nextWord.1 :: upcoming n g.nextWord.2

/-- A byte is drawn from the first word that gives one. -/
theorem nextByte_eq_findSome? (n : Nat) :
    (g.nextByte n).1 = ((upcoming n g).findSome? byteOf?).getD 0 := by
  induction n generalizing g with
  | zero => rfl
  | succ n ih =>
    rw [nextByte, upcoming, List.findSome?_cons]
    obtain ⟨w, rest⟩ := g.nextWord
    dsimp only
    cases byteOf? w with
    | some b => rfl
    | none => exact ih rest

theorem nextByte_ne (n : Nat) : (g.nextByte n).1 ≠ 0xFF := by
  rw [nextByte_eq_findSome?]
  cases hfound : (upcoming n g).findSome? byteOf? with
  | none => decide
  | some b =>
    obtain ⟨w, -, hw⟩ := List.exists_of_findSome?_eq_some hfound
    exact ((byteOf?_eq_some_iff w b).mp hw).1

theorem get_ne (n : Nat) : ByteSource.get g n ≠ 0xFF :=
  nextByte_ne (ByteSource.drop n g) period

/-- Seeded bytes are uniform on the numbers from 0 to 254. Each byte of a seed's stream is drawn from
the first word that gives one, and is at most 254, so no cycle of a run of a machine that takes its
bytes from such a stream draws 255. One word out of all words gives no byte, and every number from 0
to 254 is given by equally many. -/
theorem bytes_are_uniform :
    (∀ seed n, ByteSource.get (ofSeed seed) n =
      ((upcoming period (ByteSource.drop n (ofSeed seed))).findSome? byteOf?).getD 0 ∧
      ByteSource.get (ofSeed seed) n ≤ 254) ∧
    (∀ (m : Machine Generator) (events : List Event) (j : Nat) (roll : Machine Generator),
      (m.rolls events)[j]? = some roll →
        (ByteSource.next roll.source).1 = ByteSource.get m.source j ∧
        (ByteSource.next roll.source).1 ≠ 0xFF) ∧
    Nat.card {w // byteOf? w = none} = 1 ∧
    ∀ b : UInt8, b ≤ 254 → Nat.card {w // byteOf? w = some b} = 16843009 := by
  have hle (b : UInt8) : b ≤ 254 ↔ b ≠ 0xFF := by
    rw [UInt8.le_iff_toNat_le, ne_top_iff]
    exact Nat.lt_succ_iff.symm
  refine ⟨?_, ?_, card_byteOf?_eq_none, ?_⟩
  · intro seed n
    exact ⟨nextByte_eq_findSome? _ period, (hle _).mpr (get_ne _ n)⟩
  · intro m events j roll h
    obtain ⟨-, hsource⟩ := Machine.of_getElem?_rolls h
    rw [hsource]
    exact ⟨rfl, get_ne m.source j⟩
  · intro b hb
    exact card_byteOf?_eq_some ((hle b).mp hb)

end Generator

end Chip8
