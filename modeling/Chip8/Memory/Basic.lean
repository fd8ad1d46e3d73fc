import Chip8.Fault
import Chip8.Memory.Glyphs

/-!
Four kilobytes of memory. Every access is checked; there is no wrap-around at the top. An access
to a range is all or nothing, an empty range is never out of range, and the fault of a failed one
names its first address outside memory.
-/

namespace Chip8

structure Memory where
  bytes : Vector UInt8 0x1000
  deriving DecidableEq

namespace Memory

abbrev size : Nat := 0x1000

/-- The byte at address `a`, if there is one. -/
def byte? (m : Memory) (a : Nat) : Option UInt8 := m.bytes[a]?

/-- Puts `data` at `a` and the addresses after it; what falls outside memory is dropped. -/
def put (m : Memory) (a : Nat) : List UInt8 → Memory
  | [] => m
  | b :: rest => put ⟨m.bytes.setIfInBounds a b⟩ (a + 1) rest

/-- The glyphs at address 0 and zeros after them. -/
def initial : Memory := put ⟨Vector.replicate 0x1000 0⟩ 0 glyphs

def read (m : Memory) (a : Nat) : Except Fault UInt8 :=
  match m.byte? a with
  | some b => .ok b
  | none => .error (.addressOutOfRange a)

def write (m : Memory) (a : Nat) (b : UInt8) : Except Fault Memory :=
  if a < size then .ok (m.put a [b]) else .error (.addressOutOfRange a)

/-- The first address outside memory of a range that starts at `a` and does not fit. -/
def firstOutside (a : Nat) : Nat := max a size

/-- The `len` bytes from `a` on. -/
def readRange (m : Memory) (a len : Nat) : Except Fault (List UInt8) :=
  if len = 0 then .ok []
  else if h : a + len ≤ size then
    .ok (List.ofFn fun k : Fin len =>
      m.bytes.get ⟨a + k, Nat.lt_of_lt_of_le (Nat.add_lt_add_left k.isLt a) h⟩)
  else .error (.addressOutOfRange (firstOutside a))

def writeRange (m : Memory) (a : Nat) (data : List UInt8) : Except Fault Memory :=
  if data.isEmpty then .ok m
  else if a + data.length ≤ size then .ok (m.put a data)
  else .error (.addressOutOfRange (firstOutside a))

theorem byte?_eq_none_iff (m : Memory) (a : Nat) : m.byte? a = none ↔ size ≤ a := by
  simp [byte?]

theorem eq_of_byte? {m n : Memory} (h : ∀ a, m.byte? a = n.byte? a) : m = n := by
  have hbytes : m.bytes = n.bytes := Vector.ext fun a ha => by
    have hs := h a
    rw [byte?, byte?, Vector.getElem?_eq_getElem ha, Vector.getElem?_eq_getElem ha] at hs
    exact Option.some.inj hs
  cases m
  exact congrArg mk hbytes

theorem byte?_put (m : Memory) (a : Nat) (data : List UInt8) (b : Nat) :
    (m.put a data).byte? b =
      if a ≤ b ∧ b < a + data.length ∧ b < size then data[b - a]? else m.byte? b := by
  induction data generalizing m a with
  | nil => simp [put]; omega
  | cons d rest ih =>
    rw [put, ih]
    simp only [List.length_cons, byte?, Vector.getElem?_setIfInBounds]
    by_cases h : a = b
    · subst h; simp; grind
    · by_cases hb : a + 1 ≤ b
      · have e : b - a = (b - (a + 1)) + 1 := by omega
        simp only [e, List.getElem?_cons_succ]
        grind
      · grind

theorem byte?_put_of_lt (m : Memory) {a k : Nat} {data : List UInt8}
    (h : a + data.length ≤ size) (hk : k < data.length) :
    (m.put a data).byte? (a + k) = data[k]? := by
  rw [byte?_put, if_pos ⟨Nat.le_add_right a k, Nat.add_lt_add_left hk a, by omega⟩,
    Nat.add_sub_cancel_left]

/-- Bytes that are put where as many others were hide them. -/
theorem put_put (m : Memory) (a : Nat) {older newer : List UInt8}
    (h : older.length = newer.length) : (m.put a older).put a newer = m.put a newer := by
  refine eq_of_byte? fun b => ?_
  rw [byte?_put, byte?_put, byte?_put, h]
  by_cases hb : a ≤ b ∧ b < a + newer.length ∧ b < size
  · rw [if_pos hb, if_pos hb]
  · rw [if_neg hb, if_neg hb, if_neg hb]

/-- A range that can be read holds the bytes at its addresses. -/
theorem getElem?_readRange {m : Memory} {a len : Nat} {data : List UInt8}
    (h : m.readRange a len = .ok data) (k : Nat) :
    data[k]? = if k < len then m.byte? (a + k) else none := by
  unfold readRange at h
  split at h
  · cases h; simp; omega
  · split at h
    · rename_i hlen hfit
      cases h
      by_cases hk : k < len
      · have hb : a + k < 0x1000 := Nat.lt_of_lt_of_le (Nat.add_lt_add_left hk a) hfit
        simp only [List.getElem?_ofFn, hk, dif_pos, if_true, byte?, Vector.getElem?_eq_getElem hb]
        rfl
      · simp [hk]
    · cases h

theorem length_readRange {m : Memory} {a len : Nat} {data : List UInt8}
    (h : m.readRange a len = .ok data) : data.length = len := by
  unfold readRange at h
  split at h
  · rename_i hlen
    cases h
    exact hlen.symm
  · split at h
    · cases h
      rw [List.length_ofFn]
    · cases h

theorem readRange_eq_error_iff (m : Memory) (a len : Nat) (f : Fault) :
    m.readRange a len = .error f ↔
      0 < len ∧ size < a + len ∧ f = .addressOutOfRange (firstOutside a) := by
  unfold readRange
  split
  · rename_i h
    exact ⟨nofun, fun e => absurd h (Nat.ne_of_gt e.1)⟩
  · split
    · rename_i h
      exact ⟨nofun, fun e => absurd h (Nat.not_le_of_lt e.2.1)⟩
    · rename_i h₁ h₂
      refine ⟨fun e => ?_, fun e => by rw [e.2.2]⟩
      cases e
      exact ⟨Nat.pos_of_ne_zero h₁, Nat.lt_of_not_le h₂, rfl⟩

theorem writeRange_eq_error_iff (m : Memory) (a : Nat) (data : List UInt8) (f : Fault) :
    m.writeRange a data = .error f ↔
      data ≠ [] ∧ size < a + data.length ∧ f = .addressOutOfRange (firstOutside a) := by
  unfold writeRange
  split
  · rename_i h
    exact ⟨nofun, fun e => absurd (List.isEmpty_iff.mp h) e.1⟩
  · split
    · rename_i h
      exact ⟨nofun, fun e => absurd h (Nat.not_le_of_lt e.2.1)⟩
    · rename_i h₁ h₂
      refine ⟨fun e => ?_, fun e => by rw [e.2.2]⟩
      cases e
      exact ⟨fun e => h₁ (List.isEmpty_iff.mpr e), Nat.lt_of_not_le h₂, rfl⟩

/-- A range that can be written changes its own bytes and no others. -/
theorem byte?_writeRange {m n : Memory} {a : Nat} {data : List UInt8}
    (h : m.writeRange a data = .ok n) (b : Nat) :
    n.byte? b = if a ≤ b ∧ b < a + data.length then data[b - a]? else m.byte? b := by
  unfold writeRange at h
  split at h
  · rename_i hd
    cases h
    rw [List.isEmpty_iff.mp hd, if_neg]
    rintro ⟨hl, hr⟩
    exact absurd hr (Nat.not_lt_of_le hl)
  · split at h
    · cases h
      rw [byte?_put]
      grind
    · cases h

end Memory

end Chip8
